import LineTally.Proofs.Candidates.Contract
import LineTally.Proofs.Candidates.Suffix
import LineTally.Proofs.Distinct.Firsts

/-!
# Skipping loops loses no file

The walk does not follow a link to a directory that it is inside of, so of the many paths that lead
to one file it takes only some. That it takes at least one, however the links are laid, is an
argument about the directories on a path. If two of them are the same one, **the names between them
can be left out**: the rest of the path starts at the same place, and with no fewer links to spare
(`status_cut`). If no two are, no link on it leads back, and the walk goes down it
(`descent_of_no_loop`). Every path can be cut only finitely often (`candidate_of_leadsToFile`).

Nothing must be closed for this, and the suffix must be one of names (`matchesPath_join`): otherwise
a cut might bring about a match in the middle of a path.
-/

set_option autoImplicit false

namespace LineTally

/-- Nothing about an item is forbidden to its owner. -/
def Item.isOpen : Item → Bool
  | .file permissions _ => permissions.readable
  | .directory permissions => permissions.readable && permissions.searchable
  | .link _ => true

namespace FileTree

/-- Every directory may be listed and searched, and every file read. -/
def AllOpen (t : FileTree) : Prop := ∀ p ∈ t.items, p.2.isOpen = true

/-- **Some names below a root lead to a file**, by way of directories that do not match, and the
last of them matches. Links may be crossed in any number, and more than once. -/
structure LeadsToFile (t : FileTree) (suffix : Suffix) (root : Path) (names : List Name)
    (name : Name) (place : Place) (content : Bytes) : Prop where
  proper : ∀ n ∈ names ++ [name], n.isProper = true
  before : ∀ n ∈ names, suffix.matchesPath n = false
  last : suffix.matchesPath name = true
  status : ∃ permissions,
    t.status (root.through (names ++ [name])) = .ok ⟨place, .file permissions content⟩

variable {t : FileTree} {suffix : Suffix} {root path : Path} {names : List Name} {name : Name}
  {place : Place} {content : Bytes} {n : Nat} {found : Found}

/-! ## 1. Directories on a path -/

theorem status_of_leadsTo {permissions : Permissions} (h : t.LeadsTo path n place)
    (hle : n ≤ maxLinks) (hitem : t.item? place = some (.directory permissions)) :
    t.status path = .ok ⟨place, .directory permissions⟩ := by
  obtain ⟨slashed, _, heq⟩ := @Leads.resolve_eq t maxLinks n _ place path.names [] .follow
    path.endsInSlash h.leads hle (Or.inr rfl)
  rw [List.append_nil, resolve_nil] at heq
  refine find_eq_ok_iff.mpr ⟨h.noNul, h.nonempty, ?_, hitem⟩
  rw [heq]
  simp [isDirectoryAt, hitem, Item.kind]

theorem lists_of_status (hopen : t.AllOpen) {permissions : Permissions}
    (h : t.status path = .ok ⟨place, .directory permissions⟩) : t.Lists path place := by
  obtain ⟨_, _, _, hitem⟩ := find_eq_ok_iff.mp h
  have hboth := hopen (place, .directory permissions) (item?_eq_some_iff.mp hitem)
  obtain ⟨hreadable, _⟩ := Bool.and_eq_true_iff.mp hboth
  exact list_eq_ok_iff.mpr ⟨rfl, permissions, hreadable, h⟩

theorem lists_of_enter (hopen : t.AllOpen) (h : t.LeadsTo path n place) (hle : n ≤ maxLinks)
    (hin : t.enter place = .ok ()) : t.Lists path place := by
  obtain ⟨permissions, _, hitem⟩ := item_of_enter hin
  exact lists_of_status hopen (status_of_leadsTo h hle hitem)

theorem exists_entry_of_resolve {last : LastLink} {links : Nat} {rest : List Name}
    {slashed : Bool} {here end_ : Place} (hproper : name.isProper = true)
    (h : t.resolve last links here (name :: rest) slashed = .ok end_) :
    t.enter here = .ok () ∧ ∃ kind, (⟨name, kind⟩ : Entry) ∈ t.entries here := by
  obtain ⟨_, _, _, _, hdot, hdotDot⟩ := Name.isProper_iff.mp hproper
  rcases resolve_cons_cases h with ⟨next, moves⟩ | ⟨target, meets⟩
  · refine ⟨moves.entered, ?_⟩
    rcases moves.next_eq with ⟨heq, _⟩ | ⟨heq, _⟩ | ⟨_, _, rfl, item, hitem, _⟩
    · exact absurd heq hdot
    · exact absurd heq hdotDot
    · exact ⟨item.kind, mem_entries.mpr ⟨item, hitem, rfl⟩⟩
  · exact ⟨meets.entered, .link, mem_entries.mpr ⟨_, meets.item, rfl⟩⟩

/-- **A directory on a path that leads somewhere**: it can be listed, it has the name that comes
next, and what is found in the end is found from there. -/
theorem on_way (hopen : t.AllOpen) {start : Place} (hroot : t.Lists root start)
    {before rest : List Name} (hproper : ∀ m ∈ before ++ name :: rest, m.isProper = true)
    (h : t.status (root.through (before ++ name :: rest)) = .ok found) :
    ∃ n ≤ maxLinks, ∃ place, t.LeadsTo (root.through before) n place ∧
      t.Lists (root.through before) place ∧
      (∃ kind, t.HasEntry (root.through before) ⟨name, kind⟩) ∧
      t.resolve .follow (maxLinks - n) place (name :: rest) false = .ok found.place ∧
      t.item? found.place = some found.item := by
  obtain ⟨_, _, hrootLeads⟩ := hroot.leadsTo
  have hbefore : ∀ m ∈ before, m.isProper = true := fun m hm =>
    hproper m (List.mem_append_left _ hm)
  have hrest : ∀ m ∈ name :: rest, m.isProper = true := fun m hm =>
    hproper m (List.mem_append_right _ hm)
  rw [Path.through_append] at h
  have hnul : 0 ∉ root.through before :=
    Path.notMem_through (by decide) hrootLeads.noNul fun m hm => noNul_of_isProper (hbefore m hm)
  obtain ⟨n, hle, place, leadsTo⟩ := leadsTo_of_find_through hnul
    (Path.through_ne_nil before hrootLeads.nonempty) (List.cons_ne_nil _ _) hrest h
  obtain ⟨hresolve, hitem⟩ :=
    (find_through_eq_ok_iff leadsTo hle (List.cons_ne_nil _ _) hrest).mp h
  obtain ⟨hin, kind, hentry⟩ :=
    exists_entry_of_resolve (hrest name List.mem_cons_self) hresolve
  have hlists := lists_of_enter hopen leadsTo hle hin
  exact ⟨n, hle, place, leadsTo, hlists, ⟨kind, place, hlists, hentry⟩, hresolve, hitem⟩

/-! ## 2. Leaving names out -/

theorem LeadsTo.links_le {before : List Name} {n' : Nat} {place' : Place}
    (hproper : ∀ m ∈ before, m.isProper = true) (h : t.LeadsTo (path.through before) n place)
    (h' : t.LeadsTo path n' place') : n' ≤ n := by
  have leads := h.leads
  rw [origin_through _ _ h'.nonempty, Path.names_through _ hproper] at leads
  obtain ⟨k, mid, hle, hleft, _⟩ := leads.split
  obtain ⟨rfl, _⟩ := hleft.unique h'.leads
  exact hle

/-- **What lies between two stays in one directory may be left out of a path.** -/
theorem status_cut (hopen : t.AllOpen) {start : Place} (hroot : t.Lists root start)
    {before between rest : List Name} (hne : rest ≠ [])
    (hproper : ∀ m ∈ before ++ between ++ rest, m.isProper = true)
    (hsame : t.SameDirectory (root.through before) (root.through (before ++ between)))
    (h : t.status (root.through (before ++ between ++ rest)) = .ok found) :
    t.status (root.through (before ++ rest)) = .ok found := by
  obtain ⟨name, rest, rfl⟩ := List.exists_cons_of_ne_nil hne
  obtain ⟨place, hhere, hthere⟩ := hsame
  obtain ⟨n, hle, place', leadsTo, hlists, _, hresolve, hitem⟩ := on_way hopen hroot hproper h
  obtain rfl := hthere.unique hlists
  obtain ⟨k, hk, leadsTo'⟩ := hhere.leadsTo
  have hbetween : ∀ m ∈ between, m.isProper = true := fun m hm =>
    hproper m (List.mem_append_left _ (List.mem_append_right _ hm))
  have hrest : ∀ m ∈ name :: rest, m.isProper = true := fun m hm =>
    hproper m (List.mem_append_right _ hm)
  -- The rest of the path has at least as many links to spare when it starts from here.
  have hlinks : k ≤ n := by
    rw [Path.through_append] at leadsTo
    exact leadsTo.links_le hbetween leadsTo'
  rw [Path.through_append]
  refine (find_through_eq_ok_iff leadsTo' hk (List.cons_ne_nil _ _) hrest).mpr ⟨?_, hitem⟩
  exact resolve_follow_mono hresolve (Nat.sub_le_sub_left hlinks _)

/-- **A path that is in no directory twice is a way down.** -/
theorem descent_of_no_loop (hopen : t.AllOpen) (hslash : '/' ∉ suffix.text) {start : Place}
    (hroot : t.Lists root start) (hproper : ∀ m ∈ names ++ [name], m.isProper = true)
    (hbefore : ∀ m ∈ names, suffix.matchesPath m = false)
    (h : t.status (root.through (names ++ [name])) = .ok found)
    (hloop : ¬ ∃ i j, i < j ∧ j ≤ names.length ∧
      t.SameDirectory (root.through (names.take i)) (root.through (names.take j))) :
    t.Descent suffix.matchesPath root names := by
  have hway : ∀ i ≤ names.length, ∃ place, t.Lists (root.through (names.take i)) place ∧
      ∀ hi : i < names.length, ∃ kind,
        t.HasEntry (root.through (names.take i)) ⟨names[i], kind⟩ := by
    intro i hi
    -- Some name always follows, if only that of the file.
    have hsplit : names ++ [name] = names.take i ++ (names.drop i ++ [name]) := by
      rw [← List.append_assoc, List.take_append_drop]
    rw [hsplit] at hproper h
    rcases Nat.lt_or_eq_of_le hi with hlt | rfl
    · rw [List.drop_eq_getElem_cons hlt, List.cons_append] at hproper h
      obtain ⟨_, _, place, _, hlists, hentry, _⟩ := on_way hopen hroot hproper h
      exact ⟨place, hlists, fun _ => hentry⟩
    · rw [List.drop_length, List.nil_append] at hproper h
      obtain ⟨_, _, place, _, hlists, _⟩ := on_way hopen hroot hproper h
      exact ⟨place, hlists, fun hi => absurd hi (Nat.lt_irrefl _)⟩
  refine ⟨⟨start, hroot⟩, fun i hi => ?_⟩
  have hnext : names.take i ++ [names[i]] = names.take (i + 1) :=
    (List.take_succ_eq_append_getElem hi).symm
  obtain ⟨_, _, hentry⟩ := hway i (Nat.le_of_lt hi)
  obtain ⟨place, hlists, _⟩ := hway (i + 1) hi
  refine ⟨hentry hi, ⟨place, hnext ▸ hlists⟩, ?_, fun _ j hj hsame => hloop ?_⟩
  · rw [Path.through_concat, Suffix.matchesPath_join hslash]
    exact hbefore _ (List.getElem_mem hi)
  · have hji : j ≤ i := Nat.le_trans hj (List.length_take_le _ _)
    rw [hnext, List.take_take, Nat.min_eq_left hji] at hsame
    obtain ⟨there, hthere, hhere⟩ := hsame
    exact ⟨j, i + 1, Nat.lt_succ_of_le hji, hi, there, hhere, hthere⟩

/-! ## 3. Some path to every file -/

theorem LeadsToFile.cut (hopen : t.AllOpen) {start : Place} (hroot : t.Lists root start)
    {i j : Nat} (hij : i < j) (h : t.LeadsToFile suffix root names name place content)
    (hsame : t.SameDirectory (root.through (names.take i)) (root.through (names.take j))) :
    t.LeadsToFile suffix root (names.take i ++ names.drop j) name place content := by
  obtain ⟨hproper, hbefore, hlast, permissions, hstatus⟩ := h
  have hbetween : names.take i ++ (names.take j).drop i = names.take j := by
    have htake : names.take i = (names.take j).take i := by
      rw [List.take_take, Nat.min_eq_left (Nat.le_of_lt hij)]
    rw [htake, List.take_append_drop]
  have hsplit : names ++ [name] =
      names.take i ++ (names.take j).drop i ++ (names.drop j ++ [name]) := by
    rw [hbetween, ← List.append_assoc, List.take_append_drop]
  have hsub : ∀ m ∈ names.take i ++ names.drop j, m ∈ names := by
    intro m hm
    rcases List.mem_append.mp hm with hm | hm
    · exact List.mem_of_mem_take hm
    · exact List.mem_of_mem_drop hm
  refine ⟨fun m hm => ?_, fun m hm => hbefore m (hsub m hm), hlast, permissions, ?_⟩
  · rcases List.mem_append.mp hm with hm | hm
    · exact hproper m (List.mem_append_left _ (hsub m hm))
    · exact hproper m (List.mem_append_right _ hm)
  · rw [hsplit] at hproper hstatus
    rw [List.append_assoc]
    exact status_cut hopen hroot (by simp) hproper (hbetween.symm ▸ hsame) hstatus

/-- **Every file that names lead to is found by a candidate.** -/
theorem candidate_of_leadsToFile (hopen : t.AllOpen) (hslash : '/' ∉ suffix.text)
    {start : Place} (hroot : t.Lists root start)
    (h : t.LeadsToFile suffix root names name place content) :
    ∃ names', t.IsCandidate suffix root names' name ∧
      t.LeadsToFile suffix root names' name place content := by
  -- A loop among the names is cut out, which makes them fewer; without one they are a candidate's.
  induction hlength : names.length using Nat.strongRecOn generalizing names with
  | ind length ih =>
    subst hlength
    by_cases hloop : ∃ i j, i < j ∧ j ≤ names.length ∧
        t.SameDirectory (root.through (names.take i)) (root.through (names.take j))
    · obtain ⟨i, j, hij, hj, hsame⟩ := hloop
      have hshort : (names.take i ++ names.drop j).length < names.length := by
        rw [List.length_append, List.length_take, List.length_drop]
        omega
      exact ih _ hshort (h.cut hopen hroot hij hsame) rfl
    · obtain ⟨hproper, hbefore, hlast, permissions, hstatus⟩ := h
      have hway := descent_of_no_loop hopen hslash hroot hproper hbefore hstatus hloop
      obtain ⟨_, _, _, _, _, ⟨kind, hentry⟩, _⟩ := on_way hopen hroot hproper hstatus
      refine ⟨names, ⟨hway, ?_, kind, hentry, ?_⟩, hproper, hbefore, hlast, permissions, hstatus⟩
      · rw [Path.through_concat, Suffix.matchesPath_join hslash]
        exact hlast
      · cases kind with
        | file => exact .file
        | directory => exact .directory
        | link => exact .linkToItem hstatus (by simp [Item.kind])

/-! ## 4. What is counted -/

theorem read_of_leadsToFile (hopen : t.AllOpen)
    (h : t.LeadsToFile suffix root names name place content) :
    t.read (root.through (names ++ [name])) = .ok content := by
  obtain ⟨permissions, hstatus⟩ := h.status
  obtain ⟨_, _, _, hitem⟩ := find_eq_ok_iff.mp hstatus
  have hreadable := hopen (place, .file permissions content) (item?_eq_some_iff.mp hitem)
  exact read_eq_ok_iff.mpr ⟨place, permissions, hstatus, hreadable⟩

theorem IsCandidate.leadsToFile (hslash : '/' ∉ suffix.text)
    (h : t.IsCandidate suffix root names name)
    (hread : t.read (root.through (names ++ [name])) = .ok content) :
    ∃ place, t.LeadsToFile suffix root names name place content := by
  obtain ⟨hway, hmatch, kind, hentry, _⟩ := h
  obtain ⟨place, permissions, hstatus, _⟩ := read_eq_ok_iff.mp hread
  refine ⟨place, hway.concat_proper hentry, fun m hm => ?_, ?_, permissions, hstatus⟩
  · obtain ⟨i, hi, rfl⟩ := List.mem_iff_getElem.mp hm
    have hunskipped := (hway.down i hi).unskipped
    rwa [Path.through_concat, Suffix.matchesPath_join hslash] at hunskipped
  · rwa [Path.through_concat, Suffix.matchesPath_join hslash] at hmatch

/-- **No file is lost to the loop check, and none is counted twice.** In a tree in which nothing is
closed, whatever file some names lead to from the root is found by a candidate, the same file.
If no two contents of the run share a fingerprint, then exactly the contents of these files are
counted, each of them once. -/
theorem no_file_lost_to_loops (t : FileTree) (suffix : Suffix) (root : Path) (hopen : t.AllOpen)
    (hslash : '/' ∉ suffix.text) (hunmatched : suffix.matchesPath root = false)
    (hroot : ∃ place permissions, t.status root = .ok ⟨place, .directory permissions⟩) :
    (∀ names name place content, t.LeadsToFile suffix root names name place content →
      ∃ q ∈ (t.discover suffix root).files, ∃ permissions,
        t.status q = .ok ⟨place, .file permissions content⟩) ∧
    ((∀ p ∈ (t.discover suffix root).files, ∀ q ∈ (t.discover suffix root).files, ∀ a b,
        t.read p = .ok a → t.read q = .ok b →
          Fingerprint.ofContent a = Fingerprint.ofContent b → a = b) →
      ∃ contents : List Bytes, contents.Nodup ∧
        (∀ content, content ∈ contents ↔
          ∃ names name place, t.LeadsToFile suffix root names name place content) ∧
        (t.tally suffix root).distinct = contents.length ∧
        (t.tally suffix root).lines =
          contents.foldl (fun lines content => lines + Counts.ofContent content) .zero) := by
  obtain ⟨start, permissions, hstatus⟩ := hroot
  have hlists := lists_of_status hopen hstatus
  have hcollected : ∀ names name place content,
      t.LeadsToFile suffix root names name place content →
        ∃ names', root.through (names' ++ [name]) ∈ (t.discover suffix root).files ∧
          t.LeadsToFile suffix root names' name place content := by
    intro names name place content h
    obtain ⟨names', hcandidate, h'⟩ := candidate_of_leadsToFile hopen hslash hlists h
    exact ⟨names', (mem_files_discover hunmatched).mpr ⟨names', name, rfl, hcandidate⟩, h'⟩
  constructor
  · intro names name place content h
    obtain ⟨names', hmem, h'⟩ := hcollected names name place content h
    exact ⟨_, hmem, h'.status⟩
  · intro hdistinct
    refine ⟨t.contents (t.discover suffix root).files, nodup_contents t _, fun content => ?_,
      by rw [tally_eq], by rw [tally_eq]⟩
    rw [mem_contents_iff hdistinct]
    constructor
    · rintro ⟨q, hq, hread⟩
      obtain ⟨names, name, rfl, hcandidate⟩ := (mem_files_discover hunmatched).mp hq
      obtain ⟨place, h⟩ := hcandidate.leadsToFile hslash hread
      exact ⟨names, name, place, h⟩
    · rintro ⟨names, name, place, h⟩
      obtain ⟨names', hmem, h'⟩ := hcollected names name place content h
      exact ⟨_, hmem, read_of_leadsToFile hopen h'⟩

/-- A tree in which a link leads back to the root and another one to the directory that has it. -/
def knotted : FileTree where
  items := [
    ([], .directory .newDirectory),
    ([.ofText "again"], .link (.ofText "src")),
    ([.ofText "src"], .directory .newDirectory),
    ([.ofText "A.java", .ofText "src"], .file .newFile (.ofText "int a;")),
    ([.ofText "back", .ofText "src"], .link Name.dotDot)]
  workingDirectory := []
  distinct := by decide
  proper := by decide

theorem no_file_lost_to_loops_knotted :
    knotted.AllOpen ∧ '/' ∉ Suffix.standard.text ∧ Suffix.standard.matchesPath Name.dot = false ∧
      (∃ place permissions, knotted.status Name.dot = .ok ⟨place, .directory permissions⟩) ∧
      knotted.LeadsToFile .standard Name.dot
        [.ofText "again", .ofText "back", .ofText "src", .ofText "back", .ofText "again"]
        (.ofText "A.java") [.ofText "A.java", .ofText "src"] (.ofText "int a;") ∧
      (∃ q ∈ (knotted.discover .standard Name.dot).files, ∃ permissions, knotted.status q =
        .ok ⟨[.ofText "A.java", .ofText "src"], .file permissions (.ofText "int a;")⟩) ∧
      ∃ contents : List Bytes, contents.Nodup ∧
        (∀ content, content ∈ contents ↔ ∃ names name place,
          knotted.LeadsToFile .standard Name.dot names name place content) ∧
        (knotted.tally .standard Name.dot).distinct = contents.length ∧
        (knotted.tally .standard Name.dot).lines =
          contents.foldl (fun lines content => lines + Counts.ofContent content) .zero := by
  have hopen : knotted.AllOpen := by
    unfold AllOpen
    decide
  have hroot : ∃ place permissions,
      knotted.status Name.dot = .ok ⟨place, .directory permissions⟩ := ⟨[], .newDirectory, rfl⟩
  have hfile : knotted.LeadsToFile .standard Name.dot
      [.ofText "again", .ofText "back", .ofText "src", .ofText "back", .ofText "again"]
      (.ofText "A.java") [.ofText "A.java", .ofText "src"] (.ofText "int a;") :=
    ⟨by decide, by decide, by decide, .newFile, rfl⟩
  have hread : ∀ q ∈ (knotted.discover .standard Name.dot).files,
      knotted.read q = .ok (.ofText "int a;") := by decide
  obtain ⟨hfound, hcounted⟩ := no_file_lost_to_loops knotted .standard Name.dot hopen (by decide)
    (by decide) hroot
  refine ⟨hopen, by decide, by decide, hroot, hfile, hfound _ _ _ _ hfile,
    hcounted fun p hp q hq a b ha hb _ => ?_⟩
  rw [hread p hp] at ha
  rw [hread q hq] at hb
  cases ha
  cases hb
  rfl

end FileTree

end LineTally
