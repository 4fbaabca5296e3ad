import LineTally.Proofs.FileTree.Following
import LineTally.Proofs.FileTree.Listing

/-!
# What is found at an entry

The walk looks at an entry by the path it has made for it, and the file system starts over from the
first name of that path every time. What it finds there should depend only on **the directory that
was listed and the entry in it**, however the walk came to that directory. That is this file:

* `find_through_eq_ok_iff` — below a path that leads to a place, finding goes on from that place,
  with the links that the path has not used up;
* `find_join_of_item`, `linkStatus_join_of_link` — an entry's path leads to the entry, when its
  directory is searchable at all (`enter_of_find_join`);
* `Lists.directory_place`, `Lists.not_file` — so a real directory is where its entry says, and a
  file cannot be listed.
-/

set_option autoImplicit false

namespace LineTally

namespace FileTree

theorem resolve_follow_mono {t : FileTree} {links links' : Nat} {place found : Place}
    {names : List Name} {slashed : Bool}
    (h : t.resolve .follow links place names slashed = .ok found) (hle : links ≤ links') :
    t.resolve .follow links' place names slashed = .ok found := by
  induction links using Nat.strongRecOn generalizing links' place names slashed with
  | ind links ihLinks =>
    induction names generalizing place with
    | nil =>
      rw [resolve_nil] at h ⊢
      exact h
    | cons name names ih =>
      rcases resolve_cons_cases h with ⟨next, moves⟩ | ⟨target, meets⟩
      · rw [moves.resolve_eq] at h ⊢
        exact ih h
      · cases links with
        | zero =>
          rw [meets.resolve_zero (Or.inr rfl)] at h
          cases h
        | succ links =>
          obtain ⟨k, rfl⟩ : ∃ k, links' = k + 1 := ⟨links' - 1, by omega⟩
          rw [meets.resolve_succ (Or.inr rfl)] at h ⊢
          exact ihLinks links (Nat.lt_succ_self links) h (Nat.le_of_succ_le_succ hle)

/-- Keeping the link at the end finds the same, or a link. -/
theorem resolve_keep_of_follow {t : FileTree} {links : Nat} {place found : Place}
    {names : List Name} {slashed : Bool}
    (h : t.resolve .follow links place names slashed = .ok found) :
    ∃ kept, t.resolve .keep links place names slashed = .ok kept ∧
      (kept = found ∨ ∃ target, t.item? kept = some (.link target)) := by
  induction links using Nat.strongRecOn generalizing place names slashed with
  | ind links ihLinks =>
    induction names generalizing place with
    | nil =>
      rw [resolve_nil] at h
      exact ⟨found, by rw [resolve_nil, h], Or.inl rfl⟩
    | cons name names ih =>
      rcases resolve_cons_cases h with ⟨next, moves⟩ | ⟨target, meets⟩
      · rw [moves.resolve_eq] at h ⊢
        exact ih h
      · -- Only at a link in the last place do the two part.
        by_cases hkeep : names = [] ∧ slashed = false
        · obtain ⟨rfl, rfl⟩ := hkeep
          exact ⟨name :: place, meets.resolve_keep, Or.inr ⟨target, meets.item⟩⟩
        · cases links with
          | zero =>
            rw [meets.resolve_zero (Or.inr rfl)] at h
            cases h
          | succ links =>
            rw [meets.resolve_succ (Or.inr rfl)] at h
            obtain ⟨kept, hkept, hend⟩ := ihLinks links (Nat.lt_succ_self links) h
            refine ⟨kept, ?_, hend⟩
            rw [meets.resolve_keep_succ hkeep]
            exact hkept

/-! ## 1. Paths that lead somewhere -/

theorem find_eq_ok_iff {t : FileTree} {last : LastLink} {path : Path} {found : Found} :
    t.find last path = .ok found ↔ 0 ∉ path ∧ path ≠ [] ∧
      t.resolve last maxLinks (origin t.workingDirectory path) path.names path.endsInSlash =
        .ok found.place ∧ t.item? found.place = some found.item := by
  unfold find
  by_cases hnul : 0 ∈ path
  · simp [hnul]
  · by_cases hnil : path = []
    · simp [hnil]
    · simp only [List.contains_iff_mem, hnul, if_false, List.isEmpty_iff, hnil, not_false_eq_true,
        ne_eq, true_and]
      cases t.resolve last maxLinks (origin t.workingDirectory path) path.names
          path.endsInSlash with
      | error e => simp
      | ok place =>
        dsimp only
        cases hitem : t.item? place with
        | none =>
          simp only [reduceCtorEq, false_iff, not_and, Except.ok.injEq]
          rintro rfl
          rw [hitem]
          simp
        | some item =>
          simp only [Except.ok.injEq]
          constructor
          · rintro rfl
            exact ⟨rfl, hitem⟩
          · rintro ⟨rfl, hitem'⟩
            rw [hitem] at hitem'
            cases hitem'
            rfl

/-- A path that can be asked about leads to a place, through exactly so many links. -/
structure LeadsTo (t : FileTree) (path : Path) (n : Nat) (place : Place) : Prop where
  noNul : 0 ∉ path
  nonempty : path ≠ []
  leads : t.Leads n (origin t.workingDirectory path) path.names place

/-- What can be found at all can be found without following the link at the end. -/
theorem linkStatus_of_status {t : FileTree} {path : Path} {found : Found}
    (h : t.status path = .ok found) :
    ∃ kept, t.linkStatus path = .ok kept ∧ (kept = found ∨ kept.item.kind = .link) := by
  obtain ⟨hnul, hnil, hresolve, hitem⟩ := find_eq_ok_iff.mp h
  obtain ⟨kept, hkept, rfl | ⟨target, hlink⟩⟩ := resolve_keep_of_follow hresolve
  · exact ⟨found, find_eq_ok_iff.mpr ⟨hnul, hnil, hkept, hitem⟩, Or.inl rfl⟩
  · exact ⟨⟨kept, .link target⟩, find_eq_ok_iff.mpr ⟨hnul, hnil, hkept, hlink⟩, Or.inr rfl⟩

theorem leadsTo_of_status {t : FileTree} {path : Path} {found : Found}
    (h : t.status path = .ok found) : ∃ n ≤ maxLinks, t.LeadsTo path n found.place := by
  obtain ⟨hnul, hnil, hresolve, _⟩ := find_eq_ok_iff.mp h
  rw [← List.append_nil path.names] at hresolve
  obtain ⟨n, mid, slashed', hle, _, leads, hend⟩ := leads_of_resolve (Or.inr rfl) hresolve
  refine ⟨n, hle, hnul, hnil, ?_⟩
  rw [resolve_nil] at hend
  split at hend
  · cases hend
  · cases hend
    exact leads

section Below

variable {t : FileTree} {last : LastLink} {path : Path} {n : Nat} {place : Place} {ns : List Name}
  {found : Found}

theorem origin_through (start : Place) (ns : List Name) (h : path ≠ []) :
    origin start (path.through ns) = origin start path := by
  unfold origin
  rw [Path.isAbsolute_through ns h]

theorem noNul_of_isProper {name : Name} (h : name.isProper = true) : 0 ∉ name :=
  (Name.isProper_iff.mp h).2.2.2.1

theorem endsInSlash_through (hne : ns ≠ []) (hproper : ∀ name ∈ ns, name.isProper = true) :
    (path.through ns).endsInSlash = false := by
  rcases List.eq_nil_or_concat ns with rfl | ⟨init, name, rfl⟩
  · exact absurd rfl hne
  · rw [List.concat_eq_append] at hproper ⊢
    rw [Path.through_concat]
    exact Path.endsInSlash_join _ (hproper name (by simp))

/-- **Below a path, finding goes on from where the path leads.** -/
theorem find_through_eq_ok_iff (h : t.LeadsTo path n place) (hle : n ≤ maxLinks) (hne : ns ≠ [])
    (hproper : ∀ name ∈ ns, name.isProper = true) :
    t.find last (path.through ns) = .ok found ↔
      t.resolve last (maxLinks - n) place ns false = .ok found.place ∧
        t.item? found.place = some found.item := by
  have hnul : 0 ∉ path.through ns :=
    Path.notMem_through (by decide) h.noNul fun name hname =>
      noNul_of_isProper (hproper name hname)
  obtain ⟨slashed', hslashed, heq⟩ := h.leads.resolve_eq last false hle (Or.inl hne)
  rw [find_eq_ok_iff, origin_through _ _ h.nonempty, Path.names_through _ hproper,
    endsInSlash_through hne hproper, heq, hslashed hne]
  simp [hnul, Path.through_ne_nil ns h.nonempty]

theorem leadsTo_of_find_through (hnul : 0 ∉ path) (hnil : path ≠ []) (hne : ns ≠ [])
    (hproper : ∀ name ∈ ns, name.isProper = true) (h : t.find last (path.through ns) = .ok found) :
    ∃ n ≤ maxLinks, ∃ place, t.LeadsTo path n place := by
  obtain ⟨_, _, hresolve, _⟩ := find_eq_ok_iff.mp h
  rw [origin_through _ _ hnil, Path.names_through _ hproper] at hresolve
  obtain ⟨n, place, _, hle, _, leads, _⟩ := leads_of_resolve (Or.inl hne) hresolve
  exact ⟨n, hle, place, hnul, hnil, leads⟩

end Below

/-! ## 2. Files that can be read and directories that can be listed -/

theorem read_eq_ok_iff {t : FileTree} {path : Path} {content : Bytes} :
    t.read path = .ok content ↔ ∃ place permissions,
      t.status path = .ok ⟨place, .file permissions content⟩ ∧ permissions.readable = true := by
  unfold read
  cases hstatus : t.status path with
  | error cause => simp
  | ok found =>
    obtain ⟨place, item⟩ := found
    cases item with
    | directory permissions => simp
    | link target => simp
    | file permissions content' =>
      dsimp only
      cases hreadable : permissions.readable with
      | false =>
        refine ⟨fun h => absurd h (by simp), ?_⟩
        rintro ⟨place', permissions', heq, hreadable'⟩
        cases heq
        rw [hreadable] at hreadable'
        cases hreadable'
      | true =>
        simp only [if_true, Except.ok.injEq]
        constructor
        · rintro rfl
          exact ⟨place, permissions, rfl, hreadable⟩
        · rintro ⟨place', permissions', heq, _⟩
          cases heq
          rfl

/-- The directory at a path can be listed, and a place is where it is. -/
def Lists (t : FileTree) (path : Path) (place : Place) : Prop :=
  t.list path = .ok (place, t.entries place)

theorem list_eq_ok_iff {t : FileTree} {path : Path} {place : Place} {entries : List Entry} :
    t.list path = .ok (place, entries) ↔ entries = t.entries place ∧
      ∃ permissions, permissions.readable = true ∧
        t.status path = .ok ⟨place, .directory permissions⟩ := by
  unfold list
  cases t.status path with
  | error e => simp
  | ok found =>
    obtain ⟨place', item⟩ := found
    cases item with
    | file permissions content => simp
    | link target => simp
    | directory permissions =>
      dsimp only
      cases hreadable : permissions.readable with
      | false =>
        simp only [Bool.false_eq_true, if_false, reduceCtorEq, false_iff, not_and, not_exists]
        rintro _ permissions' hreadable' heq
        cases heq
        rw [hreadable] at hreadable'
        cases hreadable'
      | true =>
        simp only [if_true, Except.ok.injEq, Prod.mk.injEq]
        constructor
        · rintro ⟨rfl, rfl⟩
          exact ⟨rfl, permissions, hreadable, rfl⟩
        · rintro ⟨rfl, permissions', _, heq⟩
          cases heq
          exact ⟨rfl, rfl⟩

namespace Lists

variable {t : FileTree} {path : Path} {place place' : Place} {name : Name}

theorem of_list {entries : List Entry} (h : t.list path = .ok (place, entries)) :
    t.Lists path place ∧ entries = t.entries place := by
  obtain ⟨rfl, hstatus⟩ := list_eq_ok_iff.mp h
  exact ⟨list_eq_ok_iff.mpr ⟨rfl, hstatus⟩, rfl⟩

theorem unique (h : t.Lists path place) (h' : t.Lists path place') : place = place' := by
  unfold Lists at h h'
  rw [h] at h'
  cases h'
  rfl

theorem status (h : t.Lists path place) : ∃ permissions, permissions.readable = true ∧
    t.status path = .ok ⟨place, .directory permissions⟩ := (list_eq_ok_iff.mp h).2

theorem leadsTo (h : t.Lists path place) : ∃ n ≤ maxLinks, t.LeadsTo path n place := by
  obtain ⟨permissions, _, hstatus⟩ := h.status
  exact leadsTo_of_status hstatus

theorem item (h : t.Lists path place) : ∃ permissions, permissions.readable = true ∧
    t.item? place = some (.directory permissions) := by
  obtain ⟨permissions, hreadable, hstatus⟩ := h.status
  exact ⟨permissions, hreadable, (find_eq_ok_iff.mp hstatus).2.2.2⟩

end Lists

theorem not_lists_of_error {t : FileTree} {path : Path} {place : Place} {cause : AccessError}
    (h : t.list path = .error cause) : ¬ t.Lists path place := by
  intro hlists
  unfold Lists at hlists
  rw [h] at hlists
  cases hlists

/-- Names can be looked up only in a directory. -/
theorem item_of_enter {t : FileTree} {place : Place} (h : t.enter place = .ok ()) :
    ∃ permissions, permissions.searchable = true ∧
      t.item? place = some (.directory permissions) := by
  unfold enter at h
  cases hitem : t.item? place with
  | none =>
    rw [hitem] at h
    cases h
  | some item =>
    rw [hitem] at h
    cases item with
    | file permissions content => cases h
    | link target => cases h
    | directory permissions =>
      cases hsearchable : permissions.searchable with
      | false => simp [hsearchable] at h
      | true => exact ⟨permissions, hsearchable, rfl⟩

theorem enter_of_item {t : FileTree} {place : Place} {permissions : Permissions}
    (h : t.item? place = some (.directory permissions))
    (hsearchable : permissions.searchable = true) : t.enter place = .ok () := by
  rw [enter, h]
  simp [hsearchable]

/-! ## 3. Entries of a listed directory -/

section Entries

variable {t : FileTree} {last : LastLink} {path : Path} {place : Place} {name : Name}

theorem moves_of_item {item : Item} (hin : t.enter place = .ok ()) (hproper : name.isProper = true)
    (hitem : t.item? (name :: place) = some item) (hkind : item.kind ≠ .link) :
    t.Moves place name (name :: place) := by
  obtain ⟨_, hshort, _, _, hdot, hdotDot⟩ := Name.isProper_iff.mp hproper
  exact ⟨hin, hshort, Or.inr (Or.inr ⟨hdot, hdotDot, rfl, item, hitem, hkind⟩)⟩

theorem meetsLink_of_item {target : Path} (hin : t.enter place = .ok ())
    (hproper : name.isProper = true) (hitem : t.item? (name :: place) = some (.link target)) :
    t.MeetsLink place name target := by
  obtain ⟨_, hshort, _, _, hdots⟩ := Name.isProper_iff.mp hproper
  exact ⟨hin, hshort, hdots, hitem⟩

theorem find_join_eq_ok_iff (last : LastLink) {found : Found} (h : t.Lists path place)
    (hproper : name.isProper = true) :
    ∃ n ≤ maxLinks, t.LeadsTo path n place ∧ (t.find last (path.join name) = .ok found ↔
      t.resolve last (maxLinks - n) place [name] false = .ok found.place ∧
        t.item? found.place = some found.item) := by
  obtain ⟨n, hle, leadsTo⟩ := h.leadsTo
  refine ⟨n, hle, leadsTo, ?_⟩
  have hone : ∀ m ∈ [name], m.isProper = true := fun m hm => List.mem_singleton.mp hm ▸ hproper
  exact find_through_eq_ok_iff leadsTo hle (List.cons_ne_nil _ _) hone

/-- **An entry that is no link is found where it is**, whether links are followed or kept. -/
theorem find_join_of_item (last : LastLink) {item : Item} (h : t.Lists path place)
    (hin : t.enter place = .ok ()) (hproper : name.isProper = true)
    (hitem : t.item? (name :: place) = some item) (hkind : item.kind ≠ .link) :
    t.find last (path.join name) = .ok ⟨name :: place, item⟩ := by
  obtain ⟨n, _, _, hfind⟩ := find_join_eq_ok_iff last h hproper
  rw [hfind, (moves_of_item hin hproper hitem hkind).resolve_eq, resolve_nil]
  exact ⟨rfl, hitem⟩

/-- **A link is found where it is when it is kept.** -/
theorem linkStatus_join_of_link {target : Path} (h : t.Lists path place)
    (hin : t.enter place = .ok ()) (hproper : name.isProper = true)
    (hitem : t.item? (name :: place) = some (.link target)) :
    t.linkStatus (path.join name) = .ok ⟨name :: place, .link target⟩ := by
  obtain ⟨n, _, _, hfind⟩ := find_join_eq_ok_iff .keep h hproper
  unfold linkStatus
  rw [hfind, (meetsLink_of_item hin hproper hitem).resolve_keep]
  exact ⟨rfl, hitem⟩

theorem enter_of_find_join {found : Found} (h : t.Lists path place)
    (hproper : name.isProper = true) (hfind : t.find last (path.join name) = .ok found) :
    t.enter place = .ok () := by
  obtain ⟨n, _, _, hiff⟩ := find_join_eq_ok_iff last h hproper
  rcases resolve_cons_cases (hiff.mp hfind).1 with ⟨next, moves⟩ | ⟨target, meets⟩
  · exact moves.entered
  · exact meets.entered

/-- A real directory that can be listed is where its entry says. -/
theorem Lists.directory_place {place' : Place} (h : t.Lists path place)
    (hentry : ⟨name, .directory⟩ ∈ t.entries place) (h' : t.Lists (path.join name) place') :
    place' = name :: place := by
  obtain ⟨item, hitem, hkind⟩ := mem_entries.mp hentry
  have hproper := isProper_of_mem_entries hentry
  obtain ⟨permissions, _, hstatus⟩ := h'.status
  have hin := enter_of_find_join h hproper hstatus
  have hfind := find_join_of_item .follow h hin hproper hitem (by simp [hkind])
  rw [FileTree.status, hfind] at hstatus
  cases hstatus
  rfl

theorem Lists.not_file {place' : Place} (h : t.Lists path place)
    (hentry : ⟨name, .file⟩ ∈ t.entries place) : ¬ t.Lists (path.join name) place' := by
  intro h'
  obtain ⟨item, hitem, hkind⟩ := mem_entries.mp hentry
  have hproper := isProper_of_mem_entries hentry
  obtain ⟨permissions, _, hstatus⟩ := h'.status
  have hin := enter_of_find_join h hproper hstatus
  have hfind := find_join_of_item .follow h hin hproper hitem (by simp [hkind])
  rw [FileTree.status, hfind] at hstatus
  cases hstatus
  cases hkind

end Entries

end FileTree

end LineTally
