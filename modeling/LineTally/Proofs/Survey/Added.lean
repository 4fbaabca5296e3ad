import LineTally.Proofs.Candidates.LinkFree
import LineTally.Proofs.Candidates.Lost
import LineTally.Proofs.Survey.Outcomes

/-!
# One file more

A new file may turn up anywhere in the walk. It moves what comes after it, and if its content is
that of a later file, it becomes the representative of both. None of this shows in the numbers: what
a run finds grows by one path, what it counts grows by one content, or by none if the content is
there already or cannot be read (`tally_addFile`).

The comparison of the two runs is one of sets. In a tree without links and without closed
directories the candidates are the items below the root (`isCandidate_iff_places`), and the two
trees differ in one item; the order comes in only to tell that no candidate is there twice.
-/

set_option autoImplicit false

namespace LineTally

namespace FileTree

/-- The tree with a file more, in the directory at a place. -/
def addFile (t : FileTree) (place : Place) (name : Name) (permissions : Permissions)
    (content : Bytes) : FileTree :=
  t.put (name :: place) (.file permissions content)

/-- **Room for a new file**: some names lead from the root to a directory that a walk gets to, and
nothing in it has the new name. No item of the tree is a link, and no directory is closed. -/
structure Vacancy (t : FileTree) (suffix : Suffix) (root : Path) (names : List Name) (name : Name)
    (place : Place) : Prop where
  linkFree : t.LinkFree
  openDirectories : t.OpenDirectories
  rooted : ∃ start permissions, t.status root = .ok ⟨start, .directory permissions⟩
  directory : ∃ permissions, t.status (root.through names) = .ok ⟨place, .directory permissions⟩
  proper : ∀ n ∈ names ++ [name], n.isProper = true
  unmatchedRoot : suffix.matchesPath root = false
  unmatched : UnskippedDown suffix.matchesPath root names
  fresh : t.item? (name :: place) = none

variable {t : FileTree} {suffix : Suffix} {root path : Path} {names ns : List Name}
  {name n : Name} {place start : Place} {permissions : Permissions} {content : Bytes}

/-! ## 1. The directory -/

namespace Vacancy

variable (h : t.Vacancy suffix root names name place)
include h

theorem lists_root : ∃ start, t.Lists root start := by
  obtain ⟨start, permissions, hstatus⟩ := h.rooted
  have hitem := (find_eq_ok_iff.mp hstatus).2.2.2
  exact ⟨start, list_eq_ok_iff.mpr
    ⟨rfl, permissions, (h.openDirectories.permissions hitem).1, hstatus⟩⟩

/-- The names lead from the root's place straight down. -/
theorem place_eq (hroot : t.Lists root start) : place = names.reverse ++ start := by
  obtain ⟨permissions, hdirectory⟩ := h.directory
  obtain ⟨_, _, hstatus⟩ := hroot.status
  obtain ⟨_, hne, hstart, _⟩ := h.linkFree.find_eq_ok_iff_lexical.mp hstatus
  obtain ⟨_, _, hplace, _⟩ := h.linkFree.find_eq_ok_iff_lexical.mp hdirectory
  have hproper : ∀ n ∈ names, n.isProper = true := fun n hn =>
    h.proper n (List.mem_append_left _ hn)
  dsimp only at hstart hplace
  rw [hplace, Path.names_through root hproper, origin_through _ _ hne, List.foldl_append,
    ← hstart, Place.foldl_step_of_isProper start hproper]

theorem directoriesDown (hroot : t.Lists root start) : t.DirectoriesDown start names := by
  obtain ⟨permissions, hdirectory⟩ := h.directory
  obtain ⟨_, _, hstatus⟩ := hroot.status
  obtain ⟨_, hne, hstart, _⟩ := h.linkFree.find_eq_ok_iff_lexical.mp hstatus
  obtain ⟨_, _, _, hitem, hstations, _⟩ := h.linkFree.find_eq_ok_iff_lexical.mp hdirectory
  have hproper : ∀ n ∈ names, n.isProper = true := fun n hn =>
    h.proper n (List.mem_append_left _ hn)
  rintro before ⟨rest, hrest⟩
  cases rest with
  | nil =>
    rw [List.append_nil] at hrest
    rw [hrest, ← h.place_eq hroot]
    exact isDirectoryAt_iff.mpr ⟨permissions, hitem⟩
  | cons next rest =>
    -- The next name is looked up there.
    have hbefore : ∀ n ∈ before, n.isProper = true := fun n hn =>
      hproper n (hrest ▸ List.mem_append_left _ hn)
    have hstation := Place.foldl_step_mem_stations (origin t.workingDirectory root)
      (root.names ++ before) rest next
    dsimp only at hstart
    rw [List.append_assoc, hrest, List.foldl_append, ← hstart,
      Place.foldl_step_of_isProper start hbefore] at hstation
    rw [Path.names_through root hproper, origin_through _ _ hne] at hstations
    obtain ⟨permissions', _, hitem'⟩ := item_of_enter (hstations _ hstation)
    exact isDirectoryAt_iff.mpr ⟨permissions', hitem'⟩

theorem place_isProper : Place.isProper (name :: place) = true := by
  obtain ⟨permissions, hdirectory⟩ := h.directory
  have hitem := (find_eq_ok_iff.mp hdirectory).2.2.2
  have hplace : place.isProper = true := t.proper _ (item?_eq_some_iff.mp hitem)
  unfold Place.isProper at hplace ⊢
  rw [List.all_cons, h.proper name (by simp), hplace]
  rfl

end Vacancy

/-! ## 2. The new tree -/

section Tree

theorem mem_items_put {p : Place × Item} {item : Item} (hmem : p ∈ (t.put place item).items) :
    p = (place, item) ∨ p ∈ t.items := by
  unfold put at hmem
  split at hmem
  · rcases List.mem_cons.mp hmem with rfl | hmem
    · exact Or.inl rfl
    · exact Or.inr (List.mem_filter.mp hmem).1
  · exact Or.inr hmem

theorem LinkFree.addFile (hfree : t.LinkFree) :
    (t.addFile place name permissions content).LinkFree := by
  intro p hp
  rcases mem_items_put hp with rfl | hp
  · simp [Item.kind]
  · exact hfree p hp

theorem OpenDirectories.addFile (hopen : t.OpenDirectories) :
    (t.addFile place name permissions content).OpenDirectories := by
  intro p hp
  rcases mem_items_put hp with rfl | hp
  · simp [Item.kind]
  · exact hopen p hp

namespace Vacancy

variable (h : t.Vacancy suffix root names name place)
include h

theorem item?_addFile (permissions : Permissions) (content : Bytes) (there : Place) :
    (t.addFile place name permissions content).item? there =
      if there = name :: place then some (.file permissions content) else t.item? there :=
  item?_put _ _ h.place_isProper

theorem within_addFile (permissions : Permissions) (content : Bytes) :
    t.Within (t.addFile place name permissions content) :=
  within_put _ h.place_isProper h.fresh

/-- No directory has come or gone. -/
theorem isDirectoryAt_addFile (there : Place) :
    (t.addFile place name permissions content).isDirectoryAt there = t.isDirectoryAt there := by
  unfold isDirectoryAt
  rw [h.item?_addFile]
  split
  · next heq =>
    rw [heq, h.fresh]
    rfl
  · rfl

/-- **The candidates of the new tree** are those of the old one and the new file, if it matches. -/
theorem isCandidate_addFile (permissions : Permissions) (content : Bytes)
    (hroot : t.Lists root start) :
    (t.addFile place name permissions content).IsCandidate suffix root ns n ↔
      t.IsCandidate suffix root ns n ∨
        (ns = names ∧ n = name) ∧ suffix.matchesPath (root.through (names ++ [name])) = true := by
  have hroot' := (h.within_addFile permissions content).lists h.linkFree.addFile hroot
  have hplace := h.place_eq hroot
  have hdown : (t.addFile place name permissions content).DirectoriesDown start ns ↔
      t.DirectoriesDown start ns := by
    unfold DirectoriesDown
    simp only [h.isDirectoryAt_addFile]
  have hnew : n :: (ns.reverse ++ start) = name :: place ↔ ns = names ∧ n = name := by
    rw [hplace, List.cons.injEq, List.append_cancel_right_eq, List.reverse_inj]
    exact and_comm
  rw [isCandidate_iff_places h.linkFree.addFile h.openDirectories.addFile hroot',
    isCandidate_iff_places h.linkFree h.openDirectories hroot, hdown, h.item?_addFile]
  constructor
  · rintro ⟨hdirectories, hunmatched, hmatch, hitem⟩
    by_cases heq : n :: (ns.reverse ++ start) = name :: place
    · obtain ⟨rfl, rfl⟩ := hnew.mp heq
      exact Or.inr ⟨⟨rfl, rfl⟩, hmatch⟩
    · rw [if_neg heq] at hitem
      exact Or.inl ⟨hdirectories, hunmatched, hmatch, hitem⟩
  · rintro (⟨hdirectories, hunmatched, hmatch, item, hitem⟩ | ⟨⟨rfl, rfl⟩, hmatch⟩)
    · refine ⟨hdirectories, hunmatched, hmatch, item, ?_⟩
      rw [if_neg ?_]
      · exact hitem
      · intro heq
        rw [heq, h.fresh] at hitem
        cases hitem
    · exact ⟨h.directoriesDown hroot, h.unmatched, hmatch, _, if_pos (hnew.mpr ⟨rfl, rfl⟩)⟩

/-! ## 3. The two runs -/

theorem mem_files_addFile (permissions : Permissions) (content : Bytes) (q : Path) :
    q ∈ ((t.addFile place name permissions content).discover suffix root).files ↔
      q ∈ (t.discover suffix root).files ∨ q = root.through (names ++ [name]) ∧
        suffix.matchesPath (root.through (names ++ [name])) = true := by
  obtain ⟨start, hroot⟩ := h.lists_root
  simp only [mem_files_discover h.unmatchedRoot, h.isCandidate_addFile permissions content hroot]
  constructor
  · rintro ⟨ns, n, rfl, hcandidate | ⟨⟨rfl, rfl⟩, hmatch⟩⟩
    · exact Or.inl ⟨ns, n, rfl, hcandidate⟩
    · exact Or.inr ⟨rfl, hmatch⟩
  · rintro (⟨ns, n, rfl, hcandidate⟩ | ⟨rfl, hmatch⟩)
    · exact ⟨ns, n, rfl, Or.inl hcandidate⟩
    · exact ⟨names, name, rfl, Or.inr ⟨⟨rfl, rfl⟩, hmatch⟩⟩

theorem new_notMem_files : root.through (names ++ [name]) ∉ (t.discover suffix root).files := by
  obtain ⟨start, hroot⟩ := h.lists_root
  rw [mem_files_through h.unmatchedRoot h.proper,
    isCandidate_iff_places h.linkFree h.openDirectories hroot]
  rintro ⟨_, _, _, item, hitem⟩
  rw [← h.place_eq hroot, h.fresh] at hitem
  cases hitem

theorem files_addFile_perm (permissions : Permissions) (content : Bytes)
    (hmatch : suffix.matchesPath (root.through (names ++ [name])) = true) :
    ((t.addFile place name permissions content).discover suffix root).files.Perm
      (root.through (names ++ [name]) :: (t.discover suffix root).files) := by
  refine (List.perm_ext_iff_of_nodup (files_before h.unmatchedRoot).nodup ?_).mpr fun q => ?_
  · exact List.nodup_cons.mpr ⟨h.new_notMem_files, (files_before h.unmatchedRoot).nodup⟩
  · rw [h.mem_files_addFile, List.mem_cons, and_iff_left hmatch]
    exact or_comm

theorem files_addFile_eq (permissions : Permissions) (content : Bytes)
    (hunmatched : suffix.matchesPath (root.through (names ++ [name])) = false) :
    ((t.addFile place name permissions content).discover suffix root).files =
      (t.discover suffix root).files := by
  refine files_eq_of_mem_iff h.unmatchedRoot h.unmatchedRoot fun q => ?_
  simp [h.mem_files_addFile, hunmatched]

/-- What was there before is read as before. -/
theorem read_addFile (permissions : Permissions) (content : Bytes) {q : Path}
    (hq : q ∈ (t.discover suffix root).files) :
    (t.addFile place name permissions content).read q = t.read q := by
  obtain ⟨start, hroot⟩ := h.lists_root
  have hwithin := h.within_addFile permissions content
  obtain ⟨ns, n, rfl, hcandidate⟩ := (mem_files_discover h.unmatchedRoot).mp hq
  obtain ⟨_, _, _, item, hitem⟩ :=
    (isCandidate_iff_places h.linkFree h.openDirectories hroot).mp hcandidate
  have hitem' : (t.addFile place name permissions content).item? (n :: (ns.reverse ++ start)) =
      some item := by
    rw [h.item?_addFile, if_neg ?_]
    · exact hitem
    · intro heq
      rw [heq, h.fresh] at hitem
      cases hitem
  unfold read
  rw [status_of_isCandidate h.linkFree h.openDirectories hroot hcandidate hitem,
    status_of_isCandidate h.linkFree.addFile h.openDirectories.addFile
      (hwithin.lists h.linkFree.addFile hroot)
      (hwithin.isCandidate h.linkFree.addFile hcandidate) hitem']

theorem read_new (permissions : Permissions) (content : Bytes)
    (hmatch : suffix.matchesPath (root.through (names ++ [name])) = true) :
    (t.addFile place name permissions content).read (root.through (names ++ [name])) =
      if permissions.readable then .ok content else .error .permissionDenied := by
  obtain ⟨start, hroot⟩ := h.lists_root
  have hwithin := h.within_addFile permissions content
  have hcandidate := (h.isCandidate_addFile permissions content hroot).mpr
    (Or.inr ⟨⟨rfl, rfl⟩, hmatch⟩)
  have hitem : (t.addFile place name permissions content).item?
      (name :: (names.reverse ++ start)) = some (.file permissions content) := by
    rw [h.item?_addFile, if_pos (by rw [h.place_eq hroot])]
  unfold read
  rw [status_of_isCandidate h.linkFree.addFile h.openDirectories.addFile
    (hwithin.lists h.linkFree.addFile hroot) hcandidate hitem]

/-- **The contents of the new run**: one more if the new file can be read, and if it is new. -/
theorem contentsRead_addFile (permissions : Permissions) (content : Bytes)
    (hmatch : suffix.matchesPath (root.through (names ++ [name])) = true) :
    (t.addFile place name permissions content).contentsRead
        ((t.addFile place name permissions content).discover suffix root).files =
      if permissions.readable then insert content (t.contentsRead (t.discover suffix root).files)
      else t.contentsRead (t.discover suffix root).files := by
  have hread : ∀ c, c ∈ (t.addFile place name permissions content).contentsRead
      ((t.addFile place name permissions content).discover suffix root).files ↔
        (permissions.readable = true ∧ c = content) ∨
          c ∈ t.contentsRead (t.discover suffix root).files := by
    intro c
    rw [mem_contentsRead, mem_contentsRead]
    constructor
    · rintro ⟨q, hq, hc⟩
      rcases (h.mem_files_addFile permissions content q).mp hq with hq | ⟨rfl, _⟩
      · exact Or.inr ⟨q, hq, h.read_addFile permissions content hq ▸ hc⟩
      · rw [h.read_new permissions content hmatch] at hc
        split at hc
        · next hreadable =>
          cases hc
          exact Or.inl ⟨hreadable, rfl⟩
        · cases hc
    · rintro (⟨hreadable, rfl⟩ | ⟨q, hq, hc⟩)
      · refine ⟨_, (h.mem_files_addFile permissions c _).mpr (Or.inr ⟨rfl, hmatch⟩), ?_⟩
        rw [h.read_new permissions c hmatch, if_pos hreadable]
      · refine ⟨q, (h.mem_files_addFile permissions content q).mpr (Or.inl hq), ?_⟩
        rw [h.read_addFile permissions content hq]
        exact hc
  ext c
  rw [hread]
  split
  · next hreadable => simp [hreadable]
  · next hreadable => simp [hreadable]

end Vacancy

end Tree

/-- **What a new file changes.** It is added to a directory at or below the root of a tree without
links and with open directories, where no directory on the way matches. If its path matches, one
more file is found. Nothing else changes if the file cannot be read or some candidate has the same
content, even when the new file comes first and stands for that content from now on; otherwise one
more content is counted, with its lines. If its path does not match, nothing changes at all.
Fingerprints are taken to tell the contents of the new run apart. -/
theorem tally_addFile (t : FileTree) (suffix : Suffix) (root : Path) (names : List Name)
    (name : Name) (place : Place) (permissions : Permissions) (content : Bytes)
    (h : t.Vacancy suffix root names name place)
    (htold : (t.addFile place name permissions content).ToldApart
      ((t.addFile place name permissions content).discover suffix root).files) :
    (suffix.matchesPath (root.through (names ++ [name])) = true →
      ((t.addFile place name permissions content).tally suffix root).found =
        (t.tally suffix root).found + 1 ∧
      (permissions.readable = false ∨
          (∃ q ∈ (t.discover suffix root).files, t.read q = .ok content) →
        ((t.addFile place name permissions content).tally suffix root).distinct =
          (t.tally suffix root).distinct ∧
        ((t.addFile place name permissions content).tally suffix root).lines =
          (t.tally suffix root).lines) ∧
      (permissions.readable = true →
          (¬ ∃ q ∈ (t.discover suffix root).files, t.read q = .ok content) →
        ((t.addFile place name permissions content).tally suffix root).distinct =
          (t.tally suffix root).distinct + 1 ∧
        ((t.addFile place name permissions content).tally suffix root).lines =
          (t.tally suffix root).lines + Counts.ofText (Utf8.decodeLossy content))) ∧
    (suffix.matchesPath (root.through (names ++ [name])) = false →
      (t.addFile place name permissions content).tally suffix root = t.tally suffix root) := by
  have hlength : (t.discover suffix root).files.length = (t.tally suffix root).found := by
    rw [tally_eq]
  constructor
  · intro hmatch
    have hcontents := h.contentsRead_addFile permissions content hmatch
    have hsub : t.contentsRead (t.discover suffix root).files ⊆
        (t.addFile place name permissions content).contentsRead
          ((t.addFile place name permissions content).discover suffix root).files := by
      rw [hcontents]
      split
      · exact Finset.subset_insert _ _
      · exact Finset.Subset.refl _
    have htold' : t.ToldApart (t.discover suffix root).files := fun a ha b hb =>
      htold a (hsub ha) b (hsub hb)
    rw [tally_eq_sum htold, tally_eq_sum htold', ← mem_contentsRead, hcontents]
    refine ⟨(h.files_addFile_perm permissions content hmatch).length_eq, ?_, ?_⟩
    · rintro (hunreadable | hold)
      · simp [hunreadable]
      · simp [Finset.insert_eq_of_mem hold]
    · intro hreadable hnew
      simp only [hreadable, if_true, Finset.card_insert_of_notMem hnew,
        Finset.sum_insert hnew, true_and]
      exact add_comm _ _
  · intro hunmatched
    have hfiles := h.files_addFile_eq permissions content hunmatched
    have houtcomes : (t.addFile place name permissions content).outcomes
        ((t.addFile place name permissions content).discover suffix root).files =
          t.outcomes (t.discover suffix root).files := by
      rw [hfiles]
      refine List.map_congr_left fun q hq => ?_
      rw [h.read_addFile permissions content hq]
    exact tally_eq_of_outcomes_eq houtcomes

/-- A tree with a file at the root, and with another one and its copy in a directory. -/
def shelved : FileTree where
  items := [
    ([], .directory .newDirectory),
    ([.ofText "A.java"], .file .newFile (.ofText "/* a */\n")),
    ([.ofText "lib"], .directory .newDirectory),
    ([.ofText "B.java", .ofText "lib"], .file .newFile (.ofText "int b;\n")),
    ([.ofText "C.java", .ofText "lib"], .file .newFile (.ofText "int b;\n"))]
  workingDirectory := []
  distinct := by decide
  proper := by decide

theorem shelved_vacancy (name : Name) (hproper : name.isProper = true)
    (hfresh : shelved.item? [name, .ofText "lib"] = none) :
    shelved.Vacancy .standard Name.dot [.ofText "lib"] name [.ofText "lib"] where
  linkFree := by
    unfold LinkFree
    decide
  openDirectories := by
    unfold OpenDirectories
    decide
  rooted := ⟨[], .newDirectory, rfl⟩
  directory := ⟨.newDirectory, rfl⟩
  proper := by
    simp only [List.cons_append, List.nil_append, List.forall_mem_cons]
    exact ⟨by decide, hproper, by simp⟩
  unmatchedRoot := by decide
  unmatched := by
    intro before hbefore hne
    rcases List.prefix_cons_iff.mp hbefore with rfl | ⟨rest, rfl, hrest⟩
    · exact absurd rfl hne
    · rw [List.prefix_nil.mp hrest]
      decide
  fresh := hfresh

/-- A copy that comes first and takes over, a new content, and a file of another kind. -/
theorem tally_addFile_shelved :
    shelved.Vacancy .standard Name.dot [.ofText "lib"] (.ofText "0.java") [.ofText "lib"] ∧
    shelved.tally .standard Name.dot = ⟨3, 2, ⟨0, 1, 1⟩⟩ ∧
    shelved.representatives .standard Name.dot = [.ofText "./A.java", .ofText "./lib/B.java"] ∧
    (shelved.addFile [.ofText "lib"] (.ofText "0.java") .newFile
      (.ofText "int b;\n")).representatives .standard Name.dot =
        [.ofText "./A.java", .ofText "./lib/0.java"] ∧
    ((shelved.addFile [.ofText "lib"] (.ofText "0.java") .newFile (.ofText "int b;\n")).tally
      .standard Name.dot).found = 4 ∧
    ((shelved.addFile [.ofText "lib"] (.ofText "0.java") .newFile (.ofText "int b;\n")).tally
      .standard Name.dot).distinct = 2 ∧
    ((shelved.addFile [.ofText "lib"] (.ofText "0.java") .newFile (.ofText "int c;\n\n")).tally
      .standard Name.dot).distinct = 3 ∧
    ((shelved.addFile [.ofText "lib"] (.ofText "0.java") .newFile (.ofText "int c;\n\n")).tally
      .standard Name.dot).lines = ⟨1, 1, 2⟩ ∧
    (shelved.addFile [.ofText "lib"] (.ofText "0.text") .newFile (.ofText "int c;\n\n")).tally
      .standard Name.dot = ⟨3, 2, ⟨0, 1, 1⟩⟩ := by
  have hvacancy := shelved_vacancy (.ofText "0.java") (by decide) (by decide)
  have hvacancy' := shelved_vacancy (.ofText "0.text") (by decide) (by decide)
  have htally : shelved.tally .standard Name.dot = ⟨3, 2, ⟨0, 1, 1⟩⟩ := by decide +kernel
  have hcounts : Counts.ofText (Utf8.decodeLossy (.ofText "int c;\n\n")) = ⟨1, 0, 1⟩ := by
    decide +kernel
  have hcopied : ∃ q ∈ (shelved.discover .standard Name.dot).files,
      shelved.read q = .ok (.ofText "int b;\n") := by decide
  have hnew : ¬ ∃ q ∈ (shelved.discover .standard Name.dot).files,
      shelved.read q = .ok (.ofText "int c;\n\n") := by decide
  obtain ⟨hcopy, _⟩ := tally_addFile shelved .standard Name.dot [.ofText "lib"] (.ofText "0.java")
    [.ofText "lib"] .newFile (.ofText "int b;\n") hvacancy (by unfold ToldApart; decide +kernel)
  obtain ⟨hmore, _⟩ := tally_addFile shelved .standard Name.dot [.ofText "lib"] (.ofText "0.java")
    [.ofText "lib"] .newFile (.ofText "int c;\n\n") hvacancy (by unfold ToldApart; decide +kernel)
  obtain ⟨_, hother⟩ := tally_addFile shelved .standard Name.dot [.ofText "lib"] (.ofText "0.text")
    [.ofText "lib"] .newFile (.ofText "int c;\n\n") hvacancy' (by unfold ToldApart; decide +kernel)
  obtain ⟨hfound, hsame, _⟩ := hcopy (by decide)
  obtain ⟨_, _, hgrown⟩ := hmore (by decide)
  obtain ⟨hdistinct, _⟩ := hsame (Or.inr hcopied)
  obtain ⟨hdistinct', hlines⟩ := hgrown rfl hnew
  refine ⟨hvacancy, htally, by decide +kernel, by decide +kernel, ?_, ?_, ?_, ?_, ?_⟩
  · rw [hfound, htally]
  · rw [hdistinct, htally]
  · rw [hdistinct', htally]
  · rw [hlines, htally, hcounts]
    rfl
  · rw [hother (by decide), htally]

end FileTree

end LineTally
