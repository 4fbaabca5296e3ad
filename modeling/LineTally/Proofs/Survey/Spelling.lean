import LineTally.Proofs.Candidates.Order
import LineTally.Proofs.Candidates.Reached
import LineTally.Proofs.FileTree.Spelling
import LineTally.Proofs.Survey.Outcomes

/-!
# How the root is spelled

A run is started at a path, and all paths that it makes begin with that path as it was given. So the
spelling of the root is in every question that is asked of the file system and in every path that is
compared with the suffix. What has to be seen is that no answer depends on it.

Two roots are spellings of each other (`Respells`) when they lead to the same directory, if to any,
and below them the same is found and the same matches. Then the same names are those of a way down
and of a candidate (`Respells.isCandidate_iff`), and the candidates differ in how their paths begin
(`Respells.files_eq`). The root itself is never a candidate, as it does not match, and so nothing is
asked of a root that leads to no directory: `A.java` and `A.java/` may differ, and so may a link to
a closed directory and that directory.
-/

set_option autoImplicit false

namespace LineTally

namespace FileTree

/-- **Two spellings of a root**, as far as a run can see. -/
structure Respells (t : FileTree) (suffix : Suffix) (root root' : Path) : Prop where
  lists : ∀ place, t.Lists root' place ↔ t.Lists root place
  find : ∀ last ns, ns ≠ [] → t.find last (root'.through ns) = t.find last (root.through ns)
  matching : ∀ ns, ns ≠ [] →
    suffix.matchesPath (root'.through ns) = suffix.matchesPath (root.through ns)

variable {t : FileTree} {suffix : Suffix} {root root' : Path} {names : List Name} {name : Name}
  {place : Place} {e : Entry} {kind : ItemKind}

namespace Respells

/-! ## 1. Candidates from either spelling -/

theorem symm (h : t.Respells suffix root root') : t.Respells suffix root' root :=
  ⟨fun place => (h.lists place).symm, fun last ns hne => (h.find last ns hne).symm,
    fun ns hne => (h.matching ns hne).symm⟩

section Transfer

variable (h : t.Respells suffix root root')
include h

theorem lists_through (hlists : t.Lists (root.through names) place) :
    t.Lists (root'.through names) place := by
  cases names with
  | nil => exact (h.lists place).mpr hlists
  | cons name rest =>
    have hstatus : t.status (root'.through (name :: rest)) =
        t.status (root.through (name :: rest)) := h.find .follow _ (List.cons_ne_nil _ _)
    unfold Lists list at hlists ⊢
    rw [hstatus]
    exact hlists

theorem hasEntry (hentry : t.HasEntry (root.through names) e) :
    t.HasEntry (root'.through names) e := by
  obtain ⟨place, hlists, he⟩ := hentry
  exact ⟨place, h.lists_through hlists, he⟩

theorem sameDirectory {ns ms : List Name}
    (hsame : t.SameDirectory (root.through ns) (root.through ms)) :
    t.SameDirectory (root'.through ns) (root'.through ms) := by
  obtain ⟨place, hns, hms⟩ := hsame
  exact ⟨place, h.lists_through hns, h.lists_through hms⟩

theorem stepDown (hstep : t.StepDown suffix.matchesPath root names name) :
    t.StepDown suffix.matchesPath root' names name := by
  obtain ⟨⟨kind, hentry⟩, ⟨place, hlists⟩, hskip, hloop⟩ := hstep
  refine ⟨⟨kind, h.hasEntry hentry⟩, ⟨place, h.lists_through hlists⟩, ?_,
    fun hlink j hj hsame => ?_⟩
  · rw [h.matching _ (by simp)]
    exact hskip
  · exact hloop (h.symm.hasEntry hlink) j hj (h.symm.sameDirectory hsame)

theorem descent (hway : t.Descent suffix.matchesPath root names) :
    t.Descent suffix.matchesPath root' names := by
  obtain ⟨⟨place, hlists⟩, hdown⟩ := hway
  exact ⟨⟨place, (h.lists place).mpr hlists⟩, fun i hi => h.stepDown (hdown i hi)⟩

theorem collected (hcollected : t.Collected root names (root.through (names ++ [name])) kind) :
    t.Collected root' names (root'.through (names ++ [name])) kind := by
  have hfind := fun last => h.find last (names ++ [name]) (by simp)
  cases hcollected with
  | file => exact .file
  | directory => exact .directory
  | linkToItem hstatus hkind => exact .linkToItem ((hfind .follow).trans hstatus) hkind
  | linkToDirectory hlists hloop =>
    exact .linkToDirectory (h.lists_through hlists) fun j hj hsame =>
      hloop j hj (h.symm.sameDirectory hsame)
  | linkToNothing hstatus hkept =>
    exact .linkToNothing ((hfind .follow).trans hstatus) ((hfind .keep).trans hkept)

theorem isCandidate (hcandidate : t.IsCandidate suffix root names name) :
    t.IsCandidate suffix root' names name := by
  obtain ⟨hway, hmatch, kind, hentry, hcollected⟩ := hcandidate
  refine ⟨h.descent hway, ?_, kind, h.hasEntry hentry, h.collected hcollected⟩
  rw [h.matching _ (by simp)]
  exact hmatch

end Transfer

/-- **The same names are those of a candidate.** -/
theorem isCandidate_iff (h : t.Respells suffix root root') :
    t.IsCandidate suffix root' names name ↔ t.IsCandidate suffix root names name :=
  ⟨h.symm.isCandidate, h.isCandidate⟩

/-- **The same candidates are found, in the same order**, under the paths that the other spelling
gives them. -/
theorem files_eq (h : t.Respells suffix root root') (rename : Path → Path)
    (hroot : suffix.matchesPath root = false) (hroot' : suffix.matchesPath root' = false)
    (hrename : ∀ ns, ns ≠ [] → root'.through ns = rename (root.through ns))
    (hordered : ∀ p q : Path, p.Before q → (rename p).Before (rename q)) :
    (t.discover suffix root').files = (t.discover suffix root).files.map rename := by
  have hbefore := (@files_before t suffix root hroot).map rename hordered
  refine (files_before hroot').eq_of_mem_iff hbefore fun q => ?_
  rw [mem_files_discover hroot', List.mem_map]
  constructor
  · rintro ⟨names, name, rfl, hcandidate⟩
    refine ⟨root.through (names ++ [name]), ?_, (hrename _ (by simp)).symm⟩
    exact (mem_files_discover hroot).mpr ⟨names, name, rfl, h.isCandidate_iff.mp hcandidate⟩
  · rintro ⟨p, hp, rfl⟩
    obtain ⟨names, name, rfl, hcandidate⟩ := (mem_files_discover hroot).mp hp
    exact ⟨names, name, (hrename _ (by simp)).symm, h.isCandidate_iff.mpr hcandidate⟩

end Respells

/-! ## 2. A slash after the root -/

theorem matchesPath_append_slash (hsuffix : suffix.text ≠ []) (hslash : '/' ∉ suffix.text)
    (hend : root.endsInSlash = false) :
    suffix.matchesPath (root ++ [Path.slash]) = false := by
  rw [Path.append_slash_eq_join hend, Suffix.matchesPath_join hslash]
  -- Nothing comes after the slash, and no suffix that says anything is a suffix of nothing.
  refine Bool.eq_false_iff.mpr fun h => hsuffix ?_
  exact List.suffix_nil.mp (List.isSuffixOf_iff_suffix.mp h)

theorem respells_slash (suffix : Suffix) (hne : root ≠ []) (hend : root.endsInSlash = false) :
    t.Respells suffix root (root ++ [Path.slash]) := by
  refine ⟨fun place => lists_slash_iff hne, fun last ns hns => ?_, fun ns hns => ?_⟩
  · rw [Path.through_append_slash hend hns]
  · rw [Path.through_append_slash hend hns]

theorem files_discover_slash (hsuffix : suffix.text ≠ []) (hslash : '/' ∉ suffix.text)
    (hne : root ≠ []) (hend : root.endsInSlash = false)
    (hroot : suffix.matchesPath root = false) :
    (t.discover suffix (root ++ [Path.slash])).files = (t.discover suffix root).files := by
  have hroot' := matchesPath_append_slash hsuffix hslash hend
  have hfiles := (respells_slash (t := t) suffix hne hend).files_eq id hroot hroot'
    (fun ns hns => Path.through_append_slash hend hns) fun _ _ h => h
  rwa [List.map_id] at hfiles

/-! ## 3. A dot before the root -/

section Dot

variable (hslash : '/' ∉ suffix.text) (hne : root ≠ []) (hend : root.endsInSlash = false)
  (hrelative : root.isAbsolute = false)
include hne hend hrelative

theorem find_through_dot (last : LastLink) (ns : List Name) :
    t.find last (Path.join Name.dot (root.through ns)) = t.find last (root.through ns) := by
  refine find_dot_join ?_ (Path.names_through_ne_nil ns (Path.names_ne_nil hne hend))
  rw [Path.isAbsolute_through ns hne, hrelative]

theorem read_through_dot (ns : List Name) :
    t.read (Path.join Name.dot (root.through ns)) = t.read (root.through ns) := by
  have hstatus : t.status (Path.join Name.dot (root.through ns)) = t.status (root.through ns) :=
    find_through_dot hne hend hrelative .follow ns
  unfold read
  rw [hstatus]

include hslash in
theorem respells_dot : t.Respells suffix root (Path.join Name.dot root) := by
  have hfind := @find_through_dot t root hne hend hrelative
  refine ⟨fun place => ?_, fun last ns _ => ?_, fun ns _ => ?_⟩
  · have hstatus : t.status (Path.join Name.dot root) = t.status root := hfind .follow []
    unfold Lists list
    rw [hstatus]
  · rw [Path.through_join _ hne, hfind]
  · rw [Path.through_join _ hne, Suffix.matchesPath_join hslash]

include hslash in
theorem files_discover_dot (hroot : suffix.matchesPath root = false) :
    (t.discover suffix (Path.join Name.dot root)).files =
      (t.discover suffix root).files.map (Path.join Name.dot) := by
  have hroot' : suffix.matchesPath (Path.join Name.dot root) = false := by
    rw [Suffix.matchesPath_join hslash, hroot]
  have hnames : ∀ p : Path, (Path.join Name.dot p).names = Name.dot :: p.names :=
    Path.names_append_slash Name.dot
  refine (respells_dot hslash hne hend hrelative).files_eq _ hroot hroot' (fun ns _ => ?_) ?_
  · exact Path.through_join _ hne ns
  · intro p q hpq
    unfold Path.Before at hpq ⊢
    rw [hnames, hnames]
    exact List.cons_lt_cons_iff.mpr (Or.inr ⟨rfl, hpq⟩)

include hslash in
theorem outcomes_discover_dot (hroot : suffix.matchesPath root = false) :
    t.outcomes (t.discover suffix (Path.join Name.dot root)).files =
      t.outcomes (t.discover suffix root).files := by
  rw [files_discover_dot hslash hne hend hrelative hroot, outcomes, List.map_map]
  refine List.map_congr_left fun q hq => ?_
  obtain ⟨names, name, rfl, _⟩ := (mem_files_discover hroot).mp hq
  exact congrArg Except.toOption (read_through_dot hne hend hrelative _)

end Dot

/-! ## 4. The three spellings -/

/-- **How the root is spelled does not matter.** A slash after it changes nothing at all, and `./`
before it, if it is relative, only puts `./` before every path. The result is the same, whatever the
root leads to. -/
theorem tally_respelled (t : FileTree) (suffix : Suffix) (root : Path) (hsuffix : suffix.text ≠ [])
    (hslash : '/' ∉ suffix.text) (hne : root ≠ []) (hend : root.endsInSlash = false)
    (hroot : suffix.matchesPath root = false) :
    (t.discover suffix (root ++ [Path.slash])).files = (t.discover suffix root).files ∧
    t.tally suffix (root ++ [Path.slash]) = t.tally suffix root ∧
    (root.isAbsolute = false →
      (t.discover suffix (Name.dot ++ Path.slash :: root)).files =
        (t.discover suffix root).files.map (fun q => Name.dot ++ Path.slash :: q) ∧
      t.tally suffix (Name.dot ++ Path.slash :: root) = t.tally suffix root) := by
  have hfiles := files_discover_slash (t := t) hsuffix hslash hne hend hroot
  refine ⟨hfiles, ?_, fun hrelative => ⟨?_, ?_⟩⟩
  · exact tally_eq_of_outcomes_eq (congrArg t.outcomes hfiles)
  · exact files_discover_dot hslash hne hend hrelative hroot
  · exact tally_eq_of_outcomes_eq (outcomes_discover_dot hslash hne hend hrelative hroot)

/-- The root is a link, and a link below it leads to the directory that has both. -/
theorem tally_respelled_knotted :
    Suffix.standard.text ≠ [] ∧ '/' ∉ Suffix.standard.text ∧ Bytes.ofText "again" ≠ [] ∧
      Path.endsInSlash (.ofText "again") = false ∧
      Suffix.standard.matchesPath (.ofText "again") = false ∧
      Path.isAbsolute (.ofText "again") = false ∧
      (knotted.discover .standard (.ofText "again/")).files =
        (knotted.discover .standard (.ofText "again")).files ∧
      (knotted.discover .standard (.ofText "./again")).files =
        (knotted.discover .standard (.ofText "again")).files.map
          (fun q => Name.dot ++ Path.slash :: q) ∧
      knotted.tally .standard (.ofText "again/") = knotted.tally .standard (.ofText "again") ∧
      knotted.tally .standard (.ofText "./again") = knotted.tally .standard (.ofText "again") := by
  obtain ⟨hslashed, htally, hdotted⟩ := tally_respelled knotted .standard (.ofText "again")
    (by decide) (by decide) (by decide) (by decide) (by decide)
  obtain ⟨hfiles, htally'⟩ := hdotted (by decide)
  exact ⟨by decide, by decide, by decide, by decide, by decide, by decide, hslashed, hfiles,
    htally, htally'⟩

example : (knotted.discover .standard (.ofText "again")).files =
    ["again/A.java", "again/back/src/A.java"].map .ofText := by decide

end FileTree

end LineTally
