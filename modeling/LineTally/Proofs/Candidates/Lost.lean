import LineTally.Proofs.Candidates.Contract

/-!
# Entries that match and are lost

Whatever matches is meant to be a candidate, wherever it leads, unless it leads back. The walk does
not quite get there. Each entry of a directory that it lists is handed on either as an entry or as
an obstacle, and an obstacle becomes a candidate only if its path is known and something can be
found there. Two links have neither:

* one whose target is a directory **that may not be opened** — the obstacle comes without a path;
* one in a directory that may be listed and **may not be searched** — nothing is found at its path,
  although the listing says that it is there.

`collected_iff_not_lost` says that these are all: any other entry that matches is collected, broken
links and unreadable directories included.
-/

set_option autoImplicit false

namespace LineTally

namespace FileTree

/-- A path leads to a directory that does not permit something. -/
def Forbids (t : FileTree) (path : Path) (what : Permissions → Bool) : Prop :=
  ∃ place permissions, t.status path = .ok ⟨place, .directory permissions⟩ ∧
    what permissions = false

/-- **A link that is lost**: it leads to a directory that may not be opened, or its own directory
may not be searched. -/
def IsLost (t : FileTree) (directory : Path) (e : Entry) : Prop :=
  e.kind = .link ∧ (t.Forbids (directory.join e.name) Permissions.readable ∨
    t.Forbids directory Permissions.searchable)

variable {t : FileTree} {suffix : Suffix} {root path : Path} {names : List Name} {name : Name}
  {place : Place} {kind : ItemKind}

/-! ## 1. Searching a listed directory -/

theorem enter_of_not_forbids (h : t.Lists path place)
    (hallowed : ¬ t.Forbids path Permissions.searchable) : t.enter place = .ok () := by
  obtain ⟨permissions, _, hstatus⟩ := h.status
  obtain ⟨_, _, _, hitem⟩ := find_eq_ok_iff.mp hstatus
  cases hsearchable : permissions.searchable with
  | false => exact absurd ⟨place, permissions, hstatus, hsearchable⟩ hallowed
  | true => exact enter_of_item hitem hsearchable

theorem not_forbids_of_enter (h : t.Lists path place) (hin : t.enter place = .ok ()) :
    ¬ t.Forbids path Permissions.searchable := by
  rintro ⟨place', permissions, hstatus, hsearchable⟩
  obtain ⟨permissions', _, hstatus'⟩ := h.status
  rw [hstatus] at hstatus'
  cases hstatus'
  obtain ⟨_, _, _, hitem⟩ := find_eq_ok_iff.mp hstatus
  rw [enter, hitem] at hin
  simp [hsearchable] at hin

/-! ## 2. One entry -/

theorem not_collected_of_lost (h : t.HasEntry path ⟨name, kind⟩)
    (hlost : t.IsLost path ⟨name, kind⟩) : ¬ t.Collected root names (path.join name) kind := by
  have hproper := h.isProper
  obtain ⟨place, hlists, hentry⟩ := h
  obtain ⟨hkind, hforbids⟩ := hlost
  dsimp only at hkind hforbids hproper
  subst hkind
  intro hcollected
  -- Whatever state it is collected in, something is found at its path.
  have hfound : ∃ last found, t.find last (path.join name) = .ok found := by
    cases hcollected with
    | linkToItem hstatus hitem => exact ⟨_, _, hstatus⟩
    | linkToDirectory hthere hloop =>
      obtain ⟨permissions, _, hstatus⟩ := hthere.status
      exact ⟨_, _, hstatus⟩
    | linkToNothing hstatus hkept => exact ⟨_, _, hkept⟩
  rcases hforbids with ⟨there, permissions, hstatus, hreadable⟩ | hforbids
  · cases hcollected with
    | linkToItem hstatus' hitem =>
      rw [hstatus] at hstatus'
      cases hstatus'
      exact hitem rfl
    | linkToDirectory hthere hloop =>
      obtain ⟨permissions', hreadable', hstatus'⟩ := hthere.status
      rw [hstatus] at hstatus'
      cases hstatus'
      rw [hreadable] at hreadable'
      cases hreadable'
    | linkToNothing hstatus' hkept =>
      rw [hstatus] at hstatus'
      cases hstatus'
  · obtain ⟨last, found, hfind⟩ := hfound
    exact not_forbids_of_enter hlists (enter_of_find_join hlists hproper hfind) hforbids

theorem collected_of_not_lost (h : t.HasEntry path ⟨name, kind⟩)
    (hlost : ¬ t.IsLost path ⟨name, kind⟩)
    (hloop : kind = .link → ∀ j ≤ names.length,
      ¬ t.SameDirectory (path.join name) (root.through (names.take j))) :
    t.Collected root names (path.join name) kind := by
  have hproper := h.isProper
  obtain ⟨place, hlists, hentry⟩ := h
  cases kind with
  | file => exact .file
  | directory => exact .directory
  | link =>
    obtain ⟨hopened, hsearched⟩ := not_or.mp (not_and.mp hlost rfl)
    have hin := enter_of_not_forbids hlists hsearched
    rcases status_cases t (path.join name) with ⟨cause, h⟩ | ⟨found, h, hkind⟩ |
      ⟨there, permissions, h, hreadable⟩ | ⟨there, h⟩
    · obtain ⟨item, hitem, hkind⟩ := mem_entries.mp hentry
      cases item with
      | file permissions content => cases hkind
      | directory permissions => cases hkind
      | link target =>
        -- The directory may be searched, so the link itself can be looked at.
        exact .linkToNothing h (linkStatus_join_of_link hlists hin hproper hitem)
    · exact .linkToItem h hkind
    · exact absurd ⟨there, permissions, h, hreadable⟩ hopened
    · exact .linkToDirectory h (hloop rfl)

/-! ## 3. The whole listing -/

/-- A path below the root is collected for the names that it has. -/
theorem mem_files_through (hroot : suffix.matchesPath root = false)
    (hproper : ∀ n ∈ names ++ [name], n.isProper = true) :
    root.through (names ++ [name]) ∈ (t.discover suffix root).files ↔
      t.IsCandidate suffix root names name := by
  rw [mem_files_discover hroot]
  constructor
  · rintro ⟨names', name', heq, hcandidate⟩
    obtain ⟨kind, hentry, _⟩ := hcandidate.entry
    have hproper' := hcandidate.way.concat_proper hentry
    obtain ⟨rfl, hname⟩ := List.append_inj' (Path.through_injective hproper hproper' heq) rfl
    cases hname
    exact hcandidate
  · intro hcandidate
    exact ⟨names, name, rfl, hcandidate⟩

/-- **What becomes of an entry that matches**, in a directory that the walk lists and unless it is a
link back to a directory on the way: it is collected exactly when it is not lost. -/
theorem collected_iff_not_lost (t : FileTree) (suffix : Suffix) (root : Path) (names : List Name)
    (e : Entry) (hroot : suffix.matchesPath root = false)
    (hlisted : t.Descent suffix.matchesPath root names)
    (hentry : t.HasEntry (root.through names) e)
    (hmatch : suffix.matchesPath (root.through (names ++ [e.name])) = true)
    (hloop : e.kind = .link → ∀ j ≤ names.length,
      ¬ t.SameDirectory (root.through (names ++ [e.name])) (root.through (names.take j))) :
    root.through (names ++ [e.name]) ∈ (t.discover suffix root).files ↔
      ¬ t.IsLost (root.through names) e := by
  obtain ⟨name, kind⟩ := e
  dsimp only at hmatch hloop ⊢
  rw [mem_files_through hroot (hlisted.concat_proper hentry)]
  constructor
  · rintro ⟨_, _, kind', hentry', hcollected⟩ hlost
    obtain rfl := hentry.kind_unique hentry'
    rw [Path.through_concat] at hcollected
    exact not_collected_of_lost hentry hlost hcollected
  · intro hlost
    refine ⟨hlisted, hmatch, kind, hentry, ?_⟩
    rw [Path.through_concat] at hloop ⊢
    exact collected_of_not_lost hentry hlost hloop

theorem assorted_descent_names :
    assorted.Descent Suffix.standard.matchesPath Name.dot [.ofText "names"] := by
  have hroot : assorted.Lists Name.dot [] := rfl
  have hentry : assorted.HasEntry Name.dot ⟨.ofText "names", .directory⟩ :=
    ⟨[], hroot, by decide⟩
  refine (@descent_concat _ _ _ [] _).mpr ⟨descent_nil.mpr ⟨[], hroot⟩, ⟨.directory, hentry⟩,
    ⟨[.ofText "names"], rfl⟩, by decide, fun hlink => ?_⟩
  cases hentry.kind_unique hlink

theorem not_sameDirectory_of_list_error {q : Path} (cause : AccessError)
    (h : t.list path = .error cause) : ¬ t.SameDirectory path q := by
  rintro ⟨place, hlists, _⟩
  exact not_lists_of_error h hlists

theorem collected_iff_not_lost_assorted :
    Suffix.standard.matchesPath Name.dot = false ∧
      assorted.Descent Suffix.standard.matchesPath Name.dot [.ofText "names"] ∧
      assorted.HasEntry (.ofText "./names") ⟨.ofText "R.java", .link⟩ ∧
      Suffix.standard.matchesPath (.ofText "./names/R.java") = true ∧
      (∀ j ≤ 1, ¬ assorted.SameDirectory (.ofText "./names/R.java")
        (Path.through Name.dot ([.ofText "names"].take j))) ∧
      (Bytes.ofText "./names/R.java" ∈ (assorted.discover .standard Name.dot).files ↔
        ¬ assorted.IsLost (.ofText "./names") ⟨.ofText "R.java", .link⟩) := by
  have hentry : assorted.HasEntry (.ofText "./names") ⟨.ofText "R.java", .link⟩ :=
    ⟨[.ofText "names"], rfl, by decide⟩
  have hloop : ∀ j ≤ 1, ¬ assorted.SameDirectory (.ofText "./names/R.java")
      (Path.through Name.dot ([.ofText "names"].take j)) := fun j _ =>
    not_sameDirectory_of_list_error .permissionDenied rfl
  exact ⟨by decide, assorted_descent_names, hentry, by decide, hloop,
    collected_iff_not_lost assorted .standard Name.dot [.ofText "names"]
      ⟨.ofText "R.java", .link⟩ (by decide) assorted_descent_names hentry (by decide)
      fun _ => hloop⟩

/-- **A link that matches may be lost**, in a directory that the walk lists and without leading
back. -/
theorem matching_entry_may_be_lost :
    ¬ ∀ (t : FileTree) (suffix : Suffix) (root : Path) (names : List Name) (e : Entry),
      suffix.matchesPath root = false → t.Descent suffix.matchesPath root names →
      t.HasEntry (root.through names) e →
      suffix.matchesPath (root.through (names ++ [e.name])) = true →
      (e.kind = .link → ∀ j ≤ names.length,
        ¬ t.SameDirectory (root.through (names ++ [e.name])) (root.through (names.take j))) →
      root.through (names ++ [e.name]) ∈ (t.discover suffix root).files := by
  intro h
  have hroot : assorted.Lists Name.dot [] := rfl
  have hmem := h assorted .standard Name.dot [] ⟨.ofText "L.java", .link⟩ (by decide)
    (descent_nil.mpr ⟨[], hroot⟩) ⟨[], hroot, by decide⟩ (by decide) fun _ j _ =>
      not_sameDirectory_of_list_error .permissionDenied rfl
  exact absurd hmem (by decide)

end FileTree

end LineTally
