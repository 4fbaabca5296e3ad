import LineTally.Candidates.Discovery
import LineTally.Proofs.Walk.Depth

/-!
# Which paths are candidates

`FileTree.discover` drives a walk and looks at what it is handed: entries, some of which it tells
the walk not to go into, and obstacles, some of which it takes for candidates after all. Here is
the outcome in terms of the tree alone. A path is a candidate **exactly** when it is the root joined
with some names such that

* all but the last are a way down that the walk takes (`Descent`),
* the last is in the listing at the end of that way, and the path matches, and
* the entry is `Collected`: it is no link, or a link whose state the cases of `Collected` list.

What is not in those cases is lost, although it matches: a link to a directory that cannot be
opened, a link that cannot even be looked at, and a link back to a directory on the way.

The order is that of the components (`Path.names`), not of the bytes of the paths: `a/x` comes
before `a.b`, although `.` is less than `/`.
-/

set_option autoImplicit false

namespace LineTally

/-- The bytes of a text. -/
def Bytes.ofText (text : String) : Bytes := Utf8.encode text.toList

namespace FileTree

/-- **What an entry may be** for its path to be collected, the path being that of an entry in the
directory that the root leads to through some names. -/
inductive Collected (t : FileTree) (root : Path) (names : List Name) (path : Path) :
    ItemKind → Prop
  | file : Collected t root names path .file
  | directory : Collected t root names path .directory
  | linkToItem {found : Found} (status : t.status path = .ok found)
      (kind : found.item.kind ≠ .directory) : Collected t root names path .link
  | linkToDirectory {place : Place} (lists : t.Lists path place)
      (unlooped : ∀ j ≤ names.length, ¬ t.SameDirectory path (root.through (names.take j))) :
      Collected t root names path .link
  | linkToNothing {cause : AccessError} {kept : Found} (status : t.status path = .error cause)
      (linkStatus : t.linkStatus path = .ok kept) : Collected t root names path .link

/-- **A candidate** by the names that lead to it from a root that does not match. -/
structure IsCandidate (t : FileTree) (suffix : Suffix) (root : Path) (names : List Name)
    (name : Name) : Prop where
  way : t.Descent suffix.matchesPath root names
  matching : suffix.matchesPath (root.through (names ++ [name])) = true
  entry : ∃ kind, t.HasEntry (root.through names) ⟨name, kind⟩ ∧
    t.Collected root names (root.through (names ++ [name])) kind

/-! ## 1. What becomes of a link -/

section Link

variable {t : FileTree} {above : List Ancestor} {path : Path} {place : Place} {name : Name}
  {found : Found}

/-- The four states of a link: it leads nowhere, to something that is no directory, to a directory
that cannot be opened, or to one that can be listed. -/
theorem status_cases (t : FileTree) (path : Path) :
    (∃ cause, t.status path = .error cause) ∨
    (∃ found, t.status path = .ok found ∧ found.item.kind ≠ .directory) ∨
    (∃ place permissions, t.status path = .ok ⟨place, .directory permissions⟩ ∧
      permissions.readable = false) ∨
    ∃ place, t.Lists path place := by
  cases hstatus : t.status path with
  | error cause => exact Or.inl ⟨cause, rfl⟩
  | ok found =>
    obtain ⟨place, item⟩ := found
    cases item with
    | file permissions content => exact Or.inr (Or.inl ⟨_, rfl, by simp [Item.kind]⟩)
    | link target => exact Or.inr (Or.inl ⟨_, rfl, by simp [Item.kind]⟩)
    | directory permissions =>
      cases hreadable : permissions.readable with
      | false => exact Or.inr (Or.inr (Or.inl ⟨place, permissions, rfl, hreadable⟩))
      | true =>
        refine Or.inr (Or.inr (Or.inr ⟨place, ?_⟩))
        exact list_eq_ok_iff.mpr ⟨rfl, permissions, hreadable, hstatus⟩

theorem met_of_status_error {cause : AccessError} (h : t.status path = .error cause) :
    t.met above path .link = .obstacle (.unreachable path cause) := by
  rw [met, h]

theorem met_of_status_item (h : t.status path = .ok found) (hkind : found.item.kind ≠ .directory) :
    t.met above path .link = .entry path false := by
  obtain ⟨place, item⟩ := found
  rw [met, h]
  cases item with
  | file permissions content => rfl
  | link target => rfl
  | directory permissions => exact absurd rfl hkind

theorem met_of_unreadable {permissions : Permissions}
    (h : t.status path = .ok ⟨place, .directory permissions⟩)
    (hreadable : permissions.readable = false) :
    t.met above path .link = .obstacle (.unopened .permissionDenied) := by
  rw [met, h]
  simp [hreadable]

theorem met_of_lists (h : t.Lists path place) :
    t.met above path .link = .entry path true ∧ (∀ a ∈ above, a.place ≠ place) ∨
      (∃ a ∈ above, a.place = place ∧ t.met above path .link = .obstacle (.loop path a.path)) := by
  obtain ⟨permissions, hreadable, hstatus⟩ := h.status
  rw [met, hstatus]
  simp only [hreadable, if_true]
  cases hfind : above.find? fun a => a.place = place with
  | none =>
    refine Or.inl ⟨rfl, fun a ha => ?_⟩
    simpa using List.find?_eq_none.mp hfind a ha
  | some a =>
    exact Or.inr ⟨a, List.mem_of_find?_eq_some hfind, by simpa using List.find?_some hfind, rfl⟩

theorem met_link_entry_iff :
    (∃ isDirectory, t.met above path .link = .entry path isDirectory) ↔
      (∃ found, t.status path = .ok found ∧ found.item.kind ≠ .directory) ∨
        ∃ place, t.Lists path place ∧ ∀ a ∈ above, a.place ≠ place := by
  constructor
  · rintro ⟨isDirectory, hmet⟩
    rcases status_cases t path with ⟨cause, h⟩ | hitem | ⟨place, permissions, h, hreadable⟩ |
      ⟨place, h⟩
    · rw [met_of_status_error h] at hmet
      cases hmet
    · exact Or.inl hitem
    · rw [met_of_unreadable h hreadable] at hmet
      cases hmet
    · exact Or.inr ⟨place, h, opens_of_met hmet h⟩
  · rintro (⟨found, h, hkind⟩ | hopens)
    · exact ⟨false, met_of_status_item h hkind⟩
    · exact ⟨true, met_eq_directory_iff.mpr hopens⟩

/-- An obstacle that has a path is met exactly where the link leads nowhere. -/
theorem met_link_unreachable_iff {cause : AccessError} :
    t.met above path .link = .obstacle (.unreachable path cause) ↔
      t.status path = .error cause := by
  refine ⟨fun hmet => ?_, met_of_status_error⟩
  rcases status_cases t path with ⟨cause', h⟩ | ⟨found, h, hkind⟩ |
    ⟨place, permissions, h, hreadable⟩ | ⟨place, h⟩
  · rw [met_of_status_error h] at hmet
    cases hmet
    exact h
  · rw [met_of_status_item h hkind] at hmet
    cases hmet
  · rw [met_of_unreadable h hreadable] at hmet
    cases hmet
  · rcases met_of_lists h with ⟨hentry, _⟩ | ⟨a, _, _, hloop⟩
    · rw [hentry] at hmet
      cases hmet
    · rw [hloop] at hmet
      cases hmet

theorem isNonDirectory_join_iff (h : t.HasEntry path ⟨name, .link⟩) :
    Discovery.isNonDirectory t (path.join name) = true ↔
      ∃ kept, t.linkStatus (path.join name) = .ok kept := by
  obtain ⟨place, hlists, hentry⟩ := h
  unfold Discovery.isNonDirectory
  cases hkept : t.linkStatus (path.join name) with
  | error cause => simp
  | ok kept =>
    -- Looking found something, so the directory may be searched, and what it found is the link.
    obtain ⟨item, hitem, hkind⟩ := mem_entries.mp hentry
    have hproper := isProper_of_mem_entries hentry
    have hin := enter_of_find_join hlists hproper hkept
    cases item with
    | file permissions content => cases hkind
    | directory permissions => cases hkind
    | link target =>
      have hlink := linkStatus_join_of_link hlists hin hproper hitem
      rw [hkept] at hlink
      cases hlink
      simp [Item.kind]

end Link

/-! ## 2. What one visit contributes -/

section Visit

variable {t : FileTree} {suffix : Suffix} {root path q : Path} {above : List Ancestor}
  {names : List Name} {place : Place} {v : Visit} {e : Entry}

theorem files_ofVisit_obstacle (o : Obstacle) :
    (Discovery.ofVisit t suffix (.obstacle o)).files =
      (Discovery.candidateAt? t suffix o).toList := by
  simp only [Discovery.ofVisit]
  cases Discovery.candidateAt? t suffix o <;> rfl

/-- A visit contributes its own path at most, and only a path that matches. -/
theorem mem_files_ofVisit :
    q ∈ (Discovery.ofVisit t suffix v).files ↔ suffix.matchesPath q = true ∧
      ((∃ isDirectory, v = .entry q isDirectory) ∨
        ∃ cause, v = .obstacle (.unreachable q cause) ∧ Discovery.isNonDirectory t q = true) := by
  cases v with
  | entry path isDirectory =>
    show q ∈ (if suffix.matchesPath path then [path] else []) ↔ _
    constructor
    · intro h
      split at h
      · next hmatch =>
        obtain rfl := List.mem_singleton.mp h
        exact ⟨hmatch, Or.inl ⟨isDirectory, rfl⟩⟩
      · exact absurd h List.not_mem_nil
    · rintro ⟨hmatch, ⟨_, heq⟩ | ⟨_, heq, _⟩⟩ <;> cases heq
      rw [if_pos hmatch]
      exact List.mem_singleton_self q
  | obstacle o =>
    rw [files_ofVisit_obstacle, Option.mem_toList]
    cases o with
    | unopened cause => simp [Discovery.candidateAt?]
    | loop path ancestor => simp [Discovery.candidateAt?]
    | unreachable path cause =>
      show (if suffix.matchesPath path && Discovery.isNonDirectory t path then some path
        else none) = some q ↔ _
      constructor
      · intro h
        split at h
        · next hboth =>
          cases h
          obtain ⟨hmatch, hnon⟩ := Bool.and_eq_true_iff.mp hboth
          exact ⟨hmatch, Or.inr ⟨cause, rfl, hnon⟩⟩
        · cases h
      · rintro ⟨hmatch, ⟨_, heq⟩ | ⟨_, heq, hnon⟩⟩ <;> cases heq
        simp [hmatch, hnon]

theorem eq_of_mem_files_met {kind : ItemKind}
    (h : q ∈ (Discovery.ofVisit t suffix (t.met above path kind)).files) : q = path := by
  obtain ⟨_, ⟨isDirectory, hmet⟩ | ⟨cause, hmet, _⟩⟩ := mem_files_ofVisit.mp h
  · exact path_eq_of_met hmet
  · unfold met at hmet
    repeat' split at hmet
    all_goals cases hmet
    rfl

theorem mem_files_unreachable {cause : AccessError}
    (h : q ∈ (Discovery.ofVisit t suffix (.obstacle (.unreachable path cause))).files) :
    q = path ∧ suffix.matchesPath path = true := by
  obtain ⟨hmatch, ⟨_, hentry⟩ | ⟨_, hobstacle, _⟩⟩ := mem_files_ofVisit.mp h
  · cases hentry
  · cases hobstacle
    exact ⟨rfl, hmatch⟩

/-- The states in which a link is collected, in the words of the way down. -/
theorem collected_link_iff {name : Name}
    (htrail : t.Trail suffix.matchesPath root ⟨above, path⟩ names) (hlists : t.Lists path place)
    (hentry : t.HasEntry path ⟨name, .link⟩) :
    t.Collected root names (path.join name) .link ↔
      (∃ isDirectory, t.met (⟨path, place⟩ :: above) (path.join name) .link =
        .entry (path.join name) isDirectory) ∨
      ∃ cause, t.met (⟨path, place⟩ :: above) (path.join name) .link =
        .obstacle (.unreachable (path.join name) cause) ∧
          Discovery.isNonDirectory t (path.join name) = true := by
  rw [met_link_entry_iff]
  constructor
  · intro hcollected
    cases hcollected with
    | linkToItem status hkind => exact Or.inl (Or.inl ⟨_, status, hkind⟩)
    | @linkToDirectory there lists unlooped =>
      refine Or.inl (Or.inr ⟨there, lists, fun a ha heq => ?_⟩)
      obtain ⟨j, hj, hpath, halists⟩ := (htrail.mem_above_cons hlists a).mp ha
      refine unlooped j hj ⟨there, lists, ?_⟩
      rwa [← hpath, ← heq]
    | linkToNothing status hkept =>
      exact Or.inr ⟨_, met_link_unreachable_iff.mpr status,
        (isNonDirectory_join_iff hentry).mpr ⟨_, hkept⟩⟩
  · rintro ((⟨found, status, hkind⟩ | ⟨there, lists, hnew⟩) | ⟨cause, hmet, hnon⟩)
    · exact .linkToItem status hkind
    · refine .linkToDirectory lists fun j hj hsame => ?_
      obtain ⟨there', hthere, habove⟩ := hsame
      obtain rfl := lists.unique hthere
      refine hnew ⟨root.through (names.take j), there⟩ ?_ rfl
      exact (htrail.mem_above_cons hlists _).mpr ⟨j, hj, rfl, habove⟩
    · obtain ⟨kept, hkept⟩ := (isNonDirectory_join_iff hentry).mp hnon
      exact .linkToNothing (met_link_unreachable_iff.mp hmet) hkept

/-- **What an entry contributes**: its path, if that matches and the entry is to be collected. -/
theorem mem_files_met (htrail : t.Trail suffix.matchesPath root ⟨above, path⟩ names)
    (hlists : t.Lists path place) (he : e ∈ t.entries place) :
    q ∈ (Discovery.ofVisit t suffix
        (t.met (⟨path, place⟩ :: above) (path.join e.name) e.kind)).files ↔
      q = path.join e.name ∧ suffix.matchesPath q = true ∧ t.Collected root names q e.kind := by
  obtain ⟨name, kind⟩ := e
  dsimp only
  constructor
  · intro hq
    obtain rfl := eq_of_mem_files_met hq
    obtain ⟨hmatch, hmet⟩ := mem_files_ofVisit.mp hq
    refine ⟨rfl, hmatch, ?_⟩
    cases kind with
    | file => exact .file
    | directory => exact .directory
    | link => exact (collected_link_iff htrail hlists ⟨place, hlists, he⟩).mpr hmet
  · rintro ⟨rfl, hmatch, hcollected⟩
    refine mem_files_ofVisit.mpr ⟨hmatch, ?_⟩
    cases kind with
    | file => exact Or.inl ⟨false, rfl⟩
    | directory => exact Or.inl ⟨true, rfl⟩
    | link => exact (collected_link_iff htrail hlists ⟨place, hlists, he⟩).mp hcollected

theorem Enters.path_unskipped {skip : Path → Bool} {s : Spot} (h : t.Enters skip root s) :
    skip s.path = false := by
  rcases h.below.cases_tail with rfl | ⟨s', _, hdeeper⟩
  · exact h.unskipped
  · cases hdeeper with
    | into _ _ _ unskipped => exact unskipped

end Visit

/-! ## 3. The candidates -/

section Candidates

variable {t : FileTree} {suffix : Suffix} {root path q : Path} {budget : Nat} {place : Place}
  {above : List Ancestor}

theorem files_discover (hroot : suffix.matchesPath root = false) :
    (t.discover suffix root).files = (t.walk suffix.matchesPath root).flatMap fun v =>
      (Discovery.ofVisit t suffix v).files := by
  rw [discover, hroot]
  rfl

theorem not_mem_files_root (hroot : suffix.matchesPath root = false) {v : Visit}
    (hv : v ∈ t.walkWithin 0 suffix.matchesPath root) :
    q ∉ (Discovery.ofVisit t suffix v).files := by
  intro hq
  obtain ⟨hmatch, _⟩ := mem_files_ofVisit.mp hq
  have heq : q = root := by
    rcases mem_walkWithin_zero.mp hv with ⟨cause, _, rfl⟩ | ⟨kept, _, rfl⟩
    · exact (mem_files_unreachable hq).1
    · exact eq_of_mem_files_met hq
  rw [heq, hroot] at hmatch
  cases hmatch

/-- **Exactly the candidates are collected.** -/
theorem mem_files_discover (hroot : suffix.matchesPath root = false) :
    q ∈ (t.discover suffix root).files ↔
      ∃ names name, q = root.through (names ++ [name]) ∧ t.IsCandidate suffix root names name := by
  rw [files_discover hroot, List.mem_flatMap]
  constructor
  · rintro ⟨v, hv, hq⟩
    rcases mem_walkWithin.mp hv with hroot' | ⟨⟨above, path⟩, henters, _, hv⟩
    · exact absurd hq (not_mem_files_root hroot hroot')
    · obtain ⟨names, htrail⟩ := henters.trail
      have hpath : path = root.through names := htrail.path_eq
      rcases lists_or_error t path with ⟨place, hlists⟩ | ⟨cause, herror⟩
      · obtain ⟨⟨name, kind⟩, he, rfl⟩ := (mem_visitsInside_one hlists).mp hv
        obtain ⟨rfl, hmatch, hcollected⟩ := (mem_files_met htrail hlists he).mp hq
        have hjoin : path.join name = root.through (names ++ [name]) := by
          rw [Path.through_concat, hpath]
        dsimp only at hmatch hcollected
        rw [hjoin] at hmatch hcollected
        exact ⟨names, name, hjoin, htrail.descent ⟨place, hlists⟩, hmatch, kind,
          ⟨place, hpath ▸ hlists, he⟩, hcollected⟩
      · -- A directory that turns out not to be listable has been gone into, so it does not match.
        rw [visitsInside_of_list_error herror] at hv
        rw [List.mem_singleton.mp hv] at hq
        obtain ⟨_, hmatch⟩ := mem_files_unreachable hq
        have hunskipped := henters.path_unskipped
        rw [hmatch] at hunskipped
        cases hunskipped
  · rintro ⟨names, name, rfl, hway, hmatch, kind, ⟨place, hlists, he⟩, hcollected⟩
    obtain ⟨⟨above, path⟩, henters, htrail⟩ := hway.enters hroot
    have hpath : root.through names = path := htrail.path_eq.symm
    rw [hpath] at hlists
    rw [Path.through_concat, hpath] at hmatch hcollected ⊢
    refine ⟨_, mem_walkWithin.mpr (Or.inr ⟨_, henters, henters.length_above_lt,
      (mem_visitsInside_one hlists).mpr ⟨⟨name, kind⟩, he, rfl⟩⟩), ?_⟩
    exact (mem_files_met htrail hlists he).mpr ⟨rfl, hmatch, hcollected⟩

/-! ## 4. Their order -/

theorem below_names {skip : Path → Bool} {s s' : Spot} (h : t.Below skip s s') :
    ∃ rest, s'.path.names = s.path.names ++ rest := by
  induction h with
  | refl => exact ⟨[], (List.append_nil _).symm⟩
  | tail _ hdeeper ih =>
    obtain ⟨rest, hrest⟩ := ih
    cases hdeeper with
    | @into _ path _ e _ hentry _ _ =>
      refine ⟨rest ++ [e.name], ?_⟩
      rw [Path.names_join _ (isProper_of_mem_entries hentry), hrest, List.append_assoc]

theorem names_of_mem_inside
    (h : q ∈ (t.visitsInside suffix.matchesPath budget above path).flatMap fun v =>
      (Discovery.ofVisit t suffix v).files) : ∃ rest, q.names = path.names ++ rest := by
  obtain ⟨v, hv, hq⟩ := List.mem_flatMap.mp h
  obtain ⟨s, hbelow, _, hv⟩ := mem_visitsInside.mp hv
  obtain ⟨rest, hrest⟩ := below_names hbelow
  rcases lists_or_error t s.path with ⟨place, hlists⟩ | ⟨cause, herror⟩
  · obtain ⟨e, he, rfl⟩ := (mem_visitsInside_one hlists).mp hv
    refine ⟨rest ++ [e.name], ?_⟩
    rw [eq_of_mem_files_met hq, Path.names_join _ (isProper_of_mem_entries he), hrest,
      List.append_assoc]
  · rw [visitsInside_of_list_error herror] at hv
    rw [List.mem_singleton.mp hv] at hq
    obtain ⟨rfl, _⟩ := mem_files_unreachable hq
    exact ⟨rest, hrest⟩

theorem names_of_mem_visit {e : Entry} (he : e ∈ t.entries place)
    (h : q ∈ (t.visit suffix.matchesPath (t.visitsInside suffix.matchesPath budget above) above
      (path.join e.name) e.kind).flatMap fun v => (Discovery.ofVisit t suffix v).files) :
    ∃ rest, q.names = path.names ++ e.name :: rest := by
  have hjoin := Path.names_join path (isProper_of_mem_entries he)
  obtain ⟨v, hv, hq⟩ := List.mem_flatMap.mp h
  rcases mem_visit.mp hv with rfl | ⟨_, _, hv⟩
  · refine ⟨[], ?_⟩
    rw [eq_of_mem_files_met hq, hjoin]
  · obtain ⟨rest, hrest⟩ := names_of_mem_inside (List.mem_flatMap.mpr ⟨v, hv, hq⟩)
    refine ⟨rest, ?_⟩
    rw [hrest, hjoin, List.append_assoc]
    rfl

theorem pairwise_files_ofVisit {R : Path → Path → Prop} (v : Visit) :
    (Discovery.ofVisit t suffix v).files.Pairwise R := by
  cases v with
  | entry path isDirectory =>
    show (if suffix.matchesPath path then [path] else []).Pairwise R
    split
    · exact List.pairwise_singleton R path
    · exact List.Pairwise.nil
  | obstacle o =>
    rw [files_ofVisit_obstacle]
    cases Discovery.candidateAt? t suffix o with
    | none => exact List.Pairwise.nil
    | some path => exact List.pairwise_singleton R path

/-- A directory that is gone into contributes what is inside, and one that is not only itself. -/
theorem pairwise_files_visit {R : Path → Path → Prop} {inside : Path → List Visit}
    {kind : ItemKind}
    (h : ((inside path).flatMap fun v => (Discovery.ofVisit t suffix v).files).Pairwise R) :
    ((t.visit suffix.matchesPath inside above path kind).flatMap fun v =>
      (Discovery.ofVisit t suffix v).files).Pairwise R := by
  rw [visit_eq, List.flatMap_cons]
  by_cases hinto : t.met above path kind = .entry path true ∧ suffix.matchesPath path = false
  · obtain ⟨hmet, hunmatched⟩ := hinto
    -- A directory that is gone into does not match.
    have hself : (Discovery.ofVisit t suffix (.entry path true)).files = [] := by
      show (if suffix.matchesPath path then [path] else []) = []
      rw [hunmatched]
      rfl
    rw [if_pos ⟨hmet, hunmatched⟩, hmet, hself, List.nil_append]
    exact h
  · rw [if_neg hinto, List.flatMap_nil, List.append_nil]
    exact pairwise_files_ofVisit _

/-- **Inside a directory the components ascend.** -/
theorem ascending_files_inside :
    ((t.visitsInside suffix.matchesPath budget above path).flatMap fun v =>
      (Discovery.ofVisit t suffix v).files).Pairwise fun p q => p.names < q.names := by
  induction budget generalizing above path with
  | zero => exact List.Pairwise.nil
  | succ budget ih =>
    rcases lists_or_error t path with ⟨place, hlists⟩ | ⟨cause, herror⟩
    · rw [visitsInside_of_lists hlists, List.flatMap_assoc, List.pairwise_flatMap]
      -- Below one entry it is the hypothesis that decides, among them the order of the listing.
      refine ⟨fun e _ => pairwise_files_visit ih, ?_⟩
      refine (entries_sorted t place).imp_of_mem fun {e e'} he he' hlt p hp q hq => ?_
      obtain ⟨rest, hrest⟩ := names_of_mem_visit he hp
      obtain ⟨rest', hrest'⟩ := names_of_mem_visit he' hq
      rw [hrest, hrest']
      exact List.append_left_lt (List.cons_lt_cons_iff.mpr (Or.inl hlt))
    · rw [visitsInside_of_list_error herror, List.flatMap_singleton]
      exact pairwise_files_ofVisit _

theorem ascending_files_discover (hroot : suffix.matchesPath root = false) :
    (t.discover suffix root).files.Pairwise fun p q => p.names < q.names := by
  rw [files_discover hroot, walk, walkWithin]
  cases t.linkStatus root with
  | error cause =>
    dsimp only
    rw [List.flatMap_singleton]
    exact pairwise_files_ofVisit _
  | ok kept => exact pairwise_files_visit ascending_files_inside

end Candidates

/-! ## 5. The contract -/

/-- **What `discover` answers**, for every tree, every suffix and every root that does not match:
exactly the candidates, each of them once, and in the order of their components. -/
theorem discover_exact (t : FileTree) (suffix : Suffix) (root : Path)
    (hroot : suffix.matchesPath root = false) :
    (∀ q, q ∈ (t.discover suffix root).files ↔
      ∃ names name, q = root.through (names ++ [name]) ∧
        t.IsCandidate suffix root names name) ∧
      (t.discover suffix root).files.Pairwise (fun p q => p.names < q.names) ∧
      (t.discover suffix root).files.Nodup := by
  have hascending := @ascending_files_discover t suffix root hroot
  refine ⟨fun q => mem_files_discover hroot, hascending, hascending.imp fun {p q} hlt heq => ?_⟩
  rw [heq] at hlt
  exact List.lt_irrefl _ hlt

/-- A tree with a link of every sort that matches, with a directory that may be listed and not be
searched, and with two that the bytes of whole paths would put the other way round. -/
def assorted : FileTree where
  items := [
    ([], .directory .newDirectory),
    ([.ofText "A.java"], .file .newFile []),
    ([.ofText "G.java"], .link (.ofText "gone")),
    ([.ofText "L.java"], .link (.ofText "closed")),
    ([.ofText "S.java"], .link (.ofText "src")),
    ([.ofText "closed"], .directory (.ofMode 0o000)),
    ([.ofText "names"], .directory (.ofMode 0o444)),
    ([.ofText "F.java", .ofText "names"], .file .newFile []),
    ([.ofText "R.java", .ofText "names"], .link (.ofText "../A.java")),
    ([.ofText "src"], .directory .newDirectory),
    ([.ofText "C.java", .ofText "src"], .file .newFile []),
    ([.ofText "U.java", .ofText "src"], .link Name.dotDot),
    ([.ofText "src-x"], .directory .newDirectory),
    ([.ofText "D.java", .ofText "src-x"], .file .newFile [])]
  workingDirectory := []
  distinct := by decide
  proper := by decide

theorem discover_exact_assorted :
    Suffix.standard.matchesPath Name.dot = false ∧
      (∀ q, q ∈ (assorted.discover .standard Name.dot).files ↔
        ∃ names name, q = Path.through Name.dot (names ++ [name]) ∧
          assorted.IsCandidate .standard Name.dot names name) ∧
        (assorted.discover .standard Name.dot).files.Pairwise (fun p q => p.names < q.names) ∧
        (assorted.discover .standard Name.dot).files.Nodup :=
  ⟨by decide, discover_exact assorted .standard Name.dot (by decide)⟩

example : (assorted.discover .standard Name.dot).files =
    ["./A.java", "./G.java", "./S.java", "./names/F.java", "./src/C.java", "./src-x/D.java"].map
      .ofText := by decide

end FileTree

end LineTally
