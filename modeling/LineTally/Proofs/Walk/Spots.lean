import LineTally.Proofs.FileTree.Finding
import LineTally.Walk
import Mathlib.Logic.Relation

/-!
# Where a walk gets to

`visitsInside` recurses into a directory inside the listing of another, with a budget. For most
purposes the nesting is in the way: what a walk meets **in** one directory depends only on that
directory and on the directories above it, and which directories it goes into is a matter of single
steps. This file takes the two apart.

* `met` is what is handed out for an entry itself, and `visit_eq` says that the rest is what is
  inside, if the walk goes into it (`Opens`).
* A `Spot` is a directory that the walk goes into, with the ones above it; `Deeper` is one step
  down.
* `mem_visitsInside` — a visit is made inside a directory **exactly** when it is made in some spot
  below, not looking any further down (a budget of one), and the spot is within the budget.

So a fact about all visits is a fact about `Deeper`, by induction along the steps, and the budget
is a bound on the number of steps and nothing else.
-/

set_option autoImplicit false

namespace LineTally

/-- A directory that a walk goes into, and the directories that it is inside of, nearest first. -/
structure Spot where
  above : List Ancestor
  path : Path

namespace FileTree

/-- **What the walk goes into**, unless it is skipped: a directory, or a link to one that can be
listed and that the walk is not inside of. -/
def Opens (t : FileTree) (above : List Ancestor) (path : Path) : ItemKind → Prop
  | .file => False
  | .directory => True
  | .link => ∃ place, t.Lists path place ∧ ∀ a ∈ above, a.place ≠ place

/-- **What is handed out for an entry itself**, whatever may be inside it. -/
def met (t : FileTree) (above : List Ancestor) (path : Path) : ItemKind → Visit
  | .file => .entry path false
  | .directory => .entry path true
  | .link =>
    match t.status path with
    | .error cause => .obstacle (.unreachable path cause)
    | .ok found =>
      match found.item with
      | .directory permissions =>
        if permissions.readable then
          match above.find? fun a => a.place = found.place with
          | some a => .obstacle (.loop path a.path)
          | none => .entry path true
        else .obstacle (.unopened .permissionDenied)
      | _ => .entry path false

/-! ## 1. One entry -/

section Visit

variable {t : FileTree} {skip : Path → Bool} {inside : Path → List Visit} {above : List Ancestor}
  {path : Path} {kind : ItemKind} {v : Visit}

/-- Only what is gone into is handed out as a directory. -/
theorem met_eq_directory_iff :
    t.met above path kind = .entry path true ↔ t.Opens above path kind := by
  cases kind with
  | file => simp [met, Opens]
  | directory => simp [met, Opens]
  | link =>
    unfold met Opens Lists
    simp only [list_eq_ok_iff, true_and]
    cases hstatus : t.status path with
    | error cause => simp
    | ok found =>
      obtain ⟨place, item⟩ := found
      cases item with
      | file permissions content => simp
      | link target => simp
      | directory permissions =>
        cases hreadable : permissions.readable with
        | false =>
          simp only [hreadable, Bool.false_eq_true, if_false, reduceCtorEq, false_iff]
          rintro ⟨place', ⟨permissions', hreadable', heq⟩, _⟩
          cases heq
          rw [hreadable] at hreadable'
          cases hreadable'
        | true =>
          simp only [hreadable, if_true]
          cases hfind : above.find? fun a => a.place = place with
          | some a =>
            simp only [reduceCtorEq, false_iff]
            rintro ⟨place', ⟨permissions', _, heq⟩, hnew⟩
            cases heq
            exact hnew a (List.mem_of_find?_eq_some hfind) (by simpa using List.find?_some hfind)
          | none =>
            simp only [true_iff]
            refine ⟨place, ⟨permissions, hreadable, rfl⟩, fun a ha => ?_⟩
            simpa using List.find?_eq_none.mp hfind a ha

theorem path_eq_of_met {p : Path} {isDirectory : Bool}
    (h : t.met above path kind = .entry p isDirectory) : p = path := by
  cases kind with
  | file => cases h; rfl
  | directory => cases h; rfl
  | link =>
    unfold met at h
    repeat' split at h
    all_goals cases h
    all_goals rfl

/-- An obstacle that has a path has that of the entry. -/
theorem path_eq_of_met_obstacle {p : Path} {o : Obstacle}
    (h : t.met above path kind = .obstacle o) (hpath : o.path? = some p) : p = path := by
  cases kind with
  | file => cases h
  | directory => cases h
  | link =>
    unfold met at h
    repeat' split at h
    all_goals cases h
    all_goals cases hpath
    all_goals rfl

theorem opens_of_met {p : Path} {isDirectory : Bool} {place : Place}
    (h : t.met above path .link = .entry p isDirectory) (hlists : t.Lists path place) :
    ∀ a ∈ above, a.place ≠ place := by
  obtain ⟨permissions, hreadable, hstatus⟩ := hlists.status
  have hdirectory : t.met above path .link = .entry path true := by
    unfold met at h ⊢
    rw [hstatus] at h ⊢
    simp only [hreadable, if_true] at h ⊢
    cases hfind : above.find? fun a => a.place = place with
    | some a =>
      rw [hfind] at h
      cases h
    | none => rfl
  obtain ⟨place', hlists', hnew⟩ := met_eq_directory_iff.mp hdirectory
  rwa [hlists.unique hlists']

/-- **An entry contributes itself, and what is inside if it is gone into.** -/
theorem visit_eq :
    t.visit skip inside above path kind = t.met above path kind ::
      if t.met above path kind = .entry path true ∧ skip path = false then inside path else [] := by
  cases kind with
  | file => simp [visit, met]
  | directory => cases h : skip path <;> simp [visit, visitDirectory, met, h]
  | link =>
    unfold visit visitLink met
    cases hstatus : t.status path with
    | error cause => simp
    | ok found =>
      obtain ⟨place, item⟩ := found
      cases item with
      | file permissions content => simp
      | link target => simp
      | directory permissions =>
        cases hreadable : permissions.readable with
        | false => simp [hreadable]
        | true =>
          simp only [hreadable, if_true]
          cases hfind : above.find? fun a => a.place = place with
          | some a => simp
          | none => cases h : skip path <;> simp [visitDirectory, h]

theorem mem_visit :
    v ∈ t.visit skip inside above path kind ↔ v = t.met above path kind ∨
      t.Opens above path kind ∧ skip path = false ∧ v ∈ inside path := by
  rw [visit_eq, List.mem_cons, ← met_eq_directory_iff]
  refine or_congr Iff.rfl ?_
  split
  · next h => simp [h]
  · next h =>
    refine ⟨fun hv => absurd hv List.not_mem_nil, fun ⟨hdirectory, hskip, _⟩ => ?_⟩
    exact absurd ⟨hdirectory, hskip⟩ h

end Visit

/-! ## 2. One directory down -/

/-- One step down: an entry of a listed directory that the walk goes into. -/
inductive Deeper (t : FileTree) (skip : Path → Bool) : Spot → Spot → Prop
  | into {above : List Ancestor} {path : Path} {place : Place} {e : Entry}
      (lists : t.Lists path place) (entry : e ∈ t.entries place)
      (opens : t.Opens (⟨path, place⟩ :: above) (path.join e.name) e.kind)
      (unskipped : skip (path.join e.name) = false) :
      Deeper t skip ⟨above, path⟩ ⟨⟨path, place⟩ :: above, path.join e.name⟩

/-- Any number of steps down. -/
abbrev Below (t : FileTree) (skip : Path → Bool) : Spot → Spot → Prop :=
  Relation.ReflTransGen (t.Deeper skip)

section Inside

variable {t : FileTree} {skip : Path → Bool} {budget : Nat} {above : List Ancestor} {path : Path}
  {place : Place} {v : Visit}

theorem visitsInside_of_list_error {cause : AccessError} (h : t.list path = .error cause) :
    t.visitsInside skip (budget + 1) above path = [.obstacle (.unreachable path cause)] := by
  rw [visitsInside, h]

theorem visitsInside_of_lists (h : t.Lists path place) :
    t.visitsInside skip (budget + 1) above path = (t.entries place).flatMap fun e =>
      t.visit skip (t.visitsInside skip budget (⟨path, place⟩ :: above)) (⟨path, place⟩ :: above)
        (path.join e.name) e.kind := by
  rw [visitsInside, h]

theorem visitsInside_zero : t.visitsInside skip 0 above = fun _ => [] := rfl

/-- What is handed out in a spot, without looking further down. -/
theorem mem_visitsInside_one (h : t.Lists path place) :
    v ∈ t.visitsInside skip 1 above path ↔
      ∃ e ∈ t.entries place, v = t.met (⟨path, place⟩ :: above) (path.join e.name) e.kind := by
  rw [visitsInside_of_lists h, visitsInside_zero, List.mem_flatMap]
  simp [mem_visit]

theorem lists_or_error (t : FileTree) (path : Path) :
    (∃ place, t.Lists path place) ∨ ∃ cause, t.list path = .error cause := by
  cases h : t.list path with
  | error cause => exact Or.inr ⟨cause, rfl⟩
  | ok listing => exact Or.inl ⟨listing.1, (Lists.of_list h).1⟩

theorem mem_visitsInside_succ :
    v ∈ t.visitsInside skip (budget + 1) above path ↔
      v ∈ t.visitsInside skip 1 above path ∨
        ∃ s, t.Deeper skip ⟨above, path⟩ s ∧ v ∈ t.visitsInside skip budget s.above s.path := by
  rcases lists_or_error t path with ⟨place, hlists⟩ | ⟨cause, herror⟩
  · rw [visitsInside_of_lists hlists, visitsInside_of_lists hlists, visitsInside_zero,
      List.mem_flatMap, List.mem_flatMap]
    constructor
    · rintro ⟨e, he, hv⟩
      rcases mem_visit.mp hv with rfl | ⟨hopens, hskip, hv⟩
      · exact Or.inl ⟨e, he, mem_visit.mpr (Or.inl rfl)⟩
      · exact Or.inr ⟨_, .into hlists he hopens hskip, hv⟩
    · rintro (⟨e, he, hv⟩ | ⟨s, hdeeper, hv⟩)
      · rcases mem_visit.mp hv with rfl | ⟨_, _, hnil⟩
        · exact ⟨e, he, mem_visit.mpr (Or.inl rfl)⟩
        · exact absurd hnil List.not_mem_nil
      · cases hdeeper with
        | @into _ _ place' e hlists' he hopens hskip =>
          obtain rfl := hlists.unique hlists'
          exact ⟨e, he, mem_visit.mpr (Or.inr ⟨hopens, hskip, hv⟩)⟩
  · rw [visitsInside_of_list_error herror, visitsInside_of_list_error herror]
    refine ⟨Or.inl, fun h => h.elim id fun ⟨s, hdeeper, _⟩ => ?_⟩
    cases hdeeper with
    | into hlists _ _ _ => exact absurd hlists (not_lists_of_error herror)

theorem Deeper.length_above {s s' : Spot} (h : t.Deeper skip s s') :
    s'.above.length = s.above.length + 1 := by
  cases h
  rfl

theorem length_above_le_of_below {s s' : Spot} (h : t.Below skip s s') :
    s.above.length ≤ s'.above.length := by
  induction h with
  | refl => exact Nat.le_refl _
  | tail _ hdeeper ih => exact Nat.le_trans ih (by rw [hdeeper.length_above]; omega)

/-- **What is met inside a directory is met in one of the spots below it**, and the budget is how
many steps further down a spot may be. -/
theorem mem_visitsInside :
    v ∈ t.visitsInside skip budget above path ↔ ∃ s, t.Below skip ⟨above, path⟩ s ∧
      s.above.length < above.length + budget ∧ v ∈ t.visitsInside skip 1 s.above s.path := by
  constructor
  · intro hv
    induction budget generalizing above path with
    | zero => cases hv
    | succ budget ih =>
      rcases mem_visitsInside_succ.mp hv with hv | ⟨s, hdeeper, hv⟩
      · exact ⟨⟨above, path⟩, .refl, by simp, hv⟩
      · obtain ⟨s', hbelow, hlt, hv⟩ := ih hv
        have hlength := hdeeper.length_above
        refine ⟨s', .head hdeeper hbelow, ?_, hv⟩
        simp only at hlength
        omega
  · rintro ⟨s, hbelow, hlt, hv⟩
    -- The steps are taken from the top, as the recursion takes them.
    generalize hstart : Spot.mk above path = start at hbelow
    induction hbelow using Relation.ReflTransGen.head_induction_on generalizing budget above path
    with
    | refl =>
      subst hstart
      obtain ⟨k, rfl⟩ : ∃ k, budget = k + 1 := ⟨budget - 1, by simp at hlt; omega⟩
      exact mem_visitsInside_succ.mpr (Or.inl hv)
    | head hdeeper hbelow ih =>
      subst hstart
      have hlength := hdeeper.length_above
      have hle := length_above_le_of_below hbelow
      simp only at hlength
      obtain ⟨k, rfl⟩ : ∃ k, budget = k + 1 := ⟨budget - 1, by omega⟩
      exact mem_visitsInside_succ.mpr (Or.inr ⟨_, hdeeper, ih (by omega) rfl⟩)

end Inside

/-! ## 3. From the root -/

/-- A walk from `root` gets to a spot. -/
structure Enters (t : FileTree) (skip : Path → Bool) (root : Path) (s : Spot) : Prop where
  opens : ∃ found, t.linkStatus root = .ok found ∧ t.Opens [] root found.item.kind
  unskipped : skip root = false
  below : t.Below skip ⟨[], root⟩ s

theorem mem_walkWithin_zero {t : FileTree} {skip : Path → Bool} {root : Path} {v : Visit} :
    v ∈ t.walkWithin 0 skip root ↔
      (∃ cause, t.linkStatus root = .error cause ∧ v = .obstacle (.unreachable root cause)) ∨
        ∃ kept, t.linkStatus root = .ok kept ∧ v = t.met [] root kept.item.kind := by
  unfold walkWithin
  cases t.linkStatus root with
  | error cause => simp
  | ok kept => simp [visitsInside_zero, mem_visit]

/-- **A walk meets the root, and what there is in each spot that it gets to.** -/
theorem mem_walkWithin {t : FileTree} {skip : Path → Bool} {budget : Nat} {root : Path}
    {v : Visit} :
    v ∈ t.walkWithin budget skip root ↔ v ∈ t.walkWithin 0 skip root ∨
      ∃ s, t.Enters skip root s ∧ s.above.length < budget ∧
        v ∈ t.visitsInside skip 1 s.above s.path := by
  unfold walkWithin
  cases hroot : t.linkStatus root with
  | error cause =>
    refine ⟨Or.inl, fun h => h.elim id fun ⟨s, henters, _⟩ => ?_⟩
    obtain ⟨found, hfound, _⟩ := henters.opens
    rw [hroot] at hfound
    cases hfound
  | ok found =>
    dsimp only
    rw [visitsInside_zero, mem_visit, mem_visit]
    simp only [List.not_mem_nil, and_false, or_false]
    refine or_congr Iff.rfl ⟨?_, ?_⟩
    · rintro ⟨hopens, hskip, hv⟩
      obtain ⟨s, hbelow, hlt, hv⟩ := mem_visitsInside.mp hv
      exact ⟨s, ⟨⟨found, hroot, hopens⟩, hskip, hbelow⟩, by simpa using hlt, hv⟩
    · rintro ⟨s, ⟨⟨found', hfound', hopens⟩, hskip, hbelow⟩, hlt, hv⟩
      rw [hroot] at hfound'
      cases hfound'
      exact ⟨hopens, hskip, mem_visitsInside.mpr ⟨s, hbelow, by simpa using hlt, hv⟩⟩

end FileTree

end LineTally
