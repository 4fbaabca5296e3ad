import LineTally.Proofs.Walk.Spots

/-!
# The ways down

What a walk does is said here without the walk: by the names on the way. With `p₀` for the root and
`pᵢ` for the path through the first `i` of some names, a `Descent` through them asks that the root
can be listed and, of each step from `pᵢ` to `pᵢ₊₁` (`StepDown`),

* that the listing of `pᵢ` has the name,
* that `pᵢ₊₁` can be listed too and is not skipped, and
* if the name is that of a link, that it leads to none of `p₀ … pᵢ`.

`Enters.trail` and `Descent.enters` are the whole content: these are **exactly** the directories
that the walk lists. The list of ancestors that the walk carries along is, as a set, the
directories on the way (`Trail.mem_above`), which is why the loop check may be said by names.
-/

set_option autoImplicit false

namespace LineTally

namespace FileTree

/-- The listing of the directory at a path has an entry. -/
def HasEntry (t : FileTree) (path : Path) (e : Entry) : Prop :=
  ∃ place, t.Lists path place ∧ e ∈ t.entries place

/-- Two paths lead to one directory, which can be listed. -/
def SameDirectory (t : FileTree) (p q : Path) : Prop :=
  ∃ place, t.Lists p place ∧ t.Lists q place

/-- One step of a way down, from the directory reached through the names `before`. -/
structure StepDown (t : FileTree) (skip : Path → Bool) (root : Path) (before : List Name)
    (name : Name) : Prop where
  named : ∃ kind, t.HasEntry (root.through before) ⟨name, kind⟩
  listed : ∃ place, t.Lists (root.through (before ++ [name])) place
  unskipped : skip (root.through (before ++ [name])) = false
  unlooped : t.HasEntry (root.through before) ⟨name, .link⟩ → ∀ j ≤ before.length,
    ¬ t.SameDirectory (root.through (before ++ [name])) (root.through (before.take j))

/-- **A way down through some names**, all of whose directories are listed, also the last one. -/
structure Descent (t : FileTree) (skip : Path → Bool) (root : Path) (names : List Name) :
    Prop where
  listed : ∃ place, t.Lists root place
  down : ∀ i (h : i < names.length), t.StepDown skip root (names.take i) names[i]

variable {t : FileTree} {skip : Path → Bool} {root path : Path} {names : List Name} {name : Name}
  {place : Place}

theorem HasEntry.isProper {e : Entry} (h : t.HasEntry path e) : e.name.isProper = true := by
  obtain ⟨place, _, he⟩ := h
  exact isProper_of_mem_entries he

theorem HasEntry.kind_unique {a b : ItemKind} (ha : t.HasEntry path ⟨name, a⟩)
    (hb : t.HasEntry path ⟨name, b⟩) : a = b := by
  obtain ⟨place, hlists, ha⟩ := ha
  obtain ⟨place', hlists', hb⟩ := hb
  obtain rfl := hlists.unique hlists'
  exact congrArg Entry.kind (eq_of_mem_entries ha hb rfl)

/-! ## 1. A way down and the step at its end -/

theorem descent_nil : t.Descent skip root [] ↔ ∃ place, t.Lists root place :=
  ⟨Descent.listed, fun h => ⟨h, fun i hi => absurd hi (Nat.not_lt_zero i)⟩⟩

theorem descent_concat :
    t.Descent skip root (names ++ [name]) ↔
      t.Descent skip root names ∧ t.StepDown skip root names name := by
  have htake : ∀ i ≤ names.length, (names ++ [name]).take i = names.take i := fun i hi =>
    List.take_append_of_le_length hi
  constructor
  · rintro ⟨hroot, hdown⟩
    refine ⟨⟨hroot, fun i hi => ?_⟩, ?_⟩
    · have hstep := hdown i (by rw [List.length_append]; omega)
      rwa [htake i (Nat.le_of_lt hi), List.getElem_append_left hi] at hstep
    · have hstep := hdown names.length (by simp)
      rwa [htake _ (Nat.le_refl _), List.take_length, List.getElem_concat_length rfl] at hstep
  · rintro ⟨⟨hroot, hdown⟩, hlast⟩
    refine ⟨hroot, fun i hi => ?_⟩
    rw [List.length_append, List.length_singleton] at hi
    rcases Nat.lt_or_eq_of_le (Nat.le_of_lt_succ hi) with hlt | rfl
    · rw [htake i (Nat.le_of_lt hlt), List.getElem_append_left hlt]
      exact hdown i hlt
    · rw [htake _ (Nat.le_refl _), List.take_length, List.getElem_concat_length rfl]
      exact hlast

theorem Descent.names_proper (h : t.Descent skip root names) :
    ∀ n ∈ names, n.isProper = true := by
  intro n hn
  obtain ⟨i, hi, rfl⟩ := List.mem_iff_getElem.mp hn
  obtain ⟨kind, hentry⟩ := (h.down i hi).named
  exact hentry.isProper

theorem Descent.end_listed (h : t.Descent skip root names) :
    ∃ place, t.Lists (root.through names) place := by
  induction names using List.reverseRecOn with
  | nil => exact h.listed
  | append_singleton names name _ => exact (descent_concat.mp h).2.listed

theorem Descent.concat_proper {e : Entry} (h : t.Descent skip root names)
    (hentry : t.HasEntry (root.through names) e) :
    ∀ n ∈ names ++ [e.name], n.isProper = true := by
  intro n hn
  rcases List.mem_append.mp hn with hn | hn
  · exact h.names_proper n hn
  · rw [List.mem_singleton.mp hn]
    exact hentry.isProper

/-! ## 2. The walk goes down these ways -/

/-- **A spot reached through some names.** The ancestors are the directories on the way, and once
the spot's own directory turns out to be listed, the names are a way down. -/
structure Trail (t : FileTree) (skip : Path → Bool) (root : Path) (s : Spot) (names : List Name) :
    Prop where
  path_eq : s.path = root.through names
  length_above : s.above.length = names.length
  mem_above : ∀ a, a ∈ s.above ↔
    ∃ j < names.length, a.path = root.through (names.take j) ∧ t.Lists a.path a.place
  descent : (∃ place, t.Lists s.path place) → t.Descent skip root names

theorem trail_root : t.Trail skip root ⟨[], root⟩ [] :=
  ⟨rfl, rfl, fun a => by simp, fun h => descent_nil.mpr h⟩

/-- An entry of the spot's directory is at the end of a way down. -/
theorem Trail.entry {s : Spot} {e : Entry} (h : t.Trail skip root s names)
    (hlists : t.Lists s.path place) (hentry : e ∈ t.entries place) :
    s.path.join e.name = root.through (names ++ [e.name]) ∧ t.Descent skip root names ∧
      t.HasEntry (root.through names) e := by
  refine ⟨?_, h.descent ⟨place, hlists⟩, place, h.path_eq ▸ hlists, hentry⟩
  rw [Path.through_concat, h.path_eq]

theorem Trail.mem_above_cons {s : Spot} (h : t.Trail skip root s names)
    (hlists : t.Lists s.path place) (a : Ancestor) :
    a ∈ (⟨s.path, place⟩ :: s.above : List Ancestor) ↔
      ∃ j ≤ names.length, a.path = root.through (names.take j) ∧ t.Lists a.path a.place := by
  rw [List.mem_cons, h.mem_above]
  constructor
  · rintro (rfl | ⟨j, hj, ha⟩)
    · exact ⟨names.length, Nat.le_refl _, by rw [List.take_length, h.path_eq], hlists⟩
    · exact ⟨j, Nat.le_of_lt hj, ha⟩
  · rintro ⟨j, hj, hpath, ha⟩
    rcases Nat.lt_or_eq_of_le hj with hlt | rfl
    · exact Or.inr ⟨j, hlt, hpath, ha⟩
    · rw [List.take_length, ← h.path_eq] at hpath
      obtain ⟨apath, aplace⟩ := a
      simp only at hpath ha
      subst hpath
      exact Or.inl (by rw [hlists.unique ha])

/-- **A step of the walk is a step of the way down.** -/
theorem Trail.into {above : List Ancestor} {e : Entry} (h : t.Trail skip root ⟨above, path⟩ names)
    (hlists : t.Lists path place) (hentry : e ∈ t.entries place)
    (hopens : t.Opens (⟨path, place⟩ :: above) (path.join e.name) e.kind)
    (hskip : skip (path.join e.name) = false) :
    t.Trail skip root ⟨⟨path, place⟩ :: above, path.join e.name⟩ (names ++ [e.name]) := by
  have hpath : path = root.through names := h.path_eq
  have hpath' : path.join e.name = root.through (names ++ [e.name]) := by
    rw [Path.through_concat, hpath]
  refine ⟨hpath', by simpa using h.length_above, fun a => ?_, fun ⟨place', hlists'⟩ => ?_⟩
  · rw [h.mem_above_cons hlists a]
    constructor
    · rintro ⟨j, hj, ha⟩
      refine ⟨j, by simp; omega, ?_⟩
      rwa [List.take_append_of_le_length hj]
    · rintro ⟨j, hj, ha⟩
      have hj' : j ≤ names.length := by simp at hj; omega
      rw [List.take_append_of_le_length hj'] at ha
      exact ⟨j, hj', ha⟩
  · refine descent_concat.mpr ⟨h.descent ⟨place, hlists⟩, ⟨e.kind, place, hpath ▸ hlists, hentry⟩,
      ⟨place', hpath' ▸ hlists'⟩, hpath' ▸ hskip, fun hlink j hj hsame => ?_⟩
    -- The walk compared the link's target with its ancestors, which are the directories on the way.
    have hkind : e.kind = .link :=
      HasEntry.kind_unique ⟨place, hpath ▸ hlists, hentry⟩ hlink
    rw [hkind] at hopens
    obtain ⟨target, htarget, hnew⟩ := hopens
    obtain ⟨place'', hthere, habove⟩ := hsame
    rw [← hpath'] at hthere
    obtain rfl := htarget.unique hthere
    refine hnew ⟨root.through (names.take j), target⟩ ?_ rfl
    exact (h.mem_above_cons hlists _).mpr ⟨j, hj, rfl, habove⟩

theorem Enters.trail {s : Spot} (h : t.Enters skip root s) :
    ∃ names, t.Trail skip root s names := by
  obtain ⟨_, _, hbelow⟩ := h
  induction hbelow with
  | refl => exact ⟨[], trail_root⟩
  | tail _ hstep ih =>
    obtain ⟨names, htrail⟩ := ih
    cases hstep with
    | into hlists hentry hopens hskip => exact ⟨_, htrail.into hlists hentry hopens hskip⟩

/-- **A spot other than the root is an entry** of a directory that a way down leads to. -/
theorem Enters.path_cases {s : Spot} (h : t.Enters skip root s) :
    s.path = root ∨ ∃ names e, s.path = root.through (names ++ [e.name]) ∧
      t.Descent skip root names ∧ t.HasEntry (root.through names) e := by
  rcases h.below.cases_tail with rfl | ⟨s', hbelow, hdeeper⟩
  · exact Or.inl rfl
  · obtain ⟨names, htrail⟩ := Enters.trail ⟨h.opens, h.unskipped, hbelow⟩
    cases hdeeper with
    | @into above path place e hlists hentry _ _ =>
      exact Or.inr ⟨names, e, htrail.entry hlists hentry⟩

theorem enters_root (hskip : skip root = false) (h : t.Lists root place) :
    t.Enters skip root ⟨[], root⟩ := by
  obtain ⟨permissions, _, hstatus⟩ := h.status
  obtain ⟨kept, hkept, hend⟩ := linkStatus_of_status hstatus
  refine ⟨⟨kept, hkept, ?_⟩, hskip, .refl⟩
  rcases hend with rfl | hlink
  · exact trivial
  · rw [hlink]
    exact ⟨place, h, fun a ha => absurd ha List.not_mem_nil⟩

/-- **The walk gets down every way down.** -/
theorem Descent.enters (hskip : skip root = false) (h : t.Descent skip root names) :
    ∃ s, t.Enters skip root s ∧ t.Trail skip root s names := by
  induction names using List.reverseRecOn with
  | nil =>
    obtain ⟨place, hlists⟩ := h.listed
    exact ⟨⟨[], root⟩, enters_root hskip hlists, trail_root⟩
  | append_singleton names name ih =>
    obtain ⟨hbefore, hstep⟩ := descent_concat.mp h
    obtain ⟨⟨above, path⟩, henters, htrail⟩ := ih hbefore
    obtain ⟨kind, place, hlists, hentry⟩ := hstep.named
    obtain ⟨place', hlists'⟩ := hstep.listed
    have hpath : path = root.through names := htrail.path_eq
    have hpath' : path.join name = root.through (names ++ [name]) := by
      rw [Path.through_concat, hpath]
    rw [← hpath] at hlists
    rw [← hpath'] at hlists'
    have hopens : t.Opens (⟨path, place⟩ :: above) (path.join name) kind := by
      cases kind with
      | file => exact hlists.not_file hentry hlists'
      | directory => exact trivial
      | link =>
        refine ⟨place', hlists', fun a ha heq => ?_⟩
        obtain ⟨j, hj, hapath, halists⟩ := (htrail.mem_above_cons hlists a).mp ha
        refine hstep.unlooped ⟨place, hpath ▸ hlists, hentry⟩ j hj ⟨place', hpath' ▸ hlists', ?_⟩
        rwa [hapath, heq] at halists
    have hskip' : skip (path.join name) = false := hpath' ▸ hstep.unskipped
    exact ⟨_, ⟨henters.opens, hskip, henters.below.tail (.into hlists hentry hopens hskip')⟩,
      htrail.into hlists hentry hopens hskip'⟩

end FileTree

end LineTally
