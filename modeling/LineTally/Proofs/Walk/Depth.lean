import LineTally.Proofs.Walk.Descent
import Mathlib.Data.List.Nodup
import Mathlib.Data.List.Perm.Subperm

/-!
# How deep a walk gets

The same directory may well be on one way twice: a real directory is never compared with the ones
above it, so a root that holds a link to its own parent is met again inside itself. What a way down
cannot repeat is **the directory that a link leads to** (`Descent.cons_crossed_nodup`). Between two
links it only goes down real directories, each one place further from the top.

So the measure is not "directories not met yet" but a lexicographic one, and its two parts add up to
`Descent.length_le`: with `c` links crossed, a way down that ends at `place` has at most
`c * (height + 1) + place.length` names. No spot is as deep as `walkDepth`
(`Enters.length_above_lt`), which is why the budget of the recursion never runs out.

What is handed out is an entry of one of these directories, so the same holds of the path to it
(`boundedWay_of_handed_out`). The names on that path are fixed by it (`BoundedWay.unique`).
-/

set_option autoImplicit false

namespace LineTally

namespace FileTree

/-- The directory that an entry of a listed directory leads to, if it is a link to one that can be
listed. -/
def linkedDirectory? (t : FileTree) (path : Path) (name : Name) : Option Place :=
  match t.list path, t.list (path.join name) with
  | .ok (_, entries), .ok (place, _) => if ⟨name, .link⟩ ∈ entries then some place else none
  | _, _ => none

/-- **The directories that the links on a way lead to**, in order. -/
def crossed (t : FileTree) : Path → List Name → List Place
  | _, [] => []
  | path, name :: rest => (t.linkedDirectory? path name).toList ++ t.crossed (path.join name) rest

variable {t : FileTree} {skip : Path → Bool} {root path : Path} {names : List Name} {name : Name}
  {place : Place}

theorem linkedDirectory?_eq_some_iff :
    t.linkedDirectory? path name = some place ↔
      t.HasEntry path ⟨name, .link⟩ ∧ t.Lists (path.join name) place := by
  unfold linkedDirectory?
  rcases lists_or_error t path with ⟨here, hhere⟩ | ⟨cause, herror⟩
  · rcases lists_or_error t (path.join name) with ⟨there, hthere⟩ | ⟨cause, herror⟩
    · rw [hhere, hthere]
      dsimp only
      split
      · next hmem =>
        rw [Option.some.injEq]
        constructor
        · rintro rfl
          exact ⟨⟨here, hhere, hmem⟩, hthere⟩
        · rintro ⟨_, hlists⟩
          exact hthere.unique hlists
      · next hmem =>
        refine ⟨fun h => absurd h (by simp), fun ⟨⟨place', hlists, hentry⟩, _⟩ => ?_⟩
        rw [← hhere.unique hlists] at hentry
        exact absurd hentry hmem
    · rw [hhere, herror]
      refine ⟨fun h => absurd h (by simp), fun ⟨_, hlists⟩ => ?_⟩
      exact absurd hlists (not_lists_of_error herror)
  · rw [herror]
    refine ⟨fun h => absurd h (by simp), fun ⟨⟨place', hlists, _⟩, _⟩ => ?_⟩
    exact absurd hlists (not_lists_of_error herror)

theorem crossed_concat (t : FileTree) (path : Path) (names : List Name) (name : Name) :
    t.crossed path (names ++ [name]) =
      t.crossed path names ++ (t.linkedDirectory? (path.through names) name).toList := by
  induction names generalizing path with
  | nil => simp [crossed]
  | cons first rest ih =>
    rw [List.cons_append, crossed, crossed, ih, List.append_assoc]
    rfl

/-! ## 1. No link leads where another one led -/

/-- What a link on the way leads to is one of the directories on the way. -/
theorem crossed_on_way {c : Place} (h : c ∈ t.crossed root names) :
    ∃ j ≤ names.length, t.Lists (root.through (names.take j)) c := by
  induction names using List.reverseRecOn with
  | nil => exact absurd h List.not_mem_nil
  | append_singleton names name ih =>
    rw [crossed_concat, List.mem_append, Option.mem_toList] at h
    rcases h with h | h
    · obtain ⟨j, hj, hlists⟩ := ih h
      refine ⟨j, by rw [List.length_append]; omega, ?_⟩
      rwa [List.take_append_of_le_length hj]
    · obtain ⟨_, hlists⟩ := linkedDirectory?_eq_some_iff.mp h
      refine ⟨names.length + 1, by simp, ?_⟩
      rw [List.take_of_length_le (by simp), Path.through_concat]
      exact hlists

/-- The directory of the root is on the way too. -/
theorem cons_crossed_on_way {c : Place} (hroot : t.Lists root place)
    (h : c ∈ place :: t.crossed root names) :
    ∃ j ≤ names.length, t.Lists (root.through (names.take j)) c := by
  rcases List.mem_cons.mp h with rfl | h
  · exact ⟨0, Nat.zero_le _, hroot⟩
  · exact crossed_on_way h

theorem cons_crossed_concat_nodup (hroot : t.Lists root place)
    (h : (place :: t.crossed root names).Nodup)
    (hloop : t.HasEntry (root.through names) ⟨name, .link⟩ → ∀ j ≤ names.length,
      ¬ t.SameDirectory (root.through (names ++ [name])) (root.through (names.take j))) :
    (place :: t.crossed root (names ++ [name])).Nodup := by
  rw [crossed_concat]
  cases hlink : t.linkedDirectory? (root.through names) name with
  | none => simpa using h
  | some c =>
    obtain ⟨hentry, hlists⟩ := linkedDirectory?_eq_some_iff.mp hlink
    rw [← Path.through_concat] at hlists
    -- What an earlier link leads to is on the way, and this link leads to nothing on the way.
    have hnew : c ∉ place :: t.crossed root names := by
      intro hmem
      obtain ⟨j, hj, hbefore⟩ := cons_crossed_on_way hroot hmem
      exact hloop hentry j hj ⟨c, hlists, hbefore⟩
    rw [Option.toList_some, ← List.cons_append, List.nodup_append]
    refine ⟨h, List.nodup_singleton c, fun a ha b hb => ?_⟩
    rw [List.mem_singleton.mp hb]
    exact fun heq => hnew (heq ▸ ha)

/-- **The links on a way down lead to pairwise different directories**, and none of them to that of
the root. -/
theorem Descent.cons_crossed_nodup (h : t.Descent skip root names) (hroot : t.Lists root place) :
    (place :: t.crossed root names).Nodup := by
  induction names using List.reverseRecOn with
  | nil => exact List.nodup_singleton place
  | append_singleton names name ih =>
    obtain ⟨hbefore, hstep⟩ := descent_concat.mp h
    exact cons_crossed_concat_nodup hroot (ih hbefore) hstep.unlooped

/-! ## 2. Counting -/

theorem length_le_foldl_max (l : List (Place × Item)) (k : Nat) :
    k ≤ l.foldl (fun h (place, _) => max h place.length) k ∧
      ∀ p ∈ l, p.1.length ≤ l.foldl (fun h (place, _) => max h place.length) k := by
  induction l generalizing k with
  | nil => exact ⟨Nat.le_refl k, fun p hp => absurd hp List.not_mem_nil⟩
  | cons q rest ih =>
    obtain ⟨hstart, hrest⟩ := ih (max k q.1.length)
    refine ⟨Nat.le_trans (Nat.le_max_left _ _) hstart, fun p hp => ?_⟩
    rcases List.mem_cons.mp hp with rfl | hp
    · exact Nat.le_trans (Nat.le_max_right _ _) hstart
    · exact hrest p hp

theorem length_le_height {item : Item} (h : t.item? place = some item) :
    place.length ≤ t.height :=
  (length_le_foldl_max t.items 0).2 (place, item) (item?_eq_some_iff.mp h)

theorem length_le_directoryCount {places : List Place} (hnodup : places.Nodup)
    (h : ∀ c ∈ places, ∃ path, t.Lists path c) : places.length ≤ t.directoryCount := by
  have hsub : places ⊆ ((t.items.filter fun p => p.2.kind = .directory).map Prod.fst) := by
    intro c hc
    obtain ⟨path, hlists⟩ := h c hc
    obtain ⟨permissions, _, hitem⟩ := hlists.item
    refine List.mem_map.mpr ⟨(c, .directory permissions), List.mem_filter.mpr ?_, rfl⟩
    exact ⟨item?_eq_some_iff.mp hitem, rfl⟩
  have hle := (List.subperm_of_subset hnodup hsub).length_le
  rw [List.length_map, ← List.countP_eq_length_filter] at hle
  exact hle

/-- The directory of the root is one that no link leads to. -/
theorem length_crossed_lt (hroot : t.Lists root place)
    (hnodup : (place :: t.crossed root names).Nodup) :
    (t.crossed root names).length < t.directoryCount := by
  refine length_le_directoryCount hnodup fun c hc => ?_
  obtain ⟨j, _, hlists⟩ := cons_crossed_on_way hroot hc
  exact ⟨_, hlists⟩

/-- **How long a way down is**: a link pays for a whole stretch of real directories, and a real
directory is one place further from the top than the one that holds it. -/
theorem Descent.length_le (h : t.Descent skip root names)
    (hlists : t.Lists (root.through names) place) :
    names.length ≤ (t.crossed root names).length * (t.height + 1) + place.length := by
  induction names using List.reverseRecOn generalizing place with
  | nil => exact Nat.zero_le _
  | append_singleton names name ih =>
    obtain ⟨hbefore, hstep⟩ := descent_concat.mp h
    obtain ⟨kind, before, hhere, hentry⟩ := hstep.named
    have hle := ih hbefore hhere
    rw [Path.through_concat] at hlists
    rw [crossed_concat, List.length_append, List.length_append, List.length_singleton]
    cases kind with
    | file => exact absurd hlists (hhere.not_file hentry)
    | directory =>
      obtain rfl := hhere.directory_place hentry hlists
      have hnone : t.linkedDirectory? (root.through names) name = none := by
        rw [Option.eq_none_iff_forall_ne_some]
        intro c hc
        obtain ⟨hlink, _⟩ := linkedDirectory?_eq_some_iff.mp hc
        exact absurd (HasEntry.kind_unique ⟨before, hhere, hentry⟩ hlink) (by decide)
      rw [hnone, Option.toList_none, List.length_nil, Nat.add_zero (t.crossed root names).length,
        List.length_cons]
      omega
    | link =>
      -- A link may lead to any depth; it has a whole height to pay for that.
      have hsome : t.linkedDirectory? (root.through names) name = some place :=
        linkedDirectory?_eq_some_iff.mpr ⟨⟨before, hhere, hentry⟩, hlists⟩
      obtain ⟨permissions, _, hitem⟩ := hhere.item
      have hheight := length_le_height hitem
      rw [hsome, Option.toList_some, List.length_singleton, Nat.succ_mul]
      omega

theorem Descent.length_le_of_tree (h : t.Descent skip root names)
    (hlists : t.Lists (root.through names) place) :
    names.length ≤ t.directoryCount * (t.height + 1) + place.length := by
  obtain ⟨top, htop⟩ := h.listed
  have hcount := length_crossed_lt htop (h.cons_crossed_nodup htop)
  have hmul := Nat.mul_le_mul_right (t.height + 1) (Nat.le_of_lt hcount)
  exact Nat.le_trans (h.length_le hlists) (Nat.add_le_add_right hmul _)

theorem Descent.length_lt (h : t.Descent skip root names) : names.length < t.walkDepth := by
  obtain ⟨place, hlists⟩ := h.end_listed
  obtain ⟨permissions, _, hitem⟩ := hlists.item
  have hheight := length_le_height hitem
  have hle := h.length_le_of_tree hlists
  unfold walkDepth
  rw [Nat.succ_mul]
  omega

/-- **No spot is as deep as the budget of the recursion.** -/
theorem Enters.length_above_lt {s : Spot} (h : t.Enters skip root s) :
    s.above.length < t.walkDepth := by
  rcases h.below.cases_tail with rfl | ⟨s', hbelow, hdeeper⟩
  · exact Nat.mul_pos (Nat.succ_pos _) (Nat.succ_pos _)
  · obtain ⟨names, htrail⟩ := Enters.trail ⟨h.opens, h.unskipped, hbelow⟩
    cases hdeeper with
    | @into above path place e hlists hentry hopens hskip =>
      have htrail' := htrail.into hlists hentry hopens hskip
      rw [htrail'.length_above]
      cases hkind : e.kind with
      | file =>
        rw [hkind] at hopens
        exact hopens.elim
      | directory =>
        -- It may turn out not to be listable, but it is in the tree, and so not below its height.
        obtain ⟨item, hitem, _⟩ := mem_entries.mp hentry
        have hheight := length_le_height hitem
        have hpath : path = root.through names := htrail.path_eq
        have hle := (htrail.descent ⟨place, hlists⟩).length_le_of_tree (hpath ▸ hlists)
        rw [List.length_cons] at hheight
        rw [List.length_append, List.length_singleton, walkDepth, Nat.succ_mul]
        omega
      | link =>
        rw [hkind] at hopens
        obtain ⟨place', hlists', _⟩ := hopens
        exact (htrail'.descent ⟨place', hlists'⟩).length_lt

/-! ## 3. The paths that are handed out -/

/-- **How something that a walk hands out comes down from the root**, the names being those on its
way, none for the root itself. Each name is that of an entry of the directory before it, and all but
the last are a way down. The links to directories lead to pairwise different ones, so there are no
more of them than directories, and none of them leads to the directory of the root, to which a link
may have led before. Every other step is one into a real directory; and so the way is short. -/
structure BoundedWay (t : FileTree) (skip : Path → Bool) (root : Path) (names : List Name) :
    Prop where
  entries : ∀ i (h : i < names.length),
    ∃ kind, t.HasEntry (root.through (names.take i)) ⟨names[i], kind⟩
  descent : names ≠ [] → t.Descent skip root names.dropLast
  distinct : (t.crossed root names).Nodup
  few : (t.crossed root names).length ≤ t.directoryCount
  apart : ∀ place, t.Lists root place →
    place ∉ t.crossed root names ∧ (t.crossed root names).length < t.directoryCount
  real : ∀ i (h : i < names.length) place,
    t.linkedDirectory? (root.through (names.take i)) names[i] = none →
    t.Lists (root.through (names.take (i + 1))) place →
      ∃ before, t.Lists (root.through (names.take i)) before ∧ place = names[i] :: before
  short : names.length ≤ (t.directoryCount + 1) * (t.height + 1)

theorem HasEntry.real_step {kind : ItemKind} (h : t.HasEntry path ⟨name, kind⟩)
    (hnone : t.linkedDirectory? path name = none) (hlists : t.Lists (path.join name) place) :
    ∃ before, t.Lists path before ∧ place = name :: before := by
  obtain ⟨before, hbefore, hentry⟩ := h
  refine ⟨before, hbefore, ?_⟩
  cases kind with
  | file => exact absurd hlists (hbefore.not_file hentry)
  | directory => exact hbefore.directory_place hentry hlists
  | link =>
    have hsome : t.linkedDirectory? path name = some place :=
      linkedDirectory?_eq_some_iff.mpr ⟨⟨before, hbefore, hentry⟩, hlists⟩
    rw [hnone] at hsome
    cases hsome

theorem boundedWay_nil : t.BoundedWay skip root [] where
  entries i hi := absurd hi (Nat.not_lt_zero i)
  descent hnames := absurd rfl hnames
  distinct := List.nodup_nil
  few := Nat.zero_le _
  apart place hroot := ⟨List.not_mem_nil, length_crossed_lt hroot (List.nodup_singleton place)⟩
  real i hi := absurd hi (Nat.not_lt_zero i)
  short := Nat.zero_le _

theorem Descent.entries_concat {kind : ItemKind} (h : t.Descent skip root names)
    (hentry : t.HasEntry (root.through names) ⟨name, kind⟩) {i : Nat}
    (hi : i < (names ++ [name]).length) :
    ∃ kind, t.HasEntry (root.through ((names ++ [name]).take i)) ⟨(names ++ [name])[i], kind⟩ := by
  rw [List.length_append, List.length_singleton] at hi
  rcases Nat.lt_or_eq_of_le (Nat.le_of_lt_succ hi) with hlt | rfl
  · rw [List.take_append_of_le_length (Nat.le_of_lt hlt), List.getElem_append_left hlt]
    exact (h.down i hlt).named
  · rw [List.take_append_of_le_length (Nat.le_refl _), List.take_length,
      List.getElem_concat_length rfl]
    exact ⟨kind, hentry⟩

/-- An entry at the end of a way down, if it is no link back. -/
theorem Descent.boundedWay_concat {kind : ItemKind} (h : t.Descent skip root names)
    (hentry : t.HasEntry (root.through names) ⟨name, kind⟩)
    (hloop : t.HasEntry (root.through names) ⟨name, .link⟩ → ∀ j ≤ names.length,
      ¬ t.SameDirectory (root.through (names ++ [name])) (root.through (names.take j))) :
    t.BoundedWay skip root (names ++ [name]) := by
  have hnodup : ∀ place, t.Lists root place →
      (place :: t.crossed root (names ++ [name])).Nodup := fun place hroot =>
    cons_crossed_concat_nodup hroot (h.cons_crossed_nodup hroot) hloop
  obtain ⟨top, htop⟩ := h.listed
  constructor
  case entries =>
    intro i hi
    exact h.entries_concat hentry hi
  case descent =>
    intro _
    rwa [List.dropLast_concat]
  case distinct => exact (List.nodup_cons.mp (hnodup top htop)).2
  case few => exact Nat.le_of_lt (length_crossed_lt htop (hnodup top htop))
  case apart =>
    intro place hroot
    exact ⟨(List.nodup_cons.mp (hnodup place hroot)).1, length_crossed_lt hroot (hnodup place hroot)⟩
  case real =>
    intro i hi place hnone hlists
    obtain ⟨kind', hentry'⟩ := h.entries_concat hentry hi
    rw [List.take_succ_eq_append_getElem hi, Path.through_concat] at hlists
    exact hentry'.real_step hnone hlists
  case short =>
    have hlt := h.length_lt
    rw [List.length_append, List.length_singleton]
    exact hlt

/-- Every way down is such a way. -/
theorem Descent.boundedWay (h : t.Descent skip root names) : t.BoundedWay skip root names := by
  induction names using List.reverseRecOn with
  | nil => exact boundedWay_nil
  | append_singleton names name _ =>
    obtain ⟨hbefore, hstep⟩ := descent_concat.mp h
    obtain ⟨kind, hentry⟩ := hstep.named
    exact hbefore.boundedWay_concat hentry hstep.unlooped

/-- **There is only one such way** to a path: the names on it hold no slash. -/
theorem BoundedWay.unique {others : List Name} (h : t.BoundedWay skip root names)
    (h' : t.BoundedWay skip root others) (heq : root.through names = root.through others) :
    names = others := by
  have hproper : ∀ {ns : List Name}, t.BoundedWay skip root ns → ∀ n ∈ ns, n.isProper = true := by
    intro ns hway n hn
    obtain ⟨i, hi, rfl⟩ := List.mem_iff_getElem.mp hn
    obtain ⟨kind, hentry⟩ := hway.entries i hi
    exact hentry.isProper
  exact Path.through_injective (hproper h) (hproper h') heq

/-- **An entry that is handed out is at the end of such a way.** -/
theorem boundedWay_of_handed_out {budget : Nat} {isDirectory : Bool}
    (h : .entry path isDirectory ∈ t.walkWithin budget skip root) :
    ∃ names, path = root.through names ∧ t.BoundedWay skip root names := by
  rcases mem_walkWithin.mp h with hroot | ⟨⟨above, p⟩, henters, _, hv⟩
  · have hpath : path = root := by
      rcases mem_walkWithin_zero.mp hroot with ⟨cause, _, hobstacle⟩ | ⟨kept, _, hmet⟩
      · cases hobstacle
      · exact path_eq_of_met hmet.symm
    exact ⟨[], hpath, boundedWay_nil⟩
  · obtain ⟨names, htrail⟩ := henters.trail
    rcases lists_or_error t p with ⟨place, hlists⟩ | ⟨cause, herror⟩
    · obtain ⟨e, he, hmet⟩ := (mem_visitsInside_one hlists).mp hv
      obtain ⟨hpath, hdescent, hentry⟩ := htrail.entry hlists he
      refine ⟨names ++ [e.name], (path_eq_of_met hmet.symm).trans hpath,
        hdescent.boundedWay_concat hentry fun hlink j hj hsame => ?_⟩
      -- A link back would have been handed out as an obstacle.
      obtain ⟨place', hthere, habove⟩ := hsame
      rw [hentry.kind_unique hlink] at hmet
      rw [← hpath] at hthere
      refine opens_of_met hmet.symm hthere ⟨root.through (names.take j), place'⟩ ?_ rfl
      exact (htrail.mem_above_cons hlists _).mpr ⟨j, hj, rfl, habove⟩
    · rw [visitsInside_of_list_error herror] at hv
      exact absurd hv (by simp)

/-- **An obstacle is met at the root or at an entry** of a directory that a way down leads to. -/
theorem obstacle_of_handed_out {budget : Nat} {o : Obstacle}
    (h : .obstacle o ∈ t.walkWithin budget skip root) (hpath : o.path? = some path) :
    path = root ∨ ∃ names e, path = root.through (names ++ [e.name]) ∧
      t.Descent skip root names ∧ t.HasEntry (root.through names) e := by
  rcases mem_walkWithin.mp h with hroot | ⟨⟨above, p⟩, henters, _, hv⟩
  · left
    rcases mem_walkWithin_zero.mp hroot with ⟨cause, _, hobstacle⟩ | ⟨kept, _, hmet⟩
    · cases hobstacle
      cases hpath
      rfl
    · exact path_eq_of_met_obstacle hmet.symm hpath
  · rcases lists_or_error t p with ⟨place, hlists⟩ | ⟨cause, herror⟩
    · obtain ⟨e, he, hmet⟩ := (mem_visitsInside_one hlists).mp hv
      obtain ⟨names, htrail⟩ := henters.trail
      obtain ⟨hend, hdescent, hentry⟩ := htrail.entry hlists he
      have hmetPath := path_eq_of_met_obstacle hmet.symm hpath
      exact Or.inr ⟨names, e, hmetPath.trans hend, hdescent, hentry⟩
    · rw [visitsInside_of_list_error herror, List.mem_singleton] at hv
      cases hv
      cases hpath
      exact henters.path_cases

end FileTree

end LineTally
