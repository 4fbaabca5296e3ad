import LineTally.FileTree.Basic

/-!
# What a listing says

A tree keeps its items as a list, and a directory's listing is cut out of that list and sorted by
insertion. Everything later needs only three facts about it, and this file is those three:

* `mem_entries` — a listing has an entry **exactly** when there is an item directly in the
  directory, and the entry's kind is the item's;
* `entries_sorted` — the names of a listing ascend strictly, so no name is in it twice;
* `isProper_of_mem_entries` — the names are such as a path can be put together from.

The second is where `FileTree.distinct` is spent, the third where `FileTree.proper` is.
-/

set_option autoImplicit false

namespace LineTally

/-! ## Insertion into a listing -/

namespace Entry

theorem mem_putSorted {e x : Entry} {l : List Entry} :
    x ∈ e.putSorted l ↔ x = e ∨ x ∈ l := by
  induction l with
  | nil => simp [putSorted]
  | cons first rest ih =>
    rw [putSorted]
    split
    · exact List.mem_cons
    · rw [List.mem_cons, ih, List.mem_cons]
      exact or_left_comm

theorem mem_sorted {x : Entry} {l : List Entry} : x ∈ l.foldr putSorted [] ↔ x ∈ l := by
  induction l with
  | nil => exact Iff.rfl
  | cons e rest ih => rw [List.foldr_cons, mem_putSorted, ih, List.mem_cons]

theorem putSorted_ascending {e : Entry} {l : List Entry} (hnew : ∀ x ∈ l, x.name ≠ e.name)
    (h : l.Pairwise fun a b => a.name < b.name) :
    (e.putSorted l).Pairwise fun a b => a.name < b.name := by
  induction l with
  | nil => exact List.pairwise_singleton _ e
  | cons first rest ih =>
    obtain ⟨hfirst, hrest⟩ := List.pairwise_cons.mp h
    rw [putSorted]
    split
    · next hle =>
      have hlt : e.name < first.name := by
        refine Std.lt_of_le_of_ne hle fun heq => ?_
        exact hnew first List.mem_cons_self heq.symm
      refine List.pairwise_cons.mpr ⟨fun x hx => ?_, h⟩
      rcases List.mem_cons.mp hx with rfl | hx
      · exact hlt
      · exact List.lt_trans hlt (hfirst x hx)
    · next hle =>
      refine List.pairwise_cons.mpr ⟨fun x hx => ?_, ?_⟩
      · rcases mem_putSorted.mp hx with rfl | hx
        · exact List.not_le.mp hle
        · exact hfirst x hx
      · exact ih (fun x hx => hnew x (List.mem_cons_of_mem _ hx)) hrest

theorem sorted_ascending {l : List Entry} (h : (l.map Entry.name).Nodup) :
    (l.foldr putSorted []).Pairwise fun a b => a.name < b.name := by
  induction l with
  | nil => exact List.Pairwise.nil
  | cons e rest ih =>
    obtain ⟨hnew, hrest⟩ := List.nodup_cons.mp h
    refine putSorted_ascending (fun x hx heq => hnew ?_) (ih hrest)
    exact heq ▸ List.mem_map_of_mem (mem_sorted.mp hx)

end Entry

/-! ## Items and entries -/

namespace FileTree

/-- A place holds what the list of items has for it, because the list has it only once. -/
theorem item?_eq_some_iff {t : FileTree} {place : Place} {item : Item} :
    t.item? place = some item ↔ (place, item) ∈ t.items := by
  obtain ⟨items, start, hnodup, hproper⟩ := t
  show items.lookup place = some item ↔ (place, item) ∈ items
  clear hproper
  induction items with
  | nil => simp
  | cons p rest ih =>
    obtain ⟨place', item'⟩ := p
    obtain ⟨hnew, hrest⟩ := List.nodup_cons.mp hnodup
    rw [List.lookup_cons]
    by_cases h : place = place'
    · subst h
      have hother : (place, item) ∉ rest := fun hmem =>
        hnew (List.mem_map.mpr ⟨(place, item), hmem, rfl⟩)
      simp [hother, eq_comm]
    · rw [beq_false_of_ne h]
      simpa [h] using ih hrest

/-- Items that are changed where they are. -/
theorem item?_mapItems {t : FileTree} {f : Place → Item → Item} {place : Place} :
    (t.mapItems f).item? place = (t.item? place).map (f place) := by
  ext x
  rw [item?_eq_some_iff, Option.map_eq_some_iff, mapItems]
  simp only [List.mem_map, Prod.mk.injEq, Prod.exists, item?_eq_some_iff]
  constructor
  · rintro ⟨place', item, hmem, rfl, rfl⟩
    exact ⟨item, hmem, rfl⟩
  · rintro ⟨item, hmem, rfl⟩
    exact ⟨place, item, hmem, rfl, rfl⟩

theorem entryIn_eq_some_iff {place : Place} {p : Place × Item} {e : Entry} :
    entryIn place p = some e ↔ p.1 = e.name :: place ∧ p.2.kind = e.kind := by
  obtain ⟨place', item⟩ := p
  cases place' with
  | nil => simp [entryIn]
  | cons name parent =>
    rw [entryIn]
    split
    · next h =>
      subst h
      constructor
      · intro heq
        cases heq
        exact ⟨rfl, rfl⟩
      · rintro ⟨hname, hkind⟩
        cases hname
        exact congrArg some (by rw [hkind])
    · next h =>
      refine ⟨fun heq => absurd heq (by simp), fun ⟨hname, _⟩ => absurd ?_ h⟩
      exact (List.cons.inj hname).2

/-- **A listing has an entry exactly when the directory has the item.** -/
theorem mem_entries {t : FileTree} {place : Place} {e : Entry} :
    e ∈ t.entries place ↔ ∃ item, t.item? (e.name :: place) = some item ∧ item.kind = e.kind := by
  unfold entries
  rw [Entry.mem_sorted, List.mem_filterMap]
  constructor
  · rintro ⟨⟨place', item⟩, hmem, hentry⟩
    obtain ⟨hplace, hkind⟩ := entryIn_eq_some_iff.mp hentry
    exact ⟨item, item?_eq_some_iff.mpr (hplace ▸ hmem), hkind⟩
  · rintro ⟨item, hitem, hkind⟩
    exact ⟨(e.name :: place, item), item?_eq_some_iff.mp hitem,
      entryIn_eq_some_iff.mpr ⟨rfl, hkind⟩⟩

theorem nodup_entryNames (t : FileTree) (place : Place) :
    ((t.items.filterMap (entryIn place)).map Entry.name).Nodup := by
  obtain ⟨items, start, hnodup, hproper⟩ := t
  show ((items.filterMap (entryIn place)).map Entry.name).Nodup
  clear hproper
  induction items with
  | nil => exact List.nodup_nil
  | cons p rest ih =>
    obtain ⟨hnew, hrest⟩ := List.nodup_cons.mp hnodup
    cases hp : entryIn place p with
    | none =>
      rw [List.filterMap_cons_none hp]
      exact ih hrest
    | some e =>
      rw [List.filterMap_cons_some hp, List.map_cons, List.nodup_cons]
      refine ⟨fun hmem => hnew ?_, ih hrest⟩
      obtain ⟨e', he', hname⟩ := List.mem_map.mp hmem
      obtain ⟨q, hq, hentry⟩ := List.mem_filterMap.mp he'
      have hplace : q.1 = p.1 := by
        rw [(entryIn_eq_some_iff.mp hentry).1, (entryIn_eq_some_iff.mp hp).1, hname]
      exact hplace ▸ List.mem_map_of_mem (f := Prod.fst) hq

/-- **The names of a listing ascend strictly**, byte by byte. -/
theorem entries_sorted (t : FileTree) (place : Place) :
    (t.entries place).Pairwise fun a b => a.name < b.name :=
  Entry.sorted_ascending (t.nodup_entryNames place)

theorem eq_of_mem_entries {t : FileTree} {place : Place} {a b : Entry}
    (ha : a ∈ t.entries place) (hb : b ∈ t.entries place) (hname : a.name = b.name) : a = b := by
  obtain ⟨itemA, hitemA, hkindA⟩ := mem_entries.mp ha
  obtain ⟨itemB, hitemB, hkindB⟩ := mem_entries.mp hb
  rw [hname, hitemB] at hitemA
  cases hitemA
  obtain ⟨nameA, kindA⟩ := a
  obtain ⟨nameB, kindB⟩ := b
  cases hname
  exact congrArg (Entry.mk _) (hkindA.symm.trans hkindB)

theorem isProper_of_item {t : FileTree} {name : Name} {place : Place} {item : Item}
    (h : t.item? (name :: place) = some item) : name.isProper = true := by
  have hplace : Place.isProper (name :: place) = true := t.proper _ (item?_eq_some_iff.mp h)
  unfold Place.isProper at hplace
  rw [List.all_cons, Bool.and_eq_true] at hplace
  exact hplace.1

theorem isProper_of_mem_entries {t : FileTree} {place : Place} {e : Entry}
    (h : e ∈ t.entries place) : e.name.isProper = true := by
  obtain ⟨item, hitem, _⟩ := mem_entries.mp h
  exact isProper_of_item hitem

end FileTree

end LineTally
