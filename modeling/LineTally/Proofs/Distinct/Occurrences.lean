import LineTally.Proofs.Distinct.Firsts
import Mathlib.Data.List.Forall2

/-!
# Where the first with each key stand

`firstsBy` says which elements come first with their keys, and equal elements look alike in what is
left. By position there is no doubt: an element is first if it has a key that no element **before**
it has (`FirstAt`).

Some elements have no key: a candidate that cannot be read has no fingerprint, and who only asks for
a fingerprint brings none. They are passed over and still take up a position. So what has a key is
got from the elements by a partial function, and `forall₂_firstsBy` is about the list of what it
gives: the elements that `firstsBy` keeps of it are those at these positions, in order.
-/

set_option autoImplicit false

namespace LineTally

section FirstAt

variable {α β : Type}

/-- **The element at a position is the first with its key.** -/
def FirstAt (key? : α → Option β) (l : List α) (i : Nat) : Prop :=
  ∃ a k, l[i]? = some a ∧ key? a = some k ∧ ∀ j < i, ∀ b, l[j]? = some b → key? b ≠ some k

variable {key? : α → Option β} {l : List α} {a : α} {i : Nat}

theorem FirstAt.lt_length (h : FirstAt key? l i) : i < l.length := by
  obtain ⟨a, _, ha, _⟩ := h
  exact (List.getElem?_eq_some_iff.mp ha).1

/-- Later elements are not asked about. -/
theorem firstAt_append (h : i < l.length) (more : List α) :
    FirstAt key? (l ++ more) i ↔ FirstAt key? l i := by
  have hsame : ∀ j ≤ i, (l ++ more)[j]? = l[j]? := by
    intro j hj
    exact List.getElem?_append_left (Nat.lt_of_le_of_lt hj h)
  unfold FirstAt
  rw [hsame i (Nat.le_refl i)]
  constructor
  · rintro ⟨a, k, ha, hk, hother⟩
    refine ⟨a, k, ha, hk, ?_⟩
    intro j hj b hb
    exact hother j hj b (by rw [hsame j (Nat.le_of_lt hj), hb])
  · rintro ⟨a, k, ha, hk, hother⟩
    refine ⟨a, k, ha, hk, ?_⟩
    intro j hj b hb
    exact hother j hj b (by rw [← hsame j (Nat.le_of_lt hj), hb])

/-- The last element is first if it brings a key that is not yet there. -/
theorem firstAt_length_iff : FirstAt key? (l ++ [a]) l.length ↔
    ∃ k, key? a = some k ∧ k ∉ l.filterMap key? := by
  constructor
  · rintro ⟨a', k, ha, hk, hother⟩
    rw [List.getElem?_concat_length, Option.some.injEq] at ha
    subst ha
    refine ⟨k, hk, ?_⟩
    intro hold
    obtain ⟨b, hmem, hb⟩ := List.mem_filterMap.mp hold
    obtain ⟨j, hj, rfl⟩ := List.getElem_of_mem hmem
    have hget : (l ++ [a])[j]? = some l[j] := by
      rw [List.getElem?_append_left hj, List.getElem?_eq_getElem hj]
    exact hother j hj _ hget hb
  · rintro ⟨k, hk, hnew⟩
    refine ⟨a, k, List.getElem?_concat_length, hk, ?_⟩
    intro j hj b hb hkey
    rw [List.getElem?_append_left hj] at hb
    exact hnew (List.mem_filterMap.mpr ⟨b, List.mem_of_getElem? hb, hkey⟩)

end FirstAt

section Positions

variable {α β γ : Type} [DecidableEq β] {read? : α → Option γ} {key : γ → β}

/-- One element more is kept if it has a key that is not yet there. -/
theorem firstsBy_filterMap_concat (l : List α) (a : α) :
    firstsBy key ((l ++ [a]).filterMap read?) = firstsBy key (l.filterMap read?) ++
      (read? a).toList.filter fun c => key c ∉ l.filterMap fun b => (read? b).map key := by
  rw [List.filterMap_append, ← List.map_filterMap]
  cases hread : read? a with
  | none => simp [hread]
  | some c =>
    rw [List.filterMap_cons_some hread, List.filterMap_nil, firstsBy_concat]
    by_cases hold : key c ∈ (l.filterMap read?).map key
    · simp [hold]
    · simp [hold]

open Classical in
theorem forall₂_firstsBy (l : List α) :
    List.Forall₂ (fun c i => l[i]?.bind read? = some c) (firstsBy key (l.filterMap read?))
      ((List.range l.length).filter fun i => FirstAt (fun a => (read? a).map key) l i) := by
  induction l using List.reverseRecOn with
  | nil => exact List.Forall₂.nil
  | append_singleton l a ih =>
    -- The last element is asked about those before it, and none of these about the last.
    have hbefore : (List.range l.length).filter
          (fun i => FirstAt (fun a => (read? a).map key) (l ++ [a]) i) =
        (List.range l.length).filter fun i => FirstAt (fun a => (read? a).map key) l i := by
      refine List.filter_congr fun i hi => ?_
      rw [decide_eq_decide, firstAt_append (List.mem_range.mp hi)]
    rw [firstsBy_filterMap_concat, List.length_append, List.length_singleton, List.range_succ,
      List.filter_append, hbefore]
    apply List.rel_append
    · refine ih.imp fun c i hc => ?_
      obtain ⟨b, hb, _⟩ := Option.bind_eq_some_iff.mp hc
      rwa [List.getElem?_append_left (List.getElem?_eq_some_iff.mp hb).1]
    · by_cases hfirst : FirstAt (fun a => (read? a).map key) (l ++ [a]) l.length
      · obtain ⟨k, hkey, hnew⟩ := firstAt_length_iff.mp hfirst
        obtain ⟨c, hread, rfl⟩ := Option.map_eq_some_iff.mp hkey
        have hget : (l ++ [a])[l.length]?.bind read? = some c := by
          rw [List.getElem?_concat_length, Option.bind_some, hread]
        rw [hread, Option.toList_some, List.filter_singleton, List.filter_singleton,
          decide_eq_true hnew, decide_eq_true hfirst]
        exact List.Forall₂.cons hget List.Forall₂.nil
      · have hnone : (read? a).toList.filter
            (fun c => key c ∉ l.filterMap fun b => (read? b).map key) = [] := by
          refine List.filter_eq_nil_iff.mpr fun c hc hnew => hfirst (firstAt_length_iff.mpr ?_)
          exact ⟨key c, by rw [Option.mem_toList.mp hc, Option.map_some], of_decide_eq_true hnew⟩
        rw [hnone, List.filter_singleton, decide_eq_false hfirst]
        exact List.Forall₂.nil

/-- **What is kept, by position**: the elements that stand at the positions of those that are first,
in the order of these positions. -/
theorem exists_positions_firstsBy (read? : α → Option γ) (key : γ → β) (l : List α) :
    ∃ positions : List Nat, positions.Pairwise (· < ·) ∧
      (∀ i, i ∈ positions ↔ FirstAt (fun a => (read? a).map key) l i) ∧
      List.Forall₂ (fun c i => l[i]?.bind read? = some c) (firstsBy key (l.filterMap read?))
        positions := by
  classical
  refine ⟨_, List.pairwise_lt_range.filter _, ?_, forall₂_firstsBy l⟩
  intro i
  rw [List.mem_filter, List.mem_range, decide_eq_true_iff]
  exact ⟨fun h => h.2, fun h => ⟨h.lt_length, h⟩⟩

end Positions

end LineTally
