import LineTally.Proofs.Candidates.Contract
import Mathlib.Data.List.Sort

/-!
# What the order of the candidates decides

The candidates of a run ascend by the names of their paths, strictly. So the list is known when its
members are: of two runs, one has a part of the other's candidates exactly when its list is a
**subsequence** of the other's (`files_sublist_of_subset`), and the same candidates exactly when the
lists are equal (`files_eq_of_mem_iff`). No walk has to be followed to compare two walks.

The second use of the order is that what lies below one directory lies together. Paths between two
that begin with some names begin with them too (`prefix_of_between`), so those that do are one
contiguous block of the list (`exists_block`).
-/

set_option autoImplicit false

namespace LineTally

/-! ## 1. Lists that ascend by names -/

/-- One path comes before another one by its names. -/
def Path.Before (p q : Path) : Prop := p.names < q.names

instance : Std.Irrefl Path.Before where
  irrefl p := List.lt_irrefl p.names

instance : Std.Antisymm Path.Before where
  antisymm _ _ h h' := absurd h' (List.lt_asymm h)

namespace Path

variable {l l' : List Path}

theorem sublist_of_ascending (h : l.Pairwise Before) (h' : l'.Pairwise Before) (hsub : l ⊆ l') :
    l.Sublist l' :=
  List.sublist_of_subperm_of_pairwise (List.subperm_of_subset h.nodup hsub) h h'

end Path

/-! ## 2. Blocks -/

/-- What lies between two lists with the same beginning has it too. -/
theorem prefix_of_between {α : Type} [LT α] [Std.Asymm (α := α) (· < ·)]
    {start x y z : List α} (h : start ++ x < y) (h' : y < start ++ z) : start <+: y := by
  induction start generalizing y with
  | nil => exact List.nil_prefix
  | cons a start ih =>
    cases y with
    | nil => exact absurd h (List.not_lt_nil _)
    | cons b y =>
      rcases List.cons_lt_cons_iff.mp h with hab | ⟨rfl, hrest⟩
      · rcases List.cons_lt_cons_iff.mp h' with hba | ⟨rfl, _⟩
        · exact absurd hba (Std.Asymm.asymm _ _ hab)
        · exact absurd hab (Std.Asymm.asymm _ _ hab)
      · rcases List.cons_lt_cons_iff.mp h' with haa | ⟨_, hrest'⟩
        · exact absurd haa (Std.Asymm.asymm _ _ haa)
        · exact List.cons_prefix_cons.mpr ⟨rfl, ih hrest hrest'⟩

/-- **What has a property lies together**, if everything between two that have it has it too. -/
theorem exists_block {α : Type} {r : α → α → Prop} {p : α → Bool} {l : List α}
    (hconvex : ∀ x y z, p x = true → p z = true → r x y → r y z → p y = true)
    (h : l.Pairwise r) :
    ∃ before after, l = before ++ l.filter p ++ after ∧ (∀ x ∈ before, p x = false) ∧
      ∀ x ∈ after, p x = false := by
  induction l with
  | nil => exact ⟨[], [], rfl, by simp, by simp⟩
  | cons a l ih =>
    obtain ⟨hfirst, hrest⟩ := List.pairwise_cons.mp h
    obtain ⟨before, after, heq, hbefore, hafter⟩ := ih hrest
    cases ha : p a with
    | false =>
      refine ⟨a :: before, after, ?_, ?_, hafter⟩
      · rw [List.filter_cons_of_neg (by simp [ha])]
        exact congrArg (a :: ·) heq
      · exact List.forall_mem_cons.mpr ⟨ha, hbefore⟩
    | true =>
      rw [List.filter_cons_of_pos ha]
      by_cases hnone : l.filter p = []
      · refine ⟨[], l, by rw [hnone]; rfl, by simp, fun x hx => ?_⟩
        exact Bool.eq_false_iff.mpr (List.filter_eq_nil_iff.mp hnone x hx)
      · obtain ⟨z, hz⟩ := List.exists_mem_of_ne_nil _ hnone
        -- What comes before the rest of the block is between it and the first element.
        have hnil : before = [] := by
          rw [List.eq_nil_iff_forall_not_mem]
          intro x hx
          have hordered := heq ▸ hrest
          have hxz : r x z :=
            (List.pairwise_append.mp (List.pairwise_append.mp hordered).1).2.2 x hx z hz
          have hax : r a x := by
            refine hfirst x ?_
            rw [heq]
            simp [hx]
          have hpx := hconvex a x z ha (List.mem_filter.mp hz).2 hax hxz
          rw [hbefore x hx] at hpx
          cases hpx
        subst hnil
        exact ⟨[], after, congrArg (a :: ·) heq, by simp, hafter⟩

/-! ## 3. Candidates of two runs -/

namespace FileTree

variable {t t' : FileTree} {suffix suffix' : Suffix} {root root' : Path}

/-- The candidates ascend. -/
theorem files_before (hroot : suffix.matchesPath root = false) :
    (t.discover suffix root).files.Pairwise Path.Before := ascending_files_discover hroot

/-- **A run that finds only what another one finds has a subsequence of its candidates.** -/
theorem files_sublist_of_subset (hroot : suffix.matchesPath root = false)
    (hroot' : suffix'.matchesPath root' = false)
    (h : (t.discover suffix root).files ⊆ (t'.discover suffix' root').files) :
    (t.discover suffix root).files.Sublist (t'.discover suffix' root').files :=
  Path.sublist_of_ascending (files_before hroot) (files_before hroot') h

/-- **A run that finds what another one finds has the same list of candidates.** -/
theorem files_eq_of_mem_iff (hroot : suffix.matchesPath root = false)
    (hroot' : suffix'.matchesPath root' = false)
    (h : ∀ q, q ∈ (t.discover suffix root).files ↔ q ∈ (t'.discover suffix' root').files) :
    (t.discover suffix root).files = (t'.discover suffix' root').files :=
  (files_before hroot).eq_of_mem_iff (files_before hroot') h

end FileTree

end LineTally
