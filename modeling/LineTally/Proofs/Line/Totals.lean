import LineTally.Counts
import Mathlib.Algebra.BigOperators.Group.List.Basic
import Mathlib.Algebra.Ring.Nat

/-!
# Adding counts up

Line counts are added component by component. That makes them a commutative monoid, so that any
list of them has a sum, whatever its order, and a running total that is kept while files come in is
such a sum (`foldl_add_eq_sum`).

The counts of one text are those of its kinds, and there is one kind for each line: no line is
dropped and none is counted twice (`total_ofText`).
-/

set_option autoImplicit false

namespace LineTally

/-! ## 1. Kinds line by line -/

namespace Region

variable {region : Region} {line : List Char} {lines : List (List Char)}

theorem classifyAll_cons : region.classifyAll (line :: lines) =
    (((Line.classify region line).2.classifyAll lines).1,
      (Line.classify region line).1 :: ((Line.classify region line).2.classifyAll lines).2) := by
  simp only [classifyAll, Transducer.feed_cons]
  rfl

/-- There is one kind for each line. -/
theorem length_classifyAll (region : Region) (lines : List (List Char)) :
    (region.classifyAll lines).2.length = lines.length := by
  induction lines generalizing region with
  | nil => rfl
  | cons line lines ih => rw [classifyAll_cons, List.length_cons, ih, List.length_cons]

end Region

namespace Counts

/-! ## 2. The monoid of counts -/

theorem add_eq (a b : Counts) :
    a + b = ⟨a.blanks + b.blanks, a.comments + b.comments, a.code + b.code⟩ := rfl

instance : Zero Counts := ⟨zero⟩

theorem zero_eq : zero = 0 := rfl

instance : AddCommMonoid Counts where
  add_assoc a b c := by simp [add_eq, Nat.add_assoc]
  zero_add a := by
    show zero + a = a
    simp [add_eq, zero]
  add_zero a := by
    show a + zero = a
    simp [add_eq, zero]
  add_comm a b := by simp [add_eq, Nat.add_comm]
  nsmul := nsmulRec

/-- A sum of counts is the sum of each component. -/
theorem sum_eq (l : List Counts) :
    l.sum = ⟨(l.map blanks).sum, (l.map comments).sum, (l.map code).sum⟩ := by
  induction l with
  | nil => rfl
  | cons c l ih => rw [List.sum_cons, ih, add_eq]; simp

theorem total_add (a b : Counts) : (a + b).total = a.total + b.total := by
  simp only [add_eq, total]
  omega

theorem total_sum (l : List Counts) : l.sum.total = (l.map total).sum := by
  induction l with
  | nil => rfl
  | cons c l ih => rw [List.sum_cons, total_add, ih, List.map_cons, List.sum_cons]

/-- A running total is a sum. -/
theorem foldl_add_eq_sum {α : Type} (f : α → Counts) (start : Counts) (l : List α) :
    l.foldl (fun n a => n + f a) start = start + (l.map f).sum := by
  induction l generalizing start with
  | nil => simp
  | cons a l ih => rw [List.foldl_cons, ih, List.map_cons, List.sum_cons, add_assoc]

/-! ## 3. The counts of a text -/

/-- Counting kinds is counting each of the three. -/
theorem ofKinds_eq (kinds : List Line.Kind) :
    ofKinds kinds = ⟨kinds.count .blank, kinds.count .comment, kinds.count .code⟩ := by
  have hstart : ∀ start : Counts, kinds.foldl record start =
      start + ⟨kinds.count .blank, kinds.count .comment, kinds.count .code⟩ := by
    induction kinds with
    | nil =>
      intro start
      simp [add_eq]
    | cons kind kinds ih =>
      intro start
      rw [List.foldl_cons, ih]
      cases kind <;> simp [record, add_eq] <;> omega
  rw [ofKinds, hstart, zero_eq, zero_add]

theorem ofKinds_append (kinds others : List Line.Kind) :
    ofKinds (kinds ++ others) = ofKinds kinds + ofKinds others := by
  simp only [ofKinds_eq, add_eq, List.count_append]

theorem total_ofKinds (kinds : List Line.Kind) : (ofKinds kinds).total = kinds.length := by
  rw [ofKinds_eq]
  induction kinds with
  | nil => rfl
  | cons kind kinds ih =>
    simp only [total] at ih ⊢
    cases kind <;> simp <;> omega

/-- **Every line of a text is counted once.** -/
theorem total_ofText (text : List Char) : (ofText text).total = (Line.split text).length := by
  rw [ofText, total_ofKinds, Region.length_classifyAll]

end Counts

end LineTally
