import LineTally.Proofs.Line.Totals
import LineTally.Tally
import Mathlib.Data.List.Induction

/-!
# Counting in words

Counts are natural numbers in this library, and a natural number is never too large. Where counts
are kept in words of 64 bits a sum may be. This file has that arithmetic beside the exact one:
`WordCounts` are counts in words, and each addition answers only if the sum is a word
(`addWords?`), so that an answer at the end says that **no** sum on the way was too large.

`Holds` relates the two: counting in words has come to an answer, the answer is the exact counts,
and their total can be taken as well. One step keeps it as long as the exact total fits into a word
(`Holds.record`, `Holds.add`), because no component is larger than the total; and so a list of fewer
than `2 ^ 64` kinds can be counted (`holds_ofKinds`). What bounds the total is for others to say.
-/

set_option autoImplicit false

namespace LineTally

/-! ## 1. Words -/

/-- The sum of two words, if it is a word. A machine that adds them regardless stops or goes on
with what is left of the sum above `2 ^ 64`. -/
def addWords? (a b : UInt64) : Option UInt64 :=
  if a.toNat + b.toNat < UInt64.size then some (a + b) else none

/-- **A sum of words is the exact sum, or there is none.** -/
theorem addWords?_eq_some_iff {a b c : UInt64} :
    addWords? a b = some c ↔ c.toNat = a.toNat + b.toNat := by
  unfold addWords?
  split
  · next hfits =>
    have hexact : (a + b).toNat = a.toNat + b.toNat := by
      rw [UInt64.toNat_add]
      exact Nat.mod_eq_of_lt hfits
    rw [Option.some.injEq, ← UInt64.toNat_inj, hexact]
    exact eq_comm
  · next hfits =>
    have hword : c.toNat < UInt64.size := c.toNat_lt
    simp
    omega

theorem exists_addWords? {a b : UInt64} (h : a.toNat + b.toNat < UInt64.size) :
    ∃ c, addWords? a b = some c ∧ c.toNat = a.toNat + b.toNat := by
  have hsum : addWords? a b = some (a + b) := if_pos h
  exact ⟨a + b, hsum, addWords?_eq_some_iff.mp hsum⟩

/-- Line counts in words. -/
structure WordCounts where
  blanks : UInt64
  comments : UInt64
  code : UInt64
  deriving DecidableEq, Repr

namespace WordCounts

def zero : WordCounts := ⟨0, 0, 0⟩

/-- The counts that the words stand for. -/
def value (w : WordCounts) : Counts := ⟨w.blanks.toNat, w.comments.toNat, w.code.toNat⟩

def record? (w : WordCounts) : Line.Kind → Option WordCounts
  | .blank => (addWords? w.blanks 1).map fun n => { w with blanks := n }
  | .comment => (addWords? w.comments 1).map fun n => { w with comments := n }
  | .code => (addWords? w.code 1).map fun n => { w with code := n }

def add? (a b : WordCounts) : Option WordCounts := do
  let blanks ← addWords? a.blanks b.blanks
  let comments ← addWords? a.comments b.comments
  let code ← addWords? a.code b.code
  some ⟨blanks, comments, code⟩

def total? (w : WordCounts) : Option UInt64 := do
  let noCode ← addWords? w.blanks w.comments
  addWords? noCode w.code

def ofKinds? (kinds : List Line.Kind) : Option WordCounts :=
  kinds.foldlM record? zero

/-- The counts of a text. It starts outside any block comment. -/
def ofText? (text : List Char) : Option WordCounts :=
  ofKinds? (Region.normal.classifyAll (Line.split text)).2

/-! ## 2. Counting without a sum that is too large -/

/-- **Counting in words has come to these counts**: no sum was too large, and their total is not
too large either. -/
def Holds (result : Option WordCounts) (counts : Counts) : Prop :=
  ∃ w, result = some w ∧ w.value = counts ∧ ∃ n, w.total? = some n ∧ n.toNat = counts.total

variable {w : WordCounts} {result other : Option WordCounts} {c d : Counts}

/-- Counts whose total is a word can be held: none of them is more than the total. -/
theorem holds_of_value (hvalue : w.value = c) (htotal : c.total < UInt64.size) :
    Holds (some w) c := by
  subst hvalue
  have hlines : w.blanks.toNat + w.comments.toNat + w.code.toNat < UInt64.size := htotal
  have hpart : w.blanks.toNat + w.comments.toNat < UInt64.size := by omega
  obtain ⟨noCode, hfirst, hexact⟩ := exists_addWords? hpart
  rw [← hexact] at hlines
  obtain ⟨n, hsecond, htotal⟩ := exists_addWords? hlines
  refine ⟨w, rfl, rfl, n, ?_, ?_⟩
  · simp [total?, hfirst, hsecond]
  · rw [htotal, hexact]
    rfl

/-- One line more is one more in one of the words. -/
theorem exists_record? (kind : Line.Kind) (hroom : w.value.total + 1 < UInt64.size) :
    ∃ w', w.record? kind = some w' ∧ w'.value = w.value.record kind := by
  have hone : (1 : UInt64).toNat = 1 := rfl
  simp only [value, Counts.total] at hroom
  cases kind with
  | blank =>
    obtain ⟨n, hn, hexact⟩ : ∃ n, addWords? w.blanks 1 = some n ∧
        n.toNat = w.blanks.toNat + (1 : UInt64).toNat := exists_addWords? (by omega)
    exact ⟨{ w with blanks := n }, by simp [record?, hn], by simp [value, Counts.record, hexact]⟩
  | comment =>
    obtain ⟨n, hn, hexact⟩ : ∃ n, addWords? w.comments 1 = some n ∧
        n.toNat = w.comments.toNat + (1 : UInt64).toNat := exists_addWords? (by omega)
    exact ⟨{ w with comments := n }, by simp [record?, hn], by simp [value, Counts.record, hexact]⟩
  | code =>
    obtain ⟨n, hn, hexact⟩ : ∃ n, addWords? w.code 1 = some n ∧
        n.toNat = w.code.toNat + (1 : UInt64).toNat := exists_addWords? (by omega)
    exact ⟨{ w with code := n }, by simp [record?, hn], by simp [value, Counts.record, hexact]⟩

/-- **One line more**, when there are fewer than a word can count. -/
theorem Holds.record (h : Holds result c) (kind : Line.Kind)
    (hroom : c.total + 1 < UInt64.size) :
    Holds (result.bind fun w => w.record? kind) (c.record kind) := by
  obtain ⟨w, rfl, rfl, _⟩ := h
  obtain ⟨w', hw', hvalue⟩ := exists_record? kind hroom
  have htotal : (w.value.record kind).total = w.value.total + 1 := by
    cases kind <;> simp only [Counts.record, Counts.total] <;> omega
  rw [Option.bind_some, hw']
  exact holds_of_value hvalue (htotal ▸ hroom)

/-- **Two counts together**, when a word can count the lines of both. -/
theorem Holds.add (h : Holds result c) (h' : Holds other d)
    (hroom : c.total + d.total < UInt64.size) :
    Holds (result.bind fun a => other.bind fun b => a.add? b) (c + d) := by
  obtain ⟨a, rfl, rfl, _⟩ := h
  obtain ⟨b, rfl, rfl, _⟩ := h'
  have htotal : (a.value + b.value).total < UInt64.size := by rwa [Counts.total_add]
  simp only [Counts.total, value] at hroom
  obtain ⟨blanks, hblanks, hblanks'⟩ : ∃ n, addWords? a.blanks b.blanks = some n ∧
      n.toNat = a.blanks.toNat + b.blanks.toNat := exists_addWords? (by omega)
  obtain ⟨comments, hcomments, hcomments'⟩ : ∃ n, addWords? a.comments b.comments = some n ∧
      n.toNat = a.comments.toNat + b.comments.toNat := exists_addWords? (by omega)
  obtain ⟨code, hcode, hcode'⟩ : ∃ n, addWords? a.code b.code = some n ∧
      n.toNat = a.code.toNat + b.code.toNat := exists_addWords? (by omega)
  have hsum : a.add? b = some ⟨blanks, comments, code⟩ := by
    simp [add?, hblanks, hcomments, hcode]
  rw [Option.bind_some, Option.bind_some, hsum]
  refine holds_of_value ?_ htotal
  rw [value, hblanks', hcomments', hcode']
  rfl

theorem holds_zero : Holds (some zero) 0 := holds_of_value rfl (by decide)

/-- **Fewer kinds than `2 ^ 64` can be counted in words.** -/
theorem holds_ofKinds {kinds : List Line.Kind} (h : kinds.length < UInt64.size) :
    Holds (ofKinds? kinds) (Counts.ofKinds kinds) := by
  induction kinds using List.reverseRecOn with
  | nil => exact holds_zero
  | append_singleton kinds kind ih =>
    rw [List.length_append, List.length_singleton] at h
    have hroom : (Counts.ofKinds kinds).total + 1 < UInt64.size := by
      rwa [Counts.total_ofKinds]
    have hstep := (ih (by omega)).record kind hroom
    have hkinds : ofKinds? (kinds ++ [kind]) =
        (ofKinds? kinds).bind fun w => w.record? kind := by
      simp only [ofKinds?, List.foldlM_append, List.foldlM_cons, List.foldlM_nil]
      simp [bind]
    have hexact : Counts.ofKinds (kinds ++ [kind]) = (Counts.ofKinds kinds).record kind := by
      simp [Counts.ofKinds]
    rw [hkinds, hexact]
    exact hstep

end WordCounts

/-! ## 3. Results that words can hold -/

/-- The counts that are words. -/
def Counts.Fits (c : Counts) : Prop :=
  c.blanks < UInt64.size ∧ c.comments < UInt64.size ∧ c.code < UInt64.size

instance : DecidablePred Counts.Fits := fun c =>
  inferInstanceAs (Decidable (c.blanks < UInt64.size ∧ c.comments < UInt64.size ∧ _))

/-- The results all of whose numbers are words. -/
def Tally.Fits (t : Tally) : Prop :=
  t.found < UInt64.size ∧ t.distinct < UInt64.size ∧ t.lines.Fits

instance : DecidablePred Tally.Fits := fun t =>
  inferInstanceAs (Decidable (t.found < UInt64.size ∧ t.distinct < UInt64.size ∧ t.lines.Fits))

end LineTally
