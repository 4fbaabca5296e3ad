import LineTally.Line.Split

/-!
# Records

`Line.split` is a machine that collects a line from its end. What it computes is a recursion on the
text, and nothing in it is about characters: it only matters which letters end a record, and how.
`records` is that recursion for any alphabet, with the letters' ends as a parameter, and
`split_eq_records` says that the machine computes it.

A line feed right after a carriage return ends no record of its own; that is all that the flag of
`records` is for. A letter that ends nothing is put in front of the record that follows, which there
is unless the input is over (`extend`).
-/

set_option autoImplicit false

namespace LineTally.Line

/-- How a letter ends a record. -/
inductive Terminator
  | lineFeed
  | carriageReturn
  deriving DecidableEq, Repr

section Records

variable {α : Type}

/-- More letters before the first of some records. -/
def extend (start : List α) : List (List α) → List (List α)
  | [] => if start.isEmpty then [] else [start]
  | first :: others => (start ++ first) :: others

/-- The records of an input, which may come right after a carriage return. -/
def recordsAfter (ends : α → Option Terminator) : Bool → List α → List (List α)
  | _, [] => []
  | afterReturn, x :: rest =>
    match ends x with
    | none => extend [x] (recordsAfter ends false rest)
    | some .carriageReturn => [] :: recordsAfter ends true rest
    | some .lineFeed =>
      if afterReturn then recordsAfter ends false rest else [] :: recordsAfter ends false rest

/-- **The records of an input**: each ends at a line feed, at a carriage return or at both in this
order, and the last one may have no end if it is not empty. -/
def records (ends : α → Option Terminator) (input : List α) : List (List α) :=
  recordsAfter ends false input

theorem extend_cons (start first : List α) (others : List (List α)) :
    extend start (first :: others) = (start ++ first) :: others := rfl

theorem extend_nil (rs : List (List α)) : extend [] rs = rs := by
  cases rs <;> rfl

theorem extend_extend {start next : List α} {rs : List (List α)} (h : next ≠ []) :
    extend start (extend next rs) = extend (start ++ next) rs := by
  cases rs with
  | nil => simp [extend, h]
  | cons first others => simp [extend]

variable {ends : α → Option Terminator}

/-- Letters that end nothing stand before the record that follows. -/
theorem recordsAfter_append {word rest : List α} {afterReturn : Bool} (hne : word ≠ [])
    (hword : ∀ x ∈ word, ends x = none) :
    recordsAfter ends afterReturn (word ++ rest) = extend word (recordsAfter ends false rest) := by
  induction word generalizing afterReturn with
  | nil => exact absurd rfl hne
  | cons x word ih =>
    rw [List.cons_append, recordsAfter, hword x List.mem_cons_self]
    cases word with
    | nil => rfl
    | cons y word =>
      rw [ih (List.cons_ne_nil y word) fun z hz => hword z (List.mem_cons_of_mem x hz)]
      exact extend_extend (List.cons_ne_nil y word)

end Records

/-! ## The machine -/

/-- How a character ends a line. -/
def terminator (c : Char) : Option Terminator :=
  if c = '\n' then some .lineFeed else if c = '\r' then some .carriageReturn else none

/-- From any state the machine writes the records of what is left, with what it holds before the
first of them. Right after a carriage return it holds nothing. -/
theorem feed_splitter (s : Unfinished) (hs : s.afterReturn = true → s.reversed = [])
    (text : List Char) :
    (splitter.feed s text).2 ++ splitter.finish (splitter.feed s text).1 =
      extend s.reversed.reverse (recordsAfter terminator s.afterReturn text) := by
  induction text generalizing s with
  | nil =>
    rw [Transducer.feed_nil]
    simp [splitter, recordsAfter, extend]
  | cons c text ih =>
    obtain ⟨reversed, afterReturn⟩ := s
    have hstep : splitter.step = splitStep := rfl
    rw [Transducer.feed_cons, hstep, splitStep, recordsAfter, terminator]
    dsimp only at hs ⊢
    by_cases hfeed : c = '\n'
    · cases afterReturn with
      | true =>
        have hheld : reversed = [] := hs rfl
        simpa [hfeed, hheld, extend_nil] using ih ⟨[], false⟩ (by simp)
      | false => simpa [hfeed, extend_nil, extend_cons] using ih ⟨[], false⟩ (by simp)
    · by_cases hreturn : c = '\r'
      · simpa [hreturn, extend_nil, extend_cons] using ih ⟨[], true⟩ (by simp)
      · simpa [hfeed, hreturn, extend_extend] using ih ⟨c :: reversed, false⟩ (by simp)

/-- **Splitting a text into lines** is cutting it into records. -/
theorem split_eq_records (text : List Char) : split text = records terminator text := by
  have h := feed_splitter splitter.start (by simp [splitter]) text
  rw [split, Transducer.run_eq, h]
  exact extend_nil _

end LineTally.Line
