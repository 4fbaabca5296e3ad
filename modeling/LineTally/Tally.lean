import LineTally.Counts

/-!
# The result of a run and its one-line report

A run finds some files, of which only those with distinct contents are counted. The report is the
five numbers in a fixed order, joined by `-`; no number has a sign or a leading zero, so the line
can be read back.
-/

set_option autoImplicit false

namespace LineTally

/-- The outcome of counting everything under a path: the files found, the distinct contents among
those that could be read, and the lines of those contents. -/
structure Tally where
  found : Nat
  distinct : Nat
  lines : Counts
  deriving DecidableEq, Repr

namespace Tally

def numeral (n : Nat) : List Char := Nat.toDigits 10 n

def separator : Char := '-'

/-- The numbers of a report in their order: files, distinct files, then blank, comment and code
lines. -/
def fields (t : Tally) : List Nat :=
  [t.found, t.distinct, t.lines.blanks, t.lines.comments, t.lines.code]

def report (t : Tally) : List Char :=
  [separator].intercalate (t.fields.map numeral)

end Tally

end LineTally
