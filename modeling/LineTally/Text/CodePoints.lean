/-!
# Sets of characters

A class of characters that a standard lays down is a table: ranges of code points. The classes that
are needed here have modules of their own; this one says what a table means.
-/

set_option autoImplicit false

namespace LineTally

/-- A set of code points, as ranges with both ends included. -/
abbrev CodePoints := List (Nat × Nat)

namespace CodePoints

def has (ranges : CodePoints) (c : Char) : Bool :=
  ranges.any fun (first, last) => first ≤ c.toNat && c.toNat ≤ last

end CodePoints

end LineTally
