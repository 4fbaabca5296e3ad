/-!
# Shortest decimals

The decimal with the fewest digits that reads back as a given binary floating-point number; of
several with that many digits, the one nearest to the number, and of two equally near the one
whose last digit is even.

A finite positive number is `m * 2 ^ q`. What reads back as it is an interval around it that ends
half way to its two neighbours; the ends belong to it when `m` is even, because a tie is read as
the even one. Below a power of two the neighbour is only half as far away. All comparisons are of
natural numbers: everything is scaled to a quarter of the last binary place.
-/

set_option autoImplicit false

namespace LineTally.Decimal

/-- A decimal: its digits as a number, times a power of ten. -/
structure Digits where
  significand : Nat
  exponent : Int
  deriving DecidableEq, Repr

/-- A positive binary number `mantissa * 2 ^ exponent`; `tight` says that the neighbour below is at
half the distance of the one above. -/
structure Binary where
  mantissa : Nat
  exponent : Int
  tight : Bool
  deriving DecidableEq, Repr

def twoTo (n : Nat) : Nat := Nat.pow 2 n

def tenTo (n : Nat) : Nat := Nat.pow 10 n

namespace Binary

/-- The number that the bits of a double-precision float stand for, its sign apart. -/
def ofBits (bits : UInt64) : Binary :=
  let fraction : Nat := bits.toNat % twoTo 52
  let biased : Nat := bits.toNat / twoTo 52 % twoTo 11
  if biased = 0 then ⟨fraction, -1074, false⟩
  else ⟨twoTo 52 + fraction, (biased : Int) - 1075, fraction = 0 && biased > 1⟩

/-- The factor that turns a multiple of `10 ^ k` into the common scale. -/
def gridScale (b : Binary) (k : Int) : Nat :=
  tenTo k.toNat * twoTo (2 - b.exponent).toNat

/-- The factor that turns quarters of the last binary place into the common scale. -/
def quarterScale (b : Binary) (k : Int) : Nat :=
  twoTo (b.exponent - 2).toNat * tenTo (-k).toNat

def readsBack (b : Binary) (k : Int) (d : Nat) : Bool :=
  let point := d * b.gridScale k
  let low := (4 * b.mantissa - if b.tight then 1 else 2) * b.quarterScale k
  let high := (4 * b.mantissa + 2) * b.quarterScale k
  if b.mantissa % 2 = 0 then low ≤ point && point ≤ high else low < point && point < high

/-- The multiple of `10 ^ k` that reads back as the number and is nearest to it, if any does. Only
the two multiples around the number need to be tried. -/
def onGrid? (b : Binary) (k : Int) : Option Digits :=
  let value := 4 * b.mantissa * b.quarterScale k
  let unit := b.gridScale k
  let below := value / unit
  let above := below + 1
  match b.readsBack k below, b.readsBack k above with
  | true, true =>
    let fromBelow := value - below * unit
    let fromAbove := above * unit - value
    if fromBelow < fromAbove ∨ (fromBelow = fromAbove ∧ below % 2 = 0) then some ⟨below, k⟩
    else some ⟨above, k⟩
  | true, false => some ⟨below, k⟩
  | false, true => some ⟨above, k⟩
  | false, false => none

/-- The first grid with a hit, from `10 ^ k` on to finer ones, of at most so many. -/
def firstHit (b : Binary) : Nat → Int → Digits
  | 0, k => ⟨b.mantissa, k⟩
  | grids + 1, k =>
    match b.onGrid? k with
    | some d => d
    | none => b.firstHit grids (k - 1)

end Binary

/-- The power of ten at which the search starts: no double-precision number is above it. -/
def coarsest : Int := 309

/-- More grids than there are between `coarsest` and the last place of the smallest number. -/
def gridCount : Nat := 650

/-- The shortest decimal that reads back as a positive number. A multiple of ten on the grid that is
hit first would lie on the grid before it, so the last digit is not zero. -/
def shortest (b : Binary) : Digits :=
  b.firstHit gridCount coarsest

end LineTally.Decimal
