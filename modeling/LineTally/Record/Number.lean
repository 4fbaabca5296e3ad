import LineTally.Decimal.Shortest

/-!
# Numbers of a record

A number that was written without a point and without an exponent is an integer as long as it fits
into 64 bits, with or without a sign; every other number is a floating-point number, and so is
`-0`. It is kept apart from an integer of the same value: `1.0` is not an integer.

Reading takes digits as long as their value stays below `2 ^ 64`. Digits of the integer part that
are left over count as powers of ten and those of the fraction are dropped, so the float is within
rounding of what was written. It is then scaled by one power of ten.
-/

set_option autoImplicit false

namespace LineTally

/-- A number: a natural number, a negative integer, or a floating-point number. -/
inductive Number
  | natural (n : UInt64)
  | negative (n : Int64)
  | floating (x : Float)
  deriving Repr

namespace Number

/-! ## Reading -/

def digitValue (c : Char) : Nat := c.toNat - '0'.toNat

/-- Puts digits at the end of a significand as long as it stays below `2 ^ 64`: the significand,
how many digits it took, and the characters after them. -/
def takeDigits (significand : Nat) : List Char → Nat × Nat × List Char
  | [] => (significand, 0, [])
  | c :: cs =>
    if c.isDigit && significand * 10 + digitValue c < Decimal.twoTo 64 then
      let (result, taken, rest) := takeDigits (significand * 10 + digitValue c) cs
      (result, taken + 1, rest)
    else (significand, 0, c :: cs)

def digitsValue (digits : List Char) : Nat :=
  digits.foldl (fun n c => n * 10 + digitValue c) 0

/-- The exponent that is written after an `e`, which may have a sign. -/
def readExponent : List Char → Int
  | '-' :: digits => -(digitsValue digits : Int)
  | '+' :: digits => digitsValue digits
  | digits => digitsValue digits

def floatTenTo (n : Nat) : Float := Float.ofScientific 1 false n

/-- A float times a power of ten; no answer when it is too large for a float. Powers beyond
`10 ^ 308` are no floats: below, the scaling is done in two steps. -/
def scale (x : Float) (exponent : Int) : Option Float :=
  if x == 0 then some x
  else if exponent > 308 then none
  else if 0 ≤ exponent then
    let scaled := x * floatTenTo exponent.toNat
    if scaled.isInf then none else some scaled
  else if -308 ≤ exponent then some (x / floatTenTo (-exponent).toNat)
  else if -616 ≤ exponent then some (x / floatTenTo 308 / floatTenTo (-exponent - 308).toNat)
  else some 0

def floatOf (isNegative : Bool) (significand : Nat) (exponent : Int) : Option Number :=
  (scale (UInt64.ofNat significand).toFloat exponent).map fun x =>
    .floating (if isNegative then -x else x)

/-- What follows the digits of a number, after the power of ten that they already carry. -/
def readTail (isNegative : Bool) (significand : Nat) (exponent : Int) (rest : List Char) :
    Option Number :=
  match rest with
  | 'e' :: digits | 'E' :: digits =>
    floatOf isNegative significand (exponent + readExponent digits)
  | _ => floatOf isNegative significand exponent

def ofInteger (isNegative : Bool) (significand : Nat) : Option Number :=
  if !isNegative then some (.natural (UInt64.ofNat significand))
  else if 0 < significand ∧ significand ≤ Decimal.twoTo 63 then
    some (.negative (Int64.ofInt (-(significand : Int))))
  else floatOf true significand 0

def ofUnsigned (isNegative : Bool) (literal : List Char) : Option Number :=
  let (significand, _, rest) := takeDigits 0 literal
  let dropped := (rest.takeWhile Char.isDigit).length
  match rest.dropWhile Char.isDigit with
  | [] => if dropped = 0 then ofInteger isNegative significand
      else floatOf isNegative significand dropped
  | '.' :: fraction =>
    let (significand, taken, rest) := takeDigits significand fraction
    readTail isNegative significand ((dropped : Int) - taken) (rest.dropWhile Char.isDigit)
  | rest => readTail isNegative significand dropped rest

/-- The number that a literal stands for: an optional minus sign, digits, and a point and more
digits, an exponent, or both. No answer when it is beyond the largest float. -/
def ofLiteral? : List Char → Option Number
  | '-' :: literal => ofUnsigned true literal
  | literal => ofUnsigned false literal

/-! ## Writing -/

def digitsOf (n : Nat) : List Char := Nat.toDigits 10 n

/-- An exponent as it is written, always with its sign. -/
def writeExponent (e : Int) : List Char :=
  (if e < 0 then '-' else '+') :: digitsOf e.natAbs

/-- A decimal as it is written. The first digit is at the place `10 ^ place`: from the fifth place
after the point to the sixteenth before it the digits stand where they belong, with at least one
on both sides of the point; elsewhere one digit is before the point and the exponent follows. -/
def writeDigits (d : Decimal.Digits) : List Char :=
  let digits := digitsOf d.significand
  let place : Int := d.exponent + (digits.length - 1 : Nat)
  if 0 ≤ d.exponent ∧ place ≤ 15 then
    digits ++ List.replicate d.exponent.toNat '0' ++ ['.', '0']
  else if 0 ≤ place ∧ place ≤ 15 then
    digits.take (place.toNat + 1) ++ '.' :: digits.drop (place.toNat + 1)
  else if -5 ≤ place ∧ place < 0 then
    '0' :: '.' :: (List.replicate (-place - 1).toNat '0' ++ digits)
  else
    match digits with
    | [] => []
    | [first] => first :: 'e' :: writeExponent place
    | first :: rest => first :: '.' :: (rest ++ 'e' :: writeExponent place)

/-- A float as it is written, a zero with its sign. -/
def writeFloat (x : Float) : List Char :=
  let bits := x.toBits
  let sign := if bits.toNat / Decimal.twoTo 63 = 1 then ['-'] else []
  let b := Decimal.Binary.ofBits bits
  if b.mantissa = 0 then sign ++ ['0', '.', '0']
  else sign ++ writeDigits (Decimal.shortest b)

end Number

end LineTally
