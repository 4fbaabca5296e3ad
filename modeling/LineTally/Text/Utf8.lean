import LineTally.Text.Transducer

/-!
# UTF-8, whatever the bytes

File contents and path names are bytes; nothing promises that they are UTF-8. `pieces` cuts any
byte string into characters and *malformed parts*, a malformed part being the longest start of a
character's encoding that the next byte does not continue, or a single byte that starts none.
No byte is lost and none is read twice.

`decodeLossy` puts U+FFFD for each malformed part; `decode?` answers only where there is none.
-/

set_option autoImplicit false

namespace LineTally

/-- A string of bytes: a file's content, a path, a name. -/
abbrev Bytes := List UInt8

namespace Utf8

def encode (text : List Char) : Bytes :=
  text.flatMap String.utf8EncodeChar

/-- A part of a byte string: a character, or bytes that are the encoding of none. -/
inductive Piece
  | char (c : Char)
  | malformed (bytes : Bytes)
  deriving DecidableEq, Repr

/-- A character whose encoding has begun: the bytes so far, the bits they carry, the range in
which the next byte has to lie, and how many more must follow that one. The range is narrower
than `0x80`–`0xBF` after `E0`, `ED`, `F0` and `F4`: it keeps out overlong forms, surrogates and
values above U+10FFFF as early as a byte can show them. -/
structure Pending where
  bytes : Bytes
  value : Nat
  low : UInt8 := 0x80
  high : UInt8 := 0xBF
  more : Nat
  deriving DecidableEq, Repr

/-- A byte where a character may start. -/
def begin (b : UInt8) : Option Pending × List Piece :=
  let n := b.toNat
  if n < 0x80 then (none, [.char (Char.ofNat n)])
  else if n < 0xC2 then (none, [.malformed [b]])
  else if n < 0xE0 then (some { bytes := [b], value := n - 0xC0, more := 0 }, [])
  else if n < 0xF0 then
    (some { bytes := [b], value := n - 0xE0, more := 1,
            low := if n = 0xE0 then 0xA0 else 0x80,
            high := if n = 0xED then 0x9F else 0xBF }, [])
  else if n < 0xF5 then
    (some { bytes := [b], value := n - 0xF0, more := 2,
            low := if n = 0xF0 then 0x90 else 0x80,
            high := if n = 0xF4 then 0x8F else 0xBF }, [])
  else (none, [.malformed [b]])

/-- One byte more. A byte outside the range of the pending character ends it as malformed, and
may itself start the next one. -/
def advance : Option Pending → UInt8 → Option Pending × List Piece
  | none, b => begin b
  | some p, b =>
    if p.low ≤ b ∧ b ≤ p.high then
      let value := p.value * 64 + (b.toNat - 0x80)
      match p.more with
      | 0 => (none, [.char (Char.ofNat value)])
      | more + 1 => (some { bytes := p.bytes ++ [b], value := value, more := more }, [])
    else
      let (next, pieces) := begin b
      (next, .malformed p.bytes :: pieces)

/-- The decoder: its state is the character that has begun, if one has. -/
def decoder : Transducer (Option Pending) UInt8 Piece where
  start := none
  step := advance
  finish
    | none => []
    | some p => [.malformed p.bytes]

def pieces (bytes : Bytes) : List Piece :=
  decoder.run bytes

def replacement : Char := '\uFFFD'

namespace Piece

/-- The character that stands for a piece in a lossy decoding. -/
def lossy : Piece → Char
  | char c => c
  | malformed _ => replacement

def char? : Piece → Option Char
  | char c => some c
  | malformed _ => none

end Piece

/-- The text of a byte string, with U+FFFD for each malformed part. -/
def decodeLossy (bytes : Bytes) : List Char :=
  (pieces bytes).map Piece.lossy

/-- The text of a byte string that is UTF-8 throughout. -/
def decode? (bytes : Bytes) : Option (List Char) :=
  (pieces bytes).mapM Piece.char?

end Utf8

end LineTally
