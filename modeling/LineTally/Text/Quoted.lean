import LineTally.Text.Invisible
import LineTally.Text.Utf8

/-!
# Quoted texts

A text between double quotes, written so that it fits on one line and shows every character.
Backslash, double quote, tab, line feed, carriage return and NUL have a spelling of two
characters; a character that cannot be shown is written as its number in hexadecimal, `\u{…}`.

Byte strings are quoted piece by piece: a malformed part is written byte for byte as `\x` and two
digits, so that two different paths never look alike.
-/

set_option autoImplicit false

namespace LineTally.Quoted

def hexadecimal (n : Nat) : List Char := Nat.toDigits 16 n

/-- A character inside the quotes. -/
def spell (c : Char) : List Char :=
  if c = '\x00' then ['\\', '0']
  else if c = '\t' then ['\\', 't']
  else if c = '\n' then ['\\', 'n']
  else if c = '\r' then ['\\', 'r']
  else if c = '\\' ∨ c = '"' then ['\\', c]
  else if isInvisible c then ['\\', 'u', '\x7b'] ++ hexadecimal c.toNat ++ ['\x7d']
  else [c]

/-- The two upper-case hexadecimal digits of a byte that belongs to no character. -/
def spellByte (b : UInt8) : List Char :=
  ['\\', 'x', (Nat.digitChar (b.toNat / 16)).toUpper, (Nat.digitChar (b.toNat % 16)).toUpper]

def spellPiece : Utf8.Piece → List Char
  | .char c => spell c
  | .malformed bytes => bytes.flatMap spellByte

def enclose (inside : List Char) : List Char := '"' :: (inside ++ ['"'])

def ofText (text : List Char) : List Char :=
  enclose (text.flatMap spell)

def ofBytes (bytes : Bytes) : List Char :=
  enclose ((Utf8.pieces bytes).flatMap spellPiece)

end LineTally.Quoted
