import LineTally.Digest.Blake3

/-!
# Fingerprints

Two files are taken for copies of each other when their contents have the same fingerprint, the
BLAKE3 digest of their bytes. It is written in lower-case hexadecimal.
-/

set_option autoImplicit false

namespace LineTally

/-- The identity of a content. -/
structure Fingerprint where
  digest : Bytes
  deriving DecidableEq, Repr

namespace Fingerprint

def ofContent (content : Bytes) : Fingerprint :=
  ⟨Blake3.digest content⟩

def hexByte (b : UInt8) : List Char :=
  [Nat.digitChar (b.toNat / 16), Nat.digitChar (b.toNat % 16)]

def hex (f : Fingerprint) : List Char :=
  f.digest.flatMap hexByte

end Fingerprint

end LineTally
