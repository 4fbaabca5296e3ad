import LineTally.Digest.Fingerprint
import LineTally.FileTree.Path

/-!
# Files with distinct contents

A list of paths no two of which have the same content: the first path with a fingerprint stands
for all others with it. Equal paths with different fingerprints are both kept, since a file may
change between two reads.
-/

set_option autoImplicit false

namespace LineTally

/-- The representatives so far with their fingerprints, in the order in which they came. -/
structure Representatives where
  files : List (Fingerprint × Path)
  deriving DecidableEq, Repr

namespace Representatives

def empty : Representatives := ⟨[]⟩

def contains (u : Representatives) (f : Fingerprint) : Bool :=
  u.files.any fun file => file.1 = f

/-- The path becomes a representative unless there is one with its fingerprint; whether it did. -/
def insert (u : Representatives) (f : Fingerprint) (path : Path) : Bool × Representatives :=
  if u.contains f then (false, u) else (true, ⟨u.files ++ [(f, path)]⟩)

def paths (u : Representatives) : List Path := u.files.map Prod.snd

def size (u : Representatives) : Nat := u.files.length

def isEmpty (u : Representatives) : Bool := u.files.isEmpty

variable {u : Representatives} {f : Fingerprint}

theorem contains_iff : u.contains f = true ↔ f ∈ u.files.map Prod.fst := by
  simp [contains]

theorem insert_of_contains (h : u.contains f = true) (path : Path) :
    u.insert f path = (false, u) :=
  if_pos h

theorem insert_of_not_contains (h : ¬ u.contains f = true) (path : Path) :
    u.insert f path = (true, ⟨u.files ++ [(f, path)]⟩) :=
  if_neg h

end Representatives

end LineTally
