import LineTally.Line.Split

/-!
# Line counts

How many lines of each kind a text has, and how such counts add up. Counts are natural numbers:
a text has no more lines than bytes, so no file that fits into an address space brings a sum near
a word's limit.
-/

set_option autoImplicit false

namespace LineTally

structure Counts where
  blanks : Nat
  comments : Nat
  code : Nat
  deriving DecidableEq, Repr

namespace Counts

def zero : Counts := ⟨0, 0, 0⟩

instance : Inhabited Counts := ⟨zero⟩

def record (counts : Counts) : Line.Kind → Counts
  | .blank => { counts with blanks := counts.blanks + 1 }
  | .comment => { counts with comments := counts.comments + 1 }
  | .code => { counts with code := counts.code + 1 }

/-- The lines of two texts together. -/
def add (a b : Counts) : Counts :=
  ⟨a.blanks + b.blanks, a.comments + b.comments, a.code + b.code⟩

instance : Add Counts := ⟨add⟩

def total (counts : Counts) : Nat :=
  counts.blanks + counts.comments + counts.code

def ofKinds (kinds : List Line.Kind) : Counts :=
  kinds.foldl record zero

/-- The counts of a text. It starts outside any block comment. -/
def ofText (text : List Char) : Counts :=
  ofKinds (Region.normal.classifyAll (Line.split text)).2

end Counts

end LineTally
