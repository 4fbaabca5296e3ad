import LineTally.Line.Basic
import LineTally.Text.Transducer

/-!
# Lines of a text

A line ends at a line feed, at a carriage return, or at a carriage return and the line feed right
after it, which together end one line. What follows the last terminator is a line only if it
holds a character. So every character of the text is in one line or in one terminator, and the
empty text has no lines.

`Region.classifyAll` then gives each line its kind, carrying the region from one to the next.
-/

set_option autoImplicit false

namespace LineTally

namespace Line

/-- The line being read, last character first, and whether the character before it was a carriage
return: a line feed there belongs to the terminator already seen. -/
structure Unfinished where
  reversed : List Char
  afterReturn : Bool
  deriving DecidableEq, Repr

/-- One character of a text: it extends the line, ends it, or completes a terminator. -/
def splitStep (s : Unfinished) (c : Char) : Unfinished × List (List Char) :=
  if c = '\n' ∧ s.afterReturn then (⟨[], false⟩, [])
  else if c = '\n' ∨ c = '\r' then (⟨[], c = '\r'⟩, [s.reversed.reverse])
  else (⟨c :: s.reversed, false⟩, [])

def splitter : Transducer Unfinished Char (List Char) where
  start := ⟨[], false⟩
  step := splitStep
  finish s := if s.reversed.isEmpty then [] else [s.reversed.reverse]

def split (text : List Char) : List (List Char) :=
  splitter.run text

/-- The machine that sorts lines into kinds; its state is the region in which a line starts. -/
def sorter : Transducer Region (List Char) Line.Kind where
  start := .normal
  step region line := ((classify region line).2, [(classify region line).1])
  finish _ := []

end Line

namespace Region

/-- The region after the lines, and the kind of each of them in order. -/
def classifyAll (region : Region) (lines : List (List Char)) : Region × List Line.Kind :=
  Line.sorter.feed region lines

end Region

end LineTally
