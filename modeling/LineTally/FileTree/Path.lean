import LineTally.Text.Separated
import LineTally.Text.Utf8

/-!
# Paths

A path is kept as the bytes it was given with: `src//A.java` and `src/A.java` may lead to the same
file and are different paths. What a path says is read off it in three parts: whether it starts at
the top, the names in it, and whether it ends in a slash and so insists on a directory.
-/

set_option autoImplicit false

namespace LineTally

/-- A path as it was given. -/
abbrev Path := Bytes

/-- The name of an entry in its directory, or a dot or two in a path. -/
abbrev Name := Bytes

namespace Path

def slash : UInt8 := 0x2F

/-- The names of a path. Slashes in a row count as one. -/
def names (path : Path) : List Name :=
  (separated slash path).filter fun part => !part.isEmpty

def isAbsolute (path : Path) : Bool := path.head? == some slash

def endsInSlash (path : Path) : Bool := path.getLast? == some slash

/-- The path of an entry: the directory's path, a slash unless there is one already, the name. -/
def join (directory : Path) (name : Name) : Path :=
  if directory.endsInSlash then directory ++ name else directory ++ slash :: name

/-- A path as text, with U+FFFD where it is not UTF-8. -/
def display (path : Path) : List Char := Utf8.decodeLossy path

end Path

namespace Name

def dot : Name := [0x2E]

def dotDot : Name := [0x2E, 0x2E]

def maxLength : Nat := 255

/-- Whether an entry of a directory can have a name: it is not empty and not too long, it has
neither a slash nor a NUL in it, and it is none of the two that every directory has by itself. A
path made of such names is read as those names again. -/
def isProper (name : Name) : Bool :=
  !name.isEmpty && name.length ≤ maxLength && !name.contains Path.slash && !name.contains 0 &&
    name ≠ dot && name ≠ dotDot

end Name

end LineTally
