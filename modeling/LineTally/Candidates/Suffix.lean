import LineTally.FileTree.Path

/-!
# Which paths are candidates

A path is a candidate for its name alone: its text ends with the suffix. Upper and lower case
differ, and a name that is nothing but the suffix is one too.
-/

set_option autoImplicit false

namespace LineTally

/-- The suffix of the paths that are looked for. -/
structure Suffix where
  text : List Char
  deriving DecidableEq, Repr

namespace Suffix

/-- The suffix that is looked for unless another one is asked for. -/
def standard : Suffix := ⟨".java".toList⟩

def matchesPath (s : Suffix) (path : Path) : Bool :=
  s.text.isSuffixOf path.display

end Suffix

end LineTally
