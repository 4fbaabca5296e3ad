import LineTally.Counts
import LineTally.Digest.Fingerprint
import LineTally.FileTree.Resolve

/-!
# Source files

A file that has been read: the path it was found at and its content. Its text is the content
decoded as UTF-8 with U+FFFD for what is not, so that every file has lines to count, while its
fingerprint is taken of the bytes.
-/

set_option autoImplicit false

namespace LineTally

structure Document where
  path : Path
  content : Bytes
  deriving DecidableEq, Repr

/-- A file that could not be read, and why. -/
structure ReadFailure where
  path : Path
  cause : AccessError
  deriving DecidableEq, Repr

namespace ReadFailure

def message (f : ReadFailure) : List Char :=
  "failed to read file '".toList ++ f.path.display ++ "': ".toList ++ f.cause.message.toList

end ReadFailure

namespace Document

def read (t : FileTree) (path : Path) : Except ReadFailure Document :=
  match t.read path with
  | .error cause => .error ⟨path, cause⟩
  | .ok content => .ok ⟨path, content⟩

def text (file : Document) : List Char := Utf8.decodeLossy file.content

def fingerprint (file : Document) : Fingerprint := .ofContent file.content

def counts (file : Document) : Counts := .ofText file.text

def countAt (t : FileTree) (path : Path) : Except ReadFailure Counts :=
  (read t path).map counts

end Document

end LineTally
