/-!
# Kinds of lines

A line of source is blank, a comment or code, and which one is decided from its two ends and from
whether it starts inside a block comment. Nothing in the middle of a line is looked at: string
literals are not understood, and code followed by a comment is code.

The rules, on the line without its surrounding blanks:

* inside a block comment every line is a comment, and the block is over when the line starts or
  ends with `*/`;
* outside, an empty line is blank, a line that starts with `//` or `/*` is a comment and any
  other line is code; a line that starts with `/*` leaves a block open unless it ends with `*/`.
-/

set_option autoImplicit false

namespace LineTally

/-- Where a line starts: outside every block comment, or inside one. -/
inductive Region
  | normal
  | blockComment
  deriving DecidableEq, Repr

namespace Line

inductive Kind
  | blank
  | comment
  | code
  deriving DecidableEq, Repr

/-- A character that is dropped at the ends of a line: the space and every control character
below it, tabs, form feeds and NUL among them. -/
def isPadding (c : Char) : Bool := decide (c ≤ ' ')

def trim (line : List Char) : List Char :=
  ((line.dropWhile isPadding).reverse.dropWhile isPadding).reverse

def lineMark : List Char := ['/', '/']

def openMark : List Char := ['/', '*']

def closeMark : List Char := ['*', '/']

def closes (trimmed : List Char) : Bool :=
  closeMark.isPrefixOf trimmed || closeMark.isSuffixOf trimmed

/-- The kind of a trimmed line, and where the next one starts. The line `/*/` opens a block and
closes it with the same star. -/
def classifyTrimmed (region : Region) (trimmed : List Char) : Kind × Region :=
  match region with
  | .blockComment => (.comment, if closes trimmed then .normal else .blockComment)
  | .normal =>
    if trimmed.isEmpty then (.blank, .normal)
    else if lineMark.isPrefixOf trimmed then (.comment, .normal)
    else if openMark.isPrefixOf trimmed then
      (.comment, if closeMark.isSuffixOf trimmed then .normal else .blockComment)
    else (.code, .normal)

def classify (region : Region) (line : List Char) : Kind × Region :=
  classifyTrimmed region (trim line)

end Line

end LineTally
