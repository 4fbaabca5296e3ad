import LineTally.Document
import LineTally.Tally
import LineTally.Text.Quoted
import LineTally.Walk

/-!
# Events

What happens during a run is kept as data, in order: each event says what was found, skipped or
counted. Turning an event into a line of the log is a matter of its target, its message and its
fields, which are read off it here.
-/

set_option autoImplicit false

namespace LineTally

inductive Event
  | unresolvedCandidate (path : Path) (obstacle : Obstacle)
  | skippedObstacle (obstacle : Obstacle)
  | discovered (root : Path) (count : Nat)
  | unreadableFile (failure : ReadFailure)
  | countedFile (path : Path) (counts : Counts)
  | duplicateContent (path : Path)
  | collected (total distinct : Nat)
  | finished (path : Path) (tally : Tally)
  deriving DecidableEq, Repr

inductive FieldValue
  | number (n : Nat)
  | text (cs : List Char)
  deriving DecidableEq, Repr

structure EventField where
  name : String
  value : FieldValue
  deriving DecidableEq, Repr

namespace FieldValue

/-- A value as it is written in a line of the log. -/
def display : FieldValue → List Char
  | number n => Tally.numeral n
  | text cs => cs

end FieldValue

namespace Event

/-- The part of the program that an event comes from, by which the log can be filtered. -/
def target : Event → String
  | unresolvedCandidate .. | skippedObstacle .. | discovered .. => "javaloclib::source::filter"
  | unreadableFile .. | duplicateContent .. | collected .. => "javaloclib::source::dedup"
  | countedFile .. => "javaloclib::data::counter"
  | finished .. => "javaloc"

def message : Event → String
  | unresolvedCandidate .. => "collecting unresolved path"
  | skippedObstacle .. => "skipping unreadable entry"
  | discovered .. => "discovered files"
  | unreadableFile .. => "skipping unreadable file"
  | countedFile .. => "counted file"
  | duplicateContent .. => "skipping duplicate content"
  | collected .. => "deduplicated files"
  | finished .. => "count finished"

def optionalPath : Option Path → List Char
  | some path => "Some(".toList ++ Quoted.ofBytes path ++ [')']
  | none => "None".toList

def namedNumber (name : String) (n : Nat) : List Char :=
  name.toList ++ ": ".toList ++ Tally.numeral n

def namedCounts (c : Counts) : List Char :=
  "LineCounts \x7b ".toList ++ namedNumber "blanks" c.blanks ++ ", ".toList ++
    namedNumber "comments" c.comments ++ ", ".toList ++ namedNumber "code" c.code ++
    " \x7d".toList

def namedTally (t : Tally) : List Char :=
  "CountResult \x7b ".toList ++ namedNumber "total_files" t.found ++ ", ".toList ++
    namedNumber "unique_files" t.distinct ++ ", lines: ".toList ++ namedCounts t.lines ++
    " \x7d".toList

/-- The fields of an event, in the order in which they are written. -/
def fields : Event → List EventField
  | unresolvedCandidate path obstacle =>
    [⟨"path", .text path.display⟩, ⟨"error", .text obstacle.message⟩]
  | skippedObstacle obstacle =>
    [⟨"path", .text (optionalPath obstacle.path?)⟩, ⟨"error", .text obstacle.message⟩]
  | discovered root count => [⟨"root", .text root.display⟩, ⟨"count", .number count⟩]
  | unreadableFile failure => [⟨"error", .text failure.message⟩]
  | countedFile path counts =>
    [⟨"path", .text path.display⟩, ⟨"blanks", .number counts.blanks⟩,
     ⟨"comments", .number counts.comments⟩, ⟨"code", .number counts.code⟩]
  | duplicateContent path => [⟨"path", .text path.display⟩]
  | collected total distinct => [⟨"total", .number total⟩, ⟨"unique", .number distinct⟩]
  | finished path tally =>
    [⟨"path", .text path.display⟩, ⟨"result", .text (namedTally tally)⟩]

def level : String := "DEBUG"

def line (e : Event) : List Char :=
  level.toList ++ [' '] ++ e.target.toList ++ ": ".toList ++ e.message.toList ++
    e.fields.flatMap fun f => ' ' :: (f.name.toList ++ ['='] ++ f.value.display)

end Event

end LineTally
