import LineTally.Record.Shape
import LineTally.Tally

/-!
# Results as records

Line counts and tallies are written as objects and read back from objects or sequences; a kind of
line is written as its name. A name may also be given as the only member of an object, whose value
is then null.
-/

set_option autoImplicit false

namespace LineTally

namespace Counts

def shape : Record.Shape Counts where
  name := "LineCounts"
  fields :=
    [Record.naturalField "blanks" fun n c => { c with blanks := n },
     Record.naturalField "comments" fun n c => { c with comments := n },
     Record.naturalField "code" fun n c => { c with code := n }]
  blank := zero

def ofValue (v : Value) : Except ReadError Counts := shape.ofValue v

def toValue (c : Counts) : Value :=
  .object [("blanks", .ofNat c.blanks), ("comments", .ofNat c.comments), ("code", .ofNat c.code)]

end Counts

namespace Tally

def shape : Record.Shape Tally where
  name := "CountResult"
  fields :=
    [Record.naturalField "total_files" fun n t => { t with found := n },
     Record.naturalField "unique_files" fun n t => { t with distinct := n },
     ⟨"lines", fun v => (Counts.ofValue v).map fun c t => { t with lines := c }⟩]
  blank := ⟨0, 0, .zero⟩

def ofValue (v : Value) : Except ReadError Tally := shape.ofValue v

def toValue (t : Tally) : Value :=
  .object [("total_files", .ofNat t.found), ("unique_files", .ofNat t.distinct),
    ("lines", t.lines.toValue)]

end Tally

namespace Line.Kind

def name : Line.Kind → String
  | blank => "Blank"
  | comment => "Comment"
  | code => "Code"

def names : List String := [blank.name, comment.name, code.name]

def ofName (s : String) : Except ReadError Line.Kind :=
  if s = blank.name then .ok blank
  else if s = comment.name then .ok comment
  else if s = code.name then .ok code
  else .error (.unknownName s names)

def ofValue : Value → Except ReadError Line.Kind
  | .text s => ofName s
  | .object written =>
    match Value.members written with
    | [(s, .null)] => ofName s
    | [(s, found)] =>
      match ofName s with
      | .error e => .error e
      | .ok _ => .error (.wrongType found "unit")
    | _ => .error .notOneMember
  | found => .error (.wrongType found "string or map")

def toValue (k : Line.Kind) : Value := .text k.name

end Line.Kind

end LineTally
