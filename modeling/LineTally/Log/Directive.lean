import LineTally.Log.Event
import LineTally.Log.Level
import LineTally.Text.Alphanumeric
import LineTally.Text.Blank

/-!
# Log directives

A directive sets the level of some events. It is written in one of these forms.

* `level` is for all events.
* `target` is for the events whose target starts with it, at the finest level; `target=level` gives
  the level.
* `target[{field}]=level` is for those of them that have a field of that name; the message of an
  event counts as one. The target or the level may be missing here.
* `target[span]=level`, `target[span{field}]=level` and `target[{field=value}]=level` are about
  spans, which are stretches of a run that events fall into. This program has none, so such a
  directive is read and never applies.

Blanks belong to what they stand next to, and so make a target that no event has, or no level at
all. Only after a bracket may they end a directive. A directive that starts with blanks cannot give
a level.
-/

set_option autoImplicit false

namespace LineTally

/-- What a directive is about. -/
inductive Directive.Scope
  | events (field? : Option (List Char))
  | spans
  deriving DecidableEq, Repr

/-- A level for whatever is in the scope and has a target that starts with a text. -/
structure Directive where
  target : List Char
  scope : Directive.Scope
  level : LogLevel
  deriving DecidableEq, Repr

namespace Directive

/-! ## Reading -/

def startsWith (c : Char) : Bool :=
  isAlphanumeric c || c = '[' || c = '-' || c = ':' || c = '_'

/-- The level after an equal sign. An empty one stands for the finest. -/
def levelAfterSign? (text : List Char) : Option LogLevel :=
  if text.isEmpty then some .trace else LogLevel.ofText? text

/-- The level after a closing bracket, with its sign if there is one. -/
def levelAfterBracket? (signAllowed : Bool) (text : List Char) : Option LogLevel :=
  match text with
  | '=' :: level => if signAllowed then levelAfterSign? level else none
  | rest => if rest.all isBlank then some .trace else none

/-- The scope that is written between a closing bracket and the bracket before it, and what comes
after. A span of some name, even an empty one, or a field with a value is about spans. -/
def readScope? (text : List Char) : Option (Scope × List Char) :=
  let name := text.takeWhile fun c => c ≠ ']' && c ≠ '\x7b'
  match text.drop name.length with
  | ']' :: rest => some (.spans, rest)
  | '\x7b' :: inside =>
    let field := inside.takeWhile (· ≠ '\x7d')
    match inside.drop field.length with
    | '\x7d' :: ']' :: rest =>
      if field.isEmpty then none
      else if name.isEmpty && !field.contains '=' then some (.events (some field), rest)
      else some (.spans, rest)
    | _ => none
  | _ => none

def ofText? (text : List Char) : Option Directive :=
  let blanks := text.takeWhile isBlank
  let body := text.drop blanks.length
  let signAllowed := blanks.isEmpty
  let target := body.takeWhile fun c => c ≠ '=' && c ≠ '['
  if !body.head?.any startsWith then none
  else
    match body.drop target.length with
    | [] =>
      match LogLevel.ofText? text with
      | some level => some ⟨[], .events none, level⟩
      | none => some ⟨text, .events none, .trace⟩
    | '[' :: rest => do
      let (scope, rest) ← readScope? rest
      let level ← levelAfterBracket? signAllowed rest
      return ⟨blanks ++ target, scope, level⟩
    | _ :: level =>
      if signAllowed then (levelAfterSign? level).map fun level => ⟨target, .events none, level⟩
      else none

/-! ## Deciding -/

/-- Whether an event has a field of a name. Its message counts as one. -/
def hasField (e : Event) (name : List Char) : Bool :=
  name = "message".toList || e.fields.any fun f => f.name.toList = name

def appliesTo (d : Directive) (e : Event) : Bool :=
  d.target.isPrefixOf e.target.toList &&
    match d.scope with
    | .events field? => field?.all (hasField e)
    | .spans => false

def field? (d : Directive) : Option (List Char) :=
  match d.scope with
  | .events field? => field?
  | .spans => none

/-- Whether a request for a field is at most as specific as another one: no field is the least, and
names go by their characters. -/
def fieldYieldsTo : Option (List Char) → Option (List Char) → Bool
  | none, _ => true
  | some _, none => false
  | some name, some other => !other.lex name fun a b => a.toNat < b.toNat

/-- Whether a directive is at most as specific as another one: the other one's target is longer, or
as long and its field at least as specific. -/
def yieldsTo (d other : Directive) : Bool :=
  d.target.length < other.target.length ||
    d.target.length = other.target.length && fieldYieldsTo d.field? other.field?

end Directive

end LineTally
