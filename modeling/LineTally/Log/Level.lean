/-!
# Log levels

How much is logged. A level has a name and a number; both can be given.
-/

set_option autoImplicit false

namespace LineTally

/-- How much is logged: nothing, or all events up to a level. -/
inductive LogLevel
  | off
  | error
  | warn
  | info
  | debug
  | trace
  deriving DecidableEq, Repr

namespace LogLevel

/-- The levels from the coarsest to the finest, each with its name. -/
def named : List (String × LogLevel) :=
  [("off", off), ("error", error), ("warn", warn), ("info", info), ("debug", debug),
   ("trace", trace)]

def ofName? (text : List Char) : Option LogLevel :=
  named.lookup (String.ofList (text.map Char.toLower))

/-- The number that a text is: decimal digits, which a plus sign may stand before. -/
def numeral? (text : List Char) : Option Nat :=
  let digits := if text.head? = some '+' then text.tail else text
  if digits.isEmpty || !digits.all Char.isDigit then none
  else some (digits.foldl (fun n c => n * 10 + (c.toNat - '0'.toNat)) 0)

/-- The level with a number, which is its place in the order. -/
def ofNumber? (n : Nat) : Option LogLevel :=
  (named[n]?).map Prod.snd

def ofText? (text : List Char) : Option LogLevel :=
  match numeral? text with
  | some n => ofNumber? n
  | none => ofName? text

/-- Whether the events of this program, which are all of level `debug`, are logged. -/
def includesDebug : LogLevel → Bool
  | debug | trace => true
  | off | error | warn | info => false

end LogLevel

end LineTally
