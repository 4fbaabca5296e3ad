import LineTally.Text.Transducer
import LineTally.Text.Utf8

/-!
# Texts without terminal controls

A text that was typed by someone may hold characters that a terminal obeys instead of showing:
single controls such as the bell, and sequences that start with an escape character and set colours,
move the cursor or carry a string. `withoutControls` leaves them out, so that printing the rest
shows it and does nothing else. Tabs, line feeds, form feeds and carriage returns lay a text out and
stay.

A layout character inside a sequence is obeyed at once, so it stays too, and so does what follows it
until the next control that does not stay; there the sequence goes on. In strings nothing stays,
not even layout.
-/

set_option autoImplicit false

namespace LineTally.Terminal

/-- How far a sequence has been read. -/
inductive Mode
  /-- No sequence has begun. -/
  | ground
  /-- An escape character was read. -/
  | escape
  /-- More was read after it; a character from `0` to `~` ends the sequence. -/
  | escapeMiddle
  /-- The parameters of a control sequence, which a character from `@` to `~` ends. -/
  | control
  /-- A string for the terminal itself, which a bell ends. -/
  | command
  /-- A string for the device: its parameters have not begun. -/
  | deviceEntry
  /-- A string for the device: its parameters. -/
  | deviceParameters
  /-- A string for the device: what stands between its parameters and its body. -/
  | deviceMiddle
  /-- The body of a string. -/
  | body
  deriving DecidableEq, Repr

def within (first last : Nat) (c : Char) : Bool :=
  first ≤ c.toNat && c.toNat ≤ last

def isAscii (c : Char) : Bool := within 0 0x7F c

def isLayout (c : Char) : Bool :=
  c = '\t' || c = '\n' || c = '\x0c' || c = '\r'

namespace Mode

def shows : Mode → Char → Bool
  | ground, c => within 0x20 0x7E c || isLayout c || !isAscii c
  | escape, c | escapeMiddle, c | control, c => isLayout c
  | command, _ | deviceEntry, _ | deviceParameters, _ | deviceMiddle, _ | body, _ => false

/-- The mode after an escape character and one more that is not a control. -/
def afterEscape (c : Char) : Mode :=
  if within 0x20 0x2F c then escapeMiddle
  else match c with
    | '[' => control
    | ']' => command
    | 'P' => deviceEntry
    | 'X' | '^' | '_' => body
    | _ => ground

/-- The mode after one more character of a sequence. Cancel and substitute break any sequence off
and escape begins a new one; other controls have no part in it. The byte that ends a body may be any
one of a character's encoding. -/
def next (mode : Mode) (c : Char) : Mode :=
  if c = '\x18' || c = '\x1a' then ground
  else if c = '\x1b' then escape
  else match mode with
    | ground => ground
    | escape => if within 0x20 0x7E c then afterEscape c else escape
    | escapeMiddle => if within 0x30 0x7E c then ground else escapeMiddle
    | control => if within 0x40 0x7E c then ground else control
    | command => if c = '\x07' then ground else command
    | deviceEntry =>
      if within 0x20 0x2F c then deviceMiddle
      else if within 0x30 0x3F c then deviceParameters
      else if within 0x40 0x7E c then body
      else deviceEntry
    | deviceParameters =>
      if within 0x20 0x2F c then deviceMiddle
      else if within 0x3C 0x7E c then body
      else deviceParameters
    | deviceMiddle => if within 0x30 0x7E c then body else deviceMiddle
    | body => if (Utf8.encode [c]).contains 0x9C then ground else body

end Mode

/-- How a text is read: the mode, and whether the character before was shown. -/
structure Reader where
  mode : Mode
  showing : Bool
  deriving DecidableEq, Repr

/-- One character of a text. While characters are shown, the mode is that of a sequence that a
layout character has interrupted; a character beyond ASCII ends it for good. -/
def step (r : Reader) (c : Char) : Reader × List Char :=
  if r.showing then
    if Mode.ground.shows c then (⟨if isAscii c then r.mode else .ground, true⟩, [c])
    else (⟨r.mode.next c, false⟩, [])
  else if r.mode.shows c then (⟨r.mode.next c, true⟩, [c])
  else (⟨r.mode.next c, false⟩, [])

def stripper : Transducer Reader Char Char where
  start := ⟨.ground, false⟩
  step := step
  finish _ := []

def withoutControls (text : List Char) : List Char := stripper.run text

end LineTally.Terminal
