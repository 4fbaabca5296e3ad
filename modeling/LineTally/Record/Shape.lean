import LineTally.Record.Value
import LineTally.Text.Quoted

/-!
# Reading records

A record is read from an object, by the names of its fields, or from a sequence that has the
fields in their order. The first thing found to be wrong is reported:

* the members of an object are visited in the order of their names, and a member that no field
  asks for is passed over; a field without a member is missed only when all members have been
  read, and then the first such field is reported;
* the items of a sequence are read in order, and the sequence's length is looked at afterwards.
-/

set_option autoImplicit false

namespace LineTally

inductive ReadError
  | wrongType (found : Value) (expected : String)
  | negative (n : Int64)
  | tooFewItems (count : Nat) (record : String) (fields : Nat)
  | tooManyItems (count : Nat)
  | missingField (name : String)
  | unknownName (name : String) (known : List String)
  | notOneMember

namespace ReadError

def mark (text : String) : String := "\x60" ++ text ++ "\x60"

/-- What a value is, for whoever asked for something else. -/
def describe : Value → String
  | .null => "null"
  | .boolean b => "boolean " ++ mark (if b then "true" else "false")
  | .number (.natural n) => "integer " ++ mark (toString n.toNat)
  | .number (.negative n) => "integer " ++ mark (toString n.toInt)
  | .number (.floating x) => "floating point " ++ mark (String.ofList (Number.writeFloat x))
  | .text s => "string " ++ String.ofList (Quoted.ofText s.toList)
  | .sequence _ => "sequence"
  | .object _ => "map"

def message : ReadError → String
  | wrongType found expected => "invalid type: " ++ describe found ++ ", expected " ++ expected
  | negative n =>
    "invalid value: " ++ describe (.number (.negative n)) ++ ", expected u64"
  | tooFewItems count record fields =>
    "invalid length " ++ toString count ++ ", expected struct " ++ record ++ " with " ++
      toString fields ++ " elements"
  | tooManyItems count =>
    "invalid length " ++ toString count ++ ", expected fewer elements in array"
  | missingField name => "missing field " ++ mark name
  | unknownName name known =>
    "unknown variant " ++ mark name ++ ", expected one of " ++
      String.intercalate ", " (known.map mark)
  | notOneMember => "invalid value: map, expected map with a single key"

end ReadError

namespace Record

/-- A field of a record: its name, and how a value is read and put into the record. -/
structure Field (ρ : Type) where
  name : String
  read : Value → Except ReadError (ρ → ρ)

/-- What a record looks like: its name, its fields in order, and the record whose fields are yet
to be put in. -/
structure Shape (ρ : Type) where
  name : String
  fields : List (Field ρ)
  blank : ρ

def readNatural : Value → Except ReadError Nat
  | .number (.natural n) => .ok n.toNat
  | .number (.negative n) => .error (.negative n)
  | found => .error (.wrongType found "u64")

def naturalField {ρ : Type} (name : String) (put : Nat → ρ → ρ) : Field ρ :=
  ⟨name, fun v => (readNatural v).map put⟩

namespace Shape

variable {ρ : Type}

def fill (s : Shape ρ) (updates : List (ρ → ρ)) : ρ :=
  updates.foldl (fun r update => update r) s.blank

/-- The fields among some members, in the order of the members. -/
def readMembers (s : Shape ρ) : List (String × Value) → Except ReadError (List (String × (ρ → ρ)))
  | [] => .ok []
  | (name, value) :: rest =>
    match s.fields.find? fun f => f.name = name with
    | none => s.readMembers rest
    | some f =>
      match f.read value with
      | .error e => .error e
      | .ok update => (s.readMembers rest).map fun updates => (name, update) :: updates

/-- A record from the members of an object, which are in the order of their names. -/
def ofMembers (s : Shape ρ) (members : List (String × Value)) : Except ReadError ρ :=
  match s.readMembers members with
  | .error e => .error e
  | .ok updates =>
    match s.fields.find? fun f => !updates.any fun u => u.1 = f.name with
    | some f => .error (.missingField f.name)
    | none => .ok (s.fill (updates.map Prod.snd))

/-- The fields that the items of a sequence stand for; items after the last field are not read. -/
def readItems : List (Field ρ) → List Value → Except ReadError (List (ρ → ρ))
  | f :: fields, item :: items =>
    match f.read item with
    | .error e => .error e
    | .ok update => (readItems fields items).map (update :: ·)
  | _, _ => .ok []

def ofItems (s : Shape ρ) (items : List Value) : Except ReadError ρ :=
  match readItems s.fields items with
  | .error e => .error e
  | .ok updates =>
    if items.length < s.fields.length then
      .error (.tooFewItems items.length s.name s.fields.length)
    else if s.fields.length < items.length then .error (.tooManyItems items.length)
    else .ok (s.fill updates)

def ofValue (s : Shape ρ) : Value → Except ReadError ρ
  | .object written => s.ofMembers (Value.members written)
  | .sequence items => s.ofItems items
  | found => .error (.wrongType found ("struct " ++ s.name))

end Shape

end Record

end LineTally
