import LineTally.Record.Number

/-!
# Values of records

The values in which results are stored and exchanged: nothing, truth values, numbers, texts,
sequences, and objects with named members. The members of an object are a set: which of two with
the same name counts, and in which order they are visited, is settled once, by `members`.
-/

set_option autoImplicit false

namespace LineTally

inductive Value
  | null
  | boolean (b : Bool)
  | number (n : Number)
  | text (s : String)
  | sequence (items : List Value)
  | object (written : List (String × Value))

namespace Value

/-- Puts a member where its name belongs, in place of one that has the same name. -/
def putMember {α : Type} (name : String) (value : α) : List (String × α) → List (String × α)
  | [] => [(name, value)]
  | (name', value') :: rest =>
    if name < name' then (name, value) :: (name', value') :: rest
    else if name = name' then (name, value) :: rest
    else (name', value') :: putMember name value rest

/-- The members of an object in the order of their names: of several with one name the last that
was written. -/
def members {α : Type} (written : List (String × α)) : List (String × α) :=
  written.foldl (fun done (name, value) => putMember name value done) []

def ofNat (n : Nat) : Value := .number (.natural (UInt64.ofNat n))

end Value

end LineTally
