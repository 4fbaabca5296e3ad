import LineTally.Proofs.Line.Words
import LineTally.Proofs.Record.Faults
import LineTally.Record.Results

/-!
# Results in and out of records

A result is always written in one form and may be read from several. This file says from which, for
counts, tallies and kinds of lines, and what is reported of a value that is in none of them.

* `WrittenAs` says of a value that it is a form of a result: it mentions the names and the places of
  the fields and nothing of how a record is read. `ofValue_eq_ok_iff` is the statement that exactly
  these values are read, each as the result it is a form of.
* The form in which a result is written is one of its forms, so it is read back
  (`Stored.of_accepts`). This needs numbers that are words: a larger one would be written as another
  number.
* Of a value that is no form of a result the faults are listed, and the first of the list is
  reported (`first_fault_reported`). The list of an object is in two orders, that of the names for
  bad members and that of the declaration for missing ones.
-/

set_option autoImplicit false

namespace LineTally

variable {written : List (String × Value)} {items : List Value} {v : Value}

namespace Record

/-! ## 1. Fields -/

theorem readNatural_eq_ok_iff {n : Nat} :
    readNatural v = .ok n ↔ n < UInt64.size ∧ v = .ofNat n := by
  have hword : ∀ w : UInt64, w.toNat = n ↔ n < UInt64.size ∧ w = UInt64.ofNat n := by
    intro w
    constructor
    · intro h
      exact ⟨h ▸ w.toNat_lt_size, by rw [← h, UInt64.ofNat_toNat]⟩
    · intro h
      rw [h.2, UInt64.toNat_ofNat_of_lt' h.1]
  cases v with
  | number number =>
    cases number with
    | natural w => simp [readNatural, Value.ofNat, hword]
    | negative n => simp [readNatural, Value.ofNat]
    | floating x => simp [readNatural, Value.ofNat]
  | null | boolean | text | sequence | object => simp [readNatural, Value.ofNat]

/-- What is wrong with a value where a word is asked for. -/
def wordFault? : Value → Option ReadError
  | .number (.natural _) => none
  | .number (.negative n) => some (.negative n)
  | found => some (.wrongType found "u64")

theorem failure?_readNatural (v : Value) : failure? (readNatural v) = wordFault? v := by
  cases v with
  | number number => cases number <;> rfl
  | null | boolean | text | sequence | object => rfl

section NaturalField

variable {ρ : Type} {name : String} {put : Nat → ρ → ρ} {update : ρ → ρ}

theorem read_naturalField_eq_ok_iff :
    (naturalField name put).read v = .ok update ↔
      ∃ n, n < UInt64.size ∧ v = .ofNat n ∧ put n = update := by
  have hread : (naturalField name put).read v = (readNatural v).map put := rfl
  simp only [hread, map_eq_ok_iff, readNatural_eq_ok_iff, and_assoc]

theorem gives_naturalField_iff :
    (naturalField name put).Gives written update ↔
      ∃ n, n < UInt64.size ∧ Value.member? written name = some (.ofNat n) ∧ put n = update := by
  simp only [Field.Gives, read_naturalField_eq_ok_iff]
  constructor
  · intro h
    obtain ⟨v, hv, n, hn, rfl, hput⟩ := h
    exact ⟨n, hn, hv, hput⟩
  · intro h
    obtain ⟨n, hn, hv, hput⟩ := h
    exact ⟨.ofNat n, hv, n, hn, rfl, hput⟩

theorem failure?_read_naturalField (v : Value) :
    failure? ((naturalField name put).read v) = wordFault? v :=
  (failure?_map put (readNatural v)).trans (failure?_readNatural v)

theorem bad?_naturalField :
    (naturalField name put).bad? written = (Value.member? written name).bind wordFault? := by
  simp only [Field.bad?, failure?_read_naturalField]
  rfl

end NaturalField

/-! ## 2. Records of three fields -/

section ThreeFields

variable {ρ : Type} {s : Shape ρ} {f g h : Field ρ} {r : ρ}

theorem ofValue_object_of_three (hvisits : s.Visits [f, g, h]) :
    s.ofValue (.object written) = .ok r ↔
      ∃ a b c, f.Gives written a ∧ g.Gives written b ∧ h.Gives written c ∧
        s.fill [a, b, c] = r := by
  rw [ofValue_object_eq_ok_iff hvisits]
  simp only [List.forall₂_cons_left_iff, List.forall₂_nil_left_iff]
  constructor
  · intro hread
    obtain ⟨_, ⟨a, _, ha, ⟨b, _, hb, ⟨c, _, hc, rfl, rfl⟩, rfl⟩, rfl⟩, hfill⟩ := hread
    exact ⟨a, b, c, ha, hb, hc, hfill⟩
  · intro hread
    obtain ⟨a, b, c, ha, hb, hc, hfill⟩ := hread
    exact ⟨_, ⟨a, _, ha, ⟨b, _, hb, ⟨c, _, hc, rfl, rfl⟩, rfl⟩, rfl⟩, hfill⟩

theorem ofValue_sequence_of_three (hfields : s.fields = [f, g, h]) :
    s.ofValue (.sequence items) = .ok r ↔
      ∃ x y z, items = [x, y, z] ∧ ∃ a b c, f.read x = .ok a ∧ g.read y = .ok b ∧
        h.read z = .ok c ∧ s.fill [a, b, c] = r := by
  rw [ofValue_sequence_eq_ok_iff, hfields]
  constructor
  · intro hread
    obtain ⟨updates, hread, hlength, hfill⟩ := hread
    obtain ⟨x, y, z, rfl⟩ := List.length_eq_three.mp hlength
    simp only [List.zip_cons_cons, List.zip_nil_left, List.forall₂_cons_left_iff,
      List.forall₂_nil_left_iff] at hread
    obtain ⟨a, _, ha, ⟨b, _, hb, ⟨c, _, hc, rfl, rfl⟩, rfl⟩, rfl⟩ := hread
    exact ⟨x, y, z, rfl, a, b, c, ha, hb, hc, hfill⟩
  · intro hread
    obtain ⟨x, y, z, rfl, a, b, c, ha, hb, hc, hfill⟩ := hread
    exact ⟨[a, b, c], .cons ha (.cons hb (.cons hc .nil)), rfl, hfill⟩

theorem failure?_sequence_of_three (hfields : s.fields = [f, g, h]) (items : List Value) :
    failure? (s.ofValue (.sequence items)) =
      firstOf [items[0]?.bind fun v => failure? (f.read v),
        items[1]?.bind fun v => failure? (g.read v),
        items[2]?.bind fun v => failure? (h.read v), lengthFault? s.name 3 items.length] := by
  rw [failure?_ofValue_sequence, hfields]
  match items with
  | [] => rfl
  | [_] => rfl
  | [_, _] => rfl
  | _ :: _ :: _ :: _ => rfl

end ThreeFields

end Record

open Record

/-! ## 3. The forms of results -/

namespace Counts

/-- The fields of counts in the order of their names. -/
def byName : List (Record.Field Counts) :=
  [naturalField "blanks" fun n c => { c with blanks := n },
   naturalField "code" fun n c => { c with code := n },
   naturalField "comments" fun n c => { c with comments := n }]

theorem visits : shape.Visits byName where
  perm := (List.Perm.swap _ _ _).cons _
  ascending := by
    have hnames : ["blanks", "code", "comments"].Pairwise (· < ·) := by decide +kernel
    exact List.pairwise_map.mp hnames

/-- **The forms of counts**: an object in which each count is under its name, or a sequence of the
blank, the comment and the code lines. -/
def WrittenAs (c : Counts) : Value → Prop
  | .object written =>
    Value.member? written "blanks" = some (.ofNat c.blanks) ∧
      Value.member? written "comments" = some (.ofNat c.comments) ∧
      Value.member? written "code" = some (.ofNat c.code)
  | .sequence items => items = [.ofNat c.blanks, .ofNat c.comments, .ofNat c.code]
  | _ => False

theorem ofValue_eq_ok_iff (v : Value) (c : Counts) :
    ofValue v = .ok c ↔ c.Fits ∧ c.WrittenAs v := by
  rw [ofValue]
  cases v with
  | object written =>
    rw [ofValue_object_of_three visits]
    simp only [gives_naturalField_iff]
    constructor
    · intro h
      obtain ⟨_, _, _, ⟨b, hb, hblanks, rfl⟩, ⟨k, hk, hcode, rfl⟩, ⟨m, hm, hcomments, rfl⟩,
        rfl⟩ := h
      exact ⟨⟨hb, hm, hk⟩, hblanks, hcomments, hcode⟩
    · intro h
      obtain ⟨⟨hb, hm, hk⟩, hblanks, hcomments, hcode⟩ := h
      exact ⟨_, _, _, ⟨c.blanks, hb, hblanks, rfl⟩, ⟨c.code, hk, hcode, rfl⟩,
        ⟨c.comments, hm, hcomments, rfl⟩, rfl⟩
  | sequence items =>
    rw [ofValue_sequence_of_three rfl]
    simp only [read_naturalField_eq_ok_iff]
    constructor
    · intro h
      obtain ⟨_, _, _, rfl, _, _, _, ⟨b, hb, rfl, rfl⟩, ⟨m, hm, rfl, rfl⟩, ⟨k, hk, rfl, rfl⟩,
        rfl⟩ := h
      exact ⟨⟨hb, hm, hk⟩, rfl⟩
    · intro h
      obtain ⟨⟨hb, hm, hk⟩, hitems⟩ := h
      exact ⟨_, _, _, hitems, _, _, _, ⟨c.blanks, hb, rfl, rfl⟩, ⟨c.comments, hm, rfl, rfl⟩,
        ⟨c.code, hk, rfl, rfl⟩, rfl⟩
  | null | boolean | number | text => simp [Shape.ofValue, WrittenAs]

theorem writtenAs_toValue (c : Counts) : c.WrittenAs c.toValue := ⟨rfl, rfl, rfl⟩

end Counts

namespace Tally

def linesField : Record.Field Tally :=
  ⟨"lines", fun v => (Counts.ofValue v).map fun c t => { t with lines := c }⟩

theorem gives_linesField_iff {update : Tally → Tally} :
    linesField.Gives written update ↔
      ∃ v, Value.member? written "lines" = some v ∧
        ∃ c, (c.Fits ∧ c.WrittenAs v) ∧ (fun t : Tally => { t with lines := c }) = update := by
  simp only [linesField, Record.Field.Gives, map_eq_ok_iff, Counts.ofValue_eq_ok_iff]

theorem bad?_linesField :
    linesField.bad? written =
      (Value.member? written "lines").bind fun v => failure? (Counts.ofValue v) := by
  simp only [linesField, Record.Field.bad?, failure?_map]

/-- The fields of a tally in the order of their names. -/
def byName : List (Record.Field Tally) :=
  [linesField,
   naturalField "total_files" fun n t => { t with found := n },
   naturalField "unique_files" fun n t => { t with distinct := n }]

theorem visits : shape.Visits byName where
  perm := by
    refine (List.Perm.swap _ _ _).trans ?_
    exact (List.Perm.swap _ _ _).cons _
  ascending := by
    have hnames : ["lines", "total_files", "unique_files"].Pairwise (· < ·) := by decide +kernel
    exact List.pairwise_map.mp hnames

/-- **The forms of a tally**: an object in which the numbers and a form of the counts are under
their names, or a sequence of them. -/
def WrittenAs (t : Tally) : Value → Prop
  | .object written =>
    Value.member? written "total_files" = some (.ofNat t.found) ∧
      Value.member? written "unique_files" = some (.ofNat t.distinct) ∧
      ∃ v, Value.member? written "lines" = some v ∧ t.lines.WrittenAs v
  | .sequence items =>
    ∃ v, items = [.ofNat t.found, .ofNat t.distinct, v] ∧ t.lines.WrittenAs v
  | _ => False

theorem ofValue_eq_ok_iff (v : Value) (t : Tally) :
    ofValue v = .ok t ↔ t.Fits ∧ t.WrittenAs v := by
  rw [ofValue]
  cases v with
  | object written =>
    rw [ofValue_object_of_three visits]
    simp only [gives_naturalField_iff, gives_linesField_iff]
    constructor
    · intro h
      obtain ⟨_, _, _, ⟨v, hv, c, ⟨hc, hlines⟩, rfl⟩, ⟨n, hn, hfound, rfl⟩,
        ⟨m, hm, hdistinct, rfl⟩, rfl⟩ := h
      exact ⟨⟨hn, hm, hc⟩, hfound, hdistinct, v, hv, hlines⟩
    · intro h
      obtain ⟨⟨hn, hm, hc⟩, hfound, hdistinct, v, hv, hlines⟩ := h
      exact ⟨_, _, _, ⟨v, hv, t.lines, ⟨hc, hlines⟩, rfl⟩, ⟨t.found, hn, hfound, rfl⟩,
        ⟨t.distinct, hm, hdistinct, rfl⟩, rfl⟩
  | sequence items =>
    rw [ofValue_sequence_of_three rfl]
    simp only [read_naturalField_eq_ok_iff, map_eq_ok_iff, Counts.ofValue_eq_ok_iff]
    constructor
    · intro h
      obtain ⟨_, _, v, rfl, _, _, _, ⟨n, hn, rfl, rfl⟩, ⟨m, hm, rfl, rfl⟩, ⟨c, ⟨hc, hlines⟩, rfl⟩,
        rfl⟩ := h
      exact ⟨⟨hn, hm, hc⟩, v, rfl, hlines⟩
    · intro h
      obtain ⟨⟨hn, hm, hc⟩, v, hitems, hlines⟩ := h
      exact ⟨_, _, v, hitems, _, _, _, ⟨t.found, hn, rfl, rfl⟩, ⟨t.distinct, hm, rfl, rfl⟩,
        ⟨t.lines, ⟨hc, hlines⟩, rfl⟩, rfl⟩
  | null | boolean | number | text => simp [Shape.ofValue, WrittenAs]

theorem writtenAs_toValue (t : Tally) : t.WrittenAs t.toValue :=
  ⟨rfl, rfl, _, rfl, t.lines.writtenAs_toValue⟩

end Tally

namespace Line.Kind

/-- **The forms of a kind of line**: its name, or an object that says null under its name and
nothing else. -/
def WrittenAs (k : Line.Kind) : Value → Prop
  | .text s => s = k.name
  | .object written =>
    ∀ other, Value.member? written other = if other = k.name then some .null else none
  | _ => False

theorem ofName_name (k : Line.Kind) : ofName k.name = .ok k := by
  cases k <;> simp [ofName, name]

theorem ofName_eq_ok_iff {s : String} {k : Line.Kind} : ofName s = .ok k ↔ s = k.name := by
  constructor
  · intro h
    unfold ofName at h
    split at h
    · cases h
      assumption
    · split at h
      · cases h
        assumption
      · split at h
        · cases h
          assumption
        · cases h
  · intro h
    rw [h, ofName_name]

theorem ofValue_eq_ok_iff (v : Value) (k : Line.Kind) : ofValue v = .ok k ↔ k.WrittenAs v := by
  cases v with
  | text s => exact ofName_eq_ok_iff
  | object written =>
    rw [WrittenAs, ← Value.members_eq_singleton_iff, ofValue]
    split
    · next s hone => simp [hone, ofName_eq_ok_iff]
    · next s found hfound hone =>
      have hother : [(s, found)] ≠ [(k.name, .null)] := by
        intro h
        cases h
        exact hfound rfl
      rw [hone]
      cases ofName s with
      | error e => simp [hother]
      | ok _ => simp [hother]
    · next hmany =>
      have hnot : Value.members written ≠ [(k.name, .null)] := fun hone => hmany _ _ hone
      simp [hnot]
  | null | boolean | number | sequence => simp [ofValue, WrittenAs]

end Line.Kind

/-! ## 4. What is accepted and what is written -/

/-- **How results are stored.** A value is read exactly when it is a form of some result, and as
that result; what is written is read back; and what was read and written again stays as it is. -/
structure Stored {α : Type} (read : Value → Except ReadError α) (write : α → Value)
    (fits : α → Prop) (writtenAs : α → Value → Prop) : Prop where
  accepts : ∀ v a, read v = .ok a ↔ fits a ∧ writtenAs a v
  survives : ∀ a, fits a → read (write a) = .ok a
  settles : ∀ v v', (read v).map write = .ok v' → (read v').map write = .ok v'

/-- It is enough that the form in which a result is written is one of its forms. -/
theorem Stored.of_accepts {α : Type} {read : Value → Except ReadError α} {write : α → Value}
    {fits : α → Prop} {writtenAs : α → Value → Prop}
    (haccepts : ∀ v a, read v = .ok a ↔ fits a ∧ writtenAs a v)
    (hwritten : ∀ a, writtenAs a (write a)) : Stored read write fits writtenAs := by
  have hsurvives : ∀ a, fits a → read (write a) = .ok a := by
    intro a hfits
    exact (haccepts (write a) a).mpr ⟨hfits, hwritten a⟩
  refine ⟨haccepts, hsurvives, fun v v' hv => ?_⟩
  obtain ⟨a, ha, rfl⟩ := map_eq_ok_iff.mp hv
  rw [hsurvives a ((haccepts v a).mp ha).1]
  rfl

/-- What a value says under a name; nothing unless it is an object. -/
def Value.under? : Value → String → Option Value
  | .object written, name => Value.member? written name
  | _, _ => none

/-- **Results are stored faithfully**, each in one form and under the names that are declared for
it, whatever the form in which it was read. -/
theorem results_stored :
    Stored Counts.ofValue Counts.toValue Counts.Fits Counts.WrittenAs ∧
    Stored Tally.ofValue Tally.toValue Tally.Fits Tally.WrittenAs ∧
    Stored Line.Kind.ofValue Line.Kind.toValue (fun _ => True) Line.Kind.WrittenAs ∧
    (∀ (c : Counts) (name : String),
      (c.toValue.under? name).isSome ↔ name ∈ ["blanks", "comments", "code"]) ∧
    (∀ (t : Tally) (name : String),
      (t.toValue.under? name).isSome ↔ name ∈ ["total_files", "unique_files", "lines"]) ∧
    (∀ t : Tally, t.toValue.under? "lines" = some t.lines.toValue) ∧
    (∀ k : Line.Kind, k.toValue = .text k.name) ∧
    ∀ name, (∃ k : Line.Kind, k.name = name) ↔ name ∈ ["Blank", "Comment", "Code"] := by
  refine ⟨?counts, ?tally, ?kind, ?countsNames, ?tallyNames, ?lines, fun _ => rfl, ?kindNames⟩
  case counts => exact .of_accepts Counts.ofValue_eq_ok_iff Counts.writtenAs_toValue
  case tally => exact .of_accepts Tally.ofValue_eq_ok_iff Tally.writtenAs_toValue
  case kind =>
    refine .of_accepts (fun v k => ?_) fun _ => rfl
    rw [true_and, Line.Kind.ofValue_eq_ok_iff]
  case countsNames => exact fun _ _ => Value.isSome_member?_iff
  case tallyNames => exact fun _ _ => Value.isSome_member?_iff
  case lines => exact fun _ => rfl
  case kindNames =>
    intro name
    constructor
    · intro h
      obtain ⟨k, rfl⟩ := h
      cases k <;> simp [Line.Kind.name]
    · intro h
      simp only [List.mem_cons, List.not_mem_nil, or_false] at h
      rcases h with rfl | rfl | rfl
      · exact ⟨.blank, rfl⟩
      · exact ⟨.comment, rfl⟩
      · exact ⟨.code, rfl⟩

/-- A sequence with an object in it, whose members are in another order than they are declared and
which has one more; and the largest numbers that there are. -/
theorem results_stored_mixed :
    Tally.ofValue (.sequence [.ofNat 5, .ofNat 2, .object [("code", .ofNat 1), ("note", .null),
      ("comments", .ofNat 7), ("blanks", .ofNat 0)]]) = .ok ⟨5, 2, ⟨0, 7, 1⟩⟩ ∧
    Counts.ofValue (Counts.toValue ⟨UInt64.size - 1, 0, UInt64.size - 1⟩) =
      .ok ⟨UInt64.size - 1, 0, UInt64.size - 1⟩ :=
  ⟨(results_stored.2.1.accepts _ _).mpr ⟨by decide, _, rfl, rfl, rfl, rfl⟩,
    results_stored.1.survives _ (by decide)⟩

/-! ## 5. What is reported -/

theorem message_tooFewItems (record : String) (count : Nat) :
    (ReadError.tooFewItems count record 3).message =
      "invalid length " ++ toString count ++ ", expected struct " ++ record ++
        " with 3 elements" := by
  have hend : " with " ++ (toString 3 ++ " elements") = " with 3 elements" := by decide
  rw [← hend]
  simp only [← String.append_assoc]
  rfl

/-- **Which of several faults is reported.** Of the faults of a value it is the first in a list. An
object has its bad members in the order of their names and after them its missing ones in the order
of the declaration, so that whatever is wrong inside the lines of a tally comes first of all. A
sequence has its bad items in their order, and after them its length. -/
theorem first_fault_reported :
    (∀ written, failure? (Counts.ofValue (.object written)) =
      firstOf
        [(Value.member? written "blanks").bind wordFault?,
         (Value.member? written "code").bind wordFault?,
         (Value.member? written "comments").bind wordFault?,
         missing? written "blanks", missing? written "comments", missing? written "code"]) ∧
    (∀ written, failure? (Tally.ofValue (.object written)) =
      firstOf
        [(Value.member? written "lines").bind fun v => failure? (Counts.ofValue v),
         (Value.member? written "total_files").bind wordFault?,
         (Value.member? written "unique_files").bind wordFault?,
         missing? written "total_files", missing? written "unique_files",
         missing? written "lines"]) ∧
    (∀ items, failure? (Counts.ofValue (.sequence items)) =
      firstOf
        [items[0]?.bind wordFault?, items[1]?.bind wordFault?, items[2]?.bind wordFault?,
         lengthFault? "LineCounts" 3 items.length]) ∧
    (∀ items, failure? (Tally.ofValue (.sequence items)) =
      firstOf
        [items[0]?.bind wordFault?, items[1]?.bind wordFault?,
         items[2]?.bind fun v => failure? (Counts.ofValue v),
         lengthFault? "CountResult" 3 items.length]) ∧
    ∀ record count, (lengthFault? record 3 count).map ReadError.message =
      if count < 3 then
        some ("invalid length " ++ toString count ++ ", expected struct " ++ record ++
          " with 3 elements")
      else if 3 < count then
        some ("invalid length " ++ toString count ++ ", expected fewer elements in array")
      else none := by
  refine ⟨fun written => ?_, fun written => ?_, fun items => ?_, fun items => ?_,
    fun record count => ?_⟩
  · rw [Counts.ofValue, failure?_ofValue_object Counts.visits]
    simp only [Counts.byName, List.map_cons, List.map_nil, bad?_naturalField]
    rfl
  · rw [Tally.ofValue, failure?_ofValue_object Tally.visits]
    simp only [Tally.byName, List.map_cons, List.map_nil, Tally.bad?_linesField,
      bad?_naturalField]
    rfl
  · rw [Counts.ofValue, failure?_sequence_of_three rfl]
    simp only [failure?_read_naturalField]
    rfl
  · rw [Tally.ofValue, failure?_sequence_of_three rfl]
    simp only [failure?_read_naturalField, failure?_map]
    rfl
  · rw [lengthFault?]
    by_cases hshort : count < 3
    · rw [if_pos hshort, if_pos hshort, Option.map_some, message_tooFewItems]
    · rw [if_neg hshort, if_neg hshort]
      by_cases hlong : 3 < count
      · rw [if_pos hlong, if_pos hlong]
        rfl
      · rw [if_neg hlong, if_neg hlong]
        rfl

/-- Lines that lack a count are reported before a number of files that is none. -/
example : failure? (Tally.ofValue (.object [("total_files", .null),
    ("lines", .object [("blanks", .ofNat 1), ("comments", .ofNat 2)])])) =
      some (.missingField "code") := by
  rfl

end LineTally
