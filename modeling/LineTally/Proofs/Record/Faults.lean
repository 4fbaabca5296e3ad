import LineTally.Proofs.Record.Members
import LineTally.Record.Shape
import Mathlib.Data.List.Find
import Mathlib.Data.List.Forall2

/-!
# What is reported of a record

Many things can be wrong with a value at once, and one of them is reported. This file says which,
for a record of any shape.

An object is read in two passes. The first one goes through its members, which are in the order of
their **names**, and stops at the first that cannot be read; the second one goes through the fields
in the order in which they are **declared**, and stops at the first that is missing. So there are
two orders, and every bad value comes before every missing one (`failure?_ofValue_object`). A
sequence is read in one pass, in the order of the declaration, and its length is looked at
afterwards (`failure?_ofValue_sequence`). Beside each of these stands when there is no fault, and
which record is read then.

Both readings try one value after the other until one fails. That is `List.mapM`, and the two facts
about it that are needed are in the first section.
-/

set_option autoImplicit false

namespace LineTally

/-! ## 1. Until one fails -/

/-- What went wrong, if anything did. -/
def failure? {ε α : Type} : Except ε α → Option ε
  | .error e => some e
  | .ok _ => none

/-- The first of several faults that is one. -/
def firstOf {ε : Type} (faults : List (Option ε)) : Option ε := faults.findSome? id

section MapM

variable {ε α β : Type} {f : α → Except ε β} {l : List α} {e : ε}

theorem map_eq_ok_iff {g : α → β} {result : Except ε α} {b : β} :
    result.map g = .ok b ↔ ∃ a, result = .ok a ∧ g a = b := by
  cases result <;> simp [Except.map]

theorem failure?_map (g : α → β) (result : Except ε α) :
    failure? (result.map g) = failure? result := by
  cases result <;> rfl

theorem firstOf_cons (fault : Option ε) (faults : List (Option ε)) :
    firstOf (fault :: faults) = fault.or (firstOf faults) := by
  cases fault <;> rfl

theorem firstOf_append (faults more : List (Option ε)) :
    firstOf (faults ++ more) = (firstOf faults).or (firstOf more) :=
  List.findSome?_append

/-- The first failure is the failure of the list. -/
theorem failure?_mapM (f : α → Except ε β) (l : List α) :
    failure? (l.mapM f) = firstOf (l.map fun a => failure? (f a)) := by
  induction l with
  | nil => rfl
  | cons a l ih =>
    rw [List.mapM_cons, List.map_cons, firstOf_cons, ← ih]
    cases f a with
    | error e => rfl
    | ok b =>
      cases l.mapM f with
      | error e => rfl
      | ok bs => rfl

/-- Success on a list is success on each element. -/
theorem mapM_eq_ok_iff {bs : List β} :
    l.mapM f = .ok bs ↔ List.Forall₂ (fun a b => f a = .ok b) l bs := by
  induction l generalizing bs with
  | nil => simp [pure, Except.pure, eq_comm]
  | cons a l ih =>
    rw [List.mapM_cons, List.forall₂_cons_left_iff]
    simp only [← ih]
    cases f a with
    | error e' => simp [bind, Except.bind]
    | ok b =>
      cases l.mapM f with
      | error e' => simp [bind, Except.bind]
      | ok bs' => simp [bind, Except.bind, pure, Except.pure, eq_comm]

end MapM

namespace Record

variable {ρ : Type} {s : Shape ρ} {order : List (Field ρ)} {written : List (String × Value)}
  {items : List Value} {r : ρ}

/-! ## 2. The members that fields ask for -/

/-- The error of a field that cannot be read from what an object says under its name. -/
def Field.bad? (f : Field ρ) (written : List (String × Value)) : Option ReadError :=
  (Value.member? written f.name).bind fun v => failure? (f.read v)

/-- The error of a field with this name when an object says nothing about it. -/
def missing? (written : List (String × Value)) (name : String) : Option ReadError :=
  if (Value.member? written name).isNone then some (.missingField name) else none

/-- The fields that an object says something about, with what it says. -/
def present (written : List (String × Value)) (fields : List (Field ρ)) :
    List (Field ρ × Value) :=
  fields.filterMap fun f => (Value.member? written f.name).map fun v => (f, v)

/-- What is read for a field goes by the name of the field. -/
def readNamed (p : Field ρ × Value) : Except ReadError (String × (ρ → ρ)) :=
  (p.1.read p.2).map fun update => (p.1.name, update)

/-- **The fields of a shape in the order of their names**, which is another one than that of the
declaration. No two fields have the same name. -/
structure Shape.Visits (s : Shape ρ) (order : List (Field ρ)) : Prop where
  perm : order.Perm s.fields
  ascending : order.Pairwise fun f g => f.name < g.name

theorem Shape.Visits.find?_eq_some_iff (h : s.Visits order) {name : String} {f : Field ρ} :
    s.fields.find? (fun f => f.name = name) = some f ↔ f ∈ order ∧ f.name = name := by
  have hnodup : (s.fields.map Field.name).Nodup := by
    rw [← (h.perm.map Field.name).nodup_iff]
    refine List.pairwise_map.mpr (h.ascending.imp fun hlt heq => ?_)
    exact String.lt_irrefl _ (heq ▸ hlt)
  rw [h.perm.mem_iff]
  constructor
  · intro hf
    exact ⟨List.mem_of_find?_eq_some hf, by simpa using List.find?_some hf⟩
  · intro hf
    obtain ⟨hmem, hname⟩ := hf
    have hfound : (s.fields.find? fun f => f.name = name).isSome :=
      List.find?_isSome.mpr ⟨f, hmem, by simpa using hname⟩
    obtain ⟨g, hg⟩ := Option.isSome_iff_exists.mp hfound
    have hgname : g.name = name := by simpa using List.find?_some hg
    rw [hg, List.inj_on_of_nodup_map hnodup (List.mem_of_find?_eq_some hg) hmem
      (hgname.trans hname.symm)]

/-- Members that no field asks for are passed over. -/
theorem readMembers_eq_mapM (s : Shape ρ) (members : List (String × Value)) :
    s.readMembers members = (members.filterMap fun p =>
      (s.fields.find? fun f => f.name = p.1).map fun f => (f, p.2)).mapM readNamed := by
  induction members with
  | nil => rfl
  | cons p members ih =>
    obtain ⟨name, value⟩ := p
    rw [Shape.readMembers, List.filterMap_cons]
    cases hfind : s.fields.find? fun f => f.name = name with
    | none => exact ih
    | some f =>
      have hname : f.name = name := by simpa using List.find?_some hfind
      simp only [Option.map_some, List.mapM_cons, ← ih, readNamed]
      cases f.read value with
      | error e => rfl
      | ok update =>
        cases s.readMembers members with
        | error e => rfl
        | ok updates => simp [Except.map, bind, Except.bind, pure, Except.pure, hname]

/-- **The members are visited in the order of the names of their fields.** Which members there are
and in which order they were written makes no difference but for what the object says. -/
theorem readMembers_members (h : s.Visits order) (written : List (String × Value)) :
    s.readMembers (Value.members written) = (present written order).mapM readNamed := by
  rw [readMembers_eq_mapM]
  congr 1
  -- Both lists are fields with their values, in the order of names: the same elements are enough.
  refine Value.eq_of_ascending (fun p => p.1.name) ?_ ?_ fun p => ?_
  · rw [List.pairwise_filterMap]
    refine (Value.members_ascending written).imp fun hlt => ?_
    intro a ha b hb
    obtain ⟨f, hf, rfl⟩ := Option.map_eq_some_iff.mp ha
    obtain ⟨g, hg, rfl⟩ := Option.map_eq_some_iff.mp hb
    rw [h.find?_eq_some_iff] at hf hg
    rw [hf.2, hg.2]
    exact hlt
  · rw [present, List.pairwise_filterMap]
    refine h.ascending.imp fun hlt => ?_
    intro a ha b hb
    obtain ⟨v, _, rfl⟩ := Option.map_eq_some_iff.mp ha
    obtain ⟨w, _, rfl⟩ := Option.map_eq_some_iff.mp hb
    exact hlt
  · obtain ⟨f, v⟩ := p
    simp only [present, List.mem_filterMap, Option.map_eq_some_iff, Prod.mk.injEq,
      h.find?_eq_some_iff, Value.mem_members_iff]
    constructor
    · intro hp
      obtain ⟨⟨name, value⟩, hmember, g, ⟨hg, rfl⟩, rfl, rfl⟩ := hp
      exact ⟨g, hg, value, hmember, rfl, rfl⟩
    · intro hp
      obtain ⟨g, hg, value, hmember, rfl, rfl⟩ := hp
      exact ⟨(g.name, value), hmember, g, ⟨hg, rfl⟩, rfl, rfl⟩

/-- What is read goes to the record without the names. -/
theorem mapM_readNamed (ps : List (Field ρ × Value)) :
    (ps.mapM readNamed).map (List.map Prod.snd) = ps.mapM fun p => p.1.read p.2 := by
  induction ps with
  | nil => rfl
  | cons p ps ih =>
    simp only [List.mapM_cons, ← ih, readNamed]
    cases p.1.read p.2 with
    | error e => rfl
    | ok update =>
      cases ps.mapM readNamed with
      | error e => rfl
      | ok named => rfl

/-- What was read goes by the names of the fields. -/
theorem map_fst_of_readNamed {named : List (String × (ρ → ρ))} {ps : List (Field ρ × Value)}
    (h : ps.mapM readNamed = .ok named) : named.map Prod.fst = ps.map fun p => p.1.name := by
  rw [mapM_eq_ok_iff] at h
  induction h with
  | nil => rfl
  | @cons p u ps us hp _ ih =>
    obtain ⟨update, _, rfl⟩ := map_eq_ok_iff.mp hp
    rw [List.map_cons, List.map_cons, ih]

/-- The fields that were read are those that the object says something about. -/
theorem any_name_eq {named : List (String × (ρ → ρ))} {f : Field ρ}
    (h : (present written order).mapM readNamed = .ok named) (hf : f ∈ order) :
    named.any (fun u => u.1 = f.name) = (Value.member? written f.name).isSome := by
  have hmem : named.any (fun u => u.1 = f.name) = true ↔ f.name ∈ named.map Prod.fst := by
    simp
  rw [Bool.eq_iff_iff, hmem, map_fst_of_readNamed h, Option.isSome_iff_exists]
  simp only [present, List.mem_map, List.mem_filterMap, Option.map_eq_some_iff]
  constructor
  · intro hname
    obtain ⟨p, ⟨g, _, v, hv, rfl⟩, hname⟩ := hname
    exact ⟨v, hname ▸ hv⟩
  · intro hv
    obtain ⟨v, hv⟩ := hv
    exact ⟨(f, v), ⟨f, hf, v, hv, rfl⟩, rfl⟩

/-! ## 3. Objects -/

/-- A fault of a field that the object is silent about is none. -/
theorem firstOf_present (written : List (String × Value)) (fields : List (Field ρ)) :
    firstOf ((present written fields).map fun p => failure? (p.1.read p.2)) =
      firstOf (fields.map (·.bad? written)) := by
  induction fields with
  | nil => rfl
  | cons f fields ih =>
    rw [present, List.filterMap_cons, List.map_cons, firstOf_cons, ← ih, Field.bad?]
    cases Value.member? written f.name with
    | none => rfl
    | some v => exact firstOf_cons _ _

theorem firstOf_missing? (written : List (String × Value)) (fields : List (Field ρ)) :
    firstOf (fields.map fun f => missing? written f.name) =
      (fields.find? fun f => (Value.member? written f.name).isNone).map
        fun f => .missingField f.name := by
  induction fields with
  | nil => rfl
  | cons f fields ih =>
    rw [List.map_cons, firstOf_cons, ih, missing?, List.find?_cons]
    cases Value.member? written f.name with
    | none => rfl
    | some v => rfl

/-- The two passes over an object. -/
theorem ofValue_object (h : s.Visits order) (written : List (String × Value)) :
    s.ofValue (.object written) =
      match (present written order).mapM fun p => p.1.read p.2 with
      | .error e => .error e
      | .ok updates =>
        match firstOf (s.fields.map fun f => missing? written f.name) with
        | some e => .error e
        | none => .ok (s.fill updates) := by
  rw [Shape.ofValue, Shape.ofMembers, readMembers_members h, ← mapM_readNamed]
  cases hread : (present written order).mapM readNamed with
  | error e => rfl
  | ok named =>
    have hmissing : (s.fields.find? fun f => !named.any fun u => u.1 = f.name) =
        s.fields.find? fun f => (Value.member? written f.name).isNone := by
      refine List.find?_congr fun f hf => ?_
      rw [any_name_eq hread (h.perm.mem_iff.mpr hf), Option.not_isSome]
    dsimp only
    rw [hmissing, firstOf_missing?]
    cases s.fields.find? fun f => (Value.member? written f.name).isNone with
    | none => rfl
    | some f => rfl

/-- **The first fault of an object** is the first field, in the order of names, that cannot be read,
and only if there is none the first field, in the order of the declaration, that is missing. -/
theorem failure?_ofValue_object (h : s.Visits order) (written : List (String × Value)) :
    failure? (s.ofValue (.object written)) =
      firstOf (order.map (·.bad? written) ++ s.fields.map fun f => missing? written f.name) := by
  rw [ofValue_object h, firstOf_append, ← firstOf_present, ← failure?_mapM]
  cases (present written order).mapM fun p => p.1.read p.2 with
  | error e => rfl
  | ok updates =>
    cases firstOf (s.fields.map fun f => missing? written f.name) with
    | none => rfl
    | some e => rfl

/-- A field has what it reads from what an object says under its name. -/
def Field.Gives (f : Field ρ) (written : List (String × Value)) (update : ρ → ρ) : Prop :=
  ∃ v, Value.member? written f.name = some v ∧ f.read v = .ok update

/-- Fields that are all there and can all be read are fields of which each has what it reads. -/
theorem forall₂_gives_iff {fields : List (Field ρ)} {updates : List (ρ → ρ)} :
    List.Forall₂ (fun f update => f.Gives written update) fields updates ↔
      (∀ f ∈ fields, (Value.member? written f.name).isSome) ∧
        List.Forall₂ (fun p update => p.1.read p.2 = .ok update) (present written fields)
          updates := by
  induction fields generalizing updates with
  | nil => simp [present]
  | cons f fields ih =>
    rw [List.forall₂_cons_left_iff, List.forall_mem_cons, present, List.filterMap_cons, ← present]
    cases hv : Value.member? written f.name with
    | none =>
      -- The field is missing, and there is nothing that it could have.
      have hnothing : ∀ update, ¬f.Gives written update := by simp [Field.Gives, hv]
      simp [hnothing]
    | some v =>
      have hgives : ∀ update, f.Gives written update ↔ f.read v = .ok update := by
        simp [Field.Gives, hv]
      simp only [hgives, ih, Option.map_some, Option.isSome_some, true_and,
        List.forall₂_cons_left_iff]
      grind

/-- **An object is a record** when it has all fields and each can be read. -/
theorem ofValue_object_eq_ok_iff (h : s.Visits order) :
    s.ofValue (.object written) = .ok r ↔
      ∃ updates, List.Forall₂ (fun f update => f.Gives written update) order updates ∧
        s.fill updates = r := by
  have hthere : firstOf (s.fields.map fun f => missing? written f.name) = none ↔
      ∀ f ∈ order, (Value.member? written f.name).isSome := by
    simp [firstOf_missing?, h.perm.mem_iff, Option.isSome_iff_ne_none]
  simp only [forall₂_gives_iff, ← hthere, ← mapM_eq_ok_iff]
  rw [ofValue_object h]
  cases (present written order).mapM fun p => p.1.read p.2 with
  | error e => simp
  | ok updates =>
    cases firstOf (s.fields.map fun f => missing? written f.name) with
    | none => simp
    | some e => simp

/-! ## 4. Sequences -/

/-- The fault in the length of a sequence, for a record with so many fields. -/
def lengthFault? (record : String) (fields count : Nat) : Option ReadError :=
  if count < fields then some (.tooFewItems count record fields)
  else if fields < count then some (.tooManyItems count)
  else none

theorem lengthFault?_eq_none_iff (record : String) {fields count : Nat} :
    lengthFault? record fields count = none ↔ count = fields := by
  rw [lengthFault?]
  split
  · next hshort => simp [hshort.ne]
  · split
    · next hlong => simp [hlong.ne']
    · simp only [true_iff]
      omega

/-- Items are read one by one, each for the field at its place. -/
theorem readItems_eq_mapM (fields : List (Field ρ)) (items : List Value) :
    Shape.readItems fields items = (fields.zip items).mapM fun p => p.1.read p.2 := by
  induction fields generalizing items with
  | nil => rfl
  | cons f fields ih =>
    cases items with
    | nil => rfl
    | cons item items =>
      rw [Shape.readItems, List.zip_cons_cons, List.mapM_cons, ih]
      cases f.read item with
      | error e => rfl
      | ok update =>
        cases (fields.zip items).mapM fun p => p.1.read p.2 with
        | error e => rfl
        | ok updates => rfl

/-- The pass over a sequence, and what is looked at afterwards. -/
theorem ofItems_eq (s : Shape ρ) (items : List Value) :
    s.ofItems items =
      match (s.fields.zip items).mapM fun p => p.1.read p.2 with
      | .error e => .error e
      | .ok updates =>
        match lengthFault? s.name s.fields.length items.length with
        | some e => .error e
        | none => .ok (s.fill updates) := by
  rw [Shape.ofItems, readItems_eq_mapM, lengthFault?]
  cases (s.fields.zip items).mapM fun p => p.1.read p.2 with
  | error e => rfl
  | ok updates =>
    dsimp only
    split
    · rfl
    · split <;> rfl

/-- **The first fault of a sequence** is the first item that cannot be read, and only if there is
none the length. -/
theorem failure?_ofValue_sequence (s : Shape ρ) (items : List Value) :
    failure? (s.ofValue (.sequence items)) =
      firstOf (((s.fields.zip items).map fun p => failure? (p.1.read p.2)) ++
        [lengthFault? s.name s.fields.length items.length]) := by
  rw [Shape.ofValue, ofItems_eq, firstOf_append, ← failure?_mapM]
  cases (s.fields.zip items).mapM fun p => p.1.read p.2 with
  | error e => rfl
  | ok updates =>
    cases lengthFault? s.name s.fields.length items.length with
    | none => rfl
    | some e => rfl

/-- **A sequence is a record** when it has an item for each field, which can be read, and no
other. -/
theorem ofValue_sequence_eq_ok_iff :
    s.ofValue (.sequence items) = .ok r ↔
      ∃ updates, List.Forall₂ (fun p update => p.1.read p.2 = .ok update)
        (s.fields.zip items) updates ∧ items.length = s.fields.length ∧ s.fill updates = r := by
  simp only [← mapM_eq_ok_iff, ← lengthFault?_eq_none_iff s.name]
  rw [Shape.ofValue, ofItems_eq]
  cases (s.fields.zip items).mapM fun p => p.1.read p.2 with
  | error e => simp
  | ok updates =>
    cases lengthFault? s.name s.fields.length items.length with
    | none => simp
    | some e => simp

end Record

end LineTally
