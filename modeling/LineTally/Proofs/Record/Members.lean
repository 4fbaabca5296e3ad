import LineTally.Record.Value
import Mathlib.Data.List.Induction
import Mathlib.Data.List.Sort

/-!
# Objects as what they say under each name

The members of an object are written in some order, and a name may be written more than once. What
counts is what the object says under a name, if anything: `member?`, the last that was written.
`Value.members` puts the same into a normal form, and this file is the two facts that make it one:

* `members_ascending` — the names of the members ascend strictly;
* `lookup_members` — looking a name up in them finds what the object says under it.

A list that ascends is known when its look-ups are (`eq_of_lookup_eq`), so nothing else can be told
from the members of an object than what it says under each name.
-/

set_option autoImplicit false

namespace LineTally.Value

variable {α : Type} {name : String} {value : α} {l l' written : List (String × α)}

/-- **What an object says under a name**: of several members with it the last that was written. -/
def member? (written : List (String × α)) (name : String) : Option α :=
  written.reverse.lookup name

/-! ## 1. Look-ups -/

theorem lookup_cons_eq (p : String × α) (l : List (String × α)) (name : String) :
    (p :: l).lookup name = if name = p.1 then some p.2 else l.lookup name := by
  rw [List.lookup_cons]
  by_cases h : name = p.1
  · simp [h]
  · rw [beq_false_of_ne h, if_neg h]

theorem member?_concat (written : List (String × α)) (p : String × α) (name : String) :
    member? (written ++ [p]) name = if name = p.1 then some p.2 else member? written name := by
  rw [member?, List.reverse_append, List.reverse_singleton, List.singleton_append, lookup_cons_eq]
  rfl

/-- An object says something under the names that are written in it. -/
theorem isSome_member?_iff : (member? written name).isSome ↔ name ∈ written.map Prod.fst := by
  rw [member?, List.lookup_isSome_iff]
  simp

/-- Putting a member in changes what is found under its name and nothing else. -/
theorem lookup_putMember (name : String) (value : α) (l : List (String × α)) (other : String) :
    (putMember name value l).lookup other =
      if other = name then some value else l.lookup other := by
  induction l with
  | nil => exact lookup_cons_eq (name, value) [] other
  | cons p rest ih =>
    obtain ⟨name', value'⟩ := p
    rw [putMember]
    split
    · exact lookup_cons_eq (name, value) _ other
    · split
      · next heq =>
        subst heq
        rw [lookup_cons_eq, lookup_cons_eq]
        split <;> rfl
      · next hne =>
        rw [lookup_cons_eq, lookup_cons_eq, ih]
        by_cases h : other = name'
        · simp [h, Ne.symm hne]
        · simp [h]

theorem members_concat (written : List (String × α)) (p : String × α) :
    members (written ++ [p]) = putMember p.1 p.2 (members written) := by
  simp [members]

/-- **The members say what the object says.** -/
theorem lookup_members (written : List (String × α)) (name : String) :
    (members written).lookup name = member? written name := by
  induction written using List.reverseRecOn with
  | nil => rfl
  | append_singleton written p ih => rw [members_concat, lookup_putMember, member?_concat, ih]

/-! ## 2. Order -/

theorem mem_putMember {p : String × α} (h : p ∈ putMember name value l) :
    p = (name, value) ∨ p ∈ l := by
  induction l with
  | nil => exact Or.inl (List.mem_singleton.mp h)
  | cons q rest ih =>
    obtain ⟨name', value'⟩ := q
    rw [putMember] at h
    split at h
    · exact List.mem_cons.mp h
    · split at h
      · rcases List.mem_cons.mp h with hp | hp
        · exact Or.inl hp
        · exact Or.inr (List.mem_cons_of_mem _ hp)
      · rcases List.mem_cons.mp h with hp | hp
        · exact Or.inr (hp ▸ List.mem_cons_self)
        · exact (ih hp).imp_right (List.mem_cons_of_mem _)

theorem putMember_ascending (h : l.Pairwise fun p q => p.1 < q.1) :
    (putMember name value l).Pairwise fun p q => p.1 < q.1 := by
  induction l with
  | nil => exact List.pairwise_singleton _ _
  | cons first rest ih =>
    obtain ⟨name', value'⟩ := first
    obtain ⟨hfirst, hrest⟩ := List.pairwise_cons.mp h
    rw [putMember]
    split
    · next hlt =>
      refine List.pairwise_cons.mpr ⟨fun p hp => ?_, h⟩
      rcases List.mem_cons.mp hp with hp | hp
      · exact hp ▸ hlt
      · exact String.lt_trans hlt (hfirst p hp)
    · next hle =>
      split
      · next heq =>
        subst heq
        exact List.pairwise_cons.mpr ⟨hfirst, hrest⟩
      · next hne =>
        refine List.pairwise_cons.mpr ⟨fun p hp => ?_, ih hrest⟩
        rcases mem_putMember hp with hp | hp
        · have hle : name' ≤ name := String.not_lt.mp hle
          exact hp ▸ Std.lt_of_le_of_ne hle (Ne.symm hne)
        · exact hfirst p hp

/-- **The names of the members ascend**, so no name is among them twice. -/
theorem members_ascending (written : List (String × α)) :
    (members written).Pairwise fun p q => p.1 < q.1 := by
  induction written using List.reverseRecOn with
  | nil => exact List.Pairwise.nil
  | append_singleton written p ih =>
    rw [members_concat]
    exact putMember_ascending ih

/-- Where the names ascend, a member is found under its name. -/
theorem mem_iff_lookup (h : l.Pairwise fun p q => p.1 < q.1) {p : String × α} :
    p ∈ l ↔ l.lookup p.1 = some p.2 := by
  induction l with
  | nil => simp
  | cons first rest ih =>
    obtain ⟨hfirst, hrest⟩ := List.pairwise_cons.mp h
    rw [List.mem_cons, lookup_cons_eq]
    by_cases heq : p.1 = first.1
    · have hnew : p ∉ rest := by
        intro hp
        have hlt := hfirst p hp
        rw [heq] at hlt
        exact String.lt_irrefl _ hlt
      rw [if_pos heq]
      simp [hnew, Prod.ext_iff, heq, eq_comm]
    · have hne : p ≠ first := fun hp => heq (congrArg Prod.fst hp)
      rw [if_neg heq]
      simpa [hne] using ih hrest

theorem mem_members_iff {p : String × α} :
    p ∈ members written ↔ member? written p.1 = some p.2 := by
  rw [mem_iff_lookup (members_ascending written), lookup_members]

/-- Lists whose keys ascend are equal when they have the same elements. -/
theorem eq_of_ascending {γ : Type} (key : γ → String) {xs ys : List γ}
    (h : xs.Pairwise fun a b => key a < key b) (h' : ys.Pairwise fun a b => key a < key b)
    (hmem : ∀ a, a ∈ xs ↔ a ∈ ys) : xs = ys := by
  have _ : Std.Irrefl fun a b : γ => key a < key b := ⟨fun a => String.lt_irrefl (key a)⟩
  have _ : Std.Antisymm fun a b : γ => key a < key b :=
    ⟨fun _ _ hlt hgt => absurd hgt (String.lt_asymm hlt)⟩
  exact h.eq_of_mem_iff h' hmem

/-- **Lists that ascend are equal when they say the same under every name.** -/
theorem eq_of_lookup_eq (h : l.Pairwise fun p q => p.1 < q.1)
    (h' : l'.Pairwise fun p q => p.1 < q.1) (heq : ∀ name, l.lookup name = l'.lookup name) :
    l = l' := by
  refine eq_of_ascending Prod.fst h h' fun p => ?_
  rw [mem_iff_lookup h, mem_iff_lookup h', heq]

/-- An object has one member exactly when it says something under one name only. -/
theorem members_eq_singleton_iff :
    members written = [(name, value)] ↔
      ∀ other, member? written other = if other = name then some value else none := by
  have hlookup : ∀ other, [(name, value)].lookup other =
      if other = name then some value else none := by
    intro other
    exact lookup_cons_eq (name, value) [] other
  constructor
  · intro h other
    rw [← lookup_members, h, hlookup]
  · intro h
    refine eq_of_lookup_eq (members_ascending written) (List.pairwise_singleton _ _) fun other => ?_
    rw [lookup_members, h, hlookup]

end LineTally.Value
