import LineTally.Proofs.FileTree.Paths
import LineTally.Proofs.Line.Words

/-!
# Reading a report back

A report is five numbers joined by a separator, and nothing is lost in it: a numeral has no
separator among its characters, so the line falls apart into the numerals it was made of, and each
numeral stands for one number.

`Tally.ofReport?` reads such a line. It is strict: `IsNumeral` admits no sign, no empty field and no
superfluous zero, and no number that is not a word is read. `ofReport?_eq_some_iff` says that it
accepts **exactly** the reports, each as the result it was made from. What is in the image of
reporting can then be told by looking at the fields alone (`report_read_back`).
-/

set_option autoImplicit false

namespace LineTally

/-! ## 1. Numerals -/

/-- A numeral without superfluous zeros: there are digits, and the first is a zero only if it is
the whole numeral. -/
structure IsNumeral (digits : List Char) : Prop where
  nonempty : digits ≠ []
  isDigit : ∀ c ∈ digits, c.isDigit = true
  unpadded : digits.head? = some '0' → digits = ['0']

instance : DecidablePred IsNumeral := fun digits =>
  decidable_of_iff (digits ≠ [] ∧ digits.all Char.isDigit = true ∧
      (digits.head? = some '0' → digits = ['0']))
    ⟨fun h => ⟨h.1, List.all_eq_true.mp h.2.1, h.2.2⟩,
      fun h => ⟨h.nonempty, List.all_eq_true.mpr h.isDigit, h.unpadded⟩⟩

/-- The number that some digits stand for. -/
def numeralValue (digits : List Char) : Nat := Nat.ofDigitChars 10 digits 0

namespace Tally

theorem numeralValue_numeral (n : Nat) : numeralValue (numeral n) = n :=
  Nat.ofDigitChars_ten_toDigits

/-- A positive number does not begin with a zero. -/
theorem head?_numeral_ne {n : Nat} (h : 0 < n) : (numeral n).head? ≠ some '0' := by
  induction n using Nat.strongRecOn with
  | ind n ih =>
    unfold numeral at ih ⊢
    rw [Nat.toDigits_eq_if (by decide)]
    split
    · rw [List.head?_cons, ne_eq, Option.some.injEq, Nat.digitChar_eq_zero]
      omega
    · rw [List.head?_append_of_ne_nil _ Nat.toDigits_ne_nil]
      exact ih (n / 10) (by omega) (by omega)

theorem isNumeral_numeral (n : Nat) : IsNumeral (numeral n) where
  nonempty := Nat.toDigits_ne_nil
  isDigit := fun c hc => Nat.isDigit_of_mem_toDigits (by decide) (by decide) hc
  unpadded := by
    intro hzero
    cases n with
    | zero => rfl
    | succ n => exact absurd hzero (head?_numeral_ne (Nat.succ_pos n))

theorem digitChar_of_isDigit {c : Char} (h : c.isDigit = true) :
    c.toNat - '0'.toNat < 10 ∧ (c.toNat - '0'.toNat).digitChar = c := by
  have hrange : '0'.toNat ≤ c.toNat ∧ c.toNat ≤ '9'.toNat := Char.isDigit_iff_toNat.mp h
  have hzero : '0'.toNat = 48 := rfl
  have hnine : '9'.toNat = 57 := rfl
  have hlt : c.toNat - '0'.toNat < 10 := by omega
  refine ⟨hlt, Char.toNat_inj.mp ?_⟩
  rw [Nat.toNat_digitChar_of_lt_ten hlt]
  omega

/-- **A numeral is written as it was read.** The induction takes the last digit off; that the digits
before it are a numeral too is where a zero in front would be in the way. -/
theorem numeral_numeralValue {digits : List Char} (h : IsNumeral digits) :
    numeral (numeralValue digits) = digits := by
  induction digits using List.reverseRecOn with
  | nil => exact absurd rfl h.nonempty
  | append_singleton digits c ih =>
    obtain ⟨hlt, hdigit⟩ := digitChar_of_isDigit (h.isDigit c (by simp))
    have hvalue : numeralValue (digits ++ [c]) =
        10 * numeralValue digits + (c.toNat - '0'.toNat) := by
      rw [numeralValue, Nat.ofDigitChars_append]
      rfl
    by_cases hfirst : digits = []
    · subst hfirst
      rw [hvalue]
      show Nat.toDigits 10 (10 * 0 + (c.toNat - '0'.toNat)) = [c]
      rw [Nat.mul_zero, Nat.zero_add, Nat.toDigits_of_lt_base hlt, hdigit]
    · have hhead : digits.head? ≠ some '0' := by
        intro hzero
        have hall := h.unpadded (by rw [List.head?_append_of_ne_nil _ hfirst, hzero])
        rw [← List.singleton_append, List.append_eq_singleton_iff] at hall
        simp [hfirst] at hall
      have hrest : IsNumeral digits := by
        refine ⟨hfirst, fun d hd => h.isDigit d (List.mem_append_left _ hd), fun hzero => ?_⟩
        exact absurd hzero hhead
      have hbefore := ih hrest
      have hpos : 0 < numeralValue digits := by
        rcases Nat.eq_zero_or_pos (numeralValue digits) with hzero | hpos
        · rw [hzero] at hbefore
          exact absurd (congrArg List.head? hbefore.symm) hhead
        · exact hpos
      unfold numeral at hbefore ⊢
      rw [hvalue, ← Nat.toDigits_append_toDigits (by decide) hpos hlt, hbefore,
        Nat.toDigits_of_lt_base hlt, hdigit]

/-! ## 2. Lines -/

theorem separator_notMem_numeral (n : Nat) : separator ∉ numeral n := by
  intro hmem
  exact absurd ((isNumeral_numeral n).isDigit _ hmem) (by decide)

end Tally

/-- Pieces that do not hold the separator are told apart again when they have been joined. -/
theorem separated_intercalate {α : Type} [DecidableEq α] {c : α} {pieces : List (List α)}
    (hne : pieces ≠ []) (h : ∀ piece ∈ pieces, c ∉ piece) :
    separated c ([c].intercalate pieces) = pieces := by
  induction pieces with
  | nil => exact absurd rfl hne
  | cons first others ih =>
    have hfirst := separated_of_notMem (h first List.mem_cons_self)
    cases others with
    | nil => simpa using hfirst
    | cons second others =>
      have hrest := ih (by simp) fun piece hpiece => h piece (List.mem_cons_of_mem _ hpiece)
      rw [List.intercalate_cons_cons, List.append_assoc, List.singleton_append,
        separated_append, hfirst, hrest]
      rfl

namespace Tally

variable {t : Tally} {line : List Char}

/-- **A report falls apart into its five numerals.** -/
theorem separated_report (t : Tally) : separated separator t.report = t.fields.map numeral := by
  apply separated_intercalate (by simp [fields])
  intro piece hpiece
  obtain ⟨n, _, rfl⟩ := List.mem_map.mp hpiece
  exact separator_notMem_numeral n

/-- The word that a field stands for. -/
def readWord? (field : List Char) : Option Nat :=
  if IsNumeral field ∧ numeralValue field < UInt64.size then some (numeralValue field) else none

theorem readWord?_eq_some_iff {field : List Char} {n : Nat} :
    readWord? field = some n ↔ n < UInt64.size ∧ numeral n = field := by
  unfold readWord?
  split
  · next h =>
    rw [Option.some.injEq]
    constructor
    · intro hn
      subst hn
      exact ⟨h.2, numeral_numeralValue h.1⟩
    · intro hn
      rw [← hn.2, numeralValue_numeral]
  · next h =>
    constructor
    · intro hn
      cases hn
    · intro hn
      refine absurd ?_ h
      rw [← hn.2, numeralValue_numeral]
      exact ⟨isNumeral_numeral n, hn.1⟩

/-- The result that a report was made from. -/
def ofReport? (line : List Char) : Option Tally :=
  match separated separator line with
  | [found, distinct, blanks, comments, code] => do
    let found ← readWord? found
    let distinct ← readWord? distinct
    let blanks ← readWord? blanks
    let comments ← readWord? comments
    let code ← readWord? code
    some ⟨found, distinct, ⟨blanks, comments, code⟩⟩
  | _ => none

/-- **The reports are the lines that can be read**, and each is read as what it reports. -/
theorem ofReport?_eq_some_iff : ofReport? line = some t ↔ t.Fits ∧ t.report = line := by
  constructor
  · intro h
    unfold ofReport? at h
    split at h
    · next found distinct blanks comments code hpieces =>
      simp only [Option.bind_eq_bind, Option.bind_eq_some_iff, readWord?_eq_some_iff,
        Option.some.injEq] at h
      obtain ⟨f, ⟨hf, rfl⟩, d, ⟨hd, rfl⟩, b, ⟨hb, rfl⟩, m, ⟨hm, rfl⟩, c, ⟨hc, rfl⟩, rfl⟩ := h
      refine ⟨⟨hf, hd, hb, hm, hc⟩, ?_⟩
      rw [← intercalate_separated separator line, hpieces]
      rfl
    · cases h
  · intro h
    obtain ⟨⟨hfound, hdistinct, hblanks, hcomments, hcode⟩, rfl⟩ := h
    have hword : ∀ n < UInt64.size, readWord? (numeral n) = some n := fun n hn =>
      readWord?_eq_some_iff.mpr ⟨hn, rfl⟩
    unfold ofReport?
    rw [separated_report]
    simp [fields, hword _ hfound, hword _ hdistinct, hword _ hblanks, hword _ hcomments,
      hword _ hcode]

theorem report_injective : Function.Injective report := by
  intro t u h
  have hfields : t.fields = u.fields := by
    have hpieces := congrArg (List.map numeralValue) (congrArg (separated separator) h)
    simpa [separated_report, Function.comp_def, numeralValue_numeral] using hpieces
  obtain ⟨_, _, _, _, _⟩ := t
  obtain ⟨_, _, _, _, _⟩ := u
  simpa [fields] using hfields

/-- **A report says which result it reports.** It has five fields, all of them numerals without
superfluous zeros, that stand for the five numbers in their order; so no other result has the same
report, and a result whose numbers are words is read back from it. The lines that report such a
result are five numerals of words, joined by the separator, and no others. -/
theorem report_read_back :
    (∀ t : Tally, (separated separator t.report).length = 5 ∧
      (∀ field ∈ separated separator t.report, IsNumeral field) ∧
      (separated separator t.report).map numeralValue =
        [t.found, t.distinct, t.lines.blanks, t.lines.comments, t.lines.code]) ∧
    (∀ (line : List Char) (t : Tally), ofReport? line = some t ↔ t.Fits ∧ t.report = line) ∧
    Function.Injective report ∧
    (∀ line : List Char, (∃ t : Tally, t.Fits ∧ t.report = line) ↔
      ∃ found distinct blanks comments code : List Char,
        (∀ field ∈ [found, distinct, blanks, comments, code],
          IsNumeral field ∧ numeralValue field < UInt64.size) ∧
        line = [separator].intercalate [found, distinct, blanks, comments, code]) := by
  refine ⟨fun t => ?_, fun line t => ofReport?_eq_some_iff, report_injective, fun line => ?_⟩
  · rw [separated_report]
    refine ⟨by simp [fields], ?_, by simp [fields, numeralValue_numeral]⟩
    intro field hfield
    obtain ⟨n, _, rfl⟩ := List.mem_map.mp hfield
    exact isNumeral_numeral n
  · constructor
    · intro h
      obtain ⟨t, ⟨hfound, hdistinct, hblanks, hcomments, hcode⟩, rfl⟩ := h
      refine ⟨numeral t.found, numeral t.distinct, numeral t.lines.blanks,
        numeral t.lines.comments, numeral t.lines.code, ?_, rfl⟩
      simp [isNumeral_numeral, numeralValue_numeral, hfound, hdistinct, hblanks, hcomments, hcode]
    · intro h
      obtain ⟨found, distinct, blanks, comments, code, hfields, rfl⟩ := h
      simp only [List.forall_mem_cons] at hfields
      obtain ⟨hfound, hdistinct, hblanks, hcomments, hcode, _⟩ := hfields
      refine ⟨⟨numeralValue found, numeralValue distinct,
        ⟨numeralValue blanks, numeralValue comments, numeralValue code⟩⟩,
        ⟨hfound.2, hdistinct.2, hblanks.2, hcomments.2, hcode.2⟩, ?_⟩
      simp only [report, fields, List.map_cons, List.map_nil, numeral_numeralValue hfound.1,
        numeral_numeralValue hdistinct.1, numeral_numeralValue hblanks.1,
        numeral_numeralValue hcomments.1, numeral_numeralValue hcode.1]

/-- The largest numbers and the smallest. -/
example : ofReport? "18446744073709551615-0-10-0-7".toList =
    some ⟨18446744073709551615, 0, ⟨10, 0, 7⟩⟩ := by decide

end Tally

end LineTally
