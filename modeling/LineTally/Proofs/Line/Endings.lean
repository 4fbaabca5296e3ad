import LineTally.Proofs.Line.Records
import Mathlib.Logic.ExistsUnique

/-!
# Lines and what ends them

Splitting gives the lines of a text and drops what ended them. Nothing else is lost: every text is
a sequence of lines, each followed by its ending (`Ended`), and there is only one such sequence.
What makes it unique is written down in `Decomposes`. Lines hold no line break; an ending is a line
feed, a carriage return or both in this order, and only a last line with something in it may go
without; and a carriage return alone is not followed by a line feed, since the two would be one
ending.

`ended` computes the sequence from the text, `split_eq_ended` says that its lines are those of
`Line.split`, `decomposes_ended` that it decomposes the text, and `Decomposes.eq_ended` that no other
sequence does.
-/

set_option autoImplicit false

namespace LineTally.Line

/-- A line of a text and what ends it there. -/
structure Ended where
  line : List Char
  ending : List Char
  deriving DecidableEq, Repr

/-- What a line can end with. -/
def endings : List (List Char) := [['\n'], ['\r', '\n'], ['\r']]

/-- The text of lines with their endings. -/
def joined (es : List Ended) : List Char := es.flatMap fun e => e.line ++ e.ending

/-- **A text taken apart into lines and their endings.** -/
structure Decomposes (es : List Ended) (text : List Char) : Prop where
  text_eq : text = joined es
  unbroken : ∀ e ∈ es, '\n' ∉ e.line ∧ '\r' ∉ e.line
  terminated : ∀ before e after, es = before ++ e :: after →
    e.ending ∈ endings ∨ after = [] ∧ e.ending = [] ∧ e.line ≠ []
  whole : ∀ before e after, es = before ++ e :: after → e.ending = ['\r'] →
    (joined after).head? ≠ some '\n'

/-! ## 1. Reading off the endings -/

/-- A character more at the beginning of the first line. -/
def Ended.push (c : Char) : List Ended → List Ended
  | [] => [⟨[c], []⟩]
  | first :: others => ⟨c :: first.line, first.ending⟩ :: others

/-- **The lines of a text with their endings.** -/
def ended : List Char → List Ended
  | [] => []
  | '\n' :: rest => ⟨[], ['\n']⟩ :: ended rest
  | '\r' :: '\n' :: rest => ⟨[], ['\r', '\n']⟩ :: ended rest
  | '\r' :: rest => ⟨[], ['\r']⟩ :: ended rest
  | c :: rest => Ended.push c (ended rest)

variable {c : Char} {line text rest : List Char} {e : Ended} {es : List Ended}

theorem joined_cons (e : Ended) (es : List Ended) :
    joined (e :: es) = e.line ++ (e.ending ++ joined es) := by
  rw [joined, List.flatMap_cons, List.append_assoc]
  rfl

theorem ended_return (h : rest.head? ≠ some '\n') :
    ended ('\r' :: rest) = ⟨[], ['\r']⟩ :: ended rest :=
  ended.eq_4 rest fun _ heq => h (by rw [heq]; rfl)

theorem ended_cons (hfeed : c ≠ '\n') (hreturn : c ≠ '\r') :
    ended (c :: rest) = Ended.push c (ended rest) :=
  ended.eq_5 c rest hfeed (fun _ heq => absurd heq hreturn) hreturn

theorem head?_ne_of_ne_cons (h : ∀ rest', rest = '\n' :: rest' → False) :
    rest.head? ≠ some '\n' := by
  intro hhead
  obtain ⟨rest', heq⟩ := List.head?_eq_some_iff.mp hhead
  exact h rest' heq

/-- Right after a carriage return only a line feed is read in another way. -/
theorem recordsAfter_return (h : rest.head? ≠ some '\n') :
    recordsAfter terminator true rest = recordsAfter terminator false rest := by
  cases rest with
  | nil => rfl
  | cons c rest =>
    have hfeed : c ≠ '\n' := fun heq => h (by rw [heq]; rfl)
    rw [recordsAfter, recordsAfter, terminator, if_neg hfeed]
    by_cases hreturn : c = '\r'
    · rw [if_pos hreturn]
    · rw [if_neg hreturn]

theorem map_line_push (c : Char) (es : List Ended) :
    (Ended.push c es).map Ended.line = extend [c] (es.map Ended.line) := by
  cases es <;> rfl

/-- **Splitting gives the lines without their endings.** -/
theorem split_eq_ended (text : List Char) : split text = (ended text).map Ended.line := by
  rw [split_eq_records, records]
  induction text using ended.induct with
  | case1 => rfl
  | case2 rest ih =>
    rw [ended, List.map_cons, ← ih]
    rfl
  | case3 rest ih =>
    rw [ended, List.map_cons, ← ih]
    rfl
  | case4 rest hrest ih =>
    have hhead := head?_ne_of_ne_cons hrest
    rw [ended_return hhead, List.map_cons, ← ih, ← recordsAfter_return hhead]
    rfl
  | case5 c rest hfeed _ hreturn ih =>
    have hnone : terminator c = none := by rw [terminator, if_neg hfeed, if_neg hreturn]
    rw [ended_cons hfeed hreturn, map_line_push, ← ih, recordsAfter, hnone]

/-! ## 2. Decompositions -/

/-- A decomposition by its first line. -/
theorem decomposes_cons_iff : Decomposes (e :: es) text ↔
    text = e.line ++ (e.ending ++ joined es) ∧ ('\n' ∉ e.line ∧ '\r' ∉ e.line) ∧
      (e.ending ∈ endings ∨ es = [] ∧ e.ending = [] ∧ e.line ≠ []) ∧
      (e.ending = ['\r'] → (joined es).head? ≠ some '\n') ∧ Decomposes es (joined es) := by
  constructor
  · intro h
    have hunbroken := List.forall_mem_cons.mp h.unbroken
    refine ⟨?_, hunbroken.1, h.terminated [] e es rfl, h.whole [] e es rfl, rfl, hunbroken.2, ?_, ?_⟩
    · rw [h.text_eq, joined_cons]
    · exact fun before e' after heq => h.terminated (e :: before) e' after (by rw [heq]; rfl)
    · exact fun before e' after heq => h.whole (e :: before) e' after (by rw [heq]; rfl)
  · rintro ⟨htext, hunbroken, hterminated, hwhole, h⟩
    refine ⟨?_, List.forall_mem_cons.mpr ⟨hunbroken, h.unbroken⟩, ?_, ?_⟩
    · rw [htext, joined_cons]
    · intro before e' after heq
      rcases List.cons_eq_append_iff.mp heq with ⟨rfl, hfirst⟩ | ⟨before, rfl, hrest⟩
      · cases hfirst
        exact hterminated
      · exact h.terminated before e' after hrest
    · intro before e' after heq
      rcases List.cons_eq_append_iff.mp heq with ⟨rfl, hfirst⟩ | ⟨before, rfl, hrest⟩
      · cases hfirst
        exact hwhole
      · exact h.whole before e' after hrest

/-- **A text is decomposed into what is read off it.** -/
theorem decomposes_ended (text : List Char) : Decomposes (ended text) text := by
  induction text using ended.induct with
  | case1 => exact ⟨rfl, by simp [ended], by simp [ended], by simp [ended]⟩
  | case2 rest ih =>
    rw [ended, decomposes_cons_iff, ← ih.text_eq]
    exact ⟨rfl, by simp, Or.inl (by simp [endings]), by simp, ih⟩
  | case3 rest ih =>
    rw [ended, decomposes_cons_iff, ← ih.text_eq]
    exact ⟨rfl, by simp, Or.inl (by simp [endings]), by simp, ih⟩
  | case4 rest hrest ih =>
    have hhead := head?_ne_of_ne_cons hrest
    rw [ended_return hhead, decomposes_cons_iff, ← ih.text_eq]
    exact ⟨rfl, by simp, Or.inl (by simp [endings]), fun _ => hhead, ih⟩
  | case5 c rest hfeed _ hreturn ih =>
    rw [ended_cons hfeed hreturn]
    cases hes : ended rest with
    | nil =>
      rw [hes] at ih
      rw [ih.text_eq, Ended.push, decomposes_cons_iff]
      exact ⟨rfl, by simp [Ne.symm hfeed, Ne.symm hreturn], Or.inr ⟨rfl, rfl, by simp⟩, by simp,
        rfl, ih.unbroken, ih.terminated, ih.whole⟩
    | cons first others =>
      rw [hes, decomposes_cons_iff] at ih
      obtain ⟨htext, hunbroken, hterminated, hwhole, hothers⟩ := ih
      rw [Ended.push, decomposes_cons_iff]
      refine ⟨congrArg (c :: ·) htext, ?_, ?_, hwhole, hothers⟩
      · simp [hunbroken, Ne.symm hfeed, Ne.symm hreturn]
      · exact hterminated.imp_right fun ⟨hlast, hnone, _⟩ => ⟨hlast, hnone, List.cons_ne_nil _ _⟩

/-! ## 3. No other decomposition -/

theorem ended_ending {ending : List Char} (hending : ending ∈ endings)
    (hwhole : ending = ['\r'] → rest.head? ≠ some '\n') :
    ended (ending ++ rest) = ⟨[], ending⟩ :: ended rest := by
  rcases List.mem_cons.mp hending with rfl | hending
  · exact ended.eq_2 rest
  rcases List.mem_cons.mp hending with rfl | hending
  · exact ended.eq_3 rest
  · obtain rfl := List.mem_singleton.mp hending
    exact ended_return (hwhole rfl)

/-- What stands before a line break belongs to the line that ends there. -/
theorem ended_append (hunbroken : '\n' ∉ line ∧ '\r' ∉ line) (h : ended rest = e :: es) :
    ended (line ++ rest) = ⟨line ++ e.line, e.ending⟩ :: es := by
  induction line with
  | nil => exact h
  | cons c line ih =>
    simp only [List.mem_cons, not_or] at hunbroken
    obtain ⟨⟨hfeed, hfeeds⟩, hreturn, hreturns⟩ := hunbroken
    rw [List.cons_append, ended_cons (Ne.symm hfeed) (Ne.symm hreturn), ih ⟨hfeeds, hreturns⟩]
    rfl

theorem ended_of_unbroken (hunbroken : '\n' ∉ line ∧ '\r' ∉ line) (hne : line ≠ []) :
    ended line = [⟨line, []⟩] := by
  induction line with
  | nil => exact absurd rfl hne
  | cons c line ih =>
    simp only [List.mem_cons, not_or] at hunbroken
    obtain ⟨⟨hfeed, hfeeds⟩, hreturn, hreturns⟩ := hunbroken
    rw [ended_cons (Ne.symm hfeed) (Ne.symm hreturn)]
    cases line with
    | nil => rfl
    | cons d line =>
      rw [ih ⟨hfeeds, hreturns⟩ (List.cons_ne_nil d line)]
      rfl

/-- **A text has no other decomposition.** -/
theorem Decomposes.eq_ended (h : Decomposes es text) : es = ended text := by
  induction es generalizing text with
  | nil =>
    rw [h.text_eq]
    rfl
  | cons e es ih =>
    obtain ⟨htext, hunbroken, hterminated, hwhole, hes⟩ := decomposes_cons_iff.mp h
    rcases hterminated with hending | ⟨rfl, hnone, hne⟩
    · have hfirst := ended_ending hending hwhole
      rw [← ih hes] at hfirst
      rw [htext, ended_append hunbroken hfirst, List.append_nil]
    · rw [hnone, joined, List.flatMap_nil, List.append_nil, List.append_nil] at htext
      rw [htext, ended_of_unbroken hunbroken hne, ← hnone]

/-- **Some lines are those of a text exactly when they decompose it**, with endings of their own.
Every text has such endings and only one way to put them, so that nothing of it is dropped or
counted twice; and lines that are joined with any endings that keep to the rules are found again,
whichever endings these are. -/
theorem split_eq_iff_decomposes :
    (∀ (text : List Char) (lines : List (List Char)),
      split text = lines ↔ ∃ es, es.map Ended.line = lines ∧ Decomposes es text) ∧
    (∀ text : List Char, ∃! es, Decomposes es text) ∧
    (∀ es : List Ended, Decomposes es (joined es) → split (joined es) = es.map Ended.line) := by
  refine ⟨fun text lines => ?_, fun text => ?_, fun es h => ?_⟩
  · rw [split_eq_ended]
    constructor
    · rintro rfl
      exact ⟨ended text, rfl, decomposes_ended text⟩
    · rintro ⟨es, rfl, h⟩
      rw [h.eq_ended]
  · exact ⟨ended text, decomposes_ended text, fun es h => h.eq_ended⟩
  · rw [split_eq_ended, ← h.eq_ended]

/-- Lines with every kind of ending, three of them empty. -/
def assortedEndings : List Ended :=
  [⟨['a'], ['\r']⟩, ⟨[], ['\r', '\n']⟩, ⟨[], ['\n']⟩, ⟨[], ['\r']⟩, ⟨[' '], []⟩]

theorem split_eq_iff_decomposes_assorted :
    joined assortedEndings = "a\r\r\n\n\r ".toList ∧
      Decomposes assortedEndings (joined assortedEndings) ∧
      split (joined assortedEndings) = [['a'], [], [], [], [' ']] ∧
      ∀ es, Decomposes es (joined assortedEndings) → es = assortedEndings := by
  have hdecomposes : Decomposes assortedEndings (joined assortedEndings) :=
    decomposes_ended (joined assortedEndings)
  obtain ⟨_, hunique, hsplit⟩ := split_eq_iff_decomposes
  refine ⟨rfl, hdecomposes, hsplit assortedEndings hdecomposes, fun es h => ?_⟩
  exact (hunique (joined assortedEndings)).unique h hdecomposes

/-- Without the last rule a carriage return and a line feed could be two endings. -/
example : split "a\r\nb".toList = ["a".toList, "b".toList] := by decide

end LineTally.Line
