import LineTally.Proofs.Line.Endings
import LineTally.Proofs.Line.Marks

/-!
# Texts in two parts

A text may be cut in two and its lines read part by part, as long as no line is cut and no ending.
`CutsBetweenLines` says this of the last character of the first part and the first one of the
second, and `split_append_iff` that nothing else has to be asked: there the lines of the text are
those of its parts, and at any other place they are one fewer, because a line is read as two or an
ending is.

What decides is what the machine that splits holds when the first part is over (`unfinished`): the
beginning of a line, or a carriage return that a line feed may still complete. Everything else
about the first part is in the lines that have ended (`finished`), and these stay as they are
whatever follows (`split_append`).

Kinds are given line by line and carry over, from the region in which the first part ends.
-/

set_option autoImplicit false

namespace LineTally.Line

/-- The text is over right after a line break. -/
def EndsInBreak (text : List Char) : Prop :=
  text.getLast? = some '\n' ∨ text.getLast? = some '\r'

/-- **Where a text may be cut**: nowhere inside a line, and not between a carriage return and its
line feed. -/
def CutsBetweenLines (front back : List Char) : Prop :=
  front = [] ∨ back = [] ∨
    EndsInBreak front ∧ ¬ (front.getLast? = some '\r' ∧ back.head? = some '\n')

instance (text : List Char) : Decidable (EndsInBreak text) :=
  inferInstanceAs (Decidable (_ ∨ _))

instance (front back : List Char) : Decidable (CutsBetweenLines front back) :=
  inferInstanceAs (Decidable (_ ∨ _ ∨ _ ∧ _))

/-! ## 1. What is held at the end of a text -/

/-- The line that has begun when a text is over. -/
def unfinished (text : List Char) : Unfinished := (splitter.feed splitter.start text).1

/-- The lines that have ended when a text is over. -/
def finished (text : List Char) : List (List Char) := (splitter.feed splitter.start text).2

variable {text front back : List Char}

/-- A break leaves nothing of a line, and any other character is held with what is held already. -/
theorem unfinished_concat (text : List Char) (c : Char) :
    unfinished (text ++ [c]) =
      if c = '\n' ∨ c = '\r' then ⟨[], c = '\r'⟩ else ⟨c :: (unfinished text).reversed, false⟩ := by
  have hstep : unfinished (text ++ [c]) = (splitStep (unfinished text) c).1 := by
    rw [unfinished, Transducer.feed_append, Transducer.feed_cons, Transducer.feed_nil]
    rfl
  rw [hstep, splitStep]
  by_cases hcompletes : c = '\n' ∧ (unfinished text).afterReturn = true
  · rw [if_pos hcompletes, if_pos (Or.inl hcompletes.1), hcompletes.1]
    rfl
  · rw [if_neg hcompletes]
    split
    · rfl
    · rfl

theorem endsInBreak_concat (text : List Char) (c : Char) :
    EndsInBreak (text ++ [c]) ↔ c = '\n' ∨ c = '\r' := by
  simp [EndsInBreak]

/-- A line has begun unless the text ends in a break. -/
theorem reversed_unfinished_eq_nil_iff (text : List Char) :
    (unfinished text).reversed = [] ↔ text = [] ∨ EndsInBreak text := by
  rcases List.eq_nil_or_concat' text with rfl | ⟨text, c, rfl⟩
  · exact iff_of_true rfl (Or.inl rfl)
  · rw [unfinished_concat, endsInBreak_concat]
    by_cases hbreak : c = '\n' ∨ c = '\r'
    · rw [if_pos hbreak]
      exact iff_of_true rfl (Or.inr hbreak)
    · rw [if_neg hbreak]
      simp [hbreak]

theorem afterReturn_unfinished_iff (text : List Char) :
    (unfinished text).afterReturn = true ↔ text.getLast? = some '\r' := by
  rcases List.eq_nil_or_concat' text with rfl | ⟨text, c, rfl⟩
  · simp [unfinished, splitter]
  · rw [unfinished_concat, List.getLast?_concat, Option.some.injEq]
    by_cases hbreak : c = '\n' ∨ c = '\r'
    · rw [if_pos hbreak]
      exact decide_eq_true_iff
    · rw [if_neg hbreak]
      exact iff_of_false Bool.false_ne_true fun hreturn => hbreak (Or.inr hreturn)

/-- Right after a carriage return no line has begun. -/
theorem reversed_unfinished_of_return (h : (unfinished text).afterReturn = true) :
    (unfinished text).reversed = [] := by
  rw [reversed_unfinished_eq_nil_iff]
  exact Or.inr (Or.inr ((afterReturn_unfinished_iff text).mp h))

/-- **What follows a text is read from where the text ends**, and changes no line that has ended. -/
theorem split_append (front back : List Char) :
    split (front ++ back) = finished front ++
      extend (unfinished front).reversed.reverse
        (recordsAfter terminator (unfinished front).afterReturn back) := by
  have hback := feed_splitter (unfinished front) reversed_unfinished_of_return back
  rw [split, Transducer.run_eq, Transducer.feed_append, ← hback, List.append_assoc]
  rfl

theorem split_eq_finished (text : List Char) :
    split text = finished text ++ extend (unfinished text).reversed.reverse [] := by
  have h := split_append text []
  rwa [List.append_nil] at h

/-- Where no line has begun, all that follows comes after the lines that have ended. -/
theorem split_append_of_nothing_held (h : (unfinished front).reversed = []) (back : List Char) :
    split (front ++ back) =
      split front ++ recordsAfter terminator (unfinished front).afterReturn back := by
  rw [split_append, split_eq_finished front, h, List.reverse_nil, extend_nil, extend_nil,
    List.append_nil]

theorem split_ne_nil (h : text ≠ []) : split text ≠ [] := by
  obtain ⟨c, text, rfl⟩ := List.exists_cons_of_ne_nil h
  rw [split_eq_records, records, recordsAfter]
  cases terminator c with
  | none => cases recordsAfter terminator false text <;> simp [extend]
  | some ending => cases ending <;> simp

/-! ## 2. The three ways to go on -/

/-- Between two lines nothing is held, and the second part is read as if it stood alone. -/
theorem split_append_of_cutsBetweenLines (h : CutsBetweenLines front back) :
    split (front ++ back) = split front ++ split back := by
  rcases h with rfl | rfl | ⟨hbreak, hwhole⟩
  · rfl
  · rw [List.append_nil]
    exact (List.append_nil _).symm
  · have hheld : (unfinished front).reversed = [] :=
      (reversed_unfinished_eq_nil_iff front).mpr (Or.inr hbreak)
    rw [split_append_of_nothing_held hheld, split_eq_records back, records]
    cases hreturn : (unfinished front).afterReturn with
    | false => rfl
    | true =>
      have hlast := (afterReturn_unfinished_iff front).mp hreturn
      rw [recordsAfter_return fun hhead => hwhole ⟨hlast, hhead⟩]

/-- A line feed that completes the ending before it ends no line. -/
theorem split_append_lineFeed (h : front.getLast? = some '\r') (back : List Char) :
    split (front ++ '\n' :: back) = split front ++ split back := by
  have hreturn := (afterReturn_unfinished_iff front).mpr h
  have hheld := reversed_unfinished_of_return hreturn
  rw [split_append_of_nothing_held hheld, hreturn, split_eq_records back]
  rfl

theorem split_lineFeed (back : List Char) : split ('\n' :: back) = [] :: split back := by
  rw [split_eq_records, split_eq_records]
  rfl

/-- **A line that is cut is one line**: the last of the first part, together with the first of the
second. -/
theorem split_append_of_line (hfront : front ≠ []) (hbreak : ¬ EndsInBreak front)
    (hback : back ≠ []) :
    ∃ before start rest after,
      split front = before ++ [start] ∧ split back = rest :: after ∧
      split (front ++ back) = before ++ (start ++ rest) :: after := by
  have hheld : (unfinished front).reversed ≠ [] := by
    rw [ne_eq, reversed_unfinished_eq_nil_iff]
    exact not_or.mpr ⟨hfront, hbreak⟩
  have hreturn : (unfinished front).afterReturn = false := by
    rw [Bool.eq_false_iff]
    exact fun h => hheld (reversed_unfinished_of_return h)
  obtain ⟨rest, after, hsplit⟩ := List.exists_cons_of_ne_nil (split_ne_nil hback)
  refine ⟨finished front, (unfinished front).reversed.reverse, rest, after, ?_, hsplit, ?_⟩
  · rw [split_eq_finished, extend]
    simp [hheld]
  · rw [split_eq_records, records] at hsplit
    rw [split_append, hreturn, hsplit, extend_cons]

/-- Anywhere else one line is counted twice by its parts. -/
theorem length_split_append (h : ¬ CutsBetweenLines front back) :
    (split (front ++ back)).length + 1 = (split front).length + (split back).length := by
  unfold CutsBetweenLines at h
  push Not at h
  obtain ⟨hfront, hback, hwhole⟩ := h
  by_cases hbreak : EndsInBreak front
  · obtain ⟨hlast, hhead⟩ := hwhole hbreak
    obtain ⟨back, rfl⟩ := List.head?_eq_some_iff.mp hhead
    rw [split_append_lineFeed hlast, split_lineFeed, List.length_append, List.length_cons]
    rfl
  · obtain ⟨before, start, rest, after, hsplit, hsplit', happend⟩ :=
      split_append_of_line hfront hbreak hback
    rw [hsplit, hsplit', happend]
    simp only [List.length_append, List.length_cons, List.length_nil]
    omega

/-! ## 3. Kinds and counts -/

/-- **The lines of a text are those of its parts exactly where it may be cut**, and anywhere else
they are one fewer. So where a text is cut between two lines, its parts may be sorted one after the
other, from any region, and counted apart: the second from the region in which the first one ends,
which is where every text starts if no block comment is open there. -/
theorem split_append_iff :
    (∀ front back : List Char,
      split (front ++ back) = split front ++ split back ↔ CutsBetweenLines front back) ∧
    (∀ front back : List Char, ¬ CutsBetweenLines front back →
      (split (front ++ back)).length + 1 = (split front).length + (split back).length) ∧
    (∀ front back : List Char, CutsBetweenLines front back →
      (∀ region : Region, region.classifyAll (split (front ++ back)) =
        (((region.classifyAll (split front)).1.classifyAll (split back)).1,
          (region.classifyAll (split front)).2 ++
            ((region.classifyAll (split front)).1.classifyAll (split back)).2)) ∧
      Counts.ofText (front ++ back) = Counts.ofText front +
        .ofKinds ((Region.normal.classifyAll (split front)).1.classifyAll (split back)).2 ∧
      ((Region.normal.classifyAll (split front)).1 = .normal →
        Counts.ofText (front ++ back) = Counts.ofText front + Counts.ofText back)) := by
  refine ⟨?_, fun front back h => length_split_append h, ?_⟩
  · intro front back
    constructor
    · intro heq
      by_contra h
      have hlength := length_split_append h
      rw [heq, List.length_append] at hlength
      omega
    · intro h
      exact split_append_of_cutsBetweenLines h
  · intro front back h
    have hsplit := split_append_of_cutsBetweenLines h
    have hkinds : ∀ region : Region, region.classifyAll (split (front ++ back)) =
        (((region.classifyAll (split front)).1.classifyAll (split back)).1,
          (region.classifyAll (split front)).2 ++
            ((region.classifyAll (split front)).1.classifyAll (split back)).2) := by
      intro region
      rw [hsplit, Region.classifyAll_append]
    have hcounts : Counts.ofText (front ++ back) = Counts.ofText front +
        .ofKinds ((Region.normal.classifyAll (split front)).1.classifyAll (split back)).2 := by
      rw [Counts.ofText, hkinds, Counts.ofKinds_append]
      rfl
    refine ⟨hkinds, hcounts, ?_⟩
    intro hnormal
    rw [hcounts, hnormal]
    rfl

/-- A text that may be cut inside a block comment and after it, and in front of a line feed that may
be cut off only where it is an ending of its own. -/
theorem split_append_iff_blockComment :
    CutsBetweenLines "/* a\r".toList "\r\n*/ b\n".toList ∧
      Region.normal.classifyAll (split "/* a\r".toList) = (.blockComment, [.comment]) ∧
      Counts.ofText ("/* a\r".toList ++ "\r\n*/ b\n".toList) = ⟨0, 3, 0⟩ ∧
      Counts.ofText "\r\n*/ b\n".toList = ⟨1, 0, 1⟩ ∧
      CutsBetweenLines "/* a\r\r\n*/ b\n".toList "\nc".toList ∧
      (Region.normal.classifyAll (split "/* a\r\r\n*/ b\n".toList)).1 = .normal ∧
      Counts.ofText ("/* a\r\r\n*/ b\n".toList ++ "\nc".toList) = ⟨1, 3, 1⟩ ∧
      ¬ CutsBetweenLines "/* a\r\r".toList "\n*/ b\n".toList ∧
      (split ("/* a\r\r".toList ++ "\n*/ b\n".toList)).length + 1 = 2 + 2 := by
  obtain ⟨_, hfewer, hparts⟩ := split_append_iff
  have hinside : CutsBetweenLines "/* a\r".toList "\r\n*/ b\n".toList := by decide
  have hafter : CutsBetweenLines "/* a\r\r\n*/ b\n".toList "\nc".toList := by decide
  have hnot : ¬ CutsBetweenLines "/* a\r\r".toList "\n*/ b\n".toList := by decide
  have hnormal : (Region.normal.classifyAll (split "/* a\r\r\n*/ b\n".toList)).1 = .normal := by
    decide
  refine ⟨hinside, by decide, ?_, by decide, hafter, hnormal, ?_, hnot, hfewer _ _ hnot⟩
  · rw [(hparts _ _ hinside).2.1]
    decide
  · rw [(hparts _ _ hafter).2.2 hnormal]
    decide

end LineTally.Line
