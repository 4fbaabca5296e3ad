import LineTally.Proofs.Line.Endings
import LineTally.Proofs.Line.Totals
import Mathlib.Data.List.TakeWhile

/-!
# What the layout of a text does not change

How far a line is indented, what stands after its last character and how it ends is layout. None of
it is counted: the rules look at trimmed lines (`Trims` says what trimming leaves, and that there is
no choice in it), and lines that are written down with line feeds are read back as they are
(`split_terminated`).

So a text may be laid out anew. `reindented` puts any padding around each line, as long as it breaks
none, and `normalized` puts no padding at all; both end every line with a line feed, the last one
too. `classifyAll_reindented` says that the three texts have the same kinds, from every region, and
that there is one normal form for all of them.
-/

set_option autoImplicit false

namespace LineTally.Line

/-! ## 1. Trimming -/

/-- The text has no padding at its ends. The empty text has no ends. -/
structure IsFlush (text : List Char) : Prop where
  first : ∀ c ∈ text.head?, ' ' < c
  last : ∀ c ∈ text.getLast?, ' ' < c

/-- **What trimming a line leaves**: padding is taken off at both ends, and all of it. -/
def Trims (line trimmed : List Char) : Prop :=
  ∃ before after, line = before ++ trimmed ++ after ∧ (∀ c ∈ before, c ≤ ' ') ∧
    (∀ c ∈ after, c ≤ ' ') ∧ IsFlush trimmed

variable {line trimmed before after : List Char} {lines : List (List Char)} {c : Char}

theorem isPadding_iff_le : isPadding c = true ↔ c ≤ ' ' := decide_eq_true_iff

theorem isPadding_eq_false (h : ' ' < c) : isPadding c = false := by
  rw [Bool.eq_false_iff, ne_eq, isPadding_iff_le]
  exact Char.not_le.mpr h

theorem dropWhile_append_padding (hbefore : ∀ c ∈ before, c ≤ ' ') (rest : List Char) :
    (before ++ rest).dropWhile isPadding = rest.dropWhile isPadding := by
  apply List.dropWhile_append_of_pos
  intro c hc
  exact isPadding_iff_le.mpr (hbefore c hc)

/-- Padding in front of a line that is flush is all that is dropped. -/
theorem dropWhile_flush (hfirst : ∀ c ∈ trimmed.head?, ' ' < c) (hafter : ∀ c ∈ after, c ≤ ' ') :
    (trimmed ++ after).dropWhile isPadding = if trimmed = [] then [] else trimmed ++ after := by
  cases trimmed with
  | nil =>
    have h := dropWhile_append_padding hafter []
    simpa using h
  | cons c rest =>
    have hc : isPadding c = false := isPadding_eq_false (hfirst c rfl)
    simp [hc]

/-- Trimming finds the ends of what has none but padding around it. -/
theorem trim_eq_of_isFlush (hbefore : ∀ c ∈ before, c ≤ ' ') (hafter : ∀ c ∈ after, c ≤ ' ')
    (hflush : IsFlush trimmed) : trim (before ++ trimmed ++ after) = trimmed := by
  rw [trim, List.append_assoc, dropWhile_append_padding hbefore,
    dropWhile_flush hflush.first hafter]
  by_cases hempty : trimmed = []
  · rw [if_pos hempty, hempty]
    rfl
  · have hlast : ∀ c ∈ trimmed.reverse.head?, ' ' < c := by
      rw [List.head?_reverse]
      exact hflush.last
    have hreversed := @dropWhile_flush trimmed.reverse [] hlast (by simp)
    rw [List.append_nil, if_neg (by simpa using hempty)] at hreversed
    rw [if_neg hempty, List.reverse_append, dropWhile_append_padding (by simpa using hafter),
      hreversed, List.reverse_reverse]

theorem lt_of_mem_head?_dropWhile (text : List Char) :
    ∀ c ∈ (text.dropWhile isPadding).head?, ' ' < c := by
  intro c hc
  have hnot := List.head?_dropWhile_not isPadding text
  rw [hc] at hnot
  exact Char.not_le.mp (mt isPadding_iff_le.mpr (by simpa using hnot))

theorem le_of_mem_takeWhile (text : List Char) : ∀ c ∈ text.takeWhile isPadding, c ≤ ' ' := by
  intro c hc
  exact isPadding_iff_le.mp (List.mem_takeWhile_imp hc)

/-- What is dropped at the end of a line is padding. -/
theorem dropWhile_eq_trim_append (line : List Char) :
    ∃ after, line.dropWhile isPadding = trim line ++ after ∧ ∀ c ∈ after, c ≤ ' ' := by
  have hback := List.takeWhile_append_dropWhile (p := isPadding)
    (l := (line.dropWhile isPadding).reverse)
  refine ⟨((line.dropWhile isPadding).reverse.takeWhile isPadding).reverse, ?_, ?_⟩
  · rw [trim, ← List.reverse_append, hback, List.reverse_reverse]
  · intro c hc
    exact le_of_mem_takeWhile _ c (List.mem_reverse.mp hc)

theorem trims_trim (line : List Char) : Trims line (trim line) := by
  obtain ⟨after, hline, hafter⟩ := dropWhile_eq_trim_append line
  refine ⟨line.takeWhile isPadding, after, ?_, le_of_mem_takeWhile line, hafter, ?_, ?_⟩
  · rw [List.append_assoc, ← hline, List.takeWhile_append_dropWhile]
  · -- How the line starts is not changed at its end, if anything is left of it there.
    intro c hc
    apply lt_of_mem_head?_dropWhile line c
    rw [hline]
    exact List.mem_head?_append_of_mem_head? hc
  · intro c hc
    rw [trim, List.getLast?_reverse] at hc
    exact lt_of_mem_head?_dropWhile _ c hc

/-- **Trimming leaves one text and no other.** -/
theorem trims_iff : Trims line trimmed ↔ trimmed = trim line := by
  constructor
  · rintro ⟨before, after, rfl, hbefore, hafter, hflush⟩
    exact (trim_eq_of_isFlush hbefore hafter hflush).symm
  · rintro rfl
    exact trims_trim line

theorem isFlush_trim (line : List Char) : IsFlush (trim line) := by
  obtain ⟨_, _, _, _, _, hflush⟩ := trims_trim line
  exact hflush

theorem trim_trim (line : List Char) : trim (trim line) = trim line := by
  have h := @trim_eq_of_isFlush (trim line) [] [] (by simp) (by simp) (isFlush_trim line)
  rwa [List.nil_append, List.append_nil] at h

theorem mem_of_mem_trim (h : c ∈ trim line) : c ∈ line := by
  obtain ⟨before, after, hline, _⟩ := trims_trim line
  rw [hline]
  exact List.mem_append_left _ (List.mem_append_right _ h)

/-! ## 2. Laying out a text -/

/-- What is put around a line: padding that breaks no line. -/
structure Margins where
  left : List Char
  right : List Char
  padding : ∀ c ∈ left ++ right, c ≤ ' ' ∧ c ≠ '\n' ∧ c ≠ '\r'

/-- A line between its margins. Those that it had before are gone. -/
def Margins.around (m : Margins) (line : List Char) : List Char := m.left ++ trim line ++ m.right

/-- Lines one after the other, each ended by a line feed. -/
def terminated (lines : List (List Char)) : List Char := lines.flatMap fun line => line ++ ['\n']

/-- **A text with its lines between other margins**, which may differ from line to line. -/
def reindented (margins : Nat → Margins) (text : List Char) : List Char :=
  terminated ((split text).mapIdx fun i line => (margins i).around line)

/-- **The normal form of a text**: its lines without any margins. -/
def normalized (text : List Char) : List Char := terminated ((split text).map trim)

theorem Margins.trim_around (m : Margins) (line : List Char) : trim (m.around line) = trim line := by
  apply trim_eq_of_isFlush
  · intro c hc
    exact (m.padding c (List.mem_append_left _ hc)).1
  · intro c hc
    exact (m.padding c (List.mem_append_right _ hc)).1
  · exact isFlush_trim line

/-- No line break comes in with the margins. -/
theorem Margins.notMem_around (m : Margins) (hc : c = '\n' ∨ c = '\r') (h : c ∉ line) :
    c ∉ m.around line := by
  have hmargins : c ∉ m.left ++ m.right := by
    intro hmem
    obtain ⟨_, hfeed, hreturn⟩ := m.padding c hmem
    exact hc.elim hfeed hreturn
  rw [List.mem_append, not_or] at hmargins
  simp only [around, List.mem_append, not_or]
  exact ⟨⟨hmargins.1, mt mem_of_mem_trim h⟩, hmargins.2⟩

theorem unbroken_of_mem_split {text : List Char} (h : line ∈ split text) :
    '\n' ∉ line ∧ '\r' ∉ line := by
  rw [split_eq_ended] at h
  obtain ⟨e, he, rfl⟩ := List.mem_map.mp h
  exact (decomposes_ended text).unbroken e he

/-- **Lines that are written down are read back.** -/
theorem split_terminated (h : ∀ line ∈ lines, '\n' ∉ line ∧ '\r' ∉ line) :
    split (terminated lines) = lines := by
  have hending : ∀ before e after, lines.map (fun line => Ended.mk line ['\n']) =
      before ++ e :: after → e.ending = ['\n'] := by
    intro before e after heq
    have he : e ∈ lines.map fun line => Ended.mk line ['\n'] := by simp [heq]
    obtain ⟨line, _, rfl⟩ := List.mem_map.mp he
    rfl
  have hdecomposes : Decomposes (lines.map fun line => ⟨line, ['\n']⟩) (terminated lines) := by
    refine ⟨?_, ?_, ?_, ?_⟩
    · rw [joined, List.flatMap_map, terminated]
    · intro e he
      obtain ⟨line, hline, rfl⟩ := List.mem_map.mp he
      exact h line hline
    · intro before e after heq
      rw [hending before e after heq]
      exact Or.inl (by simp [endings])
    · intro before e after heq hreturn
      rw [hending before e after heq] at hreturn
      exact absurd hreturn (by decide)
  rw [split_eq_ended, ← hdecomposes.eq_ended, List.map_map]
  exact List.map_id lines

theorem split_reindented (margins : Nat → Margins) (text : List Char) :
    split (reindented margins text) =
      (split text).mapIdx fun i line => (margins i).around line := by
  apply split_terminated
  intro line hline
  obtain ⟨i, hi, rfl⟩ := List.mem_mapIdx.mp hline
  obtain ⟨hfeed, hreturn⟩ := unbroken_of_mem_split (List.getElem_mem hi)
  constructor
  · exact (margins i).notMem_around (Or.inl rfl) hfeed
  · exact (margins i).notMem_around (Or.inr rfl) hreturn

theorem split_normalized (text : List Char) : split (normalized text) = (split text).map trim := by
  apply split_terminated
  intro line hline
  obtain ⟨line, hmem, rfl⟩ := List.mem_map.mp hline
  obtain ⟨hfeed, hreturn⟩ := unbroken_of_mem_split hmem
  exact ⟨mt mem_of_mem_trim hfeed, mt mem_of_mem_trim hreturn⟩

theorem map_trim_split_reindented (margins : Nat → Margins) (text : List Char) :
    (split (reindented margins text)).map trim = (split text).map trim := by
  rw [split_reindented]
  apply List.ext_getElem
  · simp
  · intro i _ _
    simp [Margins.trim_around]

end LineTally.Line

namespace LineTally.Region

open Line (split trim Margins Trims normalized reindented)

/-! ## 3. Kinds -/

/-- Only what trimming leaves of the lines is looked at. -/
theorem classifyAll_map_trim (region : Region) (lines : List (List Char)) :
    region.classifyAll (lines.map trim) = region.classifyAll lines := by
  induction lines generalizing region with
  | nil => rfl
  | cons line lines ih =>
    have hline : Line.classify region (trim line) = Line.classify region line := by
      rw [Line.classify, Line.classify, Line.trim_trim]
    rw [List.map_cons, classifyAll_cons, classifyAll_cons, hline, ih]

theorem classifyAll_eq_of_trim {lines others : List (List Char)} (region : Region)
    (h : lines.map trim = others.map trim) :
    region.classifyAll lines = region.classifyAll others := by
  rw [← classifyAll_map_trim region lines, h, classifyAll_map_trim]

/-- **The layout of a text does not change its kinds.** Its normal form and any text with the same
lines between other margins have the same kinds and leave the same region, whichever they start in,
and so they have the same counts. The normal form is the same for all of them and its own normal
form. What is left of a line between its widest margins is what trimming leaves, and nothing else
is. -/
theorem classifyAll_reindented (text : List Char) (margins : Nat → Margins) :
    (∀ region : Region,
      region.classifyAll (split (normalized text)) = region.classifyAll (split text) ∧
      region.classifyAll (split (reindented margins text)) = region.classifyAll (split text)) ∧
    Counts.ofText (normalized text) = Counts.ofText text ∧
    Counts.ofText (reindented margins text) = Counts.ofText text ∧
    normalized (normalized text) = normalized text ∧
    normalized (reindented margins text) = normalized text ∧
    (∀ line trimmed, Trims line trimmed ↔ trimmed = trim line) := by
  have hreindented := Line.map_trim_split_reindented margins text
  have hnormalized : (split (normalized text)).map trim = (split text).map trim := by
    rw [Line.split_normalized, List.map_map]
    exact List.map_congr_left fun line _ => Line.trim_trim line
  have hkinds : ∀ region : Region,
      region.classifyAll (split (normalized text)) = region.classifyAll (split text) ∧
      region.classifyAll (split (reindented margins text)) = region.classifyAll (split text) := by
    intro region
    exact ⟨region.classifyAll_eq_of_trim hnormalized, region.classifyAll_eq_of_trim hreindented⟩
  refine ⟨hkinds, ?_, ?_, ?_, ?_, fun line trimmed => Line.trims_iff⟩
  · rw [Counts.ofText, (hkinds .normal).1]
    rfl
  · rw [Counts.ofText, (hkinds .normal).2]
    rfl
  · rw [normalized, hnormalized]
    rfl
  · rw [normalized, hreindented]
    rfl

/-- Tabs before a line, and a space after it. -/
def tabbed : Margins := ⟨['\t', '\t'], [' '], by simp⟩

/-- Every line has an ending of its own, the second is blank and the last one has none. -/
example : reindented (fun _ => tabbed) "  /* a\r\n\x0c\rb".toList =
    "\t\t/* a \n\t\t \n\t\tb \n".toList := by decide

end LineTally.Region
