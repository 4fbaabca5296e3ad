import LineTally.Proofs.Line.Totals
import Mathlib.Data.List.Induction

/-!
# Where a block comment is open

The rules ask different questions inside a block comment and outside: inside, whether a line starts
or ends with `*/`; outside, whether it starts with `//`, or else with `/*`, and then how it ends.
For the region in which the next line starts all this comes to one question, whatever the region
was before (`classify_snd`). A line may carry a **mark** (`mark?`): one that starts or ends with
`*/` is a closer, and another one that starts with `/*` is an opener. A mark decides the region by
itself, and a line without a mark leaves it as it is.

So the region after some lines is the one that their last mark decides (`classifyAll_fst`), and of
what came before that mark nothing is left.
-/

set_option autoImplicit false

namespace LineTally

/-! ## 1. One line -/

namespace Line

/-- What a line does to block comments. -/
inductive Mark
  | opener
  | closer
  deriving DecidableEq, Repr

/-- The region in which the line after a mark starts. -/
def Mark.region : Mark → Region
  | opener => .blockComment
  | closer => .normal

/-- **The mark of a line.** The line `/*/` is a closer, and so is `*/ x /*`. -/
def mark? (line : List Char) : Option Mark :=
  if closeMark <+: trim line ∨ closeMark <:+ trim line then some .closer
  else if openMark <+: trim line then some .opener
  else none

/-- The mark of the last line that has one. -/
def lastMark? (lines : List (List Char)) : Option Mark :=
  (lines.filterMap mark?).getLast?

theorem closes_iff {trimmed : List Char} :
    closes trimmed = true ↔ closeMark <+: trimmed ∨ closeMark <:+ trimmed := by
  rw [closes, Bool.or_eq_true, List.isPrefixOf_iff_prefix, List.isSuffixOf_iff_suffix]

theorem not_openMark_of_lineMark {trimmed : List Char} (h : lineMark <+: trimmed) :
    ¬ openMark <+: trimmed := by
  obtain ⟨rest, rfl⟩ := h
  simp [lineMark, openMark]

theorem not_closeMark_of_openMark {trimmed : List Char} (h : openMark <+: trimmed) :
    ¬ closeMark <+: trimmed := by
  obtain ⟨rest, rfl⟩ := h
  simp [closeMark, openMark]

/-- **A mark decides where the next line starts.** Without one it starts where this one did. -/
theorem classify_snd (region : Region) (line : List Char) :
    (classify region line).2 = ((mark? line).map Mark.region).getD region := by
  unfold classify mark?
  generalize trim line = trimmed
  cases region with
  | blockComment =>
    simp only [classifyTrimmed, closes_iff]
    split
    · rfl
    · split <;> rfl
  | normal =>
    simp only [classifyTrimmed, List.isPrefixOf_iff_prefix, List.isSuffixOf_iff_suffix]
    by_cases hopen : openMark <+: trimmed
    · have hline : ¬ lineMark <+: trimmed := fun h => not_openMark_of_lineMark h hopen
      have hnonempty : trimmed.isEmpty = false := by
        obtain ⟨rest, rfl⟩ := hopen
        rfl
      simp only [hopen, hline, hnonempty, not_closeMark_of_openMark hopen, false_or, if_true,
        Bool.false_eq_true, if_false]
      -- Only the end of the line is left to ask about, in both definitions.
      split <;> rfl
    · simp only [hopen, if_false]
      -- No other line opens a block, and outside every block a closer changes nothing.
      have hstays : ((if closeMark <+: trimmed ∨ closeMark <:+ trimmed then some Mark.closer
          else none).map Mark.region).getD .normal = .normal := by
        split <;> rfl
      rw [hstays]
      split
      · rfl
      · split <;> rfl

/-- **The kind of a line** by the region in which it starts. -/
theorem classify_fst (region : Region) (line : List Char) :
    (classify region line).1 =
      if region = .blockComment then .comment
      else if trim line = [] then .blank
      else if lineMark <+: trim line ∨ openMark <+: trim line then .comment
      else .code := by
  unfold classify
  generalize trim line = trimmed
  cases region with
  | blockComment => rfl
  | normal =>
    simp only [classifyTrimmed, List.isPrefixOf_iff_prefix, List.isEmpty_iff, reduceCtorEq,
      if_false]
    by_cases hempty : trimmed = []
    · rw [if_pos hempty, if_pos hempty]
    rw [if_neg hempty, if_neg hempty]
    by_cases hline : lineMark <+: trimmed
    · rw [if_pos hline, if_pos (Or.inl hline)]
    rw [if_neg hline]
    by_cases hopen : openMark <+: trimmed
    · rw [if_pos hopen, if_pos (Or.inr hopen)]
    · rw [if_neg hopen, if_neg (not_or.mpr ⟨hline, hopen⟩)]

end Line

/-! ## 2. Lines one after the other -/

namespace Region

open Line (Mark mark? lastMark? trim lineMark openMark)

variable {region : Region} {line : List Char} {lines before : List (List Char)}

theorem classifyAll_append (region : Region) (before rest : List (List Char)) :
    region.classifyAll (before ++ rest) =
      (((region.classifyAll before).1.classifyAll rest).1,
        (region.classifyAll before).2 ++ ((region.classifyAll before).1.classifyAll rest).2) :=
  Transducer.feed_append Line.sorter region before rest

/-- **The last mark of some lines decides where the next line starts.** -/
theorem classifyAll_fst (region : Region) (lines : List (List Char)) :
    (region.classifyAll lines).1 = ((lastMark? lines).map Mark.region).getD region := by
  induction lines using List.reverseRecOn with
  | nil => rfl
  | append_singleton lines line ih =>
    rw [classifyAll_append, classifyAll_cons, Line.classify_snd, ih, lastMark?, lastMark?,
      List.filterMap_append, List.getLast?_append]
    show ((mark? line).map Mark.region).getD _ = _
    cases hmark : mark? line with
    | none => simp [hmark]
    | some mark => simp [hmark]

/-- The kind of a line is the one that it has in the region after the lines before it. -/
theorem getElem?_classifyAll {i : Nat} (h : lines[i]? = some line) :
    (region.classifyAll lines).2[i]? =
      some (Line.classify (region.classifyAll (lines.take i)).1 line).1 := by
  obtain ⟨hi, rfl⟩ := List.getElem?_eq_some_iff.mp h
  have hlength : (region.classifyAll (lines.take i)).2.length = i := by
    rw [length_classifyAll, List.length_take_of_le (Nat.le_of_lt hi)]
  have hlines : lines = lines.take i ++ lines[i] :: lines.drop (i + 1) := by
    rw [List.getElem_cons_drop, List.take_append_drop]
  conv => lhs; rw [hlines, classifyAll_append, classifyAll_cons]
  rw [List.getElem?_append_right (Nat.le_of_eq hlength), hlength, Nat.sub_self]
  rfl

theorem lastMark?_eq_none_iff : lastMark? lines = none ↔ ∀ line ∈ lines, mark? line = none := by
  rw [lastMark?, List.getLast?_eq_none_iff, List.filterMap_eq_nil_iff]

/-- Where there is a mark among the lines, it does not matter in which region they start. -/
theorem classifyAll_fst_eq (region other : Region) (hline : line ∈ lines)
    (hmark : mark? line ≠ none) :
    (region.classifyAll lines).1 = (other.classifyAll lines).1 := by
  rw [classifyAll_fst, classifyAll_fst]
  cases hlast : lastMark? lines with
  | none => exact absurd (lastMark?_eq_none_iff.mp hlast line hline) hmark
  | some mark => rfl

/-- **The region is decided by the last mark alone**, and with it the kind of every line. A block
comment is open before a line exactly when the last mark before it is an opener, or when there is
none and the lines start inside a block comment.

So two runs over the same lines, from whichever regions, are in the same region after any line with
a mark and sort the lines after it alike. Up to the first mark and with the line that has it, the
run that starts inside a block comment gives comments only; there the other run may go another
way. -/
theorem classifyAll_by_last_mark (region : Region) (lines : List (List Char)) :
    (∀ i, (region.classifyAll (lines.take i)).1 = .blockComment ↔
      lastMark? (lines.take i) = some .opener ∨
        lastMark? (lines.take i) = none ∧ region = .blockComment) ∧
    (∀ i line, lines[i]? = some line →
      (region.classifyAll lines).2[i]? = some (
        if (region.classifyAll (lines.take i)).1 = .blockComment then .comment
        else if trim line = [] then .blank
        else if lineMark <+: trim line ∨ openMark <+: trim line then .comment
        else .code)) ∧
    (∀ i line, lines[i]? = some line → mark? line ≠ none → ∀ other : Region, ∀ n, i < n →
      (region.classifyAll (lines.take n)).1 = (other.classifyAll (lines.take n)).1 ∧
      (region.classifyAll lines).2[n]? = (other.classifyAll lines).2[n]?) ∧
    (∀ i line, lines[i]? = some line → (∀ l ∈ lines.take i, mark? l = none) →
      (Region.blockComment.classifyAll lines).2[i]? = some .comment) := by
  refine ⟨fun i => ?_, fun i line hline => ?_, fun i line hline hmark other n hn => ?_,
    fun i line hline hnone => ?_⟩
  · rw [classifyAll_fst]
    rcases lastMark? (lines.take i) with _ | _ | _ <;> simp [Mark.region]
  · rw [getElem?_classifyAll hline, Line.classify_fst]
  · have hmem : line ∈ lines.take n := by
      obtain ⟨hi, rfl⟩ := List.getElem?_eq_some_iff.mp hline
      exact List.mem_take_iff_getElem.mpr ⟨i, by omega, rfl⟩
    have hregion := classifyAll_fst_eq region other hmem hmark
    refine ⟨hregion, ?_⟩
    cases hnext : lines[n]? with
    | none =>
      have hlength := List.getElem?_eq_none_iff.mp hnext
      rw [List.getElem?_eq_none, List.getElem?_eq_none] <;> rwa [length_classifyAll]
    | some next => rw [getElem?_classifyAll hnext, getElem?_classifyAll hnext, hregion]
  · rw [getElem?_classifyAll hline, Line.classify_fst, classifyAll_fst,
      lastMark?_eq_none_iff.mpr hnone]
    rfl

/-- Lines of which the second has the first mark, and with marks that are none in the middle. -/
def lateClose : List (List Char) :=
  ["int a;", "int b; */", "/* c", "d */ e /*", "*/ f /*", "g"].map String.toList

/-- The two runs differ in the second line and agree from there on. -/
theorem classifyAll_by_last_mark_lateClose :
    lateClose[1]? = some "int b; */".toList ∧
      mark? "int b; */".toList = some .closer ∧
      (∀ l ∈ lateClose.take 1, mark? l = none) ∧
      (Region.normal.classifyAll lateClose).2[1]? = some .code ∧
      (Region.blockComment.classifyAll lateClose).2[1]? = some .comment ∧
      lastMark? (lateClose.take 4) = some .opener ∧
      (Region.normal.classifyAll (lateClose.take 4)).1 = .blockComment ∧
      (Region.blockComment.classifyAll (lateClose.take 4)).1 = .blockComment ∧
      (Region.normal.classifyAll lateClose).2[4]? =
        (Region.blockComment.classifyAll lateClose).2[4]? := by
  have hline : lateClose[1]? = some "int b; */".toList := rfl
  have hmark : mark? "int b; */".toList = some .closer := by decide
  have hnone : ∀ l ∈ lateClose.take 1, mark? l = none := by decide
  have hlast : lastMark? (lateClose.take 4) = some .opener := by decide
  obtain ⟨hregion, hkind, hagree, _⟩ := classifyAll_by_last_mark .normal lateClose
  obtain ⟨_, _, _, hcomment⟩ := classifyAll_by_last_mark .blockComment lateClose
  obtain ⟨hsame, hsorted⟩ := hagree 1 _ hline (by decide) .blockComment 4 (by decide)
  have hopen := (hregion 4).mpr (Or.inl hlast)
  refine ⟨hline, hmark, hnone, ?_, hcomment 1 _ hline hnone, hlast, hopen, hsame ▸ hopen, hsorted⟩
  rw [hkind 1 _ hline]
  decide

end Region

end LineTally
