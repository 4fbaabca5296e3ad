import LineTally.Proofs.Line.Octets
import LineTally.Proofs.Line.Words
import LineTally.Proofs.Survey.Stages
import Mathlib.Algebra.Order.BigOperators.Group.List
import Mathlib.Algebra.Order.Group.Nat

/-!
# A run counted in words

How many lines a file has is bounded by how many **bytes** it has, because a record takes up at
least one byte (`length_records_le`) and the lines of a text are the records of its bytes, one by
one. The length of the text would not do as a bound: a malformed byte is decoded to a character of
three bytes.

So a run that keeps files of fewer than `2 ^ 64` bytes altogether can be counted in words.
`wordLines` is the same pass as a run, over the same candidates, with words in place of natural
numbers, and `counted_in_words` says that it comes to the lines of the run, and that neither on the
way from file to file nor on the way from line to line a sum is too large.
-/

set_option autoImplicit false

namespace LineTally

/-! ## 1. Lines and bytes -/

namespace Line

section Records

variable {α : Type} {ends : α → Option Terminator}

/-- Every record takes up a letter: its own first one, or the one that ends it. -/
theorem length_recordsAfter_le (afterReturn : Bool) (input : List α) :
    (recordsAfter ends afterReturn input).length ≤ input.length := by
  induction input generalizing afterReturn with
  | nil => exact Nat.le_refl 0
  | cons x rest ih =>
    rw [recordsAfter, List.length_cons]
    split
    · have hrest := ih false
      cases hrecords : recordsAfter ends false rest with
      | nil => simp [extend]
      | cons first others =>
        rw [hrecords] at hrest
        rw [extend_cons, List.length_cons]
        rw [List.length_cons] at hrest
        omega
    · exact Nat.succ_le_succ (ih true)
    · split
      · exact Nat.le_succ_of_le (ih false)
      · exact Nat.succ_le_succ (ih false)

theorem length_records_le (input : List α) : (records ends input).length ≤ input.length :=
  length_recordsAfter_le false input

end Records

/-- **A content has no more lines than bytes**, however long its text is. -/
theorem length_split_decodeLossy_le (content : Bytes) :
    (split (Utf8.decodeLossy content)).length ≤ content.length := by
  rw [(Octets.forall₂_records content).length_eq]
  exact length_records_le content

/-- The kinds of the lines of a content. -/
def kindsOf (content : Bytes) : List Kind :=
  (Region.normal.classifyAll (split (Utf8.decodeLossy content))).2

theorem length_kindsOf_le (content : Bytes) : (kindsOf content).length ≤ content.length := by
  rw [kindsOf, Region.length_classifyAll]
  exact length_split_decodeLossy_le content

end Line

theorem Counts.total_ofContent_le (content : Bytes) :
    (ofContent content).total ≤ content.length := by
  rw [ofContent, total_ofText]
  exact Line.length_split_decodeLossy_le content

namespace FileTree

variable {t : FileTree} {candidates : List Path} {contents : List Bytes}

/-! ## 2. The pass in words -/

/-- The lines of a content are added to those counted before it, in words. -/
def addContent? (lines : Option WordCounts) (content : Bytes) : Option WordCounts :=
  lines.bind fun sum =>
    (WordCounts.ofText? (Utf8.decodeLossy content)).bind fun counts => sum.add? counts

/-- The lines of the distinct contents among some candidates, counted in words. -/
def wordLines (t : FileTree) (candidates : List Path) : Option WordCounts :=
  (Collection.collectWith t (fun file lines => (addContent? lines file.content, []))
    (some .zero) candidates).1.state

theorem wordLines_eq (t : FileTree) (candidates : List Path) :
    t.wordLines candidates = (t.contents candidates).foldl addContent? (some .zero) := by
  rw [wordLines, Collection.fst_collectWith, contents, List.foldl_map]
  rfl

/-- The lines of some contents are fewer than their bytes. -/
theorem total_sum_le (contents : List Bytes) :
    (contents.map Counts.ofContent).sum.total ≤ (contents.map List.length).sum := by
  rw [Counts.total_sum, List.map_map]
  exact List.sum_le_sum fun content _ => Counts.total_ofContent_le content

/-- **Contents of fewer than `2 ^ 64` bytes are counted in words**, one after the other. -/
theorem holds_foldl_addContent? (hbytes : (contents.map List.length).sum < UInt64.size) :
    WordCounts.Holds (contents.foldl addContent? (some .zero))
      (contents.map Counts.ofContent).sum := by
  induction contents using List.reverseRecOn with
  | nil => exact WordCounts.holds_zero
  | append_singleton contents content ih =>
    simp only [List.map_append, List.sum_append, List.map_cons, List.map_nil, List.sum_cons,
      List.sum_nil, add_zero] at hbytes ⊢
    have hbefore := total_sum_le contents
    have hlast := Counts.total_ofContent_le content
    have hkinds : (Line.kindsOf content).length < UInt64.size := by
      have hlines := Line.length_kindsOf_le content
      omega
    rw [List.foldl_append, List.foldl_cons, List.foldl_nil]
    exact (ih (by omega)).add (WordCounts.holds_ofKinds hkinds) (by omega)

theorem holds_wordLines (hbytes : ((t.contents candidates).map List.length).sum < UInt64.size) :
    WordCounts.Holds (t.wordLines candidates)
      ((t.contents candidates).map Counts.ofContent).sum := by
  rw [wordLines_eq]
  exact holds_foldl_addContent? hbytes

/-- Fewer candidates have no more bytes. -/
theorem bytes_take_le (t : FileTree) (candidates : List Path) (n : Nat) :
    ((t.contents (candidates.take n)).map List.length).sum ≤
      ((t.contents candidates).map List.length).sum := by
  have hprefix : t.contents (candidates.take n) <+: t.contents candidates := by
    have hreadable : Document.readable t candidates =
        Document.readable t (candidates.take n) ++ Document.readable t (candidates.drop n) := by
      rw [Document.readable, Document.readable, Document.readable, ← List.filterMap_append,
        List.take_append_drop]
    rw [contents, contents, Document.kept, Document.kept, hreadable]
    exact (prefix_firstsBy_append _ _).map _
  obtain ⟨others, hothers⟩ := hprefix
  rw [← hothers, List.map_append, List.sum_append]
  exact Nat.le_add_right _ _

/-! ## 3. A run -/

/-- **No sum of a run is too large for a word** unless it keeps `2 ^ 64` bytes. A content has no
more lines than bytes, though its text may be longer than it is. So where the contents that a run
keeps have fewer than `2 ^ 64` bytes together, counting in words comes to the exact counts, with an
exact total: after any number of lines of any content, after any number of candidates, and at the
end, where they are the lines of the run. -/
theorem counted_in_words :
    (∀ content : Bytes,
      (Line.split (Utf8.decodeLossy content)).length ≤ content.length ∧
      (Counts.ofText (Utf8.decodeLossy content)).total ≤ content.length) ∧
    (∃ content : Bytes, content.length < (Utf8.encode (Utf8.decodeLossy content)).length) ∧
    (∀ (t : FileTree) (suffix : Suffix) (root : Path),
      ((t.contents (t.discover suffix root).files).map List.length).sum < UInt64.size →
      (∀ content ∈ t.contents (t.discover suffix root).files, ∀ n,
        WordCounts.Holds (WordCounts.ofKinds? ((Line.kindsOf content).take n))
          (Counts.ofKinds ((Line.kindsOf content).take n))) ∧
      (∀ n, WordCounts.Holds (t.wordLines ((t.discover suffix root).files.take n))
        ((t.contents ((t.discover suffix root).files.take n)).map Counts.ofContent).sum) ∧
      WordCounts.Holds (t.wordLines (t.discover suffix root).files)
        (t.tally suffix root).lines) := by
  refine ⟨fun content => ?_, ⟨[0xFF], by decide⟩, fun t suffix root hbytes => ⟨?_, ?_, ?_⟩⟩
  · exact ⟨Line.length_split_decodeLossy_le content, Counts.total_ofContent_le content⟩
  · intro content hcontent n
    have hone : content.length ≤
        ((t.contents (t.discover suffix root).files).map List.length).sum :=
      List.le_sum_of_mem (List.mem_map_of_mem hcontent)
    have hkinds := Line.length_kindsOf_le content
    have htake := List.length_take_le' n (Line.kindsOf content)
    exact WordCounts.holds_ofKinds (by omega)
  · intro n
    exact holds_wordLines (Nat.lt_of_le_of_lt (bytes_take_le t _ n) hbytes)
  · have hlines : (t.tally suffix root).lines =
        ((t.contents (t.discover suffix root).files).map Counts.ofContent).sum := by
      rw [tally_eq, Counts.foldl_add_eq_sum, Counts.zero_eq, zero_add]
    rw [hlines]
    exact holds_wordLines hbytes

theorem counted_in_words_copied :
    ((copied.contents (copied.discover .standard Name.dot).files).map List.length).sum <
        UInt64.size ∧
      WordCounts.Holds (copied.wordLines (copied.discover .standard Name.dot).files)
        ⟨0, 1, 1⟩ := by
  have hbytes : ((copied.contents (copied.discover .standard Name.dot).files).map
      List.length).sum < UInt64.size := by decide +kernel
  have htally : copied.tally .standard Name.dot = ⟨4, 2, ⟨0, 1, 1⟩⟩ := by decide +kernel
  obtain ⟨_, _, hrun⟩ := counted_in_words
  obtain ⟨_, _, hlines⟩ := hrun copied .standard Name.dot hbytes
  rw [htally] at hlines
  exact ⟨hbytes, hlines⟩

end FileTree

end LineTally
