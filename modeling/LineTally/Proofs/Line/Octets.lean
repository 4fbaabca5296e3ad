import LineTally.Proofs.Line.Records
import LineTally.Proofs.Line.Totals
import LineTally.Proofs.Text.Pieces
import Mathlib.Data.List.Forall2

/-!
# Counting bytes

Everything that the counting rules look for is a byte below `0x80`: line ends, padding and the
comment marks. So lines can be counted without decoding anything. This file has such a counter,
which cuts the byte string itself into records and sorts those, and proves that it agrees with
decoding first, whatever the bytes are:

* `forall₂_records` — the lines of the decoded text stand for the records of the bytes, one by one;
* `classify_eq` — a line has the kind of the record that it stands for, and so does the next one;
* `counts_decodeLossy` — hence the same kinds, line by line, the same region at the end and the
  same counts.

What carries all three is that a decoded text stands for its bytes character by character
(`Utf8.reads_decodeLossy`): a plain byte is a character of its own, and any other character stands
for at least one byte, none of them plain. The former is why no mark is lost or made up next to
malformed bytes, the latter why a record that is not blank does not become blank.
-/

set_option autoImplicit false

namespace LineTally.Octets

open Utf8 (Reads)

/-! ## 1. The counter -/

def terminator (b : UInt8) : Option Line.Terminator :=
  if b = 0x0A then some .lineFeed else if b = 0x0D then some .carriageReturn else none

def records (bytes : Bytes) : List Bytes := Line.records terminator bytes

def isPadding (b : UInt8) : Bool := decide (b ≤ 0x20)

def strip (record : Bytes) : Bytes :=
  ((record.dropWhile isPadding).reverse.dropWhile isPadding).reverse

def lineMark : Bytes := [0x2F, 0x2F]

def openMark : Bytes := [0x2F, 0x2A]

def closeMark : Bytes := [0x2A, 0x2F]

/-- The kind of a stripped record, and where the next one starts. -/
def classifyStripped (region : Region) (stripped : Bytes) : Line.Kind × Region :=
  match region with
  | .blockComment =>
    if closeMark <+: stripped ∨ closeMark <:+ stripped then (.comment, .normal)
    else (.comment, .blockComment)
  | .normal =>
    if stripped = [] then (.blank, .normal)
    else if lineMark <+: stripped then (.comment, .normal)
    else if openMark <+: stripped then
      if closeMark <:+ stripped then (.comment, .normal) else (.comment, .blockComment)
    else (.code, .normal)

def classify (region : Region) (record : Bytes) : Line.Kind × Region :=
  classifyStripped region (strip record)

/-- The region after the records, and the kind of each of them in order. -/
def classifyAll (region : Region) : List Bytes → Region × List Line.Kind
  | [] => (region, [])
  | record :: records =>
    let sorted := classify region record
    let others := classifyAll sorted.2 records
    (others.1, sorted.1 :: others.2)

/-- The counts of a byte string. It starts outside any block comment. -/
def counts (bytes : Bytes) : Counts :=
  let kinds := (classifyAll .normal (records bytes)).2
  ⟨kinds.count .blank, kinds.count .comment, kinds.count .code⟩

/-! ## 2. Records -/

theorem terminator_plain {b : UInt8} (h : b.toNat < 0x80) :
    Line.terminator (Char.ofNat b.toNat) = terminator b := by
  have hfeed : Char.ofNat b.toNat = '\n' ↔ b = 0x0A :=
    @Utf8.ofNat_toNat_inj b 0x0A h (by decide)
  have hreturn : Char.ofNat b.toNat = '\r' ↔ b = 0x0D :=
    @Utf8.ofNat_toNat_inj b 0x0D h (by decide)
  simp only [Line.terminator, terminator, hfeed, hreturn]

theorem terminator_char {c : Char} (h : 0x80 ≤ c.toNat) : Line.terminator c = none := by
  have hfeed : c ≠ '\n' := by
    rintro rfl
    exact absurd h (by decide)
  have hreturn : c ≠ '\r' := by
    rintro rfl
    exact absurd h (by decide)
  rw [Line.terminator, if_neg hfeed, if_neg hreturn]

theorem terminator_byte {b : UInt8} (h : 0x80 ≤ b.toNat) : terminator b = none := by
  have hfeed : b ≠ 0x0A := by
    rintro rfl
    exact absurd h (by decide)
  have hreturn : b ≠ 0x0D := by
    rintro rfl
    exact absurd h (by decide)
  rw [terminator, if_neg hfeed, if_neg hreturn]

theorem forall₂_extend {start : List Char} {word : Bytes} {lines : List (List Char)}
    {recs : List Bytes} (hstart : Reads start word) (h : List.Forall₂ Reads lines recs) :
    List.Forall₂ Reads (Line.extend start lines) (Line.extend word recs) := by
  cases h with
  | nil =>
    rw [Line.extend, Line.extend, hstart.isEmpty_eq]
    split
    · exact .nil
    · exact .cons hstart .nil
  | cons head tail => exact .cons (hstart.append head) tail

/-- Reading goes on record by record, also right after a carriage return. -/
theorem forall₂_recordsAfter {text : List Char} {bytes : Bytes} (h : Reads text bytes)
    (afterReturn : Bool) :
    List.Forall₂ Reads (Line.recordsAfter Line.terminator afterReturn text)
      (Line.recordsAfter terminator afterReturn bytes) := by
  induction h generalizing afterReturn with
  | nil => exact .nil
  | @cons c word text bytes head tail ih =>
    have hhead : Reads [c] word := by
      rw [← List.append_nil word]
      exact .cons head .nil
    cases head with
    | @plain b ascii =>
      rw [List.singleton_append, Line.recordsAfter, Line.recordsAfter, terminator_plain ascii]
      cases terminator b with
      | none => exact forall₂_extend hhead (ih false)
      | some ending =>
        cases ending with
        | carriageReturn => exact .cons .nil (ih true)
        | lineFeed =>
          cases afterReturn with
          | true => exact ih false
          | false => exact .cons .nil (ih false)
    | wide char nonempty bytes =>
      rw [← List.singleton_append, Line.recordsAfter_append (List.cons_ne_nil c [])
        (by simpa using terminator_char char),
        Line.recordsAfter_append nonempty fun b hb => terminator_byte (bytes b hb)]
      exact forall₂_extend hhead (ih false)

/-- **The lines of a decoded text stand for the records of its bytes.** -/
theorem forall₂_records (bytes : Bytes) :
    List.Forall₂ Reads (Line.split (Utf8.decodeLossy bytes)) (records bytes) := by
  rw [Line.split_eq_records]
  exact forall₂_recordsAfter (Utf8.reads_decodeLossy bytes) false

/-! ## 3. Kinds -/

theorem isPadding_iff {c : Char} : Line.isPadding c = true ↔ c.toNat ≤ 0x20 := by
  rw [Line.isPadding, decide_eq_true_iff, Char.le_def, UInt32.le_iff_toNat_le]
  rfl

theorem isPadding_plain (b : UInt8) (h : b.toNat < 0x80) :
    Line.isPadding (Char.ofNat b.toNat) = isPadding b := by
  rw [Bool.eq_iff_iff, isPadding_iff, Utf8.toNat_ofNat_plain h, isPadding, decide_eq_true_iff,
    UInt8.le_iff_toNat_le]
  rfl

theorem isPadding_char (c : Char) (h : 0x80 ≤ c.toNat) : Line.isPadding c = false := by
  rw [Bool.eq_false_iff, ne_eq, isPadding_iff]
  omega

theorem isPadding_byte (b : UInt8) (h : 0x80 ≤ b.toNat) : isPadding b = false := by
  have hspace : (0x20 : UInt8).toNat = 0x20 := rfl
  rw [isPadding, decide_eq_false_iff_not, UInt8.le_iff_toNat_le, hspace]
  omega

section Kinds

variable {line : List Char} {record : Bytes}

theorem reads_strip (h : Reads line record) : Reads (Line.trim line) (strip record) := by
  have hfront := h.dropWhile isPadding_plain isPadding_char isPadding_byte
  have hback := hfront.reverse.dropWhile isPadding_plain isPadding_char isPadding_byte
  exact hback.reverse

/-- The rules look at plain bytes only. -/
theorem classifyTrimmed_eq (region : Region) (h : Reads line record) :
    Line.classifyTrimmed region line = classifyStripped region record := by
  have hempty : line.isEmpty = true ↔ record = [] := by rw [h.isEmpty_eq, List.isEmpty_iff]
  have hline : Line.lineMark <+: line ↔ lineMark <+: record :=
    h.prefix_iff lineMark (by simp [lineMark])
  have hopen : Line.openMark <+: line ↔ openMark <+: record :=
    h.prefix_iff openMark (by simp [openMark])
  have hclose : Line.closeMark <+: line ↔ closeMark <+: record :=
    h.prefix_iff closeMark (by simp [closeMark])
  have hcloses : Line.closeMark <:+ line ↔ closeMark <:+ record :=
    h.suffix_iff closeMark (by simp [closeMark])
  cases region with
  | blockComment =>
    simp only [Line.classifyTrimmed, classifyStripped, Line.closes, Bool.or_eq_true,
      List.isPrefixOf_iff_prefix, List.isSuffixOf_iff_suffix, hclose, hcloses]
    split <;> rfl
  | normal =>
    simp only [Line.classifyTrimmed, classifyStripped, List.isPrefixOf_iff_prefix,
      List.isSuffixOf_iff_suffix, hempty, hline, hopen, hcloses]
    split
    · rfl
    split
    · rfl
    split
    · split <;> rfl
    · rfl

/-- **A line is of the kind of the record that it stands for**, and leaves the same region. -/
theorem classify_eq (region : Region) (h : Reads line record) :
    Line.classify region line = classify region record :=
  classifyTrimmed_eq region (reads_strip h)

theorem classifyAll_eq {lines : List (List Char)} {recs : List Bytes} (region : Region)
    (h : List.Forall₂ Reads lines recs) : region.classifyAll lines = classifyAll region recs := by
  induction h generalizing region with
  | nil => rfl
  | cons head tail ih =>
    rw [Region.classifyAll_cons, classify_eq region head, ih]
    rfl

end Kinds

/-- **Decoding changes nothing about the lines.** Whatever the bytes are and in whichever region
they start, the kinds of the lines, in order, and the region after the last one are those that the
bytes alone give, and so are the counts. -/
theorem counts_decodeLossy (bytes : Bytes) :
    (∀ region : Region, region.classifyAll (Line.split (Utf8.decodeLossy bytes)) =
      classifyAll region (records bytes)) ∧
    Counts.ofText (Utf8.decodeLossy bytes) = counts bytes := by
  have hkinds : ∀ region : Region, region.classifyAll (Line.split (Utf8.decodeLossy bytes)) =
      classifyAll region (records bytes) :=
    fun region => classifyAll_eq region (forall₂_records bytes)
  refine ⟨hkinds, ?_⟩
  rw [Counts.ofText, Counts.ofKinds_eq, hkinds .normal]
  rfl

/-- The malformed parts are cut short by a comment mark, a carriage return and the end. -/
example :
    counts [0xE2, 0x82, 0x2F, 0x2A, 0x0D, 0x0A, 0xED, 0xA0, 0x0D, 0x2F, 0x2A, 0x20, 0xF0] =
      ⟨0, 1, 2⟩ := by decide

end LineTally.Octets
