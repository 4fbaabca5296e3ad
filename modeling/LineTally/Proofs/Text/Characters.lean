import LineTally.Proofs.Text.Pieces
import Mathlib.Data.List.Basic

/-!
# Characters among other bytes

Bytes that are the encoding of a character are read as that character, whatever stands around them
(`pieces_append_encode`). Nothing has to be known of the bytes before: a byte that starts a
character goes on with none, so that whatever has begun there is over (`pieces_append`), and from
then on the decoder waits for just the bytes that come (`feed_continuation`). The ranges that keep
out overlong forms, surrogates and values above U+10FFFF do not keep out any character.

So a text that is encoded is a part of the decoded text (`decodeLossy_append_encode`). The converse
is true where U+FFFD is not in question, which is the only character that may stand for bytes that
are not its own (`encode_suffix_of_suffix`).
-/

set_option autoImplicit false

namespace LineTally.Utf8

/-- A byte that goes on with a character and starts none. -/
def IsContinuation (b : UInt8) : Prop := 0x80 ≤ b.toNat ∧ b.toNat ≤ 0xBF

/-! ## 1. A byte that starts something -/

section Starts

variable {s : Option Pending} {p : Pending} {b : UInt8}

/-- **Where a byte goes on with nothing the decoder starts afresh.** -/
theorem advance_of_not_continuation (hs : ∀ p ∈ s, p.IsSound) (hb : ¬ IsContinuation b) :
    advance s b = ((begin b).1, decoder.finish s ++ (begin b).2) := by
  cases s with
  | none => rfl
  | some p =>
    have hp := hs p rfl
    have hrange : ¬ (p.low ≤ b ∧ b ≤ p.high) := by
      rintro ⟨hlow, hhigh⟩
      apply hb
      constructor
      · exact hp.low_le.trans (UInt8.le_iff_toNat_le.mp hlow)
      · exact (UInt8.le_iff_toNat_le.mp hhigh).trans hp.high_le
    unfold advance
    dsimp only
    rw [if_neg hrange]
    rfl

/-- **Bytes may be cut where one goes on with nothing**, and read apart. -/
theorem pieces_append (before after : Bytes) (hb : ¬ IsContinuation b) :
    pieces (before ++ b :: after) = pieces before ++ pieces (b :: after) := by
  have hstep := advance_of_not_continuation (keeps_feed before).pending hb
  have hnext : decoder.step (decoder.feed decoder.start before).1 b =
      ((begin b).1, decoder.finish (decoder.feed decoder.start before).1 ++ (begin b).2) := hstep
  have hfirst : decoder.step decoder.start b = begin b := rfl
  unfold pieces
  rw [Transducer.run_eq, Transducer.run_eq, Transducer.run_eq, Transducer.feed_append,
    Transducer.feed_cons, Transducer.feed_cons, hnext, hfirst]
  simp only [List.append_assoc]

theorem begin_one (h : b.toNat < 0x80) : begin b = (none, [.char (Char.ofNat b.toNat)]) := by
  unfold begin
  dsimp only
  rw [if_pos h]

theorem begin_two (h : 0xC2 ≤ b.toNat) (h' : b.toNat < 0xE0) :
    begin b = (some { bytes := [b], value := b.toNat - 0xC0, more := 0 }, []) := by
  unfold begin
  dsimp only
  rw [if_neg (by omega), if_neg (by omega), if_pos h']

theorem begin_three (h : 0xE0 ≤ b.toNat) (h' : b.toNat < 0xF0) :
    begin b = (some
      { bytes := [b], value := b.toNat - 0xE0, more := 1,
        low := if b.toNat = 0xE0 then 0xA0 else 0x80,
        high := if b.toNat = 0xED then 0x9F else 0xBF }, []) := by
  unfold begin
  dsimp only
  rw [if_neg (by omega), if_neg (by omega), if_neg (by omega), if_pos h']

theorem begin_four (h : 0xF0 ≤ b.toNat) (h' : b.toNat < 0xF5) :
    begin b = (some
      { bytes := [b], value := b.toNat - 0xF0, more := 2,
        low := if b.toNat = 0xF0 then 0x90 else 0x80,
        high := if b.toNat = 0xF4 then 0x8F else 0xBF }, []) := by
  unfold begin
  dsimp only
  rw [if_neg (by omega), if_neg (by omega), if_neg (by omega), if_neg (by omega), if_pos h']

end Starts

/-! ## 2. The bytes that follow -/

section Follows

variable {p : Pending} {b : UInt8} {n value : Nat}

/-- What the next byte of a character brings: it lies in the range that the decoder waits for, and
its six bits go after those that there are. -/
theorem accepts_continuation (hvalue : p.value = value / 64 ^ (n + 1))
    (hlow : p.low.toNat ≤ 0x80 + value / 64 ^ n % 64)
    (hhigh : 0x80 + value / 64 ^ n % 64 ≤ p.high.toNat)
    (hb : b = UInt8.ofNat (0x80 + value / 64 ^ n % 64)) :
    (p.low ≤ b ∧ b ≤ p.high) ∧ p.value * 64 + (b.toNat - 0x80) = value / 64 ^ n := by
  have hbyte : b.toNat = 0x80 + value / 64 ^ n % 64 := by
    rw [hb, UInt8.toNat_ofNat']
    omega
  refine ⟨⟨?_, ?_⟩, ?_⟩
  · rw [UInt8.le_iff_toNat_le, hbyte]
    exact hlow
  · rw [UInt8.le_iff_toNat_le, hbyte]
    exact hhigh
  · rw [hbyte, hvalue, pow_succ, ← Nat.div_div_eq_div_mul]
    omega

/-- **The decoder waits for the bytes that come**: if it holds the first bits of a character, the
bytes with the other ones complete it. -/
theorem feed_continuation (hmore : p.more = n) (hvalue : p.value = value / 64 ^ (n + 1))
    (hlow : p.low.toNat ≤ 0x80 + value / 64 ^ n % 64)
    (hhigh : 0x80 + value / 64 ^ n % 64 ≤ p.high.toNat) :
    decoder.feed (some p) (continuation (n + 1) value) = (none, [.char (Char.ofNat value)]) := by
  have hadvance : decoder.step = advance := rfl
  induction n generalizing p with
  | zero =>
    obtain ⟨hrange, hbits⟩ := accepts_continuation hvalue hlow hhigh rfl
    rw [pow_zero, Nat.div_one] at hrange hbits
    rw [continuation, pow_zero, Nat.div_one, Transducer.feed_cons, hadvance, advance]
    simp only [if_pos hrange, hmore, hbits]
    rfl
  | succ n ih =>
    obtain ⟨hrange, hbits⟩ := accepts_continuation hvalue hlow hhigh rfl
    have hlast : value / 64 ^ n % 64 < 64 := Nat.mod_lt _ (by decide)
    rw [continuation, Transducer.feed_cons, hadvance, advance]
    simp only [if_pos hrange, hmore, hbits]
    rw [ih rfl rfl]
    · rfl
    · exact Nat.le_add_right _ _
    · show 0x80 + value / 64 ^ n % 64 ≤ 0xBF
      omega

end Follows

/-! ## 3. A whole character -/

/-- **What the encoding of a character is to the decoder**: its first byte goes on with nothing, and
it is read as the character. -/
structure ReadsAs (word : Bytes) (c : Char) : Prop where
  starts : ∃ b rest, word = b :: rest ∧ ¬ IsContinuation b
  feed : decoder.feed none word = (none, [.char c])

theorem readsAs_lead {p : Pending} {b : UInt8} {n value : Nat} (hb : 0xC0 ≤ b.toNat)
    (hbegin : begin b = (some p, [])) (hmore : p.more = n)
    (hvalue : p.value = value / 64 ^ (n + 1)) (hlow : p.low.toNat ≤ 0x80 + value / 64 ^ n % 64)
    (hhigh : 0x80 + value / 64 ^ n % 64 ≤ p.high.toNat) :
    ReadsAs (b :: continuation (n + 1) value) (Char.ofNat value) := by
  constructor
  · refine ⟨b, _, rfl, ?_⟩
    unfold IsContinuation
    omega
  · have hstep : decoder.step none b = (some p, []) := hbegin
    rw [Transducer.feed_cons, hstep, feed_continuation hmore hvalue hlow hhigh]
    rfl

section Lengths

variable {value : Nat}

theorem readsAs_one (h : value < 0x80) : ReadsAs [UInt8.ofNat value] (Char.ofNat value) := by
  have hbyte : (UInt8.ofNat value).toNat = value := by
    rw [UInt8.toNat_ofNat']
    omega
  constructor
  · refine ⟨_, _, rfl, ?_⟩
    unfold IsContinuation
    omega
  · have hbegin := begin_one (b := UInt8.ofNat value) (by omega)
    rw [hbyte] at hbegin
    have hstep : decoder.step none (UInt8.ofNat value) = (none, [.char (Char.ofNat value)]) :=
      hbegin
    rw [Transducer.feed_cons, hstep]
    rfl

theorem readsAs_two (hlow : 0x80 ≤ value) (hhigh : value < 0x800) :
    ReadsAs (UInt8.ofNat (0xC0 + value / 64) :: continuation 1 value) (Char.ofNat value) := by
  have hbyte : (UInt8.ofNat (0xC0 + value / 64)).toNat = 0xC0 + value / 64 := by
    rw [UInt8.toNat_ofNat']
    omega
  apply readsAs_lead (by omega) (begin_two (by omega) (by omega)) rfl
  · show (UInt8.ofNat (0xC0 + value / 64)).toNat - 0xC0 = value / 64 ^ 1
    omega
  · exact Nat.le_add_right _ _
  · show 0x80 + value / 64 ^ 0 % 64 ≤ 0xBF
    omega

theorem readsAs_three (hlow : 0x800 ≤ value) (hhigh : value < 0x10000)
    (hvalid : value.isValidChar) :
    ReadsAs (UInt8.ofNat (0xE0 + value / 64 ^ 2) :: continuation 2 value) (Char.ofNat value) := by
  have hbyte : (UInt8.ofNat (0xE0 + value / 64 ^ 2)).toNat = 0xE0 + value / 64 ^ 2 := by
    rw [UInt8.toNat_ofNat']
    omega
  apply readsAs_lead (by omega) (begin_three (by omega) (by omega)) rfl
  · show (UInt8.ofNat (0xE0 + value / 64 ^ 2)).toNat - 0xE0 = value / 64 ^ 2
    omega
  · dsimp only
    rw [hbyte]
    split
    · show 0xA0 ≤ 0x80 + value / 64 ^ 1 % 64
      omega
    · exact Nat.le_add_right _ _
  · -- Only in a surrogate, which is no character, would the byte after `ED` be greater.
    unfold Nat.isValidChar at hvalid
    dsimp only
    rw [hbyte]
    split
    · show 0x80 + value / 64 ^ 1 % 64 ≤ 0x9F
      omega
    · show 0x80 + value / 64 ^ 1 % 64 ≤ 0xBF
      omega

theorem readsAs_four (hlow : 0x10000 ≤ value) (hhigh : value < 0x110000) :
    ReadsAs (UInt8.ofNat (0xF0 + value / 64 ^ 3) :: continuation 3 value) (Char.ofNat value) := by
  have hbyte : (UInt8.ofNat (0xF0 + value / 64 ^ 3)).toNat = 0xF0 + value / 64 ^ 3 := by
    rw [UInt8.toNat_ofNat']
    omega
  apply readsAs_lead (by omega) (begin_four (by omega) (by omega)) rfl
  · show (UInt8.ofNat (0xF0 + value / 64 ^ 3)).toNat - 0xF0 = value / 64 ^ 3
    omega
  · dsimp only
    rw [hbyte]
    split
    · show 0x90 ≤ 0x80 + value / 64 ^ 2 % 64
      omega
    · exact Nat.le_add_right _ _
  · dsimp only
    rw [hbyte]
    split
    · show 0x80 + value / 64 ^ 2 % 64 ≤ 0x8F
      omega
    · show 0x80 + value / 64 ^ 2 % 64 ≤ 0xBF
      omega

end Lengths

/-- **The encoding of a character is read as the character.** -/
theorem readsAs_encodeChar (c : Char) : ReadsAs (String.utf8EncodeChar c) c := by
  have hvalid : c.toNat.isValidChar := c.valid
  have hbound : c.toNat < 0x110000 := by
    unfold Nat.isValidChar at hvalid
    omega
  rw [← Char.ofNat_toNat c]
  by_cases hone : c.toNat < 0x80
  · rw [encode_one hone]
    exact readsAs_one hone
  by_cases htwo : c.toNat < 0x800
  · rw [encode_two (by omega) htwo]
    exact readsAs_two (by omega) htwo
  by_cases hthree : c.toNat < 0x10000
  · rw [encode_three (by omega) hthree hvalid]
    exact readsAs_three (by omega) hthree hvalid
  · rw [encode_four (by omega) hbound]
    exact readsAs_four (by omega) hbound

/-- **A character is found wherever it stands.** -/
theorem pieces_append_encodeChar (before : Bytes) (c : Char) (after : Bytes) :
    pieces (before ++ (String.utf8EncodeChar c ++ after)) =
      pieces before ++ .char c :: pieces after := by
  obtain ⟨⟨b, rest, hword, hb⟩, hfeed⟩ := readsAs_encodeChar c
  have hstart : decoder.feed decoder.start (String.utf8EncodeChar c) = (none, [.char c]) := hfeed
  have hnext : pieces (String.utf8EncodeChar c ++ after) = .char c :: pieces after := by
    unfold pieces
    rw [Transducer.run_eq, Transducer.run_eq, Transducer.feed_append, hstart]
    rfl
  rw [← hnext, hword]
  exact pieces_append before (rest ++ after) hb

theorem pieces_append_encode (before : Bytes) (text : List Char) :
    pieces (before ++ encode text) = pieces before ++ text.map .char := by
  have hnone : ∀ before : Bytes, pieces (before ++ encode []) = pieces before := by
    intro before
    rw [encode, List.flatMap_nil, List.append_nil]
  induction text generalizing before with
  | nil => rw [hnone, List.map_nil, List.append_nil]
  | cons c text ih =>
    have htail := ih []
    rw [List.nil_append] at htail
    have hencode : encode (c :: text) = String.utf8EncodeChar c ++ encode text := rfl
    have hempty : pieces [] = [] := rfl
    rw [hencode, pieces_append_encodeChar, htail, hempty]
    rfl

/-! ## 4. The decoded text -/

theorem decodeLossy_append_encodeChar (before : Bytes) (c : Char) (after : Bytes) :
    decodeLossy (before ++ (String.utf8EncodeChar c ++ after)) =
      decodeLossy before ++ c :: decodeLossy after := by
  rw [decodeLossy, pieces_append_encodeChar, List.map_append]
  rfl

/-- **An encoded text is read where it stands.** -/
theorem decodeLossy_append_encode (before : Bytes) (text : List Char) :
    decodeLossy (before ++ encode text) = decodeLossy before ++ text := by
  have hsame : (text.map Piece.char).map Piece.lossy = text := by
    rw [List.map_map]
    exact List.map_id text
  rw [decodeLossy, pieces_append_encode, List.map_append, hsame]
  rfl

/-- A character that is not U+FFFD stands for the bytes of its own encoding. -/
theorem Piece.bytes_of_lossy_ne {p : Piece} (h : p.lossy ≠ replacement) :
    p.bytes = String.utf8EncodeChar p.lossy := by
  cases p with
  | char c => rfl
  | malformed bytes => exact absurd rfl h

/-- **What a decoded text ends with is what its bytes end with**, U+FFFD apart. -/
theorem encode_suffix_of_suffix {text : List Char} {bytes : Bytes} (hno : replacement ∉ text)
    (h : text <:+ decodeLossy bytes) : encode text <:+ bytes := by
  obtain ⟨start, hstart⟩ := h
  obtain ⟨front, back, hpieces, _, rfl⟩ := List.append_eq_map_iff.mp hstart
  have hback : back.flatMap Piece.bytes = encode (back.map Piece.lossy) := by
    rw [encode, List.flatMap_map]
    apply List.flatMap_congr
    intro p hp
    apply Piece.bytes_of_lossy_ne
    intro heq
    exact hno (List.mem_map.mpr ⟨p, hp, heq⟩)
  rw [← flatMap_bytes_pieces bytes, hpieces, List.flatMap_append, hback]
  exact List.suffix_append _ _

end LineTally.Utf8
