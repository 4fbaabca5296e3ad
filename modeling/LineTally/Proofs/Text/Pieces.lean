import LineTally.Text.Utf8
import Mathlib.Data.List.Induction
import Mathlib.Tactic.Ring

/-!
# The pieces of a byte string

The decoder cuts a byte string into characters and malformed parts. Two facts say what these have
to do with the bytes:

* `flatMap_bytes_pieces` — nothing is lost and nothing is read twice: the encodings of the
  characters and the bytes of the malformed parts, put together again, are the byte string;
* `isSound_of_mem_pieces` — a byte below `0x80` is a character by itself, and occurs in no other
  piece.

Together they say of a decoded text that it stands for its bytes, character by character
(`reads_decodeLossy`), and that is all that one needs to know to look for something in the bytes
instead of the text, as long as it is made of bytes below `0x80`.

Both facts rest on what is known of a character that has begun, of which the decoder has seen some
bytes. Whatever bits are brought by the bytes that it still accepts, the character that they make
up is encoded by the bytes seen and the bytes to come (`Pending.IsSound.completes`). This is an
invariant: `begin` makes it true, by the ranges in which the next byte has to lie, and each byte
after that keeps it (`keeps_advance`).
-/

set_option autoImplicit false

namespace LineTally.Utf8

/-! ## 1. Encodings -/

/-- The last `n` bytes of an encoding, which carry six bits each. -/
def continuation : Nat → Nat → Bytes
  | 0, _ => []
  | n + 1, value => UInt8.ofNat (0x80 + value / 64 ^ n % 64) :: continuation n value

/-- Bits before those that are carried do not matter. -/
theorem continuation_add (n before value : Nat) :
    continuation n (before * 64 ^ n + value) = continuation n value := by
  induction n generalizing before with
  | zero => rfl
  | succ n ih =>
    have hpos : 0 < 64 ^ n := Nat.pow_pos (by decide)
    have hsplit : before * 64 ^ (n + 1) + value = before * 64 * 64 ^ n + value := by ring
    have hdigit : (before * 64 * 64 ^ n + value) / 64 ^ n = before * 64 + value / 64 ^ n := by
      rw [Nat.add_comm, Nat.add_mul_div_right _ _ hpos, Nat.add_comm]
    have hsame : (before * 64 + value / 64 ^ n) % 64 = value / 64 ^ n % 64 := by omega
    rw [hsplit, continuation, hdigit, hsame, ih, continuation]

theorem toNat_val_ofNat {value : Nat} (h : value.isValidChar) :
    (Char.ofNat value).val.toNat = value := by
  rw [Char.ofNat, dif_pos h]
  rfl

theorem encode_one {value : Nat} (h : value < 0x80) :
    String.utf8EncodeChar (Char.ofNat value) = [UInt8.ofNat value] := by
  have hval : (Char.ofNat value).val.toNat = value := by
    apply toNat_val_ofNat
    unfold Nat.isValidChar
    omega
  simp only [String.utf8EncodeChar, hval]
  rw [if_pos (by omega)]

theorem encode_two {value : Nat} (hlow : 0x80 ≤ value) (hhigh : value < 0x800) :
    String.utf8EncodeChar (Char.ofNat value) =
      UInt8.ofNat (0xC0 + value / 64) :: continuation 1 value := by
  have hval : (Char.ofNat value).val.toNat = value := by
    apply toNat_val_ofNat
    unfold Nat.isValidChar
    omega
  have hlead : value / 64 % 32 = value / 64 := by omega
  simp only [String.utf8EncodeChar, hval]
  rw [if_neg (by omega), if_pos (by omega)]
  simp [continuation, hlead, Nat.add_comm]

theorem encode_three {value : Nat} (hlow : 0x800 ≤ value) (hhigh : value < 0x10000)
    (hvalid : value.isValidChar) :
    String.utf8EncodeChar (Char.ofNat value) =
      UInt8.ofNat (0xE0 + value / 64 ^ 2) :: continuation 2 value := by
  have hval := toNat_val_ofNat hvalid
  have hlead : value / 4096 % 16 = value / 4096 := by omega
  simp only [String.utf8EncodeChar, hval]
  rw [if_neg (by omega), if_neg (by omega), if_pos (by omega)]
  simp [continuation, hlead, Nat.add_comm]

theorem encode_four {value : Nat} (hlow : 0x10000 ≤ value) (hhigh : value < 0x110000) :
    String.utf8EncodeChar (Char.ofNat value) =
      UInt8.ofNat (0xF0 + value / 64 ^ 3) :: continuation 3 value := by
  have hval : (Char.ofNat value).val.toNat = value := by
    apply toNat_val_ofNat
    unfold Nat.isValidChar
    omega
  have hlead : value / 262144 % 8 = value / 262144 := by omega
  simp only [String.utf8EncodeChar, hval]
  rw [if_neg (by omega), if_neg (by omega), if_neg (by omega)]
  simp [continuation, hlead, Nat.add_comm]

/-- No byte of a longer encoding is a character by itself. -/
theorem le_of_mem_encode {c : Char} {b : UInt8} (hc : 0x80 ≤ c.toNat)
    (h : b ∈ String.utf8EncodeChar c) : 0x80 ≤ b.toNat := by
  have hval : c.val.toNat = c.toNat := rfl
  simp only [String.utf8EncodeChar, hval] at h
  rw [if_neg (by omega)] at h
  split at h
  · simp only [List.mem_cons, List.not_mem_nil, or_false] at h
    rcases h with rfl | rfl <;> simp only [UInt8.toNat_ofNat'] <;> omega
  · split at h
    · simp only [List.mem_cons, List.not_mem_nil, or_false] at h
      rcases h with rfl | rfl | rfl <;> simp only [UInt8.toNat_ofNat'] <;> omega
    · simp only [List.mem_cons, List.not_mem_nil, or_false] at h
      rcases h with rfl | rfl | rfl | rfl <;> simp only [UInt8.toNat_ofNat'] <;> omega

/-! ## 2. Characters and the bytes that they stand for -/

/-- **What a character of a decoded text may stand for**: one byte that is a character by itself, or
some bytes of which none is. -/
inductive StandsFor : Char → Bytes → Prop
  | plain {b : UInt8} (ascii : b.toNat < 0x80) : StandsFor (Char.ofNat b.toNat) [b]
  | wide {c : Char} {word : Bytes} (char : 0x80 ≤ c.toNat) (nonempty : word ≠ [])
      (bytes : ∀ b ∈ word, 0x80 ≤ b.toNat) : StandsFor c word

/-- The bytes that a piece was read from. -/
def Piece.bytes : Piece → Bytes
  | char c => String.utf8EncodeChar c
  | malformed bytes => bytes

/-- A piece is sound if the character in its place stands for its bytes. -/
def Piece.IsSound (p : Piece) : Prop := StandsFor p.lossy p.bytes

theorem isSound_char (c : Char) : (Piece.char c).IsSound := by
  show StandsFor c (String.utf8EncodeChar c)
  by_cases h : c.toNat < 0x80
  · have hbyte : (UInt8.ofNat c.toNat).toNat = c.toNat := by
      rw [UInt8.toNat_ofNat']
      omega
    have hplain := @StandsFor.plain (UInt8.ofNat c.toNat) (by omega)
    rw [← Char.ofNat_toNat c, encode_one h, Char.ofNat_toNat]
    rwa [hbyte, Char.ofNat_toNat] at hplain
  · have hwide : 0x80 ≤ c.toNat := Nat.le_of_not_lt h
    exact .wide hwide String.utf8EncodeChar_ne_nil fun b hb => le_of_mem_encode hwide hb

theorem isSound_malformed {bytes : Bytes} (hne : bytes ≠ []) (hwide : ∀ b ∈ bytes, 0x80 ≤ b.toNat) :
    (Piece.malformed bytes).IsSound := by
  show StandsFor replacement bytes
  exact .wide (by decide) hne hwide

/-! ## 3. A character that has begun -/

/-- **What is known of a character that has begun**: whichever byte comes that it waits for, and
whatever follows, the character is encoded by the bytes seen and those. -/
structure Pending.IsSound (p : Pending) : Prop where
  nonempty : p.bytes ≠ []
  wide : ∀ b ∈ p.bytes, 0x80 ≤ b.toNat
  low_le : 0x80 ≤ p.low.toNat
  high_le : p.high.toNat ≤ 0xBF
  completes : ∀ rest, p.low.toNat ≤ 0x80 + rest / 64 ^ p.more →
    0x80 + rest / 64 ^ p.more ≤ p.high.toNat →
    String.utf8EncodeChar (Char.ofNat (p.value * 64 ^ (p.more + 1) + rest)) =
      p.bytes ++ continuation (p.more + 1) rest

/-- The bytes of a character that has begun. -/
def pendingBytes : Option Pending → Bytes
  | none => []
  | some p => p.bytes

/-- What the decoder has made of some bytes: pieces, and a character that has begun. -/
structure Keeps (bytes : Bytes) (made : Option Pending × List Piece) : Prop where
  pending : ∀ p ∈ made.1, p.IsSound
  pieces : ∀ q ∈ made.2, q.IsSound
  bytes_eq : made.2.flatMap Piece.bytes ++ pendingBytes made.1 = bytes

section Leads

variable {b : UInt8}

/-- A number whose highest six bits are those of a continuation byte has no more bits. -/
theorem lt_of_high {rest more : Nat} (h : 0x80 + rest / 64 ^ more ≤ 0xBF) :
    rest < 64 ^ (more + 1) := by
  have hpos : 0 < 64 ^ more := Nat.pow_pos (by decide)
  have hdiv : rest / 64 ^ more < 64 := by omega
  rw [Nat.pow_succ, Nat.mul_comm]
  exact (Nat.div_lt_iff_lt_mul hpos).mp hdiv

/-- A lead byte is right if the encodings that it may begin do begin with it. -/
theorem isSound_lead {low high : UInt8} {lead more : Nat} (hwide : 0x80 ≤ lead)
    (hlead : lead ≤ b.toNat) (hlow : 0x80 ≤ low.toNat) (hhigh : high.toNat ≤ 0xBF)
    (hencode : ∀ rest, low.toNat ≤ 0x80 + rest / 64 ^ more →
      0x80 + rest / 64 ^ more ≤ high.toNat → ∀ value,
      value = (b.toNat - lead) * 64 ^ (more + 1) + rest →
      String.utf8EncodeChar (Char.ofNat value) =
        UInt8.ofNat (lead + value / 64 ^ (more + 1)) :: continuation (more + 1) value) :
    Pending.IsSound { bytes := [b], value := b.toNat - lead, low, high, more } := by
  refine ⟨by simp, by simp; omega, hlow, hhigh, ?_⟩
  intro rest hfrom hto
  dsimp only at hfrom hto ⊢
  have hrest : rest < 64 ^ (more + 1) := lt_of_high (hto.trans hhigh)
  have hpos : 0 < 64 ^ (more + 1) := Nat.pow_pos (by decide)
  have hbits : ((b.toNat - lead) * 64 ^ (more + 1) + rest) / 64 ^ (more + 1) = b.toNat - lead := by
    rw [Nat.add_comm, Nat.add_mul_div_right _ _ hpos, Nat.div_eq_of_lt hrest, Nat.zero_add]
  rw [hencode rest hfrom hto _ rfl, hbits, Nat.add_sub_cancel' hlead, continuation_add,
    UInt8.ofNat_toNat]
  rfl

theorem isSound_two (h : 0xC2 ≤ b.toNat) (h' : b.toNat < 0xE0) :
    Pending.IsSound { bytes := [b], value := b.toNat - 0xC0, more := 0 } := by
  apply isSound_lead (by decide) (by omega) (by decide) (by decide)
  intro rest _ hto value hvalue
  have hrest := lt_of_high hto
  exact encode_two (by omega) (by omega)

theorem isSound_three (h : 0xE0 ≤ b.toNat) (h' : b.toNat < 0xF0) :
    Pending.IsSound
      { bytes := [b], value := b.toNat - 0xE0, more := 1,
        low := if b.toNat = 0xE0 then 0xA0 else 0x80,
        high := if b.toNat = 0xED then 0x9F else 0xBF } := by
  have hlow : (if b.toNat = 0xE0 then 0xA0 else 0x80 : UInt8).toNat =
      if b.toNat = 0xE0 then 0xA0 else 0x80 := by split <;> rfl
  have hhigh : (if b.toNat = 0xED then 0x9F else 0xBF : UInt8).toNat =
      if b.toNat = 0xED then 0x9F else 0xBF := by split <;> rfl
  apply isSound_lead (by decide) h (by rw [hlow]; split <;> omega) (by rw [hhigh]; split <;> omega)
  intro rest hfrom hto value hvalue
  rw [hlow] at hfrom
  rw [hhigh] at hto
  -- `E0` keeps out what two bytes encode, `ED` the surrogates.
  have hbounds : 0x800 ≤ value ∧ value < 0x10000 ∧ value.isValidChar := by
    unfold Nat.isValidChar
    split at hfrom <;> split at hto <;> omega
  exact encode_three hbounds.1 hbounds.2.1 hbounds.2.2

theorem isSound_four (h : 0xF0 ≤ b.toNat) (h' : b.toNat < 0xF5) :
    Pending.IsSound
      { bytes := [b], value := b.toNat - 0xF0, more := 2,
        low := if b.toNat = 0xF0 then 0x90 else 0x80,
        high := if b.toNat = 0xF4 then 0x8F else 0xBF } := by
  have hlow : (if b.toNat = 0xF0 then 0x90 else 0x80 : UInt8).toNat =
      if b.toNat = 0xF0 then 0x90 else 0x80 := by split <;> rfl
  have hhigh : (if b.toNat = 0xF4 then 0x8F else 0xBF : UInt8).toNat =
      if b.toNat = 0xF4 then 0x8F else 0xBF := by split <;> rfl
  apply isSound_lead (by decide) h (by rw [hlow]; split <;> omega) (by rw [hhigh]; split <;> omega)
  intro rest hfrom hto value hvalue
  rw [hlow] at hfrom
  rw [hhigh] at hto
  -- `F0` keeps out what three bytes encode, `F4` what is no character.
  have hbounds : 0x10000 ≤ value ∧ value < 0x110000 := by
    split at hfrom <;> split at hto <;> omega
  exact encode_four hbounds.1 hbounds.2

theorem keeps_pending {p : Pending} (hp : p.IsSound) : Keeps p.bytes (some p, []) := by
  refine ⟨?_, by simp, by simp [pendingBytes]⟩
  intro q hq
  cases hq
  exact hp

theorem keeps_malformed (h : 0x80 ≤ b.toNat) : Keeps [b] (none, [.malformed [b]]) := by
  refine ⟨by simp, ?_, by simp [Piece.bytes, pendingBytes]⟩
  intro q hq
  rw [List.mem_singleton.mp hq]
  exact isSound_malformed (by simp) (by simpa using h)

/-- A byte where a character may start. -/
theorem keeps_begin (b : UInt8) : Keeps [b] (begin b) := by
  have hb := b.toNat_lt
  unfold begin
  dsimp only
  split
  · next h =>
    refine ⟨by simp, ?_, by simp [Piece.bytes, pendingBytes, encode_one h]⟩
    intro q hq
    rw [List.mem_singleton.mp hq]
    exact isSound_char _
  split
  · exact keeps_malformed (by omega)
  split
  · exact keeps_pending (isSound_two (by omega) (by omega))
  split
  · exact keeps_pending (isSound_three (by omega) (by omega))
  split
  · exact keeps_pending (isSound_four (by omega) (by omega))
  · exact keeps_malformed (by omega)

end Leads

/-! ## 4. One byte more -/

namespace Pending.IsSound

variable {p : Pending} {b : UInt8} {more : Nat}

/-- The bits that a byte brings to a character that waits for it. -/
theorem encode_accepted (hp : p.IsSound) (hlow : p.low ≤ b) (hhigh : b ≤ p.high) (rest : Nat)
    (hrest : rest < 64 ^ p.more) :
    String.utf8EncodeChar
        (Char.ofNat ((p.value * 64 + (b.toNat - 0x80)) * 64 ^ p.more + rest)) =
      p.bytes ++ b :: continuation p.more rest := by
  have hfrom := UInt8.le_iff_toNat_le.mp hlow
  have hto := UInt8.le_iff_toNat_le.mp hhigh
  have hmin := hp.low_le
  have hmax := hp.high_le
  have hpos : 0 < 64 ^ p.more := Nat.pow_pos (by decide)
  have hbits : ((b.toNat - 0x80) * 64 ^ p.more + rest) / 64 ^ p.more = b.toNat - 0x80 := by
    rw [Nat.add_comm, Nat.add_mul_div_right _ _ hpos, Nat.div_eq_of_lt hrest, Nat.zero_add]
  have hvalue : (p.value * 64 + (b.toNat - 0x80)) * 64 ^ p.more + rest =
      p.value * 64 ^ (p.more + 1) + ((b.toNat - 0x80) * 64 ^ p.more + rest) := by ring
  have hbyte : 0x80 + (b.toNat - 0x80) % 64 = b.toNat := by omega
  rw [hvalue, hp.completes _ (by rw [hbits]; omega) (by rw [hbits]; omega), continuation, hbits,
    hbyte, continuation_add, UInt8.ofNat_toNat]

theorem wide_push (hp : p.IsSound) (hlow : p.low ≤ b) :
    ∀ x ∈ p.bytes ++ [b], 0x80 ≤ x.toNat := by
  intro x hx
  rcases List.mem_append.mp hx with hx | hx
  · exact hp.wide x hx
  · rw [List.mem_singleton.mp hx]
    exact hp.low_le.trans (UInt8.le_iff_toNat_le.mp hlow)

/-- A byte that a character waits for goes into it. -/
theorem push (hp : p.IsSound) (hlow : p.low ≤ b) (hhigh : b ≤ p.high) (hmore : p.more = more + 1) :
    Pending.IsSound
      { bytes := p.bytes ++ [b], value := p.value * 64 + (b.toNat - 0x80), more := more } := by
  refine ⟨by simp, hp.wide_push hlow, Nat.le_refl _, Nat.le_refl _, ?_⟩
  intro rest _ hto
  have hrest := hp.encode_accepted hlow hhigh rest (by rw [hmore]; exact lt_of_high hto)
  rw [hmore] at hrest
  simpa using hrest

end Pending.IsSound

/-- **One byte more**, whether it goes on with the character that has begun or not. -/
theorem keeps_advance {s : Option Pending} (hs : ∀ p ∈ s, p.IsSound) (b : UInt8) :
    Keeps (pendingBytes s ++ [b]) (advance s b) := by
  cases s with
  | none => exact keeps_begin b
  | some p =>
    have hp := hs p rfl
    unfold advance
    dsimp only
    split
    · next h =>
      cases hmore : p.more with
      | zero =>
        have hencode := hp.encode_accepted h.1 h.2 0 (by rw [hmore]; decide)
        simp only [hmore, pow_zero, Nat.mul_one, Nat.add_zero, continuation] at hencode
        refine ⟨by simp, ?_, ?_⟩
        · intro q hq
          rw [List.mem_singleton.mp hq]
          exact isSound_char _
        · simpa [Piece.bytes, pendingBytes] using hencode
      | succ more => exact keeps_pending (hp.push h.1 h.2 hmore)
    · obtain ⟨hpending, hpieces, hbytes⟩ := keeps_begin b
      refine ⟨hpending, ?_, ?_⟩
      · intro q hq
        rcases List.mem_cons.mp hq with rfl | hq
        · exact isSound_malformed hp.nonempty hp.wide
        · exact hpieces q hq
      · rw [List.flatMap_cons, List.append_assoc, hbytes]
        rfl

/-! ## 5. The whole string -/

theorem keeps_feed (bytes : Bytes) : Keeps bytes (decoder.feed decoder.start bytes) := by
  induction bytes using List.reverseRecOn with
  | nil =>
    rw [Transducer.feed_nil]
    exact ⟨by simp [decoder], by simp, rfl⟩
  | append_singleton bytes b ih =>
    obtain ⟨hpending, hpieces, hbytes⟩ := ih
    obtain ⟨hpending', hpieces', hbytes'⟩ := keeps_advance hpending b
    have hstep : decoder.step = advance := rfl
    rw [Transducer.feed_append, Transducer.feed_cons, Transducer.feed_nil, hstep, List.append_nil]
    refine ⟨hpending', ?_, ?_⟩
    · intro q hq
      rcases List.mem_append.mp hq with hq | hq
      · exact hpieces q hq
      · exact hpieces' q hq
    · rw [List.flatMap_append, List.append_assoc, hbytes', ← List.append_assoc, hbytes]

/-- **Nothing is lost and nothing is read twice.** -/
theorem flatMap_bytes_pieces (bytes : Bytes) : (pieces bytes).flatMap Piece.bytes = bytes := by
  have hfinish : ∀ s, (decoder.finish s).flatMap Piece.bytes = pendingBytes s := by
    intro s
    cases s <;> simp [decoder, Piece.bytes, pendingBytes]
  rw [pieces, Transducer.run_eq, List.flatMap_append, hfinish]
  exact (keeps_feed bytes).bytes_eq

/-- **Every piece is sound.** -/
theorem isSound_of_mem_pieces {bytes : Bytes} {p : Piece} (h : p ∈ pieces bytes) : p.IsSound := by
  obtain ⟨hpending, hpieces, _⟩ := keeps_feed bytes
  rw [pieces, Transducer.run_eq] at h
  rcases List.mem_append.mp h with h | h
  · exact hpieces p h
  · cases hstate : (decoder.feed decoder.start bytes).1 with
    | none =>
      rw [hstate] at h
      cases h
    | some s =>
      rw [hstate] at h
      have hs := hpending s hstate
      rw [List.mem_singleton.mp h]
      exact isSound_malformed hs.nonempty hs.wide

/-! ## 6. A text and its bytes -/

/-- **A text that stands for some bytes**, character by character. -/
inductive Reads : List Char → Bytes → Prop
  | nil : Reads [] []
  | cons {c : Char} {word : Bytes} {text : List Char} {bytes : Bytes} (head : StandsFor c word)
      (tail : Reads text bytes) : Reads (c :: text) (word ++ bytes)

theorem reads_decodeLossy (bytes : Bytes) : Reads (decodeLossy bytes) bytes := by
  have hpieces : ∀ ps : List Piece, (∀ p ∈ ps, p.IsSound) →
      Reads (ps.map Piece.lossy) (ps.flatMap Piece.bytes) := by
    intro ps hps
    induction ps with
    | nil => exact .nil
    | cons p ps ih =>
      apply Reads.cons
      · exact hps p List.mem_cons_self
      · exact ih fun q hq => hps q (List.mem_cons_of_mem p hq)
  have h := hpieces (pieces bytes) fun p hp => isSound_of_mem_pieces hp
  rwa [flatMap_bytes_pieces] at h

theorem StandsFor.reverse {c : Char} {word : Bytes} (h : StandsFor c word) :
    StandsFor c word.reverse := by
  cases h with
  | plain ascii => exact .plain ascii
  | wide char nonempty bytes => exact .wide char (by simpa using nonempty) (by simpa using bytes)

theorem StandsFor.ne_nil {c : Char} {word : Bytes} (h : StandsFor c word) : word ≠ [] := by
  cases h with
  | plain ascii => exact List.cons_ne_nil _ _
  | wide char nonempty bytes => exact nonempty

theorem toNat_ofNat_plain {b : UInt8} (h : b.toNat < 0x80) :
    (Char.ofNat b.toNat).toNat = b.toNat := by
  apply toNat_val_ofNat
  unfold Nat.isValidChar
  omega

theorem ofNat_toNat_inj {a b : UInt8} (ha : a.toNat < 0x80) (hb : b.toNat < 0x80) :
    Char.ofNat a.toNat = Char.ofNat b.toNat ↔ a = b := by
  constructor
  · intro h
    have hnat := congrArg Char.toNat h
    rw [toNat_ofNat_plain ha, toNat_ofNat_plain hb] at hnat
    exact UInt8.toNat_inj.mp hnat
  · rintro rfl
    rfl

theorem ofNat_toNat_ne {b : UInt8} {c : Char} (hb : b.toNat < 0x80) (hc : 0x80 ≤ c.toNat) :
    Char.ofNat b.toNat ≠ c := by
  rintro rfl
  rw [toNat_ofNat_plain hb] at hc
  omega

namespace Reads

variable {text text' : List Char} {bytes bytes' : Bytes}

theorem append (h : Reads text bytes) (h' : Reads text' bytes') :
    Reads (text ++ text') (bytes ++ bytes') := by
  induction h with
  | nil => exact h'
  | cons head tail ih =>
    rw [List.cons_append, List.append_assoc]
    exact .cons head ih

theorem reverse (h : Reads text bytes) : Reads text.reverse bytes.reverse := by
  induction h with
  | nil => exact .nil
  | @cons c word text bytes head tail ih =>
    rw [List.reverse_cons, List.reverse_append]
    apply ih.append
    rw [← List.append_nil word.reverse]
    exact .cons head.reverse .nil

theorem isEmpty_eq (h : Reads text bytes) : text.isEmpty = bytes.isEmpty := by
  cases h with
  | nil => rfl
  | cons head tail => simp [head.ne_nil]

/-- What is dropped from a text is dropped from its bytes, if it is a matter of plain ones. -/
theorem dropWhile {p : Char → Bool} {q : UInt8 → Bool}
    (hplain : ∀ b : UInt8, b.toNat < 0x80 → p (Char.ofNat b.toNat) = q b)
    (hchar : ∀ c : Char, 0x80 ≤ c.toNat → p c = false)
    (hbyte : ∀ b : UInt8, 0x80 ≤ b.toNat → q b = false) (h : Reads text bytes) :
    Reads (text.dropWhile p) (bytes.dropWhile q) := by
  induction h with
  | nil => exact .nil
  | cons head tail ih =>
    cases head with
    | @plain b ascii =>
      rw [List.singleton_append, List.dropWhile_cons, List.dropWhile_cons, hplain b ascii]
      split
      · exact ih
      · exact .cons (.plain ascii) tail
    | @wide c word char nonempty wide =>
      obtain ⟨b, word, rfl⟩ := List.exists_cons_of_ne_nil nonempty
      have hb := wide b List.mem_cons_self
      rw [List.dropWhile_cons_of_neg (by simp [hchar _ char]), List.cons_append,
        List.dropWhile_cons_of_neg (by simp [hbyte b hb])]
      exact .cons (.wide char nonempty wide) tail

/-- **A text starts with a plain word where its bytes do.** -/
theorem prefix_iff (word : Bytes) (hword : ∀ b ∈ word, b.toNat < 0x80) (h : Reads text bytes) :
    (word.map fun b => Char.ofNat b.toNat) <+: text ↔ word <+: bytes := by
  induction word generalizing text bytes with
  | nil => simp
  | cons b word ih =>
    have hb : b.toNat < 0x80 := hword b List.mem_cons_self
    cases h with
    | nil => simp
    | cons head tail =>
      rw [List.map_cons, List.cons_prefix_cons]
      cases head with
      | @plain a ascii =>
        rw [List.singleton_append, List.cons_prefix_cons, ofNat_toNat_inj hb ascii,
          ih (fun x hx => hword x (List.mem_cons_of_mem b hx)) tail]
      | @wide c wide char nonempty bytes =>
        obtain ⟨a, wide, rfl⟩ := List.exists_cons_of_ne_nil nonempty
        have ha : 0x80 ≤ a.toNat := bytes a List.mem_cons_self
        -- The plain byte is neither the character nor the first of its bytes.
        have hchar := ofNat_toNat_ne hb char
        have hbyte : b ≠ a := by
          rintro rfl
          omega
        rw [List.cons_append, List.cons_prefix_cons]
        simp [hchar, hbyte]

theorem suffix_iff (word : Bytes) (hword : ∀ b ∈ word, b.toNat < 0x80) (h : Reads text bytes) :
    (word.map fun b => Char.ofNat b.toNat) <:+ text ↔ word <:+ bytes := by
  rw [← List.reverse_prefix, ← List.reverse_prefix, ← List.map_reverse]
  exact prefix_iff word.reverse (by simpa using hword) h.reverse

end Reads

end LineTally.Utf8
