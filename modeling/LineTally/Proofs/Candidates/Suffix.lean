import LineTally.Candidates.Suffix
import LineTally.Proofs.FileTree.Paths
import LineTally.Proofs.Text.Characters

/-!
# What a path matches for

Whether a path matches is decided on its whole text, and the text is what the decoder makes of
bytes that need not be UTF-8. Two readings that leave the text out are right nevertheless.

A suffix without U+FFFD is one in bytes: the path matches if it ends with the suffix as UTF-8
(`matchesPath_iff_encode_suffix`). Bytes that are not well-formed may stand before the suffix, and
those that are cut off there take nothing of it with them.

And a path matches for its last name, if the suffix has no slash (`matchesPath_below`): the bytes
of the directory do not run over into the name, since a slash is a character wherever it stands.
Here U+FFFD may be in the suffix, for the name is decoded from its own first byte.
-/

set_option autoImplicit false

namespace LineTally

/-! ## 1. Suffixes of a list with a mark in it -/

theorem suffix_append_cons_iff {α : Type} {xs before after : List α} {c : α} (h : c ∉ xs) :
    xs <:+ before ++ c :: after ↔ xs <:+ after := by
  constructor
  · intro hxs
    rcases List.suffix_or_suffix_of_suffix hxs (List.suffix_append before (c :: after)) with
      hshort | hlong
    · rcases List.suffix_cons_iff.mp hshort with heq | hshort
      · exact absurd (heq ▸ List.mem_cons_self) h
      · exact hshort
    · exact absurd (hlong.subset List.mem_cons_self) h
  · intro hxs
    exact hxs.trans ((List.suffix_cons c after).trans (List.suffix_append before _))

namespace Suffix

variable {suffix : Suffix}

theorem matchesPath_iff (path : Path) :
    suffix.matchesPath path = true ↔ suffix.text <:+ path.display := List.isSuffixOf_iff_suffix

/-! ## 2. The suffix in bytes -/

/-- A path that ends with the bytes of a suffix matches, whatever the suffix is. -/
theorem matchesPath_of_encode_suffix {path : Path} (h : Utf8.encode suffix.text <:+ path) :
    suffix.matchesPath path = true := by
  obtain ⟨before, rfl⟩ := h
  rw [matchesPath_iff, Path.display, Utf8.decodeLossy_append_encode]
  exact List.suffix_append _ _

/-- **To match is to end with the bytes of the suffix**, if U+FFFD is not in it. -/
theorem matchesPath_iff_encode_suffix (h : Utf8.replacement ∉ suffix.text) (path : Path) :
    suffix.matchesPath path = true ↔ Utf8.encode suffix.text <:+ path := by
  constructor
  · intro hmatch
    exact Utf8.encode_suffix_of_suffix h ((matchesPath_iff path).mp hmatch)
  · exact matchesPath_of_encode_suffix

/-! ## 3. The last name -/

theorem display_below (directory : Bytes) (name : Name) :
    Path.display (directory ++ Path.slash :: name) =
      Path.display directory ++ '/' :: Path.display name :=
  Utf8.decodeLossy_append_encodeChar directory '/' name

/-- **A path matches for what is after a slash**, if the suffix has no slash in it. -/
theorem matchesPath_below (h : '/' ∉ suffix.text) (directory : Bytes) (name : Name) :
    suffix.matchesPath (directory ++ Path.slash :: name) = suffix.matchesPath name := by
  rw [Bool.eq_iff_iff, matchesPath_iff, matchesPath_iff, display_below, suffix_append_cons_iff h]

theorem matchesPath_join (h : '/' ∉ suffix.text) (path : Path) (name : Name) :
    suffix.matchesPath (path.join name) = suffix.matchesPath name := by
  obtain ⟨stem, hjoin, _⟩ := Path.join_shape path name
  rw [hjoin]
  exact matchesPath_below h stem name

/-! ## 4. Both readings -/

/-- **What it is for a path to match.** Unless U+FFFD is in the suffix, the path ends with the
bytes of the suffix; unless a slash is, the name after any slash of the path matches. Nothing is
asked of the path, which may break off in a character before the suffix or at its end. -/
theorem matchesPath_by_bytes_by_name (suffix : Suffix) :
    (Utf8.replacement ∉ suffix.text → ∀ path : Path,
      (suffix.matchesPath path = true ↔ Utf8.encode suffix.text <:+ path)) ∧
    ('/' ∉ suffix.text → ∀ (directory : Bytes) (name : Name),
      (suffix.matchesPath (directory ++ Path.slash :: name) = true ↔
        suffix.matchesPath name = true)) := by
  constructor
  · intro hno path
    exact matchesPath_iff_encode_suffix hno path
  · intro hslash directory name
    rw [matchesPath_below hslash]

/-- A suffix that is not ASCII. -/
def accented : Suffix := ⟨".é".toList⟩

/-- The suffix that is the decoder's own sign for what it cannot read. -/
def unreadable : Suffix := ⟨[Utf8.replacement]⟩

/-- `E2 82` is the euro sign without its last byte, and `F0 9F` breaks off after two of four: one
before a suffix, one before a slash, one at the end of a name. -/
theorem matchesPath_by_bytes_by_name_brokenOff :
    Utf8.replacement ∉ accented.text ∧ '/' ∉ unreadable.text ∧
      accented.matchesPath [0xE2, 0x82, 0x2E, 0xC3, 0xA9] = true ∧
      accented.matchesPath [0xE2, 0x82, 0x2E, 0xC3] = false ∧
      unreadable.matchesPath ([0xF0, 0x9F] ++ Path.slash :: [0xE2, 0x82]) = true ∧
      unreadable.matchesPath ([0xF0, 0x9F] ++ Path.slash :: []) = false := by
  have hno : Utf8.replacement ∉ accented.text := by decide
  have hslash : '/' ∉ unreadable.text := by decide
  have hbytes := (matchesPath_by_bytes_by_name accented).1 hno
  have hname := (matchesPath_by_bytes_by_name unreadable).2 hslash [0xF0, 0x9F]
  refine ⟨hno, hslash, ?_, ?_, ?_, ?_⟩
  · rw [hbytes]
    decide
  · rw [← Bool.not_eq_true, hbytes]
    decide
  · rw [hname]
    decide
  · rw [← Bool.not_eq_true, hname]
    decide

/-- With U+FFFD in it the suffix is no longer one in bytes: any byte that cannot be read matches. -/
example : (Suffix.mk [Utf8.replacement]).matchesPath [0xFF] = true ∧
    ¬ Utf8.encode [Utf8.replacement] <:+ [0xFF] := by
  decide

end Suffix

end LineTally
