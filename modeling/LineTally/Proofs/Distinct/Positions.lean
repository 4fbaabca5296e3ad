import LineTally.Proofs.Candidates.Contract
import LineTally.Proofs.Distinct.Occurrences

/-!
# Which candidates are representatives

The pass over the candidates keeps a set of fingerprints, a list of paths and a number, and calls
somebody with some of the files. This file says what all four come to in terms of the candidates
alone: a candidate counts if its content can be read and no readable candidate **before** it has the
same fingerprint (`FileTree.IsFirst`), and nothing else is asked of it, in particular not what its
path is and whether it was there before.

`FileTree.Firsts` lists the files of these candidates in the order of their positions. It holds of
what the pass keeps (`firsts_kept`), as of the first with each key in any list: the key of a
candidate is the fingerprint of its content (`firstAt_iff_isFirst`). `collectWith_firsts` is about
the pass itself and what follows for several of them.
-/

set_option autoImplicit false

namespace LineTally

namespace FileTree

variable {t : FileTree} {candidates : List Path} {path : Path} {f : Fingerprint} {i : Nat}

/-- **The candidate at a position is the first with its fingerprint**: it can be read, and those
before it that can be read have other fingerprints. -/
def IsFirst (t : FileTree) (candidates : List Path) (i : Nat) : Prop :=
  ∃ path content, candidates[i]? = some path ∧ t.read path = .ok content ∧
    ∀ j < i, ∀ earlier other, candidates[j]? = some earlier → t.read earlier = .ok other →
      Fingerprint.ofContent other ≠ Fingerprint.ofContent content

/-- **The files of these candidates**, in the order of their positions, each with its full
content. -/
structure Firsts (t : FileTree) (candidates : List Path) (files : List Document) : Prop where
  read : ∀ d ∈ files, t.read d.path = .ok d.content
  positions : ∃ positions : List Nat, positions.Pairwise (· < ·) ∧
    (∀ i, i ∈ positions ↔ t.IsFirst candidates i) ∧
    files.map (fun d => some d.path) = positions.map (candidates[·]?)

/-! ## 1. Fingerprints of candidates -/

theorem mem_fingerprints : f ∈ (Document.readable t candidates).map Document.fingerprint ↔
    ∃ path ∈ candidates, ∃ content, t.read path = .ok content ∧ Fingerprint.ofContent content = f := by
  rw [List.mem_map]
  constructor
  · rintro ⟨d, hd, rfl⟩
    obtain ⟨hpath, hread⟩ := mem_readable.mp hd
    exact ⟨d.path, hpath, d.content, hread, rfl⟩
  · rintro ⟨path, hpath, content, hread, rfl⟩
    exact ⟨⟨path, content⟩, mem_readable.mpr ⟨hpath, hread⟩, rfl⟩

theorem fingerprint_read_eq_some_iff :
    (Document.read t path).toOption.map Document.fingerprint = some f ↔
      ∃ content, t.read path = .ok content ∧ Fingerprint.ofContent content = f := by
  rw [Document.toOption_read, Option.map_map]
  cases t.read path <;> simp [Except.toOption, Document.fingerprint]

theorem firstAt_iff_isFirst :
    FirstAt (fun path => (Document.read t path).toOption.map Document.fingerprint) candidates i ↔
      t.IsFirst candidates i := by
  constructor
  · rintro ⟨path, f, hpath, hf, hother⟩
    obtain ⟨content, hread, rfl⟩ := fingerprint_read_eq_some_iff.mp hf
    refine ⟨path, content, hpath, hread, ?_⟩
    intro j hj earlier other hearlier hread' heq
    exact hother j hj earlier hearlier (fingerprint_read_eq_some_iff.mpr ⟨other, hread', heq⟩)
  · rintro ⟨path, content, hpath, hread, hother⟩
    refine ⟨path, _, hpath, fingerprint_read_eq_some_iff.mpr ⟨content, hread, rfl⟩, ?_⟩
    intro j hj earlier hearlier hf
    obtain ⟨other, hread', heq⟩ := fingerprint_read_eq_some_iff.mp hf
    exact hother j hj earlier other hearlier hread' heq

/-! ## 2. The files that are kept -/

/-- **What a pass keeps are the first files with each fingerprint.** -/
theorem firsts_kept (t : FileTree) (candidates : List Path) :
    t.Firsts candidates (Document.kept t candidates) := by
  obtain ⟨positions, hascending, hmem, hfiles⟩ := exists_positions_firstsBy
    (fun path => (Document.read t path).toOption) Document.fingerprint candidates
  refine ⟨?_, positions, hascending, fun i => (hmem i).trans firstAt_iff_isFirst, ?_⟩
  · intro d hd
    exact (mem_readable.mp ((firstsBy_sublist _).subset hd)).2
  · rw [← List.forall₂_eq_eq_eq, List.forall₂_map_left_iff, List.forall₂_map_right_iff]
    refine hfiles.imp fun d i hd => ?_
    obtain ⟨path, hpath, hread⟩ := Option.bind_eq_some_iff.mp hd
    rw [hpath, ← (Document.read_eq_ok_iff.mp (toOption_eq_some_iff.mp hread)).1]

theorem kept_unreadable {cause : AccessError} (before after : List Path)
    (h : t.read path = .error cause) :
    Document.kept t (before ++ path :: after) = Document.kept t (before ++ after) := by
  have hread : (Document.read t path).toOption = none := by
    rw [Document.toOption_read, h]
    rfl
  simp [Document.kept, Document.readable, hread]

/-- The representatives are representatives of themselves. -/
theorem kept_map_path (t : FileTree) (candidates : List Path) :
    Document.kept t ((Document.kept t candidates).map Document.path) =
      Document.kept t candidates := by
  have hread : ∀ d ∈ Document.kept t candidates,
      ((fun path => (Document.read t path).toOption) ∘ Document.path) d = some d := by
    intro d hd
    rw [Function.comp_apply, toOption_eq_some_iff, Document.read_eq_ok_iff]
    exact ⟨rfl, (firsts_kept t candidates).read d hd⟩
  have hreadable : Document.readable t ((Document.kept t candidates).map Document.path) =
      Document.kept t candidates := by
    rw [Document.readable, List.filterMap_map, List.filterMap_congr hread]
    exact List.filterMap_some
  rw [Document.kept, hreadable]
  exact firstsBy_eq_self (nodup_firstsBy _)

end FileTree

/-! ## 3. The pass -/

namespace Collection

/-- **What a pass over candidates comes to**, in every tree and whatever is done with the files. All
candidates are counted. The representatives are the paths of the first files with each fingerprint,
in order; just these files are handed on, once each and in the same order, with their full content;
and the fingerprints known at the end are those of the candidates that can be read. Nobody needs to
be there to get the files.

So the representatives come first among those of any longer list, a candidate that cannot be read
changes only the number of candidates, wherever it stands, and a pass over the representatives finds
all of them again. -/
theorem collectWith_firsts (t : FileTree) (candidates : List Path) :
    ∃ files : List Document, t.Firsts candidates files ∧
      ∀ {σ : Type} (handle : Document → σ → σ × List Event) (s : σ),
        (collectWith t handle s candidates).1.count = candidates.length ∧
        (collectWith t handle s candidates).1.kept.paths = files.map Document.path ∧
        (collectWith t handle s candidates).1.state =
          files.foldl (fun s d => (handle d s).1) s ∧
        (∀ f, (collectWith t handle s candidates).1.kept.contains f = true ↔
          ∃ path ∈ candidates, ∃ content,
            t.read path = .ok content ∧ Fingerprint.ofContent content = f) ∧
        (collect t candidates).1.count = (collectWith t handle s candidates).1.count ∧
        (collect t candidates).1.kept = (collectWith t handle s candidates).1.kept ∧
        (∀ more, (collectWith t handle s candidates).1.kept.paths <+:
          (collectWith t handle s (candidates ++ more)).1.kept.paths) ∧
        (∀ before after path cause, candidates = before ++ after → t.read path = .error cause →
          (collectWith t handle s (before ++ path :: after)).1 =
            { (collectWith t handle s candidates).1 with
              count := (collectWith t handle s candidates).1.count + 1 }) ∧
        (collectWith t handle s (collectWith t handle s candidates).1.kept.paths).1 =
          { (collectWith t handle s candidates).1 with
            count := (collectWith t handle s candidates).1.kept.paths.length } := by
  refine ⟨Document.kept t candidates, FileTree.firsts_kept t candidates, ?_⟩
  intro σ handle s
  rw [fst_collectWith, collect_eq, paths_after]
  refine ⟨rfl, rfl, rfl, ?_, rfl, rfl, ?_, ?_, ?_⟩
  · intro f
    rw [contains_after, FileTree.mem_fingerprints]
  · intro more
    have hreadable : Document.readable t (candidates ++ more) =
        Document.readable t candidates ++ Document.readable t more := List.filterMap_append
    rw [fst_collectWith, paths_after, Document.kept, Document.kept, hreadable]
    exact (prefix_firstsBy_append _ _).map _
  · intro before rest path cause hcandidates hread
    subst hcandidates
    have hkept := FileTree.kept_unreadable before rest hread
    have hlength : (before ++ path :: rest).length = (before ++ rest).length + 1 := by
      simp only [List.length_append, List.length_cons]
      omega
    rw [fst_collectWith, after, hkept, hlength]
    rfl
  · rw [fst_collectWith, after, FileTree.kept_map_path]
    rfl

end Collection

namespace FileTree

/-- A tree with two copies, another file and one that cannot be read. -/
def twins : FileTree where
  items := [
    ([], .directory .newDirectory),
    ([.ofText "A.java"], .file .newFile (.ofText "int x;\n")),
    ([.ofText "B.java"], .file .newFile (.ofText "int x;\n")),
    ([.ofText "C.java"], .file .newFile (.ofText "int c;\n")),
    ([.ofText "D.java"], .file (.ofMode 0o000) [])]
  workingDirectory := []
  distinct := by decide
  proper := by decide

end FileTree

namespace Collection

open FileTree (twins)

/-- Candidates among them, one of them twice and a copy before what it is a copy of. -/
def revisited : List Path := ["D.java", "B.java", "A.java", "C.java", "B.java"].map Bytes.ofText

/-- Keeps all that is handed on. -/
def gather (file : Document) (files : List Document) : List Document × List Event :=
  (files ++ [file], [])

theorem collectWith_firsts_twins :
    twins.read (.ofText "gone") = .error .notFound ∧
      (∃ files, twins.Firsts revisited files ∧
        files.map Document.path = [.ofText "B.java", .ofText "C.java"]) ∧
      (collectWith twins gather [] revisited).1.state =
        [⟨.ofText "B.java", .ofText "int x;\n"⟩, ⟨.ofText "C.java", .ofText "int c;\n"⟩] ∧
      (collectWith twins gather []
          (["D.java", "B.java", "gone", "A.java", "C.java", "B.java"].map Bytes.ofText)).1 =
        { (collectWith twins gather [] revisited).1 with count := 6 } := by
  have hgone : twins.read (.ofText "gone") = .error .notFound := by decide +kernel
  have hkept : (collectWith twins gather [] revisited).1.kept.paths =
      [.ofText "B.java", .ofText "C.java"] := by decide +kernel
  obtain ⟨files, hfirsts, hpass⟩ := collectWith_firsts twins revisited
  obtain ⟨hcount, hpaths, _, _, _, _, _, hunreadable, _⟩ := hpass gather []
  refine ⟨hgone, ⟨files, hfirsts, hpaths.symm.trans hkept⟩, by decide +kernel, ?_⟩
  have hinserted := hunreadable (["D.java", "B.java"].map Bytes.ofText)
    (["A.java", "C.java", "B.java"].map Bytes.ofText) _ _ rfl hgone
  rw [hcount] at hinserted
  exact hinserted

end Collection

end LineTally
