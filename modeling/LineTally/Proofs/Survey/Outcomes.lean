import LineTally.Proofs.Survey.Stages
import Mathlib.Algebra.BigOperators.Group.Finset.Basic
import Mathlib.Data.List.ReduceOption

/-!
# What the result of a run depends on

Which path stands for a content depends on the order of the candidates, and so does the moment at
which it is counted. The numbers do not: what matters of a candidate is its *outcome*, the content
that is read or that there is none, and of the outcomes it matters only how many there are and which
contents are among them (`tally_of_outcomes`). That is a set, so it takes no notice of order, of
names and of repetitions.

It takes for granted that the fingerprint tells the contents of the run apart. Where it does not,
the first of two contents hides the other one, and order does matter.
-/

set_option autoImplicit false

namespace LineTally

namespace FileTree

/-- What reading each candidate gives: a content, or nothing if it cannot be read. -/
def outcomes (t : FileTree) (candidates : List Path) : List (Option Bytes) :=
  candidates.map fun path => (t.read path).toOption

/-- The distinct contents that are read. -/
def contentsRead (t : FileTree) (candidates : List Path) : Finset Bytes :=
  (t.outcomes candidates).reduceOption.toFinset

/-- **Fingerprints tell the contents of a run apart.** -/
def ToldApart (t : FileTree) (candidates : List Path) : Prop :=
  ∀ a ∈ t.contentsRead candidates, ∀ b ∈ t.contentsRead candidates,
    Fingerprint.ofContent a = Fingerprint.ofContent b → a = b

variable {t t' : FileTree} {candidates candidates' : List Path} {content : Bytes}

theorem mem_contentsRead :
    content ∈ t.contentsRead candidates ↔ ∃ path ∈ candidates, t.read path = .ok content := by
  simp [contentsRead, outcomes, List.reduceOption_mem_iff, toOption_eq_some_iff]

theorem readable_map_content (t : FileTree) (candidates : List Path) :
    (Document.readable t candidates).map Document.content =
      (t.outcomes candidates).reduceOption := by
  simp [Document.readable, Document.toOption_read, outcomes, List.reduceOption,
    List.map_filterMap, List.filterMap_map, Function.comp_def]

/-- **What is kept depends on the outcomes in their order**, whether or not fingerprints tell the
contents apart. -/
theorem contents_eq_firstsBy (t : FileTree) (candidates : List Path) :
    t.contents candidates =
      firstsBy Fingerprint.ofContent (t.outcomes candidates).reduceOption := by
  rw [← readable_map_content, firstsBy_map]
  rfl

/-- What is kept are the contents that were read, each of them once. -/
theorem toFinset_contents (h : t.ToldApart candidates) :
    (t.contents candidates).toFinset = t.contentsRead candidates := by
  ext content
  rw [List.mem_toFinset, mem_contentsRead]
  apply mem_contents_iff
  intro p hp q hq a b ha hb hfingerprint
  exact h a (mem_contentsRead.mpr ⟨p, hp, ha⟩) b (mem_contentsRead.mpr ⟨q, hq, hb⟩) hfingerprint

/-- Outcomes in another order are the same contents. -/
theorem contentsRead_of_perm (h : (t'.outcomes candidates').Perm (t.outcomes candidates)) :
    t'.contentsRead candidates' = t.contentsRead candidates :=
  List.toFinset_eq_of_perm _ _ (h.filterMap id)

theorem length_of_perm (h : (t'.outcomes candidates').Perm (t.outcomes candidates)) :
    candidates'.length = candidates.length := by
  simpa [outcomes] using h.length_eq

/-- Candidates under other names and in another order have the same outcomes, if each is read as
before. -/
theorem outcomes_perm_of_rename {rename : Path → Path}
    (hperm : candidates'.Perm (candidates.map rename))
    (hread : ∀ p ∈ candidates, (t'.read (rename p)).toOption = (t.read p).toOption) :
    (t'.outcomes candidates').Perm (t.outcomes candidates) := by
  have houtcomes : t'.outcomes (candidates.map rename) = t.outcomes candidates := by
    unfold outcomes
    rw [List.map_map]
    exact List.map_congr_left hread
  rw [← houtcomes]
  exact hperm.map _

variable {suffix suffix' : Suffix} {root root' : Path}

/-- Runs with the same outcomes in the same order have the same result. -/
theorem tally_eq_of_outcomes_eq
    (h : t'.outcomes (t'.discover suffix' root').files =
      t.outcomes (t.discover suffix root).files) :
    t'.tally suffix' root' = t.tally suffix root := by
  have hlength : (t'.discover suffix' root').files.length =
      (t.discover suffix root).files.length := by
    simpa [outcomes] using congrArg List.length h
  rw [tally_eq, tally_eq, contents_eq_firstsBy, contents_eq_firstsBy, h, hlength]

/-- **The result in terms of outcomes**: how many there are, how many contents are among them, and
the lines of these contents. -/
theorem tally_eq_sum (h : t.ToldApart (t.discover suffix root).files) :
    t.tally suffix root =
      ⟨(t.discover suffix root).files.length,
        (t.contentsRead (t.discover suffix root).files).card,
        ∑ content ∈ t.contentsRead (t.discover suffix root).files, Counts.ofContent content⟩ := by
  have hnodup := nodup_contents t (t.discover suffix root).files
  rw [tally_eq, Counts.foldl_add_eq_sum, Counts.zero_eq, zero_add, ← toFinset_contents h,
    List.toFinset_card_of_nodup hnodup, List.sum_toFinset _ hnodup]

theorem toldApart_of_perm (h : (t'.outcomes candidates').Perm (t.outcomes candidates))
    (htold : t.ToldApart candidates) : t'.ToldApart candidates' := by
  unfold ToldApart
  rw [contentsRead_of_perm h]
  exact htold

theorem tally_eq_of_perm (htold : t.ToldApart (t.discover suffix root).files)
    (h : (t'.outcomes (t'.discover suffix' root').files).Perm
      (t.outcomes (t.discover suffix root).files)) :
    t'.tally suffix' root' = t.tally suffix root := by
  rw [tally_eq_sum htold, tally_eq_sum (toldApart_of_perm h htold), length_of_perm h,
    contentsRead_of_perm h]

/-- **The result depends on the multiset of outcomes alone.** If fingerprints tell the contents of
a run apart, the result is the number of candidates, the number of distinct contents and the sum of
their lines. So a second run, in any tree, from any root and with any suffix, has the same result
and the same report if its outcomes are those of the first in some order; in particular if its
candidates are those of the first under other names and in another order, each of them read as
before. -/
theorem tally_of_outcomes (t : FileTree) (suffix : Suffix) (root : Path)
    (htold : t.ToldApart (t.discover suffix root).files) :
    t.tally suffix root =
      ⟨(t.outcomes (t.discover suffix root).files).length,
        (t.contentsRead (t.discover suffix root).files).card,
        ∑ content ∈ t.contentsRead (t.discover suffix root).files,
          Counts.ofText (Utf8.decodeLossy content)⟩ ∧
    (∀ (t' : FileTree) (suffix' : Suffix) (root' : Path),
      (t'.outcomes (t'.discover suffix' root').files).Perm
        (t.outcomes (t.discover suffix root).files) →
      t'.tally suffix' root' = t.tally suffix root ∧
        (t'.tally suffix' root').report = (t.tally suffix root).report) ∧
    (∀ (t' : FileTree) (suffix' : Suffix) (root' : Path) (rename : Path → Path),
      (t'.discover suffix' root').files.Perm ((t.discover suffix root).files.map rename) →
      (∀ p ∈ (t.discover suffix root).files,
        (t'.read (rename p)).toOption = (t.read p).toOption) →
      t'.tally suffix' root' = t.tally suffix root) := by
  refine ⟨?_, ?_, ?_⟩
  · rw [tally_eq_sum htold, outcomes, List.length_map]
    rfl
  · intro t' suffix' root' hperm
    have htally := tally_eq_of_perm htold hperm
    exact ⟨htally, congrArg Tally.report htally⟩
  · intro t' suffix' root' rename hperm hread
    exact tally_eq_of_perm htold (outcomes_perm_of_rename hperm hread)

/-- The files of `copied` under other names, one of them in another directory, and a link that leads
nowhere in the place of the file that cannot be read. -/
def moved : FileTree where
  items := [
    ([], .directory .newDirectory),
    ([.ofText "W.java"], .link (.ofText "gone")),
    ([.ofText "X.java"], .file .newFile (.ofText "int b;\n")),
    ([.ofText "Z.java"], .file .newFile (.ofText "/* never closed\n")),
    ([.ofText "src"], .directory .newDirectory),
    ([.ofText "Y.java", .ofText "src"], .file .newFile (.ofText "int b;\n"))]
  workingDirectory := []
  distinct := by decide
  proper := by decide

/-- Where the files of `copied` are in `moved`. -/
def movedTo (path : Path) : Path :=
  if path = .ofText "./A.java" then .ofText "./Z.java"
  else if path = .ofText "./B.java" then .ofText "./X.java"
  else if path = .ofText "./C.java" then .ofText "./src/Y.java"
  else .ofText "./W.java"

/-- The runs keep files at different paths and in a different order. -/
theorem tally_of_outcomes_moved :
    copied.ToldApart (copied.discover .standard Name.dot).files ∧
      (moved.outcomes (moved.discover .standard Name.dot).files).Perm
        (copied.outcomes (copied.discover .standard Name.dot).files) ∧
      (moved.discover .standard Name.dot).files.Perm
        ((copied.discover .standard Name.dot).files.map movedTo) ∧
      copied.representatives .standard Name.dot = [.ofText "./A.java", .ofText "./B.java"] ∧
      moved.representatives .standard Name.dot = [.ofText "./X.java", .ofText "./Z.java"] ∧
      moved.tally .standard Name.dot = copied.tally .standard Name.dot ∧
      (moved.tally .standard Name.dot).report = (copied.tally .standard Name.dot).report := by
  have htold : copied.ToldApart (copied.discover .standard Name.dot).files := by
    unfold ToldApart
    decide +kernel
  have hperm : (moved.outcomes (moved.discover .standard Name.dot).files).Perm
      (copied.outcomes (copied.discover .standard Name.dot).files) := by decide +kernel
  have hmoved : (moved.discover .standard Name.dot).files.Perm
      ((copied.discover .standard Name.dot).files.map movedTo) := by decide +kernel
  have hread : ∀ p ∈ (copied.discover .standard Name.dot).files,
      (moved.read (movedTo p)).toOption = (copied.read p).toOption := by decide +kernel
  obtain ⟨_, hsame, hrenamed⟩ := tally_of_outcomes copied .standard Name.dot htold
  refine ⟨htold, hperm, hmoved, by decide +kernel, by decide +kernel, ?_, ?_⟩
  · exact hrenamed moved .standard Name.dot movedTo hmoved hread
  · exact (hsame moved .standard Name.dot hperm).2

end FileTree

end LineTally
