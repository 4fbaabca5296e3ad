import LineTally.Proofs.Candidates.Contract
import LineTally.Proofs.Distinct.Firsts
import LineTally.Proofs.Line.Totals

/-!
# One pass and its stages

A run is one pass: a file is counted as soon as it is read, while copies are still being told
apart, and its content is gone when the next one is read. The stages one would describe it by come
one after the other: discover the candidates, tell copies apart, then read each representative once
more and count it by itself.

`tally_eq_stages` says that the two agree. The tree is a value, so nothing changes between the
first reading and the second; in particular every representative can be read again
(`read_of_mem_kept`), which is where the stages might have failed and the pass cannot.
-/

set_option autoImplicit false

namespace LineTally

variable {t : FileTree} {suffix : Suffix} {root path : Path} {candidates : List Path}
  {content : Bytes}

/-! ## 1. Representatives -/

namespace FileTree

/-- The paths that stand for the distinct contents under a root, in order, when copies are told
apart and nothing is done with the files. -/
def representatives (t : FileTree) (suffix : Suffix) (root : Path) : List Path :=
  (Collection.collect t (t.discover suffix root).files).1.kept.paths

theorem representatives_eq : t.representatives suffix root =
    (Document.kept t (t.discover suffix root).files).map Document.path := by
  rw [representatives, Collection.collect_eq, Collection.paths_after]

/-- A document that was kept is still there to be read. -/
theorem read_of_mem_kept {d : Document} (h : d ∈ Document.kept t candidates) :
    t.read d.path = .ok d.content :=
  (mem_readable.mp ((firstsBy_sublist _).subset h)).2

theorem countAt_of_read (h : t.read path = .ok content) :
    Document.countAt t path = .ok (Counts.ofContent content) := by
  simp only [Document.countAt, Document.read, h]
  rfl

theorem countAt_of_read_error {cause : AccessError} (h : t.read path = .error cause) :
    Document.countAt t path = .error ⟨path, cause⟩ := by
  simp only [Document.countAt, Document.read, h]
  rfl

/-- No more documents are kept than there are candidates. -/
theorem length_contents_le (t : FileTree) (candidates : List Path) :
    (t.contents candidates).length ≤ candidates.length := by
  rw [contents, List.length_map]
  exact Nat.le_trans (firstsBy_sublist _).length_le (List.length_filterMap_le _ _)

/-! ## 2. A single candidate -/

theorem contents_of_read (h : t.read path = .ok content) : t.contents [path] = [content] := by
  simp [contents, Document.kept, Document.readable, Document.read, h, firstsBy, Except.toOption]

theorem contents_of_read_error {cause : AccessError} (h : t.read path = .error cause) :
    t.contents [path] = [] := by
  simp [contents, Document.kept, Document.readable, Document.read, h, firstsBy, Except.toOption]

/-- A root that matches is read and counted like a file by itself, and cannot fail. -/
theorem tally_of_matching_root (hroot : suffix.matchesPath root = true) :
    t.tally suffix root = match Document.countAt t root with
      | .ok counts => ⟨1, 1, counts⟩
      | .error _ => ⟨1, 0, .zero⟩ := by
  have hfiles : (t.discover suffix root).files = [root] := by rw [discover, if_pos hroot]
  rw [tally_eq, hfiles]
  cases hread : t.read root with
  | error cause =>
    rw [contents_of_read_error hread, countAt_of_read_error hread]
    rfl
  | ok content =>
    rw [contents_of_read hread, countAt_of_read hread]
    simp [Counts.zero_eq]

end FileTree

/-! ## 3. The stages -/

/-- Where an action succeeds on every element of a list, it succeeds on the list. -/
theorem mapM_eq_ok {ε α β δ : Type} {f : α → Except ε β} {g : δ → α} {h : δ → β} {l : List δ}
    (hf : ∀ d ∈ l, f (g d) = .ok (h d)) : (l.map g).mapM f = .ok (l.map h) := by
  induction l with
  | nil => rfl
  | cons d l ih =>
    have hrest := ih fun e he => hf e (List.mem_cons_of_mem _ he)
    rw [List.map_cons, List.mapM_cons, hf d List.mem_cons_self, hrest]
    rfl

/-- **One pass gives what the stages give.** All candidates are found, as many as there are
representatives are distinct, and reading these again succeeds for each of them; their lines,
sorted for each file from outside every block comment, add up component by component to the lines
of the run, so that every line of every representative is counted once. A root that matches is
counted as a file by itself. -/
theorem FileTree.tally_eq_stages (t : FileTree) (suffix : Suffix) (root : Path) :
    (t.tally suffix root).found = (t.discover suffix root).files.length ∧
    (Collection.collect t (t.discover suffix root).files).1.count =
      (t.discover suffix root).files.length ∧
    (t.tally suffix root).distinct = (t.representatives suffix root).length ∧
    (∃ (contents : List Bytes) (counts : List Counts),
      (t.representatives suffix root).mapM t.read = .ok contents ∧
      (t.representatives suffix root).mapM (Document.countAt t) = .ok counts ∧
      counts = contents.map (fun content =>
        .ofKinds (Region.normal.classifyAll (Line.split (Utf8.decodeLossy content))).2) ∧
      (t.tally suffix root).lines =
        ⟨(counts.map Counts.blanks).sum, (counts.map Counts.comments).sum,
          (counts.map Counts.code).sum⟩ ∧
      (t.tally suffix root).lines.total =
        (contents.map fun content => (Line.split (Utf8.decodeLossy content)).length).sum) ∧
    (t.tally suffix root).distinct ≤ (t.tally suffix root).found ∧
    (suffix.matchesPath root = true →
      t.tally suffix root = match Document.countAt t root with
        | .ok counts => ⟨1, 1, counts⟩
        | .error _ => ⟨1, 0, .zero⟩) := by
  have hlines : (t.tally suffix root).lines =
      ((t.contents (t.discover suffix root).files).map Counts.ofContent).sum := by
    rw [tally_eq, Counts.foldl_add_eq_sum, Counts.zero_eq, zero_add]
  refine ⟨by rw [tally_eq], by rw [Collection.collect_eq]; rfl, ?_, ?_, ?_,
    tally_of_matching_root⟩
  · rw [tally_eq, representatives_eq, contents, List.length_map, List.length_map]
  · refine ⟨t.contents (t.discover suffix root).files,
      (t.contents (t.discover suffix root).files).map Counts.ofContent, ?_, ?_, rfl, ?_, ?_⟩
    · rw [representatives_eq, contents]
      exact mapM_eq_ok fun d hd => read_of_mem_kept hd
    · rw [representatives_eq, contents, List.map_map]
      exact mapM_eq_ok fun d hd => countAt_of_read (read_of_mem_kept hd)
    · rw [hlines, Counts.sum_eq]
    · rw [hlines, Counts.total_sum, List.map_map]
      exact congrArg List.sum (List.map_congr_left fun content _ => Counts.total_ofText _)
  · rw [tally_eq]
    exact length_contents_le t _

namespace FileTree

/-- A tree with a file that ends inside a block comment, another one, a copy of that and one that
cannot be read. -/
def copied : FileTree where
  items := [
    ([], .directory .newDirectory),
    ([.ofText "A.java"], .file .newFile (.ofText "/* never closed\n")),
    ([.ofText "B.java"], .file .newFile (.ofText "int b;\n")),
    ([.ofText "C.java"], .file .newFile (.ofText "int b;\n")),
    ([.ofText "D.java"], .file (.ofMode 0o000) [])]
  workingDirectory := []
  distinct := by decide
  proper := by decide

theorem tally_eq_stages_copied :
    Suffix.standard.matchesPath (.ofText "A.java") = true ∧
      copied.tally .standard (.ofText "A.java") = ⟨1, 1, ⟨0, 1, 0⟩⟩ ∧
      Suffix.standard.matchesPath (.ofText "D.java") = true ∧
      copied.tally .standard (.ofText "D.java") = ⟨1, 0, .zero⟩ ∧
      copied.representatives .standard Name.dot = [.ofText "./A.java", .ofText "./B.java"] ∧
      (copied.tally .standard Name.dot).distinct = 2 := by
  have hcounted : Suffix.standard.matchesPath (.ofText "A.java") = true := by decide
  have hunread : Suffix.standard.matchesPath (.ofText "D.java") = true := by decide
  have hpaths : copied.representatives .standard Name.dot =
      [.ofText "./A.java", .ofText "./B.java"] := by decide +kernel
  obtain ⟨_, _, _, _, _, hfile⟩ := tally_eq_stages copied .standard (.ofText "A.java")
  obtain ⟨_, _, _, _, _, hclosed⟩ := tally_eq_stages copied .standard (.ofText "D.java")
  obtain ⟨_, _, hdistinct, _⟩ := tally_eq_stages copied .standard Name.dot
  refine ⟨hcounted, ?_, hunread, ?_, hpaths, ?_⟩
  · rw [hfile hcounted]
    rfl
  · rw [hclosed hunread]
    rfl
  · rw [hdistinct, hpaths]
    rfl

/-- The block comment of `A.java` is over when `B.java` begins. -/
example : copied.tally .standard Name.dot = ⟨4, 2, ⟨0, 1, 1⟩⟩ := by decide +kernel

end FileTree

end LineTally
