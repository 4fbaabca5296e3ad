import LineTally.Proofs.FileTree.Alike
import LineTally.Proofs.Survey.Events
import LineTally.Proofs.Survey.Outcomes

/-!
# What a run learns from contents

A run reads files after it has found them, so what it finds cannot depend on what is in them: in
trees that are alike the walk meets the same things, and the same candidates are discovered with
the same events (`FileTree.Alike.discover_eq`). From there on contents come in at two places only.

* Which candidates stand for others is a question of which contents are **equal**, not of what they
  are (`FileTree.Alike.paths_kept_eq`). The two runs hold different fingerprints; what they share is
  which of them are equal, and that is all that `firstsBy` looks at (`firstsBy_congr`).
* What is counted is the content of candidates, and no other file's.

`survey_of_alike` puts this together.
-/

set_option autoImplicit false

namespace LineTally

/-! ## 1. Files by their paths -/

/-- The path of a file that was counted. -/
def Event.countedPath? : Event → Option Path
  | countedFile path _ => some path
  | _ => none

namespace FileTree

/-- The fingerprint of the file at a path, if it can be read. -/
def fingerprintAt? (t : FileTree) (path : Path) : Option Fingerprint :=
  (t.read path).toOption.map Fingerprint.ofContent

variable {t t' : FileTree} {suffix : Suffix} {root path : Path} {candidates : List Path}

theorem fingerprintAt?_of_read {content : Bytes} (h : t.read path = .ok content) :
    t.fingerprintAt? path = some (.ofContent content) := by
  rw [fingerprintAt?, h]
  rfl

theorem map_path_readable (t : FileTree) (candidates : List Path) :
    (Document.readable t candidates).map Document.path =
      candidates.filter fun path => (t.read path).toOption.isSome := by
  have hpath : ∀ path, (Document.read t path).toOption.map Document.path =
      Option.guard (fun path => (t.read path).toOption.isSome) path := by
    intro path
    rw [Document.toOption_read, Option.map_map]
    cases hread : (t.read path).toOption <;> simp [Option.guard, hread]
  rw [Document.readable, List.map_filterMap, ← List.filterMap_eq_filter]
  exact List.filterMap_congr fun path _ => hpath path

/-- **The files that are kept, by paths**: the readable candidates with a fingerprint that none of
them before has. -/
theorem map_path_kept (t : FileTree) (candidates : List Path) :
    (Document.kept t candidates).map Document.path =
      firstsBy t.fingerprintAt? (candidates.filter fun path => (t.read path).toOption.isSome) := by
  have hkeys : Document.kept t candidates =
      firstsBy (t.fingerprintAt? ∘ Document.path) (Document.readable t candidates) := by
    refine firstsBy_congr fun a ha b hb => ?_
    obtain ⟨_, ha⟩ := mem_readable.mp ha
    obtain ⟨_, hb⟩ := mem_readable.mp hb
    rw [Function.comp_apply, Function.comp_apply, fingerprintAt?_of_read ha,
      fingerprintAt?_of_read hb, Option.some.injEq]
    rfl
  rw [hkeys, ← firstsBy_map, map_path_readable]

/-- The paths of the files that are handed on while the candidates are read, in the order in which
that happens. -/
def handedOn (t : FileTree) (candidates : List Path) : List Path :=
  (Collection.collectWith t (fun file paths => (paths ++ [file.path], [])) [] candidates).1.state

/-- Just what is kept is handed on. -/
theorem handedOn_eq (t : FileTree) (candidates : List Path) :
    t.handedOn candidates = (Document.kept t candidates).map Document.path := by
  rw [handedOn, Collection.fst_collectWith, Collection.after]
  dsimp only
  induction Document.kept t candidates using List.reverseRecOn with
  | nil => rfl
  | append_singleton files file ih => rw [List.foldl_append, ih, List.map_append]; rfl

/-! ## 2. The walk through trees that are alike -/

namespace Alike

variable {skip : Path → Bool} {above : List Ancestor}

theorem visitLink_eq (h : t.Alike t') (inside : Path → List Visit) :
    t'.visitLink skip inside above path = t.visitLink skip inside above path := by
  unfold visitLink status
  rcases h.find_cases .follow path with
    ⟨cause, herror, herror'⟩ | ⟨place, item, item', hfound, hfound', halike⟩
  · rw [herror, herror']
  · rw [hfound, hfound']
    cases halike <;> rfl

theorem visit_eq (h : t.Alike t') (inside : Path → List Visit) (kind : ItemKind) :
    t'.visit skip inside above path kind = t.visit skip inside above path kind := by
  cases kind with
  | file => rfl
  | directory => rfl
  | link => exact h.visitLink_eq inside

/-- **The same is met inside every directory**, however deep the walk may go. -/
theorem visitsInside_eq (h : t.Alike t') (budget : Nat) :
    t'.visitsInside skip budget = t.visitsInside skip budget := by
  induction budget with
  | zero => rfl
  | succ budget ih =>
    funext above path
    rw [visitsInside, visitsInside, h.list_eq, ih]
    simp only [h.visit_eq]

theorem walk_eq (h : t.Alike t') (skip : Path → Bool) (root : Path) :
    t'.walk skip root = t.walk skip root := by
  have hdepth : t'.walkDepth = t.walkDepth := by
    rw [walkDepth, walkDepth, h.directoryCount_eq, h.height_eq]
  rw [walk, walk, walkWithin, walkWithin, hdepth, h.visitsInside_eq]
  unfold linkStatus
  rcases h.find_cases .keep root with
    ⟨cause, herror, herror'⟩ | ⟨place, item, item', hfound, hfound', halike⟩
  · rw [herror, herror']
  · rw [hfound, hfound']
    dsimp only
    rw [h.visit_eq, halike.kind_eq]

theorem candidateAt?_eq (h : t.Alike t') (suffix : Suffix) (o : Obstacle) :
    Discovery.candidateAt? t' suffix o = Discovery.candidateAt? t suffix o := by
  have hkind : ∀ path, Discovery.isNonDirectory t' path = Discovery.isNonDirectory t path := by
    intro path
    unfold Discovery.isNonDirectory linkStatus
    rcases h.find_cases .keep path with
      ⟨cause, herror, herror'⟩ | ⟨place, item, item', hfound, hfound', halike⟩
    · rw [herror, herror']
    · rw [hfound, hfound']
      dsimp only
      rw [halike.kind_eq]
  cases o with
  | unreachable path cause => rw [Discovery.candidateAt?, Discovery.candidateAt?, hkind]
  | unopened cause => rfl
  | loop path ancestor => rfl

/-- **What is discovered does not depend on contents**, and neither do the events on the way. -/
theorem discover_eq (h : t.Alike t') (suffix : Suffix) (root : Path) :
    t'.discover suffix root = t.discover suffix root := by
  have hvisit : Discovery.ofVisit t' suffix = Discovery.ofVisit t suffix := by
    funext v
    cases v with
    | entry path isDirectory => rfl
    | obstacle o => rw [Discovery.ofVisit, Discovery.ofVisit, h.candidateAt?_eq]
  rw [discover, discover, h.walk_eq, Discovery.ofVisits, Discovery.ofVisits, hvisit]

/-! ## 3. Which files are kept -/

theorem isSome_read_eq (h : t.Alike t') (path : Path) :
    (t'.read path).toOption.isSome = (t.read path).toOption.isSome := by
  rcases h.read_cases path with ⟨cause, herror, herror'⟩ | ⟨content, content', hread, hread'⟩
  · rw [herror, herror']
  · rw [hread, hread']
    rfl

end Alike

/-- **Two trees have the same copies among some paths**: of the files that can be read, any two have
equal contents in the one tree exactly when they have in the other. -/
def SameCopies (t t' : FileTree) (candidates : List Path) : Prop :=
  ∀ p ∈ candidates, ∀ q ∈ candidates, (t.read p).toOption.isSome → (t.read q).toOption.isSome →
    (t.read p = t.read q ↔ t'.read p = t'.read q)

/-- Where fingerprints tell contents apart, two files have the same one if they read the same. -/
theorem ToldApart.fingerprintAt?_eq_iff {p q : Path} {a b : Bytes} (h : t.ToldApart candidates)
    (hp : p ∈ candidates) (hq : q ∈ candidates) (ha : t.read p = .ok a) (hb : t.read q = .ok b) :
    t.fingerprintAt? p = t.fingerprintAt? q ↔ t.read p = t.read q := by
  rw [fingerprintAt?_of_read ha, fingerprintAt?_of_read hb, Option.some.injEq, ha, hb,
    Except.ok.injEq]
  refine ⟨fun heq => ?_, fun heq => congrArg _ heq⟩
  exact h a (mem_contentsRead.mpr ⟨p, hp, ha⟩) b (mem_contentsRead.mpr ⟨q, hq, hb⟩) heq

/-- **The same paths are kept** where the same candidates are copies of each other. -/
theorem Alike.paths_kept_eq (h : t.Alike t') (htold : t.ToldApart candidates)
    (htold' : t'.ToldApart candidates) (hcopies : t.SameCopies t' candidates) :
    (Document.kept t' candidates).map Document.path =
      (Document.kept t candidates).map Document.path := by
  rw [map_path_kept, map_path_kept]
  simp only [h.isSome_read_eq]
  refine firstsBy_congr fun p hp q hq => ?_
  obtain ⟨hp, hreadable⟩ := List.mem_filter.mp hp
  obtain ⟨hq, hreadable'⟩ := List.mem_filter.mp hq
  rcases h.read_cases p with ⟨cause, herror, _⟩ | ⟨a, a', ha, ha'⟩
  · rw [herror] at hreadable
    cases hreadable
  rcases h.read_cases q with ⟨cause, herror, _⟩ | ⟨b, b', hb, hb'⟩
  · rw [herror] at hreadable'
    cases hreadable'
  rw [htold'.fingerprintAt?_eq_iff hp hq ha' hb', htold.fingerprintAt?_eq_iff hp hq ha hb]
  exact (hcopies p hp q hq hreadable hreadable').symm

/-- The paths of the files that the events of a run say were counted are those that are kept. -/
theorem countedPaths_survey (t : FileTree) (suffix : Suffix) (root : Path) :
    (t.survey suffix root).events.filterMap Event.countedPath? =
      (Document.kept t (t.discover suffix root).files).map Document.path := by
  have hnone : (t.discover suffix root).events.filterMap Event.countedPath? = [] := by
    rw [List.filterMap_eq_nil_iff]
    intro e he
    have hother := not_isOfCandidate_discover e he
    cases e with
    | countedFile path counts => cases hother
    | _ => rfl
  rw [events_survey, ← events_discover, List.filterMap_append, List.filterMap_append, hnone,
    List.nil_append, List.filterMap_cons_none rfl, List.filterMap_nil, List.append_nil]
  apply filterMap_candidateEvents
  · exact fun file => rfl
  · exact fun failure => rfl
  · exact fun path => rfl

/-! ## 4. Two runs -/

/-- A run that finds the same candidates and reads the same from each is the same run. -/
theorem survey_eq_of_reads (hdiscover : t'.discover suffix root = t.discover suffix root)
    (hread : ∀ path ∈ (t.discover suffix root).files, t'.read path = t.read path) :
    t'.survey suffix root = t.survey suffix root := by
  have hfeed : ∀ c, (Collection.collector t' addCounts .zero).feed c
      (t.discover suffix root).files =
        (Collection.collector t addCounts .zero).feed c (t.discover suffix root).files := by
    refine fun c => Transducer.feed_congr fun c path hpath => ?_
    show Collection.take t' addCounts c path = Collection.take t addCounts c path
    unfold Collection.take Document.read
    rw [hread path hpath]
  unfold survey Collection.collectWith
  rw [hdiscover]
  dsimp only
  rw [hfeed]
  rfl

/-- **What a run learns from contents.** In trees that are alike the same candidates are discovered
with the same events. If the same candidates are copies of each other, as many are found and as many
are distinct, the same paths stand for them, and the same files are handed on and counted in the
same order. If the candidates that can be read have the same bytes, the runs are the same, their
results and all their events, whatever is in any other file. -/
theorem survey_of_alike (t t' : FileTree) (suffix : Suffix) (root : Path) (h : t.Alike t') :
    t'.walk suffix.matchesPath root = t.walk suffix.matchesPath root ∧
    (t'.discover suffix root).files = (t.discover suffix root).files ∧
    (t'.discover suffix root).events = (t.discover suffix root).events ∧
    (t.ToldApart (t.discover suffix root).files →
      t'.ToldApart (t'.discover suffix root).files →
      t.SameCopies t' (t.discover suffix root).files →
      (t'.tally suffix root).found = (t.tally suffix root).found ∧
      (t'.tally suffix root).distinct = (t.tally suffix root).distinct ∧
      t'.representatives suffix root = t.representatives suffix root ∧
      t'.handedOn (t'.discover suffix root).files = t.handedOn (t.discover suffix root).files ∧
      (t'.survey suffix root).events.filterMap Event.countedPath? =
        (t.survey suffix root).events.filterMap Event.countedPath?) ∧
    ((∀ path ∈ (t.discover suffix root).files, ∀ content,
        t.read path = .ok content → t'.read path = .ok content) →
      t'.survey suffix root = t.survey suffix root) := by
  have hdiscover := h.discover_eq suffix root
  refine ⟨h.walk_eq _ root, congrArg Discovery.files hdiscover,
    congrArg Discovery.events hdiscover, fun htold htold' hcopies => ?_, fun hcontents => ?_⟩
  · rw [hdiscover] at htold'
    have hpaths := h.paths_kept_eq htold htold' hcopies
    have hlength : ∀ s : FileTree, (s.contents (s.discover suffix root).files).length =
        ((Document.kept s (s.discover suffix root).files).map Document.path).length := by
      intro s
      rw [contents, List.length_map, List.length_map]
    rw [representatives_eq, representatives_eq, handedOn_eq, handedOn_eq, countedPaths_survey,
      countedPaths_survey, tally_eq, tally_eq]
    dsimp only
    rw [hlength, hlength, hdiscover, hpaths]
    exact ⟨rfl, rfl, rfl, rfl, rfl⟩
  · refine survey_eq_of_reads hdiscover fun path hpath => ?_
    rcases h.read_cases path with ⟨cause, herror, herror'⟩ | ⟨content, content', hread, _⟩
    · rw [herror, herror']
    · rw [hread, hcontents path hpath content hread]

/-- A tree with two copies, a link to one of them, another file, one that cannot be read and one
that nobody looks for. -/
def journal : FileTree where
  items := [
    ([], .directory .newDirectory),
    ([.ofText "A.java"], .file .newFile (.ofText "int a;\n")),
    ([.ofText "B.java"], .file .newFile (.ofText "int a;\n")),
    ([.ofText "C.java"], .link (.ofText "B.java")),
    ([.ofText "D.java"], .file .newFile (.ofText "/* d\n")),
    ([.ofText "E.java"], .file (.ofMode 0o000) []),
    ([.ofText "notes"], .file .newFile (.ofText "none\n"))]
  workingDirectory := []
  distinct := by decide
  proper := by decide

/-- The journal with the copies rewritten alike. -/
def revised : FileTree :=
  journal.rewritten fun place =>
    if place ∈ [[.ofText "A.java"], [.ofText "B.java"]] then some (.ofText "// a\n\n") else none

/-- The journal with other bytes where no run reads any. -/
def annotated : FileTree :=
  journal.rewritten fun place =>
    if place ∈ [[.ofText "E.java"], [.ofText "notes"]] then some (.ofText "int e;\n") else none

theorem survey_of_alike_journal :
    journal.Alike revised ∧
      journal.ToldApart (journal.discover .standard Name.dot).files ∧
      revised.ToldApart (revised.discover .standard Name.dot).files ∧
      journal.SameCopies revised (journal.discover .standard Name.dot).files ∧
      revised.read (.ofText "A.java") ≠ journal.read (.ofText "A.java") ∧
      journal.representatives .standard Name.dot = [.ofText "./A.java", .ofText "./D.java"] ∧
      revised.representatives .standard Name.dot = [.ofText "./A.java", .ofText "./D.java"] ∧
      (revised.tally .standard Name.dot).distinct = (journal.tally .standard Name.dot).distinct ∧
      journal.Alike annotated ∧
      annotated.read (.ofText "notes") ≠ journal.read (.ofText "notes") ∧
      annotated.survey .standard Name.dot = journal.survey .standard Name.dot := by
  have hrevised : journal.Alike revised := alike_rewritten journal _
  have hannotated : journal.Alike annotated := alike_rewritten journal _
  have htold : journal.ToldApart (journal.discover .standard Name.dot).files := by
    unfold ToldApart
    decide +kernel
  have htold' : revised.ToldApart (revised.discover .standard Name.dot).files := by
    unfold ToldApart
    decide +kernel
  have hcopies : journal.SameCopies revised (journal.discover .standard Name.dot).files := by
    unfold SameCopies
    decide +kernel
  have hpaths : journal.representatives .standard Name.dot =
      [.ofText "./A.java", .ofText "./D.java"] := by decide +kernel
  have hread : ∀ path ∈ (journal.discover .standard Name.dot).files,
      annotated.read path = journal.read path := by decide +kernel
  obtain ⟨_, _, _, hsame, _⟩ := survey_of_alike journal revised .standard Name.dot hrevised
  obtain ⟨_, _, _, _, hunread⟩ := survey_of_alike journal annotated .standard Name.dot hannotated
  obtain ⟨_, hdistinct, hrepresentatives, _⟩ := hsame htold htold' hcopies
  have hsurvey : annotated.survey .standard Name.dot = journal.survey .standard Name.dot :=
    hunread fun path hpath content hcontent => (hread path hpath).trans hcontent
  exact ⟨hrevised, htold, htold', hcopies, by decide +kernel, hpaths,
    hrepresentatives.trans hpaths, hdistinct, hannotated, by decide +kernel, hsurvey⟩

end FileTree

end LineTally
