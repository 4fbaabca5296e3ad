import LineTally.Proofs.Distinct.Firsts
import LineTally.Proofs.Line.Totals

/-!
# What the log of a run says

Events come from three places: from the walk, from the pass that tells copies apart, and from the
counting that the pass calls upon. Whether they add up to an account of the run is a matter of every
branch of each of them handing out exactly one event, and `survey_accounted_for` says that they do:

1. unless the root matches, one event for each obstacle of the walk, in the order of the walk
   (`obstacleEvent`), and one for the whole discovery;
2. one event for each candidate, in the order of the candidates (`candidateEvent`);
3. one event for the whole collection.

So nothing has to be taken on trust from the result of a run: it can be read off the events
(`Tally.ofEvents`).
-/

set_option autoImplicit false

namespace LineTally

/-! ## 1. What events are about -/

/-- An obstacle, if a visit is one. -/
def Visit.obstacle? : Visit → Option Obstacle
  | .entry .. => none
  | .obstacle o => some o

namespace Event

/-- Whether an event tells what became of a candidate. -/
def isOfCandidate : Event → Bool
  | unreadableFile _ | countedFile .. | duplicateContent _ => true
  | _ => false

/-- The counts of a file that was counted. -/
def counts? : Event → Option Counts
  | countedFile _ counts => some counts
  | _ => none

/-- The path of an obstacle that was taken for a candidate. -/
def unresolved? : Event → Option Path
  | unresolvedCandidate path _ => some path
  | _ => none

end Event

/-- **The result that events tell of**: a file for each event about a candidate, and the counts of
those that were counted. -/
def Tally.ofEvents (events : List Event) : Tally :=
  ⟨events.countP Event.isOfCandidate, (events.filterMap Event.counts?).length,
    (events.filterMap Event.counts?).sum⟩

namespace FileTree

/-- The obstacles that the walk meets, in its order. -/
def obstacles (t : FileTree) (suffix : Suffix) (root : Path) : List Obstacle :=
  (t.walk suffix.matchesPath root).filterMap Visit.obstacle?

/-- What is said about an obstacle. -/
def obstacleEvent (t : FileTree) (suffix : Suffix) (o : Obstacle) : Event :=
  match Discovery.candidateAt? t suffix o with
  | some path => .unresolvedCandidate path o
  | none => .skippedObstacle o

/-- What is said about a candidate that comes after some others: that it cannot be read, that
another one with its fingerprint was read before, or what its lines are. -/
def candidateEvent (t : FileTree) (before : List Path) (path : Path) : Event :=
  match Document.read t path with
  | .error failure => .unreadableFile failure
  | .ok file =>
    if file.fingerprint ∈ (Document.readable t before).map Document.fingerprint then
      .duplicateContent path
    else .countedFile path file.counts

/-- What is said about candidates, about each of them after those before it. -/
def candidateEvents (t : FileTree) (candidates : List Path) : List Event :=
  candidates.mapIdx fun i path => t.candidateEvent (candidates.take i) path

variable {t : FileTree} {suffix : Suffix} {root path : Path} {candidates : List Path}

/-! ## 2. The walk -/

theorem events_ofVisits (visits : List Visit) : (Discovery.ofVisits t suffix visits).events =
    (visits.filterMap Visit.obstacle?).map (t.obstacleEvent suffix) := by
  induction visits with
  | nil => rfl
  | cons v visits ih =>
    simp only [Discovery.ofVisits, List.flatMap_cons] at ih ⊢
    rw [ih]
    cases v with
    | entry path isDirectory => rfl
    | obstacle o =>
      simp only [Discovery.ofVisit, obstacleEvent, Visit.obstacle?, List.filterMap_cons,
        List.map_cons]
      cases Discovery.candidateAt? t suffix o <;> rfl

/-- An obstacle that is taken for a candidate is one of the candidates, in its place. -/
theorem unresolved_sublist (visits : List Visit) :
    ((Discovery.ofVisits t suffix visits).events.filterMap Event.unresolved?).Sublist
      (Discovery.ofVisits t suffix visits).files := by
  induction visits with
  | nil => exact List.Sublist.slnil
  | cons v visits ih =>
    simp only [Discovery.ofVisits, List.flatMap_cons, List.filterMap_append] at ih ⊢
    apply List.Sublist.append _ ih
    cases v with
    | entry path isDirectory => exact List.nil_sublist _
    | obstacle o =>
      simp only [Discovery.ofVisit]
      cases Discovery.candidateAt? t suffix o with
      | some path => exact List.Sublist.refl _
      | none => exact List.Sublist.refl _

/-! ## 3. The pass -/

theorem candidateEvents_concat (candidates : List Path) (path : Path) :
    t.candidateEvents (candidates ++ [path]) =
      t.candidateEvents candidates ++ [t.candidateEvent candidates path] := by
  unfold candidateEvents
  rw [List.mapIdx_concat, List.take_left]
  congr 1
  apply List.ext_getElem
  · simp
  · intro i hi _
    simp only [List.length_mapIdx] at hi
    simp [List.take_append_of_le_length (Nat.le_of_lt hi)]

theorem length_candidateEvents (candidates : List Path) :
    (t.candidateEvents candidates).length = candidates.length := by
  simp [candidateEvents]

/-- One candidate more is one event more. -/
theorem events_take (lines : Counts) (candidates : List Path) (path : Path) :
    (Collection.take t addCounts (Collection.after t addCounts lines candidates) path).2 =
      [t.candidateEvent candidates path] := by
  unfold Collection.take candidateEvent
  cases hread : Document.read t path with
  | error failure => rfl
  | ok file =>
    have hpath : file.path = path := (Document.read_eq_ok_iff.mp hread).1
    dsimp only
    by_cases hold : file.fingerprint ∈ (Document.readable t candidates).map Document.fingerprint
    · rw [if_pos hold, Representatives.insert_of_contains (Collection.contains_after.mpr hold),
        hpath]
    · rw [if_neg hold, Representatives.insert_of_not_contains fun h =>
        hold (Collection.contains_after.mp h)]
      simp only [addCounts, hpath]

theorem events_feed_collector (lines : Counts) (candidates : List Path) :
    ((Collection.collector t addCounts lines).feed
      (Collection.collector t addCounts lines).start candidates).2 =
        t.candidateEvents candidates := by
  induction candidates using List.reverseRecOn with
  | nil => rfl
  | append_singleton candidates path ih =>
    rw [Transducer.feed_append, Transducer.feed_cons, Transducer.feed_nil, ih,
      Collection.feed_collector, candidateEvents_concat]
    simp only [List.append_nil]
    rw [← events_take lines]
    rfl

/-! ## 4. Reading the result off the events -/

theorem isOfCandidate_of_mem {e : Event} (h : e ∈ t.candidateEvents candidates) :
    e.isOfCandidate = true := by
  obtain ⟨i, hi, rfl⟩ := List.mem_mapIdx.mp h
  unfold candidateEvent
  split
  · rfl
  · split <;> rfl

theorem unresolved_of_isOfCandidate {e : Event} (h : e.isOfCandidate = true) :
    e.unresolved? = none := by
  cases e with
  | unresolvedCandidate path o => cases h
  | _ => rfl

theorem counts_of_not_isOfCandidate {e : Event} (h : e.isOfCandidate = false) :
    e.counts? = none := by
  cases e with
  | countedFile path counts => cases h
  | _ => rfl

/-- The files that are said to be counted are those that are kept, in their order. So whatever is
read off such events, and off no others about candidates, is read off the files. -/
theorem filterMap_candidateEvents {β : Type} {f : Event → Option β} {g : Document → β}
    (hcounted : ∀ file : Document, f (.countedFile file.path file.counts) = some (g file))
    (hunreadable : ∀ failure, f (.unreadableFile failure) = none)
    (hduplicate : ∀ path, f (.duplicateContent path) = none) (candidates : List Path) :
    (t.candidateEvents candidates).filterMap f = (Document.kept t candidates).map g := by
  induction candidates using List.reverseRecOn with
  | nil => rfl
  | append_singleton candidates path ih =>
    rw [candidateEvents_concat, List.filterMap_append, ih, candidateEvent]
    cases hread : Document.read t path with
    | error failure =>
      rw [Document.kept_concat_error hread]
      simp [hunreadable]
    | ok file =>
      have hpath : path = file.path := (Document.read_eq_ok_iff.mp hread).1.symm
      rw [Document.kept_concat_ok candidates hread]
      by_cases hold : file.fingerprint ∈ (Document.readable t candidates).map Document.fingerprint
      · simp [hold, hduplicate]
      · simp [hold, hpath, hcounted]

theorem counts_candidateEvents (candidates : List Path) :
    (t.candidateEvents candidates).filterMap Event.counts? =
      (Document.kept t candidates).map Document.counts := by
  apply filterMap_candidateEvents
  · exact fun file => rfl
  · exact fun failure => rfl
  · exact fun path => rfl

/-- What is said about candidates tells how many there were and which lines were counted. -/
theorem ofEvents_candidateEvents (candidates : List Path) :
    Tally.ofEvents (t.candidateEvents candidates) =
      ⟨candidates.length, (t.contents candidates).length,
        ((t.contents candidates).map Counts.ofContent).sum⟩ := by
  have hall : (t.candidateEvents candidates).countP Event.isOfCandidate = candidates.length := by
    rw [← length_candidateEvents candidates (t := t), List.countP_eq_length]
    intro e he
    exact isOfCandidate_of_mem he
  rw [Tally.ofEvents, hall, counts_candidateEvents, contents]
  simp only [List.length_map, List.map_map]
  rfl

/-- Events that are not about candidates may stand anywhere. -/
theorem ofEvents_of_others {before events after : List Event}
    (hbefore : ∀ e ∈ before, e.isOfCandidate = false)
    (hafter : ∀ e ∈ after, e.isOfCandidate = false) :
    Tally.ofEvents (before ++ events ++ after) = Tally.ofEvents events := by
  have hnone : ∀ l : List Event, (∀ e ∈ l, e.isOfCandidate = false) →
      l.countP Event.isOfCandidate = 0 ∧ l.filterMap Event.counts? = [] := by
    intro l hl
    constructor
    · rw [List.countP_eq_zero]
      intro e he
      simp [hl e he]
    · rw [List.filterMap_eq_nil_iff]
      intro e he
      exact counts_of_not_isOfCandidate (hl e he)
  simp [Tally.ofEvents, hnone before hbefore, hnone after hafter]

/-! ## 5. The account -/

/-- What is said about the discovery: nothing if the root matches, else one event for each obstacle
of the walk, and the number of candidates. -/
def discoveryEvents (t : FileTree) (suffix : Suffix) (root : Path) : List Event :=
  if suffix.matchesPath root then []
  else (t.obstacles suffix root).map (t.obstacleEvent suffix) ++
    [.discovered root (t.discover suffix root).files.length]

theorem events_discover : (t.discover suffix root).events = t.discoveryEvents suffix root := by
  unfold discoveryEvents obstacles
  rw [← events_ofVisits, discover]
  split <;> rfl

/-- Discovery speaks of obstacles, and of the number of candidates. -/
theorem mem_events_discover {e : Event} (h : e ∈ (t.discover suffix root).events) :
    (∃ path o, e = .unresolvedCandidate path o) ∨ (∃ o, e = .skippedObstacle o) ∨
      ∃ count, e = .discovered root count := by
  rw [events_discover, discoveryEvents] at h
  split at h
  · cases h
  · rcases List.mem_append.mp h with h | h
    · obtain ⟨o, _, rfl⟩ := List.mem_map.mp h
      unfold obstacleEvent
      split
      · exact Or.inl ⟨_, _, rfl⟩
      · exact Or.inr (Or.inl ⟨_, rfl⟩)
    · exact Or.inr (Or.inr ⟨_, List.mem_singleton.mp h⟩)

theorem not_isOfCandidate_discover :
    ∀ e ∈ (t.discover suffix root).events, e.isOfCandidate = false := by
  intro e he
  rcases mem_events_discover he with ⟨path, o, rfl⟩ | ⟨o, rfl⟩ | ⟨count, rfl⟩ <;> rfl

theorem unresolved_sublist_discover :
    ((t.discover suffix root).events.filterMap Event.unresolved?).Sublist
      (t.discover suffix root).files := by
  unfold discover
  split
  · exact List.nil_sublist _
  · rw [List.filterMap_append, List.filterMap_cons_none rfl, List.filterMap_nil, List.append_nil]
    exact unresolved_sublist _

theorem events_survey : (t.survey suffix root).events =
    t.discoveryEvents suffix root ++ t.candidateEvents (t.discover suffix root).files ++
      [.collected (t.tally suffix root).found (t.tally suffix root).distinct] := by
  simp only [tally, survey, Collection.collectWith, events_feed_collector, events_discover,
    List.append_assoc]
  rfl

/-- That counting is finished is not for the count itself to say. -/
theorem finished_notMem_survey {tally : Tally} :
    Event.finished path tally ∉ (t.survey suffix root).events := by
  intro h
  rw [events_survey, ← events_discover] at h
  rcases List.mem_append.mp h with h | h
  · rcases List.mem_append.mp h with h | h
    · rcases mem_events_discover h with ⟨_, _, h⟩ | ⟨_, h⟩ | ⟨_, h⟩ <;> cases h
    · cases isOfCandidate_of_mem h
  · cases List.mem_singleton.mp h

/-- **The log is an account of the run**, for every tree, suffix and root. Its events are those of
the discovery, one for each candidate in order, and one for the collection; the obstacles that were
taken for candidates stand in the order of the candidates; and the result of the run can be read
off the events alone. -/
theorem survey_accounted_for (t : FileTree) (suffix : Suffix) (root : Path) :
    (t.survey suffix root).events =
      (if suffix.matchesPath root then []
        else (t.obstacles suffix root).map (t.obstacleEvent suffix) ++
          [.discovered root (t.discover suffix root).files.length]) ++
      ((t.discover suffix root).files.mapIdx fun i path =>
        t.candidateEvent ((t.discover suffix root).files.take i) path) ++
      [.collected (t.tally suffix root).found (t.tally suffix root).distinct] ∧
    ((t.survey suffix root).events.filterMap Event.unresolved?).Sublist
      (t.discover suffix root).files ∧
    Tally.ofEvents (t.survey suffix root).events = t.tally suffix root := by
  refine ⟨events_survey, ?_, ?_⟩
  · have hcandidates : (t.candidateEvents (t.discover suffix root).files).filterMap
        Event.unresolved? = [] := by
      rw [List.filterMap_eq_nil_iff]
      intro e he
      exact unresolved_of_isOfCandidate (isOfCandidate_of_mem he)
    rw [events_survey, ← events_discover, List.filterMap_append, List.filterMap_append, hcandidates,
      List.filterMap_cons_none rfl, List.filterMap_nil, List.append_nil, List.append_nil]
    exact unresolved_sublist_discover
  · rw [events_survey, ← events_discover,
      ofEvents_of_others not_isOfCandidate_discover (by simp [Event.isOfCandidate]),
      ofEvents_candidateEvents, tally_eq, Counts.foldl_add_eq_sum, Counts.zero_eq, zero_add]

end FileTree

end LineTally
