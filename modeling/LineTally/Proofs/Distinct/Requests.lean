import LineTally.Proofs.Candidates.Contract
import LineTally.Proofs.Distinct.Occurrences
import Mathlib.Data.Finset.Card
import Mathlib.Data.Finset.Dedup

/-!
# Representatives under any requests

The pass over the candidates asks its representatives for one thing only, to take a path under a
fingerprint. Here they are asked anything, any number of times and in any order: to take a path, or
whether they know a fingerprint (`Request`). Nothing ties a path to one fingerprint; it may come
back under another, and the fingerprint with another path.

The representatives are pairs. Kept apart these are a set of fingerprints and a list of paths, and
nothing in the two says which belongs to which (`Unpaired`). What keeps them in step is that a path
joins the list exactly when its fingerprint is new to the set, and `feed_unpaired` says that this is
enough: whoever asks gets the same answers.

`after_requests` is what the representatives have become when all has been asked, the pairs that
were first with their fingerprints. `keeps_first_insertions` says it in terms of the requests alone.
-/

set_option autoImplicit false

namespace LineTally

/-- What representatives can be asked. -/
inductive Request where
  | insert (f : Fingerprint) (path : Path)
  | contains (f : Fingerprint)
  deriving DecidableEq, Repr

namespace Request

/-- The fingerprint and the path that a request brings. -/
def brings? : Request → Option (Fingerprint × Path)
  | .insert f path => some (f, path)
  | .contains _ => none

/-- **The request at a position is the first to bring its fingerprint.** -/
def IsFirst (requests : List Request) (i : Nat) : Prop :=
  ∃ f path, requests[i]? = some (.insert f path) ∧
    ∀ j < i, ∀ other, requests[j]? ≠ some (.insert f other)

/-- **The paths of these requests**, in the order of their positions. -/
def FirstPaths (requests : List Request) (paths : List Path) : Prop :=
  ∃ positions : List Nat, positions.Pairwise (· < ·) ∧
    (∀ i, i ∈ positions ↔ IsFirst requests i) ∧
    List.Forall₂ (fun path i => ∃ f, requests[i]? = some (.insert f path)) paths positions

/-- The machine that serves requests, whatever keeps what they bring. -/
def server {σ : Type} (start : σ) (insert : σ → Fingerprint → Path → Bool × σ)
    (contains : σ → Fingerprint → Bool) : Transducer σ Request Bool where
  start := start
  step s
    | .insert f path => ((insert s f path).2, [(insert s f path).1])
    | .contains f => (s, [contains s f])
  finish _ := []

/-! ## 1. What requests bring -/

section Brought

variable {requests : List Request} {r : Request} {f : Fingerprint} {path : Path} {i : Nat}

theorem brings?_eq_some_iff : r.brings? = some (f, path) ↔ r = .insert f path := by
  cases r <;> simp [brings?]

theorem fingerprint_eq_some_iff :
    r.brings?.map Prod.fst = some f ↔ ∃ path, r = .insert f path := by
  cases r <;> simp [brings?]

theorem mem_fingerprints : f ∈ (requests.filterMap brings?).map Prod.fst ↔
    ∃ path, .insert f path ∈ requests := by
  rw [List.map_filterMap, List.mem_filterMap]
  constructor
  · rintro ⟨r, hr, hf⟩
    obtain ⟨path, rfl⟩ := fingerprint_eq_some_iff.mp hf
    exact ⟨path, hr⟩
  · rintro ⟨path, hr⟩
    exact ⟨_, hr, rfl⟩

theorem firstAt_iff_isFirst :
    FirstAt (fun r => r.brings?.map Prod.fst) requests i ↔ IsFirst requests i := by
  constructor
  · rintro ⟨r, f, hr, hf, hother⟩
    obtain ⟨path, rfl⟩ := fingerprint_eq_some_iff.mp hf
    exact ⟨f, path, hr, fun j hj other hget => hother j hj _ hget rfl⟩
  · rintro ⟨f, path, hr, hother⟩
    refine ⟨_, f, hr, rfl, fun j hj r hget hf => ?_⟩
    obtain ⟨other, rfl⟩ := fingerprint_eq_some_iff.mp hf
    exact hother j hj other hget

theorem firstPaths_firstsBy (requests : List Request) :
    FirstPaths requests ((firstsBy Prod.fst (requests.filterMap brings?)).map Prod.snd) := by
  obtain ⟨positions, hascending, hmem, hfirsts⟩ :=
    exists_positions_firstsBy brings? Prod.fst requests
  refine ⟨positions, hascending, fun i => (hmem i).trans firstAt_iff_isFirst, ?_⟩
  rw [List.forall₂_map_left_iff]
  refine hfirsts.imp fun ⟨f, path⟩ i hbrought => ?_
  obtain ⟨r, hr, hbrings⟩ := Option.bind_eq_some_iff.mp hbrought
  rw [brings?_eq_some_iff.mp hbrings] at hr
  exact ⟨f, hr⟩

end Brought

end Request

/-! ## 2. Pairs -/

namespace Representatives

variable {u : Representatives} {f : Fingerprint} {path : Path}

/-- **What inserting does**, by whether the fingerprint is known. -/
theorem insert_cases (u : Representatives) (f : Fingerprint) (path : Path) :
    f ∈ u.files.map Prod.fst ∧ u.insert f path = (false, u) ∨
      f ∉ u.files.map Prod.fst ∧ u.insert f path = (true, ⟨u.files ++ [(f, path)]⟩) := by
  rw [← contains_iff]
  by_cases h : u.contains f = true
  · exact Or.inl ⟨h, insert_of_contains h path⟩
  · exact Or.inr ⟨h, insert_of_not_contains h path⟩

theorem insert_accepts_iff : (u.insert f path).1 = true ↔ u.contains f = false := by
  rw [← Bool.not_eq_true, contains_iff]
  rcases insert_cases u f path with ⟨hold, heq⟩ | ⟨hnew, heq⟩
  · simp [hold, heq]
  · simp [hnew, heq]

theorem insert_of_refused (h : (u.insert f path).1 = false) : (u.insert f path).2 = u := by
  rcases insert_cases u f path with ⟨_, heq⟩ | ⟨_, heq⟩
  · rw [heq]
  · rw [heq] at h
    cases h

theorem paths_insert_of_accepted (h : (u.insert f path).1 = true) :
    (u.insert f path).2.paths = u.paths ++ [path] := by
  rcases insert_cases u f path with ⟨_, heq⟩ | ⟨_, heq⟩
  · rw [heq] at h
    cases h
  · simp [heq, paths]

/-- The machine that serves requests to representatives, beginning with none. -/
def server : Transducer Representatives Request Bool :=
  Request.server empty insert contains

/-- The representatives when some requests have been served. -/
def after (requests : List Request) : Representatives :=
  (server.feed server.start requests).1

/-- What has been answered to them. -/
def answers (requests : List Request) : List Bool :=
  (server.feed server.start requests).2

theorem after_concat (requests : List Request) (r : Request) :
    after (requests ++ [r]) = (server.step (after requests) r).1 := by
  unfold after
  rw [Transducer.feed_append, Transducer.feed_cons, Transducer.feed_nil]

/-- One pair more, after the first of some, leaves the first of them all. -/
theorem insert_firstsBy (brought : List (Fingerprint × Path)) (f : Fingerprint) (path : Path) :
    (insert ⟨firstsBy Prod.fst brought⟩ f path).2 =
      ⟨firstsBy Prod.fst (brought ++ [(f, path)])⟩ := by
  rw [firstsBy_concat]
  rcases insert_cases ⟨firstsBy Prod.fst brought⟩ f path with ⟨hold, heq⟩ | ⟨hnew, heq⟩
  · rw [heq, if_pos (mem_map_firstsBy.mp hold)]
  · rw [heq, if_neg (fun h => hnew (mem_map_firstsBy.mpr h))]

/-- **The representatives are the pairs that were first** with their fingerprints. -/
theorem after_requests (requests : List Request) :
    after requests = ⟨firstsBy Prod.fst (requests.filterMap Request.brings?)⟩ := by
  induction requests using List.reverseRecOn with
  | nil => rfl
  | append_singleton requests r ih =>
    rw [after_concat, ih, List.filterMap_append]
    cases r with
    | insert f path => exact insert_firstsBy _ f path
    | contains f =>
      rw [List.filterMap_cons_none rfl, List.filterMap_nil, List.append_nil]
      rfl

/-! ## 3. A set and a list -/

/-- Fingerprints and paths with nothing to say which belongs to which. -/
structure Unpaired where
  seen : Finset Fingerprint
  paths : List Path
  deriving DecidableEq

namespace Unpaired

def empty : Unpaired := ⟨∅, []⟩

/-- A path joins the list when its fingerprint is new to the set. -/
def insert (s : Unpaired) (f : Fingerprint) (path : Path) : Bool × Unpaired :=
  if f ∈ s.seen then (false, s) else (true, ⟨Insert.insert f s.seen, s.paths ++ [path]⟩)

def contains (s : Unpaired) (f : Fingerprint) : Bool := decide (f ∈ s.seen)

def server : Transducer Unpaired Request Bool :=
  Request.server empty insert contains

end Unpaired

/-- The fingerprints and the paths of pairs. -/
def unpaired (u : Representatives) : Unpaired :=
  ⟨(u.files.map Prod.fst).toFinset, u.paths⟩

theorem mem_seen_unpaired : f ∈ u.unpaired.seen ↔ f ∈ u.files.map Prod.fst :=
  List.mem_toFinset

theorem contains_unpaired (u : Representatives) (f : Fingerprint) :
    u.unpaired.contains f = u.contains f := by
  rw [Bool.eq_iff_iff, contains_iff, ← mem_seen_unpaired]
  exact decide_eq_true_iff

theorem insert_unpaired (u : Representatives) (f : Fingerprint) (path : Path) :
    u.unpaired.insert f path = ((u.insert f path).1, (u.insert f path).2.unpaired) := by
  unfold Unpaired.insert
  rcases insert_cases u f path with ⟨hold, heq⟩ | ⟨hnew, heq⟩
  · rw [heq, if_pos (mem_seen_unpaired.mpr hold)]
  · rw [heq, if_neg (fun h => hnew (mem_seen_unpaired.mp h))]
    simp [unpaired, paths]

/-- **Nobody who asks can tell** whether the pairs are kept or the two apart. -/
theorem feed_unpaired (requests : List Request) :
    Unpaired.server.feed Unpaired.server.start requests =
      ((after requests).unpaired, answers requests) := by
  have hstep : ∀ (u : Representatives) (r : Request), Unpaired.server.step u.unpaired r =
      ((server.step u r).1.unpaired, (server.step u r).2) := by
    intro u r
    cases r with
    | insert f path => simp only [Unpaired.server, server, Request.server, insert_unpaired]
    | contains f => simp only [Unpaired.server, server, Request.server, contains_unpaired]
  exact Transducer.feed_image hstep empty requests

/-- The set and the list keep in step: no fingerprint is there twice. -/
theorem card_seen_after (requests : List Request) :
    (after requests).unpaired.seen.card = (after requests).size := by
  rw [after_requests]
  exact (List.toFinset_card_of_nodup (nodup_firstsBy _)).trans (List.length_map _)

/-! ## 4. What the requests make of the representatives -/

theorem mem_seen_after {requests : List Request} {f : Fingerprint} :
    f ∈ (after requests).unpaired.seen ↔ ∃ path, Request.insert f path ∈ requests := by
  rw [mem_seen_unpaired, after_requests, mem_map_firstsBy, Request.mem_fingerprints]

theorem isEmpty_after_iff {requests : List Request} : (after requests).isEmpty = true ↔
    ∀ f path, Request.insert f path ∉ requests := by
  have hempty : (after requests).isEmpty = true ↔ (after requests).unpaired.seen = ∅ := by
    rw [← Finset.card_eq_zero, card_seen_after]
    exact List.isEmpty_iff_length_eq_zero
  rw [hempty, Finset.eq_empty_iff_forall_notMem]
  simp only [mem_seen_after, not_exists]

theorem firstPaths_after (requests : List Request) :
    Request.FirstPaths requests (after requests).paths := by
  rw [after_requests]
  exact Request.firstPaths_firstsBy requests

/-- **What representatives are after any requests**, wherever one stops. They know the fingerprints
that were brought, one path for each, and these are the paths that came first with them, in order
and whether or not a path is there already. A path that is brought then is taken if its fingerprint
is not known: it comes after all others, and otherwise nothing changes.

A set of fingerprints and a list of paths that know nothing of each other hold just this, have given
the same answers, and are of one size. -/
theorem keeps_first_insertions (requests : List Request) :
    ∃ seen : Finset Fingerprint,
      (∀ f, f ∈ seen ↔ ∃ path, Request.insert f path ∈ requests) ∧
      (after requests).size = seen.card ∧
      ((after requests).isEmpty = true ↔ ∀ f path, Request.insert f path ∉ requests) ∧
      (∀ f, (after requests).contains f = true ↔ f ∈ seen) ∧
      Request.FirstPaths requests (after requests).paths ∧
      (∀ f path, ((after requests).insert f path).1 = true ↔
        (after requests).contains f = false) ∧
      (∀ f path, ((after requests).insert f path).1 = false →
        ((after requests).insert f path).2 = after requests) ∧
      (∀ f path, ((after requests).insert f path).1 = true →
        ((after requests).insert f path).2.paths = (after requests).paths ++ [path]) ∧
      Unpaired.server.feed Unpaired.server.start requests =
        (⟨seen, (after requests).paths⟩, answers requests) ∧
      (after requests).paths.length = seen.card := by
  refine ⟨(after requests).unpaired.seen, fun f => mem_seen_after, (card_seen_after requests).symm,
    isEmpty_after_iff, ?_, firstPaths_after requests, fun f path => insert_accepts_iff,
    fun f path => insert_of_refused, fun f path => paths_insert_of_accepted,
    feed_unpaired requests, ?_⟩
  · intro f
    rw [contains_iff, mem_seen_unpaired]
  · rw [card_seen_after]
    exact List.length_map _

/-- One path under two fingerprints, one of them also with another path, and a question between. -/
def reused : List Request :=
  [.insert (.ofContent []) (.ofText "A.java"), .insert (.ofContent []) (.ofText "B.java"),
    .contains (.ofContent (.ofText "x")), .insert (.ofContent (.ofText "x")) (.ofText "A.java")]

theorem keeps_first_insertions_reused :
    answers reused = [true, false, false, true] ∧
      (after reused).paths = [.ofText "A.java", .ofText "A.java"] ∧
      ((after reused).insert (.ofContent []) (.ofText "C.java")).1 = false ∧
      ((after reused).insert (.ofContent []) (.ofText "C.java")).2 = after reused ∧
      ((after reused).insert (.ofContent (.ofText "y")) (.ofText "B.java")).1 = true ∧
      ((after reused).insert (.ofContent (.ofText "y")) (.ofText "B.java")).2.paths =
        [.ofText "A.java", .ofText "A.java", .ofText "B.java"] := by
  have hpaths : (after reused).paths = [.ofText "A.java", .ofText "A.java"] := by decide +kernel
  have hold : ((after reused).insert (.ofContent []) (.ofText "C.java")).1 = false := by
    decide +kernel
  have hnew : ((after reused).insert (.ofContent (.ofText "y")) (.ofText "B.java")).1 = true := by
    decide +kernel
  obtain ⟨_, _, _, _, _, _, _, hrefused, haccepted, _, _⟩ := keeps_first_insertions reused
  refine ⟨by decide +kernel, hpaths, hold, hrefused _ _ hold, hnew, ?_⟩
  rw [haccepted _ _ hnew, hpaths]
  rfl

end Representatives

end LineTally
