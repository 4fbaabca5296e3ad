import LineTally.Candidates.Discovery
import LineTally.Proofs.Walk.Depth

/-!
# The search without a budget

`FileTree.walk` recurses with a budget and hands out everything at once. The search it stands for
has neither: it keeps a stack of listings that are gone through, hands out one thing at a time, and
whoever drives it may drop the listing on top before it is looked at. Nothing in it says that it
ever comes to an end. This file is that search, one `turn` at a time, and the theorem that it
**does end, with exactly what the recursion gives** — for any budget from `walkDepth` on.

The argument is one simulation, `runs_directory`: from a stack with a directory on top, the search
gets to the stack without it, and has meanwhile handed out `visitsInside`. It is an induction on the
budget, and the budget that is left when a spot is reached is the room that `Enters.length_above_lt`
leaves below `walkDepth`; at no budget there is no spot. Going through the listing on top is an
induction of its own (`runs_rest`).
-/

set_option autoImplicit false

namespace LineTally

/-- What is on the stack of a search: the root before it is met, a directory that could not be
listed, or a listed one with the entries that are still to come. -/
inductive Frame
  | root (path : Path)
  | unlisted (path : Path) (cause : AccessError)
  | listing (directory : Ancestor) (rest : List Entry)

/-- A search under way: the stack, what has been handed out, and what was made of it. -/
structure Search where
  stack : List Frame
  visits : List Visit
  found : Discovery

namespace Frame

/-- The directory whose entries are gone through. -/
def directory? : Frame → Option Ancestor
  | listing directory _ => some directory
  | _ => none

/-- The frame of a directory that is gone into. It is listed at once. -/
def ofDirectory (t : FileTree) (path : Path) : Frame :=
  match t.list path with
  | .error cause => unlisted path cause
  | .ok (place, entries) => listing ⟨path, place⟩ entries

/-- The directories that a search is inside of, nearest first. -/
def directories (stack : List Frame) : List Ancestor := stack.filterMap directory?

end Frame

namespace Discovery

/-- What one visit more contributes. -/
def add (t : FileTree) (suffix : Suffix) (d : Discovery) (v : Visit) : Discovery :=
  ⟨d.files ++ (ofVisit t suffix v).files, d.events ++ (ofVisit t suffix v).events⟩

end Discovery

namespace Search

/-- A search that has not begun. -/
def start (root : Path) : Search := ⟨[.root root], [], ⟨[], []⟩⟩

/-- Something is handed out. A directory is on the stack before it is handed out, and is dropped
from it again if its path matches. -/
def handOut (t : FileTree) (suffix : Suffix) (visits : List Visit) (found : Discovery)
    (stack : List Frame) (path : Path) (v : Visit) : Search :=
  let pushed := if v = .entry path true then .ofDirectory t path :: stack else stack
  let kept := if v = .entry path true ∧ suffix.matchesPath path then pushed.tail else pushed
  ⟨kept, visits ++ [v], found.add t suffix v⟩

/-- **One turn**: a listing with no entry left is dropped; from anything else one thing is handed
out. With an empty stack the search is over. -/
def turn (t : FileTree) (suffix : Suffix) : Search → Option Search
  | ⟨[], _, _⟩ => none
  | ⟨.root path :: stack, visits, found⟩ =>
    let v := match t.linkStatus path with
      | .error cause => .obstacle (.unreachable path cause)
      | .ok kept => t.met (Frame.directories stack) path kept.item.kind
    some (handOut t suffix visits found stack path v)
  | ⟨.unlisted path cause :: stack, visits, found⟩ =>
    some (handOut t suffix visits found stack path (.obstacle (.unreachable path cause)))
  | ⟨.listing _ [] :: stack, visits, found⟩ => some ⟨stack, visits, found⟩
  | ⟨.listing directory (e :: rest) :: stack, visits, found⟩ =>
    let stack := .listing directory rest :: stack
    let path := directory.path.join e.name
    some (handOut t suffix visits found stack path (t.met (Frame.directories stack) path e.kind))

/-- Any number of turns. -/
abbrev Runs (t : FileTree) (suffix : Suffix) : Search → Search → Prop :=
  Relation.ReflTransGen fun a b => turn t suffix a = some b

variable {t : FileTree} {suffix : Suffix} {root path : Path} {stack : List Frame}
  {visits : List Visit} {found : Discovery}

/-! ## 1. Turns -/

/-- What a search has after some more visits. -/
def after (t : FileTree) (suffix : Suffix) (stack : List Frame) (visits : List Visit)
    (found : Discovery) (more : List Visit) : Search :=
  ⟨stack, visits ++ more, more.foldl (Discovery.add t suffix) found⟩

theorem after_nil : after t suffix stack visits found [] = ⟨stack, visits, found⟩ := by
  rw [after, List.append_nil]
  rfl

theorem after_cons (v : Visit) (vs : List Visit) :
    after t suffix stack visits found (v :: vs) =
      after t suffix stack (visits ++ [v]) (found.add t suffix v) vs := by
  simp [after]

theorem after_append (vs ws : List Visit) :
    after t suffix stack (visits ++ vs) (vs.foldl (Discovery.add t suffix) found) ws =
      after t suffix stack visits found (vs ++ ws) := by
  rw [after, after, List.append_assoc, List.foldl_append]

/-- What is made of the visits one by one is what is made of all of them. -/
theorem foldl_add (vs : List Visit) : vs.foldl (Discovery.add t suffix) found =
    ⟨found.files ++ (Discovery.ofVisits t suffix vs).files,
      found.events ++ (Discovery.ofVisits t suffix vs).events⟩ := by
  induction vs generalizing found with
  | nil => simp [Discovery.ofVisits]
  | cons v vs ih =>
    rw [List.foldl_cons, ih]
    simp [Discovery.ofVisits, Discovery.add]

theorem handOut_of_not_entered {v : Visit}
    (h : ¬ (v = .entry path true ∧ suffix.matchesPath path = false)) :
    handOut t suffix visits found stack path v = after t suffix stack visits found [v] := by
  unfold handOut after
  by_cases hv : v = .entry path true
  · have hmatch : suffix.matchesPath path = true := by
      cases hm : suffix.matchesPath path with
      | true => rfl
      | false => exact absurd ⟨hv, hm⟩ h
    simp [hv, hmatch]
  · simp [hv]

theorem handOut_of_entered (h : suffix.matchesPath path = false) :
    handOut t suffix visits found stack path (.entry path true) =
      after t suffix (.ofDirectory t path :: stack) visits found [.entry path true] := by
  simp [handOut, after, h]

/-! ## 2. The simulation -/

/-- One entry, when it is known what becomes of the directory it may be. -/
theorem runs_entry {above : List Ancestor} {kind : ItemKind} {inside : Path → List Visit}
    (hinside : t.Opens above path kind → suffix.matchesPath path = false →
      ∀ visits found, Runs t suffix ⟨.ofDirectory t path :: stack, visits, found⟩
        (after t suffix stack visits found (inside path))) :
    Runs t suffix (handOut t suffix visits found stack path (t.met above path kind))
      (after t suffix stack visits found
        (t.visit suffix.matchesPath inside above path kind)) := by
  rw [FileTree.visit_eq]
  by_cases h : t.met above path kind = .entry path true ∧ suffix.matchesPath path = false
  · obtain ⟨hmet, hunmatched⟩ := h
    have hopens := FileTree.met_eq_directory_iff.mp hmet
    rw [if_pos ⟨hmet, hunmatched⟩, hmet, handOut_of_entered hunmatched, after_cons,
      after_nil, after_cons]
    exact hinside hopens hunmatched _ _
  · rw [if_neg h, handOut_of_not_entered h]

/-- The rest of a listing, when it is known what becomes of each directory in it. -/
theorem runs_rest {above : List Ancestor} {directory : Ancestor} {inside : Path → List Visit}
    {rest : List Entry} (habove : Frame.directories stack = above)
    (hinside : ∀ e ∈ rest, ∀ later : List Entry,
      t.Opens (directory :: above) (directory.path.join e.name) e.kind →
      suffix.matchesPath (directory.path.join e.name) = false → ∀ visits found,
        Runs t suffix
          ⟨.ofDirectory t (directory.path.join e.name) :: .listing directory later :: stack,
            visits, found⟩
          (after t suffix (.listing directory later :: stack) visits found
            (inside (directory.path.join e.name)))) :
    Runs t suffix ⟨.listing directory rest :: stack, visits, found⟩
      (after t suffix stack visits found (rest.flatMap fun e =>
        t.visit suffix.matchesPath inside (directory :: above) (directory.path.join e.name)
          e.kind)) := by
  induction rest generalizing visits found with
  | nil =>
    rw [List.flatMap_nil, after_nil]
    exact .single rfl
  | cons e rest ih =>
    have hdirectories : Frame.directories (.listing directory rest :: stack) =
        directory :: above := congrArg (_ :: ·) habove
    have hturn : turn t suffix ⟨.listing directory (e :: rest) :: stack, visits, found⟩ =
        some (handOut t suffix visits found (.listing directory rest :: stack)
          (directory.path.join e.name)
          (t.met (directory :: above) (directory.path.join e.name) e.kind)) := by
      rw [turn, hdirectories]
    have hrest := fun visits found => @ih visits found fun e' he' =>
      hinside e' (List.mem_cons_of_mem _ he')
    rw [List.flatMap_cons, ← after_append]
    refine .head hturn (.trans (runs_entry fun hopens hskip => ?_) (hrest _ _))
    exact hinside e List.mem_cons_self rest hopens hskip

/-- **The search leaves a directory having handed out what the recursion gives for it.** -/
theorem runs_directory {budget : Nat} {s : Spot} (henters : t.Enters suffix.matchesPath root s)
    (hroom : t.walkDepth ≤ s.above.length + budget) (habove : Frame.directories stack = s.above) :
    Runs t suffix ⟨.ofDirectory t s.path :: stack, visits, found⟩
      (after t suffix stack visits found
        (t.visitsInside suffix.matchesPath budget s.above s.path)) := by
  induction budget generalizing s stack visits found with
  | zero =>
    -- The budget is as large as the room that is left, and no spot uses up its room.
    have hlt := henters.length_above_lt
    omega
  | succ budget ih =>
    obtain ⟨above, path⟩ := s
    rcases FileTree.lists_or_error t path with ⟨place, hlists⟩ | ⟨cause, herror⟩
    · have hframe : Frame.ofDirectory t path = .listing ⟨path, place⟩ (t.entries place) := by
        rw [Frame.ofDirectory, hlists]
      rw [hframe, FileTree.visitsInside_of_lists hlists]
      refine runs_rest habove fun e he later hopens hskip visits found => ?_
      have hdeeper : t.Deeper suffix.matchesPath ⟨above, path⟩
          ⟨⟨path, place⟩ :: above, path.join e.name⟩ := .into hlists he hopens hskip
      have henters' : t.Enters suffix.matchesPath root
          ⟨⟨path, place⟩ :: above, path.join e.name⟩ :=
        ⟨henters.opens, henters.unskipped, henters.below.tail hdeeper⟩
      refine ih henters' ?_ (congrArg (_ :: ·) habove)
      simp only [List.length_cons] at hroom ⊢
      omega
    · have hframe : Frame.ofDirectory t path = .unlisted path cause := by
        rw [Frame.ofDirectory, herror]
      rw [hframe, FileTree.visitsInside_of_list_error herror]
      refine .single ?_
      rw [turn, handOut_of_not_entered (by simp)]

theorem runs_walkWithin {budget : Nat} (hroom : t.walkDepth ≤ budget) :
    Runs t suffix (start root)
      (after t suffix [] [] ⟨[], []⟩ (t.walkWithin budget suffix.matchesPath root)) := by
  unfold FileTree.walkWithin
  cases hroot : t.linkStatus root with
  | error cause =>
    refine .single ?_
    rw [start, turn, hroot]
    dsimp only
    rw [handOut_of_not_entered (by simp)]
  | ok kept =>
    have hturn : turn t suffix (start root) =
        some (handOut t suffix [] ⟨[], []⟩ [] root (t.met [] root kept.item.kind)) := by
      rw [start, turn, hroot]
      rfl
    refine .head hturn (runs_entry fun hopens hskip visits found => ?_)
    have henters : t.Enters suffix.matchesPath root ⟨[], root⟩ :=
      ⟨⟨kept, hroot, hopens⟩, hskip, .refl⟩
    exact runs_directory henters (by simpa using hroom) rfl

end Search

/-! ## 3. The end of a search -/

theorem Search.Runs.end_unique {t : FileTree} {suffix : Suffix} {s a b : Search}
    (ha : Search.Runs t suffix s a) (hb : Search.Runs t suffix s b)
    (hendA : Search.turn t suffix a = none) (hendB : Search.turn t suffix b = none) : a = b := by
  -- A turn is a function, so of two runs one goes on where the other stands, and neither can.
  have hover : ∀ {c d : Search}, Search.turn t suffix c = none → Search.Runs t suffix c d →
      c = d := by
    intro c d hend hruns
    rcases hruns.cases_head with heq | ⟨next, hturn, _⟩
    · exact heq
    · rw [hend] at hturn
      cases hturn
  have hunique : Relator.RightUnique fun a b => Search.turn t suffix a = some b := by
    intro c d e hd he
    rw [hd] at he
    exact Option.some.inj he
  rcases ha.total_of_right_unique hunique hb with hab | hba
  · exact hover hendA hab
  · exact (hover hendB hba).symm

/-- **A search ends, and the recursion is the search.** From any root, with any links and any
permissions, finitely many turns lead to a search that has no turn left. What it has handed out, and
the candidates and events that came of it, are those of the recursion with any budget that is not
below the bound, and those of `discover`.

Every path that it has handed out comes down from the root by one way, entry by entry, which crosses
no more links than there are directories, no two of them to the same one. An obstacle with a path is
the root or an entry of a directory that is reached by such a way. -/
theorem search_ends_as_walk (t : FileTree) (suffix : Suffix) (root : Path) :
    ∃ final, Search.Runs t suffix (Search.start root) final ∧ Search.turn t suffix final = none ∧
      (∀ budget ≥ (t.directoryCount + 1) * (t.height + 1),
        t.walkWithin budget suffix.matchesPath root = final.visits ∧
          Discovery.ofVisits t suffix (t.walkWithin budget suffix.matchesPath root) =
            final.found) ∧
      (t.discover suffix root =
        if suffix.matchesPath root then ⟨[root], []⟩
        else ⟨final.found.files,
          final.found.events ++ [.discovered root final.found.files.length]⟩) ∧
      (∀ path isDirectory, .entry path isDirectory ∈ final.visits →
        ∃! names, path = root.through names ∧ t.BoundedWay suffix.matchesPath root names) ∧
      ∀ o path, .obstacle o ∈ final.visits → o.path? = some path → path = root ∨
        ∃ names e, path = root.through (names ++ [e.name]) ∧
          t.BoundedWay suffix.matchesPath root names ∧ t.HasEntry (root.through names) e ∧
          names.length < (t.directoryCount + 1) * (t.height + 1) := by
  have hruns : Search.Runs t suffix (Search.start root)
      (Search.after t suffix [] [] ⟨[], []⟩ (t.walk suffix.matchesPath root)) :=
    Search.runs_walkWithin (Nat.le_refl _)
  have hfound : (Search.after t suffix [] [] ⟨[], []⟩ (t.walk suffix.matchesPath root)).found =
      Discovery.ofVisits t suffix (t.walk suffix.matchesPath root) := by
    rw [Search.after, Search.foldl_add]
    rfl
  refine ⟨_, hruns, rfl, fun budget hroom => ?_, ?_, fun path isDirectory h => ?_,
    fun o path h hpath => ?_⟩
  · have hend := Search.Runs.end_unique (Search.runs_walkWithin hroom) hruns rfl rfl
    have hvisits : t.walkWithin budget suffix.matchesPath root = t.walk suffix.matchesPath root :=
      congrArg Search.visits hend
    exact ⟨hvisits, by rw [hvisits, hfound]⟩
  · rw [hfound]
    rfl
  · obtain ⟨names, rfl, hway⟩ := FileTree.boundedWay_of_handed_out h
    exact ⟨names, ⟨rfl, hway⟩, fun others ⟨heq, hother⟩ => hother.unique hway heq.symm⟩
  · rcases FileTree.obstacle_of_handed_out h hpath with rfl | ⟨names, e, rfl, hdescent, hentry⟩
    · exact Or.inl rfl
    · exact Or.inr ⟨names, e, rfl, hdescent.boundedWay, hentry, hdescent.length_lt⟩

end LineTally
