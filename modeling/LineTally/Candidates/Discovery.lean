import LineTally.Candidates.Suffix
import LineTally.Log.Event

/-!
# Discovering the candidates

A path that matches is a candidate whatever it leads to, and nobody looks whether it leads
anywhere. So a root that matches is the only candidate, a directory that matches is a candidate
and not gone into, and so is a link that matches and leads nowhere.

An obstacle at a matching path is a candidate if there is something at the path that is not a
directory. A directory that could not be listed, a loop, and an obstacle without a path are not.
-/

set_option autoImplicit false

namespace LineTally

/-- The candidates under a root, in the order of the walk, and what happened on the way. -/
structure Discovery where
  files : List Path
  events : List Event
  deriving DecidableEq, Repr

namespace Discovery

/-- Whether there is something at a path, a link included, that is not a directory. -/
def isNonDirectory (t : FileTree) (path : Path) : Bool :=
  match t.linkStatus path with
  | .ok found => found.item.kind ≠ .directory
  | .error _ => false

def candidateAt? (t : FileTree) (suffix : Suffix) : Obstacle → Option Path
  | .unreachable path _ =>
    if suffix.matchesPath path && isNonDirectory t path then some path else none
  | .unopened _ | .loop .. => none

/-- What one step of the walk contributes. -/
def ofVisit (t : FileTree) (suffix : Suffix) : Visit → Discovery
  | .entry path _ => ⟨if suffix.matchesPath path then [path] else [], []⟩
  | .obstacle o =>
    match candidateAt? t suffix o with
    | some path => ⟨[path], [.unresolvedCandidate path o]⟩
    | none => ⟨[], [.skippedObstacle o]⟩

def ofVisits (t : FileTree) (suffix : Suffix) (visits : List Visit) : Discovery :=
  ⟨visits.flatMap fun v => (ofVisit t suffix v).files,
   visits.flatMap fun v => (ofVisit t suffix v).events⟩

end Discovery

/-- The candidates under a root. A root that matches is not walked and leaves no trace in the
log. -/
def FileTree.discover (t : FileTree) (suffix : Suffix) (root : Path) : Discovery :=
  if suffix.matchesPath root then ⟨[root], []⟩
  else
    let found := Discovery.ofVisits t suffix (t.walk suffix.matchesPath root)
    ⟨found.files, found.events ++ [.discovered root found.files.length]⟩

end LineTally
