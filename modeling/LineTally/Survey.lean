import LineTally.Candidates.Discovery
import LineTally.Distinct.Collection

/-!
# Counting everything under a path

The candidates are discovered, read and counted in one pass: each file with a new content is
counted as soon as it is read, and only its counts are kept. Counting never fails: a root that is
not there, or that cannot be read, has nothing under it.
-/

set_option autoImplicit false

namespace LineTally

/-- The result of a run and what happened during it. -/
structure Survey where
  tally : Tally
  events : List Event
  deriving DecidableEq, Repr

namespace FileTree

/-- A file's lines are added to those counted before it. -/
def addCounts (file : Document) (lines : Counts) : Counts × List Event :=
  (lines + file.counts, [.countedFile file.path file.counts])

def survey (t : FileTree) (suffix : Suffix) (root : Path) : Survey :=
  let discovery := t.discover suffix root
  let (c, events) := Collection.collectWith t addCounts .zero discovery.files
  ⟨⟨c.count, c.kept.size, c.state⟩, discovery.events ++ events⟩

def tally (t : FileTree) (suffix : Suffix) (root : Path) : Tally :=
  (t.survey suffix root).tally

end FileTree

end LineTally
