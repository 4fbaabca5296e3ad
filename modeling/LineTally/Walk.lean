import LineTally.FileTree.Resolve

/-!
# Walking a tree

A walk starts at a path and lists, depth first and in the order of the names, what it meets: every
entry, files and directories alike, and every obstacle. A directory comes before what is inside
it. Links are followed, also a link at the start.

A link may lead back to a directory that the walk is inside of. Such a link is an obstacle and is
not followed again; only links are compared with the directories above them, because a directory
itself cannot be inside itself. A link to a directory is opened before it is compared, and one
that cannot be opened is an obstacle without a path. A directory that cannot be listed is still
met: the obstacle comes after it.

The caller says which directories are not gone into (`skip`). How deep a walk can get is known in
advance: between two links to directories it only goes down real directories, and no two links on
its way lead to the same directory. That depth is the budget of the recursion.
-/

set_option autoImplicit false

namespace LineTally

/-- Why the walk gets no further somewhere. -/
inductive Obstacle
  | unreachable (path : Path) (cause : AccessError)
  | unopened (cause : AccessError)
  | loop (path ancestor : Path)
  deriving DecidableEq, Repr

namespace Obstacle

def path? : Obstacle → Option Path
  | unreachable path _ => some path
  | unopened _ => none
  | loop path _ => some path

def message : Obstacle → List Char
  | unreachable path cause =>
    "IO error for operation on ".toList ++ path.display ++ ": ".toList ++ cause.message.toList
  | unopened cause => cause.message.toList
  | loop path ancestor =>
    "File system loop found: ".toList ++ path.display ++ " points to an ancestor ".toList ++
      ancestor.display

end Obstacle

inductive Visit
  | entry (path : Path) (isDirectory : Bool)
  | obstacle (o : Obstacle)
  deriving DecidableEq, Repr

/-- A directory that the walk is inside of: the path by which it got there, and where it is. -/
structure Ancestor where
  path : Path
  place : Place
  deriving DecidableEq, Repr

namespace FileTree

/-- A directory is met, and then what is inside it unless it is skipped. -/
def visitDirectory (skip : Path → Bool) (inside : Path → List Visit) (path : Path) : List Visit :=
  .entry path true :: if skip path then [] else inside path

/-- A link is met inside the directories `above`, nearest first. -/
def visitLink (t : FileTree) (skip : Path → Bool) (inside : Path → List Visit)
    (above : List Ancestor) (path : Path) : List Visit :=
  match t.status path with
  | .error cause => [.obstacle (.unreachable path cause)]
  | .ok found =>
    match found.item with
    | .directory permissions =>
      if permissions.readable then
        match above.find? fun a => a.place = found.place with
        | some a => [.obstacle (.loop path a.path)]
        | none => visitDirectory skip inside path
      else [.obstacle (.unopened .permissionDenied)]
    | _ => [.entry path false]

/-- Something is met whose kind is known. -/
def visit (t : FileTree) (skip : Path → Bool) (inside : Path → List Visit)
    (above : List Ancestor) (path : Path) : ItemKind → List Visit
  | .file => [.entry path false]
  | .directory => visitDirectory skip inside path
  | .link => t.visitLink skip inside above path

/-- What is met inside the directory at a path, going at most so many directories deep. -/
def visitsInside (t : FileTree) (skip : Path → Bool) :
    Nat → List Ancestor → Path → List Visit
  | 0, _, _ => []
  | budget + 1, above, path =>
    match t.list path with
    | .error cause => [.obstacle (.unreachable path cause)]
    | .ok (place, entries) =>
      let above := ⟨path, place⟩ :: above
      entries.flatMap fun entry =>
        t.visit skip (t.visitsInside skip budget above) above (path.join entry.name) entry.kind

/-- A walk that goes at most so many directories deep. -/
def walkWithin (t : FileTree) (budget : Nat) (skip : Path → Bool) (root : Path) : List Visit :=
  match t.linkStatus root with
  | .error cause => [.obstacle (.unreachable root cause)]
  | .ok found => t.visit skip (t.visitsInside skip budget []) [] root found.item.kind

/-- A depth that no walk exceeds: one more stretch of real directories than there are directories
for links to lead to. -/
def walkDepth (t : FileTree) : Nat :=
  (t.directoryCount + 1) * (t.height + 1)

def walk (t : FileTree) (skip : Path → Bool) (root : Path) : List Visit :=
  t.walkWithin t.walkDepth skip root

end FileTree

end LineTally
