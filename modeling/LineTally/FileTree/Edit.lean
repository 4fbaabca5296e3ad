import LineTally.FileTree.Resolve

/-!
# Edits

How a tree comes to be: files, directories and links are put at paths below the working directory,
removed, or given other permissions. Directories that are missing on the way are made. Whoever
edits a tree is not stopped by permissions, and a path that leads nowhere is left alone.
-/

set_option autoImplicit false

namespace LineTally

inductive Change
  | write (content : Bytes)
  | makeDirectory
  | link (target : Path)
  | remove
  | setMode (mode : Nat)
  deriving DecidableEq, Repr

structure Edit where
  path : Path
  change : Change
  deriving DecidableEq, Repr

namespace FileTree

/-- The place of the directory that a name leads to, made if there is none. -/
def enterOrMake (t : FileTree) (place : Place) (name : Name) : FileTree × Place :=
  if name = Name.dot then (t, place)
  else if name = Name.dotDot then (t, place.tail)
  else
    match t.unlocked.resolve .follow maxLinks place [name] true with
    | .ok found => (t, found)
    | .error _ => (t.put (name :: place) (.directory .newDirectory), name :: place)

/-- The place of the directory that some names lead to, with every missing one made. -/
def makeDirectories (t : FileTree) (place : Place) (names : List Name) : FileTree × Place :=
  names.foldl (fun (t, place) name => t.enterOrMake place name) (t, place)

/-- A file's content is replaced and its permissions stay; a link to a file is followed. -/
def writeAt (t : FileTree) (place : Place) (content : Bytes) : FileTree :=
  match place with
  | [] => t
  | name :: parent =>
    match t.unlocked.resolve .follow maxLinks parent [name] false with
    | .error _ => t.put place (.file .newFile content)
    | .ok found =>
      match t.item? found with
      | some (.file permissions _) => t.put found (.file permissions content)
      | _ => t.put place (.file .newFile content)

def edit (t : FileTree) (e : Edit) : FileTree :=
  let start := origin t.workingDirectory e.path
  match e.change with
  | .makeDirectory => (t.makeDirectories start e.path.names).1
  | .setMode mode =>
    match t.unlocked.status e.path with
    | .error _ => t
    | .ok found => t.mapItems fun place item =>
        if place = found.place then item.withPermissions (.ofMode mode) else item
  | .remove =>
    match t.unlocked.linkStatus e.path with
    | .error _ => t
    | .ok found => t.prune found.place
  | .write content =>
    match e.path.names.getLast? with
    | none => t
    | some name =>
      let (t, place) := t.makeDirectories start e.path.names.dropLast
      t.writeAt (name :: place) content
  | .link target =>
    match e.path.names.getLast? with
    | none => t
    | some name =>
      let (t, place) := t.makeDirectories start e.path.names.dropLast
      t.put (name :: place) (.link target)

def edits (t : FileTree) (es : List Edit) : FileTree :=
  es.foldl edit t

end FileTree

end LineTally
