import LineTally.CommandLine

/-!
# The program

The outer layer. It reads what is on disk into a file tree, as far as the paths among the arguments
lead, runs the command line on that tree, and prints the outcome. Everything that is decided is
decided there; here a directory or file that cannot be read becomes one without permission, and a
link that cannot be followed becomes one that leads nowhere.
-/

set_option autoImplicit false

namespace LineTally.Disk

def bytesOf (text : String) : Bytes := text.toUTF8.toList

def placeOf (path : String) : Place := (Path.names (bytesOf path)).reverse

/-- The answer of an action, if it has one. -/
def attempt {α : Type} (action : IO α) : IO (Option α) := do
  try
    return some (← action)
  catch _ =>
    return none

/-- The kind of what is at an entry of a directory, where that can be told. -/
def kindOf (entry : IO.FS.DirEntry) : IO (Option ItemKind) := do
  match ← attempt entry.path.symlinkMetadata with
  | none => return none
  | some metadata =>
    match metadata.type with
    | .dir => return some .directory
    | .symlink => return some .link
    | _ => return some .file

/-- A path without links as an entry of the directory that holds it. -/
def entryAt (path : String) : IO (Option IO.FS.DirEntry) := do
  match ← attempt (IO.FS.realPath path) with
  | none => return none
  | some real =>
    match real.parent, real.fileName with
    | some parent, some name => return some ⟨parent, name⟩
    | _, _ => return none

def putLink (t : FileTree) (entry : IO.FS.DirEntry) : IO FileTree := do
  let target ← attempt (IO.FS.realPath entry.path)
  let path : Path := match target with
    | none => [0]
    | some real => bytesOf real.toString
  return t.put (placeOf entry.path.toString) (.link path)

/-- Whatever is at an entry of a directory, and all that can be reached from there. -/
partial def load (t : FileTree) (entry : IO.FS.DirEntry) : IO FileTree := do
  let place := placeOf entry.path.toString
  if (t.item? place).isSome then
    return t
  match ← kindOf entry with
  | none => return t.put place (.file ⟨false, false⟩ [])
  | some .directory =>
    match ← attempt entry.path.readDir with
    | none => return t.put place (.directory ⟨false, true⟩)
    | some entries => entries.foldlM load (t.put place (.directory .newDirectory))
  | some .link =>
    let t ← putLink t entry
    match ← entryAt entry.path.toString with
    | none => return t
    | some target => load t target
  | some .file =>
    match ← attempt (IO.FS.readBinFile entry.path) with
    | none => return t.put place (.file ⟨false, false⟩ [])
    | some content => return t.put place (.file .newFile content.toList)

/-- Whatever some names lead to from a directory, and the directories passed on the way. The links
on the way are kept. -/
def loadAlong (t : FileTree) (passed : List Place) (directory : String) :
    List String → IO (FileTree × List Place)
  | [] => do
    match ← entryAt directory with
    | none => return (t, passed)
    | some entry => return (← load t entry, passed)
  | name :: rest => do
    match ← attempt (IO.FS.realPath directory) with
    | none => return (t, passed)
    | some real =>
      let entry : IO.FS.DirEntry := ⟨real, name⟩
      let t ← if (← kindOf entry) = some .link then putLink t entry else pure t
      loadAlong t (placeOf real.toString :: passed) entry.path.toString rest

/-- The tree with a directory at a place and at every place that holds it, unless there is
something already. -/
def withPlace (t : FileTree) : Place → FileTree
  | [] => if (t.item? []).isSome then t else t.put [] (.directory .newDirectory)
  | name :: parent =>
    let t := withPlace t parent
    if (t.item? (name :: parent)).isSome then t
    else t.put (name :: parent) (.directory .newDirectory)

/-- The tree on disk as far as a path leads, with the directories that hold it. -/
def treeFor (path : String) : IO FileTree := do
  let directory := (← IO.currentDir).toString
  let start := if path.startsWith "/" then "/" else directory
  let (t, passed) ← loadAlong (.bare (placeOf directory)) [] start (path.splitOn "/")
  let places := placeOf directory :: passed ++ t.items.map fun item => item.1.tail
  return places.foldl withPlace t

end LineTally.Disk

open LineTally in
def main (arguments : List String) : IO UInt32 := do
  let setting ← IO.getEnv "RUST_LOG"
  let encoded := arguments.map Disk.bytesOf
  let tree ← match Command.ofArguments encoded with
    | .ok (.report path) => Disk.treeFor (String.ofList path.display)
    | _ => pure (.empty [])
  let outcome := CommandLine.run tree (setting.map Disk.bytesOf) encoded
  (← IO.getStdout).putStr (String.ofList outcome.output)
  for line in outcome.diagnostics do
    (← IO.getStderr).putStrLn (String.ofList line)
  return UInt32.ofNat outcome.code
