import LineTally.FileTree.Path

/-!
# File trees

A file tree says what is at each place: a file with its bytes, a directory, or a link with the path
it points to. Files and directories have two permission bits each, those of their owner, who is
the one that looks: reading, and going through.

A place is the list of names from it up to the top, innermost first, so that the place that holds
it is its tail and an entry of it has one name more. Two directories are the same exactly when
their places are equal: links have places of their own and never occur within one.
-/

set_option autoImplicit false

namespace LineTally

/-- Where something is: the names from it up to the top, innermost first. -/
abbrev Place := List Name

/-- Whether a place can hold an item: every name up to the top is one that an entry can have. -/
def Place.isProper (place : Place) : Bool := place.all Name.isProper

/-- What the owner may do: read the content or list the names, and go through to what is inside. -/
structure Permissions where
  readable : Bool
  searchable : Bool
  deriving DecidableEq, Repr

namespace Permissions

/-- The permissions that the mode bits give the owner, from octal `400` and `100`. -/
def ofMode (mode : Nat) : Permissions :=
  ⟨mode / 0o400 % 2 = 1, mode / 0o100 % 2 = 1⟩

def newFile : Permissions := ofMode 0o644

def newDirectory : Permissions := ofMode 0o755

end Permissions

inductive Item
  | file (permissions : Permissions) (content : Bytes)
  | directory (permissions : Permissions)
  | link (target : Path)
  deriving DecidableEq, Repr

/-- The kind of an item, which a directory's listing tells without looking at the item. -/
inductive ItemKind
  | file
  | directory
  | link
  deriving DecidableEq, Repr

namespace Item

def kind : Item → ItemKind
  | file .. => .file
  | directory .. => .directory
  | link .. => .link

/-- An item with other permissions. A link has none. -/
def withPermissions (permissions : Permissions) : Item → Item
  | file _ content => file permissions content
  | directory _ => directory permissions
  | link target => link target

end Item

/-- The items of a tree with their places, and the place at which a relative path starts. No place
occurs twice, and all names are such as entries can have. -/
structure FileTree where
  items : List (Place × Item)
  workingDirectory : Place
  distinct : (items.map Prod.fst).Nodup
  proper : ∀ p ∈ items, p.1.isProper

/-- A line of a directory's listing. -/
structure Entry where
  name : Name
  kind : ItemKind
  deriving DecidableEq, Repr

namespace Entry

/-- Puts an entry into a listing, before the first entry whose name is not less. Names are compared
byte by byte. -/
def putSorted (e : Entry) : List Entry → List Entry
  | [] => [e]
  | first :: rest =>
    if e.name ≤ first.name then e :: first :: rest else first :: putSorted e rest

end Entry

namespace FileTree

def item? (t : FileTree) (place : Place) : Option Item :=
  t.items.lookup place

/-- The listing entry of an item, when it is directly in the directory at `place`. -/
def entryIn (place : Place) : Place × Item → Option Entry
  | ([], _) => none
  | (name :: parent, item) => if parent = place then some ⟨name, item.kind⟩ else none

/-- The entries of the directory at a place, sorted by the bytes of their names. -/
def entries (t : FileTree) (place : Place) : List Entry :=
  (t.items.filterMap (entryIn place)).foldr Entry.putSorted []

def directoryCount (t : FileTree) : Nat :=
  t.items.countP fun (_, item) => item.kind = .directory

/-- How far the deepest item is from the top. -/
def height (t : FileTree) : Nat :=
  t.items.foldl (fun h (place, _) => max h place.length) 0

/-! ## Changing a tree -/

/-- The tree in which `place` holds `item`, whatever it held before. Nothing can be put where an
entry cannot be. -/
def put (t : FileTree) (place : Place) (item : Item) : FileTree :=
  if h : place.isProper then
    { items := (place, item) :: t.items.filter fun p => p.1 ≠ place
      workingDirectory := t.workingDirectory
      distinct := by
        rw [List.map_cons, List.nodup_cons]
        refine ⟨?_, t.distinct.sublist (List.filter_sublist.map Prod.fst)⟩
        intro hmem
        obtain ⟨p, hp, hplace⟩ := List.mem_map.mp hmem
        exact of_decide_eq_true (List.mem_filter.mp hp).2 hplace
      proper := by
        intro p hp
        rcases List.mem_cons.mp hp with rfl | hp
        · exact h
        · exact t.proper p (List.mem_filter.mp hp).1 }
  else t

/-- The tree without what is at `place` or anywhere inside it. -/
def prune (t : FileTree) (place : Place) : FileTree where
  items := t.items.filter fun p => !place.isSuffixOf p.1
  workingDirectory := t.workingDirectory
  distinct := t.distinct.sublist (List.filter_sublist.map Prod.fst)
  proper p hp := t.proper p (List.mem_filter.mp hp).1

/-- The tree whose items are changed where they are. -/
def mapItems (t : FileTree) (f : Place → Item → Item) : FileTree where
  items := t.items.map fun (place, item) => (place, f place item)
  workingDirectory := t.workingDirectory
  distinct := by
    have h : (t.items.map fun (place, item) => (place, f place item)).map Prod.fst =
        t.items.map Prod.fst := by
      rw [List.map_map]
      rfl
    rw [h]
    exact t.distinct
  proper := by
    intro p hp
    obtain ⟨q, hq, rfl⟩ := List.mem_map.mp hp
    exact t.proper q hq

/-- The tree as it looks to someone whom no permission stops. -/
def unlocked (t : FileTree) : FileTree :=
  t.mapItems fun _ item => item.withPermissions ⟨true, true⟩

/-- The tree with new directories at a place and at every place that holds it. -/
def putDirectories (t : FileTree) : Place → FileTree
  | [] => t.put [] (.directory .newDirectory)
  | name :: parent => (t.putDirectories parent).put (name :: parent) (.directory .newDirectory)

/-- A tree with nothing in it, not even the top. -/
def bare (workingDirectory : Place) : FileTree where
  items := []
  workingDirectory := workingDirectory
  distinct := List.nodup_nil
  proper _ h := nomatch h

/-- A tree with nothing in it but an empty working directory and the directories that hold it. -/
def empty (workingDirectory : Place) : FileTree :=
  (bare workingDirectory).putDirectories workingDirectory

end FileTree

end LineTally
