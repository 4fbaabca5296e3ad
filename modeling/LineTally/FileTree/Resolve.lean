import LineTally.FileTree.Basic

/-!
# What a path leads to

A path is followed name by name from the top or from the working directory. Each name is looked up
in a directory that has to be searchable, a link on the way continues with its own target, and at
most 40 links are followed in all. A link in the last position is followed or kept, as the caller
asks; a slash after it has it followed in any case.

The order of the checks decides which of two errors is reported: the directory's permission, then
the length of the name, then whether the name is there.

The length of a name is bounded, and so is the number of links that are followed for a path. The
length of a whole path is unbounded: no path is refused for being too long in all.
-/

set_option autoImplicit false

namespace LineTally

/-- Why a path does not lead to what was asked for. -/
inductive AccessError
  | notFound
  | permissionDenied
  | notADirectory
  | isADirectory
  | nameTooLong
  | tooManyLinks
  | containsNul
  deriving DecidableEq, Repr

namespace AccessError

/-- The number under which the system reports an error; a path that it cannot even be asked about
has none. -/
def code? : AccessError → Option Nat
  | notFound => some 2
  | permissionDenied => some 13
  | notADirectory => some 20
  | isADirectory => some 21
  | nameTooLong => some 36
  | tooManyLinks => some 40
  | containsNul => none

def reason : AccessError → String
  | notFound => "No such file or directory"
  | permissionDenied => "Permission denied"
  | notADirectory => "Not a directory"
  | isADirectory => "Is a directory"
  | nameTooLong => "File name too long"
  | tooManyLinks => "Too many levels of symbolic links"
  | containsNul => "file name contained an unexpected NUL byte"

def message (e : AccessError) : String :=
  match e.code? with
  | some code => e.reason ++ " (os error " ++ toString code ++ ")"
  | none => e.reason

end AccessError

/-- What becomes of a link in the last position of a path. -/
inductive LastLink
  | follow
  | keep
  deriving DecidableEq, Repr

/-- What a path leads to, and where it is. -/
structure Found where
  place : Place
  item : Item
  deriving DecidableEq, Repr

namespace FileTree

/-- The most links that are followed for one path. -/
def maxLinks : Nat := 40

def isDirectoryAt (t : FileTree) (place : Place) : Bool :=
  (t.item? place).any fun item => item.kind = .directory

/-- Names can be looked up at a place that holds a directory with permission to go through. -/
def enter (t : FileTree) (place : Place) : Except AccessError Unit :=
  match t.item? place with
  | none => .error .notFound
  | some (.directory permissions) =>
    if permissions.searchable then .ok () else .error .permissionDenied
  | some _ => .error .notADirectory

/-- Follows names from a place, up to a link: what is then left to do is up to `onLink`, which gets
the place that holds the link, its target, the names after it, and whether a slash ends the path. -/
def advance (t : FileTree) (last : LastLink)
    (onLink : Place → Path → List Name → Bool → Except AccessError Place) :
    Place → List Name → Bool → Except AccessError Place
  | place, [], slashed =>
    if slashed && !t.isDirectoryAt place then .error .notADirectory else .ok place
  | place, name :: rest, slashed =>
    match t.enter place with
    | .error e => .error e
    | .ok () =>
      if name.length > Name.maxLength then .error .nameTooLong
      else if name = Name.dot then t.advance last onLink place rest slashed
      else if name = Name.dotDot then t.advance last onLink place.tail rest slashed
      else
        match t.item? (name :: place) with
        | none => .error .notFound
        | some (.link target) =>
          if rest.isEmpty && !slashed && last = .keep then .ok (name :: place)
          else onLink place target rest slashed
        | some _ => t.advance last onLink (name :: place) rest slashed

/-- The place where the names of a path start. -/
def origin (place : Place) (path : Path) : Place :=
  if path.isAbsolute then [] else place

/-- Follows names from a place, and at most so many links. A link's target takes the place of the
link's name; the slash that ends it counts when nothing comes after the link. -/
def resolve (t : FileTree) (last : LastLink) :
    Nat → Place → List Name → Bool → Except AccessError Place
  | 0 => t.advance last fun _ _ _ _ => .error .tooManyLinks
  | links + 1 => t.advance last fun place target rest slashed =>
      t.resolve last links (origin place target) (target.names ++ rest)
        (slashed || (rest.isEmpty && target.endsInSlash))

def find (t : FileTree) (last : LastLink) (path : Path) : Except AccessError Found :=
  if path.contains 0 then .error .containsNul
  else if path.isEmpty then .error .notFound
  else
    match t.resolve last maxLinks (origin t.workingDirectory path) path.names path.endsInSlash with
    | .error e => .error e
    | .ok place =>
      match t.item? place with
      | some item => .ok ⟨place, item⟩
      | none => .error .notFound

/-- What a path leads to when every link is followed. -/
def status (t : FileTree) (path : Path) : Except AccessError Found :=
  t.find .follow path

/-- What a path leads to when a link at its end is kept. -/
def linkStatus (t : FileTree) (path : Path) : Except AccessError Found :=
  t.find .keep path

/-! ## Using what is found -/

def read (t : FileTree) (path : Path) : Except AccessError Bytes :=
  match t.status path with
  | .error e => .error e
  | .ok found =>
    match found.item with
    | .file permissions content =>
      if permissions.readable then .ok content else .error .permissionDenied
    | .directory permissions =>
      .error (if permissions.readable then .isADirectory else .permissionDenied)
    | .link _ => .error .tooManyLinks

/-- The directory that a path leads to: where it is, and its entries by name. -/
def list (t : FileTree) (path : Path) : Except AccessError (Place × List Entry) :=
  match t.status path with
  | .error e => .error e
  | .ok found =>
    match found.item with
    | .directory permissions =>
      if permissions.readable then .ok (found.place, t.entries found.place)
      else .error .permissionDenied
    | _ => .error .notADirectory

end FileTree

end LineTally
