import ParamTwin.Error
import ParamTwin.Files.Path
import ParamTwin.Text.Utf8

/-!
# Trees of files

The files and directories of a file system as a value, seen from a current directory. An entry is
found by its location, the list of names that leads to it from the root. A path is resolved step by
step, from the root if it is absolute and from the current directory if it is not, and each step
needs a directory to stand in.
-/

namespace ParamTwin

/-- What stands at a location. -/
inductive Entry where
  | dir
  | file (bytes : List UInt8)
  /-- A file that may be neither read nor written. -/
  | locked
deriving Repr, DecidableEq, Inhabited

/-- Whether a file can be written where this stands, or nothing. -/
def Entry.givesWay : Option Entry → Bool
  | none | some (.file _) => true
  | some .dir | some .locked => false

/-- The names that lead to an entry from the root. -/
abbrev Location := List String

/-- The entries of a file system and the directory in which relative paths start. -/
structure FileTree where
  current : Location := []
  entries : List (Location × Entry)
deriving Repr, DecidableEq, Inhabited

/-- Why a path leads nowhere. -/
inductive Trouble where
  /-- A step is missing. -/
  | notFound
  /-- A step stands in something that is no directory. -/
  | notDirectory
deriving Repr, DecidableEq, Inhabited

namespace FileTree

/-- The tree without entries. -/
def empty : FileTree :=
  { entries := [] }

/-- Whether a location is the current directory or one above it, up to the root. -/
def isAbove (t : FileTree) (l : Location) : Bool :=
  l.isPrefixOf t.current

/-- The entry at a location; the current directory and those above it are always there. -/
def entry? (t : FileTree) (l : Location) : Option Entry :=
  if t.isAbove l then some .dir else t.entries.lookup l

/-- The tree with another entry at a location. -/
def set (t : FileTree) (l : Location) (e : Entry) : FileTree :=
  { t with entries := t.entries.filter (fun x => x.1 != l) ++ [(l, e)] }

/-- Whether steps can be made from a location. -/
def standing (t : FileTree) (l : Location) : Except Trouble Unit :=
  match t.entry? l with
  | some .dir => .ok ()
  | some _ => .error .notDirectory
  | none => .error .notFound

/-- The location that one step leads to. The root is its own parent. -/
def next (l : Location) : Component → Location
  | .root => []
  | .current => l
  | .parent => l.dropLast
  | .name s => l ++ [s]

/-- The location that steps lead to from another one. -/
def resolveFrom (t : FileTree) : Location → List Component → Except Trouble Location
  | l, [] => .ok l
  | l, c :: cs => do
    t.standing l
    t.resolveFrom (next l c) cs

/-- The location that the steps of a path lead to. -/
def resolveSteps (t : FileTree) (steps : List Component) : Except Trouble Location :=
  t.resolveFrom t.current steps

/-- The location of a path, where something may stand or not. -/
def resolve (t : FileTree) (path : String) : Except Trouble Location :=
  if path == "" then .error .notFound else t.resolveSteps (Path.components path)

/-- The entry at a path with its location. A path that must be a directory fits no file. -/
def find (t : FileTree) (path : String) : Except Trouble (Location × Entry) := do
  let l ← t.resolve path
  match t.entry? l with
  | none => .error .notFound
  | some .dir => .ok (l, .dir)
  | some e => if Path.endsInDirectory path then .error .notDirectory else .ok (l, e)

/-- Whether a path leads to something. -/
def «exists» (t : FileTree) (path : String) : Bool :=
  match t.find path with
  | .ok _ => true
  | .error _ => false

/-- The locations at which something stands. -/
def locations (t : FileTree) : List Location :=
  (List.range (t.current.length + 1)).map t.current.take ++ t.entries.map (·.1)

/-- The names in a directory. -/
def names (t : FileTree) (l : Location) : List String :=
  (t.locations.filterMap fun m =>
    if m.length = l.length + 1 && m.take l.length == l then m.getLast? else none).eraseDups

/-! ## Reading -/

/-- The bytes of a file, or the failure under the given message. -/
def readBytes (t : FileTree) (path : String) (message : String) : Except Error (List UInt8) :=
  match t.find path with
  | .ok (_, .file bytes) => .ok bytes
  | .error .notFound => .error (.inputNotFound path)
  | _ => .error (.io message)

/-- The text of a file, without a mark of byte order and with invalid bytes replaced. -/
def readText (t : FileTree) (path : String) : Except Error Text :=
  (t.readBytes path ("Failed to read file: " ++ path)).map fun bytes =>
    Text.withoutMark (Text.decode bytes)

/-! ## Writing -/

/-- The result of making one directory. -/
inductive Made where
  | done (t : FileTree)
  | missing
  | refused

/-- Makes the directory at some steps if its own directory is there. -/
def makeDir (t : FileTree) (steps : List Component) : Made :=
  match t.resolveSteps steps with
  | .error .notFound => .missing
  | .error .notDirectory => .refused
  | .ok l =>
    match t.entry? l with
    | some _ => .refused
    | none =>
      match t.standing l.dropLast with
      | .ok () => .done (t.set l .dir)
      | .error .notFound => .missing
      | .error .notDirectory => .refused

/-- Whether steps lead to a directory. -/
def isDirAt (t : FileTree) (steps : List Component) : Bool :=
  match t.resolveSteps steps with
  | .ok l => t.entry? l == some .dir
  | .error _ => false

/-- Makes a directory and those that hold it; the steps are given from the last one. -/
def makeDirsBack (t : FileTree) : List Component → Option FileTree
  | [] => some t
  | c :: before =>
    match t.makeDir (c :: before).reverse with
    | .done t => some t
    | .refused => if t.isDirAt (c :: before).reverse then some t else none
    | .missing =>
      match t.makeDirsBack before with
      | none => none
      | some t =>
        match t.makeDir (c :: before).reverse with
        | .done t => some t
        | _ => if t.isDirAt (c :: before).reverse then some t else none

/-- Makes a directory and those that hold it. -/
def makeDirs (t : FileTree) (path : String) : Option FileTree :=
  t.makeDirsBack (Path.components path).reverse

/-- The tree with a file written at a path whose directory is there. -/
def writeBytes? (t : FileTree) (path : String) (bytes : List UInt8) : Option FileTree :=
  if Path.endsInDirectory path then none
  else
    match t.resolve path with
    | .error _ => none
    | .ok l =>
      match t.standing l.dropLast with
      | .error _ => none
      | .ok () => if Entry.givesWay (t.entry? l) then some (t.set l (.file bytes)) else none

/-- Writes a text to a file after making the directories that hold it. A tree comes back in any
case: directories made before a failure stay. -/
def writeText (t : FileTree) (path : String) (text : Text) : FileTree × Except Error Unit :=
  let parent := (Path.parent? path).getD ""
  match t.makeDirs parent with
  | none => (t, .error (.io ("Failed to create " ++ parent)))
  | some t =>
    match t.writeBytes? path (Text.encode text) with
    | none => (t, .error (.io ("Failed to write file: " ++ path)))
    | some t => (t, .ok ())

/-! ## Listing -/

/-- Names as a path that leads along them. -/
def pathOf (names : List String) : String :=
  String.intercalate "/" names

/-- The locations of the files. -/
def files (t : FileTree) : List Location :=
  (t.entries.filter fun (_, e) => e != .dir).map (·.1)

/-- The names that lead from a directory to a location in it. -/
def below? (dir l : Location) : Option (List String) :=
  if dir.isPrefixOf l then some (l.drop dir.length) else none

end FileTree
end ParamTwin
