import ParamTwin.Text.Basic

/-!
# Paths

A path is the text of its parts with slashes between them. Its components leave out empty parts and
single dots, except a dot at its start.
-/

namespace ParamTwin

/-- One step of a path. -/
inductive Component where
  | root
  | current
  | parent
  | name (s : String)
deriving Repr, DecidableEq, Inhabited

namespace Component

/-- The rank of a component among the kinds. -/
def rank : Component → Nat
  | .root => 0
  | .current => 1
  | .parent => 2
  | .name _ => 3

/-- The order of components: by kind, names by their characters. -/
def le (a b : Component) : Bool :=
  match a, b with
  | .name s, .name t => decide (s ≤ t)
  | a, b => a.rank ≤ b.rank

end Component

namespace Path

/-- The parts of a path between its slashes. -/
def splitParts : Text → List Text
  | [] => [[]]
  | c :: cs =>
    if c = '/' then [] :: splitParts cs
    else
      match splitParts cs with
      | [] => [[c]]
      | part :: rest => (c :: part) :: rest

/-- The parts of a path between its slashes. -/
def parts (path : String) : List String :=
  (splitParts path.toList).map String.ofList

/-- Whether a part is no step: an empty one or a dot. -/
def isIdle (part : String) : Bool :=
  part == "" || part == "."

/-- The step of a part that is not idle. -/
def stepOf (part : String) : Component :=
  if part == ".." then .parent else .name part

/-- The components of a path. -/
def components (path : String) : List Component :=
  match parts path with
  | [] => []
  | first :: rest =>
    let steps := (rest.filter fun p => !isIdle p).map stepOf
    if first == "" then (if rest.isEmpty then [] else .root :: steps)
    else if first == "." then .current :: steps
    else stepOf first :: steps

/-- The lexicographic order of component lists. -/
def leComponents : List Component → List Component → Bool
  | [], _ => true
  | _ :: _, [] => false
  | a :: as, b :: bs => if a = b then leComponents as bs else a.le b

/-- The order of paths by their components. -/
def le (a b : String) : Bool :=
  leComponents (components a) (components b)

/-- The last component if it is a name. -/
def fileName? (path : String) : Option String :=
  match (components path).getLast? with
  | some (.name s) => some s
  | _ => none

/-- What follows the last dot of a file name; none for a name whose only dot is its first
character. -/
def extension? (path : String) : Option String := do
  let name ← fileName? path
  let (ext, before) := name.toList.reverse.span (· ≠ '.')
  match before with
  | _ :: _ :: _ => some (String.ofList ext.reverse)
  | _ => none

/-- The parts without idle ones at the end, the first part excepted. -/
def trimIdle : List String → List String
  | [] => []
  | first :: rest => first :: (rest.reverse.dropWhile isIdle).reverse

/-- The parts of the path of the directory that holds a path, as written. -/
def parentParts? (ps : List String) : Option (List String) :=
  match trimIdle ps with
  | [] => none
  | [first] => if first == "" then none else some []
  | first :: rest => some (trimIdle (first :: rest.dropLast))

/-- The path of the directory that holds a path, as written; none for the root and the empty path.
-/
def parent? (path : String) : Option String :=
  (parentParts? (parts path)).map fun ps =>
    if ps == [""] then "/" else String.intercalate "/" ps

/-- The path of a name inside a directory. -/
def join (dir name : String) : String :=
  if dir == "" then name
  else if dir.toList.getLast? == some '/' then dir ++ name
  else dir ++ "/" ++ name

/-- Whether a path can only be that of a directory because of its last part. -/
def endsInDirectory (path : String) : Bool :=
  match (parts path).getLast? with
  | some last => path != "" && (isIdle last || last == "..")
  | none => false

end Path
end ParamTwin
