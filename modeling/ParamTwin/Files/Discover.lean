import ParamTwin.Files.Ignore
import ParamTwin.Language

/-!
# Finding source files

The files below a directory that have one of some extensions, are not ignored and fit none of the
patterns to exclude, ordered by their paths.
-/

namespace ParamTwin.Discover

/-- The path of a location below the directory at a path. -/
def pathBelow (root : String) (names : List String) : String :=
  names.foldl Path.join root

/-- Whether a walk from a directory reaches a location below it: neither it nor a directory on the
way is ignored. -/
def isReached (files : FileTree) (root : Location) (names : List String) : Bool :=
  (List.range names.length).all fun n =>
    !Ignore.isIgnored files (root ++ names.take (n + 1)) (n + 1 < names.length)

/-- The paths of the files that a walk from a path reaches, with their paths from there. A walk from
a file reaches that file. -/
def walk (files : FileTree) (path : String) : List (String × String) :=
  match files.find path with
  | .ok (root, .dir) =>
    files.files.filterMap fun l => do
      let names ← FileTree.below? root l
      if isReached files root names then
        some (FileTree.pathOf names, pathBelow path names)
      else none
  | .ok _ => [("", path)]
  | .error _ => []

/-- The source files below a path. -/
def sources (files : FileTree) (root : String) (extensions : List String) (exclude : List String) :
    Except Error (List String) :=
  if files.exists root then do
    let globs ← Glob.readAll exclude
    let found := (walk files root).filter fun (relative, path) =>
      Language.hasExtension extensions path &&
        !globs.any fun g => g.fits relative || g.fits path
    return (found.map (·.2)).mergeSort Path.le
  else .error (.inputNotFound root)

end ParamTwin.Discover
