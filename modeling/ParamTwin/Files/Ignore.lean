import ParamTwin.Files.Glob
import ParamTwin.Files.Tree
import ParamTwin.Text.Blank

/-!
# Ignore files

Files that list what a walk passes over. Each line is a pattern for the paths below its directory;
the last line that fits decides, and one that starts with `!` keeps what it fits. A file in a nearer
directory decides before one further up.
-/

namespace ParamTwin

/-- A line of an ignore file. -/
structure IgnoreRule where
  glob : Glob
  /-- What fits is kept and not ignored. -/
  keeps : Bool
  /-- Only directories fit. -/
  onlyDirs : Bool

namespace IgnoreRule

/-- In ignore files, stars and question marks do not cross slashes. -/
def style : GlobStyle :=
  { crossesSlash := false, literalBracket := true }

/-- Whether a text ends in a given one. -/
def endsIn (t stop : Text) : Bool :=
  stop.reverse.isPrefixOf t.reverse

/-- The pattern of a line, which fits at any depth unless it is anchored or has a slash. -/
def pattern (anchored : Bool) (t : Text) : Text :=
  let deep := !anchored && !t.contains '/' && t != "**".toList
  let t := if deep then "**/".toList ++ t else t
  if endsIn t "/**".toList then t ++ "/*".toList else t

/-- The rule of a line after its marks for keeping and anchoring. -/
def ofBody? (keeps anchored : Bool) (t : Text) : Option IgnoreRule :=
  let onlyDirs := t.getLast? == some '/'
  let t := if onlyDirs then List.dropLast t else t
  let t := if onlyDirs && t.getLast? == some '\\' then List.dropLast t else t
  match Glob.parse style (pattern anchored t) with
  | .ok glob => some { glob, keeps, onlyDirs }
  | .error _ => none

/-- The rule after the mark for keeping. -/
def ofUnmarked? (keeps : Bool) : Text → Option IgnoreRule
  | '/' :: rest => ofBody? keeps true rest
  | t => ofBody? keeps false t

/-- The rule of a line; none for a comment, a blank line or no pattern. -/
def ofLine? (line : Text) : Option IgnoreRule :=
  let trimmed := if endsIn line ['\\', ' '] then line else Text.trimEnd line
  match line with
  | '#' :: _ => none
  | _ =>
    match trimmed with
    | [] => none
    | '\\' :: '!' :: rest => ofBody? false false ('!' :: rest)
    | '\\' :: '#' :: rest => ofBody? false false ('#' :: rest)
    | '!' :: rest => ofUnmarked? true rest
    | t => ofUnmarked? false t

/-- Whether a path below the directory of the rule fits. -/
def fits (r : IgnoreRule) (path : String) (isDir : Bool) : Bool :=
  (isDir || !r.onlyDirs) && r.glob.fits path

end IgnoreRule

namespace Ignore

/-- A line without a carriage return at its end. -/
def bareLine (line : Text) : Text :=
  if line.getLast? == some '\r' then List.dropLast line else line

/-- The rules of the text of an ignore file. -/
def rules (t : Text) : List IgnoreRule :=
  (Text.lines (Text.withoutMark t)).filterMap fun line => IgnoreRule.ofLine? (bareLine line)

/-- What rules decide about a path: to ignore it, to keep it, or nothing. -/
def decide? (rs : List IgnoreRule) (path : String) (isDir : Bool) : Option Bool :=
  (rs.reverse.find? fun r => r.fits path isDir).map fun r => !r.keeps

/-- The rules of the file at a location; none if no file is there. -/
def rulesAt (files : FileTree) (l : Location) : List IgnoreRule :=
  match files.entry? l with
  | some (.file bytes) => rules (Text.decode bytes)
  | _ => []

/-- What the file of the given name in a directory decides about a location below it. -/
def decideIn (files : FileTree) (name : Location) (dir : Location) (l : Location) (isDir : Bool) :
    Option Bool :=
  decide? (rulesAt files (dir ++ name)) (FileTree.pathOf (l.drop dir.length)) isDir

/-- The directories that a location lies in, the nearest first. -/
def directoriesOf (l : Location) : List Location :=
  ((List.range l.length).map fun n => l.take n).reverse

/-- Whether a directory is the root of a repository. -/
def isRepository (files : FileTree) (dir : Location) : Bool :=
  (files.entry? (dir ++ [".git"])).isSome

/-- The directories up to the first repository; none of them if there is no repository. -/
def withinRepository (files : FileTree) (dirs : List Location) : List Location :=
  if dirs.any (isRepository files) then
    dirs.takeWhile (fun d => !isRepository files d) ++
      (dirs.dropWhile fun d => !isRepository files d).take 1
  else []

/-- Whether a location is ignored by the files of the directories it lies in. -/
def isIgnored (files : FileTree) (l : Location) (isDir : Bool) : Bool :=
  let dirs := directoriesOf l
  let inside := withinRepository files dirs
  let first (name : Location) (dirs : List Location) : Option Bool :=
    dirs.findSome? fun d => decideIn files name d l isDir
  let decision := (first [".ignore"] dirs).or
    ((first [".gitignore"] inside).or (first [".git", "info", "exclude"] inside))
  decision.getD false

end Ignore
end ParamTwin
