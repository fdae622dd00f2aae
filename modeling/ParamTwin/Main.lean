import ParamTwin.Command.Run
import ParamTwin.Syntax.Listing

/-!
# The program

Reads the files below the current directory and those that the command line and its settings name
elsewhere, runs the command line on them and writes the files that have changed. The syntax tree of
a source is read from the file beside it whose name has `.tree.json` added: an object with the
listing of the tree and the spans of the literals of the transformed text.
-/

namespace ParamTwin.Program

/-- The deepest directory that is looked at. -/
def depthLimit : Nat := 64

/-- The absolute path of a location. -/
def pathAt (l : Location) : String :=
  "/" ++ FileTree.pathOf l

/-- What stands in a directory under a name. -/
def entryAt (dir : Location) (name : String) : IO.FS.DirEntry :=
  { root := pathAt dir, fileName := name }

/-- A file, locked if it cannot be read. -/
def readEntry (entry : IO.FS.DirEntry) : IO Entry := do
  try
    let bytes ← IO.FS.readBinFile entry.path
    return .file bytes.data.toList
  catch _ => return .locked

/-- The given entries of the directory at a location, with all that is below them. -/
def readEntries : Nat → Location → List IO.FS.DirEntry → IO (List (Location × Entry))
  | 0, _, _ => pure []
  | depth + 1, location, entries => do
    let found ← entries.mapM fun entry => do
      let here := location ++ [entry.fileName]
      if ← entry.path.isDir then
        let below ← readEntries depth here (← entry.path.readDir).toList
        return (here, Entry.dir) :: below
      else return [(here, ← readEntry entry)]
    return found.flatten

/-- What stands on the way from a location along some names, and below the last of them. -/
def readAlong (current : Location) : Location → List String → IO (List (Location × Entry))
  | _, [] => pure []
  | dir, name :: names => do
    let here := dir ++ [name]
    let entry := entryAt dir name
    if !(← entry.path.pathExists) then return []
    else if !names.isEmpty && (here.isPrefixOf current || (← entry.path.isDir)) then
      return (here, .dir) :: (← readAlong current here names)
    else readEntries depthLimit dir [entry]

/-- The location that a path names, whatever stands on the way. -/
def namedLocation (current : Location) (path : String) : Location :=
  (Path.components path).foldl FileTree.next current

/-- The tree with what stands at some paths outside of the current directory. -/
def withPaths (files : FileTree) (paths : List String) : IO FileTree := do
  let outside := (paths.map (namedLocation files.current)).filter fun l =>
    !files.current.isPrefixOf l
  let found ← outside.mapM (readAlong files.current [])
  return found.flatten.foldl (fun files (l, e) => if (files.entry? l).isSome then files
    else files.set l e) files

/-- The paths that a command names. -/
def commandPaths : Command → List String
  | .transform input output _ config => input :: output.toList ++ config.toList
  | .harvest root out _ config => root :: out.toList ++ config.toList
  | .populate dir config => dir :: config.toList
  | .printDefaultConfig => []

/-- The paths that the settings of a command name. -/
def settingsPaths (files : FileTree) (command : Command) : List String :=
  match (Command.configPath? command).bind fun path => (Settings.load files path).toOption with
  | some s => s.harvest.outputDir :: s.index.localPath.toList
  | none => []

/-- The files that a command line is run on. -/
def readFiles (words : List String) : IO FileTree := do
  let dir ← IO.currentDir
  let current := namedLocation [] dir.toString
  let below ← readEntries depthLimit current (← dir.readDir).toList
  let files : FileTree := { current, entries := below }
  match Command.parse words with
  | .error _ => return files
  | .ok command =>
    let files ← withPaths files (commandPaths command)
    withPaths files (settingsPaths files command)

/-- The ending of the name of a file that holds a syntax tree. -/
def treeEnding : String := ".tree.json"

/-- The texts of the sources that have a syntax tree, each with its tree and literals. -/
def parsed (files : FileTree) : List (Text × Node × List Span) :=
  files.files.filterMap fun l => do
    let source ← (files.readText (pathAt l)).toOption
    let listing ← (files.readText (pathAt l ++ treeEnding)).toOption
    let json ← Json.read? listing
    let tree ← Node.ofJson? (← json.get? "tree")
    let literals := ((json.get? "literals").bind Json.items?).getD []
    return (source, tree, literals.filterMap Span.ofJson?)

/-- The parser that knows the trees that are given beside the sources. -/
def grammar (files : FileTree) : Grammar :=
  let known := parsed files
  { tree := fun t => ((known.lookup t).map (·.1)).getD
      (Node.ofLiterals (known.flatMap fun (_, _, literals) => literals)) }

/-- What surrounds a run: there is no embedding model and no connection. -/
def surroundings (files : FileTree) (environment : String → Option String) : Surroundings where
  files := files
  environment := environment
  grammar := grammar files
  load _ := .error (.naming "embedder" "model not loaded")
  transport host _ r := .error (.naming HostedIndex.backend
    ("Request to " ++ host ++ "/" ++ r.path ++ " failed: no connection"))

/-- Writes the files and directories that a run has made or changed. -/
def writeChanges (before after : FileTree) : IO Unit := do
  for (l, e) in after.entries do
    if before.entry? l != some e then
      match e with
      | .dir => IO.FS.createDirAll (pathAt l)
      | .file bytes => IO.FS.writeBinFile (pathAt l) ⟨bytes.toArray⟩
      | .locked => pure ()

/-- The status that is shown for a run that panics. -/
def panicStatus : Nat := 134

end ParamTwin.Program

open ParamTwin in
/-- Runs the command line. -/
def main (words : List String) : IO UInt32 := do
  let files ← Program.readFiles words
  let asked := Command.keyVariable files words
  let key ← IO.getEnv asked
  let environment := fun name => if name == asked then key else none
  let outcome := Command.runLine (Program.surroundings files environment) words
  Program.writeChanges files outcome.files
  (← IO.getStdout).putStr outcome.output
  (← IO.getStderr).putStr outcome.report
  return UInt32.ofNat (outcome.status.getD Program.panicStatus)
