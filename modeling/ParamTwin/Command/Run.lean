import ParamTwin.Command.Arguments
import ParamTwin.Corpus.Harvest
import ParamTwin.Corpus.Populate
import ParamTwin.Service
import ParamTwin.Settings.Yaml

/-!
# Running commands

What a command prints, with which status it ends and which files are there afterwards, as a function
of what surrounds it. A missing input ends with status 2 and any other failure with status 1. A run
that panics is cut short and has no status of its own.
-/

namespace ParamTwin

/-- The outcome of a run. -/
structure Outcome where
  /-- The status with which the run ends, none if it panics. -/
  status : Option Nat
  /-- What is printed. -/
  output : String
  /-- What is reported as a failure. -/
  report : String
  files : FileTree
deriving Repr, DecidableEq, Inhabited

/-! ## Colours -/

namespace Style

/-- The character that starts a control sequence. -/
def escape : String := String.singleton (Char.ofNat 27)

/-- A text between a control sequence and the one that undoes it. -/
def between (start stop text : String) : String :=
  escape ++ "[" ++ start ++ "m" ++ text ++ escape ++ "[" ++ stop ++ "m"

/-- A dim text. -/
def dim (text : String) : String :=
  between "2" "0" text

/-- A bold text. -/
def bold (text : String) : String :=
  between "1" "0" text

/-- A bright green text. -/
def green (text : String) : String :=
  between "92" "39" text

/-- A cyan text. -/
def cyan (text : String) : String :=
  between "36" "39" text

/-- A yellow text. -/
def yellow (text : String) : String :=
  between "33" "39" text

/-- A red text. -/
def red (text : String) : String :=
  between "31" "39" text

end Style

namespace Command

/-- The name of the program with its version. -/
def versionLine : String := "paramdup 0.3.0\n"

/-- How the program is used. -/
def usage : String :=
  "Usage: paramdup <COMMAND>\n\n" ++
    "Commands:\n" ++
    "  transform <INPUT> [OUTPUT] [-s <STRATEGY>] [-c <CONFIG>]\n" ++
    "  harvest <ROOT> [-o <OUT>] [--batch-size <SIZE>] [-c <CONFIG>]\n" ++
    "  populate <DIR> [-c <CONFIG>]\n" ++
    "  print-default-config\n"

/-- The status for a failure. -/
def statusOf : Error → Nat
  | .inputNotFound _ => 2
  | _ => 1

/-- The outcome of a run that prints a text. -/
def success (files : FileTree) (output : String) : Outcome :=
  { status := some 0, output, report := "", files }

/-- The outcome of a run that fails. -/
def failure (files : FileTree) (e : Error) : Outcome :=
  { status := some (statusOf e)
    output := ""
    report := Style.bold (Style.red "Error:") ++ " " ++ e.message ++ "\n"
    files }

/-- The outcome of a run that panics. -/
def cutShort (files : FileTree) : Outcome :=
  { status := none, output := "", report := "", files }

/-- The settings of a file, or the default ones. -/
def settings (files : FileTree) : Option String → Except Error Settings
  | some path => Settings.load files path
  | none => .ok {}

/-! ## Transforming -/

/-- The settings for transforming, with the strategy that was asked for. -/
def transformSettings (files : FileTree) (strategy : Option Strategy) (config : Option String) :
    Except Error Settings := do
  let s ← settings files config
  return match strategy with
    | some strategy => s.withStrategy strategy
    | none => s

/-- Transforms a file; settings and credentials are looked at before the input. -/
def runTransform (s : Surroundings) (input : String) (output : Option String)
    (strategy : Option Strategy) (config : Option String) : Outcome :=
  let output := output.getD input
  let ready := do
    let settings ← transformSettings s.files strategy config
    return (settings, ← Service.suggester s settings)
  match ready with
  | .error e => failure s.files e
  | .ok (settings, suggester) =>
    match Service.transformFile s.files s.grammar suggester settings input output with
    | (files, .error (.failed e)) => failure files e
    | (files, .error .panic) => cutShort files
    | (files, .ok t) => success files (t.summary output ++ "\n")

/-! ## Harvesting -/

/-- The settings for harvesting, with what was asked for. -/
def harvestSettings (files : FileTree) (out : Option String) (batchSize : Option Nat)
    (config : Option String) : Except Error HarvestSettings := do
  let s := (← settings files config).harvest
  return { s with outputDir := out.getD s.outputDir, batchSize := batchSize.getD s.batchSize }

/-- The lines shown after harvesting. -/
def harvestLines (settings : HarvestSettings) (s : HarvestSummary) : String :=
  Style.bold (Style.green "Extracted") ++ " " ++ Nat.repr s.records ++
    " parameter contexts to " ++ Nat.repr s.batchFiles.length ++ " batch file(s) in " ++
    Style.cyan settings.outputDir ++ "\n   " ++ Nat.repr s.filesProcessed ++ " of " ++
    Nat.repr s.filesDiscovered ++ " files processed, " ++ Nat.repr s.filesSkipped ++ " skipped\n"

/-- Harvests the source files below a directory. -/
def runHarvest (s : Surroundings) (root : String) (out : Option String) (batchSize : Option Nat)
    (config : Option String) : Outcome :=
  match harvestSettings s.files out batchSize config with
  | .error e => failure s.files e
  | .ok settings =>
    match Harvest.run s.files s.grammar settings root with
    | (files, .error e) => failure files e
    | (files, .ok summary) => success files (harvestLines settings summary)

/-! ## Populating -/

/-- A hosted index takes the records that it says it has taken. -/
def hostedSink (transport : Transport) (i : HostedIndex) : Sink Unit where
  upsert _ rs :=
    match i.upsertRequest? rs with
    | none => .ok ((), 0)
    | some request => do
      return ((), ← HostedIndex.upserted (← transport i.host i.apiKey request))

/-- The lines shown after populating. -/
def populateLines (s : PopulateSummary) : String :=
  Style.bold (Style.green "Upserted") ++ " " ++ Nat.repr s.recordsUpserted ++ " records from " ++
    Nat.repr s.filesRead ++ " batch file(s)\n" ++
    if s.filesSkipped = 0 then ""
    else
      "   " ++ Style.bold (Style.yellow "Warning:") ++ " " ++ Nat.repr s.filesSkipped ++
        " unreadable batch file(s) skipped\n"

/-- The settings, the index and the embedder for populating. -/
def populateSetup (s : Surroundings) (config : Option String) :
    Except Error (Settings × Index × Embedder) := do
  let settings ← settings s.files config
  settings.embedding.check
  settings.index.check
  settings.index.checkBackend
  let index ← Index.open s.files s.environment settings.index
  return (settings, index, ← s.load settings.embedding)

/-- Fills an index from a directory of batch files. -/
def fillIndex (s : Surroundings) (dir : String) (embedder : Embedder) (batchSize : Nat) :
    Index → FileTree × Except Error PopulateSummary
  | .file i =>
    let (files, r) := Populate.run s.files dir embedder i batchSize
    (files, r.map (·.summary))
  | .hosted i =>
    let r := Populate.fill (hostedSink s.transport i) s.files dir embedder () batchSize
    (s.files, r.map (·.summary))

/-- Fills the index from a directory of batch files. -/
def runPopulate (s : Surroundings) (dir : String) (config : Option String) : Outcome :=
  match populateSetup s config with
  | .error e => failure s.files e
  | .ok (settings, index, embedder) =>
    match fillIndex s dir embedder settings.embedding.batchSize index with
    | (files, .error e) => failure files e
    | (files, .ok summary) => success files (populateLines summary)

/-! ## All commands -/

/-- The default settings with a few words on how to use them. -/
def defaultConfigLines : String :=
  Style.dim "# Default paramdup configuration" ++ "\n" ++
    Style.dim "# Save this to a file and customize as needed" ++ "\n" ++
    Style.dim "# Usage: paramdup transform <INPUT> --config your-config.yml" ++ "\n\n" ++
    String.ofList (Settings.toYaml {}) ++ "\n"

/-- Runs a command. -/
def run (s : Surroundings) : Command → Outcome
  | .transform input output strategy config => runTransform s input output strategy config
  | .harvest root out batchSize config => runHarvest s root out batchSize config
  | .populate dir config => runPopulate s dir config
  | .printDefaultConfig => success s.files defaultConfigLines

/-- Runs a command line. -/
def runLine (s : Surroundings) (words : List String) : Outcome :=
  match parse words with
  | .ok command => run s command
  | .error .version => success s.files versionLine
  | .error .help => success s.files usage
  | .error .invalid => { status := some 1, output := "", report := usage, files := s.files }

/-- The settings file that a command names. -/
def configPath? : Command → Option String
  | .transform _ _ _ config | .harvest _ _ _ config | .populate _ config => config
  | .printDefaultConfig => none

/-- The environment variable that may be asked for by a command line. -/
def keyVariable (files : FileTree) (words : List String) : String :=
  match (parse words).toOption.bind configPath? with
  | some path =>
    match Settings.load files path with
    | .ok s => s.index.apiKeyVariable
    | .error _ => ({} : IndexSettings).apiKeyVariable
  | none => ({} : IndexSettings).apiKeyVariable

end Command
end ParamTwin
