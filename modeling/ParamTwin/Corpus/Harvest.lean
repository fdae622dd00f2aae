import ParamTwin.Corpus.Batch
import ParamTwin.Duplicate.Transform
import ParamTwin.Files.Discover

/-!
# Harvesting records

The records of all source files below a directory, written to batch files. A file that is blank or
cannot be read is skipped.
-/

namespace ParamTwin

/-- What a run did. -/
structure HarvestSummary where
  filesDiscovered : Nat
  filesProcessed : Nat
  filesSkipped : Nat
  records : Nat
  /-- The paths of the batch files, in order. -/
  batchFiles : List String
deriving Repr, DecidableEq, Inhabited

namespace HarvestSummary

/-- A summary as JSON. -/
def toJson (s : HarvestSummary) : Json :=
  .obj [("files_discovered", .nat s.filesDiscovered), ("files_processed", .nat s.filesProcessed),
    ("files_skipped", .nat s.filesSkipped), ("records", .nat s.records),
    ("batch_files", .arr (s.batchFiles.map .str))]

end HarvestSummary

namespace Harvest

/-- The records of a file; none if it is skipped. -/
def file? (files : FileTree) (grammar : Grammar) (minNameLength : Nat) (path : String) :
    Option (List CorpusRecord) :=
  match files.readText path with
  | .error _ => none
  | .ok t =>
    if t.all Text.isBlank then none
    else some (CorpusRecord.extract t (grammar.tree t) minNameLength)

/-- Writes batches to the files of a directory, numbered from `n`, and gives their paths. -/
def write (dir : String) : Nat → List (List CorpusRecord) → FileTree →
    FileTree × Except Error (List String)
  | _, [], files => (files, .ok [])
  | n, batch :: rest, files =>
    let path := Path.join dir (Batch.fileName n)
    match files.writeText path (Batch.text batch) with
    | (files, .error e) => (files, .error e)
    | (files, .ok ()) =>
      match write dir (n + 1) rest files with
      | (files, .error e) => (files, .error e)
      | (files, .ok paths) => (files, .ok (path :: paths))

/-- The extensions of the files that are looked at. -/
def extensions : List String :=
  Language.all.flatMap (·.extensions)

/-- Harvests the given source files. -/
def fromSources (files : FileTree) (grammar : Grammar) (settings : HarvestSettings)
    (sources : List String) : FileTree × Except Error HarvestSummary :=
  let outcomes := sources.map (file? files grammar settings.minNameLength)
  let processed := outcomes.filterMap id
  let records := processed.flatten
  match write settings.outputDir 0 (Batch.split settings.batchSize records) files with
  | (files, .error e) => (files, .error e)
  | (files, .ok paths) =>
    (files, .ok {
      filesDiscovered := sources.length
      filesProcessed := processed.length
      filesSkipped := sources.length - processed.length
      records := records.length
      batchFiles := paths })

/-- Harvests the source files below a path. -/
def run (files : FileTree) (grammar : Grammar) (settings : HarvestSettings) (root : String) :
    FileTree × Except Error HarvestSummary :=
  let sources := do
    settings.check
    Discover.sources files root extensions settings.excludePatterns
  match sources with
  | .error e => (files, .error e)
  | .ok sources => fromSources files grammar settings sources

end Harvest
end ParamTwin
