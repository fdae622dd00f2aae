import ParamTwin.Settings.Basic
import ParamTwin.Json.Fields

/-!
# Settings as documents

Settings are read from any format of documents that can tell records, texts, counts, truth values
and lists (`Format`), and what is unknown is passed over. A section that is missing takes the
default of the section. A field that is missing in a section takes a value of its own, which the
`unset` of the section states. Settings are written as a JSON value, from which each format writes
its text.
-/

namespace ParamTwin

/-- How values are read from documents of type `D`. -/
structure Format (D : Type) where
  /-- The fields of a record, given their names in order. -/
  fields : List String → D → Option (String → Option D)
  text : D → Option String
  count : D → Option Nat
  flag : D → Option Bool
  items : D → Option (List D)
  /-- The name of one of several alternatives. -/
  choice : D → Option String
  /-- Whether an optional value is absent. -/
  isNull : D → Bool

namespace Format

variable {D α : Type}

/-- The value of a field, or its default if the field is missing. -/
def fieldOr (read : D → Option α) (default : α) : Option D → Option α
  | none => some default
  | some d => read d

/-- A value that may be null. -/
def optional (f : Format D) (read : D → Option α) (d : D) : Option (Option α) :=
  if f.isNull d then some none else (read d).map some

/-- A list of values. -/
def list (f : Format D) (read : D → Option α) (d : D) : Option (List α) := do
  (← f.items d).mapM read

/-- One of the alternatives that have a name. -/
def alternative (f : Format D) (ofName? : String → Option α) (d : D) : Option α := do
  ofName? (← f.choice d)

end Format

/-! ## Missing fields -/

/-- The values of the fields that a section on naming leaves out. -/
def NamingSettings.unset : NamingSettings where
  strategy := default
  candidateCount := NamingSettings.defaultCandidateCount

/-- The values of the fields that a section on embedding leaves out. -/
def EmbeddingSettings.unset : EmbeddingSettings where
  model := default
  cacheDir := default
  showDownloadProgress := default
  batchSize := EmbeddingSettings.defaultBatchSize

/-- The values of the fields that a section on the index leaves out. -/
def IndexSettings.unset : IndexSettings where
  backend := default
  host := default
  namespaceName := IndexSettings.defaultNamespace
  apiKeyVariable := IndexSettings.defaultApiKeyVariable
  localPath := default
  timeoutSeconds := IndexSettings.defaultTimeout

/-- The values of the fields that a section on harvesting leaves out. -/
def HarvestSettings.unset : HarvestSettings where
  batchSize := HarvestSettings.defaultBatchSize
  outputDir := HarvestSettings.defaultOutputDir
  excludePatterns := HarvestSettings.defaultExcludePatterns
  minNameLength := HarvestSettings.defaultMinNameLength

/-- The values of the fields that a section on procedures leaves out. -/
def ProcedureSettings.unset : ProcedureSettings where
  includeLocalFunctions := ProcedureSettings.defaultIncludeLocalFunctions

/-! ## Reading -/

namespace Settings

variable {D : Type} (f : Format D)

open Format

/-- The section on naming. -/
def readNaming (d : D) : Option NamingSettings := do
  let get ← f.fields ["strategy", "candidate_count"] d
  let unset := NamingSettings.unset
  return {
    strategy := ← fieldOr (f.alternative Strategy.ofName?) unset.strategy (get "strategy")
    candidateCount := ← fieldOr f.count unset.candidateCount (get "candidate_count") }

/-- The section on embedding. -/
def readEmbedding (d : D) : Option EmbeddingSettings := do
  let get ← f.fields ["model", "cache_dir", "show_download_progress", "batch_size"] d
  let unset := EmbeddingSettings.unset
  return {
    model := ← fieldOr (f.alternative EmbeddingModel.ofName?) unset.model (get "model")
    cacheDir := ← fieldOr (f.optional f.text) unset.cacheDir (get "cache_dir")
    showDownloadProgress :=
      ← fieldOr f.flag unset.showDownloadProgress (get "show_download_progress")
    batchSize := ← fieldOr f.count unset.batchSize (get "batch_size") }

/-- The section on the index. -/
def readIndex (d : D) : Option IndexSettings := do
  let get ← f.fields
    ["backend", "host", "namespace", "api_key_env", "local_path", "timeout_secs"] d
  let unset := IndexSettings.unset
  return {
    backend := ← fieldOr (f.alternative Backend.ofName?) unset.backend (get "backend")
    host := ← fieldOr (f.optional f.text) unset.host (get "host")
    namespaceName := ← fieldOr f.text unset.namespaceName (get "namespace")
    apiKeyVariable := ← fieldOr f.text unset.apiKeyVariable (get "api_key_env")
    localPath := ← fieldOr (f.optional f.text) unset.localPath (get "local_path")
    timeoutSeconds := ← fieldOr f.count unset.timeoutSeconds (get "timeout_secs") }

/-- The section on harvesting. -/
def readHarvest (d : D) : Option HarvestSettings := do
  let get ← f.fields ["batch_size", "output_dir", "exclude_patterns", "min_name_length"] d
  let unset := HarvestSettings.unset
  return {
    batchSize := ← fieldOr f.count unset.batchSize (get "batch_size")
    outputDir := ← fieldOr f.text unset.outputDir (get "output_dir")
    excludePatterns := ← fieldOr (f.list f.text) unset.excludePatterns (get "exclude_patterns")
    minNameLength := ← fieldOr f.count unset.minNameLength (get "min_name_length") }

/-- The section on procedures. -/
def readProcedures (d : D) : Option ProcedureSettings := do
  let get ← f.fields ["include_local_functions"] d
  let unset := ProcedureSettings.unset
  return {
    includeLocalFunctions :=
      ← fieldOr f.flag unset.includeLocalFunctions (get "include_local_functions") }

/-- All settings of a document. -/
def read (d : D) : Option Settings := do
  let get ← f.fields ["naming", "embedding", "index", "harvest", "rewrite"] d
  return {
    naming := ← fieldOr (readNaming f) {} (get "naming")
    embedding := ← fieldOr (readEmbedding f) {} (get "embedding")
    index := ← fieldOr (readIndex f) {} (get "index")
    harvest := ← fieldOr (readHarvest f) {} (get "harvest")
    procedures := ← fieldOr (readProcedures f) {} (get "rewrite") }

end Settings

/-! ## JSON -/

/-- The reading of JSON documents. -/
def Json.format : Format Json where
  fields := Json.fields
  text := Json.text?
  count := Json.count?
  flag := Json.flag?
  items := Json.items?
  choice := Json.choice?
  isNull := Json.isNull

namespace Settings

/-- The settings of a JSON document. -/
def ofJson (j : Json) : Except Error Settings :=
  match read Json.format j with
  | some s => .ok s
  | none => .error .badJson

/-- All settings as a JSON value. -/
def toJson (s : Settings) : Json :=
  .obj [
    ("naming", .obj [
      ("strategy", .str s.naming.strategy.name),
      ("candidate_count", .nat s.naming.candidateCount)]),
    ("embedding", .obj [
      ("model", .str s.embedding.model.name),
      ("cache_dir", .optStr s.embedding.cacheDir),
      ("show_download_progress", .bool s.embedding.showDownloadProgress),
      ("batch_size", .nat s.embedding.batchSize)]),
    ("index", .obj [
      ("backend", .str s.index.backend.name),
      ("host", .optStr s.index.host),
      ("namespace", .str s.index.namespaceName),
      ("api_key_env", .str s.index.apiKeyVariable),
      ("local_path", .optStr s.index.localPath),
      ("timeout_secs", .nat s.index.timeoutSeconds)]),
    ("harvest", .obj [
      ("batch_size", .nat s.harvest.batchSize),
      ("output_dir", .str s.harvest.outputDir),
      ("exclude_patterns", .arr (s.harvest.excludePatterns.map .str)),
      ("min_name_length", .nat s.harvest.minNameLength)]),
    ("rewrite", .obj [
      ("include_local_functions", .bool s.procedures.includeLocalFunctions)])]

end Settings
end ParamTwin
