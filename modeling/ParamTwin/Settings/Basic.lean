import ParamTwin.Error
import ParamTwin.Text.Blank

/-!
# Settings

The settings of the program with their defaults, and the checks that they must pass before a run.
The defaults of a section are the values that its structure gives to its fields.
-/

namespace ParamTwin

/-- How the copy of a parameter is named. -/
inductive Strategy where
  /-- By suffixes. -/
  | deterministic
  /-- By the names of similar parameters in an index. -/
  | similarity
deriving Repr, DecidableEq

instance : Inhabited Strategy := ⟨.similarity⟩

namespace Strategy

/-- The name of a strategy in settings and messages. -/
def name : Strategy → String
  | .deterministic => "deterministic"
  | .similarity => "similarity-based"

/-- The strategy of the given name. -/
def ofName? (s : String) : Option Strategy :=
  [deterministic, similarity].find? (·.name == s)

/-- The strategy that a user asks for, in any letter case and with blanks around it. -/
def read (s : String) : Except Error Strategy :=
  let asked := String.ofList (Text.lower (Text.trim s.toList))
  if asked == "deterministic" then .ok .deterministic
  else if asked == "similarity-based" || asked == "similarity" then .ok .similarity
  else
    .error (.validation
      ("Unknown naming strategy '" ++ asked ++ "', expected 'deterministic' or 'similarity-based'")
      (some "naming.strategy"))

end Strategy

/-- The embedding models. -/
inductive EmbeddingModel where
  | miniLM
  | miniLMQuantized
  | bgeSmall
  | nomicText
  | jinaCode
deriving Repr, DecidableEq

instance : Inhabited EmbeddingModel := ⟨.miniLM⟩

namespace EmbeddingModel

/-- All models. -/
def all : List EmbeddingModel :=
  [miniLM, miniLMQuantized, bgeSmall, nomicText, jinaCode]

/-- The name of a model in settings. -/
def name : EmbeddingModel → String
  | .miniLM => "AllMiniLML6V2"
  | .miniLMQuantized => "AllMiniLML6V2Q"
  | .bgeSmall => "BGESmallENV15"
  | .nomicText => "NomicEmbedTextV15"
  | .jinaCode => "JinaEmbeddingsV2BaseCode"

/-- The model of the given name. -/
def ofName? (s : String) : Option EmbeddingModel :=
  all.find? (·.name == s)

/-- The name of a model in messages. -/
def displayName : EmbeddingModel → String
  | .miniLM => "all-MiniLM-L6-v2"
  | .miniLMQuantized => "all-MiniLM-L6-v2 (quantized)"
  | .bgeSmall => "BGE-small-en-v1.5"
  | .nomicText => "nomic-embed-text-v1.5"
  | .jinaCode => "jina-embeddings-v2-base-code"

/-- The length of the vectors of a model. -/
def dimension : EmbeddingModel → Nat
  | .miniLM | .miniLMQuantized | .bgeSmall => 384
  | .nomicText | .jinaCode => 768

end EmbeddingModel

/-- Where an index is kept. -/
inductive Backend where
  /-- A hosted index. -/
  | pinecone
  /-- A file. -/
  | localFile
deriving Repr, DecidableEq

instance : Inhabited Backend := ⟨.pinecone⟩

namespace Backend

/-- The name of a backend. -/
def name : Backend → String
  | .pinecone => "pinecone"
  | .localFile => "local"

/-- The backend of the given name. -/
def ofName? (s : String) : Option Backend :=
  [pinecone, localFile].find? (·.name == s)

end Backend

/-! ## Sections

Values that have no natural default of their type are named, since a section as a whole and a
document that leaves out the field both refer to them. -/

def NamingSettings.defaultCandidateCount : Nat := 1

/-- How copies are named. -/
structure NamingSettings where
  strategy : Strategy := default
  /-- The number of names asked for. -/
  candidateCount : Nat := NamingSettings.defaultCandidateCount
deriving Repr, DecidableEq, Inhabited

def EmbeddingSettings.defaultBatchSize : Nat := 32

/-- How contexts are embedded. -/
structure EmbeddingSettings where
  model : EmbeddingModel := default
  cacheDir : Option String := none
  showDownloadProgress : Bool := false
  batchSize : Nat := EmbeddingSettings.defaultBatchSize
deriving Repr, DecidableEq, Inhabited

def IndexSettings.defaultNamespace : String := "code-contexts"

def IndexSettings.defaultApiKeyVariable : String := "PINECONE_API_KEY"

def IndexSettings.defaultTimeout : Nat := 30

/-- How the index is reached. -/
structure IndexSettings where
  backend : Backend := default
  host : Option String := none
  namespaceName : String := IndexSettings.defaultNamespace
  /-- The environment variable that holds the key. -/
  apiKeyVariable : String := IndexSettings.defaultApiKeyVariable
  localPath : Option String := none
  timeoutSeconds : Nat := IndexSettings.defaultTimeout
deriving Repr, DecidableEq, Inhabited

def HarvestSettings.defaultBatchSize : Nat := 10000

def HarvestSettings.defaultOutputDir : String := "contexts"

def HarvestSettings.defaultExcludePatterns : List String := ["**/obj/**", "**/bin/**"]

def HarvestSettings.defaultMinNameLength : Nat := 2

/-- How contexts are harvested. -/
structure HarvestSettings where
  batchSize : Nat := HarvestSettings.defaultBatchSize
  outputDir : String := HarvestSettings.defaultOutputDir
  excludePatterns : List String := HarvestSettings.defaultExcludePatterns
  /-- Parameters with shorter names are left out. -/
  minNameLength : Nat := HarvestSettings.defaultMinNameLength
deriving Repr, DecidableEq, Inhabited

def ProcedureSettings.defaultIncludeLocalFunctions : Bool := true

/-- Which procedures are changed. -/
structure ProcedureSettings where
  includeLocalFunctions : Bool := ProcedureSettings.defaultIncludeLocalFunctions
deriving Repr, DecidableEq, Inhabited

/-- All settings. -/
structure Settings where
  naming : NamingSettings := {}
  embedding : EmbeddingSettings := {}
  index : IndexSettings := {}
  harvest : HarvestSettings := {}
  procedures : ProcedureSettings := {}
deriving Repr, DecidableEq, Inhabited

/-! ## Checks -/

namespace Check

/-- A count must be greater than zero. -/
def positive (value : Nat) (field : String) : Except Error Unit :=
  if value = 0 then .error (.validation (field ++ " must be greater than 0") (some field))
  else .ok ()

/-- A text must be given and not blank. -/
def nonBlank (value : Option String) (field : String) : Except Error Unit :=
  if value.all Text.isBlankString then .error (.config (field ++ " must be set") (some field))
  else .ok ()

end Check

/-- At least one name is asked for. -/
def NamingSettings.check (s : NamingSettings) : Except Error Unit :=
  Check.positive s.candidateCount "naming.candidate_count"

/-- A batch holds at least one text. -/
def EmbeddingSettings.check (s : EmbeddingSettings) : Except Error Unit :=
  Check.positive s.batchSize "embedding.batch_size"

/-- A batch holds at least one record, and the shortest name is not empty. -/
def HarvestSettings.check (s : HarvestSettings) : Except Error Unit := do
  Check.positive s.batchSize "harvest.batch_size"
  Check.positive s.minNameLength "harvest.min_name_length"

/-- The time allowed is positive and the namespace is not blank. -/
def IndexSettings.check (s : IndexSettings) : Except Error Unit := do
  Check.positive s.timeoutSeconds "index.timeout_secs"
  if Text.isBlankString s.namespaceName then
    .error (.config "index.namespace must not be empty" (some "index.namespace"))
  else .ok ()

/-- The chosen backend can be reached: it has a host or a file. -/
def IndexSettings.checkBackend (s : IndexSettings) : Except Error Unit :=
  match s.backend with
  | .pinecone => Check.nonBlank s.host "index.host"
  | .localFile => Check.nonBlank s.localPath "index.local_path"

/-- The key in an environment, which must hold one that is not blank. -/
def IndexSettings.apiKey (s : IndexSettings) (environment : String → Option String) :
    Except Error String :=
  match (environment s.apiKeyVariable).filter fun key => !Text.isBlankString key with
  | some key => .ok key
  | none =>
    .error (.config (s.apiKeyVariable ++ " environment variable is not set")
      (some "index.api_key_env"))

namespace Settings

/-- All checks of a run; the backend is checked if names come from an index. -/
def check (s : Settings) : Except Error Unit := do
  s.naming.check
  s.embedding.check
  s.harvest.check
  s.index.check
  match s.naming.strategy with
  | .similarity => s.index.checkBackend
  | .deterministic => .ok ()

/-- The settings with another strategy. -/
def withStrategy (s : Settings) (strategy : Strategy) : Settings :=
  { s with naming := { s.naming with strategy := strategy } }

end Settings
end ParamTwin
