import ParamTwin.Duplicate.Transform
import ParamTwin.Index.Embedder
import ParamTwin.Index.Hosted
import ParamTwin.Index.LocalIndex
import ParamTwin.Naming.Similarity

/-!
# The transformation service

Builds the suggester that settings ask for and transforms files with it.
-/

namespace ParamTwin

/-- An index that settings ask for. -/
inductive Index where
  | file (i : LocalIndex)
  | hosted (i : HostedIndex)

namespace Index

/-- The name of the kind of index. -/
def name : Index → String
  | .file _ => Backend.name .localFile
  | .hosted _ => Backend.name .pinecone

/-- The lookup in an index. -/
def lookup (transport : Transport) : Index → Lookup
  | .file i => fun vector count typeName => .ok (i.store.query vector count typeName)
  | .hosted i => fun vector count typeName => do
    HostedIndex.hits (← transport i.host i.apiKey (i.queryRequest vector count typeName))

/-- Opens the index that settings ask for. -/
def «open» (files : FileTree) (environment : String → Option String) (settings : IndexSettings) :
    Except Error Index :=
  match settings.backend with
  | .pinecone => do
    let key ← settings.apiKey environment
    return .hosted (← HostedIndex.make settings key)
  | .localFile =>
    match settings.localPath with
    | none => .error (.config "index.local_path must be set" (some "index.local_path"))
    | some path => (LocalIndex.open files path).map .file

end Index

/-- What surrounds a run. -/
structure Surroundings where
  files : FileTree
  /-- The environment variables. -/
  environment : String → Option String
  grammar : Grammar
  /-- Loads an embedding model. -/
  load : EmbeddingSettings → Except Error Embedder
  transport : Transport

namespace Service

/-- The suggester that settings ask for, after their checks. -/
def suggester (s : Surroundings) (settings : Settings) : Except Error Suggester := do
  settings.check
  match settings.naming.strategy with
  | .deterministic => return .deterministic
  | .similarity =>
    let index ← Index.open s.files s.environment settings.index
    return .similarity (.onDemand (s.load settings.embedding)) (index.lookup s.transport)

/-- The transformed text of a file. -/
def transformed (files : FileTree) (grammar : Grammar) (suggester : Suggester)
    (settings : Settings) (input : String) : Except Stop Transformed :=
  match files.readText input with
  | .error e => .error (.failed e)
  | .ok t =>
    (Transform.source grammar suggester settings t).mapError
      (Stop.inContext ("While transforming " ++ input))

/-- Transforms a file and writes the result to another one. -/
def transformFile (files : FileTree) (grammar : Grammar) (suggester : Suggester)
    (settings : Settings) (input output : String) : FileTree × Except Stop Transformed :=
  match transformed files grammar suggester settings input with
  | .error stop => (files, .error stop)
  | .ok t =>
    match files.writeText output t.text with
    | (files, .ok ()) => (files, .ok t)
    | (files, .error e) => (files, .error (.failed e))

end Service
end ParamTwin
