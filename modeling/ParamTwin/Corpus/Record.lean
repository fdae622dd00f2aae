import ParamTwin.Index.Digest
import ParamTwin.Index.Record
import ParamTwin.Json.Reader
import ParamTwin.Naming.Suggester
import ParamTwin.Syntax.Procedure
import ParamTwin.TypeName

/-!
# Corpus records

One record for each parameter of a method: the text that describes it, its type and its name.
Records of a source are read off its syntax tree by `CorpusRecord.extract`.
-/

namespace ParamTwin

/-- A parameter as it was seen in a source. -/
structure CorpusRecord where
  /-- The description of the parameter, under which similar ones are found. -/
  context : String
  typeName : String
  paramName : String
deriving Repr, DecidableEq, Inhabited

namespace CorpusRecord

/-- The text that identifies a record. -/
def key (r : CorpusRecord) : String :=
  r.context ++ "\n" ++ r.paramName

/-- The id of a record in an index. -/
def id (r : CorpusRecord) : String :=
  Digest.hex (Digest.xxh3 r.key.toUTF8)

/-- The index record of a corpus record and its embedding. -/
def toIndexRecord (r : CorpusRecord) (values : Embedding) : IndexRecord where
  id := r.id
  values := values
  typeName := r.typeName
  paramName := r.paramName

/-! ## JSON -/

/-- A record as JSON. -/
def toJson (r : CorpusRecord) : Json :=
  .obj [("context", .str r.context), ("paramType", .str r.typeName),
    ("paramName", .str r.paramName)]

/-- The field that a member counts for: the context has a second name. -/
def canonicalField (name : String) : String :=
  if name == "transformerContext" then "context" else name

/-- The record that a JSON value describes. -/
def ofJson? (j : Json) : Option CorpusRecord := do
  let get ← j.fieldsBy canonicalField ["context", "paramType", "paramName"]
  return {
    context := ← (← get "context").text?
    typeName := ← (← get "paramType").text?
    paramName := ← (← get "paramName").text? }

/-! ## Extraction -/

/-- Whether a parameter is recorded: its name does not start with an underscore and is long
enough. -/
def isKept (minNameLength : Nat) (name : String) : Bool :=
  name.toList.head? != some '_' && minNameLength ≤ name.length

/-- The record of a parameter of a procedure. -/
def ofParameter (source : Text) (p : Procedure) (q : Parameter) : CorpusRecord :=
  let typeName :=
    (q.typeNode.bind fun n => TypeName.canonical (n.text source)).getD NamingContext.unknownType
  let context : NamingContext :=
    { procedure := p.name, typeName := typeName, summary := p.documentation }
  { context := context.describe, typeName := typeName, paramName := q.name }

/-- The records of the methods of a source, which do not include local functions. -/
def extract (source : Text) (root : Node) (minNameLength : Nat) : List CorpusRecord :=
  (Procedure.list source root false).flatMap fun p =>
    (p.parameters.filter fun q => isKept minNameLength q.name).map (ofParameter source p)

end CorpusRecord
end ParamTwin
