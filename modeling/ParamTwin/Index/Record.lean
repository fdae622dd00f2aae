import ParamTwin.Decimal.Binary
import ParamTwin.Json.Fields

/-!
# Index records

A stored embedding with the type and the name of the parameter it was made for, and its JSON form.
-/

namespace ParamTwin

/-- The vector of a text. -/
abbrev Embedding := List Single

/-- One stored embedding. -/
structure IndexRecord where
  id : String
  values : Embedding
  /-- The canonical type of the parameter. -/
  typeName : String
  /-- The name of the parameter. -/
  paramName : String
deriving Repr, DecidableEq, Inhabited

/-- A name found in an index with its score. -/
structure Hit where
  name : String
  score : Single
deriving Repr, DecidableEq, Inhabited

/-- The JSON form of a number: null if it is not finite. -/
def Single.toJson (x : Single) : Json :=
  if x.isFinite then .num x.number else .null

/-- The number that a JSON number denotes. -/
def Single.ofJson? : Json → Option Single
  | .num n => Single.ofNumber? n
  | _ => none

namespace IndexRecord

/-- The type and the name of a record as JSON. -/
def metadataJson (r : IndexRecord) : Json :=
  .obj [("paramType", .str r.typeName), ("paramName", .str r.paramName)]

/-- A record as JSON. -/
def toJson (r : IndexRecord) : Json :=
  .obj [("id", .str r.id), ("values", .arr (r.values.map Single.toJson)),
    ("metadata", r.metadataJson)]

/-- The type and the name of a record. -/
def readMetadata? (j : Json) : Option (String × String) := do
  let get ← j.fields ["paramType", "paramName"]
  return (← (← get "paramType").text?, ← (← get "paramName").text?)

/-- The record that a JSON value describes. -/
def ofJson? (j : Json) : Option IndexRecord := do
  let get ← j.fields ["id", "values", "metadata"]
  let id ← (← get "id").text?
  let values ← (← (← get "values").items?).mapM Single.ofJson?
  let (typeName, paramName) ← readMetadata? (← get "metadata")
  return { id, values, typeName, paramName }

end IndexRecord
end ParamTwin
