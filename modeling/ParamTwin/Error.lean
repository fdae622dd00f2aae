/-!
# Failures

The causes for which an operation fails, with their wording in `Error.message`. A cause can be put
in a larger context: most kinds then name it in front of their message. An operation that cuts texts
may also panic, which is no failure that it could report: `Stop` tells the two apart.
-/

namespace ParamTwin

/-- Why an operation failed. -/
inductive Error where
  /-- A file could not be read or written. -/
  | io (message : String)
  /-- The named input does not exist. -/
  | inputNotFound (path : String)
  /-- A setting is wrong; `field` names it if one is to blame. -/
  | config (message : String) (field : Option String)
  /-- A source could not be parsed. -/
  | parse (language message : String)
  /-- An embedder or an index failed. -/
  | naming (backend message : String)
  /-- A document of the given format could not be read. -/
  | serialization (message : String) (format : Option String)
  /-- A value is not acceptable for the named field. -/
  | validation (message : String) (field : Option String)
  /-- Something that should not happen. -/
  | internal (message : String) (context : Option String)
  /-- The operation is not available. -/
  | unsupported (message : String)
deriving Repr, DecidableEq, Inhabited

namespace Error

/-- The wording of a failure. -/
def message : Error → String
  | .io message => "I/O error: " ++ message
  | .inputNotFound path => "Input file not found: " ++ path
  | .config message _ => "Configuration error: " ++ message
  | .parse language message => "Parse error in " ++ language ++ ": " ++ message
  | .naming backend message => "Naming backend error (" ++ backend ++ "): " ++ message
  | .serialization message _ => "Serialization error: " ++ message
  | .validation message _ => "Validation error: " ++ message
  | .internal message _ => "Internal error: " ++ message
  | .unsupported message => "Unsupported: " ++ message

/-- Whether the input is to blame rather than the surroundings. -/
def isInputError : Error → Bool
  | .inputNotFound _ | .config _ _ | .validation _ _ => true
  | _ => false

/-- The failure seen in a larger context. -/
def inContext (context : String) : Error → Error
  | .internal message _ => .internal message (some context)
  | .io message => .io (context ++ ": " ++ message)
  | .naming backend message => .naming backend (context ++ ": " ++ message)
  | .parse language message => .parse language (context ++ ": " ++ message)
  | .serialization message format => .serialization (context ++ ": " ++ message) format
  | e => e

/-- A JSON document that cannot be read as what it should hold. -/
def badJson : Error :=
  .serialization "JSON serialization failed" (some "JSON")

end Error

/-- Why an operation ends without a result. -/
inductive Stop where
  /-- It fails and tells the cause. -/
  | failed (e : Error)
  /-- It panics: a text is to be cut where it cannot be cut. -/
  | panic
deriving Repr, DecidableEq, Inhabited

namespace Stop

/-- The end seen in a larger context, which a panic does not take. -/
def inContext (context : String) : Stop → Stop
  | .failed e => .failed (e.inContext context)
  | .panic => .panic

end Stop
end ParamTwin
