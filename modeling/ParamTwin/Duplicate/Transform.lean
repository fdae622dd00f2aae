import ParamTwin.Duplicate.Plan
import ParamTwin.Settings.Basic

/-!
# Transforming a source text

Parsing, planning and rendering of one source text. The parser is given as a `Grammar`, which reads
the syntax tree of a text. Planning panics where a piece of the source cannot be cut out.
-/

namespace ParamTwin

/-- A parser for C#. -/
structure Grammar where
  /-- The syntax tree of a text. -/
  tree : Text → Node

/-- The spans of the string literals of a text that start and end on different lines. -/
def Grammar.literals (grammar : Grammar) (t : Text) : List Span :=
  (grammar.tree t).longLiterals t

/-- A transformed text with the counters of the run. -/
structure Transformed where
  text : Text
  counts : Counts
deriving Repr, DecidableEq, Inhabited

namespace Transformed

/-- The line shown to the user after the text was written to `output`. -/
def summary (t : Transformed) (output : String) : String :=
  if t.counts.foundAny then
    "Processed file. Methods changed: " ++ Nat.repr t.counts.changes ++
      ". Output written to: " ++ output
  else "No method declarations with a single parameter were found. No changes made."

end Transformed

namespace Transform

/-- The failure to insert an edit. -/
def badOffset (source : Text) (e : Edit) : Error :=
  .internal
    ("Edit offset " ++ Nat.repr e.offset ++ " is not a character boundary in a " ++
      Nat.repr (Text.byteSize source) ++ " byte source") none

/-- The source with the edits inserted and its lines tidied. -/
def render (grammar : Grammar) (source : Text) (edits : List Edit) : Except Error Text :=
  match Edit.apply source edits with
  | .error e => .error (badOffset source e)
  | .ok t => .ok (Tidy.run t (grammar.literals t))

/-- The transformed source text. -/
def source (grammar : Grammar) (suggester : Suggester) (settings : Settings) (t : Text) :
    Except Stop Transformed :=
  let root := grammar.tree t
  let plan := Plan.make? (Model.build t root) root suggester
    settings.procedures.includeLocalFunctions (max settings.naming.candidateCount 1)
  match plan with
  | none => .error .panic
  | some plan =>
    match render grammar t plan.edits with
    | .error e => .error (.failed e)
    | .ok text => .ok { text, counts := plan.counts }

end Transform
end ParamTwin
