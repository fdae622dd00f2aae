import ParamTwin.Duplicate.Transform
import ParamTwin.Json.Fields

/-!
# Reports of a run

A transformed text with the time that it took, and its JSON form, which keeps whole milliseconds.
-/

namespace ParamTwin

/-- A transformed text with the microseconds that it took. -/
structure Report where
  transformed : Transformed
  elapsedMicros : Nat
deriving Repr, DecidableEq, Inhabited

namespace Report

/-- The microseconds of a millisecond. -/
def microsPerMilli : Nat := 1000

/-- A report as JSON. -/
def toJson (r : Report) : Json :=
  let counts := r.transformed.counts
  .obj [
    ("foundAny", .bool counts.foundAny),
    ("changesCount", .nat counts.changes),
    ("transformedText", .str (String.ofList r.transformed.text)),
    ("statistics", .obj [
      ("proceduresSeen", .nat counts.procedures),
      ("usagesDuplicated", .nat counts.usages),
      ("elapsed", .nat (min (r.elapsedMicros / microsPerMilli) (Json.countLimit - 1)))])]

/-- The report that a JSON value describes. -/
def ofJson? (j : Json) : Option Report := do
  let get ← j.fields ["foundAny", "changesCount", "transformedText", "statistics"]
  let foundAny ← (← get "foundAny").flag?
  let changes ← (← get "changesCount").count?
  let text ← (← get "transformedText").text?
  let stats ← (← get "statistics").fields ["proceduresSeen", "usagesDuplicated", "elapsed"]
  let procedures ← (← stats "proceduresSeen").count?
  let usages ← (← stats "usagesDuplicated").count?
  let elapsed ← (← stats "elapsed").count?
  return {
    transformed := { text := text.toList, counts := { foundAny, changes, procedures, usages } }
    elapsedMicros := elapsed * microsPerMilli }

end Report
end ParamTwin
