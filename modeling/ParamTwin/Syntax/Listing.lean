import ParamTwin.Json.Fields
import ParamTwin.Syntax.Node

/-!
# Listings of syntax trees

A syntax tree as a JSON array of its rows in pre-order. A row is an array of the depth of a node,
its kind, its field or null, the sum of its marks (1 for a name in the grammar, 2 for missing, 4 for
an error, 8 for an error below), and the start and the end of its span.
-/

namespace ParamTwin

/-- The span of an array of its two ends. -/
def Span.ofJson? : Json → Option Span
  | .arr [start, stop] => do return { start := ← start.count?, stop := ← stop.count? }
  | _ => none

/-- The marks of their sum. -/
def Marks.ofNat (n : Nat) : Marks where
  named := n.testBit 0
  missing := n.testBit 1
  error := n.testBit 2
  hasError := n.testBit 3

namespace Node

/-- The row of an array. -/
def Row.ofJson? : Json → Option Row
  | .arr [depth, kind, field, marks, start, stop] => do
    return {
      depth := ← depth.count?
      kind := ← kind.text?
      field := field.text?
      marks := Marks.ofNat (← marks.count?)
      span := { start := ← start.count?, stop := ← stop.count? } }
  | _ => none

/-- The tree of an array of rows. -/
def ofJson? (j : Json) : Option Node := do
  return Node.ofRows (← (← j.items?).mapM Row.ofJson?)

/-- The tree of a text of which only some string literals are known. -/
def ofLiterals (literals : List Span) : Node :=
  let row (depth : Nat) (kind : String) (span : Span) : Row :=
    { depth := depth, kind := kind, field := none, marks := Marks.ofNat 1, span := span }
  .ofRows (row 0 "compilation_unit" { start := 0, stop := 0 } ::
    literals.map (row 1 "verbatim_string_literal"))

end Node
end ParamTwin
