import ParamTwin.Syntax.Parameter
import ParamTwin.Syntax.Summary

/-!
# Procedures

The methods and local functions of a syntax tree in document order, each with its parameters, its
block body and the summary of the documentation comment right before it.
-/

namespace ParamTwin

/-- A method or local function. -/
structure Procedure where
  node : Node
  name : String
  parameters : List Parameter
  /-- The block body; none for a procedure without a body or with an expression body. -/
  body : Option Node
  /-- The summary of its documentation, or empty. -/
  documentation : String
deriving Inhabited

namespace Procedure

/-- The kind of a method. -/
def methodKind : String := "method_declaration"

/-- The kind of a local function. -/
def localFunctionKind : String := "local_function_statement"

/-- The lines of a documentation comment, the one nearest to the procedure first: what follows `///`
in each comment of the run of comments that ends right before it. -/
def documentationLines (source : Text) (before : List Node) : List Text :=
  (before.takeWhile (·.kind == "comment")).filterMap fun comment =>
    match Text.trim (comment.text source) with
    | '/' :: '/' :: '/' :: rest => some rest
    | _ => none

/-- The summary of the comments before a node; `before` lists its preceding siblings, the nearest
first. -/
def summary (source : Text) (before : List Node) : Text :=
  Summary.extract (Text.join ['\n'] (documentationLines source before).reverse)

/-- The procedure that a node declares: it needs a name and a parameter list. -/
def ofNode? (source : Text) (before : List Node) (n : Node) : Option Procedure := do
  let name ← n.child? "name"
  let list ← n.child? "parameters"
  return { node := n, name := name.textString source, parameters := Parameter.collect source list
           body := (n.child? "body").filter (·.kind == "block")
           documentation := String.ofList (summary source before) }

/-- Whether a node of this kind is listed. -/
def isListed (withLocal : Bool) (kind : String) : Bool :=
  kind == methodKind || (withLocal && kind == localFunctionKind)

mutual
/-- The procedures of a node and its descendants in document order. -/
def ofTree (source : Text) (withLocal : Bool) (before : List Node) : Node → List Procedure
  | ⟨row, kind, field, marks, span, children⟩ =>
    (if isListed withLocal kind then
      (ofNode? source before ⟨row, kind, field, marks, span, children⟩).toList
     else []) ++ ofTrees source withLocal [] children
/-- The procedures of a list of siblings, of which `before` are already passed. -/
def ofTrees (source : Text) (withLocal : Bool) (before : List Node) : List Node → List Procedure
  | [] => []
  | n :: ns => ofTree source withLocal before n ++ ofTrees source withLocal (n :: before) ns
end

/-- All procedures of a tree in document order. -/
def list (source : Text) (root : Node) (withLocal : Bool) : List Procedure :=
  ofTree source withLocal [] root

end Procedure
end ParamTwin
