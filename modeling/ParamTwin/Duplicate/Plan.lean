import ParamTwin.Duplicate.Usage
import ParamTwin.Naming.Suggester

/-!
# Duplicating single parameters

The edits that give every procedure with exactly one parameter a second one of the same type, and a
copy of the first statement that uses the first. Every procedure is analysed against the unchanged
tree, and all changes are insertions, so that nested procedures do not disturb each other.
-/

namespace ParamTwin

/-- The counters of a run. -/
structure Counts where
  /-- Some procedure has exactly one parameter. -/
  foundAny : Bool
  /-- The procedures that were changed. -/
  changes : Nat
  /-- The procedures that were looked at. -/
  procedures : Nat
  /-- The changed procedures of which a statement was duplicated. -/
  usages : Nat
deriving Repr, DecidableEq, Inhabited

/-- The edits of a run with its counters. -/
structure Plan where
  edits : List Edit
  counts : Counts
deriving Repr, DecidableEq, Inhabited

namespace Plan

/-- What is known about a parameter for naming its copy. -/
def context (m : Model) (p : Procedure) (parameter : Parameter) : NamingContext :=
  { procedure := p.name
    typeName := (parameter.typeNode.bind m.typeName?).getD NamingContext.unknownType
    summary := p.documentation }

/-- The names bound anywhere in a procedure: those declared at an identifier inside it, and its
parameters. -/
def boundNames (m : Model) (p : Procedure) : NameSet :=
  let declared := p.node.preorder.filterMap fun n =>
    if Kind.isDeclaringName n.kind then
      (m.declared? n).bind fun offset => (m.symbol? offset).map (·.name)
    else none
  NameSet.ofList (declared ++ p.parameters.map (·.name))

/-- The modifier `this` of a parameter: a child that spells it and is not the name. -/
def thisModifier? (source : Text) (parameter : Parameter) : Option Span :=
  (parameter.binder.children.find? fun n =>
    n.span != parameter.nameNode.span && source.at? n.span == some "this".toList).map (·.span)

/-- The text of a parameter before its name. Only a first parameter may carry `this`, so a copy goes
without it and the blanks after it. -/
def beforeName? (source : Text) (parameter : Parameter) : Option Text :=
  let start := parameter.span.start
  let stop := parameter.nameNode.span.start
  match thisModifier? source parameter with
  | none => source.slice? start stop
  | some this => do
    let front ← source.slice? start this.start
    let between ← source.slice? this.stop stop
    return front ++ Text.trimStart between

/-- The text of a parameter with another name, for a second parameter. -/
def parameterCopy? (source : Text) (parameter : Parameter) (name : Text) : Option Text := do
  let before ← beforeName? source parameter
  let after ← source.slice? parameter.nameNode.span.stop parameter.span.stop
  return before ++ name ++ after

/-- The edit that inserts the copy of a parameter behind it. -/
def parameterEdit? (source : Text) (parameter : Parameter) (name : Text) : Option Edit := do
  let copy ← parameterCopy? source parameter name
  return { offset := parameter.span.stop, text := ',' :: ' ' :: copy }

/-- The symbol of a parameter with the first statement that uses it. -/
def located? (m : Model) (p : Procedure) (parameter : Parameter) : Option (Nat × Node) := do
  let symbol ← m.declared? parameter.binder
  let statement ← Usage.locate? m p.body parameter.name symbol
  return (symbol, statement)

/-- The edit that inserts the renamed copy of the first statement that uses the parameter; the outer
option tells whether the spans cut the source, the inner one whether there is such a statement. -/
def usageEdit? (m : Model) (p : Procedure) (parameter : Parameter) (name : Text) :
    Option (Option Edit) :=
  match located? m p parameter with
  | none => some none
  | some (symbol, statement) => do
    let copy ← Usage.renamed? m statement name symbol
    let edit ← Usage.insertAfter? m.source statement.span copy
    return some edit

/-- The name for the copy of a parameter. -/
def newName (m : Model) (suggester : Suggester) (count : Nat) (p : Procedure)
    (parameter : Parameter) : String :=
  let context := context m p parameter
  suggester.best parameter.name context context.typeName (boundNames m p) count

/-- The edits of one procedure: none if it has not exactly one parameter. -/
def ofProcedure? (m : Model) (suggester : Suggester) (count : Nat) (p : Procedure) :
    Option (List Edit) :=
  match p.parameters with
  | [parameter] => do
    let name := (newName m suggester count p parameter).toList
    let first ← parameterEdit? m.source parameter name
    let second ← usageEdit? m p parameter name
    return first :: second.toList
  | _ => some []

/-- The plan without edits. -/
def empty : Plan :=
  { edits := [], counts := { foundAny := false, changes := 0, procedures := 0, usages := 0 } }

/-- The plan with the edits of one more procedure: one for its parameter and one for a usage. -/
def add (plan : Plan) (edits : List Edit) : Plan :=
  { edits := plan.edits ++ edits
    counts :=
      { foundAny := plan.counts.foundAny || !edits.isEmpty
        changes := plan.counts.changes + (if edits.isEmpty then 0 else 1)
        procedures := plan.counts.procedures + 1
        usages := plan.counts.usages + (if edits.length = 2 then 1 else 0) } }

/-- The plan for a list of procedures, none if a piece of the source cannot be cut out. -/
def ofProcedures? (m : Model) (suggester : Suggester) (count : Nat) (plan : Plan) :
    List Procedure → Option Plan
  | [] => some plan
  | p :: ps => do
    let edits ← ofProcedure? m suggester count p
    ofProcedures? m suggester count (plan.add edits) ps

/-- The plan for a parsed file. -/
def make? (m : Model) (root : Node) (suggester : Suggester) (withLocal : Bool) (count : Nat) :
    Option Plan :=
  ofProcedures? m suggester count empty (Procedure.list m.source root withLocal)

end Plan
end ParamTwin
