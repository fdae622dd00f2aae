import ParamTwin.Syntax.Construct
import ParamTwin.Syntax.Parameter
import ParamTwin.Naming.Identifier

/-!
# Binding names to declarations

One walk over the syntax tree of a file that keeps a stack of scopes. It records each declared local
name as a symbol and, for each identifier in expression position, the symbol that the innermost
scope with that name gives. Members, types and namespaces are not modelled: an identifier that is
bound by no scope stays unresolved.

A symbol is identified by the byte offset of the identifier that declares it.
-/

namespace ParamTwin

/-- What introduced a symbol. -/
inductive SymbolKind where
  /-- A parameter of a procedure, lambda or anonymous method. -/
  | parameter
  /-- A variable of a declaration, loop, catch clause or pattern. -/
  | variable
  /-- The name of a local function. -/
  | localFunction
  /-- A range variable of a query. -/
  | rangeVariable
deriving Repr, DecidableEq, Inhabited

/-- A declared name. -/
structure Symbol where
  /-- The byte offset of the declaring identifier. -/
  offset : Nat
  /-- The name without a leading `@`. -/
  name : String
  kind : SymbolKind
deriving Repr, DecidableEq, Inhabited

/-- The names bound in one scope with the offsets of their symbols, the latest first. -/
abbrev Scope := List (String × Nat)

/-- The state of the walk. -/
structure Binder where
  /-- The open scopes, the innermost first. -/
  scopes : List Scope
  /-- The symbols declared so far, the latest first. -/
  symbols : List Symbol
  /-- The offsets of the resolved identifiers with their symbols, the latest first. -/
  references : List (Nat × Nat)
deriving Inhabited

namespace Binder

/-- The state before the walk. -/
def start : Binder :=
  { scopes := [], symbols := [], references := [] }

/-- Runs a step inside a new innermost scope, which is closed after it. -/
def inScope (step : Binder → Binder) (b : Binder) : Binder :=
  let b := step { b with scopes := [] :: b.scopes }
  { b with scopes := b.scopes.tail }

/-- Whether a symbol is declared at the offset. -/
def isDeclared (b : Binder) (offset : Nat) : Bool :=
  b.symbols.any (·.offset == offset)

/-- The scopes with a name bound in the innermost one. -/
def bindInnermost (name : String) (offset : Nat) : List Scope → List Scope
  | [] => []
  | scope :: outer => ((name, offset) :: scope) :: outer

/-- Declares the name that an identifier spells. The empty name and the discard `_` bind nothing,
and an identifier declares at most one symbol. -/
def declare (source : Text) (kind : SymbolKind) (n : Node) (b : Binder) : Binder :=
  let name := Identifier.bare (n.textString source)
  if name == "" || name == "_" || b.isDeclared n.span.start then b
  else
    { b with
      symbols := { offset := n.span.start, name := name, kind := kind } :: b.symbols
      scopes := bindInnermost name n.span.start b.scopes }

/-- The symbol that the innermost scope with the name gives. -/
def lookup (name : String) : List Scope → Option Nat
  | [] => none
  | scope :: outer =>
    match scope.lookup name with
    | some offset => some offset
    | none => lookup name outer

/-- Records what an identifier refers to, if a scope binds its name. -/
def refer (source : Text) (n : Node) (b : Binder) : Binder :=
  match lookup (Identifier.bare (n.textString source)) b.scopes with
  | some offset => { b with references := (n.span.start, offset) :: b.references }
  | none => b

/-- Declares each of the parameters of a parameter list. -/
def declareParameters (source : Text) (list : Node) (b : Binder) : Binder :=
  (Parameter.collect source list).foldl (fun b p => b.declare source .parameter p.nameNode) b

mutual
/-- Declares every identifier of a designation: a name, a tuple of designations or a declaration
expression. -/
def designate (source : Text) (kind : SymbolKind) : Node → Binder → Binder
  | ⟨row, nodeKind, field, marks, span, children⟩, b =>
    if Kind.isDeclaringName nodeKind then
      b.declare source kind ⟨row, nodeKind, field, marks, span, children⟩
    else if ["parenthesized_variable_designation", "tuple_pattern", "tuple_expression",
        "argument"].contains nodeKind then
      designateNamed source kind children b
    else if nodeKind == "declaration_expression" then
      designateName source kind children b
    else b
/-- Declares every identifier of the designations with a name in the grammar. -/
def designateNamed (source : Text) (kind : SymbolKind) : List Node → Binder → Binder
  | [], b => b
  | n :: ns, b =>
    designateNamed source kind ns (if n.marks.named then designate source kind n b else b)
/-- Declares every identifier of the first child under the field `name`. -/
def designateName (source : Text) (kind : SymbolKind) : List Node → Binder → Binder
  | [], b => b
  | n :: ns, b =>
    if n.field == some "name" then designate source kind n b else designateName source kind ns b
end

mutual
/-- Declares the local functions among the children of a scope and of its switch sections, which are
bound throughout the scope. -/
def hoist (source : Text) : Node → Binder → Binder
  | ⟨_, _, _, _, _, children⟩, b => hoistAll source children b
/-- Declares the local functions among the children of a scope. -/
def hoistAll (source : Text) : List Node → Binder → Binder
  | [], b => b
  | n :: ns, b =>
    hoistAll source ns <|
      if !n.marks.named then b
      else if n.kind == "local_function_statement" then
        match n.child? "name" with
        | some name => b.declare source .localFunction name
        | none => b
      else if n.kind == "switch_section" then hoist source n b
      else b
end

/-- The parameter list of a procedure. -/
def parameterList? (n : Node) : Option Node :=
  (n.child? "parameters").or <| n.namedChildren.find? fun c =>
    c.kind == "parameter_list" || c.kind == "bracketed_parameter_list"

/-- The parameters of a lambda: a parameter list, or one bare name. -/
def lambdaParameters? (n : Node) : Option Node :=
  (n.child? "parameters").or <| n.namedChildren.find? (·.kind == "parameter_list")

/-- Whether a declarator, given the kinds around it from the inside out, declares a field. -/
def isField (around : List String) : Bool :=
  match around with
  | parent :: owner :: _ =>
    parent == "variable_declaration" &&
      (owner == "field_declaration" || owner == "event_field_declaration")
  | _ => false

/-- The name or tuple of names that a declarator declares. -/
def declaratorNames? (n : Node) : Option Node :=
  (n.child? "name").or <| n.namedChildren.find? (·.kind == "tuple_pattern")

/-- Whether a child of a pattern designates variables; `later` are the siblings after it. -/
def isDesignation (patternKind : String) (child : Node) (later : List Node) : Bool :=
  child.field == some "name" || child.kind == "parenthesized_variable_designation" ||
    child.kind == "discard" ||
    (child.kind == "identifier" &&
      (patternKind != "recursive_pattern" || !later.any (·.marks.named)))

/-- How far the walk over a query clause has come. -/
structure Clause where
  /-- The last identifier before a separator: the range variable of the clause. -/
  leading : Option Node := none
  /-- One of `in`, `=` and `on` has been passed. -/
  afterSeparator : Bool := false
  /-- The next identifier is bound by `into`. -/
  afterInto : Bool := false

/-- Declares the range variable of a clause after its other parts. -/
def declareLeading (source : Text) (clause : Clause) (b : Binder) : Binder :=
  match clause.leading with
  | some n => b.declare source .rangeVariable n
  | none => b

mutual
/-- Walks over a node; `around` are the kinds of the nodes around it from the inside out. -/
def visit (source : Text) (around : List String) : Node → Binder → Binder
  | ⟨row, kind, field, marks, span, children⟩, b =>
    let n : Node := ⟨row, kind, field, marks, span, children⟩
    match Construct.ofKind kind with
    | .skipped => b
    | .procedure =>
      b.inScope fun b =>
        visitChildren source kind around none children <|
          match parameterList? n with
          | some list => b.declareParameters source list
          | none => b
    | .localFunction =>
      let b :=
        match n.child? "name" with
        | some name => b.declare source .localFunction name
        | none => b
      b.inScope fun b =>
        visitChildren source kind around none children <|
          match parameterList? n with
          | some list => b.declareParameters source list
          | none => b
    | .scope =>
      b.inScope fun b => visitChildren source kind around none children (hoist source n b)
    | .lambda =>
      b.inScope fun b =>
        match lambdaParameters? n with
        | none => visitChildren source kind around none children b
        | some parameters =>
          if parameters.kind == "parameter_list" then
            visitChildren source kind around none children (b.declareParameters source parameters)
          else if Kind.isDeclaringName parameters.kind then
            visitChildren source kind around (some parameters.row) children
              (b.declare source .parameter parameters)
          else visitChildren source kind around none children b
    | .foreachLoop =>
      b.inScope fun b =>
        match n.child? "left" with
        | none => visitChildren source kind around none children b
        | some left =>
          visitChildren source kind around (some left.row) children
            (designate source .variable left b)
    | .declarator =>
      match declaratorNames? n with
      | none => visitChildren source kind around none children b
      | some names =>
        visitChildren source kind around (some names.row) children
          (if isField around then b else designate source .variable names b)
    | .catchVariable =>
      match n.child? "name" with
      | some name => b.declare source .variable name
      | none => b
    | .declarationExpression =>
      match n.child? "name" with
      | some name => designate source .variable name b
      | none => b
    | .pattern => visitPattern source kind around children b
    | .queryClause => visitClause source kind around {} children b
    | .plain => visitChildren source kind around none children b
/-- Walks over the children of a node of the given kind and records the references among them; the
child at row `skip` is already handled. -/
def visitChildren (source : Text) (kind : String) (around : List String) (skip : Option Nat) :
    List Node → Binder → Binder
  | [], b => b
  | n :: ns, b =>
    visitChildren source kind around skip ns <|
      if skip == some n.row then b
      else if n.kind == "identifier" then
        if Kind.isReferencePosition kind around n.field (ns.head?.map (·.kind)) then
          b.refer source n
        else b
      else visit source (kind :: around) n b
/-- Walks over the children of a pattern of the given kind; its type holds no references. -/
def visitPattern (source : Text) (kind : String) (around : List String) :
    List Node → Binder → Binder
  | [], b => b
  | n :: ns, b =>
    visitPattern source kind around ns <|
      if n.field == some "type" then b
      else if isDesignation kind n ns then designate source .variable n b
      else visit source (kind :: around) n b
/-- Walks over the children of a query clause. The range variable is bound after them. -/
def visitClause (source : Text) (kind : String) (around : List String) (clause : Clause) :
    List Node → Binder → Binder
  | [], b => declareLeading source clause b
  | n :: ns, b =>
    if n.kind == "in" || n.kind == "=" || n.kind == "on" then
      visitClause source kind around { clause with afterSeparator := true } ns b
    else if n.kind == "into" then
      visitClause source kind around { clause with afterInto := true } ns b
    else if n.kind == "identifier" && clause.afterInto then
      visitClause source kind around { clause with afterInto := false } ns
        (b.declare source .rangeVariable n)
    else if n.kind == "identifier" && !clause.afterSeparator && n.field != some "type" then
      visitClause source kind around { clause with leading := some n } ns b
    else if n.kind == "identifier" && clause.afterSeparator then
      visitClause source kind around clause ns (b.refer source n)
    else if n.marks.named then
      visitClause source kind around clause ns (visit source (kind :: around) n b)
    else visitClause source kind around clause ns b
end

/-- The state after the walk over a whole file, which is a scope of its own. -/
def run (source : Text) (root : Node) : Binder :=
  start.inScope (visit source [] root)

end Binder
end ParamTwin
