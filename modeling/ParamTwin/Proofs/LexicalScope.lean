import ParamTwin.Scope.Binder
import ParamTwin.Proofs.TreePath

/-!
# Lexical scoping, declaratively

What an identifier refers to, said without a stack of scopes. The walk over a tree is a list of
events (`Lexical.walk`): a name is declared in the scope of a node or of the file, or an identifier
stands in reference position at a place of the tree. An identifier resolves to the most recent
declaration of its name in the innermost scope around it that has one by then
(`Lexical.Resolves`); the scopes around a place are read off its path (`Lexical.enclosing`).

What a single node contributes is its `Lexical.Shape`: the names it declares around itself, on
entry and at its end, and the role of each of its children. `Lexical.shape` gives the shapes of the
constructs; the walk is the same for all of them.
-/

namespace ParamTwin

/-- Whether a construct opens a scope of its own. -/
def Construct.opensScope : Construct → Bool
  | .procedure | .localFunction | .scope | .lambda | .foreachLoop => true
  | _ => false

/-- Whether a construct has parameters. -/
def Construct.takesParameters : Construct → Bool
  | .procedure | .localFunction | .lambda => true
  | _ => false

theorem Construct.opensScope_of_takesParameters {c : Construct} (h : c.takesParameters = true) :
    c.opensScope = true := by
  revert h
  cases c <;> simp [takesParameters, opensScope]

namespace Lexical

/-- What opens a scope: the file, or the node at a position. -/
inductive ScopeId where
  | file
  | node (path : Path)
deriving DecidableEq

/-- A node whose text is declared as a name, with what introduces it. -/
structure Binding where
  kind : SymbolKind
  name : Node

/-- What the walk does at a child of a node. -/
inductive Role where
  /-- Nothing. -/
  | passed
  /-- It walks over the child. -/
  | walked
  /-- The child is an identifier in reference position. -/
  | reference
  /-- The child designates names, which are declared there. -/
  | designates (bindings : List Binding)

/-- What a node contributes to the walk. -/
structure Shape where
  /-- Declared in the scope around the node when the walk reaches it. -/
  outside : List Binding := []
  /-- Declared on entry, in the scope of the node if it opens one. -/
  entry : List Binding := []
  /-- The roles of its children; children without one are passed. -/
  roles : List Role := []
  /-- Declared after its children. -/
  last : List Binding := []

/-! ## The names of a construct -/

mutual
/-- The identifiers of a designation. -/
def designated : Node → List Node
  | ⟨row, kind, field, marks, span, children⟩ =>
    if Kind.isDeclaringName kind then [⟨row, kind, field, marks, span, children⟩]
    else if ["parenthesized_variable_designation", "tuple_pattern", "tuple_expression",
        "argument"].contains kind then
      designatedNamed children
    else if kind == "declaration_expression" then designatedName children
    else []
/-- The identifiers of the designations with a name in the grammar. -/
def designatedNamed : List Node → List Node
  | [] => []
  | n :: ns => (if n.marks.named then designated n else []) ++ designatedNamed ns
/-- The identifiers of the first child under the field `name`. -/
def designatedName : List Node → List Node
  | [] => []
  | n :: ns => if n.field == some "name" then designated n else designatedName ns
end

mutual
/-- The names of the local functions that are children of a node or of its switch sections. -/
def hoisted : Node → List Node
  | ⟨_, _, _, _, _, children⟩ => hoistedAmong children
/-- The names of the local functions among the children of a node. -/
def hoistedAmong : List Node → List Node
  | [] => []
  | n :: ns =>
    (if !n.marks.named then []
     else if n.kind == "local_function_statement" then (n.child? "name").toList
     else if n.kind == "switch_section" then hoisted n
     else []) ++ hoistedAmong ns
end

/-- The names of the parameters of a parameter list. -/
def parameters (source : Text) (list : Node) : List Binding :=
  (Parameter.collect source list).map fun p => ⟨.parameter, p.nameNode⟩

/-- Bindings of one kind. -/
def bindAll (kind : SymbolKind) (names : List Node) : List Binding :=
  names.map (⟨kind, ·⟩)

/-! ## The roles of the children -/

/-- The roles of the children of a node of the given kind; the child at row `skip` is passed. -/
def childRoles (kind : String) (around : List String) (skip : Option Nat) : List Node → List Role
  | [] => []
  | n :: ns =>
    (if skip == some n.row then .passed
     else if n.kind == "identifier" then
       if Kind.isReferencePosition kind around n.field (ns.head?.map (·.kind)) then .reference
       else .passed
     else .walked) :: childRoles kind around skip ns

/-- The roles of the children of a pattern of the given kind. -/
def patternRoles (kind : String) : List Node → List Role
  | [] => []
  | n :: ns =>
    (if n.field == some "type" then .passed
     else if Binder.isDesignation kind n ns then .designates (bindAll .variable (designated n))
     else .walked) :: patternRoles kind ns

/-- The role of a child of a query clause, and how far the clause has come after it. -/
def clauseStep (clause : Binder.Clause) (n : Node) : Role × Binder.Clause :=
  if n.kind == "in" || n.kind == "=" || n.kind == "on" then
    (.passed, { clause with afterSeparator := true })
  else if n.kind == "into" then (.passed, { clause with afterInto := true })
  else if n.kind == "identifier" && clause.afterInto then
    (.designates (bindAll .rangeVariable [n]), { clause with afterInto := false })
  else if n.kind == "identifier" && !clause.afterSeparator && n.field != some "type" then
    (.passed, { clause with leading := some n })
  else if n.kind == "identifier" && clause.afterSeparator then (.reference, clause)
  else if n.marks.named then (.walked, clause)
  else (.passed, clause)

/-- The roles of the children of a query clause. -/
def clauseRoles (clause : Binder.Clause) : List Node → List Role
  | [] => []
  | n :: ns => (clauseStep clause n).1 :: clauseRoles (clauseStep clause n).2 ns

/-- The range variable of a query clause. -/
def clauseVariable (clause : Binder.Clause) : List Node → Option Node
  | [] => clause.leading
  | n :: ns => clauseVariable (clauseStep clause n).2 ns

/-! ## The shapes of the constructs -/

/-- What a node contributes to the walk; `around` are the kinds of the nodes around it from the
inside out. -/
def shape (source : Text) (around : List String) (n : Node) : Shape :=
  let roles := childRoles n.kind around none n.children
  let entry := ((Binder.parameterList? n).map (parameters source)).getD []
  match Construct.ofKind n.kind with
  | .skipped => {}
  | .procedure => { entry, roles }
  | .localFunction => { outside := bindAll .localFunction (n.child? "name").toList, entry, roles }
  | .scope => { entry := bindAll .localFunction (hoisted n), roles }
  | .lambda =>
    match Binder.lambdaParameters? n with
    | none => { roles }
    | some list =>
      if list.kind == "parameter_list" then { entry := parameters source list, roles }
      else if Kind.isDeclaringName list.kind then
        { entry := bindAll .parameter [list]
          roles := childRoles n.kind around (some list.row) n.children }
      else { roles }
  | .foreachLoop =>
    match n.child? "left" with
    | none => { roles }
    | some left =>
      { entry := bindAll .variable (designated left)
        roles := childRoles n.kind around (some left.row) n.children }
  | .declarator =>
    match Binder.declaratorNames? n with
    | none => { roles }
    | some names =>
      { outside := if Binder.isField around then [] else bindAll .variable (designated names)
        roles := childRoles n.kind around (some names.row) n.children }
  | .catchVariable => { outside := bindAll .variable (n.child? "name").toList }
  | .declarationExpression =>
    { outside := bindAll .variable ((n.child? "name").elim [] designated) }
  | .pattern => { roles := patternRoles n.kind n.children }
  | .queryClause =>
    { roles := clauseRoles {} n.children
      last := bindAll .rangeVariable (clauseVariable {} n.children).toList }
  | .plain => { roles }

/-! ## The walk -/

/-- One event of the walk. -/
inductive Event where
  /-- A name is declared in a scope. -/
  | declare (scope : ScopeId) (binding : Binding)
  /-- An identifier stands in reference position at a place. -/
  | refer (path : Path) (name : Node)

/-- The declarations of names in one scope. -/
def declareIn (scope : ScopeId) (bindings : List Binding) : List Event :=
  bindings.map (.declare scope)

/-- The innermost scope inside a node at `path`: its own if it opens one, else the one around it. -/
def scopeInside (kind : String) (path : Path) (scope : ScopeId) : ScopeId :=
  if (Construct.ofKind kind).opensScope then .node path else scope

mutual
/-- The events of the walk over a node at `path`, around which `scope` is the innermost scope and
`around` are the kinds of the nodes. -/
def events (shape : List String → Node → Shape) (scope : ScopeId) (path : Path)
    (around : List String) : Node → List Event
  | ⟨row, kind, field, marks, span, children⟩ =>
    let s := shape around ⟨row, kind, field, marks, span, children⟩
    let own := scopeInside kind path scope
    declareIn scope s.outside ++ declareIn own s.entry ++
      eventsAmong shape own path 0 (kind :: around) s.roles children ++ declareIn own s.last
/-- The events of the walk over the children of the node at `path` from index `k` on. -/
def eventsAmong (shape : List String → Node → Shape) (scope : ScopeId) (path : Path) (k : Nat)
    (around : List String) : List Role → List Node → List Event
  | role :: roles, n :: ns =>
    (match role with
     | .passed => []
     | .walked => events shape scope (k :: path) around n
     | .reference => [.refer (k :: path) n]
     | .designates bindings => declareIn scope bindings) ++
      eventsAmong shape scope path (k + 1) around roles ns
  | _, _ => []
end

/-- The events of the walk over a file, which is a scope of its own. -/
def walk (shape : List String → Node → Shape) (root : Node) : List Event :=
  events shape .file [] [] root

/-! ## Declarations and resolution -/

/-- A name declared in a scope. -/
structure Declaration where
  scope : ScopeId
  symbol : Symbol
deriving DecidableEq

/-- The symbol that a binding declares. -/
def Binding.symbol (source : Text) (b : Binding) : Symbol :=
  { offset := b.name.span.start, name := Identifier.bare (b.name.textString source)
    kind := b.kind }

/-- The declarations after one more event. The empty name and the discard `_` declare nothing, and
an identifier that is declared already is not declared again. -/
def declareNext (source : Text) (ds : List Declaration) : Event → List Declaration
  | .declare scope b =>
    let symbol := b.symbol source
    if symbol.name == "" || symbol.name == "_" || ds.any (·.symbol.offset == symbol.offset) then ds
    else ds ++ [{ scope, symbol }]
  | .refer _ _ => ds

/-- The declarations of a part of the walk, the most recent last. -/
def declarations (source : Text) (es : List Event) : List Declaration :=
  es.foldl (declareNext source) []

/-- The scopes around a position, the innermost first. -/
def enclosing (root : Node) : Path → List ScopeId
  | [] => [.file]
  | _ :: path =>
    if (root.at? path).any (fun n => (Construct.ofKind n.kind).opensScope) then
      .node path :: enclosing root path
    else enclosing root path

/-- A declaration is the most recent one of a name in a scope. -/
def Latest (ds : List Declaration) (scope : ScopeId) (name : String) (d : Declaration) : Prop :=
  d.scope = scope ∧ d.symbol.name = name ∧ ∃ earlier later, ds = earlier ++ d :: later ∧
    ∀ e ∈ later, ¬ (e.scope = scope ∧ e.symbol.name = name)

/-- A name resolves to the most recent declaration of it in the innermost of the scopes that has
one. -/
def Resolves (ds : List Declaration) (scopes : List ScopeId) (name : String) (d : Declaration) :
    Prop :=
  ∃ inner scope outer, scopes = inner ++ scope :: outer ∧ Latest ds scope name d ∧
    ∀ s ∈ inner, ∀ e ∈ ds, ¬ (e.scope = s ∧ e.symbol.name = name)

end Lexical
end ParamTwin
