import ParamTwin.Syntax.Node

/-!
# Parameters

The parameters of a parameter list. A `params` array has no node of its own around it, so parameters
are the groups of nodes between the commas of the list: a group that is one `parameter` node, or
else a run of nodes whose last identifier is the name.
-/

namespace ParamTwin

/-- One parameter of a procedure. -/
structure Parameter where
  /-- The name as written. -/
  name : String
  /-- The identifier that carries the name. -/
  nameNode : Node
  /-- The declared type, absent for a parameter without one. -/
  typeNode : Option Node
  /-- The node that declares the parameter. -/
  binder : Node
  /-- The whole parameter with attributes, modifiers and default value. -/
  span : Span
  /-- The position in the list, from zero. -/
  position : Nat
deriving Inhabited

namespace Parameter

/-- Whether a node of the list belongs to no parameter. -/
def isPunctuation (kind : String) : Bool :=
  kind == "(" || kind == ")" || kind == "[" || kind == "]" || kind == "comment"

/-- The nodes of a parameter list in groups between its commas, brackets and comments left out. -/
def groups : List Node → List (List Node)
  | [] => [[]]
  | n :: ns =>
    match groups ns with
    | [] => [[n]]
    | g :: gs =>
      if n.kind == "," then [] :: g :: gs
      else if isPunctuation n.kind then g :: gs
      else (n :: g) :: gs

/-- The parameter of a group that is one `parameter` node. -/
def ofNode? (source : Text) (n : Node) : Option Parameter :=
  (n.child? "name").map fun name =>
    { name := name.textString source, nameNode := name, typeNode := n.child? "type", binder := n,
      span := n.span, position := 0 }

/-- The parameter of a group of several nodes, from its first to its last one. -/
def ofNodes? (source : Text) (first last : Node) (group : List Node) : Option Parameter :=
  (group.reverse.find? (·.kind == "identifier")).map fun name =>
    { name := name.textString source, nameNode := name
      typeNode := group.find? fun n =>
        n.marks.named && n.kind != "attribute_list" && n.row != name.row
      binder := name, span := { start := first.span.start, stop := last.span.stop },
      position := 0 }

/-- The parameter that a group of nodes declares, if it has a name. -/
def ofGroup? (source : Text) (group : List Node) : Option Parameter :=
  match group with
  | [] => none
  | [n] => if n.kind == "parameter" then ofNode? source n else ofNodes? source n n [n]
  | first :: rest => ofNodes? source first (rest.getLastD first) (first :: rest)

/-- The parameters of a parameter list in order. -/
def collect (source : Text) (list : Node) : List Parameter :=
  ((groups list.children).filterMap (ofGroup? source)).zipIdx.map fun (p, i) =>
    { p with position := i }

end Parameter
end ParamTwin
