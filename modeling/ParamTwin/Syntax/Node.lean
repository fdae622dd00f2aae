import ParamTwin.Text.Basic

/-!
# Syntax trees

The concrete syntax tree of a source text, with anonymous tokens included. A node knows its kind,
the field under which it hangs in its parent, its byte span and its children; `row` is its position
in the pre-order listing and tells nodes apart.

`Node.ofRows` builds the tree from that listing, in which each row gives the depth of its node.
-/

namespace ParamTwin

/-- What the parser says about a node besides its kind. -/
structure Marks where
  /-- The node has a name in the grammar, so it is no mere token. -/
  named : Bool
  /-- The parser inserted the node to recover from an error. -/
  missing : Bool
  /-- The node covers text that the parser could not read. -/
  error : Bool
  /-- An error lies in the node or below it. -/
  hasError : Bool
deriving Repr, DecidableEq, Inhabited

/-- A node of the syntax tree. -/
structure Node where
  row : Nat
  kind : String
  field : Option String
  marks : Marks
  span : Span
  children : List Node
deriving Inhabited

namespace Node

/-- The children that have a name in the grammar. -/
def namedChildren (n : Node) : List Node :=
  n.children.filter (·.marks.named)

/-- The first child under the given field. -/
def child? (n : Node) (field : String) : Option Node :=
  n.children.find? (·.field == some field)

/-- The text that the node covers, empty if its span does not cut the source. -/
def text (source : Text) (n : Node) : Text :=
  (source.at? n.span).getD []

/-- The text that the node covers, as a string. -/
def textString (source : Text) (n : Node) : String :=
  String.ofList (n.text source)

mutual
/-- The node and its descendants in document order. -/
def preorder : Node → List Node
  | ⟨row, kind, field, marks, span, children⟩ =>
    ⟨row, kind, field, marks, span, children⟩ :: preorderAll children
/-- The nodes of a list and their descendants in document order. -/
def preorderAll : List Node → List Node
  | [] => []
  | n :: ns => n.preorder ++ preorderAll ns
end

/-! ## Literals -/

/-- The kinds of the string literals that may span lines. -/
def longLiteralKinds : List String :=
  ["verbatim_string_literal", "raw_string_literal", "interpolated_string_expression"]

/-- Whether a node starts and ends on different lines. -/
def spansLines (source : Text) (n : Node) : Bool :=
  source.row n.span.start != source.row n.span.stop

/-- The spans of the string literals over several lines. -/
def longLiterals (source : Text) (root : Node) : List Span :=
  (root.preorder.filter fun n => longLiteralKinds.contains n.kind && n.spansLines source).map
    (·.span)

/-! ## Building a tree from its listing -/

/-- One row of the pre-order listing of a tree. -/
structure Row where
  depth : Nat
  kind : String
  field : Option String
  marks : Marks
  span : Span
deriving Repr, Inhabited

/-- Adds a node in front of the finished subtrees of which some are its children: those that follow
directly and lie one level deeper. -/
def adopt (row : Nat) (r : Row) (later : List (Nat × Node)) : List (Nat × Node) :=
  let mine := later.takeWhile fun (depth, _) => r.depth < depth
  let node : Node :=
    { row := row, kind := r.kind, field := r.field, marks := r.marks, span := r.span,
      children := mine.map (·.2) }
  (r.depth, node) :: later.drop mine.length

/-- The trees of a listing, each with the depth of its root, the first row counted as `row`. -/
def forest : Nat → List Row → List (Nat × Node)
  | _, [] => []
  | row, r :: rs => adopt row r (forest (row + 1) rs)

/-- The node of a text without syntax. -/
def empty : Node :=
  { row := 0, kind := "compilation_unit", field := none,
    marks := { named := true, missing := false, error := false, hasError := false },
    span := { start := 0, stop := 0 }, children := [] }

/-- The tree of a listing whose first row is the root. -/
def ofRows (rows : List Row) : Node :=
  match forest 0 rows with
  | (_, root) :: _ => root
  | [] => empty

end Node
end ParamTwin
