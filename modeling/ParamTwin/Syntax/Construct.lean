/-!
# Kinds of nodes

The node kinds of the C# grammar that matter for scopes, statements and references, sorted into the
constructs that the analysis tells apart.
-/

namespace ParamTwin

/-- What a node is to the scope analysis. -/
inductive Construct where
  /-- Holds no reference to a local name. -/
  | skipped
  /-- Declares a procedure with a parameter list of its own. -/
  | procedure
  /-- Declares a procedure inside another one and its name in the enclosing scope. -/
  | localFunction
  /-- Opens a scope and binds nothing by itself. -/
  | scope
  /-- A lambda expression or an anonymous method. -/
  | lambda
  /-- A loop with variables of its own over a collection. -/
  | foreachLoop
  /-- One variable of a variable declaration. -/
  | declarator
  /-- The variable of a catch clause. -/
  | catchVariable
  /-- A variable declared inside an expression. -/
  | declarationExpression
  /-- A pattern that may bind variables. -/
  | pattern
  /-- A clause of a query that may bind a range variable. -/
  | queryClause
  /-- Anything else. -/
  | plain
deriving Repr, DecidableEq, Inhabited

namespace Construct

/-- Declarations with a parameter list of their own. -/
def procedureKinds : List String :=
  ["method_declaration", "constructor_declaration", "destructor_declaration",
   "operator_declaration", "conversion_operator_declaration", "indexer_declaration",
   "delegate_declaration"]

/-- Constructs that open a scope without binding anything themselves. -/
def scopeKinds : List String :=
  ["block", "switch_body", "for_statement", "using_statement", "fixed_statement", "catch_clause",
   "query_expression", "accessor_declaration"]

/-- Subtrees that never contain local references. -/
def skippedKinds : List String :=
  ["attribute_list", "type_parameter_list", "type_parameter_constraints_clause", "comment"]

/-- Query clauses that may bind a range variable. -/
def queryClauseKinds : List String :=
  ["from_clause", "let_clause", "join_clause", "join_into_clause", "query_continuation"]

/-- The construct of a node kind. -/
def ofKind (kind : String) : Construct :=
  if skippedKinds.contains kind then .skipped
  else if procedureKinds.contains kind then .procedure
  else if kind == "local_function_statement" then .localFunction
  else if scopeKinds.contains kind then .scope
  else if kind == "lambda_expression" || kind == "anonymous_method_expression" then .lambda
  else if kind == "foreach_statement" then .foreachLoop
  else if kind == "variable_declarator" then .declarator
  else if kind == "catch_declaration" then .catchVariable
  else if kind == "declaration_expression" then .declarationExpression
  else if ["declaration_pattern", "var_pattern", "recursive_pattern"].contains kind then .pattern
  else if queryClauseKinds.contains kind then .queryClause
  else .plain

end Construct

namespace Kind

/-- Whether a node kind is a statement, a nested block included. -/
def isStatement (kind : String) : Bool :=
  kind == "block" ||
    ("_statement".toList.isSuffixOf kind.toList && kind != "global_statement")

/-- Whether the direct children of a node are statements that stand in sequence. -/
def holdsStatements (kind : String) : Bool :=
  kind == "block" || kind == "switch_section"

/-- Whether a node is a name that can declare something. -/
def isDeclaringName (kind : String) : Bool :=
  kind == "identifier" || kind == "implicit_parameter"

/-- Parents whose direct identifier children name types, members or labels. -/
def nonReferenceParents : List String :=
  ["qualified_name", "alias_qualified_name", "generic_name", "type_argument_list",
   "type_parameter", "type_parameter_list", "type_parameter_constraint",
   "type_parameter_constraints_clause", "array_type", "nullable_type", "pointer_type", "ref_type",
   "scoped_type", "tuple_element", "parameter_list", "bracketed_parameter_list", "attribute",
   "attribute_list", "labeled_statement", "goto_statement", "using_directive",
   "extern_alias_directive", "base_list", "explicit_interface_specifier",
   "enum_member_declaration", "name_colon", "name_equals"]

/-- Owners of an initializer whose assignments name members of the created object. -/
def initializerOwners : List String :=
  ["object_creation_expression", "implicit_object_creation_expression", "assignment_expression",
   "with_expression"]

/-- Whether an assignment, given the kinds around it from the inside out, names a member of an
object under construction on its left side. -/
def isInitializerTarget (around : List String) : Bool :=
  match around with
  | parent :: owner :: _ => parent == "initializer_expression" && initializerOwners.contains owner
  | _ => false

/-- Whether an identifier is a reference in expression position. `parent` is the kind of its parent,
`around` the kinds of the nodes around the parent from the inside out, `field` the field of the
identifier and `next` the kind of the sibling after it. -/
def isReferencePosition (parent : String) (around : List String) (field next : Option String) :
    Bool :=
  if field == some "name" || field == some "type" || field == some "returns" then false
  else if nonReferenceParents.contains parent then false
  else if (parent == "as_expression" || parent == "is_expression") && field == some "right" then
    false
  else if parent == "assignment_expression" && field == some "left" then
    !isInitializerTarget around
  else if ["anonymous_object_creation_expression", "with_initializer", "subpattern"].contains
      parent then
    !(next == some "=" || next == some ":")
  else true

end Kind
end ParamTwin
