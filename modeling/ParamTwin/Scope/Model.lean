import ParamTwin.Scope.Binder
import ParamTwin.TypeName

/-!
# The scope model of a file

What the walk over a file found: its symbols and the symbols of its resolved identifiers, with the
questions that the other modules ask of it.
-/

namespace ParamTwin

/-- The declared names of a file and what its identifiers refer to. -/
structure Model where
  source : Text
  symbols : List Symbol
  /-- The offsets of the resolved identifiers with their symbols, the latest first. -/
  references : List (Nat × Nat)
deriving Inhabited

namespace Model

/-- The model of a parsed file. -/
def build (source : Text) (root : Node) : Model :=
  let b := Binder.run source root
  { source := source, symbols := b.symbols, references := b.references }

/-- The symbol declared at an offset. -/
def symbol? (m : Model) (offset : Nat) : Option Symbol :=
  m.symbols.find? (·.offset == offset)

/-- The symbols ordered by the place of their declaration. -/
def symbolsInOrder (m : Model) : List Symbol :=
  m.symbols.mergeSort fun a b => a.offset ≤ b.offset

/-- The offsets of the identifiers that refer to a symbol, in ascending order. -/
def referencesTo (m : Model) (offset : Nat) : List Nat :=
  let all := (m.references.map (·.1)).eraseDups
  let offsets := all.filter fun o => m.references.lookup o == some offset
  offsets.mergeSort fun a b => a ≤ b

/-- The identifier under which a node declares a symbol: itself, the loop variable of a loop, or its
name. -/
def nameNode? (binder : Node) : Option Node :=
  if Kind.isDeclaringName binder.kind then some binder
  else if binder.kind == "foreach_statement" then binder.child? "left"
  else binder.child? "name"

/-- The symbol that a node declares. -/
def declared? (m : Model) (binder : Node) : Option Nat := do
  let name ← nameNode? binder
  let symbol ← m.symbol? name.span.start
  return symbol.offset

/-- The symbol that an identifier refers to. -/
def reference? (m : Model) (n : Node) : Option Nat :=
  if n.kind == "identifier" then m.references.lookup n.span.start else none

/-- The canonical name of a type, none if the parser found an error in it. -/
def typeName? (m : Model) (n : Node) : Option String :=
  if n.marks.error || n.marks.missing || n.marks.hasError then none
  else TypeName.canonical (n.text m.source)

end Model
end ParamTwin
