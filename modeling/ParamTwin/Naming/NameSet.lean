import ParamTwin.Naming.Identifier

/-!
# Sets of bound names

The names bound in the scope of one procedure. Names are compared without a leading `@`.
-/

namespace ParamTwin

/-- A finite set of names. -/
structure NameSet where
  /-- The names without their leading `@`, the latest first, each once. -/
  names : List String
deriving Repr, DecidableEq, Inhabited

namespace NameSet

/-- The set without names. -/
def empty : NameSet :=
  { names := [] }

/-- Whether a name is bound. -/
def contains (s : NameSet) (name : String) : Bool :=
  s.names.contains (Identifier.bare name)

/-- The set with one more name. -/
def insert (s : NameSet) (name : String) : NameSet :=
  if s.contains name then s else { names := Identifier.bare name :: s.names }

/-- The set of the names of a list. -/
def ofList (names : List String) : NameSet :=
  names.foldl insert empty

/-- The number of names. -/
def size (s : NameSet) : Nat :=
  s.names.length

/-- The names in ascending order. -/
def sorted (s : NameSet) : List String :=
  s.names.mergeSort fun a b => decide (a ≤ b)

end NameSet
end ParamTwin
