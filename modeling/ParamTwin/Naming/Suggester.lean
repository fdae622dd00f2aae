import ParamTwin.Naming.Candidates
import ParamTwin.Text.Blank

/-!
# Suggesting names

A suggester proposes names for the second parameter of a procedure. `Suggester.best` takes the first
proposal that is an identifier and not bound, and otherwise falls back on a name that is free, so it
always gives a usable name whatever the suggester proposes.
-/

namespace ParamTwin

/-- What is known about the parameter to be named. -/
structure NamingContext where
  /-- The name of the procedure. -/
  procedure : String
  /-- The canonical type of the parameter, `object` if it has none. -/
  typeName : String
  /-- The documentation summary of the procedure, or empty. -/
  summary : String
deriving Repr, DecidableEq, Inhabited

namespace NamingContext

/-- The type shown for a parameter whose type is unknown. -/
def unknownType : String := "object"

/-- A context as the text under which similar parameters are found. -/
def describe (c : NamingContext) : String :=
  "Method description: " ++ c.summary ++ "\nType: " ++ c.typeName ++ " in method " ++ c.procedure

end NamingContext

/-- A strategy that proposes up to `count` names for a parameter, best first. -/
structure Suggester where
  name : String
  /-- The proposals for a parameter name in a context, of a type, beside bound names, and how many
  are asked for. -/
  suggest : String → NamingContext → String → NameSet → Nat → List String

namespace Suggester

/-- The name taken when no proposal is usable. -/
def fallback : String := "param"

/-- The fallback name, or a free variant of it. -/
def fallbackName (bound : NameSet) : String :=
  if bound.contains fallback then Candidates.firstFree fallback bound else fallback

/-- Whether a proposal can be taken. -/
def isUsable (bound : NameSet) (name : String) : Bool :=
  Identifier.isValid name && !bound.contains name

/-- The first usable one of up to `count` proposals, and at least one is asked for; the fallback if
there is none. A blank parameter name counts as the fallback name. -/
def best (s : Suggester) (name : String) (context : NamingContext) (typeName : String)
    (bound : NameSet) (count : Nat) : String :=
  let name := if Text.isBlankString name then fallback else name
  ((s.suggest name context typeName bound (max count 1)).find? (isUsable bound)).getD
    (fallbackName bound)

/-- The suggester that proposes the free candidates of the suffix sequence. -/
def deterministic : Suggester where
  name := "deterministic"
  suggest name _ _ bound count := Candidates.free name bound count

end Suggester
end ParamTwin
