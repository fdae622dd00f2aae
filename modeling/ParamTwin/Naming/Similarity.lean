import ParamTwin.Index.Embedder
import ParamTwin.Index.Record
import ParamTwin.Naming.Suggester

/-!
# Naming by similarity

The suggester that proposes the names of the parameters whose contexts are nearest in an index. If
the context cannot be embedded or the index cannot be asked, it proposes nothing.
-/

namespace ParamTwin

/-- What answers for a vector, a count and a type with the best hits. -/
abbrev Lookup := Embedding → Nat → String → Except Error (List Hit)

namespace Similarity

/-- Whether a character is a quote. -/
def isQuote (c : Char) : Bool :=
  c = '"' || c = '\''

/-- A name without blanks around it, and then without quotes around it. -/
def unquoted (name : String) : String :=
  let t := (Text.trim name.toList).dropWhile isQuote
  String.ofList (t.reverse.dropWhile isQuote).reverse

/-- The names of a list that are new: neither in it before nor among those already seen. -/
def distinct (seen : List String) : List String → List String
  | [] => []
  | n :: ns => if seen.contains n then distinct seen ns else n :: distinct (n :: seen) ns

/-- The first `count` different names that are left without their quotes, not empty and not bound.
-/
def clean (names : List String) (bound : NameSet) (count : Nat) : List String :=
  (distinct [] ((names.map unquoted).filter fun n => n != "" && !bound.contains n)).take count

/-- The proposals for a context, or why there are none. -/
def propose (embedder : Embedder) (lookup : Lookup) (context : NamingContext) (typeName : String)
    (bound : NameSet) (count : Nat) : Except Error (List String) :=
  if count = 0 then .ok []
  else do
    let vector ← embedder.embedOne context.describe
    let hits ← lookup vector count typeName
    return clean (hits.map (·.name)) bound count

end Similarity

/-- The suggester that proposes names found in an index. -/
def Suggester.similarity (embedder : Embedder) (lookup : Lookup) : Suggester where
  name := "similarity-based"
  suggest _ context typeName bound count :=
    match Similarity.propose embedder lookup context typeName bound count with
    | .ok names => names
    | .error _ => []

end ParamTwin
