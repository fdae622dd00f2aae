import ParamTwin.Json.Value

/-!
# Records in JSON

A record is an object with a member for each field, in any order and beside members that are not
asked for, or an array of its first fields in order. A field that is given twice is an error.
-/

namespace ParamTwin.Json

/-- Whether some name has more than one member. -/
def hasRepeated (names : List String) (members : List (String × Json)) : Bool :=
  names.any fun name => 1 < (members.filter fun m => m.1 == name).length

/-- The fields of a record by name. A member counts for the field that `canonical` gives for its
key. -/
def fieldsBy (canonical : String → String) (names : List String) :
    Json → Option (String → Option Json)
  | .obj members =>
    let members := members.map fun (k, v) => (canonical k, v)
    if hasRepeated names members then none else some (members.lookup ·)
  | .arr items => if items.length ≤ names.length then some ((names.zip items).lookup ·) else none
  | _ => none

/-- The fields of a record by name. -/
def fields (names : List String) : Json → Option (String → Option Json) :=
  fieldsBy id names

/-- A string. -/
def text? : Json → Option String
  | .str s => some s
  | _ => none

/-- The numbers from here on are too large for a count. -/
def countLimit : Nat := Nat.pow 2 64

/-- A whole number that is not negative and below the limit. -/
def count? : Json → Option Nat
  | .num n => if n.whole && !n.negative && n.digits < countLimit then some n.digits else none
  | _ => none

/-- A truth value. -/
def flag? : Json → Option Bool
  | .bool b => some b
  | _ => none

/-- The items of an array. -/
def items? : Json → Option (List Json)
  | .arr items => some items
  | _ => none

/-- The name of an alternative: a string, or an object with null under that name. -/
def choice? : Json → Option String
  | .str s => some s
  | .obj [(k, .null)] => some k
  | _ => none

/-- Whether a value is null. -/
def isNull : Json → Bool
  | .null => true
  | _ => false

end ParamTwin.Json
