import ParamTwin.Json.Fields

/-!
# YAML values

The values of a YAML document, with what their scalars mean: a scalar without quotes may be null, a
truth value or a number, and any scalar is a string.
-/

namespace ParamTwin

/-- A YAML value with its tag, if it has one. -/
inductive Yaml where
  /-- A scalar; `plain` tells that it is written without quotes and on no lines of its own. -/
  | scalar (tag : Option String) (plain : Bool) (text : String)
  | seq (tag : Option String) (items : List Yaml)
  | map (tag : Option String) (entries : List (Yaml × Yaml))
deriving Inhabited

namespace Yaml

/-- The plain scalar without characters, which stands where nothing is written. -/
def nothing : Yaml :=
  .scalar none true ""

/-- The ways to write null. -/
def nullWords : List String :=
  ["null", "Null", "NULL", "~"]

/-- The ways to write a truth value. -/
def flagWords : List (String × Bool) :=
  [("true", true), ("True", true), ("TRUE", true),
   ("false", false), ("False", false), ("FALSE", false)]

/-- The tag of null. -/
def nullTag : String := "tag:yaml.org,2002:null"

/-- The string of a scalar. -/
def text? : Yaml → Option String
  | .scalar _ _ text => some text
  | _ => none

/-- Whether a value is null: an empty or null word without quotes, if no tag says otherwise. -/
def isNull : Yaml → Bool
  | .scalar tag true text =>
    match tag with
    | none => text == "" || nullWords.contains text
    | some tag => tag == nullTag && nullWords.contains text
  | _ => false

/-- The truth value of a plain scalar. -/
def flag? : Yaml → Option Bool
  | .scalar _ true text => flagWords.lookup text
  | _ => none

/-! ## Counts -/

/-- The value of a digit below `base`. -/
def digit? (base : Nat) (c : Char) : Option Nat :=
  let value :=
    if '0' ≤ c && c ≤ '9' then some (c.toNat - '0'.toNat)
    else if 'a' ≤ c && c ≤ 'f' then some (c.toNat - 'a'.toNat + 10)
    else if 'A' ≤ c && c ≤ 'F' then some (c.toNat - 'A'.toNat + 10)
    else none
  value.filter (· < base)

/-- The number of a row of digits after those already read. -/
def digitsFrom? (base : Nat) : Nat → Text → Option Nat
  | n, [] => some n
  | n, c :: cs => do digitsFrom? base (base * n + (← digit? base c)) cs

/-- The count that a row of digits denotes; it has at least one digit and is within the limit. -/
def digits? (base : Nat) (t : Text) : Option Nat :=
  if t.isEmpty then none else (digitsFrom? base 0 t).filter (· < Json.countLimit)

/-- The count that a decimal denotes; it does not start with a zero unless it is one. -/
def decimal? : Text → Option Nat
  | '0' :: c :: cs => if (c :: cs).all Char.isDigit then none else digits? 10 ('0' :: c :: cs)
  | t => digits? 10 t

/-- The count that a text denotes after its sign: a decimal, or digits after a mark of their base.
-/
def unsigned? : Text → Option Nat
  | '0' :: 'x' :: t => digits? 16 t
  | '0' :: 'o' :: t => digits? 8 t
  | '0' :: 'b' :: t => digits? 2 t
  | t => decimal? t

/-- The count that a text denotes. -/
def number? : Text → Option Nat
  | '+' :: t => unsigned? t
  | t => unsigned? t

/-- The count of a plain scalar. -/
def count? : Yaml → Option Nat
  | .scalar _ true text => number? text.toList
  | _ => none

/-! ## Collections -/

/-- Whether nothing is written. -/
def isEmpty : Yaml → Bool
  | .scalar _ true text => text == ""
  | _ => false

/-- The items of a sequence; nothing written is no items. -/
def items? (y : Yaml) : Option (List Yaml) :=
  match y with
  | .seq _ items => some items
  | _ => if y.isEmpty then some [] else none

/-- The name of an alternative: a scalar, or a tag on null. -/
def choice? : Yaml → Option String
  | .scalar none _ text => some text
  | .scalar (some tag) plain text =>
    match tag.toList with
    | '!' :: name =>
      if plain && (text == "" || nullWords.contains text) then some (String.ofList name) else none
    | _ => some text
  | _ => none

/-- The entries of a mapping by their keys. -/
def keyed? (entries : List (Yaml × Yaml)) : Option (List (String × Yaml)) :=
  entries.mapM fun (k, v) => do return (← k.text?, v)

/-- The fields of a record by name; nothing written is a record without fields. -/
def fields (names : List String) (y : Yaml) : Option (String → Option Yaml) :=
  match y with
  | .map _ entries => do
    let entries ← keyed? entries
    if names.any fun n => 1 < (entries.filter fun e => e.1 == n).length then none
    else return (entries.lookup ·)
  | _ => if y.isEmpty then some fun _ => none else none

end Yaml
end ParamTwin
