import ParamTwin.Decimal.Number

/-!
# JSON values

Values with objects as lists of members in the order of the document, so that a repeated key can be
noticed. `Json.compact` and `Json.prettyAt` write them: the first on one line without blanks, the
second with two blanks of indentation for each level.
-/

namespace ParamTwin

/-- A JSON value. -/
inductive Json where
  | null
  | bool (b : Bool)
  | num (n : Number)
  | str (s : String)
  | arr (items : List Json)
  | obj (members : List (String × Json))
  /-- A value that can be passed over but not read: a string that names half of a pair of
  surrogates, or an object with such a key. -/
  | unreadable
deriving Inhabited

namespace Json

/-- A natural number. -/
def nat (n : Nat) : Json :=
  .num (.ofNat n)

/-- A string, or null for none. -/
def optStr : Option String → Json
  | none => .null
  | some s => .str s

/-- The value of the last member with the given key. -/
def get? (key : String) : Json → Option Json
  | .obj members => members.reverse.lookup key
  | _ => none

/-! ## Writing -/

/-- A hexadecimal digit in lower case. -/
def hexDigit (n : Nat) : Char :=
  Nat.digitChar n

/-- A character inside a quoted string: quotes, backslashes and control characters are escaped. -/
def escapeChar (c : Char) : Text :=
  if c = '"' then ['\\', '"']
  else if c = '\\' then ['\\', '\\']
  else if c = '\n' then ['\\', 'n']
  else if c = '\r' then ['\\', 'r']
  else if c = '\t' then ['\\', 't']
  else if c.toNat = 8 then ['\\', 'b']
  else if c.toNat = 12 then ['\\', 'f']
  else if c.toNat < 32 then
    ['\\', 'u', '0', '0', hexDigit (c.toNat / 16), hexDigit (c.toNat % 16)]
  else [c]

/-- A quoted string. -/
def quote (s : String) : Text :=
  '"' :: s.toList.flatMap escapeChar ++ ['"']

/-- The shortest text of a value that cannot be read. -/
def unreadableText : Text :=
  ['"', '\\', 'u', 'd', '8', '0', '0', '"']

mutual
/-- A value on one line. -/
def compact : Json → Text
  | .null => "null".toList
  | .bool b => (if b then "true" else "false").toList
  | .num n => n.text
  | .str s => quote s
  | .arr items => '[' :: compactItems items ++ [']']
  | .obj members => '{' :: compactMembers members ++ ['}']
  | .unreadable => unreadableText
/-- The items of an array, with commas between them. -/
def compactItems : List Json → Text
  | [] => []
  | [v] => v.compact
  | v :: vs => v.compact ++ ',' :: compactItems vs
/-- The members of an object, with commas between them. -/
def compactMembers : List (String × Json) → Text
  | [] => []
  | [(k, v)] => quote k ++ ':' :: v.compact
  | (k, v) :: ms => quote k ++ ':' :: v.compact ++ ',' :: compactMembers ms
end

/-- A line feed and two blanks for each level. -/
def newline (level : Nat) : Text :=
  '\n' :: List.replicate (2 * level) ' '

mutual
/-- A value over several lines, starting at the given level. -/
def prettyAt (level : Nat) : Json → Text
  | .null => "null".toList
  | .bool b => (if b then "true" else "false").toList
  | .num n => n.text
  | .str s => quote s
  | .arr [] => ['[', ']']
  | .arr (v :: vs) => '[' :: prettyItems (level + 1) (v :: vs) ++ newline level ++ [']']
  | .obj [] => ['{', '}']
  | .obj (m :: ms) => '{' :: prettyMembers (level + 1) (m :: ms) ++ newline level ++ ['}']
  | .unreadable => unreadableText
/-- The items of an array, each on a line of its own. -/
def prettyItems (level : Nat) : List Json → Text
  | [] => []
  | [v] => newline level ++ v.prettyAt level
  | v :: vs => newline level ++ v.prettyAt level ++ ',' :: prettyItems level vs
/-- The members of an object, each on a line of its own. -/
def prettyMembers (level : Nat) : List (String × Json) → Text
  | [] => []
  | [(k, v)] => newline level ++ quote k ++ ':' :: ' ' :: v.prettyAt level
  | (k, v) :: ms =>
    newline level ++ quote k ++ ':' :: ' ' :: v.prettyAt level ++ ',' :: prettyMembers level ms
end

end Json
end ParamTwin
