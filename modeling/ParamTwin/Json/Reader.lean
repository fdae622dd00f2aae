import ParamTwin.Json.Value

/-!
# Reading JSON

`Json.read?` reads one value that fills a text up to blanks. Each reader takes the text and gives
back what it read with the remaining text. A string that names half of a pair of surrogates denotes
no text, but it is only an error where its text is asked for: it reads as `Json.unreadable`, and so
does an object with such a key.
-/

namespace ParamTwin.Json

/-- The text after leading blanks. -/
def skipBlanks (t : Text) : Text :=
  t.dropWhile fun c => c = ' ' || c = '\n' || c = '\r' || c = '\t'

/-! ## Strings -/

/-- The value of a hexadecimal digit in either case. -/
def hexValue? (c : Char) : Option Nat :=
  if '0' ≤ c ∧ c ≤ '9' then some (c.toNat - '0'.toNat)
  else if 'a' ≤ c ∧ c ≤ 'f' then some (c.toNat - 'a'.toNat + 10)
  else if 'A' ≤ c ∧ c ≤ 'F' then some (c.toNat - 'A'.toNat + 10)
  else none

/-- The code unit that four hexadecimal digits denote. -/
def unit? (a b c d : Char) : Option Nat := do
  let a ← hexValue? a
  let b ← hexValue? b
  let c ← hexValue? c
  let d ← hexValue? d
  return ((a * 16 + b) * 16 + c) * 16 + d

/-- The character that a letter after a backslash stands for. -/
def escaped? (c : Char) : Option Char :=
  match c with
  | '"' => some '"'
  | '\\' => some '\\'
  | '/' => some '/'
  | 'b' => some (Char.ofNat 8)
  | 'f' => some (Char.ofNat 12)
  | 'n' => some '\n'
  | 'r' => some '\r'
  | 't' => some '\t'
  | _ => none

/-- The character of a high and a low surrogate. -/
def ofSurrogates (high low : Nat) : Char :=
  Char.ofNat (0x10000 + (high - 0xD800) * 0x400 + (low - 0xDC00))

/-- What is read of a string after one more character. -/
def withChar (c : Char) : Option Text × Text → Option Text × Text
  | (s, rest) => (s.map (c :: ·), rest)

/-- What is read of a string after half of a pair of surrogates. -/
def withHalf : Option Text × Text → Option Text × Text
  | (_, rest) => (none, rest)

/-- The rest of a string after its opening quote, none if it denotes no text, and the text after its
closing quote. -/
def readChars : Text → Option (Option Text × Text)
  | [] => none
  | '"' :: cs => some (some [], cs)
  | '\\' :: 'u' :: a :: b :: c :: d :: cs =>
    match unit? a b c d with
    | none => none
    | some u =>
      if 0xD800 ≤ u ∧ u < 0xDC00 then
        match cs with
        | '\\' :: 'u' :: e :: f :: g :: h :: cs' =>
          match unit? e f g h with
          | none => none
          | some v =>
            if 0xDC00 ≤ v ∧ v < 0xE000 then (readChars cs').map (withChar (ofSurrogates u v))
            else (readChars ('\\' :: 'u' :: e :: f :: g :: h :: cs')).map withHalf
        | cs => (readChars cs).map withHalf
      else if 0xDC00 ≤ u ∧ u < 0xE000 then (readChars cs).map withHalf
      else (readChars cs).map (withChar (Char.ofNat u))
  | '\\' :: e :: cs =>
    match escaped? e with
    | none => none
    | some x => (readChars cs).map (withChar x)
  | c :: cs => if c.toNat < 32 then none else (readChars cs).map (withChar c)

/-- A quoted string at the start of a text, none if it denotes no text. -/
def readString : Text → Option (Option String × Text)
  | '"' :: cs => (readChars cs).map fun (s, rest) => (s.map String.ofList, rest)
  | _ => none

/-! ## Numbers -/

/-- The run of decimal digits at the start of a text, and the rest. -/
def spanDigits (t : Text) : Text × Text :=
  t.span Char.isDigit

/-- The digits of an exponent after its mark and sign. -/
def readExponent (cs : Text) : Option (Int × Text) :=
  let (negative, rest) :=
    match cs with
    | '-' :: rest => (true, rest)
    | '+' :: rest => (false, rest)
    | _ => (false, cs)
  let (ds, rest) := spanDigits rest
  if ds.isEmpty then none
  else
    let e : Int := Number.ofDigits ds
    some (if negative then -e else e, rest)

/-- The exponent at the start of a text, if one stands there. -/
def readOptExponent (cs : Text) : Option (Option Int × Text) :=
  match cs with
  | c :: rest =>
    if c = 'e' ∨ c = 'E' then (readExponent rest).map fun (e, rest) => (some e, rest)
    else some (none, cs)
  | [] => some (none, [])

/-- The digits after a point at the start of a text, if one stands there. -/
def readOptFraction (cs : Text) : Option (Option Text × Text) :=
  match cs with
  | '.' :: rest =>
    let (ds, rest) := spanDigits rest
    if ds.isEmpty then none else some (some ds, rest)
  | _ => some (none, cs)

/-- A number at the start of a text. A leading zero stands alone before the point. -/
def readNumber (t : Text) : Option (Number × Text) := do
  let (negative, cs) :=
    match t with
    | '-' :: cs => (true, cs)
    | _ => (false, t)
  let (ds, cs) := spanDigits cs
  if ds.isEmpty || (ds.length > 1 && ds.head? = some '0') then none
  else do
    let (fraction, cs) ← readOptFraction cs
    let (exponent, cs) ← readOptExponent cs
    let fractionDigits := fraction.getD []
    return ({ negative := negative
              digits := Number.ofDigits (ds ++ fractionDigits)
              exponent := exponent.getD 0 - fractionDigits.length
              whole := fraction.isNone && exponent.isNone }, cs)

/-! ## Values -/

/-- A string as a value. -/
def ofText : Option Text → Json
  | some s => .str (String.ofList s)
  | none => .unreadable

/-- The members of an object after one more, none if some key denotes no text. -/
def withMember (k : Option String) (v : Json) (ms : Option (List (String × Json))) :
    Option (List (String × Json)) := do
  return (← k, v) :: (← ms)

/-- An object as a value. -/
def ofMembers : Option (List (String × Json)) → Json
  | some ms => .obj ms
  | none => .unreadable

mutual
/-- A value at the start of a text. -/
def readValue : Nat → Text → Option (Json × Text)
  | 0, _ => none
  | fuel + 1, t =>
    match skipBlanks t with
    | 'n' :: 'u' :: 'l' :: 'l' :: cs => some (.null, cs)
    | 't' :: 'r' :: 'u' :: 'e' :: cs => some (.bool true, cs)
    | 'f' :: 'a' :: 'l' :: 's' :: 'e' :: cs => some (.bool false, cs)
    | '"' :: cs => (readChars cs).map fun (s, rest) => (ofText s, rest)
    | '[' :: cs =>
      match skipBlanks cs with
      | ']' :: cs => some (.arr [], cs)
      | cs => (readItems fuel cs).map fun (vs, rest) => (.arr vs, rest)
    | '{' :: cs =>
      match skipBlanks cs with
      | '}' :: cs => some (.obj [], cs)
      | cs => (readMembers fuel cs).map fun (ms, rest) => (ofMembers ms, rest)
    | cs => (readNumber cs).map fun (n, rest) => (.num n, rest)
/-- The items of an array up to its closing bracket. -/
def readItems : Nat → Text → Option (List Json × Text)
  | 0, _ => none
  | fuel + 1, t =>
    match readValue fuel t with
    | none => none
    | some (v, rest) =>
      match skipBlanks rest with
      | ',' :: cs => (readItems fuel cs).map fun (vs, rest) => (v :: vs, rest)
      | ']' :: cs => some ([v], cs)
      | _ => none
/-- The members of an object up to its closing brace, none if some key denotes no text. -/
def readMembers : Nat → Text → Option (Option (List (String × Json)) × Text)
  | 0, _ => none
  | fuel + 1, t =>
    match readString (skipBlanks t) with
    | none => none
    | some (k, rest) =>
      match skipBlanks rest with
      | ':' :: cs =>
        match readValue fuel cs with
        | none => none
        | some (v, rest) =>
          match skipBlanks rest with
          | ',' :: cs => (readMembers fuel cs).map fun (ms, rest) => (withMember k v ms, rest)
          | '}' :: cs => some (withMember k v (some []), cs)
          | _ => none
      | _ => none
end

/-- The value that a text holds; nothing but blanks may stand around it. -/
def read? (t : Text) : Option Json := do
  let (v, rest) ← readValue (2 * t.length + 2) t
  if (skipBlanks rest).isEmpty then return v else none

end ParamTwin.Json
