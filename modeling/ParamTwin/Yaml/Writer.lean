import ParamTwin.Json.Value
import ParamTwin.Yaml.Scalar

/-!
# Writing YAML documents

A value as a block: an entry a line, nested mappings indented by two blanks, the items of a sequence
not further than its key. A string is written without quotes where that reads back as the same
string, and else with the least quoting that does.
-/

namespace ParamTwin.Yaml

/-! ## Kinds of strings -/

/-- The words in lower case that would not read as strings, or not to every reader. -/
def ambiguousWords : List String :=
  ["true", "false", "null", "~", "y", "yes", "n", "no", "on", "off"]

/-- Whether a string could be taken for something else. -/
def isAmbiguous (t : Text) : Bool :=
  match t with
  | [] => true
  | c :: _ =>
    c.isDigit || c = '-' || c = '.' || c = '+' ||
      ambiguousWords.contains (String.ofList (Text.lower t))

/-- Whether a character is written as it is. -/
def isPrintable (c : Char) : Bool :=
  let n := c.toNat
  n = 10 || (32 ≤ n && n ≤ 126) || (0xA0 ≤ n && n ≤ 0xFFFD && n ≠ 0xFEFF)

/-- Whether a character ends a line in a written document. -/
def endsLine (c : Char) : Bool :=
  isBreak c || c = '\r' || c.toNat = 0x85

/-- Whether a text is at its end, at a line end or at a blank. -/
def isSpaced : Text → Bool
  | [] => true
  | c :: _ => isBlank c || endsLine c

/-- Whether a plain scalar cannot start with a character that is followed by a text. -/
def isMark (c : Char) (cs : Text) : Bool :=
  isFlowMark c || "#&*!|>'\"%@".toList.contains c || c.toNat = 96 ||
    ((c = '?' || c = ':' || c = '-') && isSpaced cs)

/-- Whether a colon or a number sign would end a plain scalar, given the character before. -/
def hasMark : Char → Text → Bool
  | _, [] => false
  | before, c :: cs =>
    (c = ':' && isSpaced cs) || (c = '#' && isSpaced [before]) || hasMark c cs

/-- Whether two characters that satisfy the given conditions follow each other. -/
def hasPair (p q : Char → Bool) : Text → Bool
  | a :: b :: rest => (p a && q b) || hasPair p q (b :: rest)
  | _ => false

/-- Whether a text starts like the mark of a document. -/
def startsAsMark (t : Text) : Bool :=
  "---".toList.isPrefixOf t || "...".toList.isPrefixOf t

/-- Whether a character is a space. -/
def isSpace (c : Char) : Bool :=
  c = ' '

/-- Whether some character cannot be written as it is, or a blank would be lost at a line end. -/
def needsEscapes (t : Text) : Bool :=
  t.any (fun c => !isPrintable c) || hasPair isSpace endsLine t

/-- Whether a text can be written without quotes. -/
def canBePlain (t : Text) : Bool :=
  !needsEscapes t && !startsAsMark t && !t.any endsLine &&
    match t with
    | [] => true
    | c :: cs => !isSpace c && t.getLast? != some ' ' && !isMark c cs && !hasMark c cs

/-- Whether a text can be written in single quotes. -/
def canBeSingle (t : Text) : Bool :=
  !needsEscapes t && !hasPair endsLine isSpace t

/-- Whether a text can be written in lines of its own. -/
def canBeLines (t : Text) : Bool :=
  !needsEscapes t && !t.isEmpty && t.getLast? != some ' '

/-! ## Quotes -/

/-- The blanks at the start of a line; `fresh` tells that one starts. -/
def margin (indent : Nat) (fresh : Bool) : Text :=
  if fresh then List.replicate indent ' ' else []

/-- A text inside single quotes: a quote is written twice, and a line is indented. -/
def singleText (indent : Nat) : (fresh : Bool) → Text → Text
  | fresh, [] => margin indent fresh
  | fresh, c :: cs =>
    if isBreak c then c :: singleText indent true cs
    else margin indent fresh ++ (if c = '\'' then ['\'', '\''] else [c]) ++
      singleText indent false cs

/-- A text in single quotes. -/
def single (indent : Nat) (t : Text) : Text :=
  '\'' :: singleText indent false t ++ ['\'']

/-- The letters that stand for characters after a backslash. -/
def writtenEscapes : List (Nat × Char) :=
  [(0, '0'), (7, 'a'), (8, 'b'), (9, 't'), (10, 'n'), (11, 'v'), (12, 'f'), (13, 'r'), (27, 'e'),
   (34, '"'), (92, '\\'), (0x85, 'N'), (0x2028, 'L'), (0x2029, 'P')]

/-- A hexadecimal digit in upper case. -/
def upperDigit (n : Nat) : Char :=
  (Nat.digitChar (n % 16)).toUpper

/-- A number as `count` hexadecimal digits. -/
def upperHex : Nat → Nat → Text
  | 0, _ => []
  | count + 1, n => upperHex count (n / 16) ++ [upperDigit n]

/-- A character in double quotes. -/
def doubleChar (c : Char) : Text :=
  let n := c.toNat
  match writtenEscapes.lookup n with
  | some e => ['\\', e]
  | none =>
    if isPrintable c then [c]
    else if n ≤ 0xFF then '\\' :: 'x' :: upperHex 2 n
    else if n ≤ 0xFFFF then '\\' :: 'u' :: upperHex 4 n
    else '\\' :: 'U' :: upperHex 8 n

/-- A text in double quotes. -/
def double (t : Text) : Text :=
  '"' :: t.flatMap doubleChar ++ ['"']

/-! ## Lines -/

/-- The mark of how the line breaks at the end are kept. -/
def chompMark (t : Text) : Text :=
  match t.reverse with
  | c :: rest =>
    if !isBreak c then ['-'] else if rest.isEmpty || rest.head?.any isBreak then ['+'] else []
  | [] => ['-']

/-- The mark of the indentation, which is needed before a blank or an empty line. -/
def indentMark (t : Text) : Text :=
  if t.head?.any fun c => c = ' ' || isBreak c then ['2'] else []

/-- The lines of a text, each indented unless it is empty; `fresh` tells that a line starts. -/
def indentLines (indent : Nat) : (fresh : Bool) → Text → Text
  | _, [] => []
  | fresh, c :: cs =>
    if isBreak c then c :: indentLines indent true cs
    else margin indent fresh ++ c :: indentLines indent false cs

/-- A text in lines of its own. -/
def lines (indent : Nat) (t : Text) : Text :=
  '|' :: indentMark t ++ chompMark t ++ '\n' :: indentLines indent true t

/-- A text with a line end behind it, unless it has one. -/
def closeLine (t : Text) : Text :=
  if t.getLast?.any isBreak then t else t ++ ['\n']

/-! ## Values -/

/-- A string, whose lines are indented if it has several; the last one may have its line end. -/
def string (indent : Nat) (t : Text) : Text :=
  if t.contains '\n' then (if canBeLines t then lines indent t else double t)
  else if !isAmbiguous t && canBePlain t then t
  else if canBeSingle t then single indent t
  else double t

/-- A value without parts, at the end of a line; null for others. -/
def leaf (indent : Nat) : Json → Text
  | .bool b => (if b then "true" else "false").toList
  | .num n => n.text
  | .str s => string (indent + 2) s.toList
  | .arr _ => "[]".toList
  | .obj _ => "\x7b\x7d".toList
  | .null | .unreadable => "null".toList

mutual
/-- A value after its key: the entries of a mapping are indented, the items of a sequence are not.
-/
def afterKey (indent : Nat) : Json → Text
  | .arr (v :: vs) => '\n' :: itemsText indent (v :: vs)
  | .obj (m :: ms) => '\n' :: membersText (indent + 2) (m :: ms)
  | v => ' ' :: closeLine (leaf indent v)
/-- A value after its dash, on the line of which its own lines start. -/
def afterDash (indent : Nat) : Json → Text
  | .arr (v :: vs) => (itemsText (indent + 2) (v :: vs)).drop (indent + 1)
  | .obj (m :: ms) => (membersText (indent + 2) (m :: ms)).drop (indent + 1)
  | v => ' ' :: closeLine (leaf indent v)
/-- The items of a sequence, a line each. -/
def itemsText (indent : Nat) : List Json → Text
  | [] => []
  | v :: vs => List.replicate indent ' ' ++ '-' :: afterDash indent v ++ itemsText indent vs
/-- The entries of a mapping, a line each. -/
def membersText (indent : Nat) : List (String × Json) → Text
  | [] => []
  | (k, v) :: ms =>
    List.replicate indent ' ' ++ string indent k.toList ++ ':' :: afterKey indent v ++
      membersText indent ms
end

/-- A value as a document. -/
def write : Json → Text
  | .arr (v :: vs) => itemsText 0 (v :: vs)
  | .obj (m :: ms) => membersText 0 (m :: ms)
  | v => closeLine (leaf 0 v)

end ParamTwin.Yaml
