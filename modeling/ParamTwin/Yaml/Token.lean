import ParamTwin.Yaml.Scalar

/-!
# Tokens of YAML texts

A document as a row of tokens, in which indentation has become marks for the start and the end of
collections. A scalar may turn out to be a key only at the colon after it: its place is kept, and
the mark of the key is put there.
-/

namespace ParamTwin.Yaml

/-- A token. -/
inductive Token where
  /-- A line for the reader of the document; a tag directive gives a handle and what it stands
  for. -/
  | directive (handle : Option (String × String))
  | documentStart
  | documentEnd
  | blockSeqStart
  | blockMapStart
  | blockEnd
  | flowSeqStart
  | flowSeqEnd
  | flowMapStart
  | flowMapEnd
  | blockEntry
  | flowEntry
  | key
  | value
  | alias (name : String)
  | anchor (name : String)
  | tag (handle suffix : String)
  | scalar (plain : Bool) (text : String)
deriving Repr, DecidableEq, Inhabited

/-- What may turn out to be a key. -/
structure PossibleKey where
  /-- Nothing else can stand here. -/
  required : Bool
  /-- The number of tokens before it. -/
  number : Nat
  place : Place
deriving Repr, DecidableEq, Inhabited

/-- The characters that a possible key may span. -/
def keyLimit : Nat := 1024

/-- A document that is being cut into tokens. -/
structure Scan where
  rest : Text
  place : Place
  /-- The tokens so far, from the last one. -/
  tokens : List Token
  /-- The possible key of each open bracket, and last that outside of all. -/
  keys : List (Option PossibleKey)
  /-- The column of the innermost collection, `-1` outside of all. -/
  indent : Int
  /-- The columns of the collections around it. -/
  outer : List Int
  /-- Whether a key may start here. -/
  keyAllowed : Bool

namespace Scan

/-- The start of a document. -/
def start (t : Text) : Scan where
  rest := t
  place := { line := 0, column := 0, index := 0 }
  tokens := []
  keys := [none]
  indent := -1
  outer := []
  keyAllowed := true

/-- Whether a bracket is open. -/
def inFlow (s : Scan) : Bool :=
  1 < s.keys.length

/-- The column as an integer. -/
def column (s : Scan) : Int :=
  Int.ofNat s.place.column

/-- One more token. -/
def push (s : Scan) (t : Token) : Scan :=
  { s with tokens := t :: s.tokens }

/-- A token put after the first `n` tokens. -/
def insert (s : Scan) (n : Nat) (t : Token) : Scan :=
  let later := s.tokens.length - n
  { s with tokens := s.tokens.take later ++ t :: s.tokens.drop later }

/-- The next `n` characters are read. -/
def skip (s : Scan) (n : Nat) : Scan :=
  { s with rest := s.rest.drop n, place := (s.rest.take n).foldl Place.after s.place }

/-- The scan with another answer to whether a key may start here. -/
def allow (s : Scan) (b : Bool) : Scan :=
  { s with keyAllowed := b }

/-! ## Possible keys -/

/-- Whether a possible key is out of reach: it is on another line or too far back. -/
def isStale (p : Place) (k : PossibleKey) : Bool :=
  k.place.line < p.line || k.place.index + keyLimit < p.index

/-- Drops a possible key that is out of reach; one that is required must not be. -/
def refreshKey? (p : Place) : Option PossibleKey → Option (Option PossibleKey)
  | none => some none
  | some k => if isStale p k then (if k.required then none else some none) else some (some k)

/-- Drops all possible keys that are out of reach. -/
def refreshKeys? (s : Scan) : Option Scan := do
  return { s with keys := ← s.keys.mapM (refreshKey? s.place) }

/-- The innermost possible key is given up; a required one must not be. -/
def dropKey? (s : Scan) : Option Scan :=
  match s.keys with
  | some k :: rest => if k.required then none else some { s with keys := none :: rest }
  | _ => some s

/-- What starts here may be a key. -/
def saveKey? (s : Scan) : Option Scan :=
  if s.keyAllowed then do
    let s ← s.dropKey?
    let key : PossibleKey :=
      { required := !s.inFlow && s.indent == s.column, number := s.tokens.length, place := s.place }
    return { s with keys := some key :: s.keys.drop 1 }
  else some s

/-! ## Indentation -/

/-- The ends of the collections that start right of a column. -/
def closeTo (column : Int) : List Int → Int → List Token → Int × List Int × List Token
  | [], indent, tokens => (indent, [], tokens)
  | i :: is, indent, tokens =>
    if column < indent then closeTo column is i (.blockEnd :: tokens) else (indent, i :: is, tokens)

/-- Ends the collections that start right of a column; brackets are not concerned. -/
def unroll (s : Scan) (column : Int) : Scan :=
  if s.inFlow then s
  else
    let (indent, outer, tokens) := closeTo column s.outer s.indent s.tokens
    { s with indent, outer, tokens }

/-- Starts a collection at a column unless one starts there, with its mark after the first `n`
tokens. -/
def roll (s : Scan) (column : Int) (n : Nat) (t : Token) : Scan :=
  if s.inFlow || column ≤ s.indent then s
  else ({ s with indent := column, outer := s.indent :: s.outer } : Scan).insert n t

/-! ## Blanks -/

/-- Skips blanks, comments and line breaks. Tabs are blanks where no key may start, and a line break
outside of brackets allows keys. -/
def skipBlanks (inFlow : Bool) : Text → Place → (keyAllowed comment : Bool) → Text × Place × Bool
  | [], p, allowed, _ => ([], p, allowed)
  | c :: cs, p, allowed, comment =>
    if isBreak c then skipBlanks inFlow cs (p.after c) (allowed || !inFlow) false
    else if comment || c = ' ' || (c = '\t' && (inFlow || !allowed)) then
      skipBlanks inFlow cs (p.after c) allowed comment
    else if c = '#' then skipBlanks inFlow cs (p.after c) allowed true
    else (c :: cs, p, allowed)

/-- The scan at the next token. -/
def toNext (s : Scan) : Scan :=
  let (rest, place, keyAllowed) := skipBlanks s.inFlow s.rest s.place s.keyAllowed false
  { s with rest, place, keyAllowed }

/-! ## Structure -/

/-- Ends everything before a mark of a document or a directive. -/
def closeAll? (s : Scan) : Option Scan := do
  let s ← (s.unroll (-1)).dropKey?
  return s.allow false

/-- A mark of a document. -/
def documentMark? (s : Scan) (t : Token) : Option Scan := do
  return ((← s.closeAll?).push t).skip 3

/-- An opening bracket. -/
def openFlow? (s : Scan) (t : Token) : Option Scan := do
  let s ← s.saveKey?
  return (({ s with keys := none :: s.keys } : Scan).allow true).push t |>.skip 1

/-- A closing bracket. -/
def closeFlow? (s : Scan) (t : Token) : Option Scan := do
  let s ← s.dropKey?
  let keys := if s.inFlow then s.keys.drop 1 else s.keys
  return (({ s with keys } : Scan).allow false).push t |>.skip 1

/-- A comma. -/
def flowEntry? (s : Scan) : Option Scan := do
  return ((← s.dropKey?).allow true).push .flowEntry |>.skip 1

/-- A dash before an item. -/
def blockEntry? (s : Scan) : Option Scan :=
  if !s.inFlow && !s.keyAllowed then none
  else do
    let s := s.roll s.column s.tokens.length .blockSeqStart
    return ((← s.dropKey?).allow true).push .blockEntry |>.skip 1

/-- A question mark before a key. -/
def explicitKey? (s : Scan) : Option Scan :=
  if !s.inFlow && !s.keyAllowed then none
  else do
    let s := s.roll s.column s.tokens.length .blockMapStart
    return ((← s.dropKey?).allow (!s.inFlow)).push .key |>.skip 1

/-- A colon before a value: what may have been a key is one. -/
def value? (s : Scan) : Option Scan :=
  match s.keys with
  | some k :: rest =>
    let s := { s with keys := none :: rest }
    let s := s.insert k.number .key
    let s := s.roll (Int.ofNat k.place.column) k.number .blockMapStart
    some ((s.allow false).push .value |>.skip 1)
  | _ =>
    if !s.inFlow && !s.keyAllowed then none
    else
      let s := s.roll s.column s.tokens.length .blockMapStart
      some ((s.allow (!s.inFlow)).push .value |>.skip 1)

/-! ## Names -/

/-- Whether a character may be in the name of an anchor. -/
def isNameChar (c : Char) : Bool :=
  c.isAlphanum || c = '_' || c = '-'

/-- Whether a character may follow the name of an anchor directly. -/
def endsName (c : Char) : Bool :=
  "?:,]\x7d%@".toList.contains c || c.toNat = 96

/-- An anchor or an alias. -/
def named? (s : Scan) (make : String → Token) : Option Scan := do
  let s ← s.saveKey?
  let (name, rest) := (s.rest.drop 1).span isNameChar
  let ends := endsWord rest || rest.head?.any endsName
  if name.isEmpty || !ends then none
  else return ((s.allow false).push (make (String.ofList name))).skip (name.length + 1)

/-- Whether a character may be in a tag. -/
def isTagChar (c : Char) : Bool :=
  c.isAlphanum || "-;/?:@&=+$.~*'()%_,[]".toList.contains c

/-- Whether a character may be in a tag that is not enclosed. -/
def isOpenTagChar (c : Char) : Bool :=
  isTagChar c && !isFlowMark c

/-- The handle and the suffix of a tag, and how many characters it is written with. -/
def tagParts? (t : Text) : Option (String × String × Nat) :=
  match t with
  | '!' :: '<' :: rest =>
    let (uri, after) := rest.span isTagChar
    match after with
    | '>' :: _ => if uri.isEmpty then none else some ("", String.ofList uri, uri.length + 3)
    | _ => none
  | '!' :: rest =>
    let (name, after) := rest.span isNameChar
    match after with
    | '!' :: after =>
      let suffix := after.takeWhile fun c => isOpenTagChar c || c = '!'
      if suffix.isEmpty then none
      else some ("!" ++ String.ofList name ++ "!", String.ofList suffix,
        name.length + suffix.length + 2)
    | _ =>
      let suffix := rest.takeWhile fun c => isOpenTagChar c || c = '!'
      some ("!", String.ofList suffix, suffix.length + 1)
  | _ => none

/-- A tag. -/
def tag? (s : Scan) : Option Scan := do
  let s ← s.saveKey?
  let (handle, suffix, n) ← tagParts? s.rest
  let rest := s.rest.drop n
  if endsWord rest || (s.inFlow && rest.head? == some ',') then
    return ((s.allow false).push (.tag handle suffix)).skip n
  else none

/-! ## Directives -/

/-- The words of a line, up to a comment. -/
def words (t : Text) : List Text :=
  let line := t.takeWhile fun c => !isBreak c
  let pieces := line.splitOnP isBlank
  (pieces.takeWhile fun w => w.head? != some '#').filter fun w => !w.isEmpty

/-- The directive that words denote: the version, or what a handle of tags stands for. -/
def directiveOf? : List Text → Option Token
  | [name, a] =>
    if name == "YAML".toList && (a == "1.1".toList || a == "1.2".toList) then
      some (.directive none)
    else none
  | [name, handle, uri] =>
    let isHandle := handle == ['!'] || handle == ['!', '!'] ||
      (handle.head? == some '!' && handle.getLast? == some '!' &&
        ((handle.drop 1).dropLast).all isNameChar)
    if name == "TAG".toList && isHandle && uri.all (fun c => isTagChar c || c = '!') then
      some (.directive (some (String.ofList handle, String.ofList uri)))
    else none
  | _ => none

/-- A directive. -/
def directive? (s : Scan) : Option Scan := do
  let s ← s.closeAll?
  let token ← directiveOf? (words (s.rest.drop 1))
  return (s.push token).skip (s.rest.takeWhile fun c => !isBreak c).length

/-! ## Scalars -/

/-- The least indentation of the lines of a scalar. -/
def scalarIndent (s : Scan) : Nat :=
  (s.indent + 1).toNat

/-- A plain scalar. After a line break a key may start. -/
def plain? (s : Scan) : Option Scan := do
  let s ← s.saveKey?
  let (f, rest, place) ← Yaml.plain s.inFlow s.scalarIndent s.rest s.place .empty
  return ({ s with rest, place, keyAllowed := f.breaks.isSome } : Scan).push (.scalar true f.text)

/-- A quoted scalar. -/
def quoted? (s : Scan) (double : Bool) : Option Scan := do
  let s ← s.saveKey?
  let s := s.skip 1
  let (text, rest, place) ← Yaml.quoted double 0 s.rest s.place .empty
  return ({ s with rest, place, keyAllowed := false } : Scan).push (.scalar false text)

/-- A scalar in lines of its own. -/
def block? (s : Scan) (folded : Bool) : Option Scan := do
  let s ← s.dropKey?
  let s := s.skip 1
  let (text, rest, place) ← Yaml.block folded s.scalarIndent s.rest s.place
  return ({ s with rest, place, keyAllowed := true } : Scan).push (.scalar false text)

/-! ## All tokens -/

/-- Whether a plain scalar can start with a character that is followed by a text. -/
def startsPlain (inFlow : Bool) (c : Char) (cs : Text) : Bool :=
  if c = '-' then !cs.head?.any isBlank
  else if c = '?' || c = ':' then !inFlow && !endsWord cs
  else !(isBlank c || isFlowMark c || "#&*!|>'\"%@".toList.contains c || c.toNat = 96)

/-- The next token, at whose start the scan is. -/
def token? (s : Scan) (c : Char) (cs : Text) : Option Scan :=
  if s.place.column = 0 && c = '%' then s.directive?
  else if s.place.column = 0 && isDocumentMark s.rest then
    s.documentMark? (if c = '-' then .documentStart else .documentEnd)
  else if c = '[' then s.openFlow? .flowSeqStart
  else if c = '{' then s.openFlow? .flowMapStart
  else if c = ']' then s.closeFlow? .flowSeqEnd
  else if c = '}' then s.closeFlow? .flowMapEnd
  else if c = ',' then s.flowEntry?
  else if c = '-' && endsWord cs then s.blockEntry?
  else if c = '?' && (s.inFlow || endsWord cs) then s.explicitKey?
  else if c = ':' && (s.inFlow || endsWord cs) then s.value?
  else if c = '*' then s.named? .alias
  else if c = '&' then s.named? .anchor
  else if c = '!' then s.tag?
  else if (c = '|' || c = '>') && !s.inFlow then s.block? (c = '>')
  else if c = '\'' || c = '"' then s.quoted? (c = '"')
  else if startsPlain s.inFlow c cs then s.plain?
  else none

/-- Cuts the rest of a document into tokens. -/
def run? : Nat → Scan → Option Scan
  | 0, _ => none
  | fuel + 1, s => do
    let s ← s.toNext.refreshKeys?
    let s := s.unroll s.column
    match s.rest with
    | [] => s.closeAll?
    | c :: cs => run? fuel (← s.token? c cs)

end Scan

/-! ## Documents -/

/-- Whether a character may be in a document. -/
def isAllowed (c : Char) : Bool :=
  let n := c.toNat
  n = 9 || n = 10 || n = 13 || (32 ≤ n && n ≤ 126) || n = 0x85 || (0xA0 ≤ n && n ≤ 0xFFFD) ||
    0x10000 ≤ n

/-- The text with a line feed for each line end. -/
def uniform : Text → Text
  | [] => []
  | '\r' :: '\n' :: cs => '\n' :: uniform cs
  | c :: cs => (if c = '\r' || c.toNat = 0x85 then '\n' else c) :: uniform cs

/-- The mark of byte order that may stand at the start. -/
def withoutMark : Text → Text
  | [] => []
  | c :: cs => if c.toNat = 0xFEFF then cs else c :: cs

/-- The tokens of a text. -/
def tokens? (t : Text) : Option (List Token) :=
  if t.all isAllowed then do
    let t := uniform (withoutMark t)
    let s ← Scan.run? (t.length + 2) (Scan.start t)
    return s.tokens.reverse
  else none

end ParamTwin.Yaml
