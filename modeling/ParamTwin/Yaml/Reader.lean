import ParamTwin.Yaml.Token
import ParamTwin.Yaml.Value

/-!
# Reading YAML documents

`Yaml.read?` gives the value of a text that holds at most one document. An alias stands for the
value of the last anchor of its name.
-/

namespace ParamTwin.Yaml

/-- What is left to read, with the values that have names and what the handles of tags stand for. -/
structure Parsing where
  tokens : List Token
  anchors : List (String × Yaml)
  handles : List (String × String)

/-- The handles that every document knows. -/
def knownHandles : List (String × String) :=
  [("", ""), ("!", "!"), ("!!", "tag:yaml.org,2002:")]

namespace Parsing

/-- Goes past the next token. -/
def advance (s : Parsing) : Parsing :=
  { s with tokens := s.tokens.drop 1 }

/-- The next token. -/
def next? (s : Parsing) : Option Token :=
  s.tokens.head?

/-- Whether the next token is one of a list. -/
def isAt (s : Parsing) (ts : List Token) : Bool :=
  s.next?.any ts.contains

/-- Whether nothing of the document is left. -/
def atEnd (s : Parsing) : Bool :=
  match s.next? with
  | none | some .documentStart | some .documentEnd | some (.directive _) => true
  | _ => false

/-- Goes past the given token, which must be the next one. -/
def expect? (s : Parsing) (t : Token) : Option Parsing :=
  if s.next? == some t then some s.advance else none

/-- The tag of a handle and a suffix. -/
def resolve? (s : Parsing) (handle suffix : String) : Option String := do
  return (← s.handles.lookup handle) ++ suffix

/-- The value with the given name, if it has one. -/
def name (s : Parsing) (anchor : Option String) (y : Yaml) : Parsing :=
  match anchor with
  | some a => { s with anchors := (a, y) :: s.anchors }
  | none => s

end Parsing

/-- The anchor and the tag of a value, which may come in either order. -/
structure Properties where
  anchor : Option String := none
  tag : Option String := none

/-- The properties in front of a value. -/
def properties? (s : Parsing) : Option (Properties × Parsing) :=
  match s.tokens with
  | .anchor a :: .tag handle suffix :: _ => do
    return ({ anchor := a, tag := ← s.resolve? handle suffix }, s.advance.advance)
  | .tag handle suffix :: .anchor a :: _ => do
    return ({ anchor := a, tag := ← s.resolve? handle suffix }, s.advance.advance)
  | .anchor a :: _ => some ({ anchor := a }, s.advance)
  | .tag handle suffix :: _ => do
    return ({ tag := ← s.resolve? handle suffix }, s.advance)
  | _ => some ({}, s)

mutual
/-- A value. In a block, collections may be given by indentation, and the items of a sequence may be
indented no further than its key. -/
def node? : Nat → (inBlock indentless : Bool) → Parsing → Option (Yaml × Parsing)
  | 0, _, _, _ => none
  | fuel + 1, inBlock, indentless, s =>
    match s.tokens with
    | .alias a :: _ => do return (← s.anchors.lookup a, s.advance)
    | _ => do
      let (props, s) ← properties? s
      let (y, s) ← content? fuel inBlock indentless props s
      return (y, s.name props.anchor y)
/-- A value after its properties, which alone stand for nothing. -/
def content? : Nat → (inBlock indentless : Bool) → Properties → Parsing → Option (Yaml × Parsing)
  | 0, _, _, _, _ => none
  | fuel + 1, inBlock, indentless, props, s =>
    match s.next? with
    | some (.scalar plain text) => some (.scalar props.tag plain text, s.advance)
    | some .flowSeqStart => do
      let (items, s) ← flowItems? fuel true s.advance
      return (.seq props.tag items, s)
    | some .flowMapStart => do
      let (entries, s) ← flowEntries? fuel true s.advance
      return (.map props.tag entries, s)
    | t =>
      if indentless && t == some .blockEntry then do
        let (items, s) ← indentlessItems? fuel s
        return (.seq props.tag items, s)
      else if inBlock && t == some .blockSeqStart then do
        let (items, s) ← blockItems? fuel s.advance
        return (.seq props.tag items, s)
      else if inBlock && t == some .blockMapStart then do
        let (entries, s) ← blockEntries? fuel s.advance
        return (.map props.tag entries, s)
      else if props.anchor.isSome || props.tag.isSome then some (.scalar props.tag true "", s)
      else none
/-- A value, or nothing if the document or one of some tokens comes next. -/
def nodeUnless? : Nat → (inBlock indentless : Bool) → List Token → Parsing →
    Option (Yaml × Parsing)
  | 0, _, _, _, _ => none
  | fuel + 1, inBlock, indentless, stops, s =>
    if s.isAt stops then some (nothing, s) else node? fuel inBlock indentless s
/-- The items of a sequence in a block. -/
def blockItems? : Nat → Parsing → Option (List Yaml × Parsing)
  | 0, _ => none
  | fuel + 1, s =>
    if s.next? == some .blockEnd then some ([], s.advance)
    else do
      let s ← s.expect? .blockEntry
      let (y, s) ← nodeUnless? fuel true false [.blockEntry, .blockEnd] s
      let (ys, s) ← blockItems? fuel s
      return (y :: ys, s)
/-- The items of a sequence that is indented no further than its key. -/
def indentlessItems? : Nat → Parsing → Option (List Yaml × Parsing)
  | 0, _ => none
  | fuel + 1, s =>
    if s.next? == some .blockEntry then do
      let (y, s) ← nodeUnless? fuel true false [.blockEntry, .key, .value, .blockEnd] s.advance
      let (ys, s) ← indentlessItems? fuel s
      return (y :: ys, s)
    else some ([], s)
/-- The entries of a mapping in a block. -/
def blockEntries? : Nat → Parsing → Option (List (Yaml × Yaml) × Parsing)
  | 0, _ => none
  | fuel + 1, s =>
    if s.next? == some .blockEnd then some ([], s.advance)
    else do
      let stops := [.key, .value, .blockEnd]
      let s ← s.expect? .key
      let (k, s) ← nodeUnless? fuel true true stops s
      let (v, s) ← entryValue? fuel true stops s
      let (es, s) ← blockEntries? fuel s
      return ((k, v) :: es, s)
/-- The value of an entry, which is nothing without a colon. -/
def entryValue? : Nat → (inBlock : Bool) → List Token → Parsing → Option (Yaml × Parsing)
  | 0, _, _, _ => none
  | fuel + 1, inBlock, stops, s =>
    if s.next? == some .value then nodeUnless? fuel inBlock inBlock stops s.advance
    else some (nothing, s)
/-- The items of a sequence in brackets. An item may be a single entry of a mapping. -/
def flowItems? : Nat → (first : Bool) → Parsing → Option (List Yaml × Parsing)
  | 0, _, _ => none
  | fuel + 1, first, s =>
    if s.next? == some .flowSeqEnd then some ([], s.advance)
    else do
      let s ← if first then some s else s.expect? .flowEntry
      if s.next? == some .flowSeqEnd then some ([], s.advance)
      else
        let (y, s) ← flowItem? fuel s
        let (ys, s) ← flowItems? fuel false s
        return (y :: ys, s)
/-- An item of a sequence in brackets. -/
def flowItem? : Nat → Parsing → Option (Yaml × Parsing)
  | 0, _ => none
  | fuel + 1, s =>
    if s.next? == some .key then do
      let (k, s) ← nodeUnless? fuel false false [.value, .flowEntry, .flowSeqEnd] s.advance
      let (v, s) ← entryValue? fuel false [.flowEntry, .flowSeqEnd] s
      return (.map none [(k, v)], s)
    else node? fuel false false s
/-- The entries of a mapping in braces. -/
def flowEntries? : Nat → (first : Bool) → Parsing → Option (List (Yaml × Yaml) × Parsing)
  | 0, _, _ => none
  | fuel + 1, first, s =>
    if s.next? == some .flowMapEnd then some ([], s.advance)
    else do
      let s ← if first then some s else s.expect? .flowEntry
      if s.next? == some .flowMapEnd then some ([], s.advance)
      else
        let (e, s) ← flowPair? fuel s
        let (es, s) ← flowEntries? fuel false s
        return (e :: es, s)
/-- An entry of a mapping in braces. -/
def flowPair? : Nat → Parsing → Option ((Yaml × Yaml) × Parsing)
  | 0, _ => none
  | fuel + 1, s =>
    if s.next? == some .key then do
      let (k, s) ← nodeUnless? fuel false false [.value, .flowEntry, .flowMapEnd] s.advance
      let (v, s) ← entryValue? fuel false [.flowEntry, .flowMapEnd] s
      return ((k, v), s)
    else do
      let (k, s) ← node? fuel false false s
      return ((k, nothing), s)
end

/-! ## Documents -/

/-- Goes past the directives in front of a document, with the handles that they give. -/
def directives? (s : Parsing) : List Token → Option Parsing
  | .directive none :: ts => directives? s ts
  | .directive (some handle) :: ts => directives? { s with handles := handle :: s.handles } ts
  | ts => some { s with tokens := ts }

/-- The value of a document whose start may be marked, and what follows it. -/
def document? (ts : List Token) : Option (Yaml × List Token) := do
  let fuel := 4 * ts.length + 4
  let s ← directives? { tokens := ts, anchors := [], handles := knownHandles } ts
  let marked := s.next? == some .documentStart
  if !marked && s.tokens.length ≠ ts.length then none
  else
    let s := if marked then s.advance else s
    let (y, s) ← if marked && s.atEnd then some (nothing, s) else node? fuel true false s
    return (y, s.tokens)

/-- The value of a text; a text without a document holds nothing, and one with more than one
document or with anything else that cannot be read holds no value. -/
def read? (t : Text) : Option Yaml := do
  let ts ← tokens? t
  if ts.isEmpty then some nothing
  else
    let (y, rest) ← document? ts
    if rest.all (· == .documentEnd) then some y else none

end ParamTwin.Yaml
