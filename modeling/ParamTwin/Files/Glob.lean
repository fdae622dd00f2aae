import ParamTwin.Error
import ParamTwin.Text.Utf8

/-!
# Glob patterns

Patterns for paths, matched byte by byte: `?` stands for one byte and `*` for any number of them,
`**` between slashes for any number of directories, `[...]` for one of some characters and
`{...,...}` for one of several patterns; a backslash takes away the meaning of what follows it.
`Glob.parse` reads a pattern and `Glob.fits` decides whether a path fits it.
-/

namespace ParamTwin

/-- A piece of a pattern. -/
inductive GlobToken where
  | literal (c : Char)
  /-- One byte. -/
  | one
  /-- Any number of bytes. -/
  | many
  /-- Any number of directories at the start. -/
  | leading
  /-- All that is in a directory. -/
  | trailing
  /-- Any number of directories between two slashes. -/
  | between
  /-- One of some ranges of characters, or none of them. -/
  | oneOf (negated : Bool) (ranges : List (Char × Char))
  /-- One of several patterns. -/
  | choice (alternatives : List (List GlobToken))
deriving Inhabited

/-- How patterns are read and matched. -/
structure GlobStyle where
  /-- Whether one byte or any number of bytes may include slashes. -/
  crossesSlash : Bool
  /-- Whether a bracket that opens a class without an end is a literal. -/
  literalBracket : Bool
deriving Repr, DecidableEq, Inhabited

/-- A pattern. -/
structure Glob where
  tokens : List GlobToken
  style : GlobStyle
deriving Inhabited

namespace Glob

/-- Why a text is no pattern. -/
inductive Fault where
  | unclosedClass
  | reversedRange
  | unclosedChoice
  | unopenedChoice
  | danglingEscape
deriving Repr, DecidableEq, Inhabited

/-! ## Reading -/

/-- The pieces of an open pattern: those of its current branch and its finished branches, both from
the last one, and the patterns around it. -/
structure Reading where
  current : List GlobToken
  finished : List (List GlobToken)
  outer : List (List GlobToken × List (List GlobToken))

namespace Reading

/-- One more piece in the current branch. -/
def push (r : Reading) (t : GlobToken) : Reading :=
  { r with current := t :: r.current }

/-- Opens a choice between patterns. -/
def openChoice (r : Reading) : Reading :=
  { current := [], finished := [], outer := (r.current, r.finished) :: r.outer }

/-- Whether a choice is open. -/
def inChoice (r : Reading) : Bool :=
  !r.outer.isEmpty

/-- Ends the current branch. -/
def nextBranch (r : Reading) : Reading :=
  { r with current := [], finished := r.current.reverse :: r.finished }

/-- Closes the innermost choice. -/
def closeChoice (r : Reading) : Except Fault Reading :=
  match r.outer with
  | [] => .error .unopenedChoice
  | (current, finished) :: outer =>
    .ok {
      current := .choice (r.current.reverse :: r.finished).reverse :: current
      finished, outer }

/-- The pieces of a pattern in which no choice is left open. -/
def finish (r : Reading) : Except Fault (List GlobToken) :=
  if r.inChoice then .error .unclosedChoice else .ok r.current.reverse

/-- Puts directories in place of the slash read last; directories twice are the same as once. -/
def pushDirectories (r : Reading) (t : GlobToken) : Reading :=
  match r.current with
  | .leading :: rest => { r with current := .leading :: rest }
  | .trailing :: rest => { r with current := .trailing :: rest }
  | _ :: rest => { r with current := t :: rest }
  | [] => { r with current := [t] }

end Reading

/-- The ranges of a class, read from the last one, with the rest after its closing bracket. `first`
tells that nothing was read yet and `range` that a dash waits for the end of a range. -/
def readRanges : Text → (first range : Bool) → List (Char × Char) →
    Except Fault (List (Char × Char) × Text)
  | [], _, _, _ => .error .unclosedClass
  | c :: cs, first, range, ranges =>
    if c = ']' && !first then
      .ok ((if range then ('-', '-') :: ranges else ranges).reverse, cs)
    else if c = '-' && !first && !range then readRanges cs false true ranges
    else
      match range && !first, ranges with
      | true, (low, _) :: before =>
        if c < low then .error .reversedRange else readRanges cs false false ((low, c) :: before)
      | _, _ => readRanges cs false false ((c, c) :: ranges)

/-- A class after its opening bracket. -/
def readClass : Text → Except Fault (GlobToken × Text)
  | [] => .error .unclosedClass
  | c :: cs =>
    if c = '!' || c = '^' then
      (readRanges cs true false []).map fun (ranges, rest) => (.oneOf true ranges, rest)
    else (readRanges (c :: cs) true false []).map fun (ranges, rest) => (.oneOf false ranges, rest)

/-- Two stars after `before`, with what follows them: directories if they stand between slashes. The
rest and the last character read are given back. -/
def readStars (r : Reading) (before : Option Char) (cs : Text) : Reading × Char × Text :=
  let plain := ((r.push .many).push .many, '*', cs)
  if r.current.isEmpty then
    match cs with
    | [] => (r.push .leading, '*', [])
    | c :: rest => if c = '/' then (r.push .leading, '/', rest) else plain
  else if !(before == some '/' || (r.inChoice && (before == some ',' || before == some '{'))) then
    plain
  else
    match cs with
    | [] => (r.pushDirectories .trailing, '*', [])
    | c :: rest =>
      if c = '/' then (r.pushDirectories .between, '/', rest)
      else if r.inChoice && (c = ',' || c = '}') then (r.pushDirectories .trailing, '*', cs)
      else plain

/-- The pieces of a pattern from a place on, after the character `before`. -/
def readFrom (style : GlobStyle) : Nat → Reading → Option Char → Text → Except Fault Reading
  | 0, r, _, _ => .ok r
  | _ + 1, r, _, [] => .ok r
  | fuel + 1, r, before, c :: cs =>
    let next := fun r => readFrom style fuel r (some c) cs
    if c = '?' then next (r.push .one)
    else if c = '*' then
      match cs with
      | '*' :: rest =>
        let (r, last, rest) := readStars r before rest
        readFrom style fuel r (some last) rest
      | _ => next (r.push .many)
    else if c = '[' then
      match readClass cs with
      | .ok (t, rest) => readFrom style fuel (r.push t) (some ']') rest
      | .error .unclosedClass =>
        if style.literalBracket then next (r.push (.literal c)) else .error .unclosedClass
      | .error e => .error e
    else if c = '{' then next r.openChoice
    else if c = '}' then r.closeChoice.bind next
    else if c = ',' && r.inChoice then next r.nextBranch
    else if c = '\\' then
      match cs with
      | [] => .error .danglingEscape
      | d :: rest => readFrom style fuel (r.push (.literal d)) (some d) rest
    else next (r.push (.literal c))

/-- The pattern that a text denotes. -/
def parse (style : GlobStyle) (t : Text) : Except Fault Glob := do
  let r ← readFrom style t.length { current := [], finished := [], outer := [] } none t
  return { tokens := ← r.finish, style }

/-! ## Matching

A matcher is given what to do with the bytes that are left. -/

/-- What decides about the bytes from a place on. -/
abbrev Rest := List UInt8 → Bool

/-- The byte of a slash. -/
def slash : UInt8 := 47

/-- One byte of a kind. -/
def byte (p : UInt8 → Bool) (k : Rest) : Rest
  | [] => false
  | b :: bs => p b && k bs

/-- Any number of bytes of a kind. -/
def bytes (p : UInt8 → Bool) (k : Rest) : Rest
  | [] => k []
  | b :: bs => k (b :: bs) || (p b && bytes p k bs)

/-- The given bytes. -/
def these : List UInt8 → Rest → Rest
  | [], k => k
  | b :: bs, k => byte (· = b) (these bs k)

/-- The bytes that a range of characters stands for: those of its ends, and those between the last
byte of the first and the first byte of the last. -/
def inRange (low high : Char) (b : UInt8) : Bool :=
  let lows := Text.encode [low]
  let highs := Text.encode [high]
  if low = high then lows.contains b
  else
    lows.contains b || highs.contains b ||
      match lows.getLast?, highs.head? with
      | some l, some h => l ≤ b && b ≤ h
      | _, _ => false

mutual
/-- Whether a piece stands for nothing at all. -/
def isVoid : GlobToken → Bool
  | .choice alternatives => areVoid alternatives
  | _ => false
/-- Whether all pieces stand for nothing at all. -/
def isVoidList : List GlobToken → Bool
  | [] => true
  | t :: ts => isVoid t && isVoidList ts
/-- Whether all alternatives stand for nothing at all. -/
def areVoid : List (List GlobToken) → Bool
  | [] => true
  | a :: rest => isVoidList a && areVoid rest
end

mutual
/-- The matcher of a piece; `other` tells the bytes that one byte or any number of bytes may be. -/
def matchToken (other : UInt8 → Bool) : GlobToken → Rest → Rest
  | .literal c, k => these (Text.encode [c]) k
  | .one, k => byte other k
  | .many, k => bytes other k
  | .leading, k =>
    fun s => k s || byte (· = slash) k s || bytes (fun _ => true) (byte (· = slash) k) s
  | .trailing, k => byte (· = slash) (bytes (fun _ => true) k)
  | .between, k =>
    byte (· = slash) fun s => k s || bytes (fun _ => true) (byte (· = slash) k) s
  | .oneOf negated ranges, k =>
    byte (fun b => (ranges.any fun (low, high) => inRange low high b) != negated) k
  | .choice alternatives, k =>
    fun s => (areVoid alternatives && k s) || matchAny other alternatives k s
/-- The matcher of a row of pieces. -/
def matchAll (other : UInt8 → Bool) : List GlobToken → Rest → Rest
  | [], k => k
  | t :: ts, k => matchToken other t (matchAll other ts k)
/-- The matcher of alternatives, of which those that stand for nothing are passed over. -/
def matchAny (other : UInt8 → Bool) : List (List GlobToken) → Rest → Rest
  | [], _ => fun _ => false
  | a :: rest, k => fun s => (!isVoidList a && matchAll other a k s) || matchAny other rest k s
end

/-- The character of a literal. -/
def literal? : GlobToken → Option Char
  | .literal c => some c
  | _ => none

/-- The pieces after directories at the start. -/
def afterLeading : List GlobToken → List GlobToken
  | .leading :: rest => rest
  | ts => ts

/-- Whether a pattern is decided by the name of the file alone. Such a pattern never fits a path
that ends in a dot, for which no name is defined. -/
def needsName (ts : List GlobToken) : Bool :=
  let literals := ts.map literal?
  let rest := (afterLeading ts).map literal?
  let suffix := match ts with
    | .leading :: .many :: rest | .many :: rest | .leading :: rest => rest.map literal?
    | _ => [none]
  if literals.all Option.isSome then false
  else if ts.length ≠ rest.length && rest.all fun c => c.isSome && c != some '/' then true
  else if suffix == [some '.'] then true
  else if suffix.all Option.isSome then false
  else literals.getLast? == some (some '.')

/-- The byte of a dot. -/
def dot : UInt8 := 46

/-- Whether a path fits a pattern. -/
def fits (g : Glob) (path : String) : Bool :=
  let s := Text.encode path.toList
  match g.tokens with
  | [.leading] => true
  | ts =>
    !(s.getLast? == some dot && needsName ts) &&
      matchAll (fun b => g.style.crossesSlash || b ≠ slash) ts List.isEmpty s

/-! ## Sets of patterns -/

/-- The failure of a text that is no pattern. -/
def invalid (pattern : String) : Error :=
  .config ("Invalid glob '" ++ pattern ++ "'") (some "exclude_patterns")

/-- The patterns of settings: stars and question marks cross slashes, and brackets must be closed.
-/
def settingStyle : GlobStyle :=
  { crossesSlash := true, literalBracket := false }

/-- The pattern that a setting denotes. -/
def read (pattern : String) : Except Error Glob :=
  match parse settingStyle pattern.toList with
  | .ok g => .ok g
  | .error _ => .error (invalid pattern)

/-- The patterns that settings denote. -/
def readAll (patterns : List String) : Except Error (List Glob) :=
  patterns.mapM read

end Glob
end ParamTwin
