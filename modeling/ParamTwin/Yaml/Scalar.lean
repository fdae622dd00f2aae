import ParamTwin.Text.Basic

/-!
# Scalars of YAML texts

How the text of a scalar is read off a document: plain, quoted, and in lines of its own. In plain
and quoted scalars a line break counts as a blank, and of several breaks the first is dropped.
-/

namespace ParamTwin.Yaml

/-- A place in a document. -/
structure Place where
  line : Nat
  column : Nat
  index : Nat
deriving Repr, DecidableEq, Inhabited

/-- Whether a character ends a line, after line ends were made uniform. -/
def isBreak (c : Char) : Bool :=
  c = '\n' || c.toNat = 0x2028 || c.toNat = 0x2029

/-- Whether a character is a blank inside a line. -/
def isBlank (c : Char) : Bool :=
  c = ' ' || c = '\t'

/-- Whether a text is at its end, at a line end or at a blank. -/
def endsWord : Text → Bool
  | [] => true
  | c :: _ => isBlank c || isBreak c

/-- Whether a character has a meaning inside brackets. -/
def isFlowMark (c : Char) : Bool :=
  c = ',' || c = '[' || c = ']' || c = '{' || c = '}'

/-- Whether the mark of the start or the end of a document stands here. -/
def isDocumentMark (t : Text) : Bool :=
  match t with
  | a :: b :: c :: rest => (a = '-' || a = '.') && b = a && c = a && endsWord rest
  | _ => false

/-- The place after a character. -/
def Place.after (p : Place) (c : Char) : Place :=
  if isBreak c then { line := p.line + 1, column := 0, index := p.index + 1 }
  else { p with column := p.column + 1, index := p.index + 1 }

/-! ## Folding -/

/-- A scalar that is being read, with the blanks and line breaks that were read last. -/
structure Folding where
  /-- The characters so far, from the last one. -/
  out : Text
  /-- The blanks after them on the same line, from the last one. -/
  blanks : Text
  /-- The first line break after them, which may be escaped, and the breaks after it. -/
  breaks : Option (Text × Text)

namespace Folding

/-- The scalar without characters. -/
def empty : Folding :=
  { out := [], blanks := [], breaks := none }

/-- Whether blanks or breaks were read last, or nothing yet. -/
def isFresh (f : Folding) : Bool :=
  f.out.isEmpty || !f.blanks.isEmpty || f.breaks.isSome

/-- One more blank, which is dropped after a line break. -/
def blank (f : Folding) (c : Char) : Folding :=
  if f.breaks.isSome then f else { f with blanks := c :: f.blanks }

/-- One more line break. -/
def lineBreak (f : Folding) (c : Char) : Folding :=
  match f.breaks with
  | none => { f with blanks := [], breaks := some ([c], []) }
  | some (first, more) => { f with breaks := some (first, c :: more) }

/-- The blanks and breaks read last become part of the scalar: a single line feed as a blank. -/
def settle (f : Folding) : Folding :=
  match f.breaks with
  | none => { out := f.blanks ++ f.out, blanks := [], breaks := none }
  | some (first, more) =>
    let joined := if first == ['\n'] then (if more.isEmpty then [' '] else more) else more ++ first
    { out := joined ++ f.out, blanks := [], breaks := none }

/-- One more character. -/
def push (f : Folding) (c : Char) : Folding :=
  let f := f.settle
  { f with out := c :: f.out }

/-- The text so far, without blanks and breaks at its end. -/
def text (f : Folding) : String :=
  String.ofList f.out.reverse

end Folding

/-! ## Plain scalars -/

/-- A plain scalar, with the rest. Outside brackets its lines must be indented by at least
`indent`. -/
def plain (inFlow : Bool) (indent : Nat) : Text → Place → Folding → Option (Folding × Text × Place)
  | [], p, f => some (f, [], p)
  | c :: cs, p, f =>
    if isBlank c then
      if f.breaks.isSome && p.column < indent && c = '\t' then none
      else plain inFlow indent cs (p.after c) (f.blank c)
    else if isBreak c then plain inFlow indent cs (p.after c) (f.lineBreak c)
    else if f.isFresh && (c = '#' || (p.column = 0 && isDocumentMark (c :: cs)) ||
        (f.breaks.isSome && !inFlow && p.column < indent)) then some (f, c :: cs, p)
    else if c = ':' && endsWord cs then some (f, c :: cs, p)
    else if inFlow && isFlowMark c then some (f, c :: cs, p)
    else if inFlow && c = ':' && (cs.head?.any fun d => d = '?' || isFlowMark d) then none
    else plain inFlow indent cs (p.after c) (f.push c)

/-! ## Quoted scalars -/

/-- The characters that a backslash and a letter stand for. -/
def escapes : List (Char × Nat) :=
  [('0', 0), ('a', 7), ('b', 8), ('t', 9), ('\t', 9), ('n', 10), ('v', 11), ('f', 12), ('r', 13),
   ('e', 27), (' ', 32), ('"', 34), ('/', 47), ('\\', 92), ('N', 0x85), ('_', 0xA0),
   ('L', 0x2028), ('P', 0x2029)]

/-- The number of hexadecimal digits after a backslash and a letter. -/
def hexLength? (c : Char) : Option Nat :=
  if c = 'x' then some 2 else if c = 'u' then some 4 else if c = 'U' then some 8 else none

/-- The value of a hexadecimal digit. -/
def hexDigit? (c : Char) : Option Nat :=
  if '0' ≤ c && c ≤ '9' then some (c.toNat - '0'.toNat)
  else if 'a' ≤ c && c ≤ 'f' then some (c.toNat - 'a'.toNat + 10)
  else if 'A' ≤ c && c ≤ 'F' then some (c.toNat - 'A'.toNat + 10)
  else none

/-- The number of `n` hexadecimal digits at the start of a text. -/
def hexNumber? : Nat → Nat → Text → Option Nat
  | 0, acc, _ => some acc
  | _ + 1, _, [] => none
  | n + 1, acc, c :: cs => do hexNumber? n (16 * acc + (← hexDigit? c)) cs

/-- The character of a code point, unless there is none. -/
def codePoint? (n : Nat) : Option Char :=
  if n < 0xD800 || (0xDFFF < n && n ≤ 0x10FFFF) then some (Char.ofNat n) else none

/-- What stands after a backslash: a character, and how many characters it is written with. -/
def escape? (c : Char) (cs : Text) : Option (Char × Nat) :=
  match escapes.lookup c with
  | some n => some (Char.ofNat n, 1)
  | none => do
    let n ← hexLength? c
    return (← codePoint? (← hexNumber? n 0 cs), n + 1)

/-- A quoted scalar after its opening quote, with the rest after the closing one. The first `skip`
characters belong to what was read before. -/
def quoted (double : Bool) : Nat → Text → Place → Folding → Option (String × Text × Place)
  | _, [], _, _ => none
  | skip + 1, c :: cs, p, f => quoted double skip cs (p.after c) f
  | 0, c :: cs, p, f =>
    if isBlank c then quoted double 0 cs (p.after c) (f.blank c)
    else if isBreak c then quoted double 0 cs (p.after c) (f.lineBreak c)
    else if p.column = 0 && isDocumentMark (c :: cs) then none
    else if double && c = '\\' then
      match cs with
      | [] => none
      | d :: rest =>
        if isBreak d then
          quoted double 1 cs (p.after c) { f.settle with breaks := some ([], []) }
        else
          match escape? d rest with
          | none => none
          | some (e, n) => quoted double n cs (p.after c) (f.push e)
    else if c = (if double then '"' else '\'') then
      if !double && cs.head? == some '\'' then quoted double 1 cs (p.after c) (f.push '\'')
      else some (f.settle.text, cs, p.after c)
    else quoted double 0 cs (p.after c) (f.push c)

/-! ## Scalars in lines of their own -/

/-- What happens to the line breaks at the end of a scalar. -/
inductive Chomping where
  | clip
  | strip
  | keep
deriving Repr, DecidableEq, Inhabited

/-- How a scalar in lines of its own is read. -/
structure BlockHeader where
  chomping : Chomping := .clip
  /-- The indentation of the lines beyond that of what holds the scalar, if it is given. -/
  increment : Option Nat := none
deriving Repr, DecidableEq, Inhabited

/-- The chomping that a character asks for. -/
def chomping? (c : Char) : Option Chomping :=
  if c = '+' then some .keep else if c = '-' then some .strip else none

/-- The increment that a character gives; zero is not allowed. -/
def increment? (c : Char) : Option Nat :=
  if '1' ≤ c && c ≤ '9' then some (c.toNat - '0'.toNat) else none

/-- The marks of a header, in either order, with the rest. -/
def headerMarks (t : Text) : BlockHeader × Text :=
  match t with
  | [] => ({}, [])
  | a :: rest =>
    match chomping? a, increment? a with
    | some c, _ =>
      match rest.head?.bind increment? with
      | some n => ({ chomping := c, increment := some n }, rest.drop 1)
      | none => ({ chomping := c }, rest)
    | none, some n =>
      match rest.head?.bind chomping? with
      | some c => ({ chomping := c, increment := some n }, rest.drop 1)
      | none => ({ increment := some n }, rest)
    | none, none => ({}, t)

/-- A header, and the rest from its line break on. Only blanks and a comment may follow the marks.
-/
def header? (t : Text) : Option (BlockHeader × Text) :=
  let (h, rest) := headerMarks t
  let rest := rest.dropWhile isBlank
  let rest := if rest.head? == some '#' then rest.dropWhile fun c => !isBreak c else rest
  match rest with
  | [] => some (h, [])
  | c :: _ => if isBreak c then some (h, rest) else none

/-- Skips the indentation of lines and the lines that hold nothing else. The greatest column that
was reached and the line breaks are given back, the latter from the last one; without a known
indentation all blanks belong to it. -/
def skipBreaks (indent : Option Nat) : Text → Place → Nat → Text →
    Option (Text × Place × Nat × Text)
  | [], p, reached, breaks => some ([], p, max reached p.column, breaks)
  | c :: cs, p, reached, breaks =>
    let inside := indent.all (p.column < ·)
    if inside && c = ' ' then skipBreaks indent cs (p.after c) reached breaks
    else if inside && c = '\t' then none
    else if isBreak c then
      skipBreaks indent cs (p.after c) (max reached p.column) (c :: breaks)
    else some (c :: cs, p, max reached p.column, breaks)

/-- The lines of a scalar that is being read. -/
structure Lines where
  /-- The characters so far, from the last one. -/
  out : Text
  /-- The line break after the last line. -/
  last : Text
  /-- The breaks of the empty lines after it, from the last one. -/
  empty : Text
  /-- Whether the last line starts with a blank. -/
  indented : Bool

namespace Lines

/-- Joins the lines so far with one that starts with a blank or not. -/
def join (l : Lines) (folded indented : Bool) : Text :=
  if folded && l.last == ['\n'] && !l.indented && !indented then
    if l.empty.isEmpty then ' ' :: l.out else l.empty ++ l.out
  else l.empty ++ l.last ++ l.out

/-- The text of the scalar after its last line. -/
def finish (l : Lines) (c : Chomping) : String :=
  let out := match c with
    | .strip => l.out
    | .clip => l.last ++ l.out
    | .keep => l.empty ++ l.last ++ l.out
  String.ofList out.reverse

end Lines

/-- The lines of a scalar with the given indentation, with the rest. -/
def readLines (folded : Bool) (indent : Nat) : Nat → Text → Place → Lines →
    Option (Lines × Text × Place)
  | 0, t, p, l => some (l, t, p)
  | _ + 1, [], p, l => some (l, [], p)
  | fuel + 1, c :: cs, p, l =>
    if p.column ≠ indent then some (l, c :: cs, p)
    else
      let (line, rest) := (c :: cs).span fun d => !isBreak d
      let out := line.reverse ++ l.join folded (isBlank c)
      let p := line.foldl Place.after p
      let (last, rest, p) := match rest with
        | [] => ([], [], p)
        | d :: rest => ([d], rest, p.after d)
      match skipBreaks (some indent) rest p 0 [] with
      | none => none
      | some (rest, p, _, empty) =>
        readLines folded indent fuel rest p { out, last, empty, indented := isBlank c }

/-- A scalar in lines of its own after its mark, with the rest. `indent` is the indentation of what
holds it, plus one. -/
def block (folded : Bool) (indent : Nat) (t : Text) (p : Place) :
    Option (String × Text × Place) := do
  let (h, rest) ← header? t
  let p := (t.take (t.length - rest.length)).foldl Place.after p
  let (rest, p) := match rest with
    | [] => ([], p)
    | c :: rest => (rest, p.after c)
  let given := h.increment.map fun n => indent - 1 + n
  let (rest, p, reached, empty) ← skipBreaks given rest p 0 []
  let indent := given.getD (max reached (max indent 1))
  let start : Lines := { out := [], last := [], empty, indented := false }
  let (l, rest, p) ← readLines folded indent (rest.length + 1) rest p start
  return (l.finish h.chomping, rest, p)

end ParamTwin.Yaml
