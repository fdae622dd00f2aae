import ParamTwin.Text.Blank

/-!
# Insertions and their rendering

Edits insert texts at byte offsets of a source. `Edit.apply` inserts them all, those at one offset
in the order in which they were recorded, and `Tidy.run` then trims each line and ends the text with
one line ending; line breaks inside given spans, those of literals over several lines, are kept as
they are.
-/

namespace ParamTwin

/-- The insertion of a text at a byte offset of a source. -/
structure Edit where
  offset : Nat
  text : Text
deriving Repr, DecidableEq, Inhabited

/-- The line ending that a text uses: a carriage return and a line feed if these two occur together
somewhere in it, a line feed alone otherwise. -/
def lineEnding (t : Text) : Text :=
  if Text.occursIn ['\r', '\n'] t then ['\r', '\n'] else ['\n']

namespace Edit

/-- Inserts edits in ascending order of offset into the part of a source that starts at `position`;
an edit that does not cut it is given back. -/
def weave (position : Nat) (rest : Text) : List Edit → Except Edit Text
  | [] => .ok rest
  | e :: es =>
    match Text.splitAt? (e.offset - position) rest with
    | none => .error e
    | some (before, after) =>
      match weave e.offset after es with
      | .error e => .error e
      | .ok t => .ok (before ++ e.text ++ t)

/-- The edits in ascending order of offset; those at one offset keep their order. -/
def sorted (edits : List Edit) : List Edit :=
  edits.mergeSort fun a b => a.offset ≤ b.offset

/-- The source with all edits inserted, or the first edit that does not cut it. -/
def apply (source : Text) (edits : List Edit) : Except Edit Text :=
  weave 0 source (sorted edits)

end Edit

namespace Tidy

/-- Whether an offset lies strictly inside one of the spans. -/
def isInside (literals : List Span) (position : Nat) : Bool :=
  literals.any fun s => s.start < position && position < s.stop

/-- The lines put together again, the first of which starts at `position`: a line is trimmed at its
end and followed by `ending`, unless its line feed lies inside a literal. -/
def lines (ending : Text) (literals : List Span) (position : Nat) : List Text → Text
  | [] => []
  | [last] => Text.trimEnd last
  | line :: rest =>
    let feed := position + Text.byteSize line
    (if isInside literals feed then line ++ ['\n'] else Text.trimEnd line ++ ending) ++
      lines ending literals (feed + 1) rest

/-- The text with trimmed lines, one kind of line ending, and exactly one of them at its end. -/
def run (t : Text) (literals : List Span) : Text :=
  let ending := lineEnding t
  let body := Text.trimEnd (lines ending literals 0 (Text.lines t))
  if body.isEmpty then [] else body ++ ending

end Tidy
end ParamTwin
