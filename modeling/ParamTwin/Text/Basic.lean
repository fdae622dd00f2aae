/-!
# Texts and byte offsets

A source text is its sequence of characters. Positions in it are byte offsets of its UTF-8 form, as
syntax trees and edits give them, so this module cuts texts at byte offsets:

* `Text.splitAt?` cuts at an offset and refuses one past the end or inside a character.
* `Text.slice?` is the piece between two offsets; it refuses a pair that runs backwards.
* `Text.breakBefore` splits at the first place where a test of the remaining text holds, and
  `Text.offsetOf?` is the offset of the first place where another text stands.
-/

namespace ParamTwin

/-- A text under analysis, as its sequence of characters. -/
abbrev Text := List Char

/-- A half-open range of byte offsets. -/
structure Span where
  start : Nat
  stop : Nat
deriving Repr, DecidableEq, Inhabited

namespace Text

/-- The number of bytes of the UTF-8 form. -/
def byteSize : Text → Nat
  | [] => 0
  | c :: cs => c.utf8Size + byteSize cs

@[simp] theorem byteSize_nil : byteSize [] = 0 := rfl

@[simp] theorem byteSize_cons (c : Char) (cs : Text) :
    byteSize (c :: cs) = c.utf8Size + byteSize cs := rfl

@[simp] theorem byteSize_append (a b : Text) : byteSize (a ++ b) = byteSize a + byteSize b := by
  induction a with
  | nil => simp
  | cons c a ih => simp [ih, Nat.add_assoc]

/-- The text before and from a byte offset, if the offset lies on a character boundary. -/
def splitAt? : Nat → Text → Option (Text × Text)
  | 0, cs => some ([], cs)
  | _ + 1, [] => none
  | n + 1, c :: cs =>
    if c.utf8Size ≤ n + 1 then
      (splitAt? (n + 1 - c.utf8Size) cs).map fun (before, rest) => (c :: before, rest)
    else none

/-- Cutting loses nothing: the two parts make up the text, and the first has the given size. -/
theorem append_of_splitAt? {n : Nat} {t a b : Text} (h : splitAt? n t = some (a, b)) :
    t = a ++ b ∧ byteSize a = n := by
  induction t generalizing n a b with
  | nil => cases n <;> simp_all [splitAt?]
  | cons c cs ih =>
    cases n with
    | zero => simp_all [splitAt?]
    | succ n =>
      simp only [splitAt?] at h
      split at h
      next hc =>
        obtain ⟨⟨a', b'⟩, h1, h2⟩ := Option.map_eq_some_iff.1 h
        simp only [Prod.mk.injEq] at h2
        obtain ⟨rfl, rfl⟩ := h2
        obtain ⟨rfl, h3⟩ := ih h1
        exact ⟨rfl, by simp [h3]; omega⟩
      next => cases h

/-- Whether a byte offset lies on a character boundary, the end included. -/
def isBoundary (t : Text) (offset : Nat) : Bool :=
  (splitAt? offset t).isSome

/-- The text between two byte offsets, if both lie on boundaries and the first is not after the
second. -/
def slice? (t : Text) (start stop : Nat) : Option Text :=
  if start ≤ stop then do
    let (before, _) ← splitAt? stop t
    let (_, piece) ← splitAt? start before
    return piece
  else none

/-- The text covered by a span. -/
def at? (t : Text) (span : Span) : Option Text :=
  slice? t span.start span.stop

/-- The text before and from the first place whose remaining text passes the test. -/
def breakBefore (test : Text → Bool) : Text → Option (Text × Text)
  | [] => if test [] then some ([], []) else none
  | c :: cs =>
    if test (c :: cs) then some ([], c :: cs)
    else (breakBefore test cs).map fun (before, rest) => (c :: before, rest)

/-- The byte offset of the first occurrence of a text in another. -/
def offsetOf? (needle hay : Text) : Option Nat :=
  (breakBefore needle.isPrefixOf hay).map fun (before, _) => byteSize before

/-- Whether a text occurs in another. -/
def occursIn (needle hay : Text) : Bool :=
  (breakBefore needle.isPrefixOf hay).isSome

/-- The text without the occurrences of `needle`, found from left to right; `skip` characters of the
last one found are still to be dropped. -/
def eraseFrom (needle : Text) : Nat → Text → Text
  | _, [] => []
  | skip + 1, _ :: cs => eraseFrom needle skip cs
  | 0, c :: cs =>
    if needle.isPrefixOf (c :: cs) then eraseFrom needle (needle.length - 1) cs
    else c :: eraseFrom needle 0 cs

/-- The text without the occurrences of `needle`, found from left to right. -/
def erase (needle hay : Text) : Text :=
  eraseFrom needle 0 hay

/-- The lines of a text: the pieces between its line feeds. -/
def lines : Text → List Text
  | [] => [[]]
  | c :: cs =>
    if c = '\n' then [] :: lines cs
    else
      match lines cs with
      | [] => [[c]]
      | line :: rest => (c :: line) :: rest

/-- The number of the line on which a byte offset lies: that of the line feeds before it. -/
def row : Text → Nat → Nat
  | [], _ => 0
  | c :: cs, offset =>
    if offset = 0 then 0 else (if c = '\n' then 1 else 0) + row cs (offset - c.utf8Size)

/-- The pieces, with a separator between consecutive ones. -/
def join (sep : Text) : List Text → Text
  | [] => []
  | [t] => t
  | t :: ts => t ++ sep ++ join sep ts

theorem join_cons (sep t : Text) {ts : List Text} (h : ts ≠ []) :
    join sep (t :: ts) = t ++ sep ++ join sep ts := by
  cases ts with
  | nil => exact absurd rfl h
  | cons u ts => rfl

/-- The text in ASCII lower case. -/
def lower (t : Text) : Text :=
  t.map Char.toLower

end Text
end ParamTwin
