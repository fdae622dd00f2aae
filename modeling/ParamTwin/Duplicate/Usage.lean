import ParamTwin.Scope.Model
import ParamTwin.Syntax.Procedure
import ParamTwin.Duplicate.Edit

/-!
# The first use of a parameter

* `Usage.locate?` finds the statement to duplicate: the smallest one around the first reference to
  the parameter that stands directly in a block or switch section, so that a copy can follow it.
* `Usage.renamed?` is the statement with the references to the parameter renamed.
* `Usage.insertAfter?` places a copy on a line of its own after the statement.

The functions that cut the source give nothing if a span does not cut it.
-/

namespace ParamTwin.Usage

mutual
/-- Where the first identifier of a subtree that passes the test stands: in the child of the
innermost block or switch section around it, or in `anchor` if there is none inside the subtree.
None if no identifier passes. -/
def anchorOf (test : Node → Bool) (anchor : Option Node) : Node → Option (Option Node)
  | ⟨row, kind, field, marks, span, children⟩ =>
    if kind == "identifier" && test ⟨row, kind, field, marks, span, children⟩ then some anchor
    else anchorAmong test (Kind.holdsStatements kind) anchor children
/-- The same for a list of siblings; `direct` tells whether they stand in sequence as statements. -/
def anchorAmong (test : Node → Bool) (direct : Bool) (anchor : Option Node) :
    List Node → Option (Option Node)
  | [] => none
  | n :: ns =>
    match anchorOf test (if direct then some n else anchor) n with
    | some found => some found
    | none => anchorAmong test direct anchor ns
end

/-- Whether an identifier is a reference to the symbol with the spelling of `name`. -/
def isUse (m : Model) (name : String) (symbol : Nat) (n : Node) : Bool :=
  Identifier.bare (n.textString m.source) == Identifier.bare name && m.reference? n == some symbol

/-- The statement of the body that holds the first reference to the parameter. -/
def locate? (m : Model) (body : Option Node) (name : String) (symbol : Nat) : Option Node := do
  let body ← body
  let anchor ← anchorOf (isUse m name symbol) none body
  anchor.filter (Kind.isStatement ·.kind)

/-- The spans of the identifiers in a node that refer to the symbol, in document order. -/
def referenceSpans (m : Model) (symbol : Nat) (n : Node) : List Span :=
  (n.preorder.filter fun n => n.kind == "identifier" && m.reference? n == some symbol).map (·.span)

/-- The source from `cursor` to `stop` with each of the spans replaced by the name. -/
def replaceSpans? (source name : Text) (cursor stop : Nat) : List Span → Option Text
  | [] => source.slice? cursor stop
  | s :: spans => do
    let before ← source.slice? cursor s.start
    let rest ← replaceSpans? source name s.stop stop spans
    return before ++ name ++ rest

/-- The text of a statement with the references to the symbol renamed. -/
def renamed? (m : Model) (statement : Node) (name : Text) (symbol : Nat) : Option Text :=
  replaceSpans? m.source name statement.span.start statement.span.stop
    (referenceSpans m symbol statement)

/-- The leading blanks of the line on which a text ends. -/
def indentation (before : Text) : Text :=
  ((Text.lines before).getLastD []).takeWhile Text.isBlank

/-- The bytes of the line that a text starts with, its carriage return not counted if the line feed
follows it or the text ends with it; `behind` tells whether a carriage return stands right before
the text. None if the line would end before the text starts. -/
def lineLength? (behind : Bool) (after : Text) : Option Nat :=
  let line := (Text.lines after).headD []
  match line.getLast? with
  | none => if behind then none else some 0
  | some c => some (if c = '\r' then Text.byteSize line - 1 else Text.byteSize line)

/-- The insertion of a copy on a line of its own after a statement, with its indentation. A line
comment after the statement stays with it; any other text after it moves behind the copy. -/
def insertAfter? (source : Text) (span : Span) (copy : Text) : Option Edit := do
  let (before, _) ← Text.splitAt? span.start source
  let (upTo, after) ← Text.splitAt? span.stop source
  let length ← lineLength? (upTo.getLast? == some '\r') after
  let (rest, _) ← Text.splitAt? length after
  let rest := Text.trim rest
  let offset :=
    if rest.isEmpty || ['/', '/'].isPrefixOf rest then span.stop + length else span.stop
  return { offset := offset, text := lineEnding source ++ indentation before ++ copy }

end ParamTwin.Usage
