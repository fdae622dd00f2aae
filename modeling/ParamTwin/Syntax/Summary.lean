import ParamTwin.Text.Blank

/-!
# Documentation summaries

The text of the first `summary` element of a documentation comment, its lines trimmed and joined by
single blanks. Tags are recognised in any letter case: they are searched for in the text in lower
case, and the text itself is cut at the offsets found there. An element without a closing tag runs
to the end, and one that closes itself is empty.

The functions with a question mark have no result where a cut would not fall on a character
boundary.
-/

namespace ParamTwin.Summary

/-- How the element starts, in lower case. -/
def openingTag : Text := "<summary".toList

/-- How its end starts, in lower case. -/
def closingTag : Text := "</summary".toList

/-- The lines of a text, trimmed, without blank ones, joined by single blanks. -/
def flatten (t : Text) : Text :=
  Text.join [' '] (((Text.lines t).map Text.trim).filter fun line => !line.isEmpty)

/-- The summary of a text whose opening tag ends at an offset: what stands between that and the
closing tag, and nothing if the tag closes itself. -/
def contentFrom? (xml : Text) (start : Nat) : Option Text := do
  let (tag, rest) ← Text.splitAt? start (Text.lower xml)
  if ['/', '>'].isSuffixOf tag then
    return []
  else
    let stop := ((Text.offsetOf? closingTag rest).map (start + ·)).getD (Text.byteSize xml)
    let body ← Text.slice? xml start stop
    return flatten body

/-- The summary of a text whose opening tag starts at an offset, empty if the tag has no end. -/
def elementFrom? (xml : Text) (start : Nat) : Option Text := do
  let (_, element) ← Text.splitAt? start (Text.lower xml)
  match Text.offsetOf? ['>'] element with
  | none => return []
  | some size => contentFrom? xml (start + size + 1)

/-- The summary of a documentation text, empty if it has none. -/
def extract? (xml : Text) : Option Text :=
  match Text.offsetOf? openingTag (Text.lower xml) with
  | none => some []
  | some start => elementFrom? xml start

/-- The summary of a documentation text. `extract?` always gives one. -/
def extract (xml : Text) : Text :=
  (extract? xml).getD []

end ParamTwin.Summary
