import ParamTwin.Text.Basic
import ParamTwin.Text.Letter

/-!
# Blank characters

The characters with the Unicode property White_Space, and trimming by them.
-/

namespace ParamTwin.Text

/-- The ranges of code points that are white space. -/
def blankRanges : List (Nat × Nat) :=
  [(0x09, 0x0D), (0x20, 0x20), (0x85, 0x85), (0xA0, 0xA0), (0x1680, 0x1680), (0x2000, 0x200A),
   (0x2028, 0x2029), (0x202F, 0x202F), (0x205F, 0x205F), (0x3000, 0x3000)]

/-- Whether a character is white space. -/
def isBlank (c : Char) : Bool :=
  blankRanges.any fun (lo, hi) => lo ≤ c.toNat && c.toNat ≤ hi

/-- Whether no range of one list meets a range of the other. -/
def rangesApart (as bs : List (Nat × Nat)) : Bool :=
  as.all fun a => bs.all fun b => decide (a.2 < b.1) || decide (b.2 < a.1)

theorem inRanges_eq_false_of_apart {as bs : List (Nat × Nat)} (h : rangesApart as bs = true)
    {n : Nat} (ha : inRanges as n = true) : inRanges bs n = false := by
  refine Bool.eq_false_iff.2 fun hb => ?_
  simp only [inRanges, List.any_eq_true, Bool.and_eq_true, decide_eq_true_eq] at ha hb
  obtain ⟨a, hmema, ha⟩ := ha
  obtain ⟨b, hmemb, hb⟩ := hb
  have hapart := List.all_eq_true.1 (List.all_eq_true.1 h a hmema) b hmemb
  simp only [Bool.or_eq_true, decide_eq_true_eq] at hapart
  omega

/-- No white space is a letter or a number character. -/
theorem isLetterOrNumber_of_isBlank {c : Char} (h : isBlank c = true) :
    isLetterOrNumber c = false := by
  have hletter : rangesApart blankRanges letterRanges = true := by decide +kernel
  have hnumber : rangesApart blankRanges numberRanges = true := by decide +kernel
  rw [isLetterOrNumber, isLetter, inRanges_eq_false_of_apart hletter h,
    inRanges_eq_false_of_apart hnumber h]
  rfl

/-- The text without leading white space. -/
def trimStart (t : Text) : Text :=
  t.dropWhile isBlank

/-- The text without trailing white space. -/
def trimEnd (t : Text) : Text :=
  (t.reverse.dropWhile isBlank).reverse

/-- The text without white space at either end. -/
def trim (t : Text) : Text :=
  trimEnd (trimStart t)

/-- Whether a string holds nothing but white space. -/
def isBlankString (s : String) : Bool :=
  s.toList.all isBlank

/-- A string without white space at either end. -/
def trimString (s : String) : String :=
  String.ofList (trim s.toList)

end ParamTwin.Text
