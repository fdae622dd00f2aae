import ParamTwin.Text.Basic

/-!
# Decimal numbers

A number as a document writes it: sign, digits and a power of ten, with the distinction between a
whole number and one written with a point or an exponent. `Number.text` writes it back.
-/

namespace ParamTwin

/-- The number `digits · 10 ^ exponent` with a sign, as a document writes it. -/
structure Number where
  negative : Bool
  digits : Nat
  exponent : Int
  /-- Written without a point and without an exponent. -/
  whole : Bool
deriving Repr, DecidableEq, Inhabited

namespace Number

/-- A natural number. -/
def ofNat (n : Nat) : Number :=
  { negative := false, digits := n, exponent := 0, whole := true }

/-- The decimal digits of a natural number, without leading zeros. -/
def digitText (n : Nat) : Text :=
  Nat.toDigits 10 n

/-- The value of a decimal digit. -/
def digitValue (c : Char) : Nat :=
  c.toNat - '0'.toNat

/-- The natural number that a run of decimal digits denotes. -/
def ofDigits (ds : Text) : Nat :=
  ds.foldl (fun n c => 10 * n + digitValue c) 0

/-- Which powers of ten of the leading digit are written without an exponent. -/
structure Layout where
  lowest : Int
  highest : Int

/-- Numbers from `0.00001` up to sixteen digits before the point are written without an exponent. -/
def plainLayout : Layout where
  lowest := -5
  highest := 15

/-- The digits with the point after the first `k` of them; at least one digit stands after it. -/
def pointAfter (k : Nat) (ds : Text) : Text :=
  if ds.length ≤ k then ds ++ List.replicate (k - ds.length) '0' ++ ['.', '0']
  else ds.take k ++ '.' :: ds.drop k

/-- A power of ten after the mark `e`, with its sign. -/
def exponentText (e : Int) : Text :=
  'e' :: (if e < 0 then '-' else '+') :: digitText e.natAbs

/-- A number with a point or an exponent, by the layout. -/
def fractionText (layout : Layout) (digits : Nat) (exponent : Int) : Text :=
  let ds := digitText digits
  if digits = 0 then ['0', '.', '0']
  else
    let lead : Int := ds.length - 1 + exponent
    if layout.lowest ≤ lead ∧ lead ≤ layout.highest then
      if lead < 0 then
        '0' :: '.' :: List.replicate (-lead - 1).toNat '0' ++ ds
      else pointAfter (lead + 1).toNat ds
    else
      match ds with
      | [] => []
      | [d] => d :: exponentText lead
      | d :: rest => d :: '.' :: rest ++ exponentText lead

/-- A number as it is written. -/
def text (n : Number) : Text :=
  (if n.negative then ['-'] else []) ++
    (if n.whole then digitText n.digits else fractionText plainLayout n.digits n.exponent)

end Number
end ParamTwin
