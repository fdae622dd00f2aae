import ParamTwin.Decimal.Number

/-!
# Binary floating-point numbers of 32 bits

`Single` is a binary32 number as its bit pattern. `Single.ofNumber?` reads a decimal,
`Single.number` gives the decimal with the fewest digits that reads back, and `Single.key` the total
order on bit patterns in which a negative NaN is lowest and a positive one highest. All of it is
exact arithmetic on natural numbers.
-/

namespace ParamTwin

/-- A binary32 number by its bit pattern. -/
structure Single where
  bits : UInt32
deriving Repr, DecidableEq, Inhabited

namespace Binary

/-- A binary format: the bits of a significand, and the exponents of its least and greatest unit. -/
structure Precision where
  digits : Nat
  least : Int
  greatest : Int

/-- The format of 32 bits. -/
def single : Precision :=
  { digits := 24, least := -149, greatest := 104 }

/-- The format of 64 bits. -/
def double : Precision :=
  { digits := 53, least := -1074, greatest := 971 }

/-- The quotient rounded to the nearest natural number, a tie to the even one. -/
def roundDiv (num den : Nat) : Nat :=
  let q := num / den
  let r := num % den
  if 2 * r < den then q else if den < 2 * r then q + 1 else if q % 2 = 0 then q else q + 1

/-- `num / den` as a multiple of `2 ^ exponent`, rounded. -/
def scaled (num den : Nat) (exponent : Int) : Nat :=
  if exponent < 0 then roundDiv (num * Nat.pow 2 exponent.natAbs) den
  else roundDiv num (den * Nat.pow 2 exponent.natAbs)

/-- The exponent of the unit in which a positive `num / den` has a full significand, or the least
one of the format. -/
def unitExponent (p : Precision) (num den : Nat) : Int :=
  let guess := Int.ofNat (Nat.log2 num) - Int.ofNat (Nat.log2 den) - Int.ofNat p.digits
  let guess := if scaled num den guess < Nat.pow 2 p.digits then guess else guess + 1
  max guess p.least

/-- The nearest number `significand · 2 ^ exponent` of the format to `num / den`, none beyond its
range. -/
def nearest? (p : Precision) (num den : Nat) : Option (Nat × Int) :=
  if num = 0 then some (0, p.least)
  else
    let e := unitExponent p num den
    let m := scaled num den e
    let (m, e) := if m = Nat.pow 2 p.digits then (Nat.pow 2 (p.digits - 1), e + 1) else (m, e)
    if e ≤ p.greatest then some (m, e) else none

/-- A power of ten times a natural number as a fraction. -/
def fraction (base : Nat) (n : Nat) (exponent : Int) : Nat × Nat :=
  if exponent < 0 then (n, Nat.pow base exponent.natAbs) else (n * Nat.pow base exponent.natAbs, 1)

end Binary

namespace Single

open Binary

/-- The number of a sign, a significand below `2 ^ 24` and the exponent of its unit. -/
def assemble (negative : Bool) (m : Nat) (e : Int) : Single :=
  let magnitude :=
    if m < Nat.pow 2 23 then m
    else (e - single.least + 1).toNat * Nat.pow 2 23 + (m - Nat.pow 2 23)
  { bits := UInt32.ofNat ((if negative then Nat.pow 2 31 else 0) + magnitude) }

/-- Infinity with a sign. -/
def infinity (negative : Bool) : Single :=
  { bits := if negative then 0xFF800000 else 0x7F800000 }

/-- The nearest number to a fraction with a sign, infinity beyond the range. -/
def ofFraction (negative : Bool) (num den : Nat) : Single :=
  match nearest? single num den with
  | some (m, e) => assemble negative m e
  | none => infinity negative

/-- The largest power of ten that is looked at; a decimal beyond it is out of range or zero. -/
def exponentLimit : Int := 4096

/-- The number that a decimal denotes: a whole number below `2 ^ 64` is rounded once, any other
decimal first to 64 bits and then to 32. None if it is beyond the range of 64 bits. -/
def ofNumber? (n : Number) : Option Single :=
  if n.whole && n.digits < Nat.pow 2 64 && !(n.negative && n.digits = 0) then
    some (ofFraction n.negative n.digits 1)
  else if n.digits = 0 then some (assemble n.negative 0 single.least)
  else
    let lead := Int.ofNat (Nat.log2 n.digits / 4) + n.exponent
    if exponentLimit < lead then none
    else if lead < -exponentLimit then some (assemble n.negative 0 single.least)
    else
      let (num, den) := fraction 10 n.digits n.exponent
      match nearest? double num den with
      | none => none
      | some (m, e) =>
        let (num, den) := fraction 2 m e
        some (ofFraction n.negative num den)

/-! ## Parts -/

/-- Whether the sign is minus. -/
def isNegative (x : Single) : Bool :=
  Nat.pow 2 31 ≤ x.bits.toNat

/-- The bits without the sign. -/
def magnitude (x : Single) : Nat :=
  x.bits.toNat % Nat.pow 2 31

/-- Whether the number is neither infinite nor a NaN. -/
def isFinite (x : Single) : Bool :=
  x.magnitude < 255 * Nat.pow 2 23

/-- The significand and the exponent of its unit. -/
def parts (x : Single) : Nat × Int :=
  let biased : Nat := x.magnitude / Nat.pow 2 23
  let low : Nat := x.magnitude % Nat.pow 2 23
  if biased = 0 then (low, single.least) else (low + Nat.pow 2 23, single.least + biased - 1)

/-- The place in the total order of bit patterns. -/
def key (x : Single) : Int :=
  if x.isNegative then -(x.magnitude : Int) - 1 else x.magnitude

/-! ## Shortest decimals -/

/-- The numbers four times as fine as `m · 2 ^ e` that bound the reals which round to it, below and
above. -/
def bounds (m : Nat) (e : Int) : Nat × Nat :=
  (if m = Nat.pow 2 23 ∧ single.least < e then 4 * m - 1 else 4 * m - 2, 4 * m + 2)

/-- The multiple of `10 ^ k` nearest to `m · 2 ^ e` among those that round to it. -/
def multiple? (m : Nat) (e : Int) (k : Int) : Option Nat :=
  let (low, high) := bounds m e
  let (unit, den) := fraction 2 1 (e - 2)
  let (tens, tenth) := fraction 10 1 k
  let reads (d : Nat) : Bool :=
    let x := d * tens * den
    let low := low * unit * tenth
    let high := high * unit * tenth
    if m % 2 = 0 then low ≤ x && x ≤ high else low < x && x < high
  let num := 4 * m * unit * tenth
  let step := den * tens
  let d := num / step
  match 0 < d && reads d, reads (d + 1) with
  | true, true => some (roundDiv num step)
  | true, false => some d
  | false, true => some (d + 1)
  | false, false => none

/-- The powers of ten that are tried, the largest first. -/
def powers : List Int :=
  (List.range 90).map fun i => 40 - Int.ofNat i

/-- The digits and the power of ten of the shortest decimal that reads back as `m · 2 ^ e`. -/
def shortest (m : Nat) (e : Int) : Nat × Int :=
  (powers.findSome? fun k => (multiple? m e k).map fun d => (d, k)).getD (0, 0)

/-- The shortest decimal that reads back as the number. -/
def number (x : Single) : Number :=
  let (m, e) := x.parts
  let (digits, exponent) := if m = 0 then (0, 0) else shortest m e
  { negative := x.isNegative, digits, exponent, whole := false }

end Single
end ParamTwin
