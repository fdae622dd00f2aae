import ParamTwin.Index.Record

/-!
# Cosine similarity

The cosine of the angle between two vectors of binary32 numbers, each step rounded to binary32 and
sums taken from the left.
-/

namespace ParamTwin

namespace Single

/-- The number as a machine value. -/
def toFloat32 (x : Single) : Float32 :=
  Float32.ofBits x.bits

/-- The NaN that arithmetic makes. -/
def notANumber : Single :=
  { bits := 0xFFC00000 }

/-- A machine value as a number, with one bit pattern for all NaNs. -/
def ofFloat32 (x : Float32) : Single :=
  if x.isNaN then notANumber else { bits := x.toBits }

end Single

namespace Cosine

/-- The sums of the products of two vectors and of their squares. -/
def sums (as bs : Embedding) : Float32 × Float32 × Float32 :=
  (as.zip bs).foldl
    (fun (dot, left, right) (a, b) =>
      let a := a.toFloat32
      let b := b.toFloat32
      (dot + a * b, left + a * a, right + b * b))
    (0, 0, 0)

/-- The similarity of two vectors; zero if they differ in length, are empty or one of them has no
length. -/
def similarity (as bs : Embedding) : Single :=
  if as.length ≠ bs.length || as.isEmpty then { bits := 0 }
  else
    let (dot, left, right) := sums as bs
    if left == 0 || right == 0 then { bits := 0 }
    else Single.ofFloat32 (dot / (left.sqrt * right.sqrt))

end Cosine
end ParamTwin
