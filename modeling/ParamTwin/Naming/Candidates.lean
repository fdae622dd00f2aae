import ParamTwin.Naming.NameSet

/-!
# Candidate names by suffix

The endless sequence of candidates for a name `x`: `x2`, `xCopy`, `x_copy`, `x_1` to `x_999`, then
`x_dup1`, `x_dup2` and so on. As it never repeats, a finite set of bound names leaves a candidate
free among the first candidates that outnumber it.
-/

namespace ParamTwin.Candidates

/-- The largest number tried before the duplicates are counted. -/
def lastNumber : Nat := 999

/-- The suffix of the candidate at an index of the sequence. -/
def suffixAt (i : Nat) : String :=
  match i with
  | 0 => "2"
  | 1 => "Copy"
  | 2 => "_copy"
  | i + 3 =>
    if i < lastNumber then "_" ++ Nat.repr (i + 1) else "_dup" ++ Nat.repr (i - lastNumber + 1)

/-- The candidate at an index of the sequence. -/
def candidate (name : String) (i : Nat) : String :=
  name ++ suffixAt i

/-- The candidates from index `i` on, `n` of them. -/
def slice (name : String) (i n : Nat) : List String :=
  (List.range' i n).map (candidate name)

/-- The free ones among the candidates from index `i` on, at most `count`, looking at `n`. -/
def freeFrom (name : String) (bound : NameSet) : Nat → Nat → Nat → List String
  | _, _, 0 => []
  | _, 0, _ => []
  | i, n + 1, count + 1 =>
    if bound.contains (candidate name i) then freeFrom name bound (i + 1) n (count + 1)
    else candidate name i :: freeFrom name bound (i + 1) n count

/-- The first `count` candidates that are free. -/
def free (name : String) (bound : NameSet) (count : Nat) : List String :=
  freeFrom name bound 0 (bound.size + count) count

/-- The first candidate that is free. -/
def firstFree (name : String) (bound : NameSet) : String :=
  (free name bound 1).headD (name ++ "_dup")

end ParamTwin.Candidates
