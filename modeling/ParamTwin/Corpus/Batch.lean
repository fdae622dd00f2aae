import ParamTwin.Corpus.Record
import ParamTwin.Files.Tree

/-!
# Batches of records

Records are kept in numbered files, each a JSON array of records.
-/

namespace ParamTwin.Batch

/-- What stands before the number in the name of a batch file. -/
def nameStart : String := "contexts_"

/-- What stands after the number in the name of a batch file. -/
def nameEnd : String := ".json"

/-- The name of the file of a batch. -/
def fileName (n : Nat) : String :=
  nameStart ++ Nat.repr n ++ nameEnd

/-- The value of a decimal digit. -/
def digit? (c : Char) : Option Nat :=
  if '0' ≤ c && c ≤ '9' then some (c.toNat - '0'.toNat) else none

/-- The number of a row of decimal digits after those already read. -/
def digits? : Nat → Text → Option Nat
  | n, [] => some n
  | n, c :: cs => do digits? (10 * n + (← digit? c)) cs

/-- The numbers from here on are too large for a count. -/
def numberLimit : Nat := Nat.pow 2 64

/-- The count that a text denotes: decimal digits, which may follow a plus sign. -/
def count? (t : Text) : Option Nat :=
  let body := match t with
    | '+' :: cs => cs
    | cs => cs
  if body.isEmpty then none else (digits? 0 body).filter (· < numberLimit)

/-- The rest of a text after a given start. -/
def after? : Text → Text → Option Text
  | [], t => some t
  | _ :: _, [] => none
  | a :: as, c :: cs => if a = c then after? as cs else none

/-- The number in the name of a batch file. -/
def number? (name : String) : Option Nat := do
  let rest ← after? nameStart.toList name.toList
  let number ← after? nameEnd.toList.reverse rest.reverse
  count? number.reverse

/-- A list cut into parts of `size` items, the last of which may be shorter. Parts hold at least one
item. -/
def split {α : Type} (size : Nat) : List α → List (List α)
  | [] => []
  | x :: xs => (x :: xs.take (size - 1)) :: split size (xs.drop (size - 1))
termination_by xs => xs.length
decreasing_by
  simp only [List.length_drop, List.length_cons]
  omega

/-- The text of a batch. -/
def text (rs : List CorpusRecord) : Text :=
  (Json.arr (rs.map CorpusRecord.toJson)).prettyAt 0

/-- The records of the text of a batch. -/
def ofText? (t : Text) : Option (List CorpusRecord) := do
  (← (← Json.read? t).items?).mapM CorpusRecord.ofJson?

/-- The records of a batch file; none if it cannot be read. -/
def read? (files : FileTree) (path : String) : Option (List CorpusRecord) :=
  match files.readText path with
  | .ok t => ofText? t
  | .error _ => none

/-- The order of batch files: by number, then by path. -/
def numberedLe (a b : Nat × String) : Bool :=
  decide (a.1 < b.1) || (a.1 == b.1 && Path.le a.2 b.2)

/-- The paths of the batch files in a directory, in order. -/
def paths (files : FileTree) (dir : String) : Except Error (List String) :=
  match files.find dir with
  | .ok (l, .dir) =>
    let numbered := (files.names l).filterMap fun name =>
      (number? name).map fun n => (n, Path.join dir name)
    .ok ((numbered.mergeSort numberedLe).map (·.2))
  | _ => .error (.inputNotFound dir)

end ParamTwin.Batch
