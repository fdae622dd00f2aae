import ParamTwin.Error
import ParamTwin.Index.Cosine
import ParamTwin.Index.Record
import ParamTwin.Json.Reader

/-!
# Stores of index records

A store maps ids to records: a later record replaces an earlier one of the same id. Queries and the
saved text depend on that map only, not on the order in which records came.
-/

namespace ParamTwin

/-- Records with distinct ids. -/
structure Store where
  records : List IndexRecord
  distinct : (records.map (·.id)).Nodup

namespace Store

/-- The store without records. -/
def empty : Store :=
  { records := [], distinct := List.nodup_nil }

instance : Inhabited Store := ⟨empty⟩

/-- The record with the given id. -/
def get? (s : Store) (id : String) : Option IndexRecord :=
  s.records.find? (·.id == id)

/-- The number of records. -/
def size (s : Store) : Nat :=
  s.records.length

/-- The records of a list but those with the given id, and then one with that id: the ids stay
distinct. -/
theorem distinct_replace {rs : List IndexRecord} (h : (rs.map (·.id)).Nodup) (r : IndexRecord) :
    ((rs.filter (·.id != r.id) ++ [r]).map (·.id)).Nodup := by
  rw [List.map_append, List.map_cons, List.map_nil, List.nodup_append]
  refine ⟨?_, by simp, ?_⟩
  · exact h.sublist (List.filter_sublist.map _)
  · intro a ha b hb hab
    simp only [List.mem_singleton] at hb
    simp only [List.mem_map, List.mem_filter, bne_iff_ne] at ha
    obtain ⟨x, ⟨_, hx⟩, rfl⟩ := ha
    exact hx (hab.trans hb)

/-- The store with one more record, which replaces the one of the same id. -/
def insert (s : Store) (r : IndexRecord) : Store :=
  { records := s.records.filter (·.id != r.id) ++ [r]
    distinct := distinct_replace s.distinct r }

/-- The store with more records, inserted in order. -/
def upsert (s : Store) (rs : List IndexRecord) : Store :=
  rs.foldl insert s

/-- The store of the records of a list. -/
def ofList (rs : List IndexRecord) : Store :=
  empty.upsert rs

/-! ## Queries -/

/-- Whether a scored record stands before another: the better score first, then the lower id. -/
def before (a b : Single × IndexRecord) : Bool :=
  decide (b.1.key < a.1.key) || (a.1.key == b.1.key && decide (a.2.id ≤ b.2.id))

/-- The best `count` records of a type, with the scores that `score` gives their embeddings. -/
def rank (score : Embedding → Single) (s : Store) (count : Nat) (typeName : String) : List Hit :=
  let scored := (s.records.filter (·.typeName == typeName)).map fun r => (score r.values, r)
  ((scored.mergeSort before).take count).map fun (score, r) => { name := r.paramName, score }

/-- The best `count` records of a type for an embedding. -/
def query (s : Store) (vector : Embedding) (count : Nat) (typeName : String) : List Hit :=
  s.rank (Cosine.similarity vector) count typeName

/-! ## Saved form -/

/-- The records in ascending order of their ids. -/
def sorted (s : Store) : List IndexRecord :=
  s.records.mergeSort fun a b => decide (a.id ≤ b.id)

/-- A store as a JSON document. -/
def text (s : Store) : Text :=
  (Json.arr (s.sorted.map IndexRecord.toJson)).prettyAt 0

/-- The records of a JSON document. -/
def readRecords? (t : Text) : Option (List IndexRecord) := do
  (← (← Json.read? t).items?).mapM IndexRecord.ofJson?

/-- The store of a JSON document. -/
def ofText (t : Text) : Except Error Store :=
  match readRecords? t with
  | some rs => .ok (ofList rs)
  | none => .error .badJson

end Store
end ParamTwin
