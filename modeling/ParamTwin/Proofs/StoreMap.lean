import Mathlib.Data.List.Nodup
import ParamTwin.Index.Store

/-!
# Stores as maps

What `Store.get?` finds is all that a store is: a map from ids to records.

* `Store.get?_insert`, `Store.get?_upsert`: of the records with one id, the last one that came in is
  found.
* `Store.records_perm`: stores with the same map have the same records, in some order.
* `Store.sorted_eq`, `Store.text_eq`: the saved form takes that order away.
-/

namespace ParamTwin

/-- The last record of a list that has the given id. -/
def IndexRecord.latest? (rs : List IndexRecord) (id : String) : Option IndexRecord :=
  rs.reverse.find? (·.id == id)

theorem IndexRecord.exists_latest? {rs : List IndexRecord} {r : IndexRecord} (h : r ∈ rs) :
    ∃ x, latest? rs r.id = some x := by
  rw [← Option.isSome_iff_exists, latest?, List.find?_isSome]
  exact ⟨r, List.mem_reverse.2 h, beq_self_eq_true _⟩

namespace Store

open IndexRecord

/-- With distinct ids, a record is found iff it is there. -/
theorem find?_id_eq_some_iff {rs : List IndexRecord} (h : (rs.map (·.id)).Nodup) {id : String}
    {r : IndexRecord} : rs.find? (·.id == id) = some r ↔ r ∈ rs ∧ r.id = id := by
  constructor
  · intro hfind
    exact ⟨List.mem_of_find?_eq_some hfind, by simpa using List.find?_some hfind⟩
  · rintro ⟨hr, rfl⟩
    cases hfind : rs.find? (·.id == r.id) with
    | none => exact absurd (by simp) (List.find?_eq_none.1 hfind r hr)
    | some r' =>
      have hid : r'.id = r.id := by simpa using List.find?_some hfind
      rw [List.inj_on_of_nodup_map h (List.mem_of_find?_eq_some hfind) hr hid]

theorem get?_eq_some_iff {s : Store} {id : String} {r : IndexRecord} :
    s.get? id = some r ↔ r ∈ s.records ∧ r.id = id :=
  find?_id_eq_some_iff s.distinct

@[simp] theorem get?_empty (id : String) : empty.get? id = none := rfl

/-! ## Records that come in -/

theorem mem_insert {s : Store} {r x : IndexRecord} :
    x ∈ (s.insert r).records ↔ x ∈ s.records ∧ x.id ≠ r.id ∨ x = r := by
  simp [insert]

theorem get?_insert (s : Store) (r : IndexRecord) (id : String) :
    (s.insert r).get? id = if r.id = id then some r else s.get? id := by
  ext x
  rw [get?_eq_some_iff, mem_insert]
  by_cases h : r.id = id
  · rw [if_pos h]
    constructor
    · rintro ⟨⟨-, hne⟩ | rfl, hid⟩
      · exact absurd (hid.trans h.symm) hne
      · rfl
    · intro hx
      cases hx
      exact ⟨.inr rfl, h⟩
  · rw [if_neg h, get?_eq_some_iff]
    constructor
    · rintro ⟨⟨hx, -⟩ | rfl, hid⟩
      · exact ⟨hx, hid⟩
      · exact absurd hid h
    · rintro ⟨hx, rfl⟩
      exact ⟨.inl ⟨hx, Ne.symm h⟩, rfl⟩

theorem get?_upsert (s : Store) (rs : List IndexRecord) (id : String) :
    (s.upsert rs).get? id = (latest? rs id).or (s.get? id) := by
  induction rs generalizing s with
  | nil => rfl
  | cons r rs ih =>
    have hstep : (s.upsert (r :: rs)).get? id = ((s.insert r).upsert rs).get? id := rfl
    rw [hstep, ih, get?_insert]
    unfold latest?
    rw [List.reverse_cons, List.find?_append, Option.or_assoc]
    congr 1
    by_cases h : r.id = id
    · simp [h]
    · simp [h]

/-- The store of some records holds the last one of each id. -/
theorem get?_ofList (rs : List IndexRecord) (id : String) :
    (ofList rs).get? id = latest? rs id := by
  rw [ofList, get?_upsert, get?_empty, Option.or_none]

theorem upsert_append (s : Store) (rs rs' : List IndexRecord) :
    s.upsert (rs ++ rs') = (s.upsert rs).upsert rs' :=
  List.foldl_append

/-! ## The map alone -/

theorem nodup_records (s : Store) : s.records.Nodup :=
  .of_map _ s.distinct

theorem records_perm {s t : Store} (h : ∀ id, s.get? id = t.get? id) :
    s.records.Perm t.records := by
  rw [List.perm_ext_iff_of_nodup s.nodup_records t.nodup_records]
  intro r
  have hr := congrArg (· = some r) (h r.id)
  simpa [get?_eq_some_iff] using hr

/-- Records in another order are found all the same. -/
theorem latest?_of_perm {s : Store} {rs : List IndexRecord} (h : rs.Perm s.records) (id : String) :
    latest? rs id = s.get? id := by
  have hperm := (List.reverse_perm rs).trans h
  ext r
  unfold latest?
  rw [find?_id_eq_some_iff ((hperm.map _).nodup_iff.2 s.distinct), get?_eq_some_iff, hperm.mem_iff]

theorem sorted_perm (s : Store) : s.sorted.Perm s.records :=
  List.mergeSort_perm _ _

theorem pairwise_sorted (s : Store) : s.sorted.Pairwise fun a b => a.id ≤ b.id := by
  have h : s.sorted.Pairwise fun a b => decide (a.id ≤ b.id) = true := by
    refine List.pairwise_mergeSort (fun a b c hab hbc => ?_) (fun a b => ?_) s.records
    · rw [decide_eq_true_eq] at hab hbc ⊢
      exact String.le_trans hab hbc
    · rw [Bool.or_eq_true, decide_eq_true_eq, decide_eq_true_eq]
      exact String.le_total a.id b.id
  exact h.imp of_decide_eq_true

/-- **The order of the records is lost in the saved form.** -/
theorem sorted_eq {s t : Store} (h : ∀ id, s.get? id = t.get? id) : s.sorted = t.sorted := by
  have hperm := (s.sorted_perm.trans (records_perm h)).trans t.sorted_perm.symm
  refine List.Perm.eq_of_pairwise (fun a b ha hb hab hba => ?_) s.pairwise_sorted t.pairwise_sorted
    hperm
  -- Both records stand in the second store, where ids are distinct.
  exact List.inj_on_of_nodup_map t.distinct (t.sorted_perm.mem_iff.1 (hperm.mem_iff.1 ha))
    (t.sorted_perm.mem_iff.1 hb) (String.le_antisymm hab hba)

theorem text_eq {s t : Store} (h : ∀ id, s.get? id = t.get? id) : s.text = t.text := by
  rw [text, text, sorted_eq h]

end Store
end ParamTwin
