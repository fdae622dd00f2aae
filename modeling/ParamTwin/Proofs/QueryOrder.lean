import ParamTwin.Proofs.StoreMap
import ParamTwin.Proofs.Utf8Order

/-!
# What a query of a store depends on

An answer is read off the map from ids to records alone. The records of the asked type have one
order, by falling score and then by rising id, and the answer is its start.

* `Single.key_lt_iff`, `Single.key_inj`: scores compare as bit patterns, so that signed zeros and
  NaNs have their places too.
* `Store.Ranking.unique`: the order of the records of a type is determined by the map.
* `Store.Ranking.rank_eq`: the answer is the start of it.
-/

namespace ParamTwin

/-! ## Bit patterns -/

namespace Single

/-- The total order of bit patterns: those with the sign bit stand below those without, and in the
opposite order. -/
def Below (x y : Single) : Prop :=
  (x.isNegative = true ∧ y.isNegative = false) ∨
    (x.isNegative = false ∧ y.isNegative = false ∧ x.bits < y.bits) ∨
    (x.isNegative = true ∧ y.isNegative = true ∧ y.bits < x.bits)

instance (x y : Single) : Decidable (x.Below y) :=
  inferInstanceAs (Decidable (_ ∨ _))

theorem isNegative_iff (x : Single) : x.isNegative = true ↔ 2147483648 ≤ x.bits.toNat := by
  simp [isNegative]

theorem key_of_isNegative {x : Single} (h : x.isNegative = true) :
    x.key = 2147483647 - (x.bits.toNat : Int) := by
  have hlow := (isNegative_iff x).1 h
  have hhigh := x.bits.toNat_lt
  simp only [key, magnitude, h, if_true, Nat.pow_eq, Nat.reducePow]
  omega

theorem key_of_not_isNegative {x : Single} (h : x.isNegative = false) :
    x.key = (x.bits.toNat : Int) := by
  have hhigh : ¬ 2147483648 ≤ x.bits.toNat := by
    rw [← isNegative_iff, h]
    exact Bool.false_ne_true
  simp only [key, magnitude, h, Bool.false_eq_true, if_false, Nat.pow_eq, Nat.reducePow]
  omega

theorem key_neg_iff (x : Single) : x.key < 0 ↔ x.isNegative = true := by
  cases h : x.isNegative with
  | false =>
    rw [key_of_not_isNegative h]
    simp
  | true =>
    have hlow := (isNegative_iff x).1 h
    rw [key_of_isNegative h]
    simp only [iff_true]
    omega

/-- **The key orders the bit patterns.** -/
theorem key_lt_iff (x y : Single) : x.key < y.key ↔ x.Below y := by
  have hx := key_neg_iff x
  have hy := key_neg_iff y
  unfold Below
  rw [UInt32.lt_iff_toNat_lt, UInt32.lt_iff_toNat_lt]
  cases hxn : x.isNegative with
  | false =>
    cases hyn : y.isNegative with
    | false =>
      rw [key_of_not_isNegative hxn, key_of_not_isNegative hyn]
      simp
    | true =>
      rw [hxn] at hx
      rw [hyn] at hy
      simp only [Bool.false_eq_true, Bool.true_eq_false, false_and, and_false, or_false, iff_false]
      simp only [Bool.false_eq_true, iff_false, iff_true] at hx hy
      omega
  | true =>
    cases hyn : y.isNegative with
    | false =>
      rw [hxn] at hx
      rw [hyn] at hy
      simp only [Bool.true_eq_false, true_and, and_true, true_or, iff_true]
      simp only [Bool.false_eq_true, iff_false, iff_true] at hx hy
      omega
    | true =>
      rw [key_of_isNegative hxn, key_of_isNegative hyn]
      simp only [Bool.true_eq_false, and_false, false_and, true_and, false_or]
      omega

theorem key_inj {x y : Single} : x.key = y.key ↔ x = y := by
  constructor
  · intro h
    have hsign : x.isNegative = y.isNegative := by
      rw [Bool.eq_iff_iff, ← key_neg_iff, ← key_neg_iff, h]
    have hbits : x.bits.toNat = y.bits.toNat := by
      cases hx : x.isNegative with
      | false =>
        rw [key_of_not_isNegative hx, key_of_not_isNegative (hsign ▸ hx)] at h
        exact Int.ofNat.inj h
      | true =>
        rw [key_of_isNegative hx, key_of_isNegative (hsign ▸ hx)] at h
        omega
    exact congrArg Single.mk (UInt32.toNat_inj.1 hbits)
  · intro h
    rw [h]

end Single

/-! ## The order of an answer -/

namespace Store

open IndexRecord

/-- Whether a record stands before another in an answer: its score is greater, or the scores are the
same and its id is lower. -/
def Outranks (score : Embedding → Single) (a b : IndexRecord) : Prop :=
  (score b.values).Below (score a.values) ∨
    score a.values = score b.values ∧ Text.encode a.id.toList < Text.encode b.id.toList

instance (score : Embedding → Single) : DecidableRel (Outranks score) :=
  fun _ _ => inferInstanceAs (Decidable (_ ∨ _))

/-- The records of a type that a map holds under their ids, in the order of an answer. -/
structure Ranking (score : Embedding → Single) (stored : String → Option IndexRecord)
    (typeName : String) (rs : List IndexRecord) : Prop where
  mem : ∀ r, r ∈ rs ↔ stored r.id = some r ∧ r.typeName = typeName
  ordered : rs.Pairwise (Outranks score)

/-- What an answer says of a record. -/
def hit (score : Embedding → Single) (r : IndexRecord) : Hit :=
  { name := r.paramName, score := score r.values }

variable {score : Embedding → Single}

theorem outranks_iff {a b : IndexRecord} :
    Outranks score a b ↔ (score b.values).key < (score a.values).key ∨
      (score a.values).key = (score b.values).key ∧ a.id < b.id := by
  rw [Outranks, Single.key_lt_iff, Single.key_inj, Text.encode_lt_iff, String.lt_iff]

theorem not_outranks_of_outranks {a b : IndexRecord} (h : Outranks score a b) :
    ¬ Outranks score b a := by
  rw [outranks_iff] at h ⊢
  intro h'
  rcases h with hlt | ⟨heq, hid⟩
  · rcases h' with hlt' | ⟨heq', -⟩ <;> omega
  · rcases h' with hlt' | ⟨-, hid'⟩
    · omega
    · exact String.lt_asymm hid hid'

theorem Ranking.nodup {stored : String → Option IndexRecord} {typeName : String}
    {rs : List IndexRecord} (h : Ranking score stored typeName rs) : rs.Nodup := by
  refine h.ordered.imp ?_
  intro a b hab heq
  subst heq
  exact not_outranks_of_outranks hab hab

/-- **The map determines the order.** -/
theorem Ranking.unique {stored : String → Option IndexRecord} {typeName : String}
    {rs rs' : List IndexRecord} (h : Ranking score stored typeName rs)
    (h' : Ranking score stored typeName rs') : rs = rs' := by
  have hperm : rs.Perm rs' := by
    rw [List.perm_ext_iff_of_nodup h.nodup h'.nodup]
    intro r
    rw [h.mem, h'.mem]
  refine hperm.eq_of_pairwise ?_ h.ordered h'.ordered
  intro a b _ _ hab hba
  exact absurd hba (not_outranks_of_outranks hab)

/-! ## The answer -/

/-- The records of a type as a query sorts them. -/
def ranked (score : Embedding → Single) (s : Store) (typeName : String) : List IndexRecord :=
  (s.records.filter (·.typeName == typeName)).mergeSort fun a b =>
    before (score a.values, a) (score b.values, b)

theorem rank_eq_ranked (s : Store) (count : Nat) (typeName : String) :
    s.rank score count typeName = ((s.ranked score typeName).take count).map (hit score) := by
  have hmap : (s.ranked score typeName).map (fun r => (score r.values, r)) =
      ((s.records.filter (·.typeName == typeName)).map fun r =>
        (score r.values, r)).mergeSort before :=
    List.map_mergeSort fun _ _ _ _ => rfl
  rw [rank, ← hmap, ← List.map_take, List.map_map]
  rfl

theorem before_iff (a b : IndexRecord) :
    before (score a.values, a) (score b.values, b) = true ↔
      (score b.values).key < (score a.values).key ∨
        (score a.values).key = (score b.values).key ∧ a.id ≤ b.id := by
  simp [before]

theorem before_trans (score : Embedding → Single) (a b c : IndexRecord)
    (hab : before (score a.values, a) (score b.values, b) = true)
    (hbc : before (score b.values, b) (score c.values, c) = true) :
    before (score a.values, a) (score c.values, c) = true := by
  rw [before_iff] at hab hbc ⊢
  rcases hab with hab | ⟨hab, hid⟩
  · rcases hbc with hbc | ⟨hbc, -⟩
    · exact .inl (Int.lt_trans hbc hab)
    · exact .inl (hbc ▸ hab)
  · rcases hbc with hbc | ⟨hbc, hid'⟩
    · exact .inl (hab ▸ hbc)
    · exact .inr ⟨hab.trans hbc, String.le_trans hid hid'⟩

theorem before_total (score : Embedding → Single) (a b : IndexRecord) :
    (before (score a.values, a) (score b.values, b) ||
      before (score b.values, b) (score a.values, a)) = true := by
  rw [Bool.or_eq_true, before_iff, before_iff]
  rcases Int.lt_trichotomy (score a.values).key (score b.values).key with hlt | heq | hgt
  · exact .inr (.inl hlt)
  · rcases String.le_total a.id b.id with hid | hid
    · exact .inl (.inr ⟨heq, hid⟩)
    · exact .inr (.inr ⟨heq.symm, hid⟩)
  · exact .inl (.inl hgt)

/-- The sorted records of a type are ranked: ids are distinct, so no two records tie. -/
theorem ranking_ranked (score : Embedding → Single) (s : Store) (typeName : String) :
    Ranking score s.get? typeName (s.ranked score typeName) where
  mem r := by
    rw [ranked, List.mem_mergeSort, List.mem_filter, beq_iff_eq, get?_eq_some_iff]
    simp
  ordered := by
    have hsorted := List.pairwise_mergeSort (before_trans score) (before_total score)
      (s.records.filter (·.typeName == typeName))
    have hdistinct : (s.ranked score typeName).Pairwise fun a b => a.id ≠ b.id := by
      rw [← List.pairwise_map (f := IndexRecord.id) (R := fun x y => x ≠ y)]
      refine ((List.mergeSort_perm _ _).map _).nodup_iff.2 ?_
      exact s.distinct.sublist (List.filter_sublist.map _)
    refine (hsorted.and hdistinct).imp ?_
    intro a b hab
    rw [outranks_iff]
    rcases (before_iff a b).1 hab.1 with hlt | ⟨heq, hid⟩
    · exact .inl hlt
    · exact .inr ⟨heq, String.not_le.1 fun hid' => hab.2 (String.le_antisymm hid hid')⟩

/-- **The answer is the start of the ranking.** -/
theorem Ranking.rank_eq {s : Store} {typeName : String} {rs : List IndexRecord}
    (h : Ranking score s.get? typeName rs) (count : Nat) :
    s.rank score count typeName = (rs.take (min count rs.length)).map (hit score) := by
  rw [rank_eq_ranked, (ranking_ranked score s typeName).unique h, ← List.take_take,
    List.take_of_length_le (Nat.le_refl rs.length)]

theorem rank_eq_of_get?_eq {s t : Store} (h : ∀ id, s.get? id = t.get? id) (count : Nat)
    (typeName : String) : s.rank score count typeName = t.rank score count typeName := by
  have hmap : s.get? = t.get? := funext h
  have hranking := hmap ▸ ranking_ranked score s typeName
  rw [(ranking_ranked score s typeName).rank_eq, hranking.rank_eq]

/-! ## Histories -/

theorem get?_eq_of_perm {s t : Store} (h : s.records.Perm t.records) (id : String) :
    s.get? id = t.get? id := by
  ext r
  rw [get?_eq_some_iff, get?_eq_some_iff, h.mem_iff]

theorem foldl_upsert (start : Store) (batches : List (List IndexRecord)) :
    batches.foldl upsert start = start.upsert batches.flatten := by
  induction batches generalizing start with
  | nil => rfl
  | cons rs batches ih => rw [List.foldl_cons, ih, List.flatten_cons, upsert_append]

/-- Of two lists without common ids, at most one has a record with a given id. -/
theorem latest?_or_comm {xs ys : List IndexRecord} (h : ∀ x ∈ xs, ∀ y ∈ ys, x.id ≠ y.id)
    (id : String) : (latest? xs id).or (latest? ys id) = (latest? ys id).or (latest? xs id) := by
  cases hx : latest? xs id with
  | none => rw [Option.none_or, Option.or_none]
  | some x =>
    cases hy : latest? ys id with
    | none => rw [Option.none_or, Option.or_none]
    | some y =>
      unfold latest? at hx hy
      have hxid : x.id = id := by simpa using List.find?_some hx
      have hyid : y.id = id := by simpa using List.find?_some hy
      have hxs := List.mem_reverse.1 (List.mem_of_find?_eq_some hx)
      have hys := List.mem_reverse.1 (List.mem_of_find?_eq_some hy)
      exact absurd (hxid.trans hyid.symm) (h x hxs y hys)

theorem get?_upsert_comm (s : Store) {xs ys : List IndexRecord}
    (h : ∀ x ∈ xs, ∀ y ∈ ys, x.id ≠ y.id) (id : String) :
    ((s.upsert xs).upsert ys).get? id = ((s.upsert ys).upsert xs).get? id := by
  simp only [get?_upsert, ← Option.or_assoc, latest?_or_comm h id]

/-- **An answer depends on the last record of each id alone.** Whatever the score, after any batches
of records and in whatever order the records are kept, there is one ranking of the records of a type
that came last for their ids, and the answer is its start; histories that agree on the last records
answer alike, batches may be joined, and batches without common ids may come in either order. -/
theorem answer_of_history (score : Embedding → Embedding → Single) (start : Store)
    (batches : List (List IndexRecord)) :
    (∀ id, (batches.foldl upsert start).get? id =
      (latest? batches.flatten id).or (start.get? id)) ∧
    (∀ s : Store, s.records.Perm (batches.foldl upsert start).records →
      ∀ vector count typeName, ∃ rs,
        Ranking (score vector) (fun id => (latest? batches.flatten id).or (start.get? id))
          typeName rs ∧
        (∀ rs', Ranking (score vector)
          (fun id => (latest? batches.flatten id).or (start.get? id)) typeName rs' → rs' = rs) ∧
        s.rank (score vector) count typeName =
          (rs.take (min count rs.length)).map (hit (score vector))) ∧
    (∀ (start' : Store) (batches' : List (List IndexRecord)),
      (∀ id, (latest? batches'.flatten id).or (start'.get? id) =
        (latest? batches.flatten id).or (start.get? id)) →
      ∀ s t : Store, s.records.Perm (batches.foldl upsert start).records →
        t.records.Perm (batches'.foldl upsert start').records → ∀ vector count typeName,
        s.rank (score vector) count typeName = t.rank (score vector) count typeName) ∧
    (∀ xs ys, (start.upsert xs).upsert ys = start.upsert (xs ++ ys)) ∧
    (∀ xs ys : List IndexRecord, (∀ x ∈ xs, ∀ y ∈ ys, x.id ≠ y.id) →
      (∀ id, ((start.upsert xs).upsert ys).get? id = ((start.upsert ys).upsert xs).get? id) ∧
      ∀ vector count typeName, ((start.upsert xs).upsert ys).rank (score vector) count typeName =
        ((start.upsert ys).upsert xs).rank (score vector) count typeName) ∧
    ∀ (s : Store) vector count typeName,
      s.query vector count typeName = s.rank (Cosine.similarity vector) count typeName := by
  have hstored (start : Store) (batches : List (List IndexRecord)) (id : String) :
      (batches.foldl upsert start).get? id = (latest? batches.flatten id).or (start.get? id) := by
    rw [foldl_upsert, get?_upsert]
  refine ⟨hstored start batches, ?_, ?_, ?_, ?_, ?_⟩
  · intro s hs vector count typeName
    have hmap : s.get? = fun id => (latest? batches.flatten id).or (start.get? id) := by
      funext id
      rw [get?_eq_of_perm hs, hstored]
    have hranking := ranking_ranked (score vector) s typeName
    exact ⟨_, hmap ▸ hranking, fun rs' h => h.unique (hmap ▸ hranking), hranking.rank_eq count⟩
  · intro start' batches' hsame s t hs ht vector count typeName
    refine rank_eq_of_get?_eq (fun id => ?_) count typeName
    rw [get?_eq_of_perm hs, get?_eq_of_perm ht, hstored, hstored, hsame]
  · intro xs ys
    exact (upsert_append start xs ys).symm
  · intro xs ys h
    have hcomm := get?_upsert_comm start h
    exact ⟨hcomm, fun vector count typeName => rank_eq_of_get?_eq hcomm count typeName⟩
  · intro s vector count typeName
    rfl

/-- A record whose embedding is one number. -/
def scored (id typeName paramName : String) (bits : UInt32) : IndexRecord :=
  { id, values := [{ bits }], typeName, paramName }

/-- Two NaNs tie and go by id, the record that was replaced is gone, and a record of another type is
no answer. -/
theorem nan_scores_by_id :
    (Store.mk [scored "b" "int" "count" 0x7FC00000, scored "d" "bool" "done" 0x7FC00000,
        scored "a" "int" "size" 0x7FC00000, scored "c" "int" "zero" 0x80000000]
        (by decide)).rank (·.headD default) 2 "int" =
      [{ name := "size", score := { bits := 0x7FC00000 } },
        { name := "count", score := { bits := 0x7FC00000 } }] := by
  obtain ⟨hstored, hanswer, -⟩ := answer_of_history (fun _ values => values.headD default) empty
    [[scored "b" "int" "old" 0, scored "c" "int" "zero" 0x80000000],
      [scored "a" "int" "size" 0x7FC00000, scored "d" "bool" "done" 0x7FC00000,
        scored "b" "int" "count" 0x7FC00000]]
  obtain ⟨rs, -, hunique, hrank⟩ := hanswer (Store.mk [scored "b" "int" "count" 0x7FC00000,
    scored "d" "bool" "done" 0x7FC00000, scored "a" "int" "size" 0x7FC00000,
    scored "c" "int" "zero" 0x80000000] (by decide)) (by decide) [] 2 "int"
  have hrs : [scored "a" "int" "size" 0x7FC00000, scored "b" "int" "count" 0x7FC00000,
      scored "c" "int" "zero" 0x80000000] = rs := by
    refine hunique _ ⟨?_, ?_⟩
    · intro r
      rw [← hstored, get?_eq_some_iff]
      show _ ↔ (r ∈ [scored "c" "int" "zero" 0x80000000, scored "a" "int" "size" 0x7FC00000,
        scored "d" "bool" "done" 0x7FC00000, scored "b" "int" "count" 0x7FC00000] ∧ _) ∧ _
      simp only [List.mem_cons, List.not_mem_nil, or_false]
      constructor
      · rintro (rfl | rfl | rfl) <;> decide
      · rintro ⟨⟨rfl | rfl | rfl | rfl, -⟩, htype⟩ <;> revert htype <;> decide
    · decide
  rw [hrank, ← hrs]
  rfl

end Store
end ParamTwin
