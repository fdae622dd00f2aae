import ParamTwin.Index.LocalIndex
import ParamTwin.Proofs.FileWrites
import ParamTwin.Proofs.JsonRoundTrip
import ParamTwin.Proofs.NumberText
import ParamTwin.Proofs.StoreMap
import ParamTwin.Proofs.Traversal

/-!
# Saved indexes are opened again

An index is saved as a JSON array of its records in the order of their ids. Opening the file gives
an index with the same map, if its numbers are read back from their own texts:

* `IndexRecord.exists_readsAs`, `Store.readRecords?_text_eq`: what is read from the texts of a
  record and of a store, whatever their numbers are.
* `Store.ofText_text`: the text of a store is read as a store.
* `LocalIndex.saved_index_reopens`: saving and opening, after any history of upserts.
-/

namespace ParamTwin

/-- Values that are written as JSON one by one are read back one by one. -/
theorem Json.exists_readsAs_mapM {α β : Type} {write : α → Json} {read : Json → Option β}
    {reread : α → Option β} {as : List α}
    (h : ∀ a ∈ as, ∃ j, ReadsAs (write a) j ∧ read j = reread a) :
    ∃ js, List.Forall₂ ReadsAs (as.map write) js ∧ js.mapM read = as.mapM reread := by
  induction as with
  | nil => exact ⟨[], .nil, rfl⟩
  | cons a as ih =>
    obtain ⟨j, hj, ha⟩ := h a (.head _)
    obtain ⟨js, hjs, has⟩ := ih fun x hx => h x (.tail _ hx)
    refine ⟨j :: js, .cons hj hjs, ?_⟩
    rw [List.mapM_cons, List.mapM_cons, ha, has]

/-- The number that a text denotes as a whole. -/
def Single.ofText? (t : Text) : Option Single :=
  match Json.readNumber t with
  | some (n, []) => Single.ofNumber? n
  | _ => none

/-- A number is read back from its own text, which only finite numbers have. -/
def Single.ReadsBack (x : Single) : Prop :=
  x.isFinite = true ∧ Single.ofText? x.number.text = some x

instance : DecidablePred Single.ReadsBack :=
  fun _ => inferInstanceAs (Decidable (_ ∧ _))

/-- The number that is read from what is written for a number. -/
def Single.reread? (x : Single) : Option Single :=
  if x.isFinite then Single.ofText? x.number.text else none

theorem Single.reread?_eq_self_iff {x : Single} : x.reread? = some x ↔ x.ReadsBack := by
  unfold Single.reread? Single.ReadsBack
  split
  · rename_i hfinite
    simp [hfinite]
  · rename_i hfinite
    simp [hfinite]

theorem Single.exists_readsAs (x : Single) :
    ∃ j, Json.ReadsAs x.toJson j ∧ Single.ofJson? j = x.reread? := by
  unfold Single.toJson Single.reread?
  split
  · obtain ⟨n, hn⟩ := Number.exists_readNumber_text (n := x.number) rfl
    refine ⟨.num n, .num fun rest hrest => Json.readNumber_append hrest hn, ?_⟩
    rw [Single.ofText?, hn]
    rfl
  · exact ⟨.null, .null, rfl⟩

/-- The record that is read from what is written for a record. -/
def IndexRecord.reread? (r : IndexRecord) : Option IndexRecord :=
  (r.values.mapM Single.reread?).map fun values => { r with values }

/-- The text of a record is read as a value. -/
theorem IndexRecord.exists_readsAs (r : IndexRecord) :
    ∃ j, Json.ReadsAs r.toJson j ∧ IndexRecord.ofJson? j = r.reread? := by
  obtain ⟨js, hjs, hvalues⟩ := Json.exists_readsAs_mapM
    fun x (_ : x ∈ r.values) => x.exists_readsAs
  have hmetadata : Json.ReadsAs r.metadataJson r.metadataJson :=
    .obj (.cons ⟨rfl, .str _⟩ (.cons ⟨rfl, .str _⟩ .nil))
  refine ⟨.obj [("id", .str r.id), ("values", .arr js), ("metadata", r.metadataJson)],
    .obj (.cons ⟨rfl, .str _⟩ (.cons ⟨rfl, .arr hjs⟩ (.cons ⟨rfl, hmetadata⟩ .nil))), ?_⟩
  have hread : IndexRecord.ofJson? (.obj [("id", .str r.id), ("values", .arr js),
      ("metadata", r.metadataJson)]) =
      (js.mapM Single.ofJson?).bind fun values => some { r with values } := rfl
  rw [hread, hvalues, reread?]
  cases r.values.mapM Single.reread? <;> rfl

theorem IndexRecord.reread?_eq_self_iff {r : IndexRecord} :
    r.reread? = some r ↔ ∀ x ∈ r.values, x.ReadsBack := by
  have hvalues : r.reread? = some r ↔ r.values.mapM Single.reread? = some r.values := by
    unfold reread?
    cases r.values.mapM Single.reread? with
    | none => simp
    | some values =>
      cases r
      simp
  rw [hvalues, mapM_eq_some_iff, List.forall₂_same]
  simp only [Single.reread?_eq_self_iff]

theorem IndexRecord.id_of_reread? {r r' : IndexRecord} (h : r.reread? = some r') :
    r'.id = r.id := by
  obtain ⟨values, -, rfl⟩ := Option.map_eq_some_iff.1 h
  rfl

/-- A number that is not finite is written as null, which is not read as a number. -/
theorem IndexRecord.reread?_eq_none {r : IndexRecord} {x : Single} (hx : x ∈ r.values)
    (h : x.isFinite = false) : r.reread? = none := by
  cases hvalues : r.values.mapM Single.reread? with
  | none => rw [reread?, hvalues, Option.map_none]
  | some values =>
    obtain ⟨y, hy⟩ := exists_forall₂_iff.1 ⟨values, mapM_eq_some_iff.1 hvalues⟩ x hx
    simp [Single.reread?, h] at hy

namespace Store

/-- The text of a store holds its records in the order of their ids, as they are read back. -/
theorem readRecords?_text_eq (s : Store) :
    readRecords? s.text = s.sorted.mapM IndexRecord.reread? := by
  obtain ⟨js, hjs, hrecords⟩ := Json.exists_readsAs_mapM
    fun r (_ : r ∈ s.sorted) => r.exists_readsAs
  unfold readRecords? text
  rw [Json.read?_of_readsAs (.arr hjs)]
  exact hrecords

theorem readRecords?_text {s : Store} (h : ∀ r ∈ s.records, ∀ x ∈ r.values, x.ReadsBack) :
    readRecords? s.text = some s.sorted := by
  rw [readRecords?_text_eq, mapM_eq_some_iff, List.forall₂_same]
  intro r hr
  exact IndexRecord.reread?_eq_self_iff.2 (h r (s.sorted_perm.mem_iff.1 hr))

theorem ofText_text {s : Store} (h : ∀ r ∈ s.records, ∀ x ∈ r.values, x.ReadsBack) :
    ofText s.text = .ok (ofList s.sorted) := by
  rw [ofText, readRecords?_text h]

theorem get?_ofList_sorted (s : Store) (id : String) : (ofList s.sorted).get? id = s.get? id := by
  rw [get?_ofList, latest?_of_perm s.sorted_perm]

theorem exists_mapM_of_ofText_text {s t : Store} (h : ofText s.text = .ok t) :
    ∃ rs, s.sorted.mapM IndexRecord.reread? = some rs ∧ t = ofList rs := by
  rw [ofText, readRecords?_text_eq] at h
  cases hrs : s.sorted.mapM IndexRecord.reread? with
  | none => simp [hrs] at h
  | some rs => exact ⟨rs, rfl, by simpa [hrs, eq_comm] using h⟩

/-- One record that is not read back is enough for the text of a store not to be read. -/
theorem ofText_text_of_reread?_eq_none {s : Store} {r : IndexRecord} (hr : r ∈ s.records)
    (h : r.reread? = none) : ofText s.text = .error .badJson := by
  rw [ofText, readRecords?_text_eq]
  cases hrs : s.sorted.mapM IndexRecord.reread? with
  | none => rfl
  | some rs =>
    obtain ⟨r', hr'⟩ :=
      exists_forall₂_iff.1 ⟨rs, mapM_eq_some_iff.1 hrs⟩ r (s.sorted_perm.mem_iff.2 hr)
    cases h.symm.trans hr'

/-- The text of a store is read as the same map iff all numbers in it are read back. -/
theorem exists_ofText_text_iff (s : Store) :
    (∃ t, ofText s.text = .ok t ∧ ∀ id, t.get? id = s.get? id) ↔
      ∀ id r, s.get? id = some r → ∀ x ∈ r.values, x.ReadsBack := by
  constructor
  · rintro ⟨t, ht, hsame⟩ id r hr
    obtain ⟨rs, hrs, rfl⟩ := exists_mapM_of_ofText_text ht
    have hfound : IndexRecord.latest? rs id = some r := by rw [← get?_ofList, hsame, hr]
    have hmem : r ∈ rs := List.mem_reverse.1 (List.mem_of_find?_eq_some hfound)
    obtain ⟨r', hr', hread⟩ := exists_mem_of_forall₂ (mapM_eq_some_iff.1 hrs) hmem
    -- The record was read from one of its own id, and the store has one record of each id.
    have hid : r'.id = id := by
      rw [← IndexRecord.id_of_reread? hread, (get?_eq_some_iff.1 hr).2]
    have hstored := get?_eq_some_iff.2 ⟨s.sorted_perm.mem_iff.1 hr', hid⟩
    cases hr.symm.trans hstored
    exact IndexRecord.reread?_eq_self_iff.1 hread
  · intro h
    exact ⟨_, ofText_text fun r hr => h r.id r (get?_eq_some_iff.2 ⟨hr, rfl⟩),
      s.get?_ofList_sorted⟩

theorem head?_text (s : Store) : s.text.head? = some '[' := by
  unfold text
  cases s.sorted <;> rfl

end Store

namespace LocalIndex

theorem path_of_open {files : FileTree} {path : String} {i : LocalIndex}
    (h : LocalIndex.open files path = .ok i) : i.path = some path := by
  unfold LocalIndex.open at h
  split at h
  · cases hread : files.readText path with
    | error e => simp [hread, bind, Except.bind] at h
    | ok text =>
      cases hstore : Store.ofText text with
      | error e => simp [hread, hstore, bind, Except.bind] at h
      | ok store =>
        simp only [hread, hstore, bind, Except.bind, pure, Except.pure, Except.ok.injEq] at h
        rw [← h]
  · cases h
    rfl

theorem open_of_find_text {s : Store} {files : FileTree} {path : String} {l : Location}
    (hfind : files.find path = .ok (l, .file (Text.encode s.text))) :
    LocalIndex.open files path =
      (Store.ofText s.text).map fun t => { store := t, path := some path } := by
  have hexists : files.exists path = true := by
    rw [FileTree.exists, hfind]
  have hread : files.readText path = .ok s.text :=
    FileTree.readText_of_find hfind (by rw [s.head?_text]; decide)
  unfold LocalIndex.open
  rw [if_pos hexists, hread]
  simp only [bind, Except.bind]
  cases Store.ofText s.text <;> rfl

theorem open_of_find {s : Store} {files : FileTree} {path : String} {l : Location}
    (h : ∀ r ∈ s.records, ∀ x ∈ r.values, x.ReadsBack)
    (hfind : files.find path = .ok (l, .file (Text.encode s.text))) :
    LocalIndex.open files path = .ok { store := .ofList s.sorted, path := some path } := by
  rw [open_of_find_text hfind, Store.ofText_text h]
  rfl

theorem open_of_save {i : LocalIndex} {files files' : FileTree} {path : String}
    (h : i.save files path = (files', .ok ())) :
    LocalIndex.open files' path =
      (Store.ofText i.store.text).map fun t => { store := t, path := some path } := by
  obtain ⟨t, hwrite, -, l, hfind, -⟩ :=
    FileTree.wrote_of_writable (FileTree.writable_of_writeText h) i.store.text
  obtain ⟨rfl, -⟩ := Prod.mk.inj (hwrite.symm.trans h)
  exact open_of_find_text hfind

/-- A saved index is opened as the same map iff all numbers in it are read back. -/
theorem exists_open_of_save_iff {i : LocalIndex} {files files' : FileTree} {path : String}
    (h : i.save files path = (files', .ok ())) :
    (∃ j, LocalIndex.open files' path = .ok j ∧ ∀ id, j.store.get? id = i.store.get? id) ↔
      ∀ id r, i.store.get? id = some r → ∀ x ∈ r.values, x.ReadsBack := by
  rw [open_of_save h, ← Store.exists_ofText_text_iff]
  cases Store.ofText i.store.text with
  | error e => simp [Except.map]
  | ok t => simp [Except.map]

theorem open_of_save_not_finite {i : LocalIndex} {files files' : FileTree} {path : String}
    (h : i.save files path = (files', .ok ())) {id : String} {r : IndexRecord}
    (hr : i.store.get? id = some r) {x : Single} (hx : x ∈ r.values) (hbad : x.isFinite = false) :
    LocalIndex.open files' path = .error .badJson := by
  rw [open_of_save h, Store.ofText_text_of_reread?_eq_none (Store.get?_eq_some_iff.1 hr).1
    (IndexRecord.reread?_eq_none hx hbad)]
  rfl

theorem exists_save_iff {i : LocalIndex} {files : FileTree} {path : String} :
    (∃ files', i.save files path = (files', .ok ())) ↔ files.Writable path := by
  constructor
  · rintro ⟨files', hsave⟩
    exact FileTree.writable_of_writeText hsave
  · intro h
    obtain ⟨files', hwrite, -⟩ := FileTree.wrote_of_writable h i.store.text
    exact ⟨files', hwrite⟩

theorem exists_flush_iff {i : LocalIndex} {files : FileTree} :
    (∃ files', i.flush files = (files', .ok ())) ↔ ∀ path ∈ i.path, files.Writable path := by
  unfold flush
  cases i.path with
  | none => simp
  | some path => simpa using exists_save_iff

theorem foldl_upsert_store (i : LocalIndex) (batches : List (List IndexRecord)) :
    (batches.foldl upsert i).store = i.store.upsert batches.flatten := by
  induction batches generalizing i with
  | nil => rfl
  | cons rs batches ih =>
    rw [List.foldl_cons, ih, List.flatten_cons, Store.upsert_append]
    rfl

/-- **A saved index is opened again.** Upserts leave the last record of each id. An index can be
saved iff its file can be written; opening the file then gives an index with the same map, if the
numbers stored are read back from their own texts. An index with the same map saves the same file,
whatever the order of its records. -/
theorem saved_index_reopens (start : LocalIndex) (batches : List (List IndexRecord))
    (files : FileTree) (path : String) :
    let i := batches.foldl upsert start
    (∀ id, i.store.get? id =
      (IndexRecord.latest? batches.flatten id).or (start.store.get? id)) ∧
    ((∃ files', i.save files path = (files', .ok ())) ↔ files.Writable path) ∧
    (∀ files', i.save files path = (files', .ok ()) →
      (∀ id r, i.store.get? id = some r → ∀ x ∈ r.values, x.ReadsBack) →
      ∃ j, LocalIndex.open files' path = .ok j ∧ j.path = some path ∧
        ∀ id, j.store.get? id = i.store.get? id) ∧
    ∀ other : LocalIndex, (∀ id, other.store.get? id = i.store.get? id) →
      other.save files path = i.save files path := by
  intro i
  refine ⟨fun id => ?_, exists_save_iff, fun files' hsave hvalues => ?_, fun other hsame => ?_⟩
  · rw [foldl_upsert_store, Store.get?_upsert]
  · obtain ⟨t, hwrite, -, l, hfind, -⟩ :=
      FileTree.wrote_of_writable (FileTree.writable_of_writeText hsave) i.store.text
    obtain ⟨rfl, -⟩ := Prod.mk.inj (hwrite.symm.trans hsave)
    have hstored : ∀ r ∈ i.store.records, ∀ x ∈ r.values, x.ReadsBack :=
      fun r hr => hvalues r.id r (Store.get?_eq_some_iff.2 ⟨hr, rfl⟩)
    exact ⟨_, open_of_find hstored hfind, rfl, i.store.get?_ofList_sorted⟩
  · unfold save
    rw [Store.text_eq hsame]

/-- Two records of one id, and one whose id and name need escapes. -/
def sampleBatches : List (List IndexRecord) :=
  [[{ id := "b", values := [⟨0x3DCCCCCD⟩, ⟨0xB3D6BF95⟩], typeName := "int", paramName := "old" },
    { id := "\"é\n", values := [], typeName := "List<int>", paramName := "\\𝔸\t" }],
   [{ id := "b", values := [⟨0x60AD78EC⟩, ⟨0x80000000⟩], typeName := "int", paramName := "new" }]]

theorem sample_index_reopened :
    ∃ files' j, (sampleBatches.foldl upsert .new).save .empty "store/index.json" =
        (files', .ok ()) ∧
      LocalIndex.open files' "store/index.json" = .ok j ∧
      (j.store.get? "b").map (·.paramName) = some "new" := by
  obtain ⟨hmap, hsave, hopen, -⟩ :=
    saved_index_reopens .new sampleBatches .empty "store/index.json"
  have hwritable : FileTree.empty.Writable "store/index.json" :=
    ⟨"store", "index.json", _, ["store"], ⟨by decide, by decide, by decide⟩, by decide, rfl,
      ⟨by decide, by decide⟩, by decide⟩
  have hvalues : ∀ r ∈ (sampleBatches.foldl upsert .new).store.records, ∀ x ∈ r.values,
      x.ReadsBack := by decide +kernel
  obtain ⟨files', hfiles⟩ := hsave.2 hwritable
  obtain ⟨j, hj, -, hsame⟩ := hopen files' hfiles fun id r hr =>
    hvalues r (Store.get?_eq_some_iff.1 hr).1
  refine ⟨files', j, hfiles, hj, ?_⟩
  rw [hsame, hmap]
  decide

end LocalIndex
end ParamTwin
