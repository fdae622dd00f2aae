import Mathlib.Data.List.ReduceOption
import ParamTwin.Corpus.Populate
import ParamTwin.Proofs.BatchRoundTrip
import ParamTwin.Proofs.SavedIndex

/-!
# Populated indexes

An index is populated chunk by chunk: the texts of a chunk are embedded together, and each record is
paired with its vector.

* `Populate.foldlM_addChunk`, `Populate.foldlM_addFile`: a run of chunks and one of files, each from
  what one step does.
* `Populate.fill_of_paths`, `Populate.run_eq_ok_iff`: what is asked of the embedder and what is made
  of its answers.
* `Populate.populated_whole_iff`: a run keeps all records iff no answer is short of a vector.
* `Populate.batch_size_irrelevant`: with an embedder that looks at one text at a time, the size of
  the chunks does not matter.
-/

namespace ParamTwin.Populate

open IndexRecord

/-! ## One step -/

/-- More records in the index, all of them counted. -/
def State.add (s : State LocalIndex) (rs : List IndexRecord) : State LocalIndex where
  summary := { s.summary with recordsUpserted := s.summary.recordsUpserted + rs.length }
  index := s.index.upsert rs

theorem State.add_append (s : State LocalIndex) (rs rs' : List IndexRecord) :
    s.add (rs ++ rs') = (s.add rs).add rs' := by
  simp only [add, LocalIndex.upsert, Store.upsert_append, List.length_append, Nat.add_assoc]

/-- More files, read or passed over. -/
def State.count (s : State LocalIndex) (read skipped : Nat) : State LocalIndex where
  summary := { s.summary with
    filesRead := s.summary.filesRead + read
    filesSkipped := s.summary.filesSkipped + skipped }
  index := s.index

theorem State.count_count (s : State LocalIndex) (read skipped read' skipped' : Nat) :
    (s.count read skipped).count read' skipped' = s.count (read + read') (skipped + skipped') := by
  simp only [count, Nat.add_assoc]

/-- What the embedder answers for a chunk. -/
def answer (embedder : Embedder) (rs : List CorpusRecord) : Except Error (List Embedding) :=
  embedder.embed (rs.map (·.context))

/-- The records of chunks with their vectors; a record without a vector is left out. -/
def paired (chunks : List (List CorpusRecord)) (answers : List (List Embedding)) :
    List IndexRecord :=
  (List.zipWith (List.zipWith CorpusRecord.toIndexRecord) chunks answers).flatten

theorem addChunk_eq (embedder : Embedder) (s : State LocalIndex) (rs : List CorpusRecord) :
    addChunk LocalIndex.sink embedder s rs =
      (answer embedder rs).map fun vs => s.add (List.zipWith CorpusRecord.toIndexRecord rs vs) := by
  unfold addChunk answer
  cases embedder.embed (rs.map (·.context)) <;> rfl

/-! ## Runs of chunks and files -/

section
variable (embedder : Embedder)

theorem foldlM_addChunk (chunks : List (List CorpusRecord)) (s : State LocalIndex) :
    chunks.foldlM (addChunk LocalIndex.sink embedder) s =
      (chunks.mapM (answer embedder)).map fun answers => s.add (paired chunks answers) := by
  induction chunks generalizing s with
  | nil => rfl
  | cons rs chunks ih =>
    rw [List.foldlM_cons, addChunk_eq, List.mapM_cons]
    cases hrs : answer embedder rs with
    | error e => rfl
    | ok vs =>
      simp only [Except.map, bind, Except.bind, ih]
      cases chunks.mapM (answer embedder) with
      | error e => rfl
      | ok answers => simp [pure, Except.pure, paired, State.add_append]

/-- Files may be counted before the records of a chunk or after them. -/
theorem foldlM_addChunk_count (chunks : List (List CorpusRecord)) (s : State LocalIndex)
    (read skipped : Nat) :
    chunks.foldlM (addChunk LocalIndex.sink embedder) (s.count read skipped) =
      (chunks.foldlM (addChunk LocalIndex.sink embedder) s).map (·.count read skipped) := by
  rw [foldlM_addChunk, foldlM_addChunk]
  cases chunks.mapM (answer embedder) <;> rfl

/-- The chunks of the records of batch files. A chunk lies within one file. -/
def chunksOf (batchSize : Nat) (batches : List (List CorpusRecord)) : List (List CorpusRecord) :=
  batches.flatMap (Batch.split batchSize)

theorem foldlM_addFile (batchSize : Nat) (outcomes : List (Option (List CorpusRecord)))
    (s : State LocalIndex) :
    outcomes.foldlM (addFile LocalIndex.sink embedder batchSize) s =
      let batches := outcomes.reduceOption
      (chunksOf batchSize batches).foldlM (addChunk LocalIndex.sink embedder)
        (s.count batches.length (outcomes.length - batches.length)) := by
  induction outcomes generalizing s with
  | nil => rfl
  | cons outcome outcomes ih =>
    have hle := List.reduceOption_length_le outcomes
    rw [List.foldlM_cons]
    cases outcome with
    | none =>
      have hskip : addFile LocalIndex.sink embedder batchSize s none = .ok (s.count 0 1) := rfl
      simp only [hskip, bind, Except.bind, ih, State.count_count, List.reduceOption_cons_of_none,
        List.length_cons]
      congr 2 <;> omega
    | some rs =>
      have hread : addFile LocalIndex.sink embedder batchSize s (some rs) =
          (Batch.split batchSize rs).foldlM (addChunk LocalIndex.sink embedder) (s.count 1 0) := rfl
      simp only [hread, ih, chunksOf, List.reduceOption_cons_of_some, List.flatMap_cons,
        List.foldlM_append, List.length_cons, Nat.add_sub_add_right,
        foldlM_addChunk_count embedder (Batch.split batchSize rs)]
      cases (Batch.split batchSize rs).foldlM (addChunk LocalIndex.sink embedder) s with
      | error e => rfl
      | ok s' =>
        simp only [Except.map, bind, Except.bind, State.count_count, Nat.add_comm 1, Nat.zero_add]

/-- The records of the batch files that can be read, file by file. -/
def decoded (files : FileTree) (paths : List String) : List (List CorpusRecord) :=
  (paths.map (Batch.read? files)).reduceOption

theorem read?_of_find {files : FileTree} {path : String} {l : Location} {rs : List CorpusRecord}
    (h : files.find path = .ok (l, .file (Text.encode (Batch.text rs)))) :
    Batch.read? files path = some rs := by
  rw [Batch.read?, FileTree.readText_of_find h (by rw [Batch.head?_text]; decide)]
  exact Batch.ofText?_text rs

/-- How a run over batch files ends that puts the given records into an index. -/
def outcome (files : FileTree) (paths : List String) (index : LocalIndex)
    (rs : List IndexRecord) : State LocalIndex where
  summary := {
    filesRead := (decoded files paths).length
    filesSkipped := paths.length - (decoded files paths).length
    recordsUpserted := rs.length }
  index := index.upsert rs

theorem fill_of_paths {files : FileTree} {dir : String} {paths : List String}
    (hpaths : Batch.paths files dir = .ok paths) (index : LocalIndex) (batchSize : Nat) :
    fill LocalIndex.sink files dir embedder index batchSize =
      let chunks := chunksOf batchSize (decoded files paths)
      (chunks.mapM (answer embedder)).map fun answers =>
        outcome files paths index (paired chunks answers) := by
  unfold fill
  simp only [hpaths, bind, Except.bind, foldlM_addFile, foldlM_addChunk, List.length_map]
  simp only [State.count, State.add, Nat.zero_add]
  rfl

theorem fill_of_paths_error {files : FileTree} {dir : String} {e : Error}
    (hpaths : Batch.paths files dir = .error e) (index : LocalIndex) (batchSize : Nat) :
    fill LocalIndex.sink files dir embedder index batchSize = .error e := by
  unfold fill
  simp only [hpaths, bind, Except.bind]

theorem run_eq (files : FileTree) (dir : String) (index : LocalIndex) (batchSize : Nat) :
    run files dir embedder index batchSize =
      match fill LocalIndex.sink files dir embedder index batchSize with
      | .error e => (files, .error e)
      | .ok s => ((s.index.flush files).1, (s.index.flush files).2.map fun _ => s) := by
  unfold run
  cases fill LocalIndex.sink files dir embedder index batchSize with
  | error e => rfl
  | ok s =>
    dsimp only
    cases hflush : s.index.flush files with
    | mk files' r => cases r <;> rfl

end

/-! ## Short answers -/

/-- The embedder answers a chunk with fewer vectors than records. -/
def Short (embedder : Embedder) (rs : List CorpusRecord) : Prop :=
  ∃ vs, answer embedder rs = .ok vs ∧ vs.length < rs.length

section
variable {embedder : Embedder} {chunks : List (List CorpusRecord)} {answers : List (List Embedding)}

theorem exists_mapM_answer_iff :
    (∃ answers, chunks.mapM (answer embedder) = .ok answers) ↔
      ∀ rs ∈ chunks, ∃ vs, answer embedder rs = .ok vs := by
  simp only [mapM_eq_ok_iff, exists_forall₂_iff]

theorem not_short_iff {rs : List CorpusRecord} {vs : List Embedding}
    (h : answer embedder rs = .ok vs) : ¬Short embedder rs ↔ rs.length ≤ vs.length := by
  simp [Short, h]

theorem length_paired (h : List.Forall₂ (fun rs vs => answer embedder rs = .ok vs) chunks answers) :
    (paired chunks answers).length ≤ chunks.flatten.length ∧
      ((paired chunks answers).length = chunks.flatten.length ↔
        ∀ rs ∈ chunks, ¬Short embedder rs) := by
  induction h with
  | nil => simp [paired]
  | @cons rs vs chunks answers hvs _ ih =>
    obtain ⟨hle, heq⟩ := ih
    simp only [paired] at hle heq
    simp only [paired, List.zipWith_cons_cons, List.flatten_cons, List.length_append,
      List.length_zipWith, List.forall_mem_cons, not_short_iff hvs, ← heq]
    omega

theorem map_id_zipWith {rs : List CorpusRecord} {vs : List Embedding}
    (h : rs.length ≤ vs.length) :
    (List.zipWith CorpusRecord.toIndexRecord rs vs).map (·.id) = rs.map CorpusRecord.id := by
  calc (List.zipWith CorpusRecord.toIndexRecord rs vs).map (·.id)
    _ = ((rs.zip vs).map Prod.fst).map CorpusRecord.id := by
      rw [List.map_map, List.map_zipWith, List.zip, List.map_zipWith]
      rfl
    _ = rs.map CorpusRecord.id := by rw [List.map_fst_zip h]

theorem map_id_paired
    (h : List.Forall₂ (fun rs vs => answer embedder rs = .ok vs) chunks answers)
    (hfull : ∀ rs ∈ chunks, ¬Short embedder rs) :
    (paired chunks answers).map (·.id) = chunks.flatten.map CorpusRecord.id := by
  induction h with
  | nil => rfl
  | @cons rs vs chunks answers hvs _ ih =>
    rw [List.forall_mem_cons, not_short_iff hvs] at hfull
    simp only [paired] at ih
    simp only [paired, List.zipWith_cons_cons, List.flatten_cons, List.map_append, ih hfull.2,
      map_id_zipWith hfull.1]

theorem flatten_chunksOf (batchSize : Nat) (batches : List (List CorpusRecord)) :
    (chunksOf batchSize batches).flatten = batches.flatten := by
  induction batches with
  | nil => rfl
  | cons rs batches ih =>
    simp only [chunksOf] at ih
    simp only [chunksOf, List.flatMap_cons, List.flatten_append, List.flatten_cons, ih,
      Batch.flatten_split]

end

section
variable {files files' : FileTree} {dir : String} {embedder : Embedder} {index : LocalIndex}
  {batchSize : Nat} {s : State LocalIndex}

theorem run_eq_ok_iff :
    run files dir embedder index batchSize = (files', .ok s) ↔
      ∃ paths answers, Batch.paths files dir = .ok paths ∧
        (chunksOf batchSize (decoded files paths)).mapM (answer embedder) = .ok answers ∧
        s = outcome files paths index (paired (chunksOf batchSize (decoded files paths)) answers) ∧
        s.index.flush files = (files', .ok ()) := by
  rw [run_eq]
  cases hpaths : Batch.paths files dir with
  | error e => simp [fill_of_paths_error embedder hpaths]
  | ok paths =>
    rw [fill_of_paths embedder hpaths]
    dsimp only
    cases hanswers : (chunksOf batchSize (decoded files paths)).mapM (answer embedder) with
    | error e => simp [Except.map, hanswers]
    | ok answers =>
      constructor
      · intro h
        refine ⟨paths, answers, rfl, hanswers, ?_⟩
        obtain ⟨hfiles, hs⟩ := Prod.mk.inj h
        cases hflush : (LocalIndex.flush (outcome files paths index
            (paired (chunksOf batchSize (decoded files paths)) answers)).index files).2 with
        | error e => simp [hflush, Except.map] at hs
        | ok u =>
          obtain rfl : _ = s := by simpa [hflush, Except.map] using hs
          exact ⟨rfl, Prod.ext hfiles hflush⟩
      · rintro ⟨paths', answers', hpaths', hanswers', rfl, hflush⟩
        cases hpaths'
        cases hanswers.symm.trans hanswers'
        simp only [Except.map, hflush]

/-- A run over batch files comes to an end if the directory can be listed, the embedder answers and
the file of the index can be written. -/
theorem exists_run_eq_ok_iff :
    (∃ files' s, run files dir embedder index batchSize = (files', .ok s)) ↔
      ∃ paths, Batch.paths files dir = .ok paths ∧
        (∀ rs ∈ chunksOf batchSize (decoded files paths), ∃ vs, answer embedder rs = .ok vs) ∧
        ∀ path ∈ index.path, files.Writable path := by
  simp only [run_eq_ok_iff, ← exists_mapM_answer_iff]
  constructor
  · rintro ⟨files', s, paths, answers, hpaths, hanswers, rfl, hflush⟩
    have hwritable := LocalIndex.exists_flush_iff.1 ⟨files', hflush⟩
    exact ⟨paths, hpaths, ⟨answers, hanswers⟩, hwritable⟩
  · rintro ⟨paths, hpaths, ⟨answers, hanswers⟩, hwritable⟩
    obtain ⟨files', hflush⟩ := (LocalIndex.exists_flush_iff (i := index.upsert
      (paired (chunksOf batchSize (decoded files paths)) answers))).2 hwritable
    exact ⟨files', _, paths, answers, hpaths, hanswers, rfl, hflush⟩

/-- A run that ends well keeps all records iff no answer is short of a vector. -/
theorem populated_whole_iff (files : FileTree) (dir : String) (embedder : Embedder)
    (index : LocalIndex) (batchSize : Nat) :
    ((∃ files' s, run files dir embedder index batchSize = (files', .ok s)) ↔
      ∃ paths, Batch.paths files dir = .ok paths ∧
        (∀ rs ∈ chunksOf batchSize (decoded files paths), ∃ vs, answer embedder rs = .ok vs) ∧
        ∀ path ∈ index.path, files.Writable path) ∧
    ∀ files' s, run files dir embedder index batchSize = (files', .ok s) →
      ∃ paths, Batch.paths files dir = .ok paths ∧
        let records := (decoded files paths).flatten
        s.summary.recordsUpserted ≤ records.length ∧
        ((s.summary.recordsUpserted = records.length ∧
            ∀ r ∈ records, ∃ x, s.index.store.get? r.id = some x) ↔
          ∀ rs ∈ chunksOf batchSize (decoded files paths), ¬Short embedder rs) := by
  refine ⟨exists_run_eq_ok_iff, fun files' s h => ?_⟩
  obtain ⟨paths, answers, hpaths, hanswers, rfl, -⟩ := run_eq_ok_iff.1 h
  rw [mapM_eq_ok_iff] at hanswers
  obtain ⟨hle, heq⟩ := length_paired hanswers
  rw [flatten_chunksOf] at hle heq
  refine ⟨paths, hpaths, hle, fun hkept => heq.1 hkept.1, fun hfull => ⟨heq.2 hfull, ?_⟩⟩
  intro r hr
  have hid : r.id ∈ (paired (chunksOf batchSize (decoded files paths)) answers).map (·.id) := by
    rw [map_id_paired hanswers hfull, flatten_chunksOf]
    exact List.mem_map_of_mem hr
  obtain ⟨x, hx, hxid⟩ := List.mem_map.1 hid
  obtain ⟨y, hy⟩ := exists_latest? hx
  refine ⟨y, ?_⟩
  show Store.get? (index.store.upsert _) r.id = some y
  rw [Store.get?_upsert, ← hxid, hy, Option.some_or]

end

/-- A file with two records, a later one with the first of them again, and one that is cut off. -/
def sampleFiles : FileTree where
  entries := [(["corpus"], .dir),
    (["corpus", "contexts_10.json"], .file (Text.encode (Batch.text [⟨"a", "long", "x"⟩]))),
    (["corpus", "contexts_2.json"],
      .file (Text.encode (Batch.text [⟨"a", "int", "x"⟩, ⟨"b", "int", "y"⟩]))),
    (["corpus", "contexts_3.json"], .file (Text.encode ['[']))]

def samplePaths : List String :=
  ["corpus/contexts_2.json", "corpus/contexts_3.json", "corpus/contexts_10.json"]

/-- One number for each character of a text. -/
def lengthEmbedder : Embedder where
  embed texts := .ok (texts.map fun text => text.toList.map fun _ => ⟨0x3F800000⟩)

/-- An embedder that never returns a vector. -/
def silentEmbedder : Embedder where
  embed _ := .ok []

theorem paths_sampleFiles : Batch.paths sampleFiles "corpus" = .ok samplePaths := by
  have hfind : sampleFiles.find "corpus" = .ok (["corpus"], .dir) := by decide
  have hlisted : Harvest.listed sampleFiles ["corpus"] "corpus" =
      [(10, "corpus/contexts_10.json"), (2, "corpus/contexts_2.json"),
        (3, "corpus/contexts_3.json")] := by decide
  rw [Harvest.paths_of_find hfind, hlisted]
  simp [List.mergeSort, Batch.numberedLe, samplePaths]

theorem decoded_sampleFiles :
    decoded sampleFiles samplePaths =
      [[⟨"a", "int", "x"⟩, ⟨"b", "int", "y"⟩], [⟨"a", "long", "x"⟩]] := by
  have hearly : Batch.read? sampleFiles "corpus/contexts_2.json" =
      some [⟨"a", "int", "x"⟩, ⟨"b", "int", "y"⟩] :=
    read?_of_find (l := ["corpus", "contexts_2.json"]) rfl
  have hcut : Batch.read? sampleFiles "corpus/contexts_3.json" = none := rfl
  have hlate : Batch.read? sampleFiles "corpus/contexts_10.json" = some [⟨"a", "long", "x"⟩] :=
    read?_of_find (l := ["corpus", "contexts_10.json"]) rfl
  simp [decoded, samplePaths, hearly, hcut, hlate]

theorem sample_records_kept :
    ∃ files' s, run sampleFiles "corpus" lengthEmbedder .new 2 = (files', .ok s) ∧
      s.summary.recordsUpserted = 3 ∧
      ∀ r ∈ (decoded sampleFiles samplePaths).flatten,
        ∃ x, s.index.store.get? r.id = some x := by
  obtain ⟨⟨-, hrun⟩, hkept⟩ := populated_whole_iff sampleFiles "corpus" lengthEmbedder .new 2
  obtain ⟨files', s, hs⟩ := hrun ⟨samplePaths, paths_sampleFiles, fun rs _ => ⟨_, rfl⟩,
    by simp [LocalIndex.new]⟩
  obtain ⟨paths, hpaths, -, hiff⟩ := hkept files' s hs
  cases hpaths.symm.trans paths_sampleFiles
  obtain ⟨hcount, hstored⟩ := hiff.2 fun rs _ => by simp [Short, answer, lengthEmbedder]
  rw [decoded_sampleFiles] at hcount
  exact ⟨files', s, hs, hcount, hstored⟩

/-- Without vectors, three records are read and none of them is in the index. -/
theorem silent_run_loses_records :
    ∃ s, run sampleFiles "corpus" silentEmbedder .new 2 = (sampleFiles, .ok s) ∧
      Batch.paths sampleFiles "corpus" = .ok samplePaths ∧
      (decoded sampleFiles samplePaths).flatten.length = 3 ∧ s.summary.recordsUpserted = 0 ∧
      ∀ id, s.index.store.get? id = none := by
  have hchunks : chunksOf 2 (decoded sampleFiles samplePaths) =
      [[⟨"a", "int", "x"⟩, ⟨"b", "int", "y"⟩], [⟨"a", "long", "x"⟩]] := by
    simp [decoded_sampleFiles, chunksOf, Batch.split]
  refine ⟨outcome sampleFiles samplePaths .new [], run_eq_ok_iff.2 ⟨samplePaths, [[], []],
    paths_sampleFiles, ?_, ?_, rfl⟩, paths_sampleFiles, ?_, rfl, fun _ => rfl⟩
  · rw [hchunks]
    rfl
  · rw [hchunks]
    rfl
  · rw [decoded_sampleFiles]
    rfl

/-! ## Chunks of any size -/

section
variable {embedder : Embedder} {f : String → Embedding}

theorem mapM_answer_of_map (h : ∀ texts, embedder.embed texts = .ok (texts.map f))
    (chunks : List (List CorpusRecord)) :
    chunks.mapM (answer embedder) = .ok (chunks.map fun rs => rs.map fun r => f r.context) := by
  rw [mapM_eq_ok_iff, List.forall₂_map_right_iff, List.forall₂_same]
  intro rs _
  rw [answer, h, List.map_map]
  rfl

theorem paired_map (g : CorpusRecord → Embedding) (chunks : List (List CorpusRecord)) :
    paired chunks (chunks.map fun rs => rs.map g) =
      chunks.flatten.map fun r => r.toIndexRecord (g r) := by
  simp only [paired, List.zipWith_map_right, List.zipWith_self, List.map_flatten]

/-- The records of batch files with the vectors of their own contexts. -/
def indexed (f : String → Embedding) (batches : List (List CorpusRecord)) : List IndexRecord :=
  batches.flatten.map fun r => r.toIndexRecord (f r.context)

theorem fill_of_map (h : ∀ texts, embedder.embed texts = .ok (texts.map f)) {files : FileTree}
    {dir : String} {paths : List String} (hpaths : Batch.paths files dir = .ok paths)
    (index : LocalIndex) (batchSize : Nat) :
    fill LocalIndex.sink files dir embedder index batchSize =
      .ok (outcome files paths index (indexed f (decoded files paths))) := by
  rw [fill_of_paths embedder hpaths]
  dsimp only
  rw [mapM_answer_of_map h, Except.map, paired_map, flatten_chunksOf]
  rfl

/-- **The size of the chunks does not matter** if a text has the same vector whatever stands beside
it. Files are taken by number, and the last record of an id is the one that stays. -/
theorem batch_size_irrelevant (h : ∀ texts, embedder.embed texts = .ok (texts.map f))
    (files : FileTree) (dir : String) (index : LocalIndex) (a b : Nat) :
    run files dir embedder index a = run files dir embedder index b ∧
    (∀ e, Batch.paths files dir = .error e →
      run files dir embedder index a = (files, .error e)) ∧
    ∀ paths, Batch.paths files dir = .ok paths →
      let added := indexed f (decoded files paths)
      let filled := index.upsert added
      (∃ (l : Location) (numbered : List (Nat × String)), files.find dir = .ok (l, .dir) ∧
        numbered.Perm (Harvest.listed files l dir) ∧
        numbered.Pairwise (fun x y => Batch.numberedLe x y = true) ∧
        paths = numbered.map (·.2)) ∧
      (∀ id, filled.store.get? id = (latest? added id).or (index.store.get? id)) ∧
      run files dir embedder index a =
        ((filled.flush files).1,
          (filled.flush files).2.map fun _ => outcome files paths index added) := by
  refine ⟨?_, fun e he => ?_, fun paths hpaths => ⟨?_, fun id => ?_, ?_⟩⟩
  · rw [run_eq, run_eq]
    cases hpaths : Batch.paths files dir with
    | error e => rw [fill_of_paths_error _ hpaths, fill_of_paths_error _ hpaths]
    | ok paths => rw [fill_of_map h hpaths, fill_of_map h hpaths]
  · rw [run_eq, fill_of_paths_error _ he]
  · exact Harvest.exists_numbered hpaths
  · exact Store.get?_upsert ..
  · rw [run_eq, fill_of_map h hpaths]
    rfl

theorem sample_batches_populated :
    run sampleFiles "corpus" lengthEmbedder .new 0 =
        run sampleFiles "corpus" lengthEmbedder .new 5 ∧
      ∃ s, run sampleFiles "corpus" lengthEmbedder .new 0 = (sampleFiles, .ok s) ∧
        s.summary = { filesRead := 2, filesSkipped := 1, recordsUpserted := 3 } ∧
        (s.index.store.get? (CorpusRecord.id ⟨"a", "int", "x"⟩)).map (·.typeName) =
          some "long" := by
  have hembed : ∀ texts, lengthEmbedder.embed texts = .ok (texts.map _) := fun _ => rfl
  obtain ⟨hsize, -, hrun⟩ := batch_size_irrelevant hembed sampleFiles "corpus" .new 0 5
  obtain ⟨-, hmap, hrun⟩ := hrun samplePaths paths_sampleFiles
  refine ⟨hsize, _, hrun, ?_, ?_⟩
  · simp only [outcome, decoded_sampleFiles]
    rfl
  · have hid : CorpusRecord.id ⟨"a", "long", "x"⟩ = CorpusRecord.id ⟨"a", "int", "x"⟩ := rfl
    rw [outcome, hmap]
    simp [indexed, decoded_sampleFiles, latest?, CorpusRecord.toIndexRecord, hid]

end
end ParamTwin.Populate
