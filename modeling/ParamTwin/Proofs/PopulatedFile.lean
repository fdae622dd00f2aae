import ParamTwin.Proofs.Populated

/-!
# The file behind a populated index

A run changes the file behind its index in one step, at its end. What goes wrong before leaves the
file alone, and what the file holds after a run can be read from the index and the answers:

* `Populate.fill_eq_error_iff`: a run stops at the first chunk that is not answered.
* `Populate.failed_run_keeps_file`: such a run changes no file; any other leaves a file that opens
  as the old records under the new ones, iff all their numbers are read back.
-/

namespace ParamTwin.Populate

open IndexRecord

section
variable {files files' : FileTree} {dir : String} {embedder : Embedder} {index : LocalIndex}
  {batchSize : Nat} {s : State LocalIndex} {e : Error}

/-- Chunks that are answered up to one that is not. -/
def StopsAt (embedder : Embedder) (e : Error) (chunks : List (List CorpusRecord)) : Prop :=
  ∃ before rs after, chunks = before ++ rs :: after ∧
    (∀ c ∈ before, ∃ vs, answer embedder c = .ok vs) ∧ answer embedder rs = .error e

theorem stopsAt_cons_of_ok {rs : List CorpusRecord} {chunks : List (List CorpusRecord)}
    {vs : List Embedding} (h : answer embedder rs = .ok vs) :
    StopsAt embedder e (rs :: chunks) ↔ StopsAt embedder e chunks := by
  constructor
  · rintro ⟨before, rs', after, hchunks, hbefore, hrs'⟩
    cases before with
    | nil =>
      obtain ⟨rfl, rfl⟩ := List.cons.inj hchunks
      cases h.symm.trans hrs'
    | cons c before =>
      obtain ⟨rfl, rfl⟩ := List.cons.inj hchunks
      exact ⟨before, rs', after, rfl, (List.forall_mem_cons.1 hbefore).2, hrs'⟩
  · rintro ⟨before, rs', after, rfl, hbefore, hrs'⟩
    exact ⟨rs :: before, rs', after, rfl, List.forall_mem_cons.2 ⟨⟨vs, h⟩, hbefore⟩, hrs'⟩

theorem stopsAt_cons_of_error {rs : List CorpusRecord} {chunks : List (List CorpusRecord)}
    {e' : Error} (h : answer embedder rs = .error e') :
    StopsAt embedder e (rs :: chunks) ↔ e' = e := by
  constructor
  · rintro ⟨before, rs', after, hchunks, hbefore, hrs'⟩
    cases before with
    | nil =>
      obtain ⟨rfl, rfl⟩ := List.cons.inj hchunks
      exact Except.error.inj (h.symm.trans hrs')
    | cons c before =>
      obtain ⟨rfl, rfl⟩ := List.cons.inj hchunks
      obtain ⟨vs, hvs⟩ := hbefore rs (.head _)
      cases h.symm.trans hvs
  · rintro rfl
    exact ⟨[], rs, chunks, rfl, by simp, h⟩

theorem mapM_answer_eq_error_iff {chunks : List (List CorpusRecord)} :
    chunks.mapM (answer embedder) = .error e ↔ StopsAt embedder e chunks := by
  induction chunks with
  | nil => simp [StopsAt, pure, Except.pure]
  | cons rs chunks ih =>
    rw [List.mapM_cons]
    cases hrs : answer embedder rs with
    | error e' =>
      rw [stopsAt_cons_of_error hrs]
      simp [bind, Except.bind]
    | ok vs =>
      rw [stopsAt_cons_of_ok hrs, ← ih]
      cases chunks.mapM (answer embedder) with
      | error e' => simp [bind, Except.bind]
      | ok answers => simp [bind, Except.bind, pure, Except.pure]

/-- The index is not filled iff the directory cannot be listed or some chunk is not answered. -/
theorem fill_eq_error_iff :
    fill LocalIndex.sink files dir embedder index batchSize = .error e ↔
      Batch.paths files dir = .error e ∨
        ∃ paths, Batch.paths files dir = .ok paths ∧
          StopsAt embedder e (chunksOf batchSize (decoded files paths)) := by
  cases hpaths : Batch.paths files dir with
  | error e' =>
    rw [fill_of_paths_error embedder hpaths]
    simp
  | ok paths =>
    rw [fill_of_paths embedder hpaths]
    simp only [reduceCtorEq, false_or, Except.ok.injEq, exists_eq_left', ← mapM_answer_eq_error_iff]
    cases (chunksOf batchSize (decoded files paths)).mapM (answer embedder) with
    | error e' => simp [Except.map]
    | ok answers => simp [Except.map]

theorem run_of_fill_error (h : fill LocalIndex.sink files dir embedder index batchSize = .error e) :
    run files dir embedder index batchSize = (files, .error e) := by
  rw [run_eq, h]

/-- A run that fails after the index is filled fails in writing its file. -/
theorem flush_of_run_error (h : run files dir embedder index batchSize = (files', .error e))
    (hs : fill LocalIndex.sink files dir embedder index batchSize = .ok s) :
    s.index.flush files = (files', .error e) := by
  rw [run_eq, hs] at h
  dsimp only at h
  cases hflush : s.index.flush files with
  | mk t result =>
    cases result with
    | error e' => simpa [hflush, Except.map] using h
    | ok u => simp [hflush, Except.map] at h

/-- **A failed run leaves the file of the index alone**, whatever was put into the index before the
chunk that was not answered. After a run that ends well the file holds the old records under the new
ones; it opens as these iff all their numbers are read back, and not at all if one of them is not
finite. -/
theorem failed_run_keeps_file (files : FileTree) (dir path : String) (embedder : Embedder)
    (index : LocalIndex) (batchSize : Nat) (hopen : LocalIndex.open files path = .ok index) :
    (∀ e, Batch.paths files dir = .error e →
      run files dir embedder index batchSize = (files, .error e)) ∧
    (∀ e paths, Batch.paths files dir = .ok paths →
      StopsAt embedder e (chunksOf batchSize (decoded files paths)) →
      run files dir embedder index batchSize = (files, .error e)) ∧
    (∀ files' e, run files dir embedder index batchSize = (files', .error e) →
      Batch.paths files dir = .error e ∨
      (∃ paths, Batch.paths files dir = .ok paths ∧
        StopsAt embedder e (chunksOf batchSize (decoded files paths))) ∨
      ∃ s, fill LocalIndex.sink files dir embedder index batchSize = .ok s ∧
        s.index.flush files = (files', .error e)) ∧
    ∀ files' s, run files dir embedder index batchSize = (files', .ok s) →
      ∃ paths answers, Batch.paths files dir = .ok paths ∧
        let chunks := chunksOf batchSize (decoded files paths)
        let kept id := (latest? (paired chunks answers) id).or (index.store.get? id)
        List.Forall₂ (fun rs vs => answer embedder rs = .ok vs) chunks answers ∧
        ((∃ reopened, LocalIndex.open files' path = .ok reopened ∧
            ∀ id, reopened.store.get? id = kept id) ↔
          ∀ id r, kept id = some r → ∀ x ∈ r.values, x.ReadsBack) ∧
        ∀ id r, kept id = some r → (∃ x ∈ r.values, x.isFinite = false) →
          LocalIndex.open files' path = .error .badJson := by
  refine ⟨fun e he => run_of_fill_error (fill_eq_error_iff.2 (.inl he)),
    fun e paths hpaths hstop =>
      run_of_fill_error (fill_eq_error_iff.2 (.inr ⟨paths, hpaths, hstop⟩)),
    fun files' e h => ?_, fun files' s h => ?_⟩
  · cases hfill : fill LocalIndex.sink files dir embedder index batchSize with
    | error e' =>
      cases (run_of_fill_error hfill).symm.trans h
      exact or_assoc.1 (.inl (fill_eq_error_iff.1 hfill))
    | ok s => exact .inr (.inr ⟨s, rfl, flush_of_run_error h hfill⟩)
  · obtain ⟨paths, answers, hpaths, hanswers, rfl, hflush⟩ := run_eq_ok_iff.1 h
    have hsave : (index.upsert (paired (chunksOf batchSize (decoded files paths)) answers)).save
        files path = (files', .ok ()) := by
      simpa only [LocalIndex.flush, outcome, LocalIndex.upsert, LocalIndex.path_of_open hopen]
        using hflush
    refine ⟨paths, answers, hpaths, mapM_eq_ok_iff.1 hanswers, ?_, ?_⟩
    · simp only [← Store.get?_upsert]
      exact LocalIndex.exists_open_of_save_iff hsave
    · rintro id r hr ⟨x, hx, hbad⟩
      exact LocalIndex.open_of_save_not_finite hsave ((Store.get?_upsert ..).trans hr) hx hbad

end

/-- An embedder that fails on an unknown text. -/
def pickyEmbedder : Embedder where
  embed texts := if texts = ["a"] then .ok [[⟨0x3F800000⟩]] else .error .badJson

/-- An index that is new and has a file. -/
def freshIndex : LocalIndex where
  store := .empty
  path := some "store/index.json"

theorem chunksOf_sampleFiles :
    chunksOf 1 (decoded sampleFiles samplePaths) =
      [[⟨"a", "int", "x"⟩], [⟨"b", "int", "y"⟩], [⟨"a", "long", "x"⟩]] := by
  simp [decoded_sampleFiles, chunksOf, Batch.split]

theorem second_chunk_failure_keeps_file :
    LocalIndex.open sampleFiles "store/index.json" = .ok freshIndex ∧
      run sampleFiles "corpus" pickyEmbedder freshIndex 1 = (sampleFiles, .error .badJson) ∧
      ∃ files' s reopened, run sampleFiles "corpus" lengthEmbedder freshIndex 1 = (files', .ok s) ∧
        LocalIndex.open files' "store/index.json" = .ok reopened ∧
        (reopened.store.get? (CorpusRecord.id ⟨"a", "int", "x"⟩)).map (·.typeName) =
          some "long" := by
  have hopen : LocalIndex.open sampleFiles "store/index.json" = .ok freshIndex := rfl
  obtain ⟨-, hstop, -⟩ :=
    failed_run_keeps_file sampleFiles "corpus" "store/index.json" pickyEmbedder freshIndex 1 hopen
  obtain ⟨-, -, -, hwell⟩ :=
    failed_run_keeps_file sampleFiles "corpus" "store/index.json" lengthEmbedder freshIndex 1 hopen
  refine ⟨hopen, hstop .badJson samplePaths paths_sampleFiles ?_, ?_⟩
  · refine ⟨[[⟨"a", "int", "x"⟩]], [⟨"b", "int", "y"⟩], [[⟨"a", "long", "x"⟩]],
      chunksOf_sampleFiles, ?_, rfl⟩
    simp [answer, pickyEmbedder]
  · have hwritable : sampleFiles.Writable "store/index.json" :=
      ⟨"store", "index.json", _, ["store"], ⟨by decide, by decide, by decide⟩, by decide, rfl,
        ⟨by decide, by decide⟩, by decide⟩
    have hrun : ∃ files' s,
        run sampleFiles "corpus" lengthEmbedder freshIndex 1 = (files', .ok s) :=
      exists_run_eq_ok_iff.2 ⟨samplePaths, paths_sampleFiles, fun rs _ => ⟨_, rfl⟩,
        by simpa [freshIndex] using hwritable⟩
    obtain ⟨files', s, hrun⟩ := hrun
    obtain ⟨paths, answers, hpaths, hanswers, hreopen, -⟩ := hwell files' s hrun
    cases hpaths.symm.trans paths_sampleFiles
    rw [← mapM_eq_ok_iff, mapM_answer_of_map fun _ => rfl] at hanswers
    obtain rfl := Except.ok.inj hanswers
    rw [paired_map, flatten_chunksOf, decoded_sampleFiles] at hreopen
    obtain ⟨reopened, hopened, hkept⟩ := hreopen.2 fun id r hr x hx => by
      have hfound : latest? _ id = some r := Option.or_none.symm.trans hr
      obtain ⟨c, -, rfl⟩ := List.mem_map.1 (List.mem_reverse.1 (List.mem_of_find?_eq_some hfound))
      obtain ⟨_, -, rfl⟩ := List.mem_map.1 hx
      decide
    refine ⟨files', s, reopened, hrun, hopened, ?_⟩
    have hid : CorpusRecord.id ⟨"a", "long", "x"⟩ = CorpusRecord.id ⟨"a", "int", "x"⟩ := rfl
    rw [hkept]
    simp [latest?, CorpusRecord.toIndexRecord, hid]

/-- An index with a number beyond the range of 32 bits. -/
def overflowDocument : Json :=
  .arr [.obj [("id", .str "a"), ("values", .arr [.nat (Nat.pow 10 39)]),
    ("metadata", .obj [("paramType", .str "int"), ("paramName", .str "x")])]]

def overflowText : Text :=
  overflowDocument.prettyAt 0

/-- A directory without batch files, and the file of that index. -/
def overflowFiles : FileTree where
  entries := [(["corpus"], .dir), (["store"], .dir),
    (["store", "index.json"], .file (Text.encode overflowText))]

def overflowRecords : List IndexRecord :=
  [{ id := "a", values := [.infinity false], typeName := "int", paramName := "x" }]

def overflowIndex : LocalIndex where
  store := .ofList overflowRecords
  path := some "store/index.json"

theorem read?_overflowText : Json.read? overflowText = some overflowDocument := by
  have hnumber : Json.readNumber (Number.ofNat (Nat.pow 10 39)).text =
      some (.ofNat (Nat.pow 10 39), []) := by
    decide
  have hvalue : Json.ReadsAs (.nat (Nat.pow 10 39)) (.nat (Nat.pow 10 39)) :=
    .num fun _ hrest => Json.readNumber_append hrest hnumber
  exact Json.read?_of_readsAs (.arr (.cons (.obj (.cons ⟨rfl, .str "a"⟩ (.cons
    ⟨rfl, .arr (.cons hvalue .nil)⟩ (.cons ⟨rfl, .obj (.cons ⟨rfl, .str "int"⟩ (.cons
      ⟨rfl, .str "x"⟩ .nil))⟩ .nil)))) .nil))

theorem open_overflowFiles :
    LocalIndex.open overflowFiles "store/index.json" = .ok overflowIndex := by
  have hexists : overflowFiles.exists "store/index.json" = true := by decide
  have hread : overflowFiles.readText "store/index.json" = .ok overflowText :=
    FileTree.readText_of_find (l := ["store", "index.json"]) rfl (by decide)
  have hrecords : Store.readRecords? overflowText = some overflowRecords := by
    rw [Store.readRecords?, read?_overflowText]
    rfl
  unfold LocalIndex.open
  rw [if_pos hexists, hread]
  simp only [bind, Except.bind, Store.ofText, hrecords]
  rfl

/-- A run over no records writes a file that cannot be opened. -/
theorem overflow_not_reopened :
    LocalIndex.open overflowFiles "store/index.json" = .ok overflowIndex ∧
      ∃ files' s, run overflowFiles "corpus" lengthEmbedder overflowIndex 1 = (files', .ok s) ∧
        LocalIndex.open files' "store/index.json" = .error .badJson := by
  have hwritable : overflowFiles.Writable "store/index.json" :=
    ⟨"store", "index.json", _, ["store"], ⟨by decide, by decide, by decide⟩, by decide, rfl,
      ⟨by decide, by decide⟩, by decide⟩
  obtain ⟨files', hsave⟩ := LocalIndex.exists_save_iff.2 hwritable
  have hpaths : Batch.paths overflowFiles "corpus" = .ok [] := by
    have hfind : overflowFiles.find "corpus" = .ok (["corpus"], .dir) := by decide
    have hlisted : Harvest.listed overflowFiles ["corpus"] "corpus" = [] := by decide
    rw [Harvest.paths_of_find hfind, hlisted, List.mergeSort_nil, List.map_nil]
  have hfound : overflowIndex.store.get? "a" = overflowRecords.head? := rfl
  refine ⟨open_overflowFiles, files', outcome overflowFiles [] overflowIndex [],
    run_eq_ok_iff.2 ⟨[], [], hpaths, rfl, rfl, hsave⟩, ?_⟩
  exact LocalIndex.open_of_save_not_finite hsave hfound (.head _) rfl

end ParamTwin.Populate
