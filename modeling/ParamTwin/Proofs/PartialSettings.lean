import Mathlib.Data.List.Nodup
import ParamTwin.Proofs.Traversal
import ParamTwin.Settings.Document

/-!
# Partial settings

A document need not hold all settings. What it leaves out, a field or a whole section, takes the
default, and what it adds is passed over:

* `PartOf.lookup`: what is found in a record that holds some entries of another one.
* `Settings.unset_eq`: a field that is left out alone and one that is left out with its section take
  the same value.
* `Settings.overlay`: settings that are taken from two others, field by field.
* `Settings.read_of_isPart`: the settings of a partial document, in any format.
-/

namespace ParamTwin

/-! ## Some entries of a record -/

section
variable {α D : Type} {kept : String → Bool} {shows : String → α → D → Prop}
  {full : List (String × α)} {members chosen : List (String × D)}

/-- The entries that are kept of a record, in any order, beside entries under other keys. A value
may be written as anything that shows it. -/
def PartOf (kept : String → Bool) (shows : String → α → D → Prop) (full : List (String × α))
    (members : List (String × D)) : Prop :=
  ∃ chosen extra, members.Perm (chosen ++ extra) ∧
    (∀ m ∈ extra, m.1 ∉ full.map Prod.fst) ∧
    List.Forall₂ (fun m m' => m'.1 = m.1 ∧ shows m.1 m.2 m'.2)
      (full.filter fun m => kept m.1) chosen

theorem lookup_eq_head?_filter (n : String) (l : List (String × D)) :
    l.lookup n = ((l.filter fun m => m.1 == n).head?).map Prod.snd := by
  induction l with
  | nil => rfl
  | cons m l ih =>
    obtain ⟨k, v⟩ := m
    rw [List.lookup_cons]
    by_cases h : k = n
    · simp [h]
    · have hne : (n == k) = false := by simpa using Ne.symm h
      simp [h, hne, ih]

theorem filter_of_notMem {full : List (String × α)}
    (h : List.Forall₂ (fun m m' => m'.1 = m.1 ∧ shows m.1 m.2 m'.2) full chosen) {n : String}
    (hn : n ∉ full.map Prod.fst) : chosen.filter (fun m => m.1 == n) = [] := by
  induction h with
  | nil => rfl
  | @cons m m' full chosen hm _ ih =>
    rw [List.map_cons, List.mem_cons, not_or] at hn
    rw [List.filter_cons_of_neg (by simpa [hm.1] using Ne.symm hn.1), ih hn.2]

theorem filter_of_mem {full : List (String × α)}
    (h : List.Forall₂ (fun m m' => m'.1 = m.1 ∧ shows m.1 m.2 m'.2) full chosen)
    (hnodup : (full.map Prod.fst).Nodup) {m : String × α} (hm : m ∈ full) :
    ∃ v, chosen.filter (fun x => x.1 == m.1) = [(m.1, v)] ∧ shows m.1 m.2 v := by
  induction h with
  | nil => cases hm
  | @cons a a' full chosen ha hrest ih =>
    rw [List.map_cons, List.nodup_cons] at hnodup
    cases hm with
    | head =>
      refine ⟨a'.2, ?_, ha.2⟩
      rw [List.filter_cons_of_pos (by simpa using ha.1), filter_of_notMem hrest hnodup.1, ← ha.1]
    | tail _ hm =>
      obtain ⟨v, hv, hshows⟩ := ih hnodup.2 hm
      have hne : a'.1 ≠ m.1 := by
        intro heq
        exact hnodup.1 (ha.1 ▸ heq ▸ List.mem_map_of_mem hm)
      exact ⟨v, by rw [List.filter_cons_of_neg (by simpa using hne), hv], hshows⟩

/-- The entries under a key of the record are those that were chosen. -/
theorem PartOf.exists_chosen (h : PartOf kept shows full members) :
    ∃ chosen, List.Forall₂ (fun m m' => m'.1 = m.1 ∧ shows m.1 m.2 m'.2)
        (full.filter fun m => kept m.1) chosen ∧
      ∀ n ∈ full.map Prod.fst, (members.filter fun m => m.1 == n).Perm
        (chosen.filter fun m => m.1 == n) := by
  obtain ⟨chosen, extra, hperm, hextra, hchosen⟩ := h
  refine ⟨chosen, hchosen, fun n hn => ?_⟩
  have hnone : extra.filter (fun m => m.1 == n) = [] := by
    rw [List.filter_eq_nil_iff]
    intro m hm heq
    exact hextra m hm (by rwa [beq_iff_eq.1 heq])
  have hfilter := hperm.filter fun m => m.1 == n
  rwa [List.filter_append, hnone, List.append_nil] at hfilter

theorem PartOf.filter (h : PartOf kept shows full members) (hnodup : (full.map Prod.fst).Nodup)
    {m : String × α} (hm : m ∈ full) :
    if kept m.1 then ∃ v, members.filter (fun x => x.1 == m.1) = [(m.1, v)] ∧ shows m.1 m.2 v
    else members.filter (fun x => x.1 == m.1) = [] := by
  obtain ⟨chosen, hchosen, hperm⟩ := h.exists_chosen
  have hsub : ((full.filter fun m => kept m.1).map Prod.fst).Nodup :=
    hnodup.sublist (List.filter_sublist.map _)
  have hperm := hperm m.1 (List.mem_map_of_mem hm)
  split
  · rename_i hkept
    obtain ⟨v, hv, hshows⟩ := filter_of_mem hchosen hsub (List.mem_filter.2 ⟨hm, hkept⟩)
    rw [hv] at hperm
    exact ⟨v, List.perm_singleton.1 hperm, hshows⟩
  · rename_i hkept
    have hnot : m.1 ∉ (full.filter fun m => kept m.1).map Prod.fst := by
      intro hmem
      obtain ⟨m', hm', heq⟩ := List.mem_map.1 hmem
      exact hkept (heq ▸ (List.mem_filter.1 hm').2)
    rw [filter_of_notMem hchosen hnot] at hperm
    exact List.perm_nil.1 hperm

/-- No key of the record is repeated. -/
theorem PartOf.length_filter_le (h : PartOf kept shows full members)
    (hnodup : (full.map Prod.fst).Nodup) {n : String} (hn : n ∈ full.map Prod.fst) :
    (members.filter fun m => m.1 == n).length ≤ 1 := by
  obtain ⟨m, hm, rfl⟩ := List.mem_map.1 hn
  have hfilter := h.filter hnodup hm
  split at hfilter
  · obtain ⟨v, hv, -⟩ := hfilter
    exact Nat.le_of_eq (by rw [hv, List.length_singleton])
  · rw [hfilter, List.length_nil]
    exact Nat.zero_le 1

theorem PartOf.lookup (h : PartOf kept shows full members) (hnodup : (full.map Prod.fst).Nodup)
    {m : String × α} (hm : m ∈ full) :
    if kept m.1 then ∃ v, members.lookup m.1 = some v ∧ shows m.1 m.2 v
    else members.lookup m.1 = none := by
  have hfilter := h.filter hnodup hm
  rw [lookup_eq_head?_filter]
  split
  · rename_i hkept
    rw [if_pos hkept] at hfilter
    obtain ⟨v, hv, hshows⟩ := hfilter
    exact ⟨v, by rw [hv]; rfl, hshows⟩
  · rename_i hkept
    rw [if_neg hkept] at hfilter
    rw [hfilter]
    rfl

end

/-! ## Values as documents -/

/-- How values stand in documents of a format: what is a record with given entries, what stands for
a value without entries, and that the format reads both for what they are. -/
structure Writing {D : Type} (f : Format D) where
  record : D → List (String × D) → Prop
  leaf : Json → D → Prop
  fields {d : D} {members : List (String × D)} {names : List String} (h : record d members)
    (honce : ∀ n ∈ names, (members.filter fun m => m.1 == n).length ≤ 1) :
    f.fields names d = some (members.lookup ·)
  null {d : D} (h : leaf .null d) : f.isNull d = true
  notNull {s : String} {d : D} (h : leaf (.str s) d) : f.isNull d = false
  text {s : String} {d : D} (h : leaf (.str s) d) : f.text d = some s
  choice {s : String} {d : D} (h : leaf (.str s) d) : f.choice d = some s
  flag {b : Bool} {d : D} (h : leaf (.bool b) d) : f.flag d = some b
  count {n : Nat} {d : D} (h : leaf (.nat n) d) (hn : n < Json.countLimit) : f.count d = some n
  texts {ss : List String} {d : D} (h : leaf (.arr (ss.map .str)) d) : f.list f.text d = some ss

namespace Writing

variable {D α : Type} {f : Format D} (w : Writing f)

/-- Some fields of a section. -/
def Section (kept : String → Bool) (fields : List (String × Json)) (d : D) : Prop :=
  ∃ members, w.record d members ∧ PartOf kept (fun _ => w.leaf) fields members

theorem optional {o : Option String} {d : D} (h : w.leaf (.optStr o) d) :
    f.optional f.text d = some o := by
  cases o with
  | none => simp [Format.optional, w.null h]
  | some s => simp [Format.optional, w.notNull h, w.text h]

theorem alternative {ofName? : String → Option α} {s : String} {x : α} (hname : ofName? s = some x)
    {d : D} (h : w.leaf (.str s) d) : f.alternative ofName? d = some x := by
  simp [Format.alternative, w.choice h, hname]

theorem fields_of_section {kept : String → Bool} {fields : List (String × Json)} {d : D}
    (h : w.Section kept fields d) (hnodup : (fields.map Prod.fst).Nodup) :
    ∃ get, f.fields (fields.map Prod.fst) d = some get ∧
      ∀ m ∈ fields, if kept m.1 then ∃ v, get m.1 = some v ∧ w.leaf m.2 v else get m.1 = none := by
  obtain ⟨members, hrecord, hpart⟩ := h
  exact ⟨_, w.fields hrecord fun n hn => hpart.length_filter_le hnodup hn,
    fun m hm => hpart.lookup hnodup hm⟩

end Writing

theorem fieldOr_eq {D α : Type} {read : D → Option α} {value default : α} {kept : Bool}
    {o : Option D} {leaf : D → Prop}
    (h : if kept then ∃ v, o = some v ∧ leaf v else o = none)
    (hread : ∀ v, leaf v → read v = some value) :
    Format.fieldOr read default o = some (if kept then value else default) := by
  cases kept with
  | true =>
    obtain ⟨v, rfl, hv⟩ := h
    exact hread v hv
  | false =>
    obtain rfl := h
    rfl

/-- A section that is missing is one without fields. -/
theorem sectionOr_eq {D α : Type} {read : D → Option α} {value default : α} {present : Bool}
    {o : Option D} {part : D → Prop}
    (h : if present then ∃ v, o = some v ∧ part v else o = none)
    (hread : ∀ v, part v → read v = some value) (habsent : present = false → default = value) :
    Format.fieldOr read default o = some value := by
  rw [fieldOr_eq h hread]
  cases present with
  | true => rfl
  | false => exact congrArg some (habsent rfl)

namespace Settings

/-- The members of a section. -/
def namingMembers (s : NamingSettings) : List (String × Json) :=
  [("strategy", .str s.strategy.name),
    ("candidate_count", .nat s.candidateCount)]

@[inherit_doc namingMembers]
def embeddingMembers (s : EmbeddingSettings) : List (String × Json) :=
  [("model", .str s.model.name),
    ("cache_dir", .optStr s.cacheDir),
    ("show_download_progress", .bool s.showDownloadProgress),
    ("batch_size", .nat s.batchSize)]

@[inherit_doc namingMembers]
def indexMembers (s : IndexSettings) : List (String × Json) :=
  [("backend", .str s.backend.name),
    ("host", .optStr s.host),
    ("namespace", .str s.namespaceName),
    ("api_key_env", .str s.apiKeyVariable),
    ("local_path", .optStr s.localPath),
    ("timeout_secs", .nat s.timeoutSeconds)]

@[inherit_doc namingMembers]
def harvestMembers (s : HarvestSettings) : List (String × Json) :=
  [("batch_size", .nat s.batchSize),
    ("output_dir", .str s.outputDir),
    ("exclude_patterns", .arr (s.excludePatterns.map .str)),
    ("min_name_length", .nat s.minNameLength)]

@[inherit_doc namingMembers]
def procedureMembers (s : ProcedureSettings) : List (String × Json) :=
  [("include_local_functions", .bool s.includeLocalFunctions)]

/-- The sections with their members. -/
def sections (s : Settings) : List (String × List (String × Json)) :=
  [("naming", namingMembers s.naming),
    ("embedding", embeddingMembers s.embedding),
    ("index", indexMembers s.index),
    ("harvest", harvestMembers s.harvest),
    ("rewrite", procedureMembers s.procedures)]

theorem toJson_eq (s : Settings) :
    s.toJson = .obj (s.sections.map fun x => (x.1, .obj x.2)) := rfl

/-- The counts among the settings. -/
def counts (s : Settings) : List Nat :=
  [s.naming.candidateCount, s.embedding.batchSize, s.index.timeoutSeconds, s.harvest.batchSize,
    s.harvest.minNameLength]

section
variable (kept : String → Bool)

/-- The fields that are kept, and the others from elsewhere. -/
def overlayNaming (a b : NamingSettings) : NamingSettings where
  strategy := if kept "strategy" then a.strategy else b.strategy
  candidateCount := if kept "candidate_count" then a.candidateCount else b.candidateCount

@[inherit_doc overlayNaming]
def overlayEmbedding (a b : EmbeddingSettings) : EmbeddingSettings where
  model := if kept "model" then a.model else b.model
  cacheDir := if kept "cache_dir" then a.cacheDir else b.cacheDir
  showDownloadProgress :=
    if kept "show_download_progress" then a.showDownloadProgress else b.showDownloadProgress
  batchSize := if kept "batch_size" then a.batchSize else b.batchSize

@[inherit_doc overlayNaming]
def overlayIndex (a b : IndexSettings) : IndexSettings where
  backend := if kept "backend" then a.backend else b.backend
  host := if kept "host" then a.host else b.host
  namespaceName := if kept "namespace" then a.namespaceName else b.namespaceName
  apiKeyVariable := if kept "api_key_env" then a.apiKeyVariable else b.apiKeyVariable
  localPath := if kept "local_path" then a.localPath else b.localPath
  timeoutSeconds := if kept "timeout_secs" then a.timeoutSeconds else b.timeoutSeconds

@[inherit_doc overlayNaming]
def overlayHarvest (a b : HarvestSettings) : HarvestSettings where
  batchSize := if kept "batch_size" then a.batchSize else b.batchSize
  outputDir := if kept "output_dir" then a.outputDir else b.outputDir
  excludePatterns := if kept "exclude_patterns" then a.excludePatterns else b.excludePatterns
  minNameLength := if kept "min_name_length" then a.minNameLength else b.minNameLength

@[inherit_doc overlayNaming]
def overlayProcedures (a b : ProcedureSettings) : ProcedureSettings where
  includeLocalFunctions :=
    if kept "include_local_functions" then a.includeLocalFunctions else b.includeLocalFunctions

end

/-- The values of the fields that all sections leave out. -/
def unset : Settings where
  naming := .unset
  embedding := .unset
  index := .unset
  harvest := .unset
  procedures := .unset

/-- The values of fields that are left out are those of sections that are left out. -/
theorem unset_eq : unset = {} := rfl

/-- The settings whose fields are kept, by section and name, and the others from elsewhere. -/
def overlay (kept : String → String → Bool) (a b : Settings) : Settings where
  naming := overlayNaming (kept "naming") a.naming b.naming
  embedding := overlayEmbedding (kept "embedding") a.embedding b.embedding
  index := overlayIndex (kept "index") a.index b.index
  harvest := overlayHarvest (kept "harvest") a.harvest b.harvest
  procedures := overlayProcedures (kept "rewrite") a.procedures b.procedures

section
variable {kept : String → Bool}

theorem overlayNaming_of_dropped {a b : NamingSettings}
    (h : ∀ m ∈ namingMembers a, kept m.1 = false) : overlayNaming kept a b = b := by
  simp only [namingMembers, List.forall_mem_cons] at h
  simp [overlayNaming, h]

theorem overlayEmbedding_of_dropped {a b : EmbeddingSettings}
    (h : ∀ m ∈ embeddingMembers a, kept m.1 = false) : overlayEmbedding kept a b = b := by
  simp only [embeddingMembers, List.forall_mem_cons] at h
  simp [overlayEmbedding, h]

theorem overlayIndex_of_dropped {a b : IndexSettings}
    (h : ∀ m ∈ indexMembers a, kept m.1 = false) : overlayIndex kept a b = b := by
  simp only [indexMembers, List.forall_mem_cons] at h
  simp [overlayIndex, h]

theorem overlayHarvest_of_dropped {a b : HarvestSettings}
    (h : ∀ m ∈ harvestMembers a, kept m.1 = false) : overlayHarvest kept a b = b := by
  simp only [harvestMembers, List.forall_mem_cons] at h
  simp [overlayHarvest, h]

theorem overlayProcedures_of_dropped {a b : ProcedureSettings}
    (h : ∀ m ∈ procedureMembers a, kept m.1 = false) : overlayProcedures kept a b = b := by
  simp only [procedureMembers, List.forall_mem_cons] at h
  simp [overlayProcedures, h]

end

section
variable {D : Type} {f : Format D} (w : Writing f) {kept : String → Bool} {d : D}

theorem readNaming_of_section {s : NamingSettings} (hcount : s.candidateCount < Json.countLimit)
    (h : w.Section kept (namingMembers s) d) :
    readNaming f d = some (overlayNaming kept s .unset) := by
  obtain ⟨get, hget, hfield⟩ := w.fields_of_section h
    (show ["strategy", "candidate_count"].Nodup by decide)
  simp only [namingMembers, List.map_cons, List.map_nil, List.forall_mem_cons] at hget hfield
  obtain ⟨hstrategy, hcandidates, -⟩ := hfield
  have hname : Strategy.ofName? s.strategy.name = some s.strategy := by
    cases s.strategy <;> rfl
  unfold readNaming
  simp only [hget, Option.bind_eq_bind, Option.bind_some,
    fieldOr_eq hstrategy fun _ => w.alternative hname,
    fieldOr_eq hcandidates fun _ hv => w.count hv hcount]
  rfl

theorem readEmbedding_of_section {s : EmbeddingSettings} (hcount : s.batchSize < Json.countLimit)
    (h : w.Section kept (embeddingMembers s) d) :
    readEmbedding f d = some (overlayEmbedding kept s .unset) := by
  obtain ⟨get, hget, hfield⟩ := w.fields_of_section h
    (show ["model", "cache_dir", "show_download_progress", "batch_size"].Nodup by decide)
  simp only [embeddingMembers, List.map_cons, List.map_nil, List.forall_mem_cons] at hget hfield
  obtain ⟨hmodel, hcache, hprogress, hbatch, -⟩ := hfield
  have hname : EmbeddingModel.ofName? s.model.name = some s.model := by
    cases s.model <;> rfl
  unfold readEmbedding
  simp only [hget, Option.bind_eq_bind, Option.bind_some,
    fieldOr_eq hmodel fun _ => w.alternative hname, fieldOr_eq hcache fun _ => w.optional,
    fieldOr_eq hprogress fun _ => w.flag, fieldOr_eq hbatch fun _ hv => w.count hv hcount]
  rfl

theorem readIndex_of_section {s : IndexSettings} (hcount : s.timeoutSeconds < Json.countLimit)
    (h : w.Section kept (indexMembers s) d) :
    readIndex f d = some (overlayIndex kept s .unset) := by
  obtain ⟨get, hget, hfield⟩ := w.fields_of_section h
    (show ["backend", "host", "namespace", "api_key_env", "local_path", "timeout_secs"].Nodup by
      decide)
  simp only [indexMembers, List.map_cons, List.map_nil, List.forall_mem_cons] at hget hfield
  obtain ⟨hbackend, hhost, hnamespace, hkey, hpath, htimeout, -⟩ := hfield
  have hname : Backend.ofName? s.backend.name = some s.backend := by
    cases s.backend <;> rfl
  unfold readIndex
  simp only [hget, Option.bind_eq_bind, Option.bind_some,
    fieldOr_eq hbackend fun _ => w.alternative hname, fieldOr_eq hhost fun _ => w.optional,
    fieldOr_eq hnamespace fun _ => w.text, fieldOr_eq hkey fun _ => w.text,
    fieldOr_eq hpath fun _ => w.optional, fieldOr_eq htimeout fun _ hv => w.count hv hcount]
  rfl

theorem readHarvest_of_section {s : HarvestSettings} (hbatch : s.batchSize < Json.countLimit)
    (hname : s.minNameLength < Json.countLimit) (h : w.Section kept (harvestMembers s) d) :
    readHarvest f d = some (overlayHarvest kept s .unset) := by
  obtain ⟨get, hget, hfield⟩ := w.fields_of_section h
    (show ["batch_size", "output_dir", "exclude_patterns", "min_name_length"].Nodup by decide)
  simp only [harvestMembers, List.map_cons, List.map_nil, List.forall_mem_cons] at hget hfield
  obtain ⟨hsize, hdir, hpatterns, hlength, -⟩ := hfield
  unfold readHarvest
  simp only [hget, Option.bind_eq_bind, Option.bind_some,
    fieldOr_eq hsize fun _ hv => w.count hv hbatch, fieldOr_eq hdir fun _ => w.text,
    fieldOr_eq hpatterns fun _ => w.texts, fieldOr_eq hlength fun _ hv => w.count hv hname]
  rfl

theorem readProcedures_of_section {s : ProcedureSettings}
    (h : w.Section kept (procedureMembers s) d) :
    readProcedures f d = some (overlayProcedures kept s .unset) := by
  obtain ⟨get, hget, hfield⟩ := w.fields_of_section h
    (show ["include_local_functions"].Nodup by decide)
  simp only [procedureMembers, List.map_cons, List.map_nil, List.forall_mem_cons] at hget hfield
  unfold readProcedures
  simp only [hget, Option.bind_eq_bind, Option.bind_some, fieldOr_eq hfield.1 fun _ => w.flag]
  rfl

/-- A document with some sections of the settings and some fields in them; `kept` tells which. The
fields of a section that is missing are not kept. -/
def IsPart (kept : String → String → Bool) (s : Settings) (d : D) : Prop :=
  ∃ present members, w.record d members ∧
    PartOf present (fun name => w.Section (kept name)) s.sections members ∧
    ∀ x ∈ s.sections, present x.1 = false → ∀ m ∈ x.2, kept x.1 m.1 = false

/-- **What a document leaves out takes its default.** -/
theorem read_of_isPart {kept : String → String → Bool} {s : Settings}
    (hcounts : ∀ n ∈ s.counts, n < Json.countLimit) (h : IsPart w kept s d) :
    read f d = some (s.overlay kept {}) := by
  obtain ⟨present, members, hrecord, hpart, habsent⟩ := h
  have hnodup : (s.sections.map Prod.fst).Nodup :=
    show ["naming", "embedding", "index", "harvest", "rewrite"].Nodup by decide
  have hget := w.fields hrecord fun n hn => hpart.length_filter_le hnodup hn
  have hfield := fun x hx => hpart.lookup hnodup (m := x) hx
  simp only [sections, List.map_cons, List.map_nil, List.forall_mem_cons] at hget hfield habsent
  simp only [counts, List.forall_mem_cons] at hcounts
  obtain ⟨hcandidates, hembeddings, htimeout, hrecords, hlength, -⟩ := hcounts
  obtain ⟨hnaming, hembedding, hindex, hharvest, hprocedures, -⟩ := hfield
  obtain ⟨hnaming', hembedding', hindex', hharvest', hprocedures', -⟩ := habsent
  -- A section that is missing gives `{}`, and one that is there takes from `unset`.
  obtain ⟨enaming, eembedding, eindex, eharvest, eprocedures⟩ := Settings.mk.inj unset_eq
  rw [← unset_eq]
  unfold read
  simp only [hget, Option.bind_eq_bind, Option.bind_some,
    sectionOr_eq hnaming (fun _ => readNaming_of_section w hcandidates)
      fun hp => enaming.symm.trans (overlayNaming_of_dropped (hnaming' hp)).symm,
    sectionOr_eq hembedding (fun _ => readEmbedding_of_section w hembeddings)
      fun hp => eembedding.symm.trans (overlayEmbedding_of_dropped (hembedding' hp)).symm,
    sectionOr_eq hindex (fun _ => readIndex_of_section w htimeout)
      fun hp => eindex.symm.trans (overlayIndex_of_dropped (hindex' hp)).symm,
    sectionOr_eq hharvest (fun _ => readHarvest_of_section w hrecords hlength)
      fun hp => eharvest.symm.trans (overlayHarvest_of_dropped (hharvest' hp)).symm,
    sectionOr_eq hprocedures (fun _ => readProcedures_of_section w)
      fun hp => eprocedures.symm.trans (overlayProcedures_of_dropped (hprocedures' hp)).symm]
  rfl

end

/-- Without a field that is missing nothing is taken from elsewhere. -/
theorem overlay_self (a b : Settings) : a.overlay (fun _ _ => true) b = a := rfl

theorem isPart_of_record {D : Type} {f : Format D} (w : Writing f) {s : Settings} {d : D}
    {members : List (String × D)} (hrecord : w.record d members)
    (h : List.Forall₂ (fun x m => m.1 = x.1 ∧ ∃ fields, w.record m.2 fields ∧
      List.Forall₂ (fun a b => b.1 = a.1 ∧ w.leaf a.2 b.2) x.2 fields) s.sections members) :
    IsPart w (fun _ _ => true) s d := by
  have hall : ∀ {α : Type} (l : List (String × α)), l.filter (fun _ => true) = l := fun l => by simp
  refine ⟨fun _ => true, members, hrecord, ⟨members, [], by simp, by simp, ?_⟩, by simp⟩
  rw [hall]
  refine h.imp fun x m hm => ⟨hm.1, ?_⟩
  obtain ⟨fields, hfields, hleaf⟩ := hm.2
  exact ⟨fields, hfields, fields, [], by simp, by simp, by rwa [hall]⟩

end Settings

/-! ## JSON -/

/-- A value stands in JSON for itself. -/
def Json.writing : Writing Json.format where
  record j members := j = .obj members
  leaf v j := j = v
  fields := by
    intro d members names h honce
    subst h
    have hnot : Json.hasRepeated names members = false := by
      simp only [Json.hasRepeated, List.any_eq_false, decide_eq_true_eq, Nat.not_lt]
      exact honce
    show Json.fieldsBy id names (.obj members) = _
    simp [Json.fieldsBy, hnot]
  null := by rintro _ rfl; rfl
  notNull := by rintro _ _ rfl; rfl
  text := by rintro _ _ rfl; rfl
  choice := by rintro _ _ rfl; rfl
  flag := by rintro _ _ rfl; rfl
  count := by
    rintro n _ rfl hn
    show Json.count? (.nat n) = some n
    simp [Json.count?, Json.nat, Number.ofNat, hn]
  texts := by
    rintro ss _ rfl
    show ((ss.map Json.str).mapM Json.text? : Option (List String)) = some ss
    rw [mapM_eq_some_iff, List.forall₂_map_left_iff, List.forall₂_same]
    exact fun s _ => rfl

theorem Settings.isPart_toJson (s : Settings) :
    IsPart Json.writing (fun _ _ => true) s s.toJson := by
  refine isPart_of_record Json.writing s.toJson_eq ?_
  rw [List.forall₂_map_right_iff, List.forall₂_same]
  exact fun x _ => ⟨rfl, x.2, rfl, List.forall₂_same.2 fun _ _ => ⟨rfl, rfl⟩⟩

end ParamTwin
