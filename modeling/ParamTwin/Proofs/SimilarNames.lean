import Mathlib.Data.List.Basic
import ParamTwin.Service

/-!
# Asking for more similar names

Naming by similarity cuts twice by the same count: the index gives its best `count` names, and after
they are cleaned the first `count` of them are proposed. The second cut takes nothing away, because
cleaning never adds a name. So every step keeps front parts, and more proposals begin with the fewer
ones.

* `Similarity.clean_isPrefix`: cleaning a front part of some names gives a front part of the result.
* `Suggester.larger_count_extends`: a larger count proposes the same names first, and a name that was
  chosen stays chosen.
-/

namespace ParamTwin

namespace Store

section
variable {s : Store} {vector : Embedding} {typeName : String}

theorem query_isPrefix {k k' : Nat} (h : k ≤ k') :
    s.query vector k typeName <+: s.query vector k' typeName :=
  (List.take_prefix_take_left h).map _

theorem length_query_le (count : Nat) : (s.query vector count typeName).length ≤ count := by
  simp only [query, rank, List.length_map, List.length_take]
  omega

/-- What an index finds stands in it, with exactly the type that was asked for. -/
theorem exists_record_of_mem_query {count : Nat} {hit : Hit}
    (h : hit ∈ s.query vector count typeName) :
    ∃ r ∈ s.records, r.typeName = typeName ∧ hit.name = r.paramName := by
  simp only [query, rank, List.mem_map] at h
  obtain ⟨⟨score, r⟩, hr, rfl⟩ := h
  have hscored := (List.mergeSort_perm _ _).mem_iff.1 (List.mem_of_mem_take hr)
  obtain ⟨r', hr', heq⟩ := List.mem_map.1 hscored
  obtain ⟨-, rfl⟩ := Prod.mk.inj heq
  have hkept := List.mem_filter.1 hr'
  exact ⟨r', hkept.1, by simpa using hkept.2, rfl⟩

end
end Store

namespace Similarity

/-! ## Cleaning -/

theorem distinct_sublist (seen names : List String) : (distinct seen names).Sublist names := by
  induction names generalizing seen with
  | nil => simp [distinct]
  | cons n names ih =>
    simp only [distinct]
    split
    · exact (ih seen).cons n
    · exact (ih (n :: seen)).cons_cons n

theorem not_mem_of_mem_distinct {seen names : List String} {n : String}
    (h : n ∈ distinct seen names) : n ∉ seen := by
  induction names generalizing seen with
  | nil => simp [distinct] at h
  | cons m names ih =>
    simp only [distinct] at h
    split at h
    · exact ih h
    · rename_i hm
      rcases List.mem_cons.1 h with rfl | h
      · simpa using hm
      · exact fun hn => ih h (List.mem_cons_of_mem _ hn)

theorem nodup_distinct (seen names : List String) : (distinct seen names).Nodup := by
  induction names generalizing seen with
  | nil => simp [distinct]
  | cons n names ih =>
    simp only [distinct]
    split
    · exact ih seen
    · refine List.nodup_cons.2 ⟨fun hn => ?_, ih (n :: seen)⟩
      exact not_mem_of_mem_distinct hn List.mem_cons_self

/-- Whether a name is kept depends on the names before it only. -/
theorem distinct_isPrefix {names names' : List String} (h : names <+: names')
    (seen : List String) : distinct seen names <+: distinct seen names' := by
  obtain ⟨more, rfl⟩ := h
  induction names generalizing seen with
  | nil => exact List.nil_prefix
  | cons n names ih =>
    simp only [List.cons_append, distinct]
    split
    · exact ih seen
    · exact List.cons_prefix_cons.2 ⟨rfl, ih (n :: seen)⟩

/-- Cleaning adds no names, so as many as there are need not be cut. -/
theorem clean_eq_of_length_le {names : List String} {count : Nat} (h : names.length ≤ count)
    (bound : NameSet) : clean names bound count =
      distinct [] ((names.map unquoted).filter fun n => n != "" && !bound.contains n) := by
  apply List.take_of_length_le
  calc _ ≤ ((names.map unquoted).filter fun n => n != "" && !bound.contains n).length :=
        (distinct_sublist _ _).length_le
    _ ≤ (names.map unquoted).length := List.length_filter_le _ _
    _ ≤ count := by simpa using h

theorem clean_isPrefix {names names' : List String} {k k' : Nat} (h : names <+: names')
    (hk : names.length ≤ k) (hk' : names'.length ≤ k') (bound : NameSet) :
    clean names bound k <+: clean names' bound k' := by
  rw [clean_eq_of_length_le hk, clean_eq_of_length_le hk']
  exact distinct_isPrefix ((h.map unquoted).filter _) []

theorem nodup_clean (names : List String) (bound : NameSet) (count : Nat) :
    (clean names bound count).Nodup :=
  (nodup_distinct _ _).sublist (List.take_sublist _ _)

theorem of_mem_clean {names : List String} {bound : NameSet} {count : Nat} {n : String}
    (h : n ∈ clean names bound count) :
    n ≠ "" ∧ bound.contains n = false ∧ ∃ m ∈ names, n = unquoted m := by
  have hkept := (distinct_sublist _ _).subset (List.mem_of_mem_take h)
  simp only [List.mem_filter, List.mem_map, Bool.and_eq_true, bne_iff_ne, Bool.not_eq_true'] at hkept
  obtain ⟨⟨m, hm, rfl⟩, hne, hbound⟩ := hkept
  exact ⟨hne, hbound, m, hm, rfl⟩

end Similarity

namespace Suggester

section
variable {embedder : Embedder} {index : LocalIndex} {transport : Transport}
  {context : NamingContext} (name typeName : String) (bound : NameSet)

theorem suggest_of_embedOne_error {lookup : Lookup} {e : Error}
    (h : embedder.embedOne context.describe = .error e) (count : Nat) :
    (similarity embedder lookup).suggest name context typeName bound count = [] := by
  simp only [similarity, Similarity.propose]
  split_ifs with hcount
  · rfl
  · rw [h]; rfl

theorem suggest_of_embedOne_ok {vector : Embedding}
    (h : embedder.embedOne context.describe = .ok vector) (count : Nat) :
    (similarity embedder ((Index.file index).lookup transport)).suggest name context typeName
        bound count =
      Similarity.clean ((index.store.query vector count typeName).map (·.name)) bound count := by
  simp only [similarity, Similarity.propose]
  split_ifs with hcount
  · subst hcount; rfl
  · rw [h]; rfl

theorem suggest_isPrefix {k k' : Nat} (h : k ≤ k') :
    let s := similarity embedder ((Index.file index).lookup transport)
    s.suggest name context typeName bound k <+: s.suggest name context typeName bound k' := by
  intro s
  cases hvector : embedder.embedOne context.describe with
  | error e =>
    rw [suggest_of_embedOne_error name typeName bound hvector]
    exact List.nil_prefix
  | ok vector =>
    rw [suggest_of_embedOne_ok name typeName bound hvector,
      suggest_of_embedOne_ok name typeName bound hvector]
    apply Similarity.clean_isPrefix ((Store.query_isPrefix h).map _)
    · simpa using Store.length_query_le k
    · simpa using Store.length_query_le k'

theorem nodup_suggest (count : Nat) :
    ((similarity embedder ((Index.file index).lookup transport)).suggest name context typeName
      bound count).Nodup := by
  cases hvector : embedder.embedOne context.describe with
  | error e => simp [suggest_of_embedOne_error name typeName bound hvector]
  | ok vector =>
    rw [suggest_of_embedOne_ok name typeName bound hvector]
    exact Similarity.nodup_clean _ _ _

variable {name typeName bound}

theorem of_mem_suggest {count : Nat} {n : String}
    (h : n ∈ (similarity embedder ((Index.file index).lookup transport)).suggest name context
      typeName bound count) :
    n ≠ "" ∧ bound.contains n = false ∧
      ∃ r ∈ index.store.records, r.typeName = typeName ∧ n = Similarity.unquoted r.paramName := by
  cases hvector : embedder.embedOne context.describe with
  | error e => simp [suggest_of_embedOne_error name typeName bound hvector] at h
  | ok vector =>
    rw [suggest_of_embedOne_ok name typeName bound hvector] at h
    obtain ⟨hne, hbound, m, hm, rfl⟩ := Similarity.of_mem_clean h
    obtain ⟨hit, hhit, rfl⟩ := List.mem_map.1 hm
    obtain ⟨r, hr, htype, hname⟩ := Store.exists_record_of_mem_query hhit
    exact ⟨hne, hbound, r, hr, htype, by rw [hname]⟩

end

/-- The parameter name plays no part in naming by similarity. -/
theorem best_similarity (embedder : Embedder) (lookup : Lookup) (name : String)
    (context : NamingContext) (typeName : String) (bound : NameSet) (count : Nat) :
    let s := similarity embedder lookup
    s.best name context typeName bound count =
      ((s.suggest name context typeName bound (max count 1)).find? (isUsable bound)).getD
        (fallbackName bound) :=
  rfl

/-- **More proposals begin with the fewer ones.** Every name that a local index proposes is the
unquoted name of a record of the type asked for, not empty, not bound and not repeated, and a larger
count proposes the same names first. So a name chosen from the index stays chosen, and where a larger
count changes the choice it puts a name of the index in the place of the fallback. -/
theorem larger_count_extends (embedder : Embedder) (index : LocalIndex) (transport : Transport)
    (name : String) (context : NamingContext) (typeName : String) (bound : NameSet) (k k' : Nat)
    (h : k ≤ k') :
    let s := similarity embedder ((Index.file index).lookup transport)
    let proposed := s.suggest name context typeName bound
    let chosen := s.best name context typeName bound
    let picked := fun count => (proposed (max count 1)).find? (isUsable bound)
    proposed k <+: proposed k' ∧ (proposed k').Nodup ∧
    (∀ n ∈ proposed k', n ≠ "" ∧ bound.contains n = false ∧
      ∃ r ∈ index.store.records, r.typeName = typeName ∧ n = Similarity.unquoted r.paramName) ∧
    (∀ n, picked k = some n → chosen (max k 1) = n ∧ chosen k' = n) ∧
    (chosen k' ≠ chosen k → picked k = none ∧ chosen k = fallbackName bound ∧
      chosen k' ∈ proposed (max k' 1)) := by
  intro s proposed chosen picked
  have hpicked : ∀ n, picked k = some n → picked k' = some n := by
    intro n hn
    have hmax : max k 1 ≤ max k' 1 := by omega
    exact (suggest_isPrefix name typeName bound hmax).find?_eq_some hn
  have hchosen : ∀ count, chosen count = (picked count).getD (fallbackName bound) :=
    best_similarity embedder _ name context typeName bound
  refine ⟨suggest_isPrefix name typeName bound h, nodup_suggest name typeName bound k',
    fun n hn => of_mem_suggest hn, fun n hn => ⟨?_, ?_⟩, fun hne => ?_⟩
  · have hmax : picked (max k 1) = picked k := by
      have : max (max k 1) 1 = max k 1 := by omega
      simp only [picked, this]
    rw [hchosen, hmax, hn, Option.getD_some]
  · rw [hchosen, hpicked n hn, Option.getD_some]
  · cases hk : picked k with
    | some n =>
      -- a name from the index would have stayed
      exact absurd (by rw [hchosen, hchosen, hk, hpicked n hk]) hne
    | none =>
      refine ⟨rfl, by rw [hchosen, hk, Option.getD_none], ?_⟩
      cases hk' : picked k' with
      | none => exact absurd (by rw [hchosen, hchosen, hk, hk']) hne
      | some n =>
        rw [hchosen, hk', Option.getD_some]
        exact List.mem_of_find?_eq_some hk'

/-- Five records: a quoted name, one name in two spellings, and one of another type. -/
def sampleIndex : LocalIndex :=
  LocalIndex.new.upsert
    [{ id := "a", values := [], typeName := "int", paramName := "\"id\"" },
     { id := "b", values := [], typeName := "string", paramName := "label" },
     { id := "c", values := [], typeName := "int", paramName := " 'key'" },
     { id := "d", values := [], typeName := "int", paramName := "key" },
     { id := "e", values := [], typeName := "int", paramName := "index" }]

/-- An embedder for which all texts are alike. -/
def evenEmbedder : Embedder where
  embed texts := .ok (texts.map fun _ => [])

/-- All similarities being equal, the records come in the order of their ids. -/
theorem query_sampleIndex (count : Nat) :
    (sampleIndex.store.query [] count "int").map (·.name) =
      ["\"id\"", " 'key'", "key", "index"].take count := by
  have hsorted : ((sampleIndex.store.records.filter (·.typeName == "int")).map
      fun r => (Cosine.similarity [] r.values, r)).Pairwise fun a b => Store.before a b = true := by
    decide
  simp only [Store.query, Store.rank]
  rw [List.mergeSort_of_pairwise hsorted, List.map_map, List.map_take]
  rfl

theorem sample_choice_stays :
    let s := similarity evenEmbedder ((Index.file sampleIndex).lookup fun _ _ _ => .error .badJson)
    let bound := NameSet.ofList ["id"]
    2 ≤ 4 ∧ s.best "id" default "int" bound 1 = "param" ∧
      s.suggest "id" default "int" bound 2 = ["key"] ∧
      s.suggest "id" default "int" bound 4 = ["key", "index"] ∧
      s.best "id" default "int" bound 2 = "key" ∧ s.best "id" default "int" bound 4 = "key" := by
  intro s bound
  have hsuggest : ∀ count, s.suggest "id" default "int" bound count =
      Similarity.clean (["\"id\"", " 'key'", "key", "index"].take count) bound count := by
    intro count
    rw [suggest_of_embedOne_ok "id" "int" bound rfl count, query_sampleIndex]
  obtain ⟨-, -, -, hstays, -⟩ := larger_count_extends evenEmbedder sampleIndex
    (fun _ _ _ => .error .badJson) "id" default "int" bound 2 4 (by decide)
  have hpicked : (s.suggest "id" default "int" bound (max 2 1)).find? (isUsable bound) =
      some "key" := by
    rw [hsuggest]
    decide
  refine ⟨by decide, ?_, ?_, ?_, hstays "key" hpicked⟩
  · rw [best_similarity, hsuggest]
    decide
  · rw [hsuggest]
    decide
  · rw [hsuggest]
    decide

end Suggester
end ParamTwin
