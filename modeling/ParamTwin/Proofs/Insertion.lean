import ParamTwin.Duplicate.Transform
import ParamTwin.Proofs.TextCut
import Mathlib.Data.List.Nodup

/-!
# Edits are inserted exactly

`Edit.interleave` says what a source with edits should be: for each position of the source, the
texts of the edits there in recorded order, then the character. `Edit.apply` sorts the edits and moves a
cursor over the source; it agrees with that (`Edit.apply_eq`), or gives back an edit with the
smallest offset that is no boundary of the source.

* `Edit.filter_sorted`: sorting keeps the edits at each offset in their order, and nothing else
  about the order of the edits matters (`sorted_eq_of_filter_eq`).
* `Edit.weave_eq`: one pass of the cursor, from any boundary on.
* `Transform.render_inserts_exactly`: what this means for rendering.
-/

namespace ParamTwin

namespace Edit

/-- The texts of the edits at an offset, in recorded order. -/
def insertedAt (edits : List Edit) (offset : Nat) : Text :=
  (edits.filter (·.offset = offset)).flatMap (·.text)

/-- The part of a source that starts at `position` with the edits in it: at each position first the
inserted texts and then the character of the source. -/
def interleave (edits : List Edit) (position : Nat) : Text → Text
  | [] => insertedAt edits position
  | c :: cs => insertedAt edits position ++ c :: interleave edits (position + c.utf8Size) cs

/-! ## Sorting by offset -/

theorem sorted_perm (edits : List Edit) : (sorted edits).Perm edits :=
  List.mergeSort_perm _ _

theorem mem_sorted {e : Edit} {edits : List Edit} : e ∈ sorted edits ↔ e ∈ edits :=
  (sorted_perm edits).mem_iff

theorem offset_le_trans (a b c : Edit) (hab : decide (a.offset ≤ b.offset) = true)
    (hbc : decide (b.offset ≤ c.offset) = true) : decide (a.offset ≤ c.offset) = true := by
  simp only [decide_eq_true_eq] at *
  omega

theorem offset_le_total (a b : Edit) :
    (decide (a.offset ≤ b.offset) || decide (b.offset ≤ a.offset)) = true := by
  simp only [Bool.or_eq_true, decide_eq_true_eq]
  omega

theorem sorted_pairwise (edits : List Edit) :
    (sorted edits).Pairwise fun a b => a.offset ≤ b.offset := by
  have h := List.pairwise_mergeSort offset_le_trans offset_le_total edits
  exact h.imp fun hab => by simpa using hab

theorem sorted_of_pairwise {edits : List Edit}
    (h : edits.Pairwise fun a b => a.offset ≤ b.offset) : sorted edits = edits :=
  List.mergeSort_of_pairwise (h.imp fun hab => by simpa using hab)

/-- Sorting keeps the edits at one offset in their order. -/
theorem filter_sorted (edits : List Edit) (offset : Nat) :
    (sorted edits).filter (·.offset = offset) = edits.filter (·.offset = offset) := by
  have hpairwise : (edits.filter (·.offset = offset)).Pairwise
      fun a b => decide (a.offset ≤ b.offset) = true := by
    refine List.pairwise_of_forall_mem_list fun a ha b hb => ?_
    have ha := (List.mem_filter.1 ha).2
    have hb := (List.mem_filter.1 hb).2
    simp only [decide_eq_true_eq] at *
    omega
  have hsub : (edits.filter (·.offset = offset)).Sublist (sorted edits) :=
    List.sublist_mergeSort offset_le_trans offset_le_total hpairwise List.filter_sublist
  have h := hsub.filter (fun e => decide (e.offset = offset))
  rw [List.filter_filter] at h
  simp only [Bool.and_self] at h
  exact (h.eq_of_length ((sorted_perm edits).filter _).length_eq.symm).symm

/-- Two sorted lists with the same edits at each offset are equal. -/
theorem eq_of_filter_eq {es es' : List Edit} (hs : es.Pairwise fun a b => a.offset ≤ b.offset)
    (hs' : es'.Pairwise fun a b => a.offset ≤ b.offset)
    (h : ∀ offset, es.filter (·.offset = offset) = es'.filter (·.offset = offset)) : es = es' := by
  have hmem : ∀ e, e ∈ es ↔ e ∈ es' := by
    intro e
    have he := congrArg (e ∈ ·) (h e.offset)
    simpa [List.mem_filter] using he
  induction es generalizing es' with
  | nil =>
    cases es' with
    | nil => rfl
    | cons b es' => exact absurd ((hmem b).2 (.head _)) List.not_mem_nil
  | cons a es ih =>
    cases es' with
    | nil => exact absurd ((hmem a).1 (.head _)) List.not_mem_nil
    | cons b es' =>
      obtain ⟨ha, hstail⟩ := List.pairwise_cons.1 hs
      obtain ⟨hb, hstail'⟩ := List.pairwise_cons.1 hs'
      have hab : a.offset ≤ b.offset := by
        rcases List.mem_cons.1 ((hmem b).2 (.head _)) with rfl | hm
        · exact Nat.le_refl _
        · exact ha b hm
      have hba : b.offset ≤ a.offset := by
        rcases List.mem_cons.1 ((hmem a).1 (.head _)) with rfl | hm
        · exact Nat.le_refl _
        · exact hb a hm
      have hoff : b.offset = a.offset := by omega
      have hhead := h a.offset
      simp only [List.filter_cons, hoff, decide_true, if_true, List.cons.injEq] at hhead
      obtain ⟨rfl, -⟩ := hhead
      have htail : ∀ offset,
          es.filter (·.offset = offset) = es'.filter (·.offset = offset) := by
        intro offset
        have ho := h offset
        simp only [List.filter_cons] at ho
        split at ho
        · exact (List.cons.inj ho).2
        · exact ho
      refine congrArg (a :: ·) (ih hstail hstail' htail fun e => ?_)
      have he := congrArg (e ∈ ·) (htail e.offset)
      simpa [List.mem_filter] using he

/-- Only the order of edits at one offset matters. -/
theorem sorted_eq_of_filter_eq {edits edits' : List Edit}
    (h : ∀ offset, edits.filter (·.offset = offset) = edits'.filter (·.offset = offset)) :
    sorted edits = sorted edits' :=
  eq_of_filter_eq (sorted_pairwise edits) (sorted_pairwise edits') fun offset => by
    rw [filter_sorted, filter_sorted, h]

/-- If no two edits share an offset, their order does not matter. -/
theorem filter_eq_of_perm {edits edits' : List Edit} (hp : edits'.Perm edits)
    (hn : (edits.map (·.offset)).Nodup) (offset : Nat) :
    edits'.filter (·.offset = offset) = edits.filter (·.offset = offset) := by
  have hperm := hp.filter (fun e => decide (e.offset = offset))
  have hnodup : ((edits.filter (·.offset = offset)).map (·.offset)).Nodup :=
    hn.sublist (List.filter_sublist.map _)
  cases hf : edits.filter (·.offset = offset) with
  | nil =>
    rw [hf] at hperm
    exact hperm.eq_nil
  | cons e es =>
    have hoffsets : ∀ e' ∈ e :: es, e'.offset = offset := by
      intro e' he'
      rw [← hf] at he'
      exact of_decide_eq_true (List.mem_filter.1 he').2
    cases es with
    | nil =>
      rw [hf] at hperm
      exact List.perm_singleton.1 hperm
    | cons e' es =>
      have he := hoffsets e (.head _)
      have he' := hoffsets e' (.tail _ (.head _))
      simp [hf, he, he'] at hnodup

/-! ## The interleaved text -/

section
variable {es es' : List Edit} {position : Nat}

theorem insertedAt_cons (e : Edit) (es : List Edit) (offset : Nat) :
    insertedAt (e :: es) offset =
      (if e.offset = offset then e.text else []) ++ insertedAt es offset := by
  unfold insertedAt
  by_cases h : e.offset = offset <;> simp [h]

theorem insertedAt_eq_nil {offset : Nat} (h : ∀ e ∈ es, e.offset ≠ offset) :
    insertedAt es offset = [] := by
  have hf : es.filter (·.offset = offset) = [] := by
    simpa [List.filter_eq_nil_iff] using h
  rw [insertedAt, hf]
  rfl

theorem interleave_congr {t : Text}
    (h : ∀ offset, position ≤ offset → insertedAt es offset = insertedAt es' offset) :
    interleave es position t = interleave es' position t := by
  induction t generalizing position with
  | nil => exact h position (Nat.le_refl _)
  | cons c cs ih =>
    rw [interleave, interleave, h position (Nat.le_refl _),
      ih fun offset ho => h offset (by omega)]

theorem interleave_sorted (edits : List Edit) (position : Nat) (t : Text) :
    interleave (sorted edits) position t = interleave edits position t :=
  interleave_congr fun offset _ => by rw [insertedAt, filter_sorted]; rfl

theorem interleave_nil (position : Nat) (t : Text) : interleave [] position t = t := by
  induction t generalizing position with
  | nil => rfl
  | cons c cs ih => rw [interleave, ih]; rfl

/-- An edit at the start comes first. -/
theorem interleave_cons (e : Edit) (es : List Edit) (t : Text) :
    interleave (e :: es) e.offset t = e.text ++ interleave es e.offset t := by
  cases t with
  | nil => simp [interleave, insertedAt_cons]
  | cons c cs =>
    have hpos := c.utf8Size_pos
    have hlater : interleave (e :: es) (e.offset + c.utf8Size) cs =
        interleave es (e.offset + c.utf8Size) cs := by
      refine interleave_congr fun offset ho => ?_
      rw [insertedAt_cons, if_neg (by omega), List.nil_append]
    simp [interleave, insertedAt_cons, hlater]

/-- Before the first edit stands the source alone. -/
theorem interleave_append {before after : Text}
    (h : ∀ e ∈ es, position + Text.byteSize before ≤ e.offset) :
    interleave es position (before ++ after) =
      before ++ interleave es (position + Text.byteSize before) after := by
  induction before generalizing position with
  | nil => simp
  | cons c cs ih =>
    have hpos := c.utf8Size_pos
    have hnone : insertedAt es position = [] := by
      refine insertedAt_eq_nil fun e he => ?_
      have := h e he
      rw [Text.byteSize_cons] at this
      omega
    rw [List.cons_append, interleave, hnone, List.nil_append, ih, Text.byteSize_cons, Nat.add_assoc,
      List.cons_append]
    intro e he
    have := h e he
    rw [Text.byteSize_cons] at this
    omega

end

/-! ## The cursor -/

/-- Whether an edit does not cut a source. -/
def misses (source : Text) (e : Edit) : Bool :=
  !source.isBoundary e.offset

theorem misses_eq_true_iff {source : Text} {e : Edit} :
    misses source e = true ↔
      Text.byteSize source < e.offset ∨ ¬∃ a b, source = a ++ b ∧ Text.byteSize a = e.offset := by
  rw [misses, Bool.not_eq_true', ← Bool.not_eq_true, Text.isBoundary_iff]
  constructor
  · exact .inr
  · rintro (h | h)
    · rintro ⟨a, b, rfl, ha⟩
      rw [Text.byteSize_append] at h
      omega
    · exact h

/-- A pass over the rest of a source: it stops at the first edit that does not cut the source, and
interleaves the edits if there is none. -/
theorem weave_eq (done rest : Text) {es : List Edit}
    (hs : es.Pairwise fun a b => a.offset ≤ b.offset)
    (hpos : ∀ e ∈ es, Text.byteSize done ≤ e.offset) :
    weave (Text.byteSize done) rest es =
      match es.find? (misses (done ++ rest)) with
      | some e => .error e
      | none => .ok (interleave es (Text.byteSize done) rest) := by
  induction es generalizing done rest with
  | nil =>
    simp [weave, interleave_nil]
  | cons e es ih =>
    obtain ⟨hle, hs⟩ := List.pairwise_cons.1 hs
    have hdone := hpos e (.head _)
    have hmiss : misses (done ++ rest) e =
        (Text.splitAt? (e.offset - Text.byteSize done) rest).isNone := by
      rw [misses, Text.isBoundary_append hdone, Text.isBoundary, Option.not_isSome]
    rw [weave]
    cases hcut : Text.splitAt? (e.offset - Text.byteSize done) rest with
    | none => simp [hmiss, hcut]
    | some cut =>
      obtain ⟨before, after⟩ := cut
      obtain ⟨rfl, hsize⟩ := Text.append_of_splitAt? hcut
      have hend : Text.byteSize (done ++ before) = e.offset := by
        rw [Text.byteSize_append]; omega
      have hnext := ih (done ++ before) after hs (fun e' he' => by rw [hend]; exact hle e' he')
      rw [hend, List.append_assoc] at hnext
      have hskip : interleave (e :: es) (Text.byteSize done) (before ++ after) =
          before ++ e.text ++ interleave es e.offset after := by
        have hoff : Text.byteSize done + Text.byteSize before = e.offset := by omega
        rw [interleave_append, hoff, interleave_cons, List.append_assoc]
        intro e' he'
        rcases List.mem_cons.1 he' with rfl | he'
        · omega
        · have := hle e' he'
          omega
      simp only [hmiss, hcut, Option.isNone_some, Bool.false_eq_true, not_false_eq_true,
        List.find?_cons_of_neg, hnext, hskip]
      cases es.find? (misses (done ++ (before ++ after))) <;> rfl

/-- Inserting edits interleaves them with the source, or gives back the first edit in ascending
order that does not cut the source. -/
theorem apply_eq (source : Text) (edits : List Edit) :
    apply source edits =
      match (sorted edits).find? (misses source) with
      | some e => .error e
      | none => .ok (interleave edits 0 source) := by
  have h := weave_eq [] source (sorted_pairwise edits) (by simp)
  rw [interleave_sorted] at h
  exact h

/-- The first edit in ascending order that does not cut the source has the smallest such offset. -/
theorem find?_sorted_eq_some {source : Text} {edits : List Edit} {e : Edit}
    (h : (sorted edits).find? (misses source) = some e) :
    e ∈ edits ∧ misses source e = true ∧
      ∀ e' ∈ edits, misses source e' = true → e.offset ≤ e'.offset := by
  obtain ⟨hm, front, back, hsplit, hfront⟩ := List.find?_eq_some_iff_append.1 h
  refine ⟨mem_sorted.1 (List.mem_of_find?_eq_some h), hm, fun e' he' hm' => ?_⟩
  have hs := sorted_pairwise edits
  rw [hsplit] at hs
  have he' := mem_sorted.2 he'
  rw [hsplit, List.mem_append, List.mem_cons] at he'
  rcases he' with he' | rfl | he'
  · exact absurd hm' (by simpa using hfront e' he')
  · exact Nat.le_refl _
  · exact (List.pairwise_cons.1 (List.pairwise_append.1 hs).2.1).1 e' he'

theorem find?_sorted_eq_none {source : Text} {edits : List Edit} :
    (sorted edits).find? (misses source) = none ↔ ∀ e ∈ edits, misses source e = false := by
  rw [List.find?_eq_none]
  simp only [mem_sorted, Bool.not_eq_true]

/-- A text with inserted edits is put together from pieces of the source and the edits: without the
edits it is the source. -/
theorem weave_pieces {position : Nat} {rest t : Text} {es : List Edit}
    (h : weave position rest es = .ok t) :
    ∃ (pieces : List (Text × Edit)) (tail : Text), pieces.map (·.2) = es ∧
      rest = pieces.flatMap (·.1) ++ tail ∧
      t = pieces.flatMap (fun piece => piece.1 ++ piece.2.text) ++ tail := by
  induction es generalizing position rest t with
  | nil =>
    cases h
    exact ⟨[], rest, rfl, rfl, rfl⟩
  | cons e es ih =>
    rw [weave] at h
    split at h
    · cases h
    · rename_i before after hcut
      obtain ⟨rfl, -⟩ := Text.append_of_splitAt? hcut
      split at h
      · cases h
      · rename_i t' ht
        cases h
        obtain ⟨pieces, tail, rfl, rfl, rfl⟩ := ih ht
        exact ⟨(before, e) :: pieces, tail, by simp⟩

end Edit

namespace Transform

/-- Rendering fails exactly if some edit does not cut the source. -/
theorem render_eq (grammar : Grammar) (source : Text) (edits : List Edit) :
    render grammar source edits =
      match (Edit.sorted edits).find? (Edit.misses source) with
      | some e => .error (badOffset source e)
      | none =>
        .ok (Tidy.run (Edit.interleave edits 0 source)
          (grammar.literals (Edit.interleave edits 0 source))) := by
  rw [render, Edit.apply_eq]
  cases (Edit.sorted edits).find? (Edit.misses source) <;> rfl

theorem render_fails_iff (grammar : Grammar) (source : Text) (edits : List Edit) :
    (∃ error, render grammar source edits = .error error) ↔
      ∃ e ∈ edits, Edit.misses source e = true := by
  rw [render_eq]
  cases hf : (Edit.sorted edits).find? (Edit.misses source) with
  | some e =>
    obtain ⟨he, hm, -⟩ := Edit.find?_sorted_eq_some hf
    exact ⟨fun _ => ⟨e, he, hm⟩, fun _ => ⟨_, rfl⟩⟩
  | none =>
    have hnone := Edit.find?_sorted_eq_none.1 hf
    simp only [reduceCtorEq, exists_false, false_iff, not_exists, not_and, Bool.not_eq_true]
    exact hnone

/-- A failure is about the smallest offset that does not cut the source. -/
theorem exists_least_of_render_error {grammar : Grammar} {source : Text} {edits : List Edit}
    {error : Error} (h : render grammar source edits = .error error) :
    ∃ e ∈ edits, Edit.misses source e = true ∧
      (∀ e' ∈ edits, Edit.misses source e' = true → e.offset ≤ e'.offset) ∧
      error = badOffset source e := by
  rw [render_eq] at h
  split at h
  · rename_i e hf
    obtain ⟨he, hm, hmin⟩ := Edit.find?_sorted_eq_some hf
    cases h
    exact ⟨e, he, hm, hmin, rfl⟩
  · cases h

theorem render_of_not_misses (grammar : Grammar) {source : Text} {edits : List Edit}
    (h : ∀ e ∈ edits, Edit.misses source e = false) :
    let woven := Edit.interleave edits 0 source
    Edit.apply source edits = .ok woven ∧
      render grammar source edits = .ok (Tidy.run woven (grammar.literals woven)) := by
  have hf := Edit.find?_sorted_eq_none.2 h
  rw [Edit.apply_eq, render_eq, hf]
  exact ⟨rfl, rfl⟩

theorem render_congr (grammar : Grammar) (source : Text) {edits edits' : List Edit}
    (h : ∀ offset, edits.filter (·.offset = offset) = edits'.filter (·.offset = offset)) :
    render grammar source edits = render grammar source edits' := by
  rw [render, render, Edit.apply, Edit.apply, Edit.sorted_eq_of_filter_eq h]

/-- **Rendering inserts the edits exactly.** It fails if and only if some offset is past the end of
the source or inside a character, and then names the smallest such offset. Otherwise the text that
is tidied is the source interleaved with the edits; taking the edits out of it leaves the source,
and each edit stands in it once. The order of edits at different offsets does not matter. -/
theorem render_inserts_exactly (grammar : Grammar) (source : Text) (edits : List Edit) :
    let bad (e : Edit) := Text.byteSize source < e.offset ∨
      ¬∃ a b, source = a ++ b ∧ Text.byteSize a = e.offset
    ((∃ error, render grammar source edits = .error error) ↔ ∃ e ∈ edits, bad e) ∧
    (∀ error, render grammar source edits = .error error → ∃ e ∈ edits, bad e ∧
      (∀ e' ∈ edits, bad e' → e.offset ≤ e'.offset) ∧
      error = .internal ("Edit offset " ++ Nat.repr e.offset ++
        " is not a character boundary in a " ++ Nat.repr (Text.byteSize source) ++
        " byte source") none) ∧
    ((∀ e ∈ edits, ¬bad e) → ∃ woven, Edit.apply source edits = .ok woven ∧
      render grammar source edits = .ok (Tidy.run woven (grammar.literals woven)) ∧
      woven = Edit.interleave edits 0 source ∧
      ∃ (pieces : List (Text × Edit)) (tail : Text), (pieces.map (·.2)).Perm edits ∧
        woven = pieces.flatMap (fun piece => piece.1 ++ piece.2.text) ++ tail ∧
        source = pieces.flatMap (·.1) ++ tail) ∧
    (∀ edits', (∀ offset, edits'.filter (·.offset = offset) = edits.filter (·.offset = offset)) →
      render grammar source edits' = render grammar source edits) ∧
    (∀ edits', edits'.Perm edits → (edits.map (·.offset)).Nodup →
      render grammar source edits' = render grammar source edits) := by
  intro bad
  have hbad : ∀ e, bad e ↔ Edit.misses source e = true :=
    fun e => Edit.misses_eq_true_iff.symm
  simp only [hbad]
  refine ⟨render_fails_iff grammar source edits, ?_, ?_, ?_, ?_⟩
  · intro error herror
    exact exists_least_of_render_error herror
  · intro hgood
    obtain ⟨happly, hrender⟩ :=
      render_of_not_misses grammar fun e he => Bool.eq_false_iff.2 (hgood e he)
    obtain ⟨pieces, tail, hpieces, hsource, hwoven⟩ := Edit.weave_pieces happly
    refine ⟨_, happly, hrender, rfl, pieces, tail, ?_, hwoven, hsource⟩
    rw [hpieces]
    exact Edit.sorted_perm edits
  · intro edits' h
    exact render_congr grammar source h
  · intro edits' hperm hnodup
    exact render_congr grammar source (Edit.filter_eq_of_perm hperm hnodup)

end Transform
end ParamTwin
