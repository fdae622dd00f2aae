import Mathlib.Algebra.Ring.Int.Defs
import ParamTwin.Proofs.Definedness

/-!
# The renamed copy of a statement

The copy of a statement is cut out of the source in pieces between the references to a parameter, so
it exists if the references follow each other. Two things could be in the way: references that
stand inside one another, and an entry of the model that belongs to another identifier at the same
offset.

* `Lexical.refer_apart`: the walk goes into no identifier that it records, so that no reference of
  it stands inside another one.
* `Usage.reference_stop_le`: hence an identifier around another one, both with an entry in the model,
  ends before the other one starts, unless the two start at the same offset.
* `Usage.fill_of_piecesAround?`: the pieces around spans are what the source has around them.
* `Usage.statement_renamed_exactly`: the copy is the text of the statement with the new name at each
  reference.
-/

namespace ParamTwin

/-! ## Texts with gaps -/

namespace Text

/-- The pieces of a text with a filling after each of them but the last. -/
def fill : List Text → List Text → Text
  | piece :: pieces, filling :: fillings => piece ++ filling ++ fill pieces fillings
  | pieces, _ => pieces.flatten

@[simp] theorem fill_cons (piece filling : Text) (pieces fillings : List Text) :
    fill (piece :: pieces) (filling :: fillings) = piece ++ filling ++ fill pieces fillings := rfl

@[simp] theorem fill_nil_right (pieces : List Text) : fill pieces [] = pieces.flatten := by
  cases pieces <;> rfl

theorem join_eq_fill {α : Type} (name : Text) {pieces : List Text} {xs : List α}
    (h : pieces.length = xs.length + 1) : join name pieces = fill pieces (xs.map fun _ => name) := by
  induction xs generalizing pieces with
  | nil =>
    obtain ⟨piece, rfl⟩ := List.length_eq_one_iff.1 h
    simp [join]
  | cons x xs ih =>
    rcases pieces with _ | ⟨piece, _ | ⟨next, pieces⟩⟩
    · simp at h
    · simp at h
    · rw [List.map_cons, fill_cons, ← ih (by simpa using h)]
      rfl

/-- Each filling that is exchanged changes the size of the text by the difference. -/
theorem byteSize_fill (name : Text) {pieces fillings : List Text}
    (h : pieces.length = fillings.length + 1) :
    (byteSize (fill pieces (fillings.map fun _ => name)) : Int) = byteSize (fill pieces fillings) +
      (fillings.map fun t => (byteSize name : Int) - byteSize t).sum := by
  induction fillings generalizing pieces with
  | nil => simp
  | cons filling fillings ih =>
    cases pieces with
    | nil => simp at h
    | cons piece pieces =>
      have hrest := @ih pieces (by simpa using h)
      simp only [List.map_cons, fill_cons, byteSize_append, List.sum_cons]
      omega

end Text

/-! ## References of the walk -/

namespace Lexical

section
variable {shape : List String → Node → Shape} {scope : ScopeId} {path place place' : Path}
  {around : List String} {n c c' : Node}

theorem refer_mem_events (h : .refer place c ∈ events shape scope path around n) :
    ∃ j d, n.children[j]? = some d ∧
      ((shape around n).roles[j]? = some .walked ∧
        .refer place c ∈ events shape (scopeInside n.kind path scope) (j :: path)
          (n.kind :: around) d ∨
      (shape around n).roles[j]? = some .reference ∧ place = j :: path) := by
  simp only [events_eq, List.mem_append, mem_declareIn, reduceCtorEq, and_false, exists_false,
    or_false, false_or] at h
  obtain ⟨j, role, d, hr, hd, h⟩ := mem_eventsAmong h
  rw [Nat.zero_add] at h
  refine ⟨j, d, hd, ?_⟩
  rcases h with ⟨rfl, h⟩ | ⟨rfl, h⟩ | ⟨xs, -, h⟩
  · exact .inl ⟨hr, h⟩
  · cases h
    exact .inr ⟨hr, rfl⟩
  · simp [mem_declareIn] at h

theorem encloses_of_refer (h : .refer place c ∈ events shape scope path around n) :
    path.Encloses place := by
  induction n using Node.induction generalizing scope path around with
  | step n ih =>
    obtain ⟨j, d, hd, ⟨-, h⟩ | ⟨-, rfl⟩⟩ := refer_mem_events h
    · exact Path.encloses_of_child (ih d (List.mem_of_getElem? hd) h).1
    · exact Path.encloses_of_child List.suffix_rfl

/-- No reference of the walk stands inside another one. -/
theorem refer_apart (h : .refer place c ∈ events shape scope path around n)
    (h' : .refer place' c' ∈ events shape scope path around n) : ¬ place.Encloses place' := by
  induction n using Node.induction generalizing scope path around with
  | step n ih =>
    intro henc
    obtain ⟨j, d, hd, hj⟩ := refer_mem_events h
    obtain ⟨j', d', hd', hj'⟩ := refer_mem_events h'
    have hbelow : (j :: path) <:+ place := by
      rcases hj with ⟨-, h⟩ | ⟨-, rfl⟩
      · exact (encloses_of_refer h).1
      · exact List.suffix_rfl
    have hbelow' : (j' :: path) <:+ place' := by
      rcases hj' with ⟨-, h⟩ | ⟨-, rfl⟩
      · exact (encloses_of_refer h).1
      · exact List.suffix_rfl
    -- Both stand in the same child, which is walked over or a reference, but not both.
    obtain rfl := Path.index_unique (hbelow.trans henc.1) hbelow'
    cases hd.symm.trans hd'
    rcases hj with ⟨hr, h⟩ | ⟨hr, rfl⟩
    · rcases hj' with ⟨-, h'⟩ | ⟨hr', -⟩
      · exact ih d (List.mem_of_getElem? hd) h h' henc
      · cases hr.symm.trans hr'
    · rcases hj' with ⟨hr', -⟩ | ⟨-, rfl⟩
      · cases hr.symm.trans hr'
      · exact henc.2 rfl

end
end Lexical

open Lexical

namespace Model

/-- An entry of the model is an identifier with a text at that offset, recorded by the walk. -/
theorem exists_refer_of_reference? {source : Text} {root n : Node} {d : Nat}
    (h : (build source root).reference? n = some d) :
    n.kind = "identifier" ∧ ∃ place c, .refer place c ∈ walk (shape source) root ∧
      root.at? place = some c ∧ c.kind = "identifier" ∧ c.span.start = n.span.start ∧
      c.span.start < c.span.stop := by
  rw [reference?] at h
  split at h
  · rename_i hk
    obtain ⟨before, place, c, after, decl, he, ho, hr, -⟩ := refers_of_lookup h
    obtain ⟨hc, hck⟩ := refer_of_split he
    refine ⟨by simpa using hk, place, c, by rw [he]; simp, hc, hck, ho, ?_⟩
    have hne := text_ne_of_resolves hr
    rw [Node.textString, Node.text] at hne
    cases ht : source.at? c.span with
    | none => simp [ht] at hne
    | some t =>
      obtain ⟨pre, post, -, hspan⟩ := Text.at?_eq_some_iff.1 ht
      have hpos : Text.byteSize t ≠ 0 := by
        intro h0
        simp [ht, Text.byteSize_eq_zero.1 h0] at hne
      rw [hspan]
      simp only
      omega
  · cases h

end Model

/-- No identifier has another identifier inside it that starts where it starts. -/
def Node.IdentifiersApart (root : Node) : Prop :=
  ∀ n ∈ root.preorder, n.kind = "identifier" → ∀ c ∈ n.children, ∀ x ∈ c.preorder,
    x.kind = "identifier" → n.span.start ≠ x.span.start

instance (root : Node) : Decidable root.IdentifiersApart :=
  inferInstanceAs (Decidable (∀ n ∈ root.preorder, _))

theorem Node.IdentifiersApart.start_ne {root a b : Node} {p q : Path} (h : root.IdentifiersApart)
    (ha : root.at? p = some a) (hb : root.at? q = some b) (hka : a.kind = "identifier")
    (hkb : b.kind = "identifier") (henc : p.Encloses q) : a.span.start ≠ b.span.start := by
  obtain ⟨c, hc, hx⟩ := exists_child_of_encloses ha hb henc
  exact h a (mem_preorder_of_at? ha) hka c hc b hx hkb

theorem Node.NamesDistinct.identifiersApart {root : Node} (h : root.NamesDistinct) :
    root.IdentifiersApart := by
  intro a ha hka c hc b hb hkb hstart
  obtain ⟨p, hp⟩ := mem_preorder_iff.1 ha
  obtain ⟨k, hk⟩ := List.mem_iff_getElem?.1 hc
  obtain ⟨inner, hinner⟩ := mem_preorder_iff.1 hb
  have hq : root.at? (inner ++ k :: p) = some b := by
    rw [at?_append, at?_child hp, hk, Option.bind_some, hinner]
  have heq := h.place_unique hp hq (by simp [Kind.isDeclaringName, hka])
    (by simp [Kind.isDeclaringName, hkb]) hstart
  have := congrArg List.length heq
  simp at this
  omega

namespace Usage

open Text

/-! ## The order of the references -/

section
variable {source : Text} {root : Node}

/-- An identifier with an entry in the model ends before one inside it with an entry starts. -/
theorem reference_stop_le (hnested : root.Nested source) (happart : root.IdentifiersApart)
    {a b : Node} {p q : Path} {d d' : Nat} (ha : root.at? p = some a) (hb : root.at? q = some b)
    (hra : (Model.build source root).reference? a = some d)
    (hrb : (Model.build source root).reference? b = some d') (henc : p.Encloses q) :
    a.span.stop ≤ b.span.start := by
  obtain ⟨hka, p', a', hwalk, ha', hka', hstart, hpos⟩ := Model.exists_refer_of_reference? hra
  obtain ⟨hkb, q', b', hwalk', hb', -, hstart', hpos'⟩ := Model.exists_refer_of_reference? hrb
  have hlt : a.span.start < b.span.start := by
    obtain ⟨c, hc, hx⟩ := Node.exists_child_of_encloses ha hb henc
    have hwithin := hnested.within (Node.mem_preorder_of_at? ha)
      (Node.preorder_subset (Node.child_mem_preorder hc) hx)
    have hne := happart.start_ne ha hb hka hkb henc
    omega
  -- The entry of the outer one is its own, unless it is empty.
  rcases hnested.apart ha' ha with rfl | h | h | h | h
  · -- The entry of the inner one stands behind the outer one, for it cannot stand inside it.
    rcases hnested.apart ha hb' with rfl | h | h | h | h
    · cases ha.symm.trans hb'
      omega
    · exact absurd h (refer_apart hwalk hwalk')
    · obtain ⟨n, hn, hsub⟩ := Node.exists_around h.1 ha
      cases hb'.symm.trans hn
      have := hnested.within (Node.mem_preorder_of_at? hb') (hsub (Node.self_mem_preorder a))
      omega
    · omega
    · omega
  · exact absurd hstart (happart.start_ne ha' ha hka' hka h)
  · exact absurd hstart.symm (happart.start_ne ha ha' hka hka' h)
  · omega
  · omega

/-- The references in a node follow each other. -/
theorem pairwise_referenceSpans (hnested : root.Nested source) (happart : root.IdentifiersApart)
    {s : Node} (hs : s ∈ root.preorder) (symbol : Nat) :
    (referenceSpans (Model.build source root) symbol s).Pairwise fun a b => a.stop ≤ b.start := by
  obtain ⟨path, hpath⟩ := Node.mem_preorder_iff.1 hs
  have hplace {x : Path × Node} (hx : x ∈ Node.placedFrom path s) : root.at? x.1 = some x.2 := by
    obtain ⟨inner, hinner, hat⟩ := Node.mem_placedFrom_iff.1 hx
    rw [hinner, Node.at?_append, hpath, Option.bind_some, hat]
  rw [referenceSpans, ← Node.map_snd_placedFrom path s, List.filter_map, List.map_map,
    List.pairwise_map]
  refine ((hnested.pairwise_placedFrom hs path).filter _).imp_of_mem fun {x y} hx hy h => ?_
  simp only [List.mem_filter, Function.comp_apply, Bool.and_eq_true, beq_iff_eq] at hx hy
  rcases h with h | h
  · exact h
  · exact reference_stop_le hnested happart (hplace hx.1) (hplace hy.1) hx.2.2 hy.2.2 h

end

/-! ## The pieces around spans -/

/-- The pieces around spans are what the source has around them. -/
theorem fill_of_piecesAround? {source : Text} {cursor stop : Nat} {spans : List Span}
    {pieces : List Text} (h : piecesAround? source cursor stop spans = some pieces)
    (hspans : ∀ s ∈ spans, s.start ≤ s.stop) :
    ∃ spellings, spans.map source.at? = spellings.map some ∧
      pieces.length = spellings.length + 1 ∧
      source.slice? cursor stop = some (fill pieces spellings) ∧
      ∀ k s, spans[k]? = some s →
        s.start = cursor + byteSize (fill (pieces.take (k + 1)) (spellings.take k)) := by
  induction spans generalizing cursor pieces with
  | nil =>
    obtain ⟨piece, hpiece, rfl⟩ := Option.map_eq_some_iff.1 h
    exact ⟨[], rfl, rfl, by simpa using hpiece, by simp⟩
  | cons s spans ih =>
    obtain ⟨before, hbefore, h⟩ := Option.bind_eq_some_iff.1 h
    obtain ⟨rest, hrest, h⟩ := Option.bind_eq_some_iff.1 h
    cases h
    obtain ⟨spellings, hmap, hlength, hslice, hplace⟩ :=
      ih hrest fun t ht => hspans t (.tail _ ht)
    obtain ⟨spelling, hspelling⟩ : ∃ spelling, source.slice? s.start s.stop = some spelling := by
      have hstart := (isSome_slice?_iff.1 (by rw [hbefore]; rfl)).2.2
      have hstop := (isSome_slice?_iff.1 (by rw [hslice]; rfl)).2.1
      exact Option.isSome_iff_exists.1
        (isSome_slice?_iff.2 ⟨hspans s (.head _), hstart, hstop⟩)
    refine ⟨spelling :: spellings, ?_, by simp [hlength], ?_, ?_⟩
    · rw [List.map_cons, List.map_cons, hmap, at?, hspelling]
    · have hall := slice?_append (slice?_append hbefore hspelling) hslice
      simpa using hall
    · intro k t ht
      have h1 := stop_of_slice? hbefore
      have h2 := stop_of_slice? hspelling
      cases k with
      | zero =>
        cases ht
        simpa using h1
      | succ k =>
        have h3 := hplace k t (by simpa using ht)
        simp only [List.take_succ_cons, fill_cons, byteSize_append]
        omega

theorem renamed?_eq (m : Model) (s : Node) (name : Text) (symbol : Nat) :
    renamed? m s name symbol = (piecesAround? m.source s.span.start s.span.stop
      (referenceSpans m symbol s)).map (join name) := by
  rw [renamed?, replaceSpans?_eq]

/-- The pieces around the references in a node exist. -/
theorem exists_pieces {source : Text} {root s : Node} (hnested : root.Nested source)
    (happart : root.IdentifiersApart) (hs : s ∈ root.preorder) (symbol : Nat) :
    let spans := referenceSpans (Model.build source root) symbol s
    ∃ pieces, piecesAround? source s.span.start s.span.stop spans = some pieces ∧
      ∃ spellings, spans.map source.at? = spellings.map some ∧
        pieces.length = spellings.length + 1 ∧
        source.at? s.span = some (fill pieces spellings) ∧
        ∀ k x, spans[k]? = some x → x.start =
          s.span.start + byteSize (fill (pieces.take (k + 1)) (spellings.take k)) := by
  intro spans
  have hmem : ∀ x ∈ spans, s.span.start ≤ x.start ∧ x.start ≤ x.stop ∧
      x.stop ≤ s.span.stop ∧ isBoundary source x.start = true ∧
      isBoundary source x.stop = true := by
    intro x hx
    obtain ⟨n, hn, rfl⟩ := List.mem_map.1 hx
    have hn := (List.mem_filter.1 hn).1
    have hcuts := hnested.cuts n (Node.preorder_subset hs hn)
    have hwithin := hnested.within hs hn
    exact ⟨hwithin.1, hcuts.1, hwithin.2, hcuts.2⟩
  obtain ⟨hle, hstart, hstop⟩ := hnested.cuts s hs
  obtain ⟨pieces, hpieces⟩ := Option.isSome_iff_exists.1
    ((isSome_piecesAround?_iff hstart hstop hle fun x hx => (hmem x hx).2).2
      ⟨fun x hx => (hmem x hx).1, pairwise_referenceSpans hnested happart hs symbol⟩)
  exact ⟨pieces, hpieces, fill_of_piecesAround? hpieces fun x hx => (hmem x hx).2.1⟩

/-- **A copy renames exactly the references.** In a tree whose spans nest, the copy of a node with a
new name exists; it is the text of the node with the new name in the place of each identifier inside
it that the model resolves to the symbol, and all pieces between these places stay as they are. With
the spellings in these places the pieces are the text of the node; each place starts where its
identifier starts, and the sizes differ by the differences between name and spelling. -/
theorem statement_renamed_exactly (source : Text) (root s : Node) (symbol : Nat) (name : Text)
    (hnested : root.Nested source) (happart : root.IdentifiersApart) (hs : s ∈ root.preorder) :
    let m := Model.build source root
    let references := s.preorder.filter fun n =>
      n.kind == "identifier" && m.reference? n == some symbol
    ∃ pieces spellings copy, renamed? m s name symbol = some copy ∧
      references.map (fun n => source.at? n.span) = spellings.map some ∧
      pieces.length = references.length + 1 ∧
      source.at? s.span = some (fill pieces spellings) ∧
      copy = fill pieces (spellings.map fun _ => name) ∧
      (∀ k n, references[k]? = some n → n.span.start =
        s.span.start + byteSize (fill (pieces.take (k + 1)) (spellings.take k))) ∧
      (byteSize copy : Int) = byteSize (fill pieces spellings) +
        (spellings.map fun t => (byteSize name : Int) - byteSize t).sum := by
  intro m references
  have hspans : referenceSpans m symbol s = references.map (·.span) := rfl
  obtain ⟨pieces, hpieces, spellings, hmap, hlength, htext, hplace⟩ :=
    exists_pieces hnested happart hs symbol
  rw [hspans] at hmap hplace
  have hcount : references.length = spellings.length := by
    have := congrArg List.length hmap
    simpa using this
  refine ⟨pieces, spellings, _, ?_, ?_, ?_, htext, rfl, ?_, byteSize_fill name hlength⟩
  · rw [renamed?_eq, ← join_eq_fill name hlength]
    exact congrArg (Option.map (join name)) hpieces
  · rw [← hmap, List.map_map]
    rfl
  · rw [hlength, hcount]
  · intro k n hn
    exact hplace k n.span (by rw [List.getElem?_map, hn]; rfl)

theorem method_body_renamed :
    Plan.methodTree.Nested Plan.methodSource ∧ Plan.methodTree.IdentifiersApart ∧
      ∃ body ∈ Plan.methodTree.preorder, ∃ front back,
        Plan.methodSource.at? body.span = some (front ++ "x".toList ++ back) ∧
        renamed? (Model.build Plan.methodSource Plan.methodTree) body "x2".toList 21 =
          some (front ++ "x2".toList ++ back) := by
  have hnested : Plan.methodTree.Nested Plan.methodSource := by decide +kernel
  have happart : Plan.methodTree.IdentifiersApart := by decide +kernel
  obtain ⟨body, hbody, hspelled⟩ : ∃ body ∈ Plan.methodTree.preorder,
      body.kind = "block" ∧ (body.preorder.filter fun n => n.kind == "identifier" &&
        (Model.build Plan.methodSource Plan.methodTree).reference? n == some 21).map
          (fun n => Plan.methodSource.at? n.span) = [some "x".toList] := by decide +kernel
  obtain ⟨pieces, spellings, copy, hcopy, hmap, hlength, htext, rfl, -⟩ :=
    statement_renamed_exactly Plan.methodSource Plan.methodTree body 21 "x2".toList hnested happart
      hbody
  refine ⟨hnested, happart, body, hbody, ?_⟩
  obtain ⟨spelling, rfl⟩ : ∃ spelling, spellings = [spelling] := by
    have := congrArg List.length (hmap.symm.trans hspelled.2)
    exact List.length_eq_one_iff.1 (by simpa using this)
  obtain ⟨front, back, rfl⟩ : ∃ front back, pieces = [front, back] := by
    have := congrArg List.length hmap
    exact List.length_eq_two.1 (by simp at hlength this; omega)
  obtain rfl : spelling = "x".toList := by simpa using hmap.symm.trans hspelled.2
  exact ⟨front, back, by simpa using htext, by simpa using hcopy⟩

end Usage
end ParamTwin
