import ParamTwin.Proofs.ClonePlace
import ParamTwin.Proofs.DocumentOrder
import ParamTwin.Proofs.Outline
import ParamTwin.Proofs.TidyFixedPoint

/-!
# When a file can be transformed

A plan is made of pieces of the source, so it exists if all its cuts run forward between character
boundaries. In a tree whose spans nest (`Node.WellFormed`) two of them can still run backwards:

* the cut from the modifier `this` to the name of a parameter, because a default value `this` behind
  the name is taken for the modifier, and
* the cut between two references of a duplicated statement, if one of them lies inside the other.

`Plan.isSome_slots?_iff` says that nothing else goes wrong. What is planned can always be rendered,
whatever the tree (`Plan.shape_of_mem_edits`); so a file is transformed iff the cuts of its
procedures run forward (`Transform.planned_edits_render`).
-/

namespace ParamTwin

/-! ## Trees whose spans nest -/

namespace Node

open Text

/-- The spans of a tree nest, and no statement ends right behind a carriage return. -/
structure WellFormed (source : Text) (root : Node) : Prop extends root.Nested source where
  ends : ∀ n ∈ root.preorder, Kind.isStatement n.kind = true →
    ∀ cut ∈ splitAt? n.span.stop source, cut.1.getLast? ≠ some '\r'

instance (source : Text) (root : Node) : Decidable (root.WellFormed source) :=
  decidable_of_iff (root.Nested source ∧ _) ⟨fun h => ⟨h.1, h.2⟩, fun h => ⟨h.toNested, h.ends⟩⟩

end Node

/-! ## Parameters -/

namespace Parameter

/-- A parameter holds its name, and the children of its binder start inside it. -/
structure LaidOut (source : Text) (q : Parameter) : Prop where
  front : q.span.start ≤ q.nameNode.span.start
  back : q.nameNode.span.stop ≤ q.span.stop
  name : source.isBoundary q.nameNode.span.start = true ∧
    source.isBoundary q.nameNode.span.stop = true
  whole : source.isBoundary q.span.start = true ∧ source.isBoundary q.span.stop = true
  parts : ∀ c ∈ q.binder.children, q.span.start ≤ c.span.start ∧
    source.isBoundary c.span.start = true ∧ source.isBoundary c.span.stop = true

theorem laidOut_of_mem_collect {source : Text} {root list : Node} {q : Parameter}
    (hwf : root.Nested source) (hlist : list ∈ root.preorder)
    (hq : q ∈ collect source list) : q.LaidOut source := by
  obtain ⟨group, hgroup, -, hbinder, -, first, rest, rfl, hspan⟩ := exists_group_of_mem_collect hq
  have hsub := sublist_of_mem_groups hgroup
  have hmem : ∀ n ∈ first :: rest, n ∈ root.preorder := fun n hn =>
    Node.preorder_subset hlist (Node.child_mem_preorder (hsub.subset hn))
  have hbetween := between_of_ordered (fun n hn => (hwf.cuts n (hmem n hn)).1)
    ((hwf.ordered list hlist).sublist hsub)
  have hlast : rest.getLastD first ∈ first :: rest := by
    rw [← List.getLast_eq_getLastD (List.cons_ne_nil first rest)]
    exact List.getLast_mem _
  have hin := hbetween q.binder hbinder
  have hname := nameNode_mem_binder hq
  have hnameIn := hwf.within (hmem _ hbinder) hname
  have hinside := hwf.inside _ (hmem _ hbinder)
  refine ⟨?_, ?_, (hwf.cuts _ (Node.preorder_subset (hmem _ hbinder) hname)).2, ?_,
    fun c hc => ⟨?_, (hwf.cuts c (Node.preorder_subset (hmem _ hbinder)
      (Node.child_mem_preorder hc))).2⟩⟩
  all_goals simp only [hspan]
  · exact Nat.le_trans hin.1 hnameIn.1
  · exact Nat.le_trans hnameIn.2 hin.2
  · exact ⟨(hwf.cuts first (hmem _ (.head _))).2.1, (hwf.cuts _ (hmem _ hlast)).2.2⟩
  · exact Nat.le_trans hin.1 (hinside c hc).1

end Parameter

/-! ## Duplicated statements -/

namespace Usage

open Text

/-- The pieces around spans between two offsets exist iff the spans follow each other. -/
theorem isSome_piecesAround?_iff {source : Text} {cursor stop : Nat} {spans : List Span}
    (hcursor : isBoundary source cursor = true) (hstop : isBoundary source stop = true)
    (hle : cursor ≤ stop)
    (hspans : ∀ s ∈ spans, s.start ≤ s.stop ∧ s.stop ≤ stop ∧
      isBoundary source s.start = true ∧ isBoundary source s.stop = true) :
    (piecesAround? source cursor stop spans).isSome = true ↔
      (∀ s ∈ spans, cursor ≤ s.start) ∧ spans.Pairwise fun a b => a.stop ≤ b.start := by
  induction spans generalizing cursor with
  | nil =>
    rw [piecesAround?, Option.isSome_map, isSome_slice?_iff]
    simp [hcursor, hstop, hle]
  | cons s spans ih =>
    obtain ⟨hs, hend, hstart', hstop'⟩ := hspans s (.head _)
    have hrest := ih hstop' hend fun t ht => hspans t (.tail _ ht)
    have hfirst : (source.slice? cursor s.start).isSome = true ↔ cursor ≤ s.start := by
      rw [isSome_slice?_iff]
      simp [hcursor, hstart']
    have hcons : (piecesAround? source cursor stop (s :: spans)).isSome = true ↔
        cursor ≤ s.start ∧ (piecesAround? source s.stop stop spans).isSome = true := by
      rw [← hfirst, piecesAround?]
      cases source.slice? cursor s.start with
      | none => simp
      | some before => cases piecesAround? source s.stop stop spans <;> simp
    rw [hcons, hrest, List.forall_mem_cons, List.pairwise_cons]
    constructor
    · rintro ⟨h, hall, hpairs⟩
      exact ⟨⟨h, fun t ht => by have := hall t ht; omega⟩, hall, hpairs⟩
    · rintro ⟨⟨h, -⟩, hall, hpairs⟩
      exact ⟨h, hall, hpairs⟩

theorem isSome_insertAfter? {source : Text} {span : Span} (copy : Text)
    (hstart : isBoundary source span.start = true) (hstop : isBoundary source span.stop = true)
    (hend : ∀ cut ∈ splitAt? span.stop source, cut.1.getLast? ≠ some '\r') :
    (insertAfter? source span copy).isSome = true := by
  obtain ⟨⟨before, behind⟩, hbefore⟩ := Option.isSome_iff_exists.1 hstart
  obtain ⟨⟨upTo, after⟩, hupTo⟩ := Option.isSome_iff_exists.1 hstop
  have hreturn : (upTo.getLast? == some '\r') = false := by simpa using hend _ hupTo
  obtain ⟨length, hlength⟩ : ∃ length, lineLength? false after = some length := by
    simp only [lineLength?]
    split
    · exact ⟨0, rfl⟩
    · exact ⟨_, rfl⟩
  obtain ⟨line, ending, more, rfl, hsize, -⟩ := lineLength?_eq_some hlength
  have hline : splitAt? length (line ++ (ending ++ more)) = some (line, ending ++ more) := by
    rw [← hsize]
    exact splitAt?_append _ _
  simp [insertAfter?, hbefore, hupTo, hreturn, hlength, hline]

/-- The offset of an insertion is a boundary behind the statement. -/
theorem offset_of_insertAfter? {source copy : Text} {span : Span} {e : Edit}
    (h : insertAfter? source span copy = some e) :
    span.stop ≤ e.offset ∧ isBoundary source e.offset = true := by
  obtain ⟨upTo, line, ending, more, hcut, -, -, -, hoffset⟩ := insertAfter?_eq_some h
  obtain ⟨rfl, hsize⟩ := append_of_splitAt? hcut
  refine ⟨by omega, isBoundary_iff.2 ?_⟩
  rw [hoffset, ← hsize]
  split
  · exact ⟨upTo ++ line, ending ++ more, by simp, byteSize_append _ _⟩
  · exact ⟨upTo, line ++ (ending ++ more), rfl, rfl⟩

end Usage

/-! ## Plans -/

namespace Plan

open Text

/-- All cuts for a procedure run forward: what is taken for the modifier `this` of its parameter
stands before the name, and the references in the duplicated statement follow each other. -/
structure Forward (m : Model) (p : Procedure) (parameter : Parameter) : Prop where
  modifier : ∀ this ∈ thisModifier? m.source parameter,
    this.stop ≤ parameter.nameNode.span.start
  references : ∀ found ∈ located? m p parameter,
    (Usage.referenceSpans m found.1 found.2).Pairwise fun a b => a.stop ≤ b.start

instance (m : Model) (p : Procedure) (parameter : Parameter) : Decidable (Forward m p parameter) :=
  decidable_of_iff (_ ∧ _) ⟨fun h => ⟨h.1, h.2⟩, fun h => ⟨h.modifier, h.references⟩⟩

section
variable {source : Text} {root : Node} {withLocal : Bool} {p : Procedure} {parameter : Parameter}

theorem mem_children_of_thisModifier? {this : Span}
    (h : thisModifier? source parameter = some this) :
    ∃ c ∈ parameter.binder.children, c.span = this := by
  obtain ⟨c, hc, rfl⟩ := Option.map_eq_some_iff.1 h
  exact ⟨c, List.mem_of_find?_eq_some hc, rfl⟩

theorem isSome_parameterSlot?_iff (hq : parameter.LaidOut source) :
    (parameterSlot? source p parameter).isSome = true ↔
      ∀ this ∈ thisModifier? source parameter, this.stop ≤ parameter.nameNode.span.start := by
  have hafter : (source.slice? parameter.nameNode.span.stop parameter.span.stop).isSome = true :=
    isSome_slice?_iff.2 ⟨hq.back, hq.name.2, hq.whole.2⟩
  have hbefore : (beforeName? source parameter).isSome = true ↔
      ∀ this ∈ thisModifier? source parameter, this.stop ≤ parameter.nameNode.span.start := by
    unfold beforeName?
    split
    · rename_i hnone
      simp [hnone, isSome_slice?_iff, hq.front, hq.whole.1, hq.name.1]
    · rename_i this hthis
      obtain ⟨c, hc, rfl⟩ := mem_children_of_thisModifier? hthis
      obtain ⟨hle, hstart, hstop⟩ := hq.parts c hc
      obtain ⟨front, hfront⟩ := Option.isSome_iff_exists.1
        (isSome_slice?_iff.2 ⟨hle, hq.whole.1, hstart⟩)
      have hbetween : (source.slice? c.span.stop parameter.nameNode.span.start).isSome = true ↔
          c.span.stop ≤ parameter.nameNode.span.start := by
        simp [isSome_slice?_iff, hstop, hq.name.1]
      simp only [hthis, Option.mem_some_iff, forall_eq', ← hbetween, hfront]
      cases source.slice? c.span.stop parameter.nameNode.span.start <;> simp
  rw [← hbefore, parameterSlot?]
  obtain ⟨after, hafter⟩ := Option.isSome_iff_exists.1 hafter
  cases beforeName? source parameter <;> simp [hafter]

theorem mem_preorder_of_located? {m : Model} {symbol : Nat} {s : Node}
    (hp : p ∈ Procedure.list source root withLocal)
    (h : located? m p parameter = some (symbol, s)) :
    s ∈ root.preorder ∧ Kind.isStatement s.kind = true := by
  obtain ⟨hkind, body, hbody, hstands⟩ := Usage.standsIn_of_locate? (located?_eq_some_iff.1 h).2
  exact ⟨Node.preorder_subset (Procedure.body_mem_preorder hp hbody) hstands.mem_preorder, hkind⟩

theorem isSome_usageSlot?_iff {m : Model} (hsource : m.source = source)
    (hwf : root.WellFormed source) (hp : p ∈ Procedure.list source root withLocal) :
    (usageSlot? m p parameter).isSome = true ↔
      ∀ found ∈ located? m p parameter,
        (Usage.referenceSpans m found.1 found.2).Pairwise fun a b => a.stop ≤ b.start := by
  unfold usageSlot?
  cases hfound : located? m p parameter with
  | none => simp
  | some found =>
    obtain ⟨symbol, s⟩ := found
    obtain ⟨hs, hkind⟩ := mem_preorder_of_located? hp hfound
    obtain ⟨hle, hstart, hstop⟩ := hwf.cuts s hs
    have hspans : ∀ x ∈ Usage.referenceSpans m symbol s, s.span.start ≤ x.start ∧
        x.start ≤ x.stop ∧ x.stop ≤ s.span.stop ∧
        isBoundary source x.start = true ∧ isBoundary source x.stop = true := by
      intro x hx
      obtain ⟨n, hn, rfl⟩ := List.mem_map.1 hx
      have hn := (List.mem_filter.1 hn).1
      have hcuts := hwf.cuts n (Node.preorder_subset hs hn)
      have hwithin := hwf.toNested.within hs hn
      exact ⟨hwithin.1, hcuts.1, hwithin.2, hcuts.2⟩
    have hpieces := (Usage.isSome_piecesAround?_iff hstart hstop hle
      fun x hx => (hspans x hx).2).trans (and_iff_right fun x hx => (hspans x hx).1)
    obtain ⟨place, hplace⟩ := Option.isSome_iff_exists.1
      (Usage.isSome_insertAfter? [] hstart hstop (hwf.ends s hs hkind))
    subst hsource
    simp only [Option.mem_some_iff, forall_eq', hplace, ← hpieces]
    cases Usage.piecesAround? m.source s.span.start s.span.stop
      (Usage.referenceSpans m symbol s) <;> simp

/-- The slots of a procedure exist iff its cuts run forward. -/
theorem isSome_slots?_iff {m : Model} (hsource : m.source = source)
    (hwf : root.WellFormed source) (hp : p ∈ Procedure.list source root withLocal) :
    (slots? m p).isSome = true ↔ ∀ q, p.parameters = [q] → Forward m p q := by
  unfold slots?
  split
  · rename_i parameter hone
    have hlaid : parameter.LaidOut source := by
      obtain ⟨list, hlist, hps⟩ := Procedure.exists_list_of_mem hp
      refine Parameter.laidOut_of_mem_collect hwf.toNested hlist ?_
      rw [← hps, hone]
      exact .head _
    have hfirst := isSome_parameterSlot?_iff (p := p) hlaid
    have hsecond : (usageSlot? m p parameter).isSome = true ↔ _ :=
      isSome_usageSlot?_iff hsource hwf hp
    have hforward : (∀ q, p.parameters = [q] → Forward m p q) ↔ Forward m p parameter := by
      simp [hone]
    have hboth : Forward m p parameter ↔ (parameterSlot? source p parameter).isSome = true ∧
        (usageSlot? m p parameter).isSome = true := by
      rw [hfirst, hsecond, ← hsource]
      exact ⟨fun h => ⟨h.modifier, h.references⟩, fun h => ⟨h.1, h.2⟩⟩
    rw [hforward, hboth, hsource]
    cases parameterSlot? source p parameter with
    | none => simp
    | some first => cases usageSlot? m p parameter <;> simp
  · rename_i hne
    simp only [Option.isSome_some, true_iff]
    exact fun q hq => absurd hq (hne q)

theorem isSome_outline?_iff {m : Model} {ps : List Procedure} :
    (outline? m ps).isSome = true ↔ ∀ p ∈ ps, (slots? m p).isSome = true := by
  simp only [Option.isSome_iff_exists, outline?_eq_some_iff, exists_forall₂_iff]

/-! ## The edits of a plan -/

/-- The edit inserts a comma and a copy of the parameter behind the parameter. -/
def CopiesParameter (source : Text) (parameter : Parameter) (name : Text) (e : Edit) : Prop :=
  ∃ copy, parameterCopy? source parameter name = some copy ∧
    e = { offset := parameter.span.stop, text := ',' :: ' ' :: copy }

/-- The edit inserts a renamed copy of a statement in the block body of the procedure, on a line
with the indentation of the statement and not before its end. -/
def ClonesStatement (m : Model) (p : Procedure) (parameter : Parameter) (name : Text) (e : Edit) :
    Prop :=
  ∃ symbol s body copy front back, located? m p parameter = some (symbol, s) ∧
    p.body = some body ∧ body.kind = "block" ∧ Usage.StandsIn body s ∧
    Usage.renamed? m s name symbol = some copy ∧
    splitAt? s.span.start m.source = some (front, back) ∧
    e.text = lineEnding m.source ++ Usage.indentation front ++ copy ∧ s.span.stop ≤ e.offset

theorem kind_of_body {body : Node} (hp : p ∈ Procedure.list source root withLocal)
    (hb : p.body = some body) : body.kind = "block" := by
  obtain ⟨path, hpath⟩ := Procedure.mem_list_iff.1 hp
  obtain ⟨n, name, list, -, -, -, -, rfl⟩ := Procedure.at?_eq_some hpath
  exact eq_of_beq (Option.filter_eq_some_iff.1 hb).2

theorem exists_clone_of_usageEdit? {m : Model} {name : Text} {e : Edit}
    (h : usageEdit? m p parameter name = some (some e)) :
    ∃ symbol s copy, located? m p parameter = some (symbol, s) ∧
      Usage.renamed? m s name symbol = some copy ∧
      Usage.insertAfter? m.source s.span copy = some e := by
  cases hfound : located? m p parameter with
  | none =>
    rw [usageEdit?, hfound] at h
    cases h
  | some found =>
    obtain ⟨symbol, s⟩ := found
    obtain ⟨copy, e', hcopy, he, hsome⟩ := exists_copy_of_usageEdit? hfound h
    cases hsome
    exact ⟨symbol, s, copy, rfl, hcopy, he⟩

theorem clonesStatement_of_usageEdit? {m : Model} {name : Text} {e : Edit}
    (hp : p ∈ Procedure.list source root withLocal)
    (h : usageEdit? m p parameter name = some (some e)) :
    ClonesStatement m p parameter name e ∧ isBoundary m.source e.offset = true := by
  obtain ⟨symbol, s, copy, hfound, hcopy, he⟩ := exists_clone_of_usageEdit? h
  obtain ⟨-, body, hbody, hstands⟩ := Usage.standsIn_of_locate? (located?_eq_some_iff.1 hfound).2
  obtain ⟨hle, hboundary⟩ := Usage.offset_of_insertAfter? he
  obtain ⟨⟨front, back⟩, hfront, htext⟩ := Option.bind_eq_some_iff.1 he
  obtain ⟨_, -, htext⟩ := Option.bind_eq_some_iff.1 htext
  obtain ⟨_, -, htext⟩ := Option.bind_eq_some_iff.1 htext
  obtain ⟨_, -, htext⟩ := Option.bind_eq_some_iff.1 htext
  cases htext
  exact ⟨⟨symbol, s, body, copy, front, back, hfound, hbody, kind_of_body hp hbody, hstands,
    hcopy, hfront, rfl, hle⟩, hboundary⟩

theorem copiesParameter_of_parameterEdit? {name : Text} {e : Edit}
    (h : parameterEdit? source parameter name = some e) :
    CopiesParameter source parameter name e ∧ isBoundary source e.offset = true := by
  obtain ⟨copy, hcopy, h⟩ := Option.bind_eq_some_iff.1 h
  cases h
  refine ⟨⟨copy, hcopy, rfl⟩, ?_⟩
  obtain ⟨before, -, hcopy⟩ := Option.bind_eq_some_iff.1 hcopy
  obtain ⟨after, hafter, -⟩ := Option.bind_eq_some_iff.1 hcopy
  exact isBoundary_of_slice? hafter

/-- Every edit of a plan is one of the two edits of a procedure with one parameter. -/
theorem exists_procedure_of_mem_edits {suggester : Suggester} {count : Nat} {plan : Plan} {e : Edit}
    (hplan : make? (Model.build source root) root suggester withLocal count = some plan)
    (he : e ∈ plan.edits) :
    ∃ p ∈ Procedure.list source root withLocal, ∃ q, p.parameters = [q] ∧
      let name := (newName (Model.build source root) suggester count p q).toList
      (parameterEdit? source q name = some e ∨
        usageEdit? (Model.build source root) p q name = some (some e)) := by
  obtain ⟨outline, houtline, hedits, -⟩ := make?_eq_some_iff.1 hplan
  rw [hedits] at he
  obtain ⟨x, hx, rfl⟩ := List.mem_map.1 he
  obtain ⟨p, hp, xs, hxs, hx⟩ := exists_slots?_of_mem (outline?_eq_some_iff.1 houtline) hx
  obtain ⟨-, hone⟩ := slots?_of_mem hxs hx
  have hofProcedure := ofProcedure?_eq (Model.build source root) suggester count p
  rw [hxs, Option.map_some] at hofProcedure
  obtain ⟨first, second, hsplit, hfirst, hsecond⟩ := ofProcedure?_single hone hofProcedure
  refine ⟨p, hp, x.parameter, hone, ?_⟩
  have hmem : x.edit (Model.build source root) suggester count ∈ first :: second.toList := by
    rw [← hsplit]
    exact List.mem_map_of_mem hx
  rcases List.mem_cons.1 hmem with heq | hmem
  · rw [heq]
    exact .inl hfirst
  · rw [Option.mem_toList.1 hmem] at hsecond
    exact .inr hsecond

/-- Every edit of a plan copies the parameter of a procedure or clones a statement of it. -/
theorem shape_of_mem_edits {suggester : Suggester} {count : Nat} {plan : Plan} {e : Edit}
    (hplan : make? (Model.build source root) root suggester withLocal count = some plan)
    (he : e ∈ plan.edits) :
    ∃ p ∈ Procedure.list source root withLocal, ∃ q, p.parameters = [q] ∧
      let name := (newName (Model.build source root) suggester count p q).toList
      (CopiesParameter source q name e ∨ ClonesStatement (Model.build source root) p q name e) ∧
        isBoundary source e.offset = true := by
  obtain ⟨p, hp, q, hone, hfirst | hsecond⟩ := exists_procedure_of_mem_edits hplan he
  · obtain ⟨hcopies, hboundary⟩ := copiesParameter_of_parameterEdit? hfirst
    exact ⟨p, hp, q, hone, .inl hcopies, hboundary⟩
  · obtain ⟨hclones, hboundary⟩ := clonesStatement_of_usageEdit? hp hsecond
    exact ⟨p, hp, q, hone, .inr hclones, hboundary⟩

end
end Plan

namespace Transform

open Text Plan

/-- **Planned edits are rendered.** Every edit of a plan is the copy of the only parameter of a
procedure or the clone of a statement of its body, at a character boundary of the source, and the
text and the counts of the plan are the result. So a file is never answered with an error. In a tree
whose spans nest there is a result iff the cuts of every procedure with one parameter run
forward. -/
theorem planned_edits_render (grammar : Grammar) (suggester : Suggester) (settings : Settings)
    (t : Text) :
    let root := grammar.tree t
    let m := Model.build t root
    let ps := Procedure.list t root settings.procedures.includeLocalFunctions
    (∀ plan, plan? grammar suggester settings t = some plan →
      (∀ e ∈ plan.edits, e.offset ≤ byteSize t ∧ isBoundary t e.offset = true ∧
        ∃ p ∈ ps, ∃ q, p.parameters = [q] ∧
          let name := (newName m suggester (max settings.naming.candidateCount 1) p q).toList
          (CopiesParameter t q name e ∨ ClonesStatement m p q name e)) ∧
      ∃ text, render grammar t plan.edits = .ok text ∧
        source grammar suggester settings t = .ok { text, counts := plan.counts }) ∧
    (∀ e, source grammar suggester settings t ≠ .error (.failed e)) ∧
    (root.WellFormed t →
      ((∃ out, source grammar suggester settings t = .ok out) ↔
        ∀ p ∈ ps, ∀ q, p.parameters = [q] → Forward m p q)) := by
  intro root m ps
  have hrender : ∀ plan, plan? grammar suggester settings t = some plan →
      ∃ text, render grammar t plan.edits = .ok text ∧
        source grammar suggester settings t = .ok { text, counts := plan.counts } := by
    intro plan hplan
    have hgood : ∀ e ∈ plan.edits, Edit.misses t e = false := by
      intro e he
      obtain ⟨p, -, q, -, -, hboundary⟩ := shape_of_mem_edits hplan he
      rw [Edit.misses, hboundary]
      rfl
    obtain ⟨-, htext⟩ := render_of_not_misses grammar hgood
    exact ⟨_, htext, source_eq_ok_iff.2 ⟨plan, hplan, htext, rfl⟩⟩
  refine ⟨fun plan hplan => ⟨fun e he => ?_, hrender plan hplan⟩, fun e he => ?_, fun hwf => ?_⟩
  · obtain ⟨p, hp, q, hone, hshape, hboundary⟩ := shape_of_mem_edits hplan he
    exact ⟨le_byteSize_of_isBoundary hboundary, hboundary, p, hp, q, hone, hshape⟩
  · obtain ⟨plan, hplan, -⟩ := exists_plan_of_failed he
    obtain ⟨text, -, hok⟩ := hrender plan hplan
    cases he.symm.trans hok
  · have hplan : (∃ out, source grammar suggester settings t = .ok out) ↔
        (plan? grammar suggester settings t).isSome = true := by
      rw [Option.isSome_iff_exists]
      constructor
      · rintro ⟨out, hout⟩
        obtain ⟨plan, hplan, -⟩ := source_eq_ok_iff.1 hout
        exact ⟨plan, hplan⟩
      · rintro ⟨plan, hplan⟩
        obtain ⟨text, -, hout⟩ := hrender plan hplan
        exact ⟨_, hout⟩
    rw [hplan, plan?, make?, ofProcedures?_eq, Option.isSome_map, isSome_outline?_iff]
    exact forall_congr' fun p => forall_congr' fun hp => isSome_slots?_iff rfl hwf hp

/-- A parser that has one answer. -/
def fixedGrammar (root : Node) : Grammar := { tree := fun _ => root }

theorem method_edits_rendered :
    methodTree.WellFormed methodSource ∧
      ∃ out, source (fixedGrammar methodTree) .deterministic {} methodSource = .ok out ∧
        ∃ plan, plan? (fixedGrammar methodTree) .deterministic {} methodSource = some plan ∧
          plan.edits.length = 4 ∧ ∀ e ∈ plan.edits, isBoundary methodSource e.offset = true := by
  have hwf : methodTree.WellFormed methodSource := by decide +kernel
  obtain ⟨hedits, -, hsource⟩ :=
    planned_edits_render (fixedGrammar methodTree) .deterministic {} methodSource
  have hforward : ∀ p ∈ Procedure.list methodSource methodTree true, ∀ q ∈ p.parameters,
      Forward (Model.build methodSource methodTree) p q := by decide +kernel
  obtain ⟨out, hout⟩ := (hsource hwf).2
    fun p hp q hone => hforward p hp q (by rw [hone]; exact .head _)
  obtain ⟨plan, hplan⟩ := Option.isSome_iff_exists.1 (show (plan? (fixedGrammar methodTree)
    .deterministic {} methodSource).isSome by decide +kernel)
  have hlength : (plan? (fixedGrammar methodTree) .deterministic {} methodSource).map
      (·.edits.length) = some 4 := by decide +kernel
  rw [hplan] at hlength
  exact ⟨hwf, out, hout, plan, hplan, Option.some.inj hlength,
    fun e he => ((hedits plan hplan).1 e he).2.1⟩

end Transform
end ParamTwin
