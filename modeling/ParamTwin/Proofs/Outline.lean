import ParamTwin.Proofs.NewName
import ParamTwin.Proofs.ProcedurePlace
import ParamTwin.Proofs.Traversal

/-!
# The outline of a plan

An edit of a plan is a text in which a name is written at some places. `Slot` keeps what stands
between these places, and `Plan.outline?` gives the slots of a list of procedures without asking for
any name. A plan is its outline filled with the names of a suggester (`Plan.ofProcedure?_eq`,
`Plan.ofProcedures?_eq`), so everything else about it is the same for all suggesters.

* `Usage.replaceSpans?_eq`, `Usage.insertAfter?_eq`: a renamed statement and its insertion, name and
  text apart.
* `Plan.foldl_add`: the counters of a plan, from the numbers of edits of its procedures.
* `Procedure.list_methods`: without local functions, the methods are listed as before.
* `Plan.naming_keeps_structure`: what two suggesters have in common.
-/

namespace ParamTwin

/-! ## Texts with gaps -/

namespace Text

theorem join_modifyHead (sep front : Text) {ts : List Text} (h : ts ≠ []) :
    join sep (ts.modifyHead (front ++ ·)) = front ++ join sep ts := by
  rcases ts with _ | ⟨t, _ | ⟨u, ts⟩⟩
  · exact absurd rfl h
  · rfl
  · simp [join]

end Text

namespace Usage

/-- The pieces of the source from `cursor` to `stop` that are left around the spans. -/
def piecesAround? (source : Text) (cursor stop : Nat) : List Span → Option (List Text)
  | [] => (source.slice? cursor stop).map ([·])
  | s :: spans => do
    let before ← source.slice? cursor s.start
    let rest ← piecesAround? source s.stop stop spans
    return before :: rest

theorem piecesAround?_ne_nil {source : Text} {cursor stop : Nat} {spans : List Span}
    {pieces : List Text} (h : piecesAround? source cursor stop spans = some pieces) :
    pieces ≠ [] := by
  cases spans with
  | nil =>
    obtain ⟨t, -, rfl⟩ := Option.map_eq_some_iff.1 h
    simp
  | cons s spans =>
    obtain ⟨before, -, h⟩ := Option.bind_eq_some_iff.1 h
    obtain ⟨rest, -, h⟩ := Option.bind_eq_some_iff.1 h
    cases h
    simp

theorem replaceSpans?_eq (source name : Text) (cursor stop : Nat) (spans : List Span) :
    replaceSpans? source name cursor stop spans =
      (piecesAround? source cursor stop spans).map (Text.join name) := by
  induction spans generalizing cursor with
  | nil => simp [replaceSpans?, piecesAround?, Function.comp_def, Text.join]
  | cons s spans ih =>
    simp only [replaceSpans?, piecesAround?, Option.bind_eq_bind, Option.pure_def, ih,
      Option.map_bind, Option.bind_map]
    congr 1
    funext before
    cases hrest : piecesAround? source s.stop stop spans with
    | none => rfl
    | some rest => simp [Text.join_cons name before (piecesAround?_ne_nil hrest)]

/-- Where a copy goes does not depend on the copy. -/
theorem insertAfter?_eq (source : Text) (span : Span) (copy : Text) :
    insertAfter? source span copy =
      (insertAfter? source span []).map fun e => { e with text := e.text ++ copy } := by
  simp only [insertAfter?, Option.bind_eq_bind, Option.pure_def, Option.map_bind,
    Function.comp_def]
  refine Option.bind_congr fun _ _ => Option.bind_congr fun _ _ => ?_
  refine Option.bind_congr fun _ _ => Option.bind_congr fun _ _ => ?_
  simp

end Usage

/-- An edit without the name that it writes: where it goes and the pieces of its text between the
places of the name, for the copy of the parameter of a procedure. -/
structure Slot where
  procedure : Procedure
  parameter : Parameter
  offset : Nat
  pieces : List Text

namespace Slot

/-- The edit with a name at each of the places. -/
def fill (name : Text) (x : Slot) : Edit :=
  { offset := x.offset, text := Text.join name x.pieces }

/-- The edit with the name of a suggester. -/
def edit (m : Model) (suggester : Suggester) (count : Nat) (x : Slot) : Edit :=
  x.fill (Plan.newName m suggester count x.procedure x.parameter).toList

end Slot

namespace Plan

/-- The copy of a parameter. -/
def parameterSlot? (source : Text) (p : Procedure) (parameter : Parameter) : Option Slot := do
  let before ← beforeName? source parameter
  let after ← source.slice? parameter.nameNode.span.stop parameter.span.stop
  return { procedure := p, parameter, offset := parameter.span.stop
           pieces := [',' :: ' ' :: before, after] }

/-- The copy of the first statement that uses a parameter, if there is one. -/
def usageSlot? (m : Model) (p : Procedure) (parameter : Parameter) : Option (Option Slot) :=
  match located? m p parameter with
  | none => some none
  | some (symbol, statement) => do
    let pieces ← Usage.piecesAround? m.source statement.span.start statement.span.stop
      (Usage.referenceSpans m symbol statement)
    let place ← Usage.insertAfter? m.source statement.span []
    return some { procedure := p, parameter, offset := place.offset
                  pieces := pieces.modifyHead (place.text ++ ·) }

/-- The slots of a procedure. -/
def slots? (m : Model) (p : Procedure) : Option (List Slot) :=
  match p.parameters with
  | [parameter] => do
    let first ← parameterSlot? m.source p parameter
    let second ← usageSlot? m p parameter
    return first :: second.toList
  | _ => some []

/-- The slots of a list of procedures, procedure by procedure. -/
def outline? (m : Model) (ps : List Procedure) : Option (List (List Slot)) :=
  ps.mapM (slots? m)

section
variable {m : Model} {suggester : Suggester} {count : Nat} {p : Procedure} {parameter : Parameter}

/-! ## A plan is its outline with names -/

theorem parameterEdit?_eq (source : Text) (p : Procedure) (parameter : Parameter) (name : Text) :
    parameterEdit? source parameter name =
      (parameterSlot? source p parameter).map (Slot.fill name) := by
  simp only [parameterEdit?, parameterCopy?, parameterSlot?, Option.bind_eq_bind, Option.pure_def,
    Option.map_bind, Option.bind_assoc, Function.comp_def]
  refine Option.bind_congr fun before _ => Option.bind_congr fun after _ => ?_
  simp [Slot.fill, Text.join]

theorem usageEdit?_eq (m : Model) (p : Procedure) (parameter : Parameter) (name : Text) :
    usageEdit? m p parameter name =
      (usageSlot? m p parameter).map (Option.map (Slot.fill name)) := by
  cases hfound : located? m p parameter with
  | none => rw [usageEdit?, usageSlot?, hfound, Option.map_some, Option.map_none]
  | some found =>
    obtain ⟨symbol, statement⟩ := found
    rw [usageEdit?_of_located? hfound, usageSlot?, hfound]
    simp only [Usage.renamed?, Usage.replaceSpans?_eq, Option.bind_eq_bind, Option.pure_def,
      Option.bind_map, Option.map_bind]
    refine Option.bind_congr fun pieces hpieces => ?_
    have hne := Usage.piecesAround?_ne_nil (Option.mem_def.1 hpieces)
    rw [Function.comp_apply, Usage.insertAfter?_eq]
    cases Usage.insertAfter? m.source statement.span [] with
    | none => rfl
    | some place => simp [Slot.fill, Text.join_modifyHead _ _ hne]

/-- The slots of a procedure are those of its only parameter; there are none if it has no parameter
or several. -/
theorem slots?_cases {xs : List Slot} (h : slots? m p = some xs) :
    (∃ parameter first second, p.parameters = [parameter] ∧
      parameterSlot? m.source p parameter = some first ∧
      usageSlot? m p parameter = some second ∧ xs = first :: second.toList) ∨
    (p.parameters.length ≠ 1 ∧ xs = []) := by
  unfold slots? at h
  split at h
  · rename_i parameter hone
    obtain ⟨first, hfirst, h⟩ := Option.bind_eq_some_iff.1 h
    obtain ⟨second, hsecond, h⟩ := Option.bind_eq_some_iff.1 h
    exact .inl ⟨parameter, first, second, hone, hfirst, hsecond, (Option.some.inj h).symm⟩
  · rename_i hne
    refine .inr ⟨fun hlength => ?_, (Option.some.inj h).symm⟩
    obtain ⟨parameter, hone⟩ := List.length_eq_one_iff.1 hlength
    exact hne parameter hone

theorem owner_of_parameterSlot? {source : Text} {x : Slot}
    (h : parameterSlot? source p parameter = some x) :
    x.procedure = p ∧ x.parameter = parameter := by
  obtain ⟨before, -, h⟩ := Option.bind_eq_some_iff.1 h
  obtain ⟨after, -, h⟩ := Option.bind_eq_some_iff.1 h
  cases h
  exact ⟨rfl, rfl⟩

theorem owner_of_usageSlot? {x : Slot} (h : usageSlot? m p parameter = some (some x)) :
    x.procedure = p ∧ x.parameter = parameter := by
  unfold usageSlot? at h
  split at h
  · cases h
  · obtain ⟨pieces, -, h⟩ := Option.bind_eq_some_iff.1 h
    obtain ⟨place, -, h⟩ := Option.bind_eq_some_iff.1 h
    cases h
    exact ⟨rfl, rfl⟩

/-- The slots of a procedure are for the copy of its only parameter. -/
theorem slots?_of_mem {xs : List Slot} {x : Slot} (h : slots? m p = some xs) (hx : x ∈ xs) :
    x.procedure = p ∧ p.parameters = [x.parameter] := by
  rcases slots?_cases h with ⟨parameter, first, second, hone, hfirst, hsecond, rfl⟩ | ⟨-, rfl⟩
  · have howner : x.procedure = p ∧ x.parameter = parameter := by
      rcases List.mem_cons.1 hx with rfl | hx
      · exact owner_of_parameterSlot? hfirst
      · cases Option.mem_toList.1 hx
        exact owner_of_usageSlot? hsecond
    exact ⟨howner.1, by rw [howner.2, hone]⟩
  · cases hx

theorem ofProcedure?_eq (m : Model) (suggester : Suggester) (count : Nat) (p : Procedure) :
    ofProcedure? m suggester count p =
      (slots? m p).map (List.map (Slot.edit m suggester count)) := by
  cases hp : p.parameters with
  | nil => simp [ofProcedure?, slots?, hp]
  | cons parameter rest =>
    cases rest with
    | cons _ _ => simp [ofProcedure?, slots?, hp]
    | nil =>
      simp only [ofProcedure?, hp, parameterEdit?_eq m.source p, usageEdit?_eq]
      cases hxs : slots? m p with
      | none =>
        simp only [slots?, hp] at hxs
        cases hf : parameterSlot? m.source p parameter with
        | none => rfl
        | some first =>
          cases hs : usageSlot? m p parameter with
          | none => rfl
          | some second => simp [hf, hs] at hxs
      | some xs =>
        have hfill : ∀ x ∈ xs, x.edit m suggester count =
            x.fill (newName m suggester count p parameter).toList := by
          intro x hx
          obtain ⟨hproc, hone⟩ := slots?_of_mem hxs hx
          rw [hp] at hone
          cases hone
          rw [Slot.edit, hproc]
        simp only [slots?, hp] at hxs
        obtain ⟨first, hf, hxs⟩ := Option.bind_eq_some_iff.1 hxs
        obtain ⟨second, hs, hxs⟩ := Option.bind_eq_some_iff.1 hxs
        cases hxs
        rw [Option.map_some, List.map_congr_left hfill, hf, hs]
        cases second <;> rfl

theorem ofProcedures?_eq (plan : Plan) (ps : List Procedure) :
    ofProcedures? m suggester count plan ps =
      (outline? m ps).map fun xss =>
        (xss.map (List.map (Slot.edit m suggester count))).foldl add plan := by
  induction ps generalizing plan with
  | nil => rfl
  | cons p ps ih =>
    rw [ofProcedures?, ofProcedure?_eq, outline?, List.mapM_cons]
    cases slots? m p with
    | none => rfl
    | some xs =>
      simp only [Option.map_some, Option.bind_eq_bind, Option.bind_some, ih, outline?]
      cases ps.mapM (slots? m) <;> rfl

/-! ## The counters -/

theorem foldl_add (plan : Plan) (ess : List (List Edit)) :
    ess.foldl add plan =
      { edits := plan.edits ++ ess.flatten
        counts :=
          { foundAny := plan.counts.foundAny || ess.any (!·.isEmpty)
            changes := plan.counts.changes + ess.countP (!·.isEmpty)
            procedures := plan.counts.procedures + ess.length
            usages := plan.counts.usages + ess.countP (·.length = 2) } } := by
  induction ess generalizing plan with
  | nil => simp
  | cons es ess ih =>
    rw [List.foldl_cons, ih]
    simp only [add, List.flatten_cons, List.append_assoc, List.any_cons, Bool.or_assoc,
      List.countP_cons, List.length_cons, mk.injEq, Counts.mk.injEq, true_and]
    refine ⟨?_, by omega, ?_⟩
    · cases es.isEmpty <;> simp
      omega
    · simp only [decide_eq_true_eq]
      split <;> omega

theorem outline?_eq_some_iff {ps : List Procedure} {xss : List (List Slot)} :
    outline? m ps = some xss ↔ List.Forall₂ (fun p xs => slots? m p = some xs) ps xss :=
  mapM_eq_some_iff

/-- A procedure has one or two slots if it has exactly one parameter, and none otherwise. -/
theorem length_of_slots? {xs : List Slot} (h : slots? m p = some xs) :
    (p.parameters.length = 1 ∧ (xs.length = 1 ∨ xs.length = 2)) ∨
      (p.parameters.length ≠ 1 ∧ xs = []) := by
  refine (slots?_cases h).imp_left ?_
  rintro ⟨parameter, first, second, hone, -, -, rfl⟩
  cases second <;> simp [hone]

theorem length_flatten_of_outline {ps : List Procedure} {xss : List (List Slot)}
    (h : List.Forall₂ (fun p xs => slots? m p = some xs) ps xss) :
    xss.countP (!·.isEmpty) = ps.countP (·.parameters.length = 1) ∧
      xss.flatten.length = xss.countP (!·.isEmpty) + xss.countP (·.length = 2) := by
  induction h with
  | nil => simp
  | @cons p xs ps xss hxs _ ih =>
    obtain ⟨hchanges, hlength⟩ := ih
    simp only [List.countP_cons, List.flatten_cons, List.length_append]
    rcases length_of_slots? hxs with ⟨hone, hxs⟩ | ⟨hne, rfl⟩
    · have hempty : xs.isEmpty = false := by cases xs <;> simp_all
      simp only [hempty, hone, hchanges, hlength, Bool.not_false, decide_true, if_true,
        decide_eq_true_eq, true_and]
      split <;> omega
    · simp [hne, hchanges, hlength]

theorem exists_slots?_of_mem {ps : List Procedure} {xss : List (List Slot)}
    (h : List.Forall₂ (fun p xs => slots? m p = some xs) ps xss) {x : Slot}
    (hx : x ∈ xss.flatten) : ∃ p ∈ ps, ∃ xs, slots? m p = some xs ∧ x ∈ xs := by
  induction h with
  | nil => simp at hx
  | @cons p xs ps xss hxs _ ih =>
    rw [List.flatten_cons, List.mem_append] at hx
    rcases hx with hx | hx
    · exact ⟨p, .head _, xs, hxs, hx⟩
    · obtain ⟨q, hq, hslots⟩ := ih hx
      exact ⟨q, .tail _ hq, hslots⟩

theorem mem_of_outline {ps : List Procedure} {xss : List (List Slot)}
    (h : List.Forall₂ (fun p xs => slots? m p = some xs) ps xss) {x : Slot}
    (hx : x ∈ xss.flatten) :
    x.procedure ∈ ps ∧ x.procedure.parameters = [x.parameter] := by
  obtain ⟨p, hp, xs, hxs, hx⟩ := exists_slots?_of_mem h hx
  obtain ⟨rfl, hone⟩ := slots?_of_mem hxs hx
  exact ⟨hp, hone⟩

/-- Leaving procedures out leaves their slots out and changes no other. -/
theorem outline?_filter {ps : List Procedure} {xss : List (List Slot)} (keep : Procedure → Bool)
    (h : List.Forall₂ (fun p xs => slots? m p = some xs) ps xss) :
    ∃ yss, outline? m (ps.filter keep) = some yss ∧
      yss.flatten = xss.flatten.filter (keep ·.procedure) := by
  induction h with
  | nil => exact ⟨[], rfl, rfl⟩
  | @cons p xs ps xss hxs _ ih =>
    obtain ⟨yss, hyss, hflat⟩ := ih
    have hown : ∀ x ∈ xs, keep x.procedure = keep p :=
      fun x hx => by rw [(slots?_of_mem hxs hx).1]
    rw [List.flatten_cons, List.filter_append, ← hflat]
    cases hk : keep p with
    | true =>
      refine ⟨xs :: yss, ?_, ?_⟩
      · rw [List.filter_cons_of_pos hk]
        exact outline?_eq_some_iff.2 (.cons hxs (outline?_eq_some_iff.1 hyss))
      · rw [List.filter_eq_self.2 fun x hx => (hown x hx).trans hk, List.flatten_cons]
    | false =>
      refine ⟨yss, ?_, ?_⟩
      · rw [List.filter_cons_of_neg (by simp [hk])]
        exact hyss
      · rw [List.filter_eq_nil_iff.2 fun x hx => by simp [hown x hx, hk], List.nil_append]

end
end Plan

/-! ## Methods among procedures -/

namespace Procedure

theorem node_of_ofNode? {source : Text} {before : List Node} {n : Node} {p : Procedure}
    (h : ofNode? source before n = some p) : p.node = n := by
  obtain ⟨name, -, h⟩ := Option.bind_eq_some_iff.1 h
  obtain ⟨list, -, h⟩ := Option.bind_eq_some_iff.1 h
  cases h
  rfl

/-- Whether a procedure is a method. -/
def isMethod (p : Procedure) : Bool :=
  p.node.kind == methodKind

theorem ofTrees_methods {source : Text} {ns : List Node}
    (ih : ∀ n ∈ ns, ∀ before,
      ofTree source false before n = (ofTree source true before n).filter isMethod)
    (before : List Node) :
    ofTrees source false before ns = (ofTrees source true before ns).filter isMethod := by
  induction ns generalizing before with
  | nil => rfl
  | cons n ns ihs =>
    rw [ofTrees, ofTrees, List.filter_append, ih n (.head _), ihs fun m hm => ih m (.tail _ hm)]

theorem ofTree_methods (source : Text) (before : List Node) (n : Node) :
    ofTree source false before n = (ofTree source true before n).filter isMethod := by
  induction n using Node.induction generalizing before with
  | step n ih =>
    rw [ofTree_eq, ofTree_eq, List.filter_append, ofTrees_methods ih]
    congr 1
    cases hp : ofNode? source before n with
    | none => simp
    | some p =>
      have hkind : isMethod p = (n.kind == methodKind) := by rw [isMethod, node_of_ofNode? hp]
      cases hm : n.kind == methodKind <;> cases hl : n.kind == localFunctionKind <;>
        simp [isListed, hm, hl, hkind]

theorem list_methods (source : Text) (root : Node) :
    list source root false = (list source root true).filter isMethod :=
  ofTree_methods source [] root

end Procedure

namespace Plan

theorem make?_eq_some_iff {m : Model} {root : Node} {suggester : Suggester} {withLocal : Bool}
    {count : Nat} {plan : Plan} :
    make? m root suggester withLocal count = some plan ↔
      ∃ xss, outline? m (Procedure.list m.source root withLocal) = some xss ∧
        plan.edits = xss.flatten.map (Slot.edit m suggester count) ∧
        plan.counts =
          { foundAny := xss.any (!·.isEmpty), changes := xss.countP (!·.isEmpty)
            procedures := xss.length, usages := xss.countP (·.length = 2) } := by
  rw [make?, ofProcedures?_eq, Option.map_eq_some_iff]
  refine exists_congr fun xss => and_congr_right fun _ => ?_
  obtain ⟨edits, counts⟩ := plan
  simp only [foldl_add, empty, mk.injEq, List.nil_append, Bool.false_or, Nat.zero_add,
    List.any_map, List.countP_map, List.length_map, List.map_flatten, Function.comp_def,
    List.isEmpty_map]
  exact and_congr eq_comm eq_comm

/-- **Naming does not touch the structure of a plan.** Two suggesters, asked for any numbers of
proposals, give a plan for the same files, with the same counters and offsets, and the edits of
both are the outline of the file filled with the names of each. The counters are what they say of
the listed procedures, and without local functions the edits are those of the methods. -/
theorem naming_keeps_structure (source : Text) (root : Node) (withLocal : Bool)
    (suggester suggester' : Suggester) (count count' : Nat) :
    let m := Model.build source root
    let ps := Procedure.list source root withLocal
    (make? m root suggester withLocal count).isSome =
      (make? m root suggester' withLocal count').isSome ∧
    ∀ plan plan', make? m root suggester withLocal count = some plan →
      make? m root suggester' withLocal count' = some plan' →
      plan.counts = plan'.counts ∧
      plan.edits.map (·.offset) = plan'.edits.map (·.offset) ∧
      plan.counts.changes = ps.countP (·.parameters.length = 1) ∧
      (plan.counts.foundAny = true ↔ 0 < plan.counts.changes) ∧
      plan.counts.procedures = ps.length ∧
      plan.edits.length = plan.counts.changes + plan.counts.usages ∧
      ∃ outline, outline? m ps = some outline ∧
        (∀ x ∈ outline.flatten,
          x.procedure ∈ ps ∧ x.procedure.parameters = [x.parameter]) ∧
        plan.edits = outline.flatten.map (·.edit m suggester count) ∧
        plan'.edits = outline.flatten.map (·.edit m suggester' count') ∧
        ∃ methods, make? m root suggester false count = some methods ∧
          methods.edits = (outline.flatten.filter (·.procedure.isMethod)).map
            (·.edit m suggester count) := by
  intro m ps
  constructor
  · simp only [make?, ofProcedures?_eq, Option.isSome_map]
  intro plan plan' hplan hplan'
  obtain ⟨outline, houtline, hedits, hcounts⟩ := make?_eq_some_iff.1 hplan
  obtain ⟨outline', houtline', hedits', hcounts'⟩ := make?_eq_some_iff.1 hplan'
  cases houtline.symm.trans houtline'
  have hall := outline?_eq_some_iff.1 houtline
  obtain ⟨hchanges, hlength⟩ := length_flatten_of_outline hall
  refine ⟨hcounts.trans hcounts'.symm, ?_, ?_, ?_, ?_, ?_, outline, houtline,
    fun x hx => mem_of_outline hall hx, hedits, hedits', ?_⟩
  · rw [hedits, hedits', List.map_map, List.map_map]
    rfl
  · rw [hcounts]
    exact hchanges
  · rw [hcounts]
    simp [List.countP_pos_iff]
  · rw [hcounts]
    exact hall.length_eq.symm
  · rw [hedits, hcounts, List.length_map]
    exact hlength
  · obtain ⟨yss, hyss, hflat⟩ := outline?_filter Procedure.isMethod hall
    have hmethods : ps.filter Procedure.isMethod = Procedure.list source root false := by
      cases withLocal with
      | true => exact (Procedure.list_methods source root).symm
      | false => simp [ps, Procedure.list_methods]
    rw [← hflat]
    refine ⟨⟨_, _⟩, make?_eq_some_iff.2 ⟨yss, ?_, rfl, rfl⟩, rfl⟩
    rw [← hyss]
    exact congrArg _ hmethods.symm

/-- A method `M(int x)` that uses `x` behind a local function `L(int y)` that uses `y`. -/
def methodTree : Node :=
  .ofRows [
    .named 0 "compilation_unit" none 0 64, .named 1 "class_declaration" none 0 64,
    .token 2 "class" 0, .named 2 "identifier" "name" 6 7,
    .named 2 "declaration_list" "body" 8 64, .token 3 "\x7b" 8,
    .named 3 "method_declaration" none 10 62, .named 4 "predefined_type" "returns" 10 14,
    .named 4 "identifier" "name" 15 16, .named 4 "parameter_list" "parameters" 16 23,
    .token 5 "(" 16, .named 5 "parameter" none 17 22, .named 6 "predefined_type" "type" 17 20,
    .named 6 "identifier" "name" 21 22, .token 5 ")" 22, .named 4 "block" "body" 24 62,
    .token 5 "\x7b" 24, .named 5 "local_function_statement" none 26 52,
    .named 6 "predefined_type" "type" 26 29, .named 6 "identifier" "name" 30 31,
    .named 6 "parameter_list" "parameters" 31 38, .token 7 "(" 31,
    .named 7 "parameter" none 32 37, .named 8 "predefined_type" "type" 32 35,
    .named 8 "identifier" "name" 36 37, .token 7 ")" 37, .named 6 "block" "body" 39 52,
    .token 7 "\x7b" 39, .named 7 "return_statement" none 41 50, .token 8 "return" 41,
    .named 8 "identifier" none 48 49, .token 8 ";" 49, .token 7 "\x7d" 51,
    .named 5 "expression_statement" none 53 60, .named 6 "invocation_expression" none 53 59,
    .named 7 "identifier" "function" 53 56, .named 7 "argument_list" "arguments" 56 59,
    .token 8 "(" 56, .named 8 "argument" none 57 58, .named 9 "identifier" none 57 58,
    .token 8 ")" 58, .token 6 ";" 59, .token 5 "\x7d" 61, .token 3 "\x7d" 63]

def methodSource : Text :=
  "class A \x7b void M(int x) \x7b int L(int y) \x7b return y; \x7d Use(x); \x7d \x7d".toList

theorem method_outline_filled :
    ∃ plan plan' methods,
      make? (Model.build methodSource methodTree) methodTree .deterministic true 1 = some plan ∧
      make? (Model.build methodSource methodTree) methodTree unusable true 5 = some plan' ∧
      make? (Model.build methodSource methodTree) methodTree .deterministic false 1 =
        some methods ∧
      plan.edits.map (·.offset) = [22, 60, 37, 50] ∧
      plan'.edits.map (·.offset) = [22, 60, 37, 50] ∧ plan.counts = plan'.counts ∧
      methods.edits.Sublist plan.edits := by
  obtain ⟨plan, hplan⟩ := Option.isSome_iff_exists.1 (show (make?
    (Model.build methodSource methodTree) methodTree .deterministic true 1).isSome by
      decide +kernel)
  have hboth := naming_keeps_structure methodSource methodTree true .deterministic unusable 1 5
  obtain ⟨plan', hplan'⟩ := Option.isSome_iff_exists.1
    (hboth.1.symm.trans (by rw [hplan]; rfl))
  obtain ⟨hcounts, hoffsets, -, -, -, -, outline, -, -, hedits, -, methods, hmethods, hsub⟩ :=
    hboth.2 plan plan' hplan hplan'
  have hat : (make? (Model.build methodSource methodTree) methodTree .deterministic true 1).map
      (·.edits.map (·.offset)) = some [22, 60, 37, 50] := by decide +kernel
  rw [hplan] at hat
  have hat := Option.some.inj hat
  refine ⟨plan, plan', methods, hplan, hplan', hmethods, hat, hoffsets.symm.trans hat, hcounts, ?_⟩
  rw [hsub, hedits]
  exact List.filter_sublist.map _

end Plan
end ParamTwin
