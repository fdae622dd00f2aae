import ParamTwin.Duplicate.Plan
import ParamTwin.Proofs.FreeName
import ParamTwin.Proofs.ReferenceMap

/-!
# The new parameter collides with nothing in its procedure

The names bound in a procedure (`Plan.boundNames`) hold its parameters and all that the model
declares at an identifier inside it, and the name for the copy of its parameter is a usable one
beside them.

* `Model.symbol?_of_mem`: no two symbols are declared at one offset, so every symbol is found at its
  own.
* `newName_collision_free`: the name that the plan inserts for a procedure is an identifier and, up
  to a leading `@`, neither the name of the parameter nor a name declared inside the procedure.
-/

namespace ParamTwin

open Lexical

namespace Model

theorem build_symbols (source : Text) (root : Node) :
    (build source root).symbols =
      ((declarations source (walk (shape source) root)).map (·.symbol)).reverse :=
  (Binder.run_tracks source root).symbols

/-- Every symbol is found at its offset. -/
theorem symbol?_of_mem {source : Text} {root : Node} {s : Symbol}
    (h : s ∈ (build source root).symbols) : (build source root).symbol? s.offset = some s := by
  have hnd : ((build source root).symbols.map (·.offset)).Nodup := by
    rw [build_symbols, List.map_reverse, List.map_map, List.nodup_reverse]
    exact declarations_offsets_nodup source _
  cases hf : (build source root).symbol? s.offset with
  | none => simpa using List.find?_eq_none.1 hf s h
  | some t =>
    have ht := List.find?_some hf
    rw [List.inj_on_of_nodup_map hnd (List.mem_of_find?_eq_some hf) h (by simpa using ht)]

end Model

namespace Plan

section
variable {m : Model} {suggester : Suggester} {count : Nat} {p : Procedure} {parameter : Parameter}

/-! ## The bound names -/

theorem contains_boundNames_of_declared {n : Node} {s : Symbol} (hn : n ∈ p.node.preorder)
    (hk : Kind.isDeclaringName n.kind = true) (hs : m.symbol? n.span.start = some s) :
    (boundNames m p).contains s.name = true := by
  have ho : s.offset = n.span.start := by simpa using List.find?_some hs
  have hd : m.declared? n = some s.offset := by
    simp [Model.declared?, Model.nameNode?, hk, hs]
  refine (NameSet.contains_ofList _ _).2 ⟨s.name, List.mem_append_left _ ?_, rfl⟩
  refine List.mem_filterMap.2 ⟨n, hn, ?_⟩
  rw [if_pos hk, hd, Option.bind_some, ho, hs]
  rfl

theorem contains_boundNames_of_parameter (h : parameter ∈ p.parameters) :
    (boundNames m p).contains parameter.name = true :=
  (NameSet.contains_ofList _ _).2
    ⟨parameter.name, List.mem_append_right _ (List.mem_map_of_mem h), rfl⟩

theorem isUsable_newName (m : Model) (suggester : Suggester) (count : Nat) (p : Procedure)
    (parameter : Parameter) :
    Suggester.isUsable (boundNames m p) (newName m suggester count p parameter) = true :=
  Suggester.isUsable_best ..

/-- A valid name that is not in a set agrees with no name in it up to the mark. -/
theorem bare_ne_of_isUsable {bound : NameSet} {name other : String}
    (h : Suggester.isUsable bound name = true) (ho : bound.contains other = true) :
    Identifier.bare name ≠ Identifier.bare other ∧ Identifier.bare name ≠ other := by
  simp only [Suggester.isUsable, Bool.and_eq_true, Bool.not_eq_true'] at h
  have hne : Identifier.bare name ≠ Identifier.bare other := by
    intro he
    have hc : bound.contains name = bound.contains other := by simp only [NameSet.contains, he]
    rw [h.2, ho] at hc
    cases hc
  refine ⟨hne, ?_⟩
  rintro rfl
  exact hne (Identifier.bare_bare_of_isValid h.1).symm

/-! ## The edits -/

theorem ofProcedures?_edits {plan out : Plan} {ps : List Procedure}
    (h : ofProcedures? m suggester count plan ps = some out) :
    plan.edits ⊆ out.edits ∧
      ∀ p ∈ ps, ∃ edits, ofProcedure? m suggester count p = some edits ∧ edits ⊆ out.edits := by
  induction ps generalizing plan with
  | nil =>
    cases h
    exact ⟨List.Subset.refl _, by simp⟩
  | cons q ps ih =>
    obtain ⟨edits, hq, h⟩ := Option.bind_eq_some_iff.1 h
    obtain ⟨hplan, hps⟩ := ih h
    refine ⟨List.Subset.trans (List.subset_append_left ..) hplan,
      List.forall_mem_cons.2 ⟨?_, hps⟩⟩
    exact ⟨edits, hq, List.Subset.trans (List.subset_append_right ..) hplan⟩

/-- The edits of a procedure with one parameter are those that its new name gives. -/
theorem ofProcedure?_single {edits : List Edit} (hp : p.parameters = [parameter])
    (h : ofProcedure? m suggester count p = some edits) :
    ∃ first second, edits = first :: second.toList ∧
      parameterEdit? m.source parameter (newName m suggester count p parameter).toList =
        some first ∧
      usageEdit? m p parameter (newName m suggester count p parameter).toList = some second := by
  rw [ofProcedure?, hp] at h
  obtain ⟨first, hf, h⟩ := Option.bind_eq_some_iff.1 h
  obtain ⟨second, hs, h⟩ := Option.bind_eq_some_iff.1 h
  cases h
  exact ⟨first, second, rfl, hf, hs⟩

theorem located?_eq_some_iff {symbol : Nat} {s : Node} :
    located? m p parameter = some (symbol, s) ↔
      m.declared? parameter.binder = some symbol ∧
        Usage.locate? m p.body parameter.name symbol = some s := by
  constructor
  · intro h
    obtain ⟨symbol', hsymbol, h⟩ := Option.bind_eq_some_iff.1 h
    obtain ⟨s', hs, h⟩ := Option.bind_eq_some_iff.1 h
    cases h
    exact ⟨hsymbol, hs⟩
  · rintro ⟨hsymbol, hs⟩
    simp [located?, hsymbol, hs]

/-- What is inserted for the use of a parameter is the renamed copy of the statement found. -/
theorem usageEdit?_of_located? {symbol : Nat} {s : Node}
    (h : located? m p parameter = some (symbol, s)) (name : Text) :
    usageEdit? m p parameter name = (Usage.renamed? m s name symbol).bind fun copy =>
      (Usage.insertAfter? m.source s.span copy).map some := by
  rw [usageEdit?, h]
  simp only [Option.bind_eq_bind, Option.pure_def, Option.map_eq_bind]
  rfl

theorem exists_copy_of_usageEdit? {symbol : Nat} {s : Node} {name : Text} {second : Option Edit}
    (hs : located? m p parameter = some (symbol, s))
    (h : usageEdit? m p parameter name = some second) :
    ∃ copy e, Usage.renamed? m s name symbol = some copy ∧
      Usage.insertAfter? m.source s.span copy = some e ∧ second = some e := by
  rw [usageEdit?_of_located? hs] at h
  obtain ⟨copy, hcopy, h⟩ := Option.bind_eq_some_iff.1 h
  obtain ⟨e, he, rfl⟩ := Option.map_eq_some_iff.1 h
  exact ⟨copy, e, hcopy, he, rfl⟩

end

/-- **The inserted name collides with nothing in its procedure**, whatever the suggester proposes:
it is an identifier and, up to a leading `@`, differs from the parameter and from every symbol
declared at an identifier of the procedure. -/
theorem newName_collision_free (source : Text) (root : Node) (suggester : Suggester)
    (withLocal : Bool) (count : Nat) (p : Procedure) (parameter : Parameter)
    (hp : p ∈ Procedure.list source root withLocal) (hone : p.parameters = [parameter]) :
    let m := Model.build source root
    let name := newName m suggester count p parameter
    Identifier.isValid name = true ∧
    Identifier.bare name ≠ Identifier.bare parameter.name ∧
    (∀ n ∈ p.node.preorder, Kind.isDeclaringName n.kind = true →
      ∀ s ∈ m.symbols, s.offset = n.span.start → Identifier.bare name ≠ s.name) ∧
    ∀ plan, make? m root suggester withLocal count = some plan → ∃ first second,
      parameterEdit? source parameter name.toList = some first ∧
      usageEdit? m p parameter name.toList = some second ∧
      first :: second.toList ⊆ plan.edits := by
  intro m name
  have husable := isUsable_newName m suggester count p parameter
  refine ⟨(Bool.and_eq_true_iff.1 husable).1, ?_, ?_, ?_⟩
  · exact (bare_ne_of_isUsable husable (contains_boundNames_of_parameter (by simp [hone]))).1
  · intro n hn hk s hs ho
    have hf : m.symbol? n.span.start = some s := ho ▸ Model.symbol?_of_mem hs
    exact (bare_ne_of_isUsable husable (contains_boundNames_of_declared hn hk hf)).2
  · intro plan hplan
    obtain ⟨edits, he, hsub⟩ := (ofProcedures?_edits hplan).2 p hp
    obtain ⟨first, second, rfl, hf, hs⟩ := ofProcedure?_single hone he
    exact ⟨first, second, hf, hs, hsub⟩

/-- A suggester whose proposals are empty, reserved, bound or malformed. -/
def unusable : Suggester where
  name := "unusable"
  suggest _ _ _ _ _ := ["", "int", "a", "@b", "Q", "9"]

theorem nested_newName_collision_free :
    ∃ p ∈ Procedure.list nestedSource nestedTree true, ∃ parameter,
      p.name = "P" ∧ p.parameters = [parameter] ∧
      let m := Model.build nestedSource nestedTree
      let name := newName m unusable 1 p parameter
      Identifier.isValid name = true ∧
      Identifier.bare name ≠ Identifier.bare parameter.name ∧
      ∀ n ∈ p.node.preorder, Kind.isDeclaringName n.kind = true →
        ∀ s ∈ m.symbols, s.offset = n.span.start → Identifier.bare name ≠ s.name := by
  have hex : (Procedure.list nestedSource nestedTree true).any
      (fun p => p.name == "P" && p.parameters.length == 1) = true := by decide +kernel
  obtain ⟨p, hp, hone⟩ := List.any_eq_true.1 hex
  simp only [Bool.and_eq_true, beq_iff_eq] at hone
  obtain ⟨parameter, hone'⟩ := List.length_eq_one_iff.1 hone.2
  obtain ⟨hv, hne, hd, -⟩ :=
    newName_collision_free nestedSource nestedTree unusable true 1 p parameter hp hone'
  exact ⟨p, hp, parameter, hone.1, hone', hv, hne, hd⟩

end Plan
end ParamTwin
