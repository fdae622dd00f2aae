import ParamTwin.Corpus.Record
import ParamTwin.Proofs.Outline

/-!
# Harvested records and naming contexts

A parameter is described twice: in the record that is harvested from its source, and in the context
under which similar parameters are looked up when the source is transformed. Both take the name and
the summary from the procedure, but only the context looks at the errors that the parser found in
the type.

* `NamingContext.describe_inj`: descriptions that differ in the type only are equal iff the types
  are.
* `CorpusRecord.record_matches_context_iff`: when the two descriptions of a parameter agree.
-/

namespace ParamTwin

theorem NamingContext.describe_inj {procedure summary a b : String} :
    describe { procedure, typeName := a, summary } =
      describe { procedure, typeName := b, summary } ↔ a = b := by
  unfold describe
  constructor
  · intro h
    have h := congrArg String.toList h
    simp only [String.toList_append, List.append_assoc] at h
    have h := List.append_cancel_left (List.append_cancel_left (List.append_cancel_left h))
    simp only [← List.append_assoc] at h
    exact String.toList_inj.1 (List.append_cancel_right (List.append_cancel_right h))
  · rintro rfl
    rfl

theorem Procedure.mem_list_of_mem_methods {source : Text} {root : Node} {p : Procedure}
    (h : p ∈ list source root false) (withLocal : Bool) : p ∈ list source root withLocal := by
  cases withLocal with
  | false => exact h
  | true =>
    rw [list_methods] at h
    exact (List.mem_filter.1 h).1

namespace Parameter

/-- The type of a parameter as written, the unknown type if there is none. -/
def writtenType (source : Text) (q : Parameter) : String :=
  (q.typeNode.bind fun n => TypeName.canonical (n.text source)).getD NamingContext.unknownType

/-- Whether the parser found an error in the type of a parameter. -/
def hasTypeError (q : Parameter) : Bool :=
  q.typeNode.any fun n => n.marks.error || n.marks.missing || n.marks.hasError

end Parameter

theorem Plan.typeName_context (m : Model) (p : Procedure) (q : Parameter) :
    (context m p q).typeName =
      if q.hasTypeError then NamingContext.unknownType else q.writtenType m.source := by
  unfold context Parameter.hasTypeError Parameter.writtenType
  cases q.typeNode with
  | none => rfl
  | some n =>
    simp only [Option.bind_some, Option.any_some, Model.typeName?]
    split <;> rfl

namespace CorpusRecord

theorem mem_extract_iff {source : Text} {root : Node} {minNameLength : Nat} {r : CorpusRecord} :
    r ∈ extract source root minNameLength ↔
      ∃ p ∈ Procedure.list source root false, ∃ q ∈ p.parameters,
        isKept minNameLength q.name = true ∧ ofParameter source p q = r := by
  simp only [extract, List.mem_flatMap, List.mem_map, List.mem_filter, and_assoc]

/-- **A record matches the context of its parameter** iff the parser found no error in the type, or
the type is written like an unknown one. The context of a parameter with an error in its type has
the unknown type; the record keeps the type as written. -/
theorem record_matches_context_iff (source : Text) (root : Node) (minNameLength : Nat) :
    (∀ r ∈ extract source root minNameLength, ∃ p ∈ Procedure.list source root false,
      ∃ q ∈ p.parameters, isKept minNameLength q.name = true ∧ r = ofParameter source p q) ∧
    ∀ p ∈ Procedure.list source root false, ∀ q ∈ p.parameters,
      isKept minNameLength q.name = true →
        let r := ofParameter source p q
        let c := Plan.context (Model.build source root) p q
        let agrees := q.hasTypeError = true → q.writtenType source = NamingContext.unknownType
        r ∈ extract source root minNameLength ∧
        (∀ withLocal, p ∈ Procedure.list source root withLocal) ∧
        r.paramName = q.name ∧ r.typeName = q.writtenType source ∧
        (r.typeName = c.typeName ↔ agrees) ∧ (r.context = c.describe ↔ agrees) ∧
        (q.hasTypeError = true → c.typeName = NamingContext.unknownType) := by
  refine ⟨fun r hr => ?_, fun p hp q hq hkept => ?_⟩
  · obtain ⟨p, hp, q, hq, hkept, rfl⟩ := mem_extract_iff.1 hr
    exact ⟨p, hp, q, hq, hkept, rfl⟩
  intro r c agrees
  have htype : c.typeName =
      if q.hasTypeError then NamingContext.unknownType else q.writtenType source :=
    Plan.typeName_context _ _ _
  have hagrees : r.typeName = c.typeName ↔ agrees := by
    rw [htype]
    show q.writtenType source = _ ↔ (_ → _)
    cases q.hasTypeError <;> simp
  refine ⟨mem_extract_iff.2 ⟨p, hp, q, hq, hkept, rfl⟩, Procedure.mem_list_of_mem_methods hp, rfl,
    rfl, hagrees, ?_, fun herror => by rw [htype, if_pos herror]⟩
  rw [← hagrees]
  exact NamingContext.describe_inj

theorem method_record_matches :
    ∃ p ∈ Procedure.list Plan.methodSource Plan.methodTree false, ∃ q ∈ p.parameters,
      isKept 1 q.name = true ∧ q.hasTypeError = false ∧
      (ofParameter Plan.methodSource p q).context =
        (Plan.context (Model.build Plan.methodSource Plan.methodTree) p q).describe := by
  obtain ⟨p, hp, q, hq, hkept, herror⟩ :
      ∃ p ∈ Procedure.list Plan.methodSource Plan.methodTree false, ∃ q ∈ p.parameters,
        isKept 1 q.name = true ∧ q.hasTypeError = false := by
    decide +kernel
  obtain ⟨-, -, -, -, -, hcontext, -⟩ :=
    (record_matches_context_iff Plan.methodSource Plan.methodTree 1).2 p hp q hq hkept
  exact ⟨p, hp, q, hq, hkept, herror, hcontext.2 (by simp [herror])⟩

/-- The row of a node with a name in the grammar and an error below it. -/
def damagedRow (depth : Nat) (kind : String) (field : Option String) (start stop : Nat) :
    Node.Row :=
  let row := Node.Row.named depth kind field start stop
  { row with marks.hasError := true }

/-- A method whose parameter has the type `List<int`, where a bracket is missing. -/
def damagedTree : Node :=
  .ofRows [
    damagedRow 0 "compilation_unit" none 0 42, damagedRow 1 "class_declaration" none 0 42,
    .token 2 "class" 0, .named 2 "identifier" "name" 6 7,
    damagedRow 2 "declaration_list" "body" 8 42, .token 3 "\x7b" 8,
    damagedRow 3 "method_declaration" none 10 40, .named 4 "predefined_type" "returns" 10 14,
    .named 4 "identifier" "name" 15 16, damagedRow 4 "parameter_list" "parameters" 16 28,
    .token 5 "(" 16, damagedRow 5 "parameter" none 17 27, damagedRow 6 "generic_name" "type" 17 25,
    .named 7 "identifier" none 17 21, damagedRow 7 "type_argument_list" none 21 25,
    .token 8 "<" 21, .named 8 "predefined_type" none 22 25,
    { depth := 8, kind := ">", field := none, span := ⟨25, 25⟩,
      marks := { named := false, missing := true, error := false, hasError := true } },
    .named 6 "identifier" "name" 26 27, .token 5 ")" 27, .named 4 "block" "body" 29 40,
    .token 5 "\x7b" 29, .named 5 "expression_statement" none 31 38,
    .named 6 "invocation_expression" none 31 37, .named 7 "identifier" "function" 31 34,
    .named 7 "argument_list" "arguments" 34 37, .token 8 "(" 34, .named 8 "argument" none 35 36,
    .named 9 "identifier" none 35 36, .token 8 ")" 36, .token 6 ";" 37, .token 5 "\x7d" 39,
    .token 3 "\x7d" 41]

def damagedSource : Text :=
  "class A \x7b void M(List<int x) \x7b Use(x); \x7d \x7d".toList

theorem damaged_record_differs :
    ¬ ∀ (source : Text) (root : Node) (minNameLength : Nat),
      ∀ p ∈ Procedure.list source root false, ∀ q ∈ p.parameters,
        isKept minNameLength q.name = true →
          let c := Plan.context (Model.build source root) p q
          (ofParameter source p q).typeName = c.typeName ∧
            (ofParameter source p q).context = c.describe := by
  intro h
  obtain ⟨p, hp, q, hq, hkept, herror, htype⟩ :
      ∃ p ∈ Procedure.list damagedSource damagedTree false, ∃ q ∈ p.parameters,
        isKept 1 q.name = true ∧ q.hasTypeError = true ∧
        q.writtenType damagedSource ≠ NamingContext.unknownType := by
    decide +kernel
  have hagree := (h damagedSource damagedTree 1 p hp q hq hkept).1
  rw [Plan.typeName_context, if_pos herror] at hagree
  exact htype hagree

end CorpusRecord
end ParamTwin
