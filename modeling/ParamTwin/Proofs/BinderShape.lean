import ParamTwin.Proofs.LexicalScope

/-!
# The binder follows the shapes

Each function of `Binder` that declares names declares a list of bindings in turn (`declareAll`),
and each of its walks over children takes the children by their roles (`walkRoles`). So the walk
over a node of any kind is one and the same step over its shape:

* `Binder.visit_eq`: `visit` declares the names around the node, then, in a scope of its own if the
  construct opens one, those on entry, takes the children by their roles and declares the names at
  the end.
-/

namespace ParamTwin.Binder

open Lexical

/-- Declares bindings in turn. -/
def declareAll (source : Text) (bindings : List Binding) (b : Binder) : Binder :=
  bindings.foldl (fun b x => b.declare source x.kind x.name) b

/-- Takes a child by its role. -/
def takeRole (source : Text) (around : List String) (role : Role) (n : Node) (b : Binder) :
    Binder :=
  match role with
  | .passed => b
  | .walked => visit source around n b
  | .reference => b.refer source n
  | .designates bindings => b.declareAll source bindings

/-- Takes children by their roles. -/
def walkRoles (source : Text) (around : List String) : List Role → List Node → Binder → Binder
  | role :: roles, n :: ns, b => walkRoles source around roles ns (takeRole source around role n b)
  | _, _, b => b

@[simp] theorem declareAll_nil (source : Text) (b : Binder) : b.declareAll source [] = b := rfl

theorem declareAll_append (source : Text) (xs ys : List Binding) (b : Binder) :
    b.declareAll source (xs ++ ys) = (b.declareAll source xs).declareAll source ys :=
  List.foldl_append ..

theorem bindAll_append (kind : SymbolKind) (xs ys : List Node) :
    bindAll kind (xs ++ ys) = bindAll kind xs ++ bindAll kind ys :=
  List.map_append

/-! ## The functions that declare names -/

theorem designateNamed_eq {source : Text} {kind : SymbolKind} {ns : List Node}
    (ih : ∀ n ∈ ns, ∀ b, designate source kind n b =
      b.declareAll source (bindAll kind (designated n))) (b : Binder) :
    designateNamed source kind ns b =
      b.declareAll source (bindAll kind (designatedNamed ns)) := by
  induction ns generalizing b with
  | nil => rfl
  | cons n ns ihs =>
    rw [designateNamed, designatedNamed, ihs fun m hm => ih m (.tail _ hm), bindAll_append,
      declareAll_append]
    split
    · rw [ih n (.head _)]
    · rfl

theorem designateName_eq {source : Text} {kind : SymbolKind} {ns : List Node}
    (ih : ∀ n ∈ ns, ∀ b, designate source kind n b =
      b.declareAll source (bindAll kind (designated n))) (b : Binder) :
    designateName source kind ns b =
      b.declareAll source (bindAll kind (designatedName ns)) := by
  induction ns with
  | nil => rfl
  | cons n ns ihs =>
    rw [designateName, designatedName]
    split
    · exact ih n (.head _) b
    · exact ihs fun m hm => ih m (.tail _ hm)

theorem designate_eq (source : Text) (kind : SymbolKind) (n : Node) (b : Binder) :
    designate source kind n b = b.declareAll source (bindAll kind (designated n)) := by
  induction n using Node.induction generalizing b with
  | step n ih =>
    obtain ⟨row, nodeKind, field, marks, span, children⟩ := n
    rw [designate, designated]
    split
    · rfl
    · split
      · exact designateNamed_eq ih b
      · split
        · exact designateName_eq ih b
        · rfl

theorem hoistAll_eq {source : Text} {ns : List Node}
    (ih : ∀ n ∈ ns, ∀ b, hoist source n b =
      b.declareAll source (bindAll .localFunction (hoisted n))) (b : Binder) :
    hoistAll source ns b = b.declareAll source (bindAll .localFunction (hoistedAmong ns)) := by
  induction ns generalizing b with
  | nil => rfl
  | cons n ns ihs =>
    rw [hoistAll, hoistedAmong, ihs fun m hm => ih m (.tail _ hm), bindAll_append,
      declareAll_append]
    congr 1
    split
    · rfl
    · split
      · cases n.child? "name" <;> rfl
      · split
        · exact ih n (.head _) b
        · rfl

theorem hoist_eq (source : Text) (n : Node) (b : Binder) :
    hoist source n b = b.declareAll source (bindAll .localFunction (hoisted n)) := by
  induction n using Node.induction generalizing b with
  | step n ih =>
    obtain ⟨row, kind, field, marks, span, children⟩ := n
    rw [hoist, hoisted]
    exact hoistAll_eq ih b

theorem declareParameters_eq (source : Text) (list : Node) (b : Binder) :
    b.declareParameters source list = b.declareAll source (parameters source list) := by
  rw [declareParameters, declareAll, parameters, List.foldl_map]

/-! ## The walks over children -/

theorem visitChildren_eq (source : Text) (kind : String) (around : List String)
    (skip : Option Nat) (ns : List Node) (b : Binder) :
    visitChildren source kind around skip ns b =
      walkRoles source (kind :: around) (childRoles kind around skip ns) ns b := by
  induction ns generalizing b with
  | nil => rw [visitChildren, childRoles, walkRoles]; simp
  | cons n ns ih =>
    rw [visitChildren, childRoles, walkRoles, ih]
    congr 1
    split
    · rfl
    · split
      · split <;> rfl
      · rfl

theorem visitPattern_eq (source : Text) (kind : String) (around : List String) (ns : List Node)
    (b : Binder) :
    visitPattern source kind around ns b =
      walkRoles source (kind :: around) (patternRoles kind ns) ns b := by
  induction ns generalizing b with
  | nil => rw [visitPattern, patternRoles, walkRoles]; simp
  | cons n ns ih =>
    rw [visitPattern, patternRoles, walkRoles, ih]
    congr 1
    split
    · rfl
    · split
      · exact designate_eq source .variable n b
      · rfl

/-- The walk over a query clause takes one child by its role and goes on. -/
theorem visitClause_cons (source : Text) (kind : String) (around : List String) (clause : Clause)
    (n : Node) (ns : List Node) (b : Binder) :
    visitClause source kind around clause (n :: ns) b =
      visitClause source kind around (clauseStep clause n).2 ns
        (takeRole source (kind :: around) (clauseStep clause n).1 n b) := by
  rw [visitClause, clauseStep]
  repeat' split
  all_goals rfl

theorem visitClause_eq (source : Text) (kind : String) (around : List String) (clause : Clause)
    (ns : List Node) (b : Binder) :
    visitClause source kind around clause ns b =
      (walkRoles source (kind :: around) (clauseRoles clause ns) ns b).declareAll source
        (bindAll .rangeVariable (clauseVariable clause ns).toList) := by
  induction ns generalizing clause b with
  | nil =>
    rw [visitClause, clauseRoles, clauseVariable, walkRoles, declareLeading]
    · cases clause.leading <;> rfl
    · simp
  | cons n ns ih => rw [visitClause_cons, ih, clauseRoles, clauseVariable, walkRoles]

/-! ## The step -/

/-- The walk inside a node, in the scope of the node if it opens one. -/
def inside (source : Text) (around : List String) (n : Node) (s : Shape) (b : Binder) : Binder :=
  (walkRoles source (n.kind :: around) s.roles n.children (b.declareAll source s.entry)).declareAll
    source s.last

/-- **The walk over a node of any kind is one step over its shape.** -/
theorem visit_eq (source : Text) (around : List String) (n : Node) (b : Binder) :
    visit source around n b =
      let s := shape source around n
      let b := b.declareAll source s.outside
      if (Construct.ofKind n.kind).opensScope then b.inScope (inside source around n s)
      else inside source around n s b := by
  obtain ⟨row, kind, field, marks, span, children⟩ := n
  rw [visit, shape]
  simp only [inside]
  -- An optional child that is missing declares nothing on either side.
  cases hk : Construct.ofKind kind with
  | skipped => simp [Construct.opensScope, walkRoles]
  | procedure =>
    simp only [visitChildren_eq, declareParameters_eq]
    cases parameterList? _ <;> rfl
  | localFunction =>
    simp only [visitChildren_eq, declareParameters_eq]
    cases parameterList? _ <;> cases Node.child? _ "name" <;> rfl
  | scope => simp only [visitChildren_eq, hoist_eq]; rfl
  | lambda =>
    simp only [visitChildren_eq, declareParameters_eq]
    cases lambdaParameters? _ with
    | none => rfl
    | some list =>
      by_cases hl : (list.kind == "parameter_list") = true
      · simp only [hl, if_true]; rfl
      · by_cases hd : Kind.isDeclaringName list.kind = true
        · simp only [hl, hd, if_true]; rfl
        · simp only [hl, hd]; rfl
  | foreachLoop =>
    simp only [visitChildren_eq, designate_eq]
    cases Node.child? _ "left" <;> rfl
  | declarator =>
    simp only [visitChildren_eq, designate_eq]
    cases declaratorNames? _ with
    | none => rfl
    | some names => cases isField around <;> rfl
  | catchVariable => cases Node.child? _ "name" <;> rfl
  | declarationExpression =>
    simp only [designate_eq]
    cases Node.child? _ "name" <;> rfl
  | pattern => simp only [visitPattern_eq]; rfl
  | queryClause => simp only [visitClause_eq]; rfl
  | plain => simp only [visitChildren_eq]; rfl

end ParamTwin.Binder
