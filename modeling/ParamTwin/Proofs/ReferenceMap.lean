import ParamTwin.Proofs.BinderTrace

/-!
# The reference map is lexical resolution

The model of a file maps the offsets of identifiers to the offsets of declarations. Where
identifiers start at distinct offsets (`DistinctIdentifiers`), an offset stands for one identifier,
and the map says what the identifier resolves to.

* `lookup_references_iff_resolves`: the map sends an identifier in reference position to the most
  recent declaration of its name in the innermost scope around it that has one by then, and that
  scope contains the identifier.
* `foreach_body_function_not_hoisted`: a local function that is the body of a loop is declared where
  it stands and not on entry of the loop, although the loop opens a scope.
-/

namespace ParamTwin.Lexical

/-- Identifiers that are not empty start at distinct offsets. -/
def DistinctIdentifiers (source : Text) (root : Node) : Prop :=
  ((root.preorder.filter fun n => n.kind == "identifier" && n.textString source != "").map
    (·.span.start)).Nodup

instance (source : Text) (root : Node) : Decidable (DistinctIdentifiers source root) :=
  inferInstanceAs (Decidable (List.Nodup _))

/-- The node of a scope, or the file, contains a node. -/
def ScopeId.Contains (root : Node) (n : Node) : ScopeId → Prop
  | .file => n ∈ root.preorder
  | .node path =>
    ∃ m, root.at? path = some m ∧ (Construct.ofKind m.kind).opensScope = true ∧ n ∈ m.preorder

/-- Whether the event at an index is a reference that passes a test, which is given the events
before it. -/
def referenceAt (test : List Event → Path → Node → Bool) (es : List Event) (k : Nat) : Bool :=
  match es[k]? with
  | some (.refer place n) => test (es.take k) place n
  | _ => false

theorem exists_referenceAt_iff {test : List Event → Path → Node → Bool} {es : List Event} :
    (∃ k < es.length, referenceAt test es k = true) ↔
      ∃ before place n after, es = before ++ .refer place n :: after ∧
        test before place n = true := by
  constructor
  · rintro ⟨k, hk, h⟩
    have hsplit := List.take_append_drop k es
    rw [List.drop_eq_getElem_cons hk] at hsplit
    rw [referenceAt, List.getElem?_eq_getElem hk] at h
    cases he : es[k] with
    | declare scope x => simp [he] at h
    | refer place n =>
      rw [he] at h hsplit
      exact ⟨es.take k, place, n, es.drop (k + 1), hsplit.symm, h⟩
  · rintro ⟨before, place, n, after, rfl, h⟩
    exact ⟨before.length, by simp, by simpa [referenceAt] using h⟩

instance (source : Text) (root : Node) (es : List Event) (o d : Nat) :
    Decidable (Refers source root es o d) :=
  decidable_of_iff
    (∃ k < es.length, referenceAt (fun before place n => n.span.start = o ∧
      (resolve (declarations source before) (enclosing root place) (spelling source n)).map
        (·.symbol.offset) = some d) es k = true) <| by
    simp only [exists_referenceAt_iff, decide_eq_true_eq, resolve_map_eq_some_iff, Refers]
    constructor
    · rintro ⟨before, place, n, after, he, ho, decl, hr⟩
      exact ⟨before, place, n, after, decl, he, ho, hr⟩
    · rintro ⟨before, place, n, after, decl, he, ho, hr⟩
      exact ⟨before, place, n, after, he, ho, decl, hr⟩

section
variable {source : Text} {root n n' : Node} {es before before' after after' : List Event}
  {place place' : Path} {decl : Declaration} {scopes : List ScopeId} {name : String}

/-- An identifier that resolves is not empty, for no declaration has the empty name. -/
theorem text_ne_of_resolves
    (h : Resolves (declarations source es) scopes (spelling source n) decl) :
    n.textString source ≠ "" := by
  intro he
  refine (exists_declare_of_mem h.mem).1 ?_
  rw [h.name_eq, spelling, he]
  decide

theorem refer_of_split (he : walk (shape source) root = before ++ .refer place n :: after) :
    root.at? place = some n ∧ n.kind = "identifier" :=
  refer_of_mem_walk (by rw [he]; exact List.mem_append_right _ (.head _))

/-! ## One identifier an offset -/

/-- The references of the walk that are not empty start at distinct offsets. -/
theorem referred_walk_nodup (h : DistinctIdentifiers source root) :
    (((referred (walk (shape source) root)).filter fun n =>
      n.kind == "identifier" && n.textString source != "").map (·.span.start)).Nodup :=
  h.sublist (((referred_events (shape source) .file [] [] root).filter _).map _)

theorem not_later (h : DistinctIdentifiers source root) {mid : List Event}
    (hn : n.kind = "identifier" ∧ n.textString source ≠ "")
    (hn' : n'.kind = "identifier" ∧ n'.textString source ≠ "")
    (ho : n.span.start = n'.span.start) :
    walk (shape source) root ≠ before ++ .refer place n :: (mid ++ .refer place' n' :: after) := by
  intro he
  have := referred_walk_nodup h
  simp [he, referred, hn, hn', ho, List.nodup_append] at this

/-- Two references of the walk at one offset are one. -/
theorem refer_unique (h : DistinctIdentifiers source root)
    (he : walk (shape source) root = before ++ .refer place n :: after)
    (he' : walk (shape source) root = before' ++ .refer place' n' :: after')
    (ht : n.textString source ≠ "") (ht' : n'.textString source ≠ "")
    (ho : n.span.start = n'.span.start) : before = before' ∧ place = place' ∧ n = n' := by
  have hk := (refer_of_split he).2
  have hk' := (refer_of_split he').2
  -- If the two stood apart, one of them would be a later reference at the same offset.
  rcases List.append_eq_append_iff.1 (he.symm.trans he') with ⟨c, rfl, hc⟩ | ⟨c, rfl, hc⟩
  · rcases c with _ | ⟨x, c⟩
    · cases hc
      exact ⟨by simp, rfl, rfl⟩
    · cases hc
      exact absurd he (not_later h ⟨hk, ht⟩ ⟨hk', ht'⟩ ho)
  · rcases c with _ | ⟨x, c⟩
    · cases hc
      exact ⟨by simp, rfl, rfl⟩
    · cases hc
      exact absurd he' (not_later h ⟨hk', ht'⟩ ⟨hk, ht⟩ ho.symm)

theorem refers_unique (h : DistinctIdentifiers source root) {o d d' : Nat}
    (hr : Refers source root (walk (shape source) root) o d)
    (hr' : Refers source root (walk (shape source) root) o d') : d = d' := by
  obtain ⟨before, place, n, after, decl, he, rfl, hres, rfl⟩ := hr
  obtain ⟨before', place', n', after', decl', he', ho, hres', rfl⟩ := hr'
  obtain ⟨rfl, rfl, rfl⟩ :=
    refer_unique h he he' (text_ne_of_resolves hres) (text_ne_of_resolves hres') ho.symm
  rw [hres.unique hres']

/-! ## The map -/

/-- What the map holds is found by the walk. -/
theorem refers_of_lookup {o d : Nat}
    (h : (Model.build source root).references.lookup o = some d) :
    Refers source root (walk (shape source) root) o d := by
  obtain ⟨l, l', hl, -⟩ := List.lookup_eq_some_iff.1 h
  refine ((Binder.run_tracks source root).references o d).1 ?_
  rw [show (Binder.run source root).references = _ from hl]
  exact List.mem_append_right _ (.head _)

/-- The map holds what the references of the walk resolve to. -/
theorem lookup_references_iff (h : DistinctIdentifiers source root) (o d : Nat) :
    (Model.build source root).references.lookup o = some d ↔
      Refers source root (walk (shape source) root) o d := by
  refine ⟨refers_of_lookup, fun hr => ?_⟩
  cases hl : (Model.build source root).references.lookup o with
  | none =>
    have hm := ((Binder.run_tracks source root).references o d).2 hr
    exact absurd rfl (bne_iff_ne.1 (List.lookup_eq_none_iff.1 hl _ hm))
  | some d' => rw [refers_unique h (refers_of_lookup hl) hr]

/-- What an identifier resolves to is declared in a scope that contains it, a parameter in the scope
of a construct that has it. -/
theorem contains_of_resolves (he : walk (shape source) root = before ++ .refer place n :: after)
    (hr : Resolves (declarations source before) (enclosing root place) name decl) :
    decl.scope.Contains root n ∧ (decl.symbol.kind = .parameter → ∃ path m,
      decl.scope = .node path ∧ root.at? path = some m ∧
        (Construct.ofKind m.kind).takesParameters = true ∧ n ∈ m.preorder) := by
  have hn := (refer_of_split he).1
  have inside : ∀ path, decl.scope = .node path →
      ∀ m, root.at? path = some m → n ∈ m.preorder := fun path hs m hm => by
    obtain ⟨m', hm', hsub⟩ := Node.exists_around (mem_enclosing (hs ▸ hr.mem_scopes)).1 hn
    cases hm.symm.trans hm'
    exact hsub (Node.self_mem_preorder n)
  constructor
  · cases hs : decl.scope with
    | file => exact Node.mem_preorder_of_at? hn
    | node path =>
      obtain ⟨m, hm, ho⟩ := opens_of_mem_enclosing (hs ▸ hr.mem_scopes)
      exact ⟨m, hm, ho, inside path hs m hm⟩
  · intro hk
    obtain ⟨-, x, hx, hd⟩ := exists_declare_of_mem hr.mem
    have hx' : .declare decl.scope x ∈ walk (shape source) root := by
      rw [he]; exact List.mem_append_left _ hx
    rw [hd] at hk
    obtain ⟨path, m, -, hs, hm, ht, -⟩ := (declare_of_mem_walk hx').2 hk
    exact ⟨path, m, hs, hm, ht, inside path hs m hm⟩

end

/-- **The reference map is lexical resolution.** It sends an identifier in reference position to
the most recent declaration of its name in the innermost scope around it that has one by then, and
has no entry if there is none; that scope contains the identifier, and if the declaration is a
parameter, so does the construct with the parameter. -/
theorem lookup_references_iff_resolves (source : Text) (root : Node)
    (h : DistinctIdentifiers source root) :
    (∀ o d, (Model.build source root).references.lookup o = some d ↔
      Refers source root (walk (shape source) root) o d) ∧
    ∀ before place n after, walk (shape source) root = before ++ .refer place n :: after →
      (n.textString source ≠ "" →
        ∀ d, (Model.build source root).references.lookup n.span.start = some d ↔
          ∃ decl, Resolves (declarations source before) (enclosing root place) (spelling source n)
            decl ∧ decl.symbol.offset = d) ∧
      ∀ decl, Resolves (declarations source before) (enclosing root place) (spelling source n)
          decl →
        decl.scope.Contains root n ∧ (decl.symbol.kind = .parameter → ∃ path m,
          decl.scope = .node path ∧ root.at? path = some m ∧
            (Construct.ofKind m.kind).takesParameters = true ∧ n ∈ m.preorder) := by
  refine ⟨lookup_references_iff h, fun before place n after he =>
    ⟨fun ht d => ?_, fun decl hr => contains_of_resolves he hr⟩⟩
  rw [lookup_references_iff h]
  constructor
  · rintro ⟨before', place', n', after', decl, he', ho, hr, hd⟩
    obtain ⟨rfl, rfl, rfl⟩ := refer_unique h he he' ht (text_ne_of_resolves hr) ho.symm
    exact ⟨decl, hr, hd⟩
  · rintro ⟨decl, hr, hd⟩
    exact ⟨before, place, n, after, decl, he, rfl, hr, hd⟩

/-- `int P(int a) { int Q(int b) { return a + b; } }` -/
def nestedSource : Text := "int P(int a) \x7b int Q(int b) \x7b return a + b; \x7d \x7d".toList

def nestedTree : Node :=
  .ofRows [
    .named 0 "compilation_unit" none 0 47, .named 1 "global_statement" none 0 47,
    .named 2 "local_function_statement" none 0 47, .named 3 "predefined_type" "type" 0 3,
    .named 3 "identifier" "name" 4 5, .named 3 "parameter_list" "parameters" 5 12,
    .token 4 "(" 5, .named 4 "parameter" none 6 11, .named 5 "predefined_type" "type" 6 9,
    .named 5 "identifier" "name" 10 11, .token 4 ")" 11, .named 3 "block" "body" 13 47,
    .token 4 "\x7b" 13, .named 4 "local_function_statement" none 15 45,
    .named 5 "predefined_type" "type" 15 18, .named 5 "identifier" "name" 19 20,
    .named 5 "parameter_list" "parameters" 20 27, .token 6 "(" 20,
    .named 6 "parameter" none 21 26, .named 7 "predefined_type" "type" 21 24,
    .named 7 "identifier" "name" 25 26, .token 6 ")" 26, .named 5 "block" "body" 28 45,
    .token 6 "\x7b" 28, .named 6 "return_statement" none 30 43, .token 7 "return" 30,
    .named 7 "binary_expression" none 37 42, .named 8 "identifier" "left" 37 38,
    .token 8 "+" 39 "operator", .named 8 "identifier" "right" 41 42, .token 7 ";" 42,
    .token 6 "\x7d" 44, .token 4 "\x7d" 46]

theorem nested_references_resolve :
    DistinctIdentifiers nestedSource nestedTree ∧
      Refers nestedSource nestedTree (walk (shape nestedSource) nestedTree) 37 10 ∧
      Refers nestedSource nestedTree (walk (shape nestedSource) nestedTree) 41 25 :=
  have h : DistinctIdentifiers nestedSource nestedTree := by decide +kernel
  have hmap := (lookup_references_iff_resolves nestedSource nestedTree h).1
  ⟨h, (hmap 37 10).1 (by decide +kernel), (hmap 41 25).1 (by decide +kernel)⟩

/-! ## Local functions are hoisted by blocks, not by loops -/

/-- Shapes under which every construct that opens a scope declares the local functions among its
children on entry. -/
def hoistingShape (source : Text) (around : List String) (n : Node) : Shape :=
  let s := shape source around n
  if (Construct.ofKind n.kind).opensScope then
    { s with entry := s.entry ++ bindAll .localFunction (hoisted n) }
  else s

/-- `foreach (var i in F()) int F() => 1;` -/
def loopSource : Text := "foreach (var i in F()) int F() => 1;".toList

def loopTree : Node :=
  .ofRows [
    .named 0 "compilation_unit" none 0 36, .named 1 "global_statement" none 0 36,
    .named 2 "foreach_statement" none 0 36, .token 3 "foreach" 0, .token 3 "(" 8,
    .named 3 "implicit_type" "type" 9 12, .token 4 "var" 9, .named 3 "identifier" "left" 13 14,
    .token 3 "in" 15, .named 3 "invocation_expression" "right" 18 21,
    .named 4 "identifier" "function" 18 19, .named 4 "argument_list" "arguments" 19 21,
    .token 5 "(" 19, .token 5 ")" 20, .token 3 ")" 21,
    .named 3 "local_function_statement" "body" 23 36, .named 4 "predefined_type" "type" 23 26,
    .named 4 "identifier" "name" 27 28, .named 4 "parameter_list" "parameters" 28 30,
    .token 5 "(" 28, .token 5 ")" 29, .named 4 "arrow_expression_clause" "body" 31 35,
    .token 5 "=>" 31, .named 5 "integer_literal" none 34 35, .token 4 ";" 35]

/-- A local function that is the body of a loop is not declared on entry of the loop. -/
theorem foreach_body_function_not_hoisted :
    ¬ ∀ (source : Text) (root : Node), DistinctIdentifiers source root →
      ∀ o d, (Model.build source root).references.lookup o = some d ↔
        Refers source root (walk (hoistingShape source) root) o d := by
  intro h
  have hr : Refers loopSource loopTree (walk (hoistingShape loopSource) loopTree) 18 27 := by
    decide +kernel
  have := (h loopSource loopTree (by decide +kernel) 18 27).2 hr
  revert this
  decide +kernel

end ParamTwin.Lexical
