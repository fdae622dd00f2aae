import ParamTwin.Proofs.AddedDeclaration
import ParamTwin.Proofs.NewName
import ParamTwin.Proofs.ProcedurePlace

/-!
# What a new parameter captures

The second parameter of a procedure is one more declaration in the scope of the procedure
(`Plan.second`). Its name is chosen against the names declared inside the procedure, and not
against those that the procedure uses from outside, nor against the names chosen for other
procedures.

* `second_parameter_captures_iff`: an identifier is captured by the new parameter iff it stands in
  the procedure, is spelled like it and is not bound inside the procedure; every other identifier
  keeps its meaning, among them all that are bound inside the procedure.
* `renamed_reference_resolves_iff`: a renamed reference in the copy of a statement refers to the new
  parameter of its procedure iff no procedure between the two has been given the same name.
* `field_reference_captured`, `nested_names_clash`: both kinds of clash happen.
-/

namespace ParamTwin

open Lexical

/-- A declaration stands at an identifier of the node at a place. -/
def Lexical.Declaration.DeclaredWithin (root : Node) (path : Path) (d : Declaration) : Prop :=
  ∃ n x, root.at? path = some n ∧ x ∈ n.preorder ∧ Kind.isDeclaringName x.kind = true ∧
    d.symbol.offset = x.span.start

/-! ## Second parameters -/

namespace Plan

/-- The second parameter of a procedure at a place, as a declaration in the scope of the
procedure. -/
def second (m : Model) (suggester : Suggester) (count : Nat) (path : Path) (p : Procedure)
    (parameter : Parameter) : Declaration :=
  { scope := .node path
    symbol :=
      { offset := parameter.span.stop
        name := Identifier.bare (newName m suggester count p parameter)
        kind := .parameter } }

/-- The second parameter of the procedure at a place; none if no procedure with exactly one
parameter stands there. -/
def second? (m : Model) (root : Node) (suggester : Suggester) (withLocal : Bool) (count : Nat)
    (path : Path) : Option Declaration :=
  (Procedure.at? m.source root withLocal path).bind fun p =>
    match p.parameters with
    | [parameter] => some (second m suggester count path p parameter)
    | _ => none

/-- The second parameters of the procedures around a place. -/
def secondsAround (m : Model) (root : Node) (suggester : Suggester) (withLocal : Bool) (count : Nat)
    (path : Path) : List Declaration :=
  (enclosing root path).filterMap fun
    | .file => none
    | .node outer => second? m root suggester withLocal count outer

section
variable {source : Text} {root : Node} {suggester : Suggester} {withLocal : Bool} {count : Nat}
  {path : Path} {new : Declaration}

theorem second?_eq_some_iff {m : Model} :
    second? m root suggester withLocal count path = some new ↔
      ∃ p parameter, Procedure.at? m.source root withLocal path = some p ∧
        p.parameters = [parameter] ∧ new = second m suggester count path p parameter := by
  constructor
  · intro h
    obtain ⟨p, hp, h⟩ := Option.bind_eq_some_iff.1 h
    split at h
    · rename_i parameter hone
      cases h
      exact ⟨p, parameter, hp, hone, rfl⟩
    · cases h
  · rintro ⟨p, parameter, hp, hone, rfl⟩
    rw [second?, hp, Option.bind_some, hone]

theorem scope_of_second? {m : Model}
    (h : second? m root suggester withLocal count path = some new) : new.scope = .node path := by
  obtain ⟨p, parameter, -, -, rfl⟩ := second?_eq_some_iff.1 h
  rfl

theorem mem_secondsAround {m : Model} :
    new ∈ secondsAround m root suggester withLocal count path ↔
      ∃ outer, .node outer ∈ enclosing root path ∧
        second? m root suggester withLocal count outer = some new := by
  rw [secondsAround, List.mem_filterMap]
  constructor
  · rintro ⟨s, hs, h⟩
    cases s with
    | file => cases h
    | node outer => exact ⟨outer, hs, h⟩
  · rintro ⟨outer, hs, h⟩
    exact ⟨.node outer, hs, h⟩

/-- The scope of a second parameter is opened by its procedure. -/
theorem second?_opens {m : Model} (h : second? m root suggester withLocal count path = some new) :
    ∃ n, root.at? path = some n ∧ (Construct.ofKind n.kind).opensScope = true := by
  obtain ⟨p, parameter, hp, -⟩ := second?_eq_some_iff.1 h
  exact ⟨p.node, (Procedure.node_of_at? hp).1, Procedure.opensScope_of_at? hp⟩

/-- A second parameter is spelled like nothing that is declared at an identifier of its
procedure. -/
theorem second?_ne_declared {d : Declaration}
    (h : second? (Model.build source root) root suggester withLocal count path = some new)
    (hd : d ∈ declarations source (walk (shape source) root))
    (hin : d.DeclaredWithin root path) : d.symbol.name ≠ new.symbol.name := by
  obtain ⟨p, parameter, hp, -, rfl⟩ := second?_eq_some_iff.1 h
  obtain ⟨n, x, hn, hx, hk, ho⟩ := hin
  cases hn.symm.trans (Procedure.node_of_at? hp).1
  have hs : d.symbol ∈ (Model.build source root).symbols := by
    rw [Model.build_symbols, List.mem_reverse]
    exact List.mem_map_of_mem hd
  have hf : (Model.build source root).symbol? x.span.start = some d.symbol :=
    ho ▸ Model.symbol?_of_mem hs
  exact (bare_ne_of_isUsable (isUsable_newName ..)
    (contains_boundNames_of_declared hx hk hf)).2.symm

/-- A second parameter is none of the declarations of the file: the parameter in its scope is the
first one, which has another name. -/
theorem second?_not_mem {es : List Event} (hes : es ⊆ walk (shape source) root)
    (h : second? (Model.build source root) root suggester withLocal count path = some new) :
    new ∉ declarations source es := by
  intro hmem
  obtain ⟨p, parameter, hp, hone, rfl⟩ := second?_eq_some_iff.1 h
  obtain ⟨-, x, hx, hsym⟩ := exists_declare_of_mem hmem
  have hkind : x.kind = .parameter := (congrArg Symbol.kind hsym).symm
  obtain ⟨first, hfirst, hxn⟩ := Procedure.parameter_of_declare hp (hes hx) hkind
  have hname := (congrArg Symbol.name hsym).trans hxn
  exact (bare_ne_of_isUsable (isUsable_newName ..)
    (contains_boundNames_of_parameter hfirst)).1 hname

end

/-! ## Captured references -/

section
variable {source : Text} {root n : Node} {suggester : Suggester} {withLocal : Bool} {count : Nat}
  {path place : Path} {new d : Declaration} {before after : List Event}

/-- An identifier that is bound inside the procedure is not spelled like the new parameter. -/
theorem spelling_ne_second
    (h : second? (Model.build source root) root suggester withLocal count path = some new)
    (he : walk (shape source) root = before ++ .refer place n :: after)
    (hd : Resolves (declarations source before) (enclosing root place) (spelling source n) d)
    (hw : d.DeclaredWithin root path) : spelling source n ≠ new.symbol.name := by
  have hfile : d ∈ declarations source (walk (shape source) root) := by
    rw [he]; exact declarations_subset_append _ _ _ hd.mem
  rw [← hd.name_eq]
  exact second?_ne_declared h hfile hw

theorem second?_not_mem_before
    (h : second? (Model.build source root) root suggester withLocal count path = some new)
    (he : walk (shape source) root = before ++ .refer place n :: after) :
    new ∉ declarations source before :=
  second?_not_mem (by rw [he]; exact List.subset_append_left ..) h

/-- An identifier is captured iff it stands in the procedure, is spelled like the new parameter and
is not bound inside the procedure. -/
theorem captured_iff
    (h : second? (Model.build source root) root suggester withLocal count path = some new)
    (he : walk (shape source) root = before ++ .refer place n :: after) :
    Resolves (new :: declarations source before) (enclosing root place) (spelling source n) new ↔
      path <:+ place ∧ spelling source n = new.symbol.name ∧
        ∀ d, Resolves (declarations source before) (enclosing root place) (spelling source n) d →
          ¬ d.scope.Below path := by
  obtain ⟨m, hm, ho⟩ := second?_opens h
  have hscope := scope_of_second? h
  have hnew := second?_not_mem_before h he
  constructor
  · intro hr
    have hp : path.Encloses place := mem_enclosing (hscope ▸ hr.mem_scopes)
    exact ⟨hp.1, (resolves_new_iff hm ho hp hscope hnew).1 hr⟩
  · rintro ⟨hp, hr⟩
    -- A procedure is no identifier, so the identifier stands strictly inside it.
    have hne : path ≠ place := by
      rintro rfl
      obtain ⟨hn, hk⟩ := refer_of_split he
      cases hm.symm.trans hn
      rw [hk] at ho
      exact absurd ho (by decide)
    exact (resolves_new_iff hm ho ⟨hp, hne⟩ hscope hnew).2 hr

end

/-- **What a new parameter captures.** For every procedure with exactly one parameter, at whichever
place it stands: an identifier that is bound inside the procedure is not spelled like the new
parameter; an identifier is captured iff it stands in the procedure, is spelled like the new
parameter and is not bound inside the procedure; if not captured, it keeps its meaning. -/
theorem second_parameter_captures_iff (source : Text) (root : Node) (suggester : Suggester)
    (withLocal : Bool) (count : Nat) (p : Procedure) (parameter : Parameter)
    (hp : p ∈ Procedure.list source root withLocal) (hone : p.parameters = [parameter]) :
    (∃ path, Procedure.at? source root withLocal path = some p) ∧
    ∀ path, Procedure.at? source root withLocal path = some p →
      ∀ before place n after, walk (shape source) root = before ++ .refer place n :: after →
        let new := second (Model.build source root) suggester count path p parameter
        let ds := declarations source before
        let scopes := enclosing root place
        let name := spelling source n
        (∀ d, Resolves ds scopes name d → d.DeclaredWithin root path →
          name ≠ new.symbol.name) ∧
        (Resolves (new :: ds) scopes name new ↔
          path <:+ place ∧ name = new.symbol.name ∧
            ∀ d, Resolves ds scopes name d → ¬ d.scope.Below path) ∧
        (¬ Resolves (new :: ds) scopes name new →
          ∀ d, Resolves (new :: ds) scopes name d ↔ Resolves ds scopes name d) := by
  refine ⟨Procedure.mem_list_iff.1 hp, fun path hpath before place n after he => ?_⟩
  have h : second? (Model.build source root) root suggester withLocal count path =
      some (second (Model.build source root) suggester count path p parameter) :=
    second?_eq_some_iff.2 ⟨p, parameter, hpath, hone, rfl⟩
  obtain ⟨m, hm, ho⟩ := second?_opens h
  exact ⟨fun d hd hw => spelling_ne_second h he hd hw, captured_iff h he, fun hr d =>
    resolves_cons_of_not_captured hm ho rfl (second?_not_mem_before h he) hr⟩

/-- The suggester that proposes one name for every parameter. -/
def always (name : String) : Suggester where
  name := "always"
  suggest _ _ _ _ _ := [name]

/-- In `int P(int a) { int Q(int b) { return a + b; } }` the name `a` may be proposed for `Q`, where
it captures the parameter of `P`. -/
theorem outer_parameter_captured :
    ∃ p ∈ Procedure.list nestedSource nestedTree true, ∃ parameter,
      p.parameters = [parameter] ∧
      ∃ before place n after,
        walk (shape nestedSource) nestedTree = before ++ .refer place n :: after ∧
        Refers nestedSource nestedTree (walk (shape nestedSource) nestedTree) n.span.start 10 ∧
        let new := second (Model.build nestedSource nestedTree) (always "a") 1 [1, 3, 0, 0] p
          parameter
        Resolves (new :: declarations nestedSource before) (enclosing nestedTree place)
          (spelling nestedSource n) new := by
  have hnew : second? (Model.build nestedSource nestedTree) nestedTree (always "a") true 1
      [1, 3, 0, 0] = some ⟨.node [1, 3, 0, 0], ⟨26, "a", .parameter⟩⟩ := by decide +kernel
  have hex : ∃ k < (walk (shape nestedSource) nestedTree).length,
      referenceAt (fun before place n => [1, 3, 0, 0] <:+ place ∧
        spelling nestedSource n = "a" ∧ resolve (declarations nestedSource before)
          (enclosing nestedTree place) (spelling nestedSource n) =
            some ⟨.node [0, 0], ⟨10, "a", .parameter⟩⟩)
        (walk (shape nestedSource) nestedTree) k = true := by decide +kernel
  obtain ⟨p, parameter, hpath, hone, hsecond⟩ := second?_eq_some_iff.1 hnew
  obtain ⟨before, place, n, after, he, ht⟩ := exists_referenceAt_iff.1 hex
  obtain ⟨hp, hn, hr⟩ := of_decide_eq_true ht
  have hr := resolves_iff_resolve.2 hr
  have hlist := Procedure.mem_list_iff.2 ⟨_, hpath⟩
  refine ⟨p, hlist, parameter, hone, before, place, n, after, he,
    ⟨before, place, n, after, _, he, rfl, hr, rfl⟩, ?_⟩
  refine ((second_parameter_captures_iff nestedSource nestedTree (always "a") true 1 p parameter
    hlist hone).2 _ hpath before place n after he).2.1.2 ⟨hp, ?_, fun d hd hbelow => ?_⟩
  · rw [hn, ← hsecond]
  · obtain ⟨inner, hs, hsuffix⟩ := hr.unique hd ▸ hbelow
    cases hs
    exact absurd hsuffix (by decide)

/-- `class C { int x2; int M(int x) => x + x2; }` -/
def fieldSource : Text := "class C \x7b int x2; int M(int x) => x + x2; \x7d".toList

def fieldTree : Node :=
  .ofRows [
    .named 0 "compilation_unit" none 0 43, .named 1 "class_declaration" none 0 43,
    .token 2 "class" 0, .named 2 "identifier" "name" 6 7,
    .named 2 "declaration_list" "body" 8 43, .token 3 "\x7b" 8,
    .named 3 "field_declaration" none 10 17, .named 4 "variable_declaration" none 10 16,
    .named 5 "predefined_type" "type" 10 13, .named 5 "variable_declarator" none 14 16,
    .named 6 "identifier" "name" 14 16, .token 4 ";" 16,
    .named 3 "method_declaration" none 18 41, .named 4 "predefined_type" "returns" 18 21,
    .named 4 "identifier" "name" 22 23, .named 4 "parameter_list" "parameters" 23 30,
    .token 5 "(" 23, .named 5 "parameter" none 24 29, .named 6 "predefined_type" "type" 24 27,
    .named 6 "identifier" "name" 28 29, .token 5 ")" 29,
    .named 4 "arrow_expression_clause" "body" 31 40, .token 5 "=>" 31,
    .named 5 "binary_expression" none 34 40, .named 6 "identifier" "left" 34 35,
    .token 6 "+" 36 "operator", .named 6 "identifier" "right" 38 40, .token 4 ";" 40,
    .token 3 "\x7d" 42]

/-- A field may be spelled like the new parameter, which then captures it. -/
theorem field_reference_captured :
    ¬ ∀ (source : Text) (root : Node) (suggester : Suggester) (withLocal : Bool) (count : Nat)
      (p : Procedure) (parameter : Parameter), p ∈ Procedure.list source root withLocal →
      p.parameters = [parameter] →
      ∀ path, Procedure.at? source root withLocal path = some p →
      ∀ before place n after, walk (shape source) root = before ++ .refer place n :: after →
        path <:+ place →
        (∀ d, Resolves (declarations source before) (enclosing root place) (spelling source n) d →
          ¬ d.scope.Below path) →
        spelling source n ≠
          Identifier.bare (newName (Model.build source root) suggester count p parameter) := by
  intro h
  have hnew : second? (Model.build fieldSource fieldTree) fieldTree .deterministic true 1
      [2, 2, 0] = some ⟨.node [2, 2, 0], ⟨29, "x2", .parameter⟩⟩ := by decide +kernel
  have hex : ∃ k < (walk (shape fieldSource) fieldTree).length,
      referenceAt (fun before place n => [2, 2, 0] <:+ place ∧ spelling fieldSource n = "x2" ∧
        resolve (declarations fieldSource before) (enclosing fieldTree place)
          (spelling fieldSource n) = none) (walk (shape fieldSource) fieldTree) k = true := by
    decide +kernel
  obtain ⟨p, parameter, hpath, hone, hsecond⟩ := second?_eq_some_iff.1 hnew
  obtain ⟨before, place, n, after, he, ht⟩ := exists_referenceAt_iff.1 hex
  obtain ⟨hp, hn, hr⟩ := of_decide_eq_true ht
  have hlist := Procedure.mem_list_iff.2 ⟨_, hpath⟩
  refine h fieldSource fieldTree .deterministic true 1 p parameter hlist hone _ hpath before place n
    after he hp (fun d hd => ?_) (hn.trans (congrArg (·.symbol.name) hsecond))
  rw [resolves_iff_resolve, hr] at hd
  cases hd

/-! ## Renamed references -/

/-- The symbol of the only parameter of the procedure at a place, and the statement that is
duplicated for it. -/
def duplicated? (m : Model) (root : Node) (withLocal : Bool) (path : Path) :
    Option (Nat × Node) := do
  let p ← Procedure.at? m.source root withLocal path
  match p.parameters with
  | [parameter] => located? m p parameter
  | _ => none

section
variable {root : Node} {suggester : Suggester} {withLocal : Bool} {count : Nat}
  {path place : Path} {new : Declaration}

theorem duplicated?_eq_some {m : Model} {symbol : Nat} {statement : Node}
    (h : duplicated? m root withLocal path = some (symbol, statement)) :
    ∃ p parameter, Procedure.at? m.source root withLocal path = some p ∧
      p.parameters = [parameter] ∧ located? m p parameter = some (symbol, statement) := by
  obtain ⟨p, hp, h⟩ := Option.bind_eq_some_iff.1 h
  split at h
  · rename_i parameter hone
    exact ⟨p, parameter, hp, hone, h⟩
  · cases h

/-- The second parameter of a procedure is the only one around a place in the scope of the
procedure. -/
theorem secondsAround_unique {m : Model} {e : Declaration}
    (h : second? m root suggester withLocal count path = some new)
    (he : e ∈ secondsAround m root suggester withLocal count place)
    (hs : e.scope = .node path) : e = new := by
  obtain ⟨outer, -, ho⟩ := mem_secondsAround.1 he
  cases (scope_of_second? ho).symm.trans hs
  exact Option.some.inj (ho.symm.trans h)

theorem mem_secondsAround_of_encloses {m : Model}
    (h : second? m root suggester withLocal count path = some new) (hp : path.Encloses place) :
    new ∈ secondsAround m root suggester withLocal count place := by
  obtain ⟨n, hn, ho⟩ := second?_opens h
  obtain ⟨inner, hsplit, -⟩ := enclosing_split hn ho hp
  exact mem_secondsAround.2 ⟨path, by rw [hsplit]; simp, h⟩

/-- The second parameters around a copy in scopes further in than the one of a procedure are those
of the procedures between the procedure and the copy. -/
theorem secondsAround_below_iff {m : Model} {inner : Path} {name : String}
    (hplace : inner <:+ place) :
    (∀ e ∈ secondsAround m root suggester withLocal count inner,
      e.scope ∈ enclosing root place → e.scope.Below path → e.scope ≠ .node path →
        e.symbol.name ≠ name) ↔
      ∀ between other, path.Encloses between → between.Encloses inner →
        second? m root suggester withLocal count between = some other →
        other.symbol.name ≠ name := by
  constructor
  · intro h between other hbetween hinner hother
    have hscope := scope_of_second? hother
    obtain ⟨x, hx, hxo⟩ := second?_opens hother
    obtain ⟨front, hsplit, -⟩ := enclosing_split hx hxo (hinner.trans_suffix hplace)
    refine h other (mem_secondsAround_of_encloses hother hinner) ?_ ?_ ?_
    · rw [hscope, hsplit]; simp
    · exact ⟨between, hscope, hbetween.1⟩
    · rw [hscope]
      intro he
      cases he
      exact hbetween.2 rfl
  · intro h e he _ hbelow hne
    obtain ⟨between, hmem, hother⟩ := mem_secondsAround.1 he
    obtain ⟨outer, hs, hsuffix⟩ := hbelow
    cases (scope_of_second? hother).symm.trans hs
    refine h between e ⟨hsuffix, ?_⟩ (mem_enclosing hmem) hother
    rintro rfl
    exact hne hs

/-- The statement that is duplicated stands strictly inside the procedure. -/
theorem exists_statement_place {m : Model} {symbol : Nat} {statement : Node}
    (h : duplicated? m root withLocal path = some (symbol, statement)) :
    ∃ inner, path.Encloses inner ∧ root.at? inner = some statement := by
  obtain ⟨p, parameter, hp, -, hs⟩ := duplicated?_eq_some h
  obtain ⟨body, hb, hs⟩ := Usage.mem_of_locate? (located?_eq_some_iff.1 hs).2
  obtain ⟨k, hk⟩ := List.mem_iff_getElem?.1 (Procedure.body_of_at? hp hb)
  have hbody : root.at? (k :: path) = some body := by
    rw [Node.at?_child (Procedure.node_of_at? hp).1, hk]
  obtain ⟨front, hf⟩ := Node.mem_preorder_iff.1 hs
  refine ⟨front ++ k :: path, Path.encloses_of_child (List.suffix_append ..), ?_⟩
  rw [Node.at?_append, hbody, Option.bind_some, hf]

end

/-- **When a renamed reference keeps its parameter.** The copy of a statement stands behind the
statement, inside the procedures around it with their second parameters. There the new name of a
procedure, which nothing declared at an identifier of the procedure has, resolves to its second
parameter iff it is not bound inside the procedure already and no procedure between the procedure
and the copy has been given the same name. -/
theorem renamed_reference_resolves_iff (source : Text) (root : Node) (suggester : Suggester)
    (withLocal : Bool) (count : Nat) (path : Path) (symbol : Nat) (statement : Node)
    (second : Declaration)
    (hstatement : duplicated? (Model.build source root) root withLocal path =
      some (symbol, statement))
    (hsecond : second? (Model.build source root) root suggester withLocal count path =
      some second) :
    let m := Model.build source root
    let file := declarations source (walk (shape source) root)
    (∀ p parameter name, Procedure.at? source root withLocal path = some p →
      p.parameters = [parameter] →
      usageEdit? m p parameter name = (Usage.renamed? m statement name symbol).bind fun copy =>
        (Usage.insertAfter? source statement.span copy).map some) ∧
    (∃ inner, path.Encloses inner ∧ root.at? inner = some statement) ∧
    (∀ d ∈ file, d.DeclaredWithin root path → d.symbol.name ≠ second.symbol.name) ∧
    ∀ inner, path.Encloses inner → root.at? inner = some statement →
      ∀ place n, inner <:+ place → root.at? place = some n → m.reference? n = some symbol →
      ∀ ds ⊆ file,
        (Resolves (secondsAround m root suggester withLocal count inner ++ ds)
          (enclosing root place) second.symbol.name second ↔
          (∀ d, Resolves ds (enclosing root place) second.symbol.name d → ¬ d.scope.Below path) ∧
          ∀ between other, path.Encloses between → between.Encloses inner →
            second? m root suggester withLocal count between = some other →
            other.symbol.name ≠ second.symbol.name) := by
  intro m file
  refine ⟨fun p parameter name hp hone => ?_, exists_statement_place hstatement,
    fun d hd hw => second?_ne_declared hsecond hd hw,
    fun inner hin _ place n hplace _ _ ds hds => ?_⟩
  · obtain ⟨p', parameter', hp', hone', hlocated⟩ := duplicated?_eq_some hstatement
    cases hp.symm.trans hp'
    cases hone.symm.trans hone'
    exact usageEdit?_of_located? hlocated name
  · obtain ⟨node, hnode, ho⟩ := second?_opens hsecond
    have hnew : second ∉ ds := fun h => second?_not_mem (List.Subset.refl _) hsecond (hds h)
    rw [resolves_front_iff hnode ho (hin.trans_suffix hplace) (scope_of_second? hsecond) hnew
      (mem_secondsAround_of_encloses hsecond hin)
      fun e he hs => secondsAround_unique hsecond he hs,
      secondsAround_below_iff hplace]
    exact and_iff_right rfl

/-- In `int P(int a) { int Q(int b) { return a + b; } }` the statement duplicated for `P` stands in
`Q`. -/
theorem nested_statement :
    ∃ statement, nestedTree.at? [1, 3, 1, 3, 0, 0] = some statement ∧
      duplicated? (Model.build nestedSource nestedTree) nestedTree true [0, 0] =
        some (10, statement) := by
  obtain ⟨statement, hs⟩ : ∃ s, nestedTree.at? [1, 3, 1, 3, 0, 0] = some s :=
    Option.isSome_iff_exists.1 (by decide +kernel)
  have hd : duplicated? (Model.build nestedSource nestedTree) nestedTree true [0, 0] =
      (nestedTree.at? [1, 3, 1, 3, 0, 0]).map (10, ·) := by decide +kernel
  rw [hs] at hd
  exact ⟨statement, hs, hd⟩

/-- The names `a2` and `b2` keep apart. -/
theorem nested_reference_renamed :
    ∃ statement second,
      duplicated? (Model.build nestedSource nestedTree) nestedTree true [0, 0] =
        some (10, statement) ∧
      second? (Model.build nestedSource nestedTree) nestedTree .deterministic true 1 [0, 0] =
        some second ∧
      ∀ between other, Path.Encloses [0, 0] between → between.Encloses [1, 3, 1, 3, 0, 0] →
        second? (Model.build nestedSource nestedTree) nestedTree .deterministic true 1 between =
          some other → other.symbol.name ≠ second.symbol.name := by
  obtain ⟨statement, hs, hd⟩ := nested_statement
  obtain ⟨n, hn⟩ : ∃ n, nestedTree.at? [0, 1, 1, 3, 1, 3, 0, 0] = some n :=
    Option.isSome_iff_exists.1 (by decide +kernel)
  have hsecond : second? (Model.build nestedSource nestedTree) nestedTree .deterministic true 1
      [0, 0] = some ⟨.node [0, 0], ⟨11, "a2", .parameter⟩⟩ := by decide +kernel
  have hr : (nestedTree.at? [0, 1, 1, 3, 1, 3, 0, 0]).bind
      (Model.build nestedSource nestedTree).reference? = some 10 := by decide +kernel
  rw [hn] at hr
  refine ⟨statement, _, hd, hsecond, ?_⟩
  have h := (renamed_reference_resolves_iff nestedSource nestedTree .deterministic true 1 [0, 0] 10
    statement _ hd hsecond).2.2.2 [1, 3, 1, 3, 0, 0] (by decide) hs [0, 1, 1, 3, 1, 3, 0, 0] n
    (by decide) hn hr _ (List.Subset.refl _)
  exact (h.1 (by decide +kernel)).2

/-- The names chosen for a procedure and for a local function around the copy may be the same. -/
theorem nested_names_clash :
    ¬ ∀ (source : Text) (root : Node) (suggester : Suggester) (withLocal : Bool) (count : Nat)
      (path between inner : Path) (symbol : Nat) (statement : Node) (second other : Declaration),
      duplicated? (Model.build source root) root withLocal path = some (symbol, statement) →
      root.at? inner = some statement →
      second? (Model.build source root) root suggester withLocal count path = some second →
      second? (Model.build source root) root suggester withLocal count between = some other →
      path.Encloses between → between.Encloses inner →
      other.symbol.name ≠ second.symbol.name := by
  intro h
  obtain ⟨statement, hs, hd⟩ := nested_statement
  have hp : second? (Model.build nestedSource nestedTree) nestedTree (always "z") true 1 [0, 0] =
      some ⟨.node [0, 0], ⟨11, "z", .parameter⟩⟩ := by decide +kernel
  have hq : second? (Model.build nestedSource nestedTree) nestedTree (always "z") true 1
      [1, 3, 0, 0] = some ⟨.node [1, 3, 0, 0], ⟨26, "z", .parameter⟩⟩ := by decide +kernel
  exact h _ _ _ _ _ _ _ _ _ _ _ _ hd hs hp hq (by decide) (by decide) rfl

end Plan
end ParamTwin
