import ParamTwin.Proofs.LexicalScope
import ParamTwin.Proofs.ParameterGroups
import Mathlib.Data.List.Induction
import Mathlib.Data.List.Nodup

/-!
# Facts about lexical scoping

* `resolves_iff_resolve`: resolution is a search from the inside out, and computable.
* `enclosing_of_suffix`: the scopes around a place inside a node are scopes at or below the node and
  then the scopes around the node.
* `mem_events`: every event of the walk is contributed by one node (`Contributes`): a name declared
  in the scope around it or inside it, or a child in reference position.
* `names_of_outside`, `names_of_inner`: how a node names what it declares (`Names`), and that
  parameters are declared on entry.
* `refer_of_mem_walk`, `referred_events`: references are identifiers, met in document order.
-/

namespace ParamTwin.Lexical

/-! ## Resolution -/

section
variable {ds : List Declaration} {scope : ScopeId} {scopes : List ScopeId} {name : String}
  {d e : Declaration}

/-- Whether a declaration is one of a name in a scope. -/
def Declaration.declares (scope : ScopeId) (name : String) (d : Declaration) : Bool :=
  decide (d.scope = scope ∧ d.symbol.name = name)

theorem declares_iff :
    d.declares scope name = true ↔ d.scope = scope ∧ d.symbol.name = name :=
  decide_eq_true_iff

/-- The most recent declaration is the first one found from the end. -/
theorem latest_iff_find? :
    Latest ds scope name d ↔ ds.reverse.find? (·.declares scope name) = some d := by
  simp only [List.find?_eq_some_iff_append, Bool.not_eq_true', ← Bool.not_eq_true, declares_iff]
  constructor
  · rintro ⟨hs, hn, earlier, later, rfl, hl⟩
    exact ⟨⟨hs, hn⟩, later.reverse, earlier.reverse, by simp, fun e he =>
      hl e (List.mem_reverse.1 he)⟩
  · rintro ⟨⟨hs, hn⟩, later, earlier, h, hl⟩
    refine ⟨hs, hn, earlier.reverse, later.reverse, ?_, fun e he => hl e (List.mem_reverse.1 he)⟩
    rw [← List.reverse_reverse ds, h]; simp

theorem latest_singleton :
    Latest [e] scope name d ↔ d = e ∧ e.scope = scope ∧ e.symbol.name = name := by
  rw [latest_iff_find?]
  by_cases h : e.scope = scope ∧ e.symbol.name = name
  · simp [declares_iff.2 h, h, eq_comm]
  · simp [mt declares_iff.1 h, h]

/-- Later declarations go first. -/
theorem latest_append {earlier later : List Declaration} :
    Latest (earlier ++ later) scope name d ↔ Latest later scope name d ∨
      (∀ e ∈ later, ¬ (e.scope = scope ∧ e.symbol.name = name)) ∧ Latest earlier scope name d := by
  simp only [latest_iff_find?, List.reverse_append, List.find?_append, Option.or_eq_some_iff,
    List.find?_eq_none, List.mem_reverse, declares_iff]

theorem Latest.mem (h : Latest ds scope name d) : d ∈ ds :=
  List.mem_reverse.1 (List.mem_of_find?_eq_some (latest_iff_find?.1 h))

theorem exists_latest (h : e ∈ ds) (hs : e.scope = scope) (hn : e.symbol.name = name) :
    ∃ d, Latest ds scope name d := by
  simp only [latest_iff_find?]
  rw [← Option.isSome_iff_exists, List.find?_isSome]
  exact ⟨e, List.mem_reverse.2 h, declares_iff.2 ⟨hs, hn⟩⟩

theorem resolves_cons_iff : Resolves ds (scope :: scopes) name d ↔
    Latest ds scope name d ∨
      (∀ e ∈ ds, ¬ (e.scope = scope ∧ e.symbol.name = name)) ∧ Resolves ds scopes name d := by
  constructor
  · rintro ⟨inner, s, outer, h, hl, hi⟩
    rcases inner with _ | ⟨t, inner⟩
    · cases h; exact .inl hl
    · cases h
      exact .inr ⟨hi _ (.head _), inner, s, outer, rfl, hl, fun s hs => hi s (.tail _ hs)⟩
  · rintro (hl | ⟨hn, inner, s, outer, rfl, hl, hi⟩)
    · exact ⟨[], scope, scopes, rfl, hl, by simp⟩
    · exact ⟨scope :: inner, s, outer, rfl, hl, List.forall_mem_cons.2 ⟨hn, hi⟩⟩

/-- The declaration that a name resolves to. -/
def resolve (ds : List Declaration) (scopes : List ScopeId) (name : String) :
    Option Declaration :=
  scopes.findSome? fun scope => ds.reverse.find? (·.declares scope name)

theorem resolves_iff_resolve : Resolves ds scopes name d ↔ resolve ds scopes name = some d := by
  induction scopes with
  | nil => simp [Resolves, resolve]
  | cons scope scopes ih =>
    rw [resolves_cons_iff, ih, latest_iff_find?, resolve, resolve, List.findSome?_cons]
    cases hf : ds.reverse.find? (·.declares scope name) with
    | none =>
      have hn : ∀ e ∈ ds, ¬ (e.scope = scope ∧ e.symbol.name = name) := fun e he => by
        rw [← declares_iff]
        exact List.find?_eq_none.1 hf e (List.mem_reverse.2 he)
      simp only [reduceCtorEq, false_or, and_iff_right hn]
    | some e =>
      have hn : ¬ ∀ e ∈ ds, ¬ (e.scope = scope ∧ e.symbol.name = name) := fun hn =>
        hn e (latest_iff_find?.2 hf).mem (declares_iff.1 (List.find?_some hf))
      simp only [hn, false_and, or_false]

instance (ds : List Declaration) (scopes : List ScopeId) (name : String) (d : Declaration) :
    Decidable (Resolves ds scopes name d) :=
  decidable_of_iff _ resolves_iff_resolve.symm

theorem Resolves.unique (hd : Resolves ds scopes name d) (he : Resolves ds scopes name e) :
    d = e :=
  Option.some.inj ((resolves_iff_resolve.1 hd).symm.trans (resolves_iff_resolve.1 he))

theorem Resolves.mem_scopes (h : Resolves ds scopes name d) : d.scope ∈ scopes := by
  obtain ⟨inner, scope, outer, rfl, ⟨rfl, -⟩, -⟩ := h
  simp

theorem Resolves.mem (h : Resolves ds scopes name d) : d ∈ ds := by
  obtain ⟨inner, scope, outer, rfl, hl, -⟩ := h
  exact hl.mem

theorem Resolves.name_eq (h : Resolves ds scopes name d) : d.symbol.name = name := by
  obtain ⟨inner, scope, outer, rfl, ⟨-, hn, -⟩, -⟩ := h
  exact hn

end

/-! ## Scopes around a place -/

/-- A scope lies at or below a place. -/
def ScopeId.Below (path : Path) (scope : ScopeId) : Prop :=
  ∃ inner, scope = .node inner ∧ path <:+ inner

/-- A scope lies below one child only. -/
theorem ScopeId.Below.index_unique {j k : Nat} {path : Path} {scope : ScopeId}
    (hj : scope.Below (j :: path)) (hk : scope.Below (k :: path)) : j = k := by
  obtain ⟨inner, rfl, hj⟩ := hj
  obtain ⟨inner', he, hk⟩ := hk
  cases he
  exact Path.index_unique hj hk

theorem ScopeId.Below.trans {path path' : Path} {scope : ScopeId} (h : scope.Below path')
    (hs : path <:+ path') : scope.Below path := by
  obtain ⟨inner, rfl, hi⟩ := h
  exact ⟨inner, rfl, hs.trans hi⟩

theorem enclosing_child {root n : Node} {path : Path} (h : root.at? path = some n) (k : Nat) :
    enclosing root (k :: path) =
      if (Construct.ofKind n.kind).opensScope then .node path :: enclosing root path
      else enclosing root path := by
  rw [enclosing, h]; rfl

/-- The innermost scope around the children of a node. -/
theorem enclosing_inside {root n : Node} {path : Path} {scope : ScopeId} {outer : List ScopeId}
    (hn : root.at? path = some n) (hs : enclosing root path = scope :: outer) (k : Nat) :
    ∃ outer', enclosing root (k :: path) = scopeInside n.kind path scope :: outer' := by
  rw [enclosing_child hn, scopeInside, hs]
  split
  · exact ⟨_, rfl⟩
  · exact ⟨_, rfl⟩

/-- The scopes around a place inside a node are scopes at or below the node, and then the scopes
around the node. -/
theorem enclosing_of_suffix (root : Node) {path place : Path} (h : path <:+ place) :
    ∃ inner, enclosing root place = inner ++ enclosing root path ∧ ∀ s ∈ inner, s.Below path := by
  obtain ⟨front, rfl⟩ := h
  induction front with
  | nil => exact ⟨[], rfl, by simp⟩
  | cons k front ih =>
    obtain ⟨inner, he, hb⟩ := ih
    rw [List.cons_append, enclosing, he]
    split
    · refine ⟨.node (front ++ path) :: inner, rfl, List.forall_mem_cons.2 ⟨?_, hb⟩⟩
      exact ⟨_, rfl, List.suffix_append front path⟩
    · exact ⟨inner, rfl, hb⟩

/-- The scopes around a place inside a node that opens one: scopes below the node, its own, and the
scopes around it. -/
theorem enclosing_split {root n : Node} {path place : Path} (hn : root.at? path = some n)
    (ho : (Construct.ofKind n.kind).opensScope = true) (h : path.Encloses place) :
    ∃ inner, enclosing root place = inner ++ .node path :: enclosing root path ∧
      ∀ s ∈ inner, s.Below path := by
  obtain ⟨k, hk⟩ := h.exists_child
  obtain ⟨inner, he, hb⟩ := enclosing_of_suffix root hk
  rw [enclosing_child hn, if_pos ho] at he
  exact ⟨inner, he, fun s hs => (hb s hs).trans (List.suffix_cons k path)⟩

/-- A scope around a place belongs to the file or to a node strictly around the place. -/
theorem mem_enclosing {root : Node} {path outer : Path} (h : .node outer ∈ enclosing root path) :
    outer.Encloses path := by
  induction path with
  | nil => simp [enclosing] at h
  | cons k path ih =>
    have hc : outer = path ∨ .node outer ∈ enclosing root path := by
      rw [enclosing] at h
      split at h
      · simpa using h
      · exact .inr h
    rcases hc with rfl | h
    · exact Path.encloses_of_child List.suffix_rfl
    · exact (ih h).trans_suffix (List.suffix_cons k path)

/-- A scope around a place is opened by the node it belongs to. -/
theorem opens_of_mem_enclosing {root : Node} {path outer : Path}
    (h : .node outer ∈ enclosing root path) :
    ∃ m, root.at? outer = some m ∧ (Construct.ofKind m.kind).opensScope = true := by
  induction path with
  | nil => simp [enclosing] at h
  | cons k path ih =>
    rw [enclosing] at h
    split at h
    · rename_i ho
      rcases List.mem_cons.1 h with he | h
      · cases he
        exact (Option.any_eq_true _ _).1 ho
      · exact ih h
    · exact ih h

theorem not_below_of_mem_enclosing {root : Node} {path : Path} {scope : ScopeId}
    (h : scope ∈ enclosing root path) : ¬ scope.Below path := by
  rintro ⟨inner, rfl, hs⟩
  obtain ⟨hs', hne⟩ := mem_enclosing h
  exact hne (hs'.eq_of_length_le hs.length_le)

theorem enclosing_nodup (root : Node) (path : Path) : (enclosing root path).Nodup := by
  induction path with
  | nil => simp [enclosing]
  | cons k path ih =>
    rw [enclosing]
    split
    · exact List.nodup_cons.2 ⟨fun h => (mem_enclosing h).2 rfl, ih⟩
    · exact ih

/-! ## What a node contributes -/

/-- The names that a node declares in the innermost scope inside it. -/
def Shape.inner (s : Shape) : List Binding :=
  s.entry ++ s.last ++ s.roles.flatMap fun
    | .designates bindings => bindings
    | _ => []

theorem Shape.mem_inner {s : Shape} {x : Binding} :
    x ∈ s.inner ↔ x ∈ s.entry ∨ x ∈ s.last ∨ ∃ xs, .designates xs ∈ s.roles ∧ x ∈ xs := by
  simp only [Shape.inner, List.mem_append, List.mem_flatMap, or_assoc]
  refine or_congr_right (or_congr_right ⟨?_, ?_⟩)
  · rintro ⟨role, hr, hx⟩
    cases role with
    | designates xs => exact ⟨xs, hr, hx⟩
    | _ => simp at hx
  · rintro ⟨xs, hr, hx⟩
    exact ⟨_, hr, hx⟩

/-- The events that a node at a place contributes itself, apart from those of its children. -/
inductive Contributes (s : Shape) (scope : ScopeId) (path : Path) (n : Node) : Event → Prop
  | outside {x : Binding} : x ∈ s.outside → Contributes s scope path n (.declare scope x)
  | inner {x : Binding} : x ∈ s.inner →
      Contributes s scope path n (.declare (scopeInside n.kind path scope) x)
  | child {k : Nat} {c : Node} : s.roles[k]? = some .reference → n.children[k]? = some c →
      Contributes s scope path n (.refer (k :: path) c)

theorem events_eq (shape : List String → Node → Shape) (scope : ScopeId) (path : Path)
    (around : List String) (n : Node) :
    events shape scope path around n =
      let s := shape around n
      let own := scopeInside n.kind path scope
      declareIn scope s.outside ++ declareIn own s.entry ++
        eventsAmong shape own path 0 (n.kind :: around) s.roles n.children ++
        declareIn own s.last := by
  cases n; rw [events]

theorem eventsAmong_cons (shape : List String → Node → Shape) (scope : ScopeId) (path : Path)
    (k : Nat) (around : List String) (role : Role) (roles : List Role) (n : Node)
    (ns : List Node) :
    eventsAmong shape scope path k around (role :: roles) (n :: ns) =
      (match role with
       | .passed => []
       | .walked => events shape scope (k :: path) around n
       | .reference => [.refer (k :: path) n]
       | .designates bindings => declareIn scope bindings) ++
        eventsAmong shape scope path (k + 1) around roles ns := by
  cases role <;> rfl

theorem mem_declareIn {scope : ScopeId} {xs : List Binding} {e : Event} :
    e ∈ declareIn scope xs ↔ ∃ x ∈ xs, e = .declare scope x := by
  simp [declareIn, eq_comm]

/-- An event of the walk over children comes from one of them, by its role. -/
theorem mem_eventsAmong {shape : List String → Node → Shape} {scope : ScopeId} {path : Path}
    {k : Nat} {around : List String} {roles : List Role} {ns : List Node} {e : Event}
    (h : e ∈ eventsAmong shape scope path k around roles ns) :
    ∃ (j : Nat) (role : Role) (c : Node), roles[j]? = some role ∧ ns[j]? = some c ∧
      (role = .walked ∧ e ∈ events shape scope ((k + j) :: path) around c ∨
        role = .reference ∧ e = .refer ((k + j) :: path) c ∨
        ∃ xs, role = .designates xs ∧ e ∈ declareIn scope xs) := by
  induction ns generalizing k roles with
  | nil => cases roles <;> simp [eventsAmong] at h
  | cons n ns ih =>
    cases roles with
    | nil => simp [eventsAmong] at h
    | cons role roles =>
      rw [eventsAmong_cons, List.mem_append] at h
      rcases h with h | h
      · refine ⟨0, role, n, rfl, rfl, ?_⟩
        cases role with
        | passed => simp at h
        | walked => exact .inl ⟨rfl, h⟩
        | reference => exact .inr (.inl ⟨rfl, by simpa using h⟩)
        | designates xs => exact .inr (.inr ⟨xs, rfl, h⟩)
      · obtain ⟨j, role', c, hr, hc, hj⟩ := ih h
        rw [Nat.add_right_comm] at hj
        exact ⟨j + 1, role', c, hr, hc, hj⟩

/-- **Every event of the walk over a node is contributed by a node at or below it.** -/
theorem mem_events {shape : List String → Node → Shape} {root n : Node} {scope : ScopeId}
    {outer : List ScopeId} {path : Path} {around : List String} {e : Event}
    (hn : root.at? path = some n) (hs : enclosing root path = scope :: outer)
    (h : e ∈ events shape scope path around n) :
    ∃ place m around' scope' outer', path <:+ place ∧ root.at? place = some m ∧
      enclosing root place = scope' :: outer' ∧
      Contributes (shape around' m) scope' place m e := by
  induction n using Node.induction generalizing path around scope outer with
  | step n ih =>
    simp only [events_eq, List.mem_append, mem_declareIn] at h
    rcases h with ((⟨x, hx, rfl⟩ | ⟨x, hx, rfl⟩) | h) | ⟨x, hx, rfl⟩
    · exact ⟨path, n, around, scope, outer, List.suffix_rfl, hn, hs, .outside hx⟩
    · exact ⟨path, n, around, scope, outer, List.suffix_rfl, hn, hs,
        .inner (by simp [Shape.mem_inner, hx])⟩
    · obtain ⟨j, role, c, hr, hc, hj⟩ := mem_eventsAmong h
      rw [Nat.zero_add] at hj
      rcases hj with ⟨rfl, hw⟩ | ⟨rfl, rfl⟩ | ⟨xs, rfl, hx⟩
      · -- The scope inside the node is the innermost one around the child.
        obtain ⟨outer', hs'⟩ := enclosing_inside hn hs j
        obtain ⟨place, m, around', scope', outer'', hp, hm⟩ :=
          ih c (List.mem_of_getElem? hc) (by rw [Node.at?_child hn, hc]) hs' hw
        exact ⟨place, m, around', scope', outer'', (List.suffix_cons j path).trans hp, hm⟩
      · exact ⟨path, n, around, scope, outer, List.suffix_rfl, hn, hs, .child hr hc⟩
      · obtain ⟨x, hx', rfl⟩ := mem_declareIn.1 hx
        refine ⟨path, n, around, scope, outer, List.suffix_rfl, hn, hs, .inner ?_⟩
        exact Shape.mem_inner.2 (.inr (.inr ⟨xs, List.mem_of_getElem? hr, hx'⟩))
    · exact ⟨path, n, around, scope, outer, List.suffix_rfl, hn, hs,
        .inner (by simp [Shape.mem_inner, hx])⟩

/-- The walk over a node declares in the scope around it and in scopes at or below it. -/
theorem scope_of_mem_events {shape : List String → Node → Shape} {root n : Node}
    {scope s : ScopeId} {outer : List ScopeId} {path : Path} {around : List String} {x : Binding}
    (hn : root.at? path = some n) (hs : enclosing root path = scope :: outer)
    (h : .declare s x ∈ events shape scope path around n) : s = scope ∨ s.Below path := by
  obtain ⟨place, m, around', scope', outer', hp, hm, hs', hc⟩ := mem_events hn hs h
  have hscope : scope' = scope ∨ scope'.Below path := by
    obtain ⟨inner, he, hb⟩ := enclosing_of_suffix root hp
    rw [hs', hs] at he
    rcases inner with _ | ⟨t, inner⟩
    · cases he; exact .inl rfl
    · cases he; exact .inr (hb _ (.head _))
  cases hc with
  | outside _ => exact hscope
  | inner _ =>
    rw [scopeInside]
    split
    · exact .inr ⟨place, rfl, hp⟩
    · exact hscope

/-! ## The names of the shapes -/

theorem mem_of_mem_bindAll {kind : SymbolKind} {names : List Node} {x : Binding}
    (h : x ∈ bindAll kind names) : x.kind = kind ∧ x.name ∈ names := by
  obtain ⟨n, hn, rfl⟩ := List.mem_map.1 h
  exact ⟨rfl, hn⟩

theorem exists_of_designatedNamed {ns : List Node} {x : Node} (h : x ∈ designatedNamed ns) :
    ∃ n ∈ ns, x ∈ designated n := by
  induction ns with
  | nil => simp [designatedNamed] at h
  | cons n ns ih =>
    rw [designatedNamed] at h
    rcases List.mem_append.1 h with h | h
    · split at h
      · exact ⟨n, .head _, h⟩
      · simp at h
    · obtain ⟨m, hm, hx⟩ := ih h
      exact ⟨m, .tail _ hm, hx⟩

theorem exists_of_designatedName {ns : List Node} {x : Node} (h : x ∈ designatedName ns) :
    ∃ n ∈ ns, x ∈ designated n := by
  induction ns with
  | nil => simp [designatedName] at h
  | cons n ns ih =>
    rw [designatedName] at h
    split at h
    · exact ⟨n, .head _, h⟩
    · obtain ⟨m, hm, hx⟩ := ih h
      exact ⟨m, .tail _ hm, hx⟩

/-- The kinds of the nodes that hold designations. -/
def designationKinds : List String :=
  ["parenthesized_variable_designation", "tuple_pattern", "tuple_expression", "argument",
   "declaration_expression"]

/-- A designation is a name, or it holds designations. -/
theorem designated_cases {n x : Node} (h : x ∈ designated n) :
    x = n ∧ Kind.isDeclaringName n.kind = true ∨
      n.kind ∈ designationKinds ∧ ∃ c ∈ n.children, x ∈ designated c := by
  obtain ⟨row, kind, field, marks, span, children⟩ := n
  rw [designated] at h
  split at h
  · rename_i hk
    exact .inl ⟨List.mem_singleton.1 h, hk⟩
  · split at h
    · rename_i hk
      refine .inr ⟨?_, exists_of_designatedNamed h⟩
      exact List.mem_append_left ["declaration_expression"] (List.contains_iff_mem.1 hk)
    · split at h
      · rename_i hk
        refine .inr ⟨?_, exists_of_designatedName h⟩
        simp [designationKinds, eq_of_beq hk]
      · simp at h

/-- What is designated are names in the designation. -/
theorem mem_of_designated {n x : Node} (h : x ∈ designated n) :
    x ∈ n.preorder ∧ Kind.isDeclaringName x.kind = true := by
  induction n using Node.induction with
  | step n ih =>
    rcases designated_cases h with ⟨rfl, hk⟩ | ⟨-, c, hc, hx⟩
    · exact ⟨Node.self_mem_preorder x, hk⟩
    · obtain ⟨hmem, hk⟩ := ih c hc hx
      exact ⟨Node.mem_preorder.2 (.inr ⟨c, hc, hmem⟩), hk⟩

/-- A designated name is the designation, or it stands directly in a node that holds
designations. -/
theorem parent_of_designated {n x : Node} (h : x ∈ designated n) :
    x = n ∨ ∃ d ∈ n.preorder, x ∈ d.children ∧ d.kind ∈ designationKinds := by
  induction n using Node.induction with
  | step n ih =>
    rcases designated_cases h with ⟨rfl, -⟩ | ⟨hk, c, hc, hx⟩
    · exact .inl rfl
    · rcases ih c hc hx with rfl | ⟨d, hd, hparent⟩
      · exact .inr ⟨n, Node.self_mem_preorder n, hc, hk⟩
      · exact .inr ⟨d, Node.mem_preorder.2 (.inr ⟨c, hc, hd⟩), hparent⟩

theorem function_of_hoistedAmong {ns : List Node} {x : Node} (ih : ∀ n ∈ ns, x ∈ hoisted n →
      ∃ f ∈ n.preorder, f.kind = "local_function_statement" ∧ f.child? "name" = some x)
    (h : x ∈ hoistedAmong ns) : ∃ f ∈ Node.preorderAll ns,
      f.kind = "local_function_statement" ∧ f.child? "name" = some x := by
  induction ns with
  | nil => simp [hoistedAmong] at h
  | cons n ns ihs =>
    rw [hoistedAmong] at h
    rw [Node.preorderAll]
    rcases List.mem_append.1 h with h | h
    · have hn : ∃ f ∈ n.preorder, f.kind = "local_function_statement" ∧
          f.child? "name" = some x := by
        split at h
        · simp at h
        · split at h
          · rename_i hk
            exact ⟨n, Node.self_mem_preorder n, by simpa using hk, Option.mem_toList.1 h⟩
          · split at h
            · exact ih n (.head _) h
            · simp at h
      obtain ⟨f, hf, hname⟩ := hn
      exact ⟨f, List.mem_append_left _ hf, hname⟩
    · obtain ⟨f, hf, hname⟩ := ihs (fun m hm => ih m (.tail _ hm)) h
      exact ⟨f, List.mem_append_right _ hf, hname⟩

/-- What is hoisted are names of local functions. -/
theorem function_of_hoisted {n x : Node} (h : x ∈ hoisted n) : ∃ f ∈ n.preorder,
    f.kind = "local_function_statement" ∧ f.child? "name" = some x := by
  induction n using Node.induction with
  | step n ih =>
    obtain ⟨row, kind, field, marks, span, children⟩ := n
    rw [hoisted] at h
    rw [Node.preorder]
    obtain ⟨f, hf, hname⟩ := function_of_hoistedAmong ih h
    exact ⟨f, List.mem_cons_of_mem _ hf, hname⟩

theorem clauseVariable_mem {clause : Binder.Clause} {ns : List Node} {x : Node}
    (h : clauseVariable clause ns = some x) :
    clause.leading = some x ∨ x ∈ ns ∧ x.kind = "identifier" := by
  induction ns generalizing clause with
  | nil => exact .inl h
  | cons n ns ih =>
    rcases ih h with hl | ⟨hx, hk⟩
    · have : (clauseStep clause n).2.leading = clause.leading ∨
          (clauseStep clause n).2.leading = some n ∧ n.kind = "identifier" := by
        rw [clauseStep]
        repeat' split
        all_goals simp_all
      rcases this with he | ⟨he, hk⟩ <;> rw [he] at hl
      · exact .inl hl
      · cases hl; exact .inr ⟨.head _, hk⟩
    · exact .inr ⟨.tail _ hx, hk⟩

theorem names_of_clauseRoles {clause : Binder.Clause} {ns : List Node} {xs : List Binding}
    (h : .designates xs ∈ clauseRoles clause ns) :
    ∃ n ∈ ns, n.kind = "identifier" ∧ xs = bindAll .rangeVariable [n] := by
  induction ns generalizing clause with
  | nil => simp [clauseRoles] at h
  | cons n ns ih =>
    rcases List.mem_cons.1 h with h | h
    · refine ⟨n, .head _, ?_⟩
      rw [clauseStep] at h
      repeat' split at h
      all_goals simp_all
    · obtain ⟨m, hm, hx⟩ := ih h
      exact ⟨m, .tail _ hm, hx⟩

theorem names_of_patternRoles {kind : String} {ns : List Node} {xs : List Binding}
    (h : .designates xs ∈ patternRoles kind ns) :
    ∃ n ∈ ns, xs = bindAll .variable (designated n) := by
  induction ns with
  | nil => simp [patternRoles] at h
  | cons n ns ih =>
    rcases List.mem_cons.1 h with h | h
    · refine ⟨n, .head _, ?_⟩
      repeat' split at h
      all_goals simp_all
    · obtain ⟨m, hm, hx⟩ := ih h
      exact ⟨m, .tail _ hm, hx⟩

theorem designates_not_mem_childRoles {kind : String} {around : List String} {skip : Option Nat}
    {ns : List Node} {xs : List Binding} : .designates xs ∉ childRoles kind around skip ns := by
  induction ns with
  | nil => simp [childRoles]
  | cons n ns ih =>
    rw [childRoles, List.mem_cons, not_or]
    refine ⟨?_, ih⟩
    repeat' split
    all_goals simp

theorem mem_of_or_find? {n c : Node} {field : String} {test : Node → Bool}
    (h : (n.child? field).or (n.namedChildren.find? test) = some c) : c ∈ n.children := by
  rcases Option.or_eq_some_iff.1 h with h | ⟨-, h⟩
  · exact Node.child?_mem h
  · exact List.mem_of_mem_filter (List.mem_of_find?_eq_some h)

/-! ## What a node declares -/

/-- The ways in which a node names what it declares. -/
inductive Names (source : Text) (n : Node) : Node → Prop
  /-- By the field `name` of a local function or a catch clause. -/
  | field {x : Node} (hn : Construct.ofKind n.kind = .localFunction ∨
      Construct.ofKind n.kind = .catchVariable) (hx : n.child? "name" = some x) : Names source n x
  /-- By a designation. -/
  | designated {c x : Node} (hc : c ∈ n.children) (hx : x ∈ designated c) : Names source n x
  /-- By a local function that is hoisted. -/
  | hoisted {x : Node} (hx : x ∈ hoisted n) : Names source n x
  /-- By a parameter of its list. -/
  | parameter {list : Node} {p : Parameter} (hl : list ∈ n.children)
      (hp : p ∈ Parameter.collect source list) : Names source n p.nameNode
  /-- By an identifier among its children. -/
  | child {x : Node} (hx : x ∈ n.children) (hk : Kind.isDeclaringName x.kind = true) :
      Names source n x

section
variable {source : Text} {around : List String} {n : Node} {x : Binding}

theorem Names.mem_preorder {x : Node} (h : Names source n x) : x ∈ n.preorder := by
  cases h with
  | field _ hx => exact Node.child_mem_preorder (Node.child?_mem hx)
  | designated hc hx =>
    exact Node.preorder_subset (Node.child_mem_preorder hc) (mem_of_designated hx).1
  | hoisted hx =>
    obtain ⟨f, hf, -, hx⟩ := function_of_hoisted hx
    exact Node.preorder_subset hf (Node.child_mem_preorder (Node.child?_mem hx))
  | parameter hl hp =>
    exact Node.preorder_subset (Node.child_mem_preorder hl) (Parameter.nameNode_mem hp)
  | child hx _ => exact Node.child_mem_preorder hx

theorem names_of_bindAll_field {kind : SymbolKind} (hn : Construct.ofKind n.kind = .localFunction ∨
    Construct.ofKind n.kind = .catchVariable) (h : x ∈ bindAll kind (n.child? "name").toList) :
    x.kind = kind ∧ Names source n x.name := by
  obtain ⟨hk, hx⟩ := mem_of_mem_bindAll h
  exact ⟨hk, .field hn (Option.mem_toList.1 hx)⟩

theorem names_of_bindAll_designated {kind : SymbolKind} {c : Node} (hc : c ∈ n.children)
    (h : x ∈ bindAll kind (designated c)) : x.kind = kind ∧ Names source n x.name := by
  obtain ⟨hk, hx⟩ := mem_of_mem_bindAll h
  exact ⟨hk, .designated hc hx⟩

/-- What a node declares around itself is no parameter. -/
theorem names_of_outside (h : x ∈ (shape source around n).outside) :
    Names source n x.name ∧ x.kind ≠ .parameter := by
  unfold shape at h
  cases hk : Construct.ofKind n.kind with
  | localFunction =>
    simp only [hk] at h
    obtain ⟨hk, hx⟩ := names_of_bindAll_field (.inl hk) h
    exact ⟨hx, by simp [hk]⟩
  | declarator =>
    simp only [hk] at h
    split at h
    · simp at h
    · rename_i names hn
      split at h
      · simp at h
      · obtain ⟨hk, hx⟩ := names_of_bindAll_designated (mem_of_or_find? hn) h
        exact ⟨hx, by simp [hk]⟩
  | catchVariable =>
    simp only [hk] at h
    obtain ⟨hk, hx⟩ := names_of_bindAll_field (.inr hk) h
    exact ⟨hx, by simp [hk]⟩
  | declarationExpression =>
    simp only [hk] at h
    cases hc : n.child? "name" with
    | none => simp [hc, bindAll] at h
    | some c =>
      rw [hc] at h
      obtain ⟨hk, hx⟩ := names_of_bindAll_designated (Node.child?_mem hc) h
      exact ⟨hx, by simp [hk]⟩
  | _ =>
    simp only [hk] at h
    repeat' split at h
    all_goals simp at h

theorem names_of_parameters {list : Node} (hl : list ∈ n.children)
    (h : x ∈ parameters source list) : Names source n x.name := by
  obtain ⟨p, hp, rfl⟩ := List.mem_map.1 h
  exact .parameter hl hp

theorem names_of_parameterList
    (h : x ∈ ((Binder.parameterList? n).map (parameters source)).getD []) :
    Names source n x.name := by
  cases hl : Binder.parameterList? n with
  | none => simp [hl] at h
  | some list =>
    rw [hl] at h
    exact names_of_parameters (mem_of_or_find? hl) h

/-- What a node declares on entry is a parameter only if the construct has them. -/
theorem names_of_entry (h : x ∈ (shape source around n).entry) :
    Names source n x.name ∧
      (x.kind = .parameter → (Construct.ofKind n.kind).takesParameters = true) := by
  unfold shape at h
  cases hk : Construct.ofKind n.kind with
  | procedure =>
    simp only [hk] at h
    exact ⟨names_of_parameterList h, fun _ => rfl⟩
  | localFunction =>
    simp only [hk] at h
    exact ⟨names_of_parameterList h, fun _ => rfl⟩
  | scope =>
    simp only [hk] at h
    obtain ⟨hk, hx⟩ := mem_of_mem_bindAll h
    exact ⟨.hoisted hx, by simp [hk]⟩
  | lambda =>
    simp only [hk] at h
    refine ⟨?_, fun _ => rfl⟩
    split at h
    · simp at h
    · rename_i list hl
      split at h
      · exact names_of_parameters (mem_of_or_find? hl) h
      · split at h
        · rename_i hd
          obtain ⟨-, hx⟩ := mem_of_mem_bindAll h
          rw [List.mem_singleton.1 hx]
          exact .child (mem_of_or_find? hl) hd
        · simp at h
  | foreachLoop =>
    simp only [hk] at h
    split at h
    · simp at h
    · rename_i left hl
      obtain ⟨hk, hx⟩ := names_of_bindAll_designated (Node.child?_mem hl) h
      exact ⟨hx, by simp [hk]⟩
  | _ =>
    simp only [hk] at h
    repeat' split at h
    all_goals simp at h

/-- What a node declares at its end or at its children is no parameter. -/
theorem names_of_last_or_designates (h : x ∈ (shape source around n).last ∨
      ∃ xs, .designates xs ∈ (shape source around n).roles ∧ x ∈ xs) :
    Names source n x.name ∧ x.kind ≠ .parameter := by
  unfold shape at h
  cases hk : Construct.ofKind n.kind with
  | pattern =>
    simp only [hk, List.not_mem_nil, false_or] at h
    obtain ⟨xs, hr, hx⟩ := h
    obtain ⟨m, hm, rfl⟩ := names_of_patternRoles hr
    obtain ⟨hk, hx⟩ := names_of_bindAll_designated hm hx
    exact ⟨hx, by simp [hk]⟩
  | queryClause =>
    simp only [hk] at h
    rcases h with h | ⟨xs, hr, hx⟩
    · obtain ⟨hk, hx⟩ := mem_of_mem_bindAll h
      rcases clauseVariable_mem (Option.mem_toList.1 hx) with hl | ⟨hx, hi⟩
      · cases hl
      · exact ⟨.child hx (by simp [Kind.isDeclaringName, hi]), by simp [hk]⟩
    · obtain ⟨m, hm, hi, rfl⟩ := names_of_clauseRoles hr
      obtain ⟨hk, hx⟩ := mem_of_mem_bindAll hx
      rw [List.mem_singleton.1 hx]
      exact ⟨.child hm (by simp [Kind.isDeclaringName, hi]), by simp [hk]⟩
  | _ =>
    simp only [hk] at h
    repeat' split at h
    all_goals simp [designates_not_mem_childRoles] at h

/-- What a node declares inside itself is a parameter only on entry, if the construct has them. -/
theorem names_of_inner (h : x ∈ (shape source around n).inner) :
    Names source n x.name ∧ (x.kind = .parameter →
      (Construct.ofKind n.kind).takesParameters = true ∧ x ∈ (shape source around n).entry) := by
  rcases Shape.mem_inner.1 h with h | h
  · obtain ⟨hx, hk⟩ := names_of_entry h
    exact ⟨hx, fun he => ⟨hk he, h⟩⟩
  · obtain ⟨hx, hk⟩ := names_of_last_or_designates h
    exact ⟨hx, fun he => absurd he hk⟩

end

/-! ## The walk over a file -/

theorem mem_walk {shape : List String → Node → Shape} {root : Node} {e : Event}
    (h : e ∈ walk shape root) :
    ∃ place m around scope outer, root.at? place = some m ∧
      enclosing root place = scope :: outer ∧ Contributes (shape around m) scope place m e := by
  obtain ⟨place, m, around, scope, outer, -, h⟩ := mem_events (Node.at?_nil root) rfl h
  exact ⟨place, m, around, scope, outer, h⟩

/-- A name declared in the scope of a node lies in the node, and a parameter is declared on entry of
a construct with parameters. -/
theorem declare_of_mem_walk {source : Text} {root : Node} {scope : ScopeId} {x : Binding}
    (h : .declare scope x ∈ walk (shape source) root) :
    (∀ path, scope = .node path → ∃ n, root.at? path = some n ∧ x.name ∈ n.preorder) ∧
      (x.kind = .parameter → ∃ path n around, scope = .node path ∧ root.at? path = some n ∧
        (Construct.ofKind n.kind).takesParameters = true ∧
        x ∈ (shape source around n).entry) := by
  obtain ⟨place, m, around, s, outer, hm, hs, hc⟩ := mem_walk h
  have around_of : x.name ∈ m.preorder →
      ∀ path, s = .node path → ∃ n, root.at? path = some n ∧ x.name ∈ n.preorder := by
    rintro hx path rfl
    have hp : .node path ∈ enclosing root place := by rw [hs]; exact .head _
    obtain ⟨n, hn, hsub⟩ := Node.exists_around (mem_enclosing hp).1 hm
    exact ⟨n, hn, hsub hx⟩
  cases hc with
  | outside hx =>
    obtain ⟨hx, hk⟩ := names_of_outside hx
    exact ⟨around_of hx.mem_preorder, fun he => absurd he hk⟩
  | inner hx =>
    obtain ⟨hx, hk⟩ := names_of_inner hx
    have hx := hx.mem_preorder
    by_cases ho : (Construct.ofKind m.kind).opensScope = true
    · simp only [scopeInside, ho, if_true]
      refine ⟨?_, fun he => ⟨place, m, around, rfl, hm, hk he⟩⟩
      rintro path he
      cases he
      exact ⟨m, hm, hx⟩
    · simp only [scopeInside, ho]
      refine ⟨around_of hx, fun he => absurd ?_ ho⟩
      exact Construct.opensScope_of_takesParameters (hk he).1

theorem names_of_mem_walk {source : Text} {root : Node} {scope : ScopeId} {x : Binding}
    (h : .declare scope x ∈ walk (shape source) root) :
    ∃ n ∈ root.preorder, Names source n x.name := by
  obtain ⟨place, n, around, s, outer, hn, -, hc⟩ := mem_walk h
  refine ⟨n, Node.mem_preorder_of_at? hn, ?_⟩
  cases hc with
  | outside hx => exact (names_of_outside hx).1
  | inner hx => exact (names_of_inner hx).1

theorem identifier_of_clauseRoles {clause : Binder.Clause} {ns : List Node} {k : Nat} {c : Node}
    (hr : (clauseRoles clause ns)[k]? = some .reference) (hc : ns[k]? = some c) :
    c.kind = "identifier" := by
  induction ns generalizing clause k with
  | nil => simp at hc
  | cons n ns ih =>
    cases k with
    | zero =>
      simp only [List.getElem?_cons_zero, Option.some.injEq] at hc
      subst hc
      simp only [clauseRoles, List.getElem?_cons_zero, Option.some.injEq, clauseStep] at hr
      repeat' split at hr
      all_goals simp_all
    | succ k => exact ih hr hc

theorem identifier_of_childRoles {kind : String} {around : List String} {skip : Option Nat}
    {ns : List Node} {k : Nat} {c : Node}
    (hr : (childRoles kind around skip ns)[k]? = some .reference) (hc : ns[k]? = some c) :
    c.kind = "identifier" := by
  induction ns generalizing k with
  | nil => simp at hc
  | cons n ns ih =>
    cases k with
    | zero =>
      simp only [List.getElem?_cons_zero, Option.some.injEq] at hc
      subst hc
      simp only [childRoles, List.getElem?_cons_zero, Option.some.injEq] at hr
      repeat' split at hr
      all_goals simp_all
    | succ k => exact ih hr hc

theorem reference_not_mem_patternRoles {kind : String} {ns : List Node} :
    .reference ∉ patternRoles kind ns := by
  induction ns with
  | nil => simp [patternRoles]
  | cons n ns ih =>
    rw [patternRoles, List.mem_cons, not_or]
    refine ⟨?_, ih⟩
    repeat' split
    all_goals simp

/-- References are identifiers. -/
theorem identifier_of_shape {source : Text} {around : List String} {n c : Node} {k : Nat}
    (hr : (shape source around n).roles[k]? = some .reference) (hc : n.children[k]? = some c) :
    c.kind = "identifier" := by
  unfold shape at hr
  cases hk : Construct.ofKind n.kind with
  | pattern =>
    simp only [hk] at hr
    exact absurd (List.mem_of_getElem? hr) reference_not_mem_patternRoles
  | queryClause =>
    simp only [hk] at hr
    exact identifier_of_clauseRoles hr hc
  | _ =>
    simp only [hk] at hr
    repeat' split at hr
    all_goals first | exact identifier_of_childRoles hr hc | simp at hr

/-- The identifier of a reference stands at its place. -/
theorem refer_of_mem_walk {source : Text} {root c : Node} {place : Path}
    (h : .refer place c ∈ walk (shape source) root) :
    root.at? place = some c ∧ c.kind = "identifier" := by
  obtain ⟨path, m, around, s, outer, hm, -, hc⟩ := mem_walk h
  cases hc with
  | child hr hc => exact ⟨by rw [Node.at?_child hm, hc], identifier_of_shape hr hc⟩

/-- The identifiers of the references among events. -/
def referred : List Event → List Node :=
  List.filterMap fun
    | .refer _ c => some c
    | .declare _ _ => none

theorem referred_declareIn (scope : ScopeId) (xs : List Binding) :
    referred (declareIn scope xs) = [] := by
  simp [referred, declareIn, List.filterMap_map]

theorem referred_append (es es' : List Event) :
    referred (es ++ es') = referred es ++ referred es' :=
  List.filterMap_append

theorem referred_eventsAmong {shape : List String → Node → Shape} {ns : List Node}
    (ih : ∀ n ∈ ns, ∀ scope path around,
      (referred (events shape scope path around n)).Sublist n.preorder)
    (scope : ScopeId) (path : Path) (k : Nat) (around : List String) (roles : List Role) :
    (referred (eventsAmong shape scope path k around roles ns)).Sublist (Node.preorderAll ns) := by
  induction ns generalizing k roles with
  | nil => cases roles <;> simp [eventsAmong, referred]
  | cons n ns ihs =>
    cases roles with
    | nil => simp [eventsAmong, referred]
    | cons role roles =>
      rw [eventsAmong_cons, referred_append, Node.preorderAll]
      refine .append ?_ (ihs (fun m hm => ih m (.tail _ hm)) _ _)
      cases role with
      | passed => exact List.nil_sublist _
      | walked => exact ih n (.head _) _ _ _
      | reference => exact List.singleton_sublist.2 (Node.self_mem_preorder n)
      | designates xs =>
        simp only [referred_declareIn]
        exact List.nil_sublist _

/-- The walk meets references in document order, each identifier once. -/
theorem referred_events (shape : List String → Node → Shape) (scope : ScopeId) (path : Path)
    (around : List String) (n : Node) :
    (referred (events shape scope path around n)).Sublist n.preorder := by
  induction n using Node.induction generalizing scope path around with
  | step n ih =>
    simp only [events_eq, referred_append, referred_declareIn, List.nil_append, List.append_nil,
      Node.preorder_eq]
    exact (referred_eventsAmong ih _ _ _ _ _).cons _

end ParamTwin.Lexical
