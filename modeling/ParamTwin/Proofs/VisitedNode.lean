import ParamTwin.Proofs.BinderTrace

/-!
# The walk at a visited node

Some children of a node are no part of the walk, or only declare names: the walk leaves them out
(`Lexical.leavesOut`). A node is visited if no step of the way to it is left out
(`Lexical.visited`). The walk over a file then has the walk over that node as one piece, and all
events before that piece are contributed by nodes that do not stand inside the node
(`Lexical.walk_split`).
-/

namespace ParamTwin.Lexical

/-- The child of a lambda, loop or declarator that is declared on entry. -/
def entryChild? (n : Node) : Option Node :=
  match Construct.ofKind n.kind with
  | .lambda => (Binder.lambdaParameters? n).filter (Kind.isDeclaringName ·.kind)
  | .foreachLoop => n.child? "left"
  | .declarator => Binder.declaratorNames? n
  | _ => none

/-- Whether the walk leaves out a child of a node, before the children `later`: whatever stands in
an attribute list, in type parameters, in a catch or expression declaration; the type and the
designation of a pattern; the keywords and names of a query clause; and elsewhere names and the
child that is declared on entry. -/
def leavesOut (n c : Node) (later : List Node) : Bool :=
  match Construct.ofKind n.kind with
  | .skipped | .catchVariable | .declarationExpression => true
  | .pattern => c.field == some "type" || Binder.isDesignation n.kind c later
  | .queryClause => !c.marks.named || ["identifier", "in", "=", "on", "into"].contains c.kind
  | _ => c.kind == "identifier" || (entryChild? n).map (·.row) == some c.row

/-- Whether no step of the way to a place is left out. -/
def visited (root : Node) : Path → Bool
  | [] => true
  | k :: path => visited root path && (root.at? path).all fun n =>
      n.children[k]?.all fun c => !leavesOut n c (n.children.drop (k + 1))

/-! ## The roles of visited children -/

section
variable {kind : String} {around : List String} {ns : List Node} {k : Nat} {c : Node}

theorem walked_of_childRoles {skip : Option Nat} (hc : ns[k]? = some c)
    (hname : c.kind ≠ "identifier") (hskip : skip ≠ some c.row) :
    (childRoles kind around skip ns)[k]? = some .walked := by
  induction ns generalizing k with
  | nil => simp at hc
  | cons n ns ih =>
    cases k with
    | zero =>
      obtain rfl := Option.some.inj hc
      simp [childRoles, hname, hskip]
    | succ k => exact ih hc

theorem walked_of_patternRoles (hc : ns[k]? = some c) (htype : c.field ≠ some "type")
    (hname : Binder.isDesignation kind c (ns.drop (k + 1)) = false) :
    (patternRoles kind ns)[k]? = some .walked := by
  induction ns generalizing k with
  | nil => simp at hc
  | cons n ns ih =>
    cases k with
    | zero =>
      obtain rfl := Option.some.inj hc
      have hname' : Binder.isDesignation kind n ns = false := hname
      simp [patternRoles, htype, hname']
    | succ k => exact ih hc hname

theorem walked_of_clauseRoles {clause : Binder.Clause} (hc : ns[k]? = some c)
    (hnamed : c.marks.named = true)
    (hkind : ["identifier", "in", "=", "on", "into"].contains c.kind = false) :
    (clauseRoles clause ns)[k]? = some .walked := by
  induction ns generalizing clause k with
  | nil => simp at hc
  | cons n ns ih =>
    cases k with
    | zero =>
      obtain rfl := Option.some.inj hc
      simp only [List.contains_eq_mem, List.mem_cons, List.not_mem_nil, or_false, not_or,
        decide_eq_false_iff_not] at hkind
      simp [clauseRoles, clauseStep, hkind, hnamed]
    | succ k => exact ih hc

end

/-- The children of a lambda, loop or declarator take their roles as those of other nodes do, apart
from the one that is declared on entry. -/
theorem roles_of_entryChild {source : Text} {around : List String} {n : Node}
    (h : Construct.ofKind n.kind = .lambda ∨ Construct.ofKind n.kind = .foreachLoop ∨
      Construct.ofKind n.kind = .declarator) :
    (shape source around n).roles =
      childRoles n.kind around ((entryChild? n).map (·.row)) n.children := by
  rcases h with h | h | h
  · simp only [shape, entryChild?, h]
    cases hl : Binder.lambdaParameters? n with
    | none => rfl
    | some list =>
      by_cases hname : Kind.isDeclaringName list.kind = true
      · have hlist : list.kind ≠ "parameter_list" := by
          intro hlist
          rw [hlist] at hname
          exact absurd hname (by decide)
        simp [hlist, hname, Option.filter_some]
      · simp only [hname, Option.filter_some]
        split <;> rfl
  · simp only [shape, entryChild?, h]
    cases n.child? "left" <;> rfl
  · simp only [shape, entryChild?, h]
    cases Binder.declaratorNames? n <;> rfl

/-- The walk goes over each child that it does not leave out. -/
theorem walked_of_leavesOut (source : Text) (around : List String) {n c : Node} {k : Nat}
    (hc : n.children[k]? = some c) (h : leavesOut n c (n.children.drop (k + 1)) = false) :
    (shape source around n).roles[k]? = some .walked := by
  unfold leavesOut at h
  cases hk : Construct.ofKind n.kind with
  | skipped | catchVariable | declarationExpression => simp [hk] at h
  | pattern =>
    simp only [hk, Bool.or_eq_false_iff, beq_eq_false_iff_ne] at h
    simp only [shape, hk]
    exact walked_of_patternRoles hc h.1 h.2
  | queryClause =>
    simp only [hk, Bool.or_eq_false_iff, Bool.not_eq_false'] at h
    simp only [shape, hk]
    exact walked_of_clauseRoles hc h.1 h.2
  | lambda | foreachLoop | declarator =>
    simp only [hk, Bool.or_eq_false_iff, beq_eq_false_iff_ne] at h
    rw [roles_of_entryChild (by simp [hk])]
    exact walked_of_childRoles hc h.1 h.2
  | _ =>
    simp only [hk, Bool.or_eq_false_iff, beq_eq_false_iff_ne] at h
    simp only [shape, hk]
    exact walked_of_childRoles hc h.1 (by simp)

/-! ## The walk before a node -/

/-- The walk over children is the walk over those before one that it goes over, that child, and the
rest. -/
theorem eventsAmong_split (shape : List String → Node → Shape) (scope : ScopeId) (path : Path)
    (k : Nat) (around : List String) {roles : List Role} {ns : List Node} {j : Nat} {c : Node}
    (hr : roles[j]? = some .walked) (hc : ns[j]? = some c) :
    eventsAmong shape scope path k around roles ns =
      eventsAmong shape scope path k around (roles.take j) (ns.take j) ++
        events shape scope ((k + j) :: path) around c ++
        eventsAmong shape scope path (k + j + 1) around (roles.drop (j + 1))
          (ns.drop (j + 1)) := by
  induction j generalizing k roles ns with
  | zero =>
    obtain ⟨roles, rfl⟩ := List.head?_eq_some_iff.1 (List.head?_eq_getElem? ▸ hr)
    obtain ⟨ns, rfl⟩ := List.head?_eq_some_iff.1 (List.head?_eq_getElem? ▸ hc)
    rw [eventsAmong_cons]
    simp [eventsAmong]
  | succ j ih =>
    cases roles with
    | nil => simp at hr
    | cons role roles =>
      cases ns with
      | nil => simp at hc
      | cons n ns =>
        rw [List.getElem?_cons_succ] at hr hc
        rw [eventsAmong_cons, ih (k + 1) hr hc]
        simp [eventsAmong_cons, Nat.add_assoc, Nat.add_comm 1]

/-- An event that is contributed by a node which does not stand at or below a place. -/
def ContributedOutside (source : Text) (root : Node) (path : Path) (e : Event) : Prop :=
  ∃ place m around scope, root.at? place = some m ∧ ¬ path <:+ place ∧
    Contributes (shape source around m) scope place m e

theorem ContributedOutside.child {source : Text} {root : Node} {path : Path} {e : Event}
    (h : ContributedOutside source root path e) (k : Nat) :
    ContributedOutside source root (k :: path) e := by
  obtain ⟨place, m, around, scope, hm, hplace, hc⟩ := h
  exact ⟨place, m, around, scope, hm, fun hs => hplace ((List.suffix_cons k path).trans hs), hc⟩

/-- What a node contributes itself is contributed outside of its children. -/
theorem contributedOutside_of_parent {source : Text} {root n : Node} {path : Path} {e : Event}
    (around : List String) (scope : ScopeId) (hn : root.at? path = some n)
    (hc : Contributes (shape source around n) scope path n e) (k : Nat) :
    ContributedOutside source root (k :: path) e :=
  ⟨path, n, around, scope, hn, fun hs => (Path.encloses_of_child hs).2 rfl, hc⟩

/-- The events of the children before a child are contributed outside of that child. -/
theorem contributedOutside_of_siblings {source : Text} {root n : Node} {path : Path} {e : Event}
    {around : List String} {scope : ScopeId} {outer : List ScopeId} {k : Nat}
    (hn : root.at? path = some n) (hs : enclosing root path = scope :: outer)
    (h : e ∈ eventsAmong (shape source) (scopeInside n.kind path scope) path 0 (n.kind :: around)
      ((shape source around n).roles.take k) (n.children.take k)) :
    ContributedOutside source root (k :: path) e := by
  obtain ⟨j, role, c, hr, hc, hj⟩ := mem_eventsAmong h
  have hjk : j < k := by
    by_contra hle
    rw [List.getElem?_take, if_neg hle] at hr
    cases hr
  rw [List.getElem?_take, if_pos hjk] at hr hc
  rw [Nat.zero_add] at hj
  rcases hj with ⟨rfl, hw⟩ | ⟨rfl, rfl⟩ | ⟨xs, rfl, hx⟩
  · obtain ⟨outer', hs'⟩ := enclosing_inside hn hs j
    obtain ⟨place, m, around', scope', -, hp, hm, -, hcontrib⟩ :=
      mem_events (by rw [Node.at?_child hn, hc]) hs' hw
    refine ⟨place, m, around', scope', hm, fun hk => ?_, hcontrib⟩
    exact absurd (Path.index_unique hp hk) (Nat.ne_of_lt hjk)
  · exact contributedOutside_of_parent around scope hn (.child hr hc) k
  · obtain ⟨x, hx', rfl⟩ := mem_declareIn.1 hx
    refine contributedOutside_of_parent around scope hn (.inner ?_) k
    exact Shape.mem_inner.2 (.inr (.inr ⟨xs, List.mem_of_getElem? hr, hx'⟩))

/-- **The walk over a visited node is one piece of the walk.** What comes before it is contributed
by nodes outside of it. -/
theorem walk_split (source : Text) {root n : Node} {path : Path} (hv : visited root path = true)
    (hn : root.at? path = some n) :
    ∃ before after scope outer around, walk (shape source) root =
        before ++ events (shape source) scope path around n ++ after ∧
      enclosing root path = scope :: outer ∧
      ∀ e ∈ before, ContributedOutside source root path e := by
  induction path generalizing n with
  | nil =>
    cases hn
    exact ⟨[], [], .file, [], [], by simp [walk], rfl, by simp⟩
  | cons k path ih =>
    obtain ⟨parent, hparent, hc⟩ := Option.bind_eq_some_iff.1 hn
    rw [visited, hparent, Bool.and_eq_true] at hv
    obtain ⟨before, after, scope, outer, around, hwalk, hs, hbefore⟩ := ih hv.1 hparent
    have hout : leavesOut parent n (parent.children.drop (k + 1)) = false := by
      simpa [hc] using hv.2
    have hroles := walked_of_leavesOut source around hc hout
    obtain ⟨outer', hs'⟩ := enclosing_inside hparent hs k
    have hsplit := eventsAmong_split (shape source) (scopeInside parent.kind path scope) path 0
      (parent.kind :: around) hroles hc
    rw [Nat.zero_add] at hsplit
    rw [events_eq] at hwalk
    simp only [hsplit] at hwalk
    refine ⟨before ++ declareIn scope (shape source around parent).outside ++
      declareIn (scopeInside parent.kind path scope) (shape source around parent).entry ++
      eventsAmong (shape source) (scopeInside parent.kind path scope) path 0
        (parent.kind :: around) ((shape source around parent).roles.take k)
        (parent.children.take k),
      eventsAmong (shape source) (scopeInside parent.kind path scope) path (k + 1)
        (parent.kind :: around) ((shape source around parent).roles.drop (k + 1))
        (parent.children.drop (k + 1)) ++
      declareIn (scopeInside parent.kind path scope) (shape source around parent).last ++ after,
      _, outer', parent.kind :: around, ?_, hs', ?_⟩
    · rw [hwalk]
      simp only [List.append_assoc]
    · intro e he
      simp only [List.mem_append, mem_declareIn] at he
      rcases he with ((he | ⟨x, hx, rfl⟩) | ⟨x, hx, rfl⟩) | he
      · exact (hbefore e he).child k
      · exact contributedOutside_of_parent around scope hparent (.outside hx) k
      · exact contributedOutside_of_parent around scope hparent
          (.inner (by simp [Shape.mem_inner, hx])) k
      · exact contributedOutside_of_siblings hparent hs he

end ParamTwin.Lexical
