import ParamTwin.Syntax.Node
import Mathlib.Data.List.Basic

/-!
# Positions in a syntax tree

A position is the path of child indices from a node up to the root (`Path`), so that the nodes
around a position are the suffixes of its path.

* `Node.induction`: a property that passes from the children of a node to the node holds of every
  node.
* `Node.mem_preorder_iff`: the descendants of a node are the nodes at its positions.
* `Node.preorder_subset`: the descendants of a descendant are descendants, so that a node lies
  inside every node around it (`exists_around`).
-/

namespace ParamTwin

/-- A position in a tree: the indices of the children passed on the way to it, the last one
first. -/
abbrev Path := List Nat

/-- A position lies strictly around another one. -/
def Path.Encloses (outer inner : Path) : Prop :=
  outer <:+ inner ∧ outer ≠ inner

instance (outer inner : Path) : Decidable (outer.Encloses inner) :=
  inferInstanceAs (Decidable (_ ∧ _))

/-- A position strictly inside another one lies at or below one of its children. -/
theorem Path.Encloses.exists_child {outer inner : Path} (h : outer.Encloses inner) :
    ∃ k, (k :: outer) <:+ inner := by
  obtain ⟨⟨front, rfl⟩, hne⟩ := h
  rcases List.eq_nil_or_concat front with rfl | ⟨front, k, rfl⟩
  · exact absurd rfl hne
  · exact ⟨k, front, by simp⟩

theorem Path.encloses_of_child {outer inner : Path} {k : Nat} (h : (k :: outer) <:+ inner) :
    outer.Encloses inner := by
  refine ⟨(List.suffix_cons k outer).trans h, ?_⟩
  rintro rfl
  exact absurd h.length_le (Nat.not_succ_le_self _)

theorem Path.Encloses.trans_suffix {outer mid inner : Path} (h : outer.Encloses mid)
    (hs : mid <:+ inner) : outer.Encloses inner := by
  obtain ⟨k, hk⟩ := h.exists_child
  exact encloses_of_child (hk.trans hs)

/-- A position lies at or below one child only. -/
theorem Path.index_unique {j k : Nat} {path inner : Path} (hj : (j :: path) <:+ inner)
    (hk : (k :: path) <:+ inner) : j = k := by
  have := List.suffix_of_suffix_length_le hj hk (by simp)
  simpa using this.eq_of_length (by simp)

namespace Node

/-- The node at a position. -/
def at? (root : Node) : Path → Option Node
  | [] => some root
  | k :: path => (at? root path).bind (·.children[k]?)

@[simp] theorem at?_nil (root : Node) : root.at? [] = some root := rfl

@[simp] theorem at?_cons (root : Node) (k : Nat) (path : Path) :
    root.at? (k :: path) = (root.at? path).bind (·.children[k]?) := rfl

theorem at?_child {root n : Node} {path : Path} (h : root.at? path = some n) (k : Nat) :
    root.at? (k :: path) = n.children[k]? := by
  rw [at?_cons, h]; rfl

/-- The first of the remaining children of a node. -/
theorem child_of_drop {n c : Node} {ns : List Node} {k : Nat}
    (h : n.children.drop k = c :: ns) :
    n.children[k]? = some c ∧ n.children.drop (k + 1) = ns :=
  ⟨by rw [← List.head?_drop, h]; rfl, by rw [← List.tail_drop, h]; rfl⟩

theorem at?_append (root : Node) (inner outer : Path) :
    root.at? (inner ++ outer) = (root.at? outer).bind (·.at? inner) := by
  induction inner with
  | nil => simp
  | cons k inner ih => rw [List.cons_append, at?_cons, ih]; cases root.at? outer <;> rfl

/-- Induction over the tree, the children of a node being smaller than it. -/
@[elab_as_elim]
theorem induction {P : Node → Prop} (step : ∀ n, (∀ c ∈ n.children, P c) → P n) (n : Node) : P n :=
  @Node.rec P (fun ns => ∀ c ∈ ns, P c)
    (fun _ _ _ _ _ children ih => step ⟨_, _, _, _, _, children⟩ ih)
    (by simp)
    (fun c ns hc hns d hd => by
      rcases List.mem_cons.1 hd with rfl | hd
      · exact hc
      · exact hns d hd) n

/-! ## Descendants -/

theorem preorder_eq (n : Node) : n.preorder = n :: preorderAll n.children := by
  cases n; rw [preorder]

theorem mem_preorderAll {x : Node} {ns : List Node} :
    x ∈ preorderAll ns ↔ ∃ n ∈ ns, x ∈ n.preorder := by
  induction ns with
  | nil => simp [preorderAll]
  | cons n ns ih => simp [preorderAll, ih]

theorem mem_preorder {x n : Node} :
    x ∈ n.preorder ↔ x = n ∨ ∃ c ∈ n.children, x ∈ c.preorder := by
  rw [preorder_eq, List.mem_cons, mem_preorderAll]

theorem self_mem_preorder (n : Node) : n ∈ n.preorder := mem_preorder.2 (.inl rfl)

theorem child_mem_preorder {c n : Node} (h : c ∈ n.children) : c ∈ n.preorder :=
  mem_preorder.2 (.inr ⟨c, h, self_mem_preorder c⟩)

theorem child?_mem {n c : Node} {field : String} (h : n.child? field = some c) : c ∈ n.children :=
  List.mem_of_find?_eq_some h

theorem preorderAll_sublist {ns ms : List Node} (h : ns.Sublist ms) :
    (preorderAll ns).Sublist (preorderAll ms) := by
  induction h with
  | slnil => exact List.Sublist.refl _
  | cons n _ ih =>
    rw [preorderAll]
    exact ih.trans (List.sublist_append_right _ _)
  | cons_cons n _ ih =>
    rw [preorderAll, preorderAll]
    exact ih.append_left _

/-- The descendants of a descendant are descendants, in the same order. -/
theorem preorder_sublist {x n : Node} (h : x ∈ n.preorder) : x.preorder.Sublist n.preorder := by
  induction n using Node.induction with
  | step n ih =>
    rcases mem_preorder.1 h with rfl | ⟨c, hc, hx⟩
    · exact List.Sublist.refl _
    · have hchild := preorderAll_sublist (List.singleton_sublist.2 hc)
      rw [preorderAll, preorderAll, List.append_nil] at hchild
      rw [preorder_eq n]
      exact ((ih c hc hx).trans hchild).cons n

theorem preorder_subset {x n : Node} (h : x ∈ n.preorder) : x.preorder ⊆ n.preorder :=
  (preorder_sublist h).subset

theorem preorderAll_append (ns ms : List Node) :
    preorderAll (ns ++ ms) = preorderAll ns ++ preorderAll ms := by
  induction ns with
  | nil => rfl
  | cons n ns ih => rw [List.cons_append, preorderAll, preorderAll, ih, List.append_assoc]

theorem mem_preorder_of_at? {n x : Node} {path : Path} (h : n.at? path = some x) :
    x ∈ n.preorder := by
  induction path generalizing x with
  | nil => cases h; exact self_mem_preorder _
  | cons k path ih =>
    obtain ⟨p, hp, hx⟩ := Option.bind_eq_some_iff.1 h
    exact preorder_subset (ih hp) (child_mem_preorder (List.mem_of_getElem? hx))

/-- The descendants of a node are the nodes at its positions. -/
theorem mem_preorder_iff {n x : Node} : x ∈ n.preorder ↔ ∃ path, n.at? path = some x := by
  refine ⟨fun h => ?_, fun ⟨_, h⟩ => mem_preorder_of_at? h⟩
  induction n using Node.induction with
  | step n ih =>
    rcases mem_preorder.1 h with rfl | ⟨c, hc, hx⟩
    · exact ⟨[], rfl⟩
    · obtain ⟨path, hp⟩ := ih c hc hx
      obtain ⟨k, hk⟩ := List.mem_iff_getElem?.1 hc
      refine ⟨path ++ [k], ?_⟩
      rw [at?_append, at?_cons, at?_nil, Option.bind_some, hk, Option.bind_some, hp]

/-- A descendant of the node at a place stands at a place below. -/
theorem exists_place_below {root n x : Node} {path : Path} (hn : root.at? path = some n)
    (hx : x ∈ n.preorder) : ∃ place, path <:+ place ∧ root.at? place = some x := by
  obtain ⟨inner, hinner⟩ := mem_preorder_iff.1 hx
  refine ⟨inner ++ path, List.suffix_append .., ?_⟩
  rw [at?_append, hn, Option.bind_some, hinner]

theorem exists_place_of_child {root n c : Node} {path : Path} (hn : root.at? path = some n)
    (hc : c ∈ n.children) : ∃ k, root.at? (k :: path) = some c := by
  obtain ⟨k, hk⟩ := List.mem_iff_getElem?.1 hc
  exact ⟨k, (at?_child hn k).trans hk⟩

/-- A node lies inside every node around it. -/
theorem exists_around {root x : Node} {outer path : Path} (hs : outer <:+ path)
    (hx : root.at? path = some x) :
    ∃ n, root.at? outer = some n ∧ x.preorder ⊆ n.preorder := by
  obtain ⟨inner, rfl⟩ := hs
  rw [at?_append] at hx
  obtain ⟨n, hn, hx⟩ := Option.bind_eq_some_iff.1 hx
  exact ⟨n, hn, preorder_subset (mem_preorder_of_at? hx)⟩

/-! ## Equality of trees -/

mutual
/-- Equality of nodes is decidable. -/
def decEq : (a b : Node) → Decidable (a = b)
  | ⟨row, kind, field, marks, span, children⟩, ⟨row', kind', field', marks', span', children'⟩ =>
    have := decEqAll children children'
    decidable_of_iff (row = row' ∧ kind = kind' ∧ field = field' ∧ marks = marks' ∧
      span = span' ∧ children = children') (by simp)
/-- Equality of lists of nodes is decidable. -/
def decEqAll : (as bs : List Node) → Decidable (as = bs)
  | [], [] => isTrue rfl
  | [], _ :: _ | _ :: _, [] => isFalse nofun
  | a :: as, b :: bs =>
    have := decEq a b
    have := decEqAll as bs
    decidable_of_iff (a = b ∧ as = bs) (by simp)
end

instance : DecidableEq Node := decEq

/-! ## Rows of listings -/

/-- The row of a node with a name in the grammar. -/
def Row.named (depth : Nat) (kind : String) (field : Option String) (start stop : Nat) : Row :=
  { depth, kind, field, span := { start, stop },
    marks := { named := true, missing := false, error := false, hasError := false } }

/-- The row of a token. -/
def Row.token (depth : Nat) (text : String) (start : Nat) (field : Option String := none) : Row :=
  { depth, kind := text, field, span := { start, stop := start + text.length },
    marks := { named := false, missing := false, error := false, hasError := false } }

end Node
end ParamTwin
