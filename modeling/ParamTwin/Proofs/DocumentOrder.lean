import ParamTwin.Proofs.TextCut
import ParamTwin.Proofs.TreePath
import ParamTwin.Syntax.Construct
import Mathlib.Data.List.Nodup
import Mathlib.Data.List.Pairwise

/-!
# Document order

`Node.placed` lists the nodes of a tree in document order, each with its position, so that the same
node at two places is told apart; `Node.preorder` is the list without the positions.

* `mem_placed_iff`: the list holds the nodes at all positions.
* `Nested.pairwise_placed`: where the spans of a tree nest, the earlier one of two nodes ends before
  the later one starts or lies around it.
* `NamesDistinct.place_unique`: where names start at distinct offsets, an offset is the position of
  one name.
-/

namespace ParamTwin

namespace Node

mutual
/-- The node at `path` and its descendants with their positions, in document order. -/
def placedFrom (path : Path) : Node → List (Path × Node)
  | ⟨row, kind, field, marks, span, children⟩ =>
    (path, ⟨row, kind, field, marks, span, children⟩) :: placedAmong path 0 children
/-- The same for the children of the node at `path` from index `k` on. -/
def placedAmong (path : Path) (k : Nat) : List Node → List (Path × Node)
  | [] => []
  | n :: ns => placedFrom (k :: path) n ++ placedAmong path (k + 1) ns
end

/-- The nodes of a tree with their positions, in document order. -/
def placed (root : Node) : List (Path × Node) :=
  placedFrom [] root

theorem placedFrom_eq (path : Path) (n : Node) :
    placedFrom path n = (path, n) :: placedAmong path 0 n.children := by
  cases n; rw [placedFrom]

theorem map_snd_placedAmong {ns : List Node}
    (ih : ∀ n ∈ ns, ∀ path, (placedFrom path n).map (·.2) = n.preorder) (path : Path) (k : Nat) :
    (placedAmong path k ns).map (·.2) = preorderAll ns := by
  induction ns generalizing k with
  | nil => simp [placedAmong, preorderAll]
  | cons n ns ihs =>
    rw [placedAmong, preorderAll, List.map_append, ih n (.head _),
      ihs fun m hm => ih m (.tail _ hm)]

theorem map_snd_placedFrom (path : Path) (n : Node) :
    (placedFrom path n).map (·.2) = n.preorder := by
  induction n using Node.induction generalizing path with
  | step n ih => rw [placedFrom_eq, preorder_eq, List.map_cons, map_snd_placedAmong ih]

theorem mem_placedAmong_iff {x : Path × Node} {path : Path} {k : Nat} {ns : List Node} :
    x ∈ placedAmong path k ns ↔ ∃ j c, ns[j]? = some c ∧ x ∈ placedFrom ((k + j) :: path) c := by
  induction ns generalizing k with
  | nil => simp [placedAmong]
  | cons n ns ih =>
    rw [placedAmong, List.mem_append, ih]
    constructor
    · rintro (h | ⟨j, c, hc, h⟩)
      · exact ⟨0, n, rfl, h⟩
      · exact ⟨j + 1, c, hc, by rwa [← Nat.add_assoc, Nat.add_right_comm]⟩
    · rintro ⟨j, c, hc, h⟩
      cases j with
      | zero => cases hc; exact .inl h
      | succ j => exact .inr ⟨j, c, hc, by rwa [Nat.add_right_comm, Nat.add_assoc]⟩

theorem mem_placedFrom_iff {place path : Path} {n x : Node} :
    (place, x) ∈ placedFrom path n ↔ ∃ inner, place = inner ++ path ∧ n.at? inner = some x := by
  induction n using Node.induction generalizing path with
  | step n ih =>
    rw [placedFrom_eq, List.mem_cons, mem_placedAmong_iff]
    constructor
    · rintro (h | ⟨j, c, hc, h⟩)
      · cases h
        exact ⟨[], rfl, rfl⟩
      · obtain ⟨inner, rfl, hx⟩ := (ih c (List.mem_of_getElem? hc)).1 h
        refine ⟨inner ++ [j], by simp, ?_⟩
        rw [at?_append, at?_cons, at?_nil, Option.bind_some, hc, Option.bind_some, hx]
    · rintro ⟨inner, rfl, hx⟩
      rcases List.eq_nil_or_concat inner with rfl | ⟨inner, j, rfl⟩
      · cases hx
        exact .inl rfl
      · rw [List.concat_eq_append, at?_append, at?_cons, at?_nil, Option.bind_some] at hx
        obtain ⟨c, hc, hx⟩ := Option.bind_eq_some_iff.1 hx
        exact .inr ⟨j, c, hc, (ih c (List.mem_of_getElem? hc)).2 ⟨inner, by simp, hx⟩⟩

theorem mem_placed_iff {root x : Node} {place : Path} :
    (place, x) ∈ root.placed ↔ root.at? place = some x := by
  simp [placed, mem_placedFrom_iff]

/-- A node strictly inside another one lies in one of its children. -/
theorem exists_child_of_encloses {root a b : Node} {p q : Path} (ha : root.at? p = some a)
    (hb : root.at? q = some b) (h : p.Encloses q) : ∃ c ∈ a.children, b ∈ c.preorder := by
  obtain ⟨k, hk⟩ := h.exists_child
  obtain ⟨c, hc, hsub⟩ := exists_around hk hb
  rw [at?_child ha] at hc
  exact ⟨c, List.mem_of_getElem? hc, hsub (self_mem_preorder b)⟩

/-! ## Spans that nest -/

open Text

/-- The spans of a tree cut the source, and those of the children of a node follow each other inside
its own. -/
structure Nested (source : Text) (root : Node) : Prop where
  cuts : ∀ n ∈ root.preorder, n.span.start ≤ n.span.stop ∧
    isBoundary source n.span.start = true ∧ isBoundary source n.span.stop = true
  inside : ∀ n ∈ root.preorder, ∀ c ∈ n.children,
    n.span.start ≤ c.span.start ∧ c.span.stop ≤ n.span.stop
  ordered : ∀ n ∈ root.preorder, n.children.Pairwise fun a b => a.span.stop ≤ b.span.start

instance (source : Text) (root : Node) : Decidable (root.Nested source) :=
  decidable_of_iff (_ ∧ _ ∧ _)
    ⟨fun h => ⟨h.1, h.2.1, h.2.2⟩, fun h => ⟨h.cuts, h.inside, h.ordered⟩⟩

section
variable {source : Text} {root n x : Node}

theorem Nested.within (h : root.Nested source) (hn : n ∈ root.preorder) (hx : x ∈ n.preorder) :
    n.span.start ≤ x.span.start ∧ x.span.stop ≤ n.span.stop := by
  induction n using Node.induction with
  | step n ih =>
    rcases mem_preorder.1 hx with rfl | ⟨c, hc, hx⟩
    · exact ⟨Nat.le_refl _, Nat.le_refl _⟩
    · have hin := h.inside n hn c hc
      have hbelow := ih c hc (preorder_subset hn (child_mem_preorder hc)) hx
      omega

/-- Of two nodes, the second one is met after the first one has ended, or stands in it. -/
def Follows (x y : Path × Node) : Prop :=
  x.2.span.stop ≤ y.2.span.start ∨ x.1.Encloses y.1

theorem Nested.pairwise_placedAmong {ns : List Node} (h : root.Nested source)
    (hns : ∀ n ∈ ns, n ∈ root.preorder)
    (hordered : ns.Pairwise fun a b => a.span.stop ≤ b.span.start)
    (ih : ∀ n ∈ ns, ∀ path, (placedFrom path n).Pairwise Follows) (path : Path) (k : Nat) :
    (placedAmong path k ns).Pairwise Follows := by
  induction ns generalizing k with
  | nil => rw [placedAmong]; exact .nil
  | cons n ns ihs =>
    obtain ⟨hfirst, hordered⟩ := List.pairwise_cons.1 hordered
    rw [placedAmong, List.pairwise_append]
    refine ⟨ih n (.head _) _, ihs (fun m hm => hns m (.tail _ hm)) hordered
      (fun m hm => ih m (.tail _ hm)) _, ?_⟩
    rintro ⟨p, a⟩ ha ⟨q, b⟩ hb
    -- The two stand in different children, and the child of the first ends before the other's.
    obtain ⟨inner, -, ha⟩ := mem_placedFrom_iff.1 ha
    obtain ⟨j, c, hc, hb⟩ := mem_placedAmong_iff.1 hb
    obtain ⟨inner', -, hb⟩ := mem_placedFrom_iff.1 hb
    have hc := List.mem_of_getElem? hc
    have h1 := h.within (hns n (.head _)) (mem_preorder_of_at? ha)
    have h2 := h.within (hns c (.tail _ hc)) (mem_preorder_of_at? hb)
    have h3 := hfirst c hc
    left
    simp only
    omega

theorem Nested.pairwise_placedFrom (h : root.Nested source) (hn : n ∈ root.preorder)
    (path : Path) : (placedFrom path n).Pairwise Follows := by
  induction n using Node.induction generalizing path with
  | step n ih =>
    have hchild : ∀ c ∈ n.children, c ∈ root.preorder := fun c hc =>
      preorder_subset hn (child_mem_preorder hc)
    rw [placedFrom_eq, List.pairwise_cons]
    refine ⟨fun ⟨q, b⟩ hb => .inr ?_, h.pairwise_placedAmong hchild (h.ordered n hn)
      (fun c hc => ih c hc (hchild c hc)) path 0⟩
    obtain ⟨j, c, -, hb⟩ := mem_placedAmong_iff.1 hb
    obtain ⟨inner, rfl, -⟩ := mem_placedFrom_iff.1 hb
    exact Path.encloses_of_child (List.suffix_append _ _)

/-- Two positions are the same, one lies around the other, or one node ends before the other one
starts. -/
theorem Nested.apart {a b : Node} {p q : Path} (h : root.Nested source)
    (ha : root.at? p = some a) (hb : root.at? q = some b) :
    p = q ∨ p.Encloses q ∨ q.Encloses p ∨ a.span.stop ≤ b.span.start ∨
      b.span.stop ≤ a.span.start := by
  let Apart (x y : Path × Node) : Prop := Follows x y ∨ Follows y x
  have : Std.Symm Apart := ⟨fun _ _ h => h.symm⟩
  have hall : root.placed.Pairwise Apart :=
    (h.pairwise_placedFrom (self_mem_preorder root) []).imp Or.inl
  by_cases he : (p, a) = (q, b)
  · exact .inl (congrArg Prod.fst he)
  · rcases hall.forall (mem_placed_iff.2 ha) (mem_placed_iff.2 hb) he with (h | h) | (h | h)
    · exact .inr (.inr (.inr (.inl h)))
    · exact .inr (.inl h)
    · exact .inr (.inr (.inr (.inr h)))
    · exact .inr (.inr (.inl h))

end

/-! ## Names at distinct offsets -/

/-- The names of a tree, identifiers and implicit parameters, start at distinct offsets. -/
def NamesDistinct (root : Node) : Prop :=
  ((root.preorder.filter (Kind.isDeclaringName ·.kind)).map (·.span.start)).Nodup

instance (root : Node) : Decidable root.NamesDistinct :=
  inferInstanceAs (Decidable (List.Nodup _))

/-- Where the nodes that pass a test start at distinct offsets, one of them stands at one place. -/
theorem place_unique_of_nodup {root a b : Node} {p q : Path} {test : Node → Bool}
    (h : ((root.preorder.filter test).map (·.span.start)).Nodup)
    (ha : root.at? p = some a) (hb : root.at? q = some b) (hta : test a = true)
    (htb : test b = true) (hstart : a.span.start = b.span.start) : p = q := by
  rw [← map_snd_placedFrom [] root, List.filter_map, List.map_map] at h
  have heq := List.inj_on_of_nodup_map h (List.mem_filter.2 ⟨mem_placed_iff.2 ha, hta⟩)
    (List.mem_filter.2 ⟨mem_placed_iff.2 hb, htb⟩) hstart
  exact congrArg Prod.fst heq

theorem NamesDistinct.place_unique {root a b : Node} {p q : Path} (h : root.NamesDistinct)
    (ha : root.at? p = some a) (hb : root.at? q = some b)
    (hka : Kind.isDeclaringName a.kind = true) (hkb : Kind.isDeclaringName b.kind = true)
    (hstart : a.span.start = b.span.start) : p = q :=
  place_unique_of_nodup h ha hb hka hkb hstart

end Node
end ParamTwin
