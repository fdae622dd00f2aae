import ParamTwin.Syntax.Parameter
import ParamTwin.Proofs.TreePath

/-!
# The parameters of a list

A parameter is declared by the nodes between two commas of its list: by a `parameter` node with a
name, or by an identifier that stands in the list itself. `Parameter.exists_group_of_mem_collect`
says so of every parameter of a list.
-/

namespace ParamTwin.Parameter

/-- The groups of a list hold its nodes in order. -/
theorem flatten_groups_sublist (ns : List Node) : (groups ns).flatten.Sublist ns := by
  induction ns with
  | nil => exact List.Sublist.refl _
  | cons n ns ih =>
    rw [groups]
    split
    · exact (List.nil_sublist ns).cons_cons n
    · rename_i g gs hgs
      rw [hgs] at ih
      split
      · exact ih.cons n
      · split
        · exact ih.cons n
        · exact ih.cons_cons n

theorem sublist_of_mem_groups {ns g : List Node} (h : g ∈ groups ns) : g.Sublist ns :=
  (List.sublist_flatten_of_mem h).trans (flatten_groups_sublist ns)

/-- Nodes that follow each other lie between the start of the first and the end of the last. -/
theorem between_of_ordered {first : Node} {rest : List Node}
    (hcuts : ∀ n ∈ first :: rest, n.span.start ≤ n.span.stop)
    (hordered : (first :: rest).Pairwise fun a b => a.span.stop ≤ b.span.start) :
    ∀ n ∈ first :: rest,
      first.span.start ≤ n.span.start ∧ n.span.stop ≤ (rest.getLastD first).span.stop := by
  induction rest generalizing first with
  | nil => simp
  | cons second rest ih =>
    obtain ⟨hfirst, hordered⟩ := List.pairwise_cons.1 hordered
    have hrest := ih (fun n hn => hcuts n (.tail _ hn)) hordered
    have hone := hcuts first (.head _)
    have htwo := hcuts second (.tail _ (.head _))
    have hnext := hfirst second (.head _)
    rw [List.getLastD_cons]
    intro n hn
    rcases List.mem_cons.1 hn with rfl | hn
    · have := (hrest second (.head _)).2
      exact ⟨Nat.le_refl _, by omega⟩
    · have := hrest n hn
      exact ⟨by omega, this.2⟩

/-- What a group of nodes says of the parameter that it declares. -/
structure OfGroup (source : Text) (group : List Node) (q : Parameter) : Prop where
  name : q.name = q.nameNode.textString source
  mem : q.binder ∈ group
  binder : group = [q.binder] ∧ q.binder.kind = "parameter" ∧
      q.binder.child? "name" = some q.nameNode ∨
    q.nameNode = q.binder ∧ q.binder.kind = "identifier"
  span : ∃ first rest, group = first :: rest ∧
    q.span = ⟨first.span.start, (rest.getLastD first).span.stop⟩

theorem ofGroup_of_ofNodes? {source : Text} {first : Node} {rest : List Node} {q : Parameter}
    (h : ofNodes? source first (rest.getLastD first) (first :: rest) = some q) :
    OfGroup source (first :: rest) q := by
  obtain ⟨name, hname, rfl⟩ := Option.map_eq_some_iff.1 h
  have hmem := List.mem_reverse.1 (List.mem_of_find?_eq_some hname)
  have hkind := List.find?_some hname
  exact ⟨rfl, hmem, .inr ⟨rfl, by simpa using hkind⟩, first, rest, rfl, rfl⟩

theorem ofGroup_of_ofGroup? {source : Text} {group : List Node} {q : Parameter}
    (h : ofGroup? source group = some q) : OfGroup source group q := by
  unfold ofGroup? at h
  split at h
  · cases h
  · rename_i n
    split at h
    · rename_i hk
      obtain ⟨name, hname, rfl⟩ := Option.map_eq_some_iff.1 h
      exact ⟨rfl, .head _, .inl ⟨rfl, by simpa using hk, hname⟩, n, [], rfl, rfl⟩
    · exact ofGroup_of_ofNodes? h
  · exact ofGroup_of_ofNodes? h

theorem exists_group_of_mem_collect {source : Text} {list : Node} {q : Parameter}
    (h : q ∈ collect source list) : ∃ group ∈ groups list.children, OfGroup source group q := by
  obtain ⟨⟨p, i⟩, hp, rfl⟩ := List.mem_map.1 h
  have hp := List.mem_of_getElem? (List.mem_zipIdx_iff_getElem?.1 hp)
  obtain ⟨group, hgroup, hp⟩ := List.mem_filterMap.1 hp
  obtain ⟨hname, hmem, hbinder, hspan⟩ := ofGroup_of_ofGroup? hp
  exact ⟨group, hgroup, hname, hmem, hbinder, hspan⟩

section
variable {source : Text} {list : Node} {q : Parameter}

theorem name_of_mem_collect (h : q ∈ collect source list) :
    q.name = q.nameNode.textString source := by
  obtain ⟨group, -, hq⟩ := exists_group_of_mem_collect h
  exact hq.name

theorem binder_mem (h : q ∈ collect source list) : q.binder ∈ list.children := by
  obtain ⟨group, hgroup, hq⟩ := exists_group_of_mem_collect h
  exact (sublist_of_mem_groups hgroup).subset hq.mem

/-- The name is a child of a `parameter` node, or declares the parameter itself. -/
theorem binder_of_mem_collect (h : q ∈ collect source list) :
    q.binder.kind = "parameter" ∧ q.binder.child? "name" = some q.nameNode ∨
      q.nameNode = q.binder ∧ q.binder.kind = "identifier" := by
  obtain ⟨group, -, hq⟩ := exists_group_of_mem_collect h
  exact hq.binder.imp_left And.right

theorem nameNode_mem_binder (h : q ∈ collect source list) : q.nameNode ∈ q.binder.preorder := by
  rcases binder_of_mem_collect h with ⟨-, hname⟩ | ⟨hname, -⟩
  · exact Node.child_mem_preorder (Node.child?_mem hname)
  · rw [hname]
    exact Node.self_mem_preorder _

theorem nameNode_mem (h : q ∈ collect source list) : q.nameNode ∈ list.preorder :=
  Node.preorder_subset (Node.child_mem_preorder (binder_mem h)) (nameNode_mem_binder h)

end

theorem nameNode_mem_of_ofGroup? {source : Text} {group : List Node} {q : Parameter}
    (h : ofGroup? source group = some q) : q.nameNode ∈ Node.preorderAll group := by
  have hq := ofGroup_of_ofGroup? h
  refine Node.mem_preorderAll.2 ⟨q.binder, hq.mem, ?_⟩
  rcases hq.binder with ⟨-, -, hname⟩ | ⟨hname, -⟩
  · exact Node.child_mem_preorder (Node.child?_mem hname)
  · rw [hname]
    exact Node.self_mem_preorder _

theorem nameNodes_sublist_flatten (source : Text) (gs : List (List Node)) :
    ((gs.filterMap (ofGroup? source)).map (·.nameNode)).Sublist (Node.preorderAll gs.flatten) := by
  induction gs with
  | nil => exact List.Sublist.refl _
  | cons g gs ih =>
    rw [List.flatten_cons, Node.preorderAll_append, List.filterMap_cons]
    split
    · exact ih.trans (List.sublist_append_right ..)
    · rename_i q hq
      exact (List.singleton_sublist.2 (nameNode_mem_of_ofGroup? hq)).append ih

/-- What does not depend on the position of a parameter is that of its group. -/
theorem map_collect {β : Type} (f : Parameter → β)
    (hf : ∀ (p : Parameter) (i : Nat), f { p with position := i } = f p) (source : Text)
    (list : Node) :
    (collect source list).map f = ((groups list.children).filterMap (ofGroup? source)).map f := by
  conv_rhs => rw [← List.zipIdx_map_fst 0 (List.filterMap _ _), List.map_map]
  rw [collect, List.map_map]
  exact List.map_congr_left fun x _ => hf x.1 x.2

/-- The names of the parameters stand in the list in their order. -/
theorem nameNodes_sublist (source : Text) (list : Node) :
    ((collect source list).map (·.nameNode)).Sublist list.preorder := by
  rw [map_collect (·.nameNode) (fun _ _ => rfl), Node.preorder_eq]
  exact ((nameNodes_sublist_flatten source _).trans
    (Node.preorderAll_sublist (flatten_groups_sublist _))).cons list

end ParamTwin.Parameter
