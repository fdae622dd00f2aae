import ParamTwin.Proofs.DocumentOrder
import ParamTwin.Proofs.ParameterGroups
import Mathlib.Data.List.Forall2
import Mathlib.Data.List.ReduceOption

/-!
# The pieces of a parameter list

The commas of a parameter list part it into pieces. A piece without its brackets and comments is a
group of nodes, and a group that has a name is a parameter:

* `Parameter.groups_eq`: the groups are those of the pieces, in their order.
* `Parameter.ofGroup?_eq_none_iff`: a group is no parameter iff nothing names it (`NamedBy`).
* `Parameter.parameters_partition_list`: what each piece yields, and where the parameters lie.
-/

namespace ParamTwin.Parameter

/-! ## Pieces and groups -/

/-- The children of a parameter list between its commas. -/
def pieces (ns : List Node) : List (List Node) :=
  ns.splitOnP (·.kind == ",")

/-- The nodes of a piece that belong to its parameter: all but brackets and comments. -/
def group (piece : List Node) : List Node :=
  piece.filter fun n => !isPunctuation n.kind

theorem pieces_cons (n : Node) (ns : List Node) :
    ∃ piece rest, pieces ns = piece :: rest ∧
      pieces (n :: ns) =
        if n.kind == "," then [] :: piece :: rest else (n :: piece) :: rest := by
  obtain ⟨piece, rest, hpieces⟩ :=
    List.exists_cons_of_ne_nil (List.splitOnP_ne_nil (·.kind == ",") ns)
  refine ⟨piece, rest, hpieces, ?_⟩
  rw [pieces, List.splitOnP_cons_eq_if_modifyHead, hpieces, List.modifyHead_cons]

theorem groups_eq (ns : List Node) : groups ns = (pieces ns).map group := by
  induction ns with
  | nil => rfl
  | cons n ns ih =>
    obtain ⟨piece, rest, hpieces, hcons⟩ := pieces_cons n ns
    rw [groups, ih, hcons, hpieces]
    by_cases hcomma : n.kind == ","
    · simp [hcomma, group]
    · by_cases hmark : isPunctuation n.kind = true
      · simp [hcomma, hmark, group]
      · simp [hcomma, hmark, group]

theorem sublist_of_mem_pieces {ns piece : List Node} (h : piece ∈ pieces ns) :
    piece.Sublist ns := by
  induction ns generalizing piece with
  | nil =>
    obtain rfl : piece = [] := List.mem_singleton.1 h
    exact .refl _
  | cons n ns ih =>
    obtain ⟨head, rest, hpieces, hcons⟩ := pieces_cons n ns
    rw [hcons] at h
    rw [hpieces] at ih
    split at h
    · cases h with
      | head => exact List.nil_sublist _
      | tail _ h => exact (ih h).cons n
    · cases h with
      | head => exact (ih (.head _)).cons_cons n
      | tail _ h => exact (ih (.tail _ h)).cons n

theorem group_sublist (piece : List Node) : (group piece).Sublist piece :=
  List.filter_sublist

theorem group_append (front back : List Node) :
    group (front ++ back) = group front ++ group back :=
  List.filter_append ..

theorem group_comment {c : Node} (h : c.kind = "comment") (back : List Node) :
    group (c :: back) = group back := by
  simp [group, isPunctuation, h]

/-! ## Names and types of groups -/

/-- What names the parameter of a group: the `name` of a group that is one `parameter` node, and
else the last identifier. -/
inductive NamedBy : List Node → Node → Prop
  | wrapped {n name : Node} :
    n.kind = "parameter" → n.child? "name" = some name → NamedBy [n] name
  | bare {front back : List Node} {name : Node} :
    name.kind = "identifier" → (∀ n ∈ back, n.kind ≠ "identifier") →
      NamedBy (front ++ name :: back) name

/-- Whether a node of a group can be the type of what another one names. -/
def isTypeBeside (name n : Node) : Bool :=
  n.marks.named && n.kind != "attribute_list" && n.row != name.row

/-- What gives the type of a group with a name: the `type` of a group that is one `parameter` node,
and else the first node that can be one. -/
inductive TypedBy (name : Node) : List Node → Option Node → Prop
  | wrapped {n : Node} : n.kind = "parameter" → TypedBy name [n] (n.child? "type")
  | bare {g : List Node} :
    (∀ n, g = [n] → n.kind ≠ "parameter") → TypedBy name g (g.find? (isTypeBeside name))

theorem namedBy_wrapped_iff {n name : Node} (h : n.kind = "parameter") :
    NamedBy [n] name ↔ n.child? "name" = some name := by
  constructor
  · intro hnamed
    generalize hg : [n] = g at hnamed
    cases hnamed with
    | wrapped _ hname =>
      cases hg
      exact hname
    | @bare front back _ hkind _ =>
      have hmem : name ∈ [n] := by rw [hg]; simp
      rw [List.mem_singleton.1 hmem, h] at hkind
      exact absurd hkind (by decide)
  · exact .wrapped h

theorem namedBy_bare_iff {g : List Node} {name : Node}
    (h : ∀ n, g = [n] → n.kind ≠ "parameter") :
    NamedBy g name ↔ g.reverse.find? (·.kind == "identifier") = some name := by
  rw [List.find?_eq_some_iff_append]
  constructor
  · intro hnamed
    cases hnamed with
    | wrapped hkind _ => exact absurd hkind (h _ rfl)
    | @bare front back _ hkind hlast =>
      exact ⟨by simpa using hkind, back.reverse, front.reverse, by simp, by simpa using hlast⟩
  · intro ⟨hkind, back, front, hsplit, hlast⟩
    have hg : g = front.reverse ++ name :: back.reverse := by
      rw [← List.reverse_reverse g, hsplit]
      simp
    rw [hg]
    exact .bare (by simpa using hkind) (by simpa using hlast)

/-- A group is one `parameter` node, or its nodes are looked at one by one. -/
theorem ofGroup?_cases (source : Text) (g : List Node) :
    (∃ n, g = [n] ∧ n.kind = "parameter" ∧ ofGroup? source g = ofNode? source n) ∨
    (∀ n, g = [n] → n.kind ≠ "parameter") ∧
      ((g = [] ∧ ofGroup? source g = none) ∨ ∃ first rest, g = first :: rest ∧
        ofGroup? source g = ofNodes? source first (rest.getLastD first) g) := by
  match g with
  | [] => exact .inr ⟨by simp, .inl ⟨rfl, rfl⟩⟩
  | [n] =>
    by_cases hkind : n.kind = "parameter"
    · exact .inl ⟨n, rfl, hkind, by simp [ofGroup?, hkind]⟩
    · exact .inr ⟨by simpa using hkind, .inr ⟨n, [], rfl, by simp [ofGroup?, hkind]⟩⟩
  | first :: second :: rest =>
    exact .inr ⟨by simp, .inr ⟨first, second :: rest, rfl, rfl⟩⟩

theorem ofGroup?_eq_none_iff {source : Text} {g : List Node} :
    ofGroup? source g = none ↔ ∀ name, ¬NamedBy g name := by
  obtain ⟨n, rfl, hkind, hof⟩ | ⟨hbare, ⟨rfl, hof⟩ | ⟨first, rest, -, hof⟩⟩ :=
    ofGroup?_cases source g
  · rw [hof, ofNode?, Option.map_eq_none_iff, Option.eq_none_iff_forall_ne_some]
    simp only [namedBy_wrapped_iff hkind, ne_eq]
  · simp only [hof, namedBy_bare_iff hbare]
    simp
  · rw [hof, ofNodes?, Option.map_eq_none_iff, Option.eq_none_iff_forall_ne_some]
    simp only [namedBy_bare_iff hbare, ne_eq]

theorem namedBy_of_ofGroup? {source : Text} {g : List Node} {q : Parameter}
    (h : ofGroup? source g = some q) :
    NamedBy g q.nameNode ∧ TypedBy q.nameNode g q.typeNode := by
  obtain ⟨n, rfl, hkind, hof⟩ | ⟨hbare, ⟨rfl, hof⟩ | ⟨first, rest, -, hof⟩⟩ :=
    ofGroup?_cases source g
  · obtain ⟨name, hname, rfl⟩ := Option.map_eq_some_iff.1 (hof.symm.trans h)
    exact ⟨.wrapped hkind hname, .wrapped hkind⟩
  · cases hof.symm.trans h
  · obtain ⟨name, hname, rfl⟩ := Option.map_eq_some_iff.1 (hof.symm.trans h)
    exact ⟨(namedBy_bare_iff hbare).2 hname, .bare hbare⟩

/-! ## Where parameters lie -/

section
variable {source : Text} {list : Node}

/-- The parameter of a piece: what names it and gives its type, and that it runs from the first to
the last node of the group, with both inside. Comments in front of the group and behind it stay
outside. -/
structure OfPiece (source : Text) (piece : List Node) (q : Parameter) : Prop where
  named : NamedBy (group piece) q.nameNode
  typed : TypedBy q.nameNode (group piece) q.typeNode
  name : q.name = q.nameNode.textString source
  first : ∃ n, (group piece).head? = some n ∧ q.span.start = n.span.start
  last : ∃ n, (group piece).getLast? = some n ∧ q.span.stop = n.span.stop
  holdsName : q.span.start ≤ q.nameNode.span.start ∧ q.nameNode.span.stop ≤ q.span.stop
  holdsType : ∀ n, q.typeNode = some n →
    q.span.start ≤ n.span.start ∧ n.span.stop ≤ q.span.stop
  comments : ∀ front c back, piece = front ++ c :: back → c.kind = "comment" →
    (group front = [] → c.span.stop ≤ q.span.start) ∧
      (group back = [] → q.span.stop ≤ c.span.start)

/-- What a piece yields: a parameter if it has a name, and else nothing. -/
def Yields (source : Text) (piece : List Node) : Option Parameter → Prop
  | some q => OfPiece source piece q
  | none => ∀ name, ¬NamedBy (group piece) name

theorem typeNode_mem_of_typedBy {name n : Node} {g : List Node} (h : TypedBy name g (some n)) :
    ∃ x ∈ g, n ∈ x.preorder := by
  generalize ht : some n = type at h
  cases h with
  | wrapped _ => exact ⟨_, .head _, Node.child_mem_preorder (Node.child?_mem ht.symm)⟩
  | bare _ => exact ⟨n, List.mem_of_find?_eq_some ht.symm, Node.self_mem_preorder n⟩

theorem nameNode_mem_of_namedBy {name : Node} {g : List Node} (h : NamedBy g name) :
    ∃ x ∈ g, name ∈ x.preorder := by
  cases h with
  | wrapped _ hname => exact ⟨_, .head _, Node.child_mem_preorder (Node.child?_mem hname)⟩
  | bare _ _ => exact ⟨name, by simp, Node.self_mem_preorder name⟩

/-- Where the nodes of the group of a parameter lie. -/
theorem within_of_ofGroup? {piece : List Node} {q : Parameter} (hnested : list.Nested source)
    (hpiece : piece.Sublist list.children) (hq : ofGroup? source (group piece) = some q)
    {x y : Node} (hx : x ∈ group piece) (hy : y ∈ x.preorder) :
    q.span.start ≤ y.span.start ∧ y.span.stop ≤ q.span.stop := by
  obtain ⟨first, rest, hgroup, hspan⟩ := (ofGroup_of_ofGroup? hq).span
  have hsub := (group_sublist piece).trans hpiece
  have hchild : ∀ n ∈ group piece, n ∈ list.preorder := fun n hn =>
    Node.child_mem_preorder (hsub.subset hn)
  have hcuts : ∀ n ∈ first :: rest, n.span.start ≤ n.span.stop := fun n hn =>
    (hnested.cuts n (hchild n (hgroup ▸ hn))).1
  have hordered := (hnested.ordered list (Node.self_mem_preorder list)).sublist hsub
  have hbetween := between_of_ordered hcuts (hgroup ▸ hordered) x (hgroup ▸ hx)
  have hinside := hnested.within (hchild x hx) hy
  rw [hspan]
  exact ⟨Nat.le_trans hbetween.1 hinside.1, Nat.le_trans hinside.2 hbetween.2⟩

theorem ofPiece_of_ofGroup? {piece : List Node} {q : Parameter} (hnested : list.Nested source)
    (hpiece : piece.Sublist list.children) (hq : ofGroup? source (group piece) = some q) :
    OfPiece source piece q := by
  have hof := ofGroup_of_ofGroup? hq
  obtain ⟨hnamed, htyped⟩ := namedBy_of_ofGroup? hq
  obtain ⟨first, rest, hgroup, hspan⟩ := hof.span
  have hordered := (hnested.ordered list (Node.self_mem_preorder list)).sublist hpiece
  refine ⟨hnamed, htyped, hof.name, ⟨first, by rw [hgroup]; rfl, by rw [hspan]⟩,
    ⟨rest.getLastD first, ?_, by rw [hspan]⟩, ?_, fun n hn => ?_, ?_⟩
  · rw [hgroup, List.getLast?_cons, List.getLastD_eq_getLast?]
  · obtain ⟨x, hx, hname⟩ := nameNode_mem_of_namedBy hnamed
    exact within_of_ofGroup? hnested hpiece hq hx hname
  · obtain ⟨x, hx, htype⟩ := typeNode_mem_of_typedBy (hn ▸ htyped)
    exact within_of_ofGroup? hnested hpiece hq hx htype
  · intro front c back hsplit hcomment
    rw [hsplit, List.pairwise_append, List.pairwise_cons] at hordered
    obtain ⟨-, ⟨hback, -⟩, hfront⟩ := hordered
    have hsides : group piece = group front ++ group back := by
      rw [hsplit, group_append, group_comment hcomment]
    rw [hspan]
    constructor
    · intro hempty
      rw [hempty, List.nil_append, hgroup] at hsides
      exact hback first ((group_sublist back).subset (hsides ▸ .head _))
    · intro hempty
      rw [hempty, List.append_nil, hgroup] at hsides
      have hlast : rest.getLastD first ∈ group front := by
        rw [← hsides, ← List.getLast_eq_getLastD (List.cons_ne_nil first rest)]
        exact List.getLast_mem _
      exact hfront _ ((group_sublist front).subset hlast) c (.head _)

/-- The pieces of a list one after the other, their parameters counted from `k`. -/
theorem exists_outcomes (hnested : list.Nested source) {ps : List (List Node)}
    (hps : ∀ piece ∈ ps, piece.Sublist list.children) (k : Nat) :
    ∃ outcomes : List (Option Parameter), List.Forall₂ (Yields source) ps outcomes ∧
      outcomes.reduceOption = (((ps.map group).filterMap (ofGroup? source)).zipIdx k).map
        fun (p, i) => { p with position := i } := by
  induction ps generalizing k with
  | nil => exact ⟨[], .nil, rfl⟩
  | cons piece ps ih =>
    have hrest : ∀ p ∈ ps, p.Sublist list.children := fun p hp => hps p (.tail _ hp)
    cases hq : ofGroup? source (group piece) with
    | none =>
      obtain ⟨outcomes, hyields, heq⟩ := ih hrest k
      refine ⟨none :: outcomes, .cons (ofGroup?_eq_none_iff.1 hq) hyields, ?_⟩
      rw [List.reduceOption_cons_of_none, heq, List.map_cons, List.filterMap_cons_none hq]
    | some q =>
      obtain ⟨outcomes, hyields, heq⟩ := ih hrest (k + 1)
      obtain ⟨h1, h2, h3, h4, h5, h6, h7, h8⟩ :=
        ofPiece_of_ofGroup? hnested (hps piece (.head _)) hq
      refine ⟨some { q with position := k } :: outcomes,
        .cons ⟨h1, h2, h3, h4, h5, h6, h7, h8⟩ hyields, ?_⟩
      rw [List.reduceOption_cons_of_some, heq, List.map_cons, List.filterMap_cons_some hq,
        List.zipIdx_cons, List.map_cons]

theorem exists_piece_of_mem {ps : List (List Node)} {outcomes : List (Option Parameter)}
    {q : Parameter} (h : List.Forall₂ (Yields source) ps outcomes) (hq : some q ∈ outcomes) :
    ∃ piece ∈ ps, OfPiece source piece q := by
  induction h with
  | nil => cases hq
  | cons hyields _ ih =>
    cases hq with
    | head => exact ⟨_, .head _, hyields⟩
    | tail _ hq =>
      obtain ⟨piece, hpiece, hof⟩ := ih hq
      exact ⟨piece, .tail _ hpiece, hof⟩

theorem pairwise_ofGroup? (hnested : list.Nested source) {gs : List (List Node)}
    (hgs : gs.flatten.Sublist list.children) :
    (gs.filterMap (ofGroup? source)).Pairwise fun p q => p.span.stop ≤ q.span.start := by
  induction gs with
  | nil => exact .nil
  | cons g gs ih =>
    rw [List.flatten_cons] at hgs
    have hlater := ih ((List.sublist_append_right g gs.flatten).trans hgs)
    cases hp : ofGroup? source g with
    | none => rwa [List.filterMap_cons_none hp]
    | some p =>
      rw [List.filterMap_cons_some hp, List.pairwise_cons]
      refine ⟨fun q hq => ?_, hlater⟩
      obtain ⟨g', hg', hq⟩ := List.mem_filterMap.1 hq
      obtain ⟨first, rest, rfl, hpspan⟩ := (ofGroup_of_ofGroup? hp).span
      obtain ⟨first', rest', rfl, hqspan⟩ := (ofGroup_of_ofGroup? hq).span
      have hordered := (hnested.ordered list (Node.self_mem_preorder list)).sublist hgs
      have hlast : rest.getLastD first ∈ first :: rest := by
        rw [← List.getLast_eq_getLastD (List.cons_ne_nil first rest)]
        exact List.getLast_mem _
      rw [hpspan, hqspan]
      exact (List.pairwise_append.1 hordered).2.2 _ hlast _
        (List.mem_flatten.2 ⟨_, hg', .head _⟩)

/-- A comma of the list stands in front of a piece or behind it. -/
theorem apart_of_comma {piece : List Node} {q : Parameter} {c : Node}
    (hnested : list.Nested source) (hpiece : piece ∈ pieces list.children)
    (hq : OfPiece source piece q) (hc : c ∈ list.children) (hcomma : c.kind = ",") :
    c.span.stop ≤ q.span.start ∨ q.span.stop ≤ c.span.start := by
  obtain ⟨before, after, hsplit⟩ := List.append_of_mem hc
  have hordered := hnested.ordered list (Node.self_mem_preorder list)
  rw [hsplit, List.pairwise_append, List.pairwise_cons] at hordered
  obtain ⟨-, ⟨hafter, -⟩, hbefore⟩ := hordered
  obtain ⟨first, hfirst, hstart⟩ := hq.first
  obtain ⟨last, hlast, hstop⟩ := hq.last
  have hmem := (group_sublist piece).subset
  rw [pieces, hsplit, List.splitOnP_append_cons _ _ (by simpa using hcomma),
    List.mem_append] at hpiece
  cases hpiece with
  | inl h =>
    right
    rw [hstop]
    exact hbefore last ((sublist_of_mem_pieces h).subset (hmem (List.mem_of_getLast? hlast))) c
      (.head _)
  | inr h =>
    left
    rw [hstart]
    exact hafter first ((sublist_of_mem_pieces h).subset (hmem (List.mem_of_head? hfirst)))

end

/-- **The parameters of a list partition it.** Each piece between commas yields one parameter if it
has a name and else none; the parameters come in the order of their pieces, are counted from zero
and lie apart, and no comma of the list lies in one of them. -/
theorem parameters_partition_list (source : Text) (list : Node) (hnested : list.Nested source) :
    let parameters := collect source list
    (∃ outcomes, List.Forall₂ (Yields source) (pieces list.children) outcomes ∧
      outcomes.reduceOption = parameters) ∧
    parameters.map (·.position) = List.range parameters.length ∧
    parameters.Pairwise (fun p q => p.span.stop ≤ q.span.start) ∧
    ∀ q ∈ parameters, ∀ c ∈ list.children, c.kind = "," →
      c.span.stop ≤ q.span.start ∨ q.span.stop ≤ c.span.start := by
  intro parameters
  obtain ⟨outcomes, hyields, heq⟩ := exists_outcomes hnested
    (fun piece (h : piece ∈ pieces list.children) => sublist_of_mem_pieces h) 0
  rw [← groups_eq] at heq
  refine ⟨⟨outcomes, hyields, heq⟩, ?_, ?_, fun q hq c hc hcomma => ?_⟩
  · simp only [parameters, collect, List.map_map, List.length_map, List.length_zipIdx,
      List.range_eq_range']
    exact List.zipIdx_map_snd ..
  · have hspans : (parameters.map (·.span)).Pairwise fun a b => a.stop ≤ b.start := by
      rw [map_collect (·.span) fun _ _ => rfl]
      exact List.pairwise_map.2 (pairwise_ofGroup? hnested (flatten_groups_sublist list.children))
    exact List.pairwise_map.1 hspans
  · have hmem : some q ∈ outcomes := List.reduceOption_mem_iff.1 (heq ▸ hq)
    obtain ⟨piece, hpiece, hof⟩ := exists_piece_of_mem hyields hmem
    exact apart_of_comma hnested hpiece hof hc hcomma

/-- `(/*a*/ int x /*b*/, , [A] params int[] y, ref)`: the second piece is empty, and the last one
has no name. -/
def mixedSource : Text := "(/*a*/ int x /*b*/, , [A] params int[] y, ref)".toList

def mixedList : Node :=
  .ofRows [
    .named 0 "parameter_list" "parameters" 0 46, .token 1 "(" 0, .named 1 "comment" none 1 6,
    .named 1 "parameter" none 7 12, .named 2 "predefined_type" "type" 7 10,
    .named 2 "identifier" "name" 11 12, .named 1 "comment" none 13 18, .token 1 "," 18,
    .token 1 "," 20, .named 1 "attribute_list" none 22 25, .token 2 "[" 22,
    .named 2 "attribute" none 23 24, .token 2 "]" 24, .token 1 "params" 26,
    .named 1 "array_type" "type" 33 38, .named 1 "identifier" "name" 39 40, .token 1 "," 40,
    .named 1 "ERROR" none 42 45, .token 2 "ref" 42, .token 1 ")" 45]

theorem mixed_list_partitioned :
    mixedList.Nested mixedSource ∧ (pieces mixedList.children).length = 4 ∧
      (collect mixedSource mixedList).map (fun q => (q.name, q.span)) =
        [("x", ⟨7, 12⟩), ("y", ⟨22, 40⟩)] ∧
      (∃ outcomes, List.Forall₂ (Yields mixedSource) (pieces mixedList.children) outcomes ∧
        outcomes.reduceOption = collect mixedSource mixedList) ∧
      (collect mixedSource mixedList).map (·.position) = [0, 1] := by
  have hnested : mixedList.Nested mixedSource := by decide
  obtain ⟨houtcomes, hpositions, -⟩ := parameters_partition_list mixedSource mixedList hnested
  exact ⟨hnested, by decide, by decide, houtcomes, hpositions⟩

end ParamTwin.Parameter
