import ParamTwin.Proofs.NewName
import ParamTwin.Proofs.ProcedurePlace
import ParamTwin.Proofs.ReferenceNames
import ParamTwin.Proofs.VisitedNode

/-!
# The parameters of a procedure in the model

The list of procedures reads the parameters off a procedure, and the walk declares them when it
enters the procedure. The two agree on every procedure that the walk visits.

* `Lexical.Names.exists_place`: a node names what stands close below it, or what stands directly in
  a designation or a local function.
* `Procedure.NamePlace.suffix`: hence only nodes inside a procedure name its parameters, and no
  declaration that comes before a parameter takes its offset (`Procedure.mem_declarations`).
* `Model.parameter_symbol`: the symbol of a parameter is at the offset of its name, no other
  parameter has it, and what refers to it stands inside the procedure.
-/

namespace ParamTwin

open Lexical

namespace Lexical

/-- Names that are not empty start at distinct offsets; the bare parameter of a lambda is a name as
other identifiers are. -/
def DistinctNames (source : Text) (root : Node) : Prop :=
  ((root.preorder.filter fun n => Kind.isDeclaringName n.kind && n.textString source != "").map
    (·.span.start)).Nodup

instance (source : Text) (root : Node) : Decidable (DistinctNames source root) :=
  inferInstanceAs (Decidable (List.Nodup _))

/-- A name that is not empty stands at a place. -/
structure NameAt (source : Text) (root : Node) (place : Path) (name : Node) : Prop where
  node : root.at? place = some name
  kind : Kind.isDeclaringName name.kind = true
  text : name.textString source ≠ ""

theorem DistinctNames.place_unique {source : Text} {root a b : Node} {p q : Path}
    (h : DistinctNames source root) (ha : NameAt source root p a) (hb : NameAt source root q b)
    (hstart : a.span.start = b.span.start) : p = q :=
  Node.place_unique_of_nodup h ha.node hb.node (by simp [ha.kind, ha.text])
    (by simp [hb.kind, hb.text]) hstart

theorem DistinctNames.eq_of_start {source : Text} {root a b : Node} {p q : Path}
    (h : DistinctNames source root) (ha : NameAt source root p a) (hb : NameAt source root q b)
    (hstart : a.span.start = b.span.start) : a = b := by
  obtain rfl := h.place_unique ha hb hstart
  exact Option.some.inj (ha.node.symm.trans hb.node)

end Lexical

namespace Node

/-- Listed procedures have their parameters in a parameter list. -/
def ListsParameters (root : Node) : Prop :=
  ∀ n ∈ root.preorder, Procedure.isListed true n.kind = true →
    ∀ list ∈ n.child? "parameters", list.kind = "parameter_list"

instance (root : Node) : Decidable root.ListsParameters :=
  inferInstanceAs (Decidable (∀ n ∈ root.preorder, _ → _))

/-- The kind of the node around a place. -/
def kindAround (root : Node) (place : Path) : Option String :=
  (root.at? place.tail).map (·.kind)

theorem kindAround_child {root n : Node} {path : Path} (h : root.at? path = some n) (k : Nat) :
    root.kindAround (k :: path) = some n.kind := by
  rw [kindAround, List.tail_cons, h, Option.map_some]

theorem exists_place_inside {root m d x : Node} {path : Path} (hm : root.at? path = some m)
    (hd : d ∈ m.preorder) (hx : x ∈ d.children) :
    ∃ place, root.at? place = some x ∧ path <:+ place ∧ root.kindAround place = some d.kind := by
  obtain ⟨outer, hs, hd⟩ := exists_place_below hm hd
  obtain ⟨k, hx⟩ := exists_place_of_child hd hx
  exact ⟨k :: outer, hx, hs.trans (List.suffix_cons ..), kindAround_child hd k⟩

end Node

/-! ## Where the names of a node stand -/

section
variable {source : Text} {root : Node} {path : Path}

/-- The name of a parameter stands in its list or in a `parameter` of the list. -/
theorem Parameter.exists_place {list : Node} {q : Parameter} (hlist : root.at? path = some list)
    (hq : q ∈ Parameter.collect source list) :
    ∃ place, root.at? place = some q.nameNode ∧ path <:+ place ∧
      (place.length = path.length + 1 ∧ root.kindAround place = some list.kind ∨
        place.length = path.length + 2 ∧ root.kindAround place = some "parameter") := by
  obtain ⟨b, hb⟩ := Node.exists_place_of_child hlist (Parameter.binder_mem hq)
  rcases Parameter.binder_of_mem_collect hq with ⟨hk, hname⟩ | ⟨hname, -⟩
  · obtain ⟨k, hk'⟩ := Node.exists_place_of_child hb (Node.child?_mem hname)
    refine ⟨k :: b :: path, hk', ?_, .inr ⟨rfl, hk ▸ Node.kindAround_child hb k⟩⟩
    exact (List.suffix_cons b path).trans (List.suffix_cons k _)
  · exact ⟨b :: path, by rw [hb, hname], List.suffix_cons ..,
      .inl ⟨rfl, Node.kindAround_child hlist b⟩⟩

namespace Lexical

/-- A place at which a node can name something: at most two steps below it, or three steps in a
`parameter`, or directly in a designation or a local function. -/
def NamedFrom (root : Node) (path place : Path) : Prop :=
  path <:+ place ∧
    (place.length ≤ path.length + 2 ∨
      place.length = path.length + 3 ∧ root.kindAround place = some "parameter" ∨
      ∃ kind ∈ "local_function_statement" :: designationKinds, root.kindAround place = some kind)

theorem namedFrom_child (k : Nat) : NamedFrom root path (k :: path) :=
  ⟨List.suffix_cons .., .inl (by simp)⟩

theorem Names.exists_place {m x : Node} (hm : root.at? path = some m) (h : Names source m x) :
    ∃ place, root.at? place = some x ∧ NamedFrom root path place := by
  have hchild : ∀ c ∈ m.children, ∃ place, root.at? place = some c ∧ NamedFrom root path place := by
    intro c hc
    obtain ⟨k, hk⟩ := Node.exists_place_of_child hm hc
    exact ⟨k :: path, hk, namedFrom_child k⟩
  cases h with
  | field _ hx => exact hchild x (Node.child?_mem hx)
  | child hx _ => exact hchild x hx
  | designated hc hx =>
    rcases parent_of_designated hx with rfl | ⟨d, hd, hx, hk⟩
    · exact hchild x hc
    · have hd := Node.preorder_subset (Node.child_mem_preorder hc) hd
      obtain ⟨place, hx, hs, hkind⟩ := Node.exists_place_inside hm hd hx
      exact ⟨place, hx, hs, .inr (.inr ⟨d.kind, .tail _ hk, hkind⟩)⟩
  | hoisted hx =>
    obtain ⟨f, hf, hk, hx⟩ := function_of_hoisted hx
    obtain ⟨place, hx, hs, hkind⟩ := Node.exists_place_inside hm hf (Node.child?_mem hx)
    exact ⟨place, hx, hs, .inr (.inr ⟨f.kind, by simp [hk], hkind⟩)⟩
  | parameter hl hp =>
    obtain ⟨j, hj⟩ := Node.exists_place_of_child hm hl
    obtain ⟨place, hx, hs, hkind⟩ := Parameter.exists_place hj hp
    refine ⟨place, hx, (List.suffix_cons j path).trans hs, ?_⟩
    rcases hkind with ⟨hlen, -⟩ | ⟨hlen, hkind⟩
    · exact .inl (by simp [hlen])
    · exact .inr (.inl ⟨by simp [hlen], hkind⟩)

end Lexical

namespace Procedure

/-- A place at which the name of a parameter of a procedure stands. -/
def NamePlace (root : Node) (path place : Path) : Prop :=
  path <:+ place ∧
    (place.length = path.length + 2 ∧ root.kindAround place = some "parameter_list" ∨
      place.length = path.length + 3 ∧ root.kindAround place = some "parameter")

theorem NamePlace.unique {path' place : Path} (h : NamePlace root path place)
    (h' : NamePlace root path' place) : path = path' := by
  have hlen : path.length = path'.length := by
    rcases h.2 with ⟨hlen, hk⟩ | ⟨hlen, hk⟩ <;> rcases h'.2 with ⟨hlen', hk'⟩ | ⟨hlen', hk'⟩
    · omega
    · exact absurd (hk.symm.trans hk') (by decide)
    · exact absurd (hk.symm.trans hk') (by decide)
    · omega
  exact (List.suffix_of_suffix_length_le h.1 h'.1 (Nat.le_of_eq hlen)).eq_of_length hlen

/-- Only nodes at or inside a procedure name its parameters. -/
theorem NamePlace.suffix {outer place : Path} (h : NamePlace root path place)
    (hfrom : NamedFrom root outer place) : path <:+ outer := by
  refine (List.suffix_or_suffix_of_suffix h.1 hfrom.1).elim id fun hs => ?_
  have hle : path.length ≤ outer.length := by
    rcases h.2 with ⟨hlen, hk⟩ | ⟨hlen, hk⟩ <;>
      rcases hfrom.2 with hlen' | ⟨hlen', hk'⟩ | ⟨kind, hmem, hk'⟩
    · omega
    · exact absurd (hk.symm.trans hk') (by decide)
    · cases hk.symm.trans hk'
      exact absurd hmem (by decide)
    · omega
    · omega
    · cases hk.symm.trans hk'
      exact absurd hmem (by decide)
  obtain rfl := hs.eq_of_length_le hle
  exact List.suffix_rfl

end Procedure
end

/-! ## The declaration of a parameter -/

/-- A name is declared if no name before it takes its offset. -/
theorem Lexical.mem_declarations_of_first {source : Text} {es before after : List Event}
    {scope : ScopeId} {x : Binding} (he : es = before ++ .declare scope x :: after)
    (hname : (x.symbol source).name ≠ "") (hdiscard : (x.symbol source).name ≠ "_")
    (hfirst : ∀ s y, .declare s y ∈ before → (y.symbol source).name ≠ "" →
      y.name.span.start ≠ x.name.span.start) :
    ⟨scope, x.symbol source⟩ ∈ declarations source es := by
  have hfree : ∀ d ∈ declarations source before, d.symbol.offset ≠ (x.symbol source).offset := by
    intro d hd heq
    obtain ⟨hd', y, hy, hsymbol⟩ := exists_declare_of_mem hd
    rw [hsymbol] at hd' heq
    exact hfirst d.scope y hy hd' heq
  have hnext : declarations source (before ++ [.declare scope x]) =
      declarations source before ++ [⟨scope, x.symbol source⟩] := by
    rw [declarations_append_one, declareNext, if_neg]
    simpa [hname, hdiscard] using hfree
  rw [he, List.append_cons]
  refine declarations_subset_append source _ after ?_
  rw [hnext]
  exact List.mem_append_right _ (.head _)

theorem Identifier.ne_empty_of_bare {name : String} (h : Identifier.bare name ≠ "") :
    name ≠ "" := by
  rintro rfl
  exact h (by decide)

namespace Procedure

/-- A listed procedure and its parameter list stand at a place. -/
structure ListAt (root : Node) (path : Path) (n list : Node) : Prop where
  node : root.at? path = some n
  listed : isListed true n.kind = true
  list : n.child? "parameters" = some list

section
variable {source : Text} {root n list : Node} {path : Path} {q : Parameter}

theorem ListAt.mem_preorder (h : ListAt root path n list) : list ∈ root.preorder :=
  Node.preorder_subset (Node.mem_preorder_of_at? h.node)
    (Node.child_mem_preorder (Node.child?_mem h.list))

theorem exists_listAt {p : Procedure} (hp : p ∈ Procedure.list source root true)
    (hpath : root.at? path = some p.node) :
    ∃ list, ListAt root path p.node list ∧ p.parameters = Parameter.collect source list := by
  obtain ⟨place, hplace⟩ := mem_list_iff.1 hp
  obtain ⟨-, hlisted, list, hlist, hparameters⟩ := node_of_at? hplace
  exact ⟨list, ⟨hpath, hlisted, hlist⟩, hparameters⟩

/-- On entry a procedure declares the parameters of its list, and around itself only a name that is
one of its children. -/
theorem ListAt.shape_eq (h : ListAt root path n list) (source : Text) (around : List String) :
    (shape source around n).entry = Lexical.parameters source list ∧
      ∀ x ∈ (shape source around n).outside, x.name ∈ n.children := by
  have hparameters : Binder.parameterList? n = some list := by
    rw [Binder.parameterList?, h.list]
    rfl
  rcases construct_of_isListed h.listed with hk | hk
  · simp [shape, hk, hparameters]
  · simp only [shape, hk, hparameters]
    refine ⟨rfl, fun x hx => ?_⟩
    exact Node.child?_mem (Option.mem_toList.1 (mem_of_mem_bindAll hx).2)

/-- Before the walk declares a parameter of a visited procedure it declares names outside of the
procedure, the name of the procedure, and the parameters before it. -/
theorem ListAt.exists_split {earlier later : List Parameter} (h : ListAt root path n list)
    (hvisited : visited root path = true)
    (hsplit : Parameter.collect source list = earlier ++ q :: later) :
    ∃ before after, walk (shape source) root =
        before ++ .declare (.node path) ⟨.parameter, q.nameNode⟩ :: after ∧
      ∀ s y, .declare s y ∈ before → ContributedOutside source root path (.declare s y) ∨
        Names source n y.name ∧ y.name ∈ n.children ∨ ∃ a ∈ earlier, y.name = a.nameNode := by
  obtain ⟨before, after, scope, outer, around, hwalk, -, hbefore⟩ :=
    walk_split source hvisited h.node
  obtain ⟨hentry, houtside⟩ := h.shape_eq source around
  have hown : scopeInside n.kind path scope = .node path :=
    if_pos (opensScope_of_isListed h.listed)
  rw [events_eq] at hwalk
  simp only [hentry, hown, Lexical.parameters, hsplit, declareIn, List.map_append, List.map_cons,
    List.append_assoc, List.cons_append] at hwalk
  rw [← List.append_assoc, ← List.append_assoc] at hwalk
  refine ⟨_, _, hwalk, fun s y hy => ?_⟩
  rcases List.mem_append.1 hy with hy | hy
  · rcases List.mem_append.1 hy with hy | hy
    · exact .inl (hbefore _ hy)
    · obtain ⟨x, hx, he⟩ := List.mem_map.1 hy
      cases he
      exact .inr (.inl ⟨(names_of_outside hx).1, houtside _ hx⟩)
  · obtain ⟨x, hx, he⟩ := List.mem_map.1 hy
    obtain ⟨a, ha, rfl⟩ := List.mem_map.1 hx
    cases he
    exact .inr (.inr ⟨a, ha, rfl⟩)

theorem ListAt.exists_namePlace (h : ListAt root path n list) (hdeclare : root.NamesDeclare)
    (hlists : root.ListsParameters) (hq : q ∈ Parameter.collect source list)
    (hname : q.name ≠ "") :
    ∃ place, NameAt source root place q.nameNode ∧ NamePlace root path place := by
  obtain ⟨j, hj⟩ := Node.exists_place_of_child h.node (Node.child?_mem h.list)
  obtain ⟨place, hat, hs, hkind⟩ := Parameter.exists_place hj hq
  rw [hlists n (Node.mem_preorder_of_at? h.node) h.listed list h.list] at hkind
  exact ⟨place, ⟨hat, Parameter.isDeclaringName_nameNode hdeclare h.mem_preorder hq,
    Parameter.name_of_mem_collect hq ▸ hname⟩, (List.suffix_cons j path).trans hs, hkind⟩

end

section
variable {source : Text} {root n list name : Node} {path place : Path} {q : Parameter}
  (hdistinct : DistinctNames source root) (hdeclare : root.NamesDeclare)
include hdistinct hdeclare

/-- The parameters of a list have their names at distinct offsets. -/
theorem pairwise_start_ne (hlist : list ∈ root.preorder) :
    (Parameter.collect source list).Pairwise fun a b => a.name ≠ "" → b.name ≠ "" →
      a.nameNode.span.start ≠ b.nameNode.span.start := by
  have hsub := (Parameter.nameNodes_sublist source list).trans (Node.preorder_sublist hlist)
  have hnodup := hdistinct.sublist ((hsub.filter _).map _)
  rw [List.Nodup, List.pairwise_map, List.pairwise_filter, List.pairwise_map] at hnodup
  refine hnodup.imp_of_mem fun ha hb h hna hnb => h ?_ ?_
  · rw [Parameter.name_of_mem_collect ha] at hna
    simp [Parameter.isDeclaringName_nameNode hdeclare hlist ha, hna]
  · rw [Parameter.name_of_mem_collect hb] at hnb
    simp [Parameter.isDeclaringName_nameNode hdeclare hlist hb, hnb]

theorem index_unique {a b : Parameter} {i j : Nat} (hlist : list ∈ root.preorder)
    (ha : (Parameter.collect source list)[i]? = some a)
    (hb : (Parameter.collect source list)[j]? = some b) (hna : a.name ≠ "") (hnb : b.name ≠ "")
    (hstart : a.nameNode.span.start = b.nameNode.span.start) : i = j := by
  have hpairwise := List.pairwise_iff_getElem.1 (pairwise_start_ne hdistinct hdeclare hlist)
  obtain ⟨hi, rfl⟩ := List.getElem?_eq_some_iff.1 ha
  obtain ⟨hj, rfl⟩ := List.getElem?_eq_some_iff.1 hb
  rcases Nat.lt_trichotomy i j with hlt | heq | hlt
  · exact absurd hstart (hpairwise i j hi hj hlt hna hnb)
  · exact heq
  · exact absurd hstart.symm (hpairwise j i hj hi hlt hnb hna)

/-- Two parameters with their names at one offset are one parameter of one procedure. -/
theorem ListAt.unique {n' list' : Node} {path' : Path} {q' : Parameter} {i j : Nat}
    (h : ListAt root path n list) (h' : ListAt root path' n' list')
    (hlists : root.ListsParameters) (hi : (Parameter.collect source list)[i]? = some q)
    (hj : (Parameter.collect source list')[j]? = some q') (hname : q.name ≠ "")
    (hname' : q'.name ≠ "") (hstart : q.nameNode.span.start = q'.nameNode.span.start) :
    path' = path ∧ j = i := by
  obtain ⟨place, hat, hplace⟩ :=
    h.exists_namePlace hdeclare hlists (List.mem_of_getElem? hi) hname
  obtain ⟨place', hat', hplace'⟩ :=
    h'.exists_namePlace hdeclare hlists (List.mem_of_getElem? hj) hname'
  obtain rfl := hdistinct.place_unique hat hat' hstart
  obtain rfl := hplace.unique hplace'
  cases h.node.symm.trans h'.node
  cases h.list.symm.trans h'.list
  exact ⟨rfl, index_unique hdistinct hdeclare h.mem_preorder hj hi hname' hname hstart.symm⟩

/-- What a node names at the offset of a name stands where that name stands. -/
theorem namedFrom_of_names {m x : Node} {outer : Path} (hname : NameAt source root place name)
    (hm : root.at? outer = some m) (hx : Names source m x) (htext : x.textString source ≠ "")
    (hstart : x.span.start = name.span.start) : NamedFrom root outer place := by
  obtain ⟨place', hx', hfrom⟩ := hx.exists_place hm
  have hkind := hx.isDeclaringName hdeclare (Node.mem_preorder_of_at? hm)
  obtain rfl := hdistinct.place_unique ⟨hx', hkind, htext⟩ hname hstart
  exact hfrom

/-- No name that is declared outside of a procedure takes the offset of one of its parameters. -/
theorem start_ne_of_contributedOutside (hname : NameAt source root place name)
    (hplace : NamePlace root path place) {s : ScopeId} {y : Binding}
    (h : ContributedOutside source root path (.declare s y))
    (htext : y.name.textString source ≠ "") : y.name.span.start ≠ name.span.start := by
  intro hstart
  obtain ⟨outer, m, around, scope, hm, hout, hc⟩ := h
  have hnames : Names source m y.name := by
    cases hc with
    | outside hx => exact (names_of_outside hx).1
    | inner hx => exact (names_of_inner hx).1
  exact hout (hplace.suffix (namedFrom_of_names hdistinct hdeclare hname hm hnames htext hstart))

/-- **The parameters of a visited procedure are declared in its scope.** -/
theorem mem_declarations (hlists : root.ListsParameters) (h : ListAt root path n list)
    (hvisited : visited root path = true) (hq : q ∈ Parameter.collect source list)
    (hempty : Identifier.bare q.name ≠ "") (hdiscard : Identifier.bare q.name ≠ "_") :
    ⟨.node path, ⟨q.nameNode.span.start, Identifier.bare q.name, .parameter⟩⟩ ∈
      declarations source (walk (shape source) root) := by
  obtain ⟨place, hname, hplace⟩ :=
    h.exists_namePlace hdeclare hlists hq (Identifier.ne_empty_of_bare hempty)
  obtain ⟨earlier, later, hsplit⟩ := List.append_of_mem hq
  obtain ⟨before, after, hwalk, hbefore⟩ := h.exists_split hvisited hsplit
  rw [Parameter.name_of_mem_collect hq] at hempty hdiscard ⊢
  refine mem_declarations_of_first hwalk hempty hdiscard fun s y hy hne hstart => ?_
  have htext := Identifier.ne_empty_of_bare hne
  rcases hbefore s y hy with hout | ⟨hnames, hchild⟩ | ⟨a, ha, hay⟩
  · exact start_ne_of_contributedOutside hdistinct hdeclare hname hplace hout htext hstart
  · -- A child of the procedure is not as deep in the tree as the name of a parameter.
    obtain ⟨k, hk⟩ := Node.exists_place_of_child h.node hchild
    have hkind := hnames.isDeclaringName hdeclare (Node.mem_preorder_of_at? h.node)
    obtain rfl := hdistinct.place_unique ⟨hk, hkind, htext⟩ hname hstart
    rcases hplace.2 with ⟨hlen, -⟩ | ⟨hlen, -⟩ <;> simp at hlen
  · have hpairwise := pairwise_start_ne hdistinct hdeclare h.mem_preorder
    rw [hsplit, List.pairwise_append] at hpairwise
    have ha' : a ∈ Parameter.collect source list := hsplit ▸ List.mem_append_left _ ha
    rw [hay, ← Parameter.name_of_mem_collect ha'] at htext
    rw [hay] at hstart
    exact hpairwise.2.2 a ha q (.head _) htext (Parameter.name_of_mem_collect hq ▸ hname.text)
      hstart

end
end Procedure

/-! ## The symbol of a parameter -/

namespace Model

section
variable {source : Text} {root n : Node} {path : Path} {d : Declaration}
  (hd : d ∈ declarations source (walk (shape source) root))
include hd

theorem symbol?_of_declaration :
    (build source root).symbol? d.symbol.offset = some d.symbol := by
  refine symbol?_of_mem ?_
  rw [build_symbols]
  exact List.mem_reverse.2 (List.mem_map_of_mem hd)

/-- What refers to a declaration in the scope of a node stands inside the node. -/
theorem exists_reference_of_lookup {o : Nat} (hscope : d.scope = .node path)
    (hn : root.at? path = some n)
    (h : (build source root).references.lookup o = some d.symbol.offset) :
    ∃ x ∈ n.preorder, x.kind = "identifier" ∧ x.textString source ≠ "" ∧ x.span.start = o := by
  obtain ⟨before, place, x, after, decl, hwalk, hstart, hresolves, hoffset⟩ := refers_of_lookup h
  have hdecl : decl ∈ declarations source (walk (shape source) root) := by
    rw [hwalk]
    exact declarations_subset_append source before _ hresolves.mem
  obtain rfl : decl = d :=
    List.inj_on_of_nodup_map (declarations_offsets_nodup source _) hdecl hd hoffset
  have hinside := (contains_of_resolves hwalk hresolves).1
  rw [hscope] at hinside
  obtain ⟨m, hm, -, hx⟩ := hinside
  cases hn.symm.trans hm
  exact ⟨x, hx, (refer_of_split hwalk).2, text_ne_of_resolves hresolves, hstart⟩

end

theorem declared?_of_symbol {m : Model} {binder name : Node} {s : Symbol}
    (hname : nameNode? binder = some name) (hs : m.symbol? name.span.start = some s) :
    m.declared? binder = some s.offset := by
  simp [declared?, hname, hs]

/-- **The list of procedures and the model agree on parameters.** In a visited procedure a parameter
with a name other than the discard is a symbol at the offset of its name, to which both the node
that declares the parameter and its name lead; no other parameter leads there, and what the model
resolves to it stands inside the procedure. -/
theorem parameter_symbol (source : Text) (root : Node) (hdistinct : DistinctNames source root)
    (hdeclare : root.NamesDeclare) (hlists : root.ListsParameters) (p : Procedure)
    (hp : p ∈ Procedure.list source root true) (path : Path) (hpath : root.at? path = some p.node)
    (hvisited : visited root path = true) (i : Nat) (q : Parameter)
    (hq : p.parameters[i]? = some q) (hempty : Identifier.bare q.name ≠ "")
    (hdiscard : Identifier.bare q.name ≠ "_") :
    let m := build source root
    let start := q.nameNode.span.start
    m.declared? q.binder = some start ∧ m.declared? q.nameNode = some start ∧
    m.symbol? start = some ⟨start, Identifier.bare q.name, .parameter⟩ ∧
    (∀ p' ∈ Procedure.list source root true, ∀ path', root.at? path' = some p'.node →
      ∀ j q', p'.parameters[j]? = some q' → q'.name ≠ "" → m.declared? q'.binder = some start →
        path' = path ∧ j = i) ∧
    (∀ o, m.references.lookup o = some start → ∃ x ∈ p.node.preorder,
      x.kind = "identifier" ∧ x.textString source ≠ "" ∧ x.span.start = o) ∧
    ∀ x ∈ root.preorder, x.textString source ≠ "" → m.reference? x = some start →
      x ∈ p.node.preorder := by
  intro m start
  obtain ⟨list, hlist, hparameters⟩ := Procedure.exists_listAt hp hpath
  rw [hparameters] at hq
  have hmem := List.mem_of_getElem? hq
  have hname := Identifier.ne_empty_of_bare hempty
  have hd := Procedure.mem_declarations hdistinct hdeclare hlists hlist hvisited hmem hempty
    hdiscard
  have hsymbol : m.symbol? start = some ⟨start, Identifier.bare q.name, .parameter⟩ :=
    symbol?_of_declaration hd
  have hreference : ∀ o, m.references.lookup o = some start → ∃ x ∈ p.node.preorder,
      x.kind = "identifier" ∧ x.textString source ≠ "" ∧ x.span.start = o := fun o ho =>
    exists_reference_of_lookup hd rfl hpath ho
  refine ⟨declared?_of_symbol (nameNode?_binder hmem) hsymbol, declared?_of_symbol ?_ hsymbol,
    hsymbol, ?_, hreference, ?_⟩
  · exact if_pos (Parameter.isDeclaringName_nameNode hdeclare hlist.mem_preorder hmem)
  · intro p' hp' path' hpath' j q' hj hname' hshared
    obtain ⟨list', hlist', hparameters'⟩ := Procedure.exists_listAt hp' hpath'
    rw [hparameters'] at hj
    have hstart : start = q'.nameNode.span.start :=
      eq_start_of_declared? (List.mem_of_getElem? hj) hshared
    exact hlist.unique hdistinct hdeclare hlist' hlists hq hj hname hname' hstart
  · intro x hx htext href
    rw [reference?] at href
    split at href
    · rename_i hkind
      obtain ⟨y, hy, hykind, hytext, hstart⟩ := hreference _ href
      obtain ⟨place, hplace⟩ := Node.mem_preorder_iff.1 hx
      obtain ⟨place', -, hplace'⟩ := Node.exists_place_below hpath hy
      have heq : y = x := hdistinct.eq_of_start
        ⟨hplace', by simp [Kind.isDeclaringName, hykind], hytext⟩
        ⟨hplace, by simp [Kind.isDeclaringName, eq_of_beq hkind], htext⟩ hstart
      exact heq ▸ hy
    · cases href

/-- `int F(params int[] @v) { return v; }` -/
def arraySource : Text := "int F(params int[] @v) \x7b return v; \x7d".toList

def arrayTree : Node :=
  .ofRows [
    .named 0 "compilation_unit" none 0 36, .named 1 "global_statement" none 0 36,
    .named 2 "local_function_statement" none 0 36, .named 3 "predefined_type" "type" 0 3,
    .named 3 "identifier" "name" 4 5, .named 3 "parameter_list" "parameters" 5 22,
    .token 4 "(" 5, .token 4 "params" 6, .named 4 "array_type" "type" 13 18,
    .named 5 "predefined_type" "type" 13 16, .named 5 "array_rank_specifier" "rank" 16 18,
    .token 6 "[" 16, .token 6 "]" 17, .named 4 "identifier" "name" 19 21, .token 4 ")" 21,
    .named 3 "block" "body" 23 36, .token 4 "\x7b" 23, .named 4 "return_statement" none 25 34,
    .token 5 "return" 25, .named 5 "identifier" none 32 33, .token 5 ";" 33, .token 4 "\x7d" 35]

theorem array_parameter_symbol :
    ∃ p ∈ Procedure.list arraySource arrayTree true, ∃ q, p.parameters[0]? = some q ∧
      arrayTree.at? [0, 0] = some p.node ∧ visited arrayTree [0, 0] = true ∧ q.name = "@v" ∧
      let m := build arraySource arrayTree
      m.declared? q.binder = some 19 ∧ m.symbol? 19 = some ⟨19, "v", .parameter⟩ ∧
      m.references.lookup 32 = some 19 ∧ ∀ o, m.references.lookup o = some 19 →
        ∃ x ∈ p.node.preorder, x.kind = "identifier" ∧ x.span.start = o := by
  obtain ⟨hdistinct, hdeclare, hlists, hvisited, hreference⟩ :
      DistinctNames arraySource arrayTree ∧ arrayTree.NamesDeclare ∧ arrayTree.ListsParameters ∧
        visited arrayTree [0, 0] = true ∧
        (build arraySource arrayTree).references.lookup 32 = some 19 := by decide +kernel
  have hex : (Procedure.list arraySource arrayTree true).any (fun p =>
      arrayTree.at? [0, 0] = some p.node && p.parameters[0]?.any fun q =>
        q.name == "@v" && q.nameNode.span.start == 19) = true := by decide +kernel
  obtain ⟨p, hp, hpq⟩ := List.any_eq_true.1 hex
  rw [Bool.and_eq_true, decide_eq_true_eq, Option.any_eq_true] at hpq
  obtain ⟨hpath, q, hq, hname⟩ := hpq
  rw [Bool.and_eq_true, beq_iff_eq, beq_iff_eq] at hname
  have hbare : Identifier.bare q.name = "v" := by rw [hname.1]; decide
  obtain ⟨hbinder, -, hsymbol, -, hinside, -⟩ := parameter_symbol arraySource arrayTree hdistinct
    hdeclare hlists p hp [0, 0] hpath hvisited 0 q hq (by simp [hbare]) (by simp [hbare])
  rw [hname.2] at hbinder hsymbol hinside
  rw [hbare] at hsymbol
  refine ⟨p, hp, q, hq, hpath, hvisited, hname.1, hbinder, hsymbol, hreference, fun o ho => ?_⟩
  obtain ⟨x, hx, hkind, -, hstart⟩ := hinside o ho
  exact ⟨x, hx, hkind, hstart⟩

end Model
end ParamTwin
