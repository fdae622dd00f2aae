import ParamTwin.Proofs.FirstUse
import ParamTwin.Proofs.LexicalFacts

/-!
# Procedures and their places

The list of procedures forgets where they stand. `Procedure.at?` gives the procedure at a place of
the tree, and the list holds those of all places (`mem_list_iff`).

* `Procedure.opensScope_of_at?`: a procedure opens a scope, in which its parameters are declared and
  no others (`parameter_of_declare`).
* `Usage.mem_of_locate?`: the statement that holds the first use of a parameter stands in the body.
-/

namespace ParamTwin

open Lexical

namespace Procedure

/-- The siblings before a place, the nearest first. -/
def preceding (root : Node) : Path → List Node
  | [] => []
  | k :: path => (((root.at? path).map (·.children.take k)).getD []).reverse

/-- The procedure at a place. -/
def at? (source : Text) (root : Node) (withLocal : Bool) (path : Path) : Option Procedure :=
  (root.at? path).bind fun n =>
    if isListed withLocal n.kind then ofNode? source (preceding root path) n else none

section
variable {source : Text} {root n : Node} {withLocal : Bool} {path : Path} {p : Procedure}

theorem preceding_child (h : root.at? path = some n) (k : Nat) :
    preceding root (k :: path) = (n.children.take k).reverse := by
  rw [preceding, h]; rfl

/-! ## The list holds the procedures of all places -/

theorem ofTree_eq (source : Text) (withLocal : Bool) (before : List Node) (n : Node) :
    ofTree source withLocal before n =
      (if isListed withLocal n.kind then (ofNode? source before n).toList else []) ++
        ofTrees source withLocal [] n.children := by
  cases n; rw [ofTree]

/-- The procedures of siblings are those of each of them, with the siblings before it. -/
theorem mem_ofTrees_iff {k : Nat} {ns : List Node} (hk : n.children.drop k = ns) :
    p ∈ ofTrees source withLocal (n.children.take k).reverse ns ↔
      ∃ j c, k ≤ j ∧ n.children[j]? = some c ∧
        p ∈ ofTree source withLocal (n.children.take j).reverse c := by
  induction ns generalizing k with
  | nil =>
    have hlen := List.drop_eq_nil_iff.1 hk
    simp only [ofTrees, List.not_mem_nil, false_iff]
    rintro ⟨j, c, hj, hc, -⟩
    have := (List.getElem?_eq_some_iff.1 hc).1
    omega
  | cons c ns ih =>
    obtain ⟨hc, hk'⟩ := Node.child_of_drop hk
    have htake : c :: (n.children.take k).reverse = (n.children.take (k + 1)).reverse := by
      rw [List.take_add_one, hc]; simp
    rw [ofTrees, List.mem_append, htake, ih hk']
    constructor
    · rintro (h | ⟨j, d, hj, h⟩)
      · exact ⟨k, c, Nat.le_refl k, hc, h⟩
      · exact ⟨j, d, by omega, h⟩
    · rintro ⟨j, d, hj, hd, h⟩
      rcases Nat.eq_or_lt_of_le hj with rfl | hj
      · cases hc.symm.trans hd
        exact .inl h
      · exact .inr ⟨j, d, hj, hd, h⟩

theorem mem_ofTree_iff (hn : root.at? path = some n) :
    p ∈ ofTree source withLocal (preceding root path) n ↔
      ∃ place, path <:+ place ∧ at? source root withLocal place = some p := by
  induction n using Node.induction generalizing path with
  | step n ih =>
    have hown : p ∈ (if isListed withLocal n.kind then
        (ofNode? source (preceding root path) n).toList else []) ↔
        at? source root withLocal path = some p := by
      rw [at?, hn, Option.bind_some]
      split <;> simp
    have hbelow : p ∈ ofTrees source withLocal [] n.children ↔
        ∃ j place, (j :: path) <:+ place ∧ at? source root withLocal place = some p := by
      refine (mem_ofTrees_iff (k := 0) rfl).trans ⟨?_, ?_⟩
      · rintro ⟨j, c, -, hc, h⟩
        have hat : root.at? (j :: path) = some c := by rw [Node.at?_child hn, hc]
        rw [← preceding_child hn] at h
        exact ⟨j, (ih c (List.mem_of_getElem? hc) hat).1 h⟩
      · rintro ⟨j, place, hs, h⟩
        obtain ⟨x, hx, -⟩ := Option.bind_eq_some_iff.1 h
        obtain ⟨c, hat, -⟩ := Node.exists_around hs hx
        have hc : n.children[j]? = some c := by rw [← Node.at?_child hn, hat]
        refine ⟨j, c, Nat.zero_le j, hc, ?_⟩
        rw [← preceding_child hn]
        exact (ih c (List.mem_of_getElem? hc) hat).2 ⟨place, hs, h⟩
    rw [ofTree_eq, List.mem_append, hown, hbelow]
    constructor
    · rintro (h | ⟨j, place, hs, h⟩)
      · exact ⟨path, List.suffix_rfl, h⟩
      · exact ⟨place, (List.suffix_cons j path).trans hs, h⟩
    · rintro ⟨place, hs, h⟩
      by_cases he : path = place
      · exact .inl (he ▸ h)
      · obtain ⟨j, hj⟩ := Path.Encloses.exists_child ⟨hs, he⟩
        exact .inr ⟨j, place, hj, h⟩

/-- The procedures of a file are those at its places. -/
theorem mem_list_iff :
    p ∈ list source root withLocal ↔ ∃ path, at? source root withLocal path = some p := by
  rw [list, show ([] : List Node) = preceding root [] from rfl,
    mem_ofTree_iff (Node.at?_nil root)]
  simp

/-! ## The scope of a procedure -/

/-- What stands at a place with a procedure, and how the procedure is read off it. -/
theorem at?_eq_some (h : at? source root withLocal path = some p) :
    ∃ n name list, root.at? path = some n ∧ isListed withLocal n.kind = true ∧
      n.child? "name" = some name ∧ n.child? "parameters" = some list ∧
      p = { node := n, name := name.textString source
            parameters := Parameter.collect source list
            body := (n.child? "body").filter (·.kind == "block")
            documentation := String.ofList (summary source (preceding root path)) } := by
  obtain ⟨n, hn, h⟩ := Option.bind_eq_some_iff.1 h
  split at h
  · rename_i hl
    obtain ⟨name, hname, h⟩ := Option.bind_eq_some_iff.1 h
    obtain ⟨list, hlist, h⟩ := Option.bind_eq_some_iff.1 h
    exact ⟨n, name, list, hn, hl, hname, hlist, (Option.some.inj h).symm⟩
  · cases h

theorem node_of_at? (h : at? source root withLocal path = some p) :
    root.at? path = some p.node ∧ isListed withLocal p.node.kind = true ∧
      ∃ list, p.node.child? "parameters" = some list ∧
        p.parameters = Parameter.collect source list := by
  obtain ⟨n, name, list, hn, hl, -, hlist, rfl⟩ := at?_eq_some h
  exact ⟨hn, hl, list, hlist, rfl⟩

theorem named_of_at? (h : at? source root withLocal path = some p) :
    ∃ name, p.node.child? "name" = some name ∧ p.name = name.textString source ∧
      p.documentation = String.ofList (summary source (preceding root path)) := by
  obtain ⟨n, name, list, -, -, hname, -, rfl⟩ := at?_eq_some h
  exact ⟨name, hname, rfl, rfl⟩

theorem body_of_at? {body : Node} (h : at? source root withLocal path = some p)
    (hb : p.body = some body) : body ∈ p.node.children := by
  obtain ⟨n, name, list, -, -, -, -, rfl⟩ := at?_eq_some h
  exact Node.child?_mem (Option.filter_eq_some_iff.1 hb).1

theorem exists_list_of_mem (hp : p ∈ list source root withLocal) :
    ∃ ps ∈ root.preorder, p.parameters = Parameter.collect source ps := by
  obtain ⟨path, hpath⟩ := mem_list_iff.1 hp
  obtain ⟨hnode, -, ps, hps, heq⟩ := node_of_at? hpath
  exact ⟨ps, Node.preorder_subset (Node.mem_preorder_of_at? hnode)
    (Node.child_mem_preorder (Node.child?_mem hps)), heq⟩

theorem body_mem_preorder {body : Node} (hp : p ∈ list source root withLocal)
    (hb : p.body = some body) : body ∈ root.preorder := by
  obtain ⟨path, hpath⟩ := mem_list_iff.1 hp
  exact Node.preorder_subset (Node.mem_preorder_of_at? (node_of_at? hpath).1)
    (Node.child_mem_preorder (body_of_at? hpath hb))

theorem construct_of_isListed {kind : String} (h : isListed withLocal kind = true) :
    Construct.ofKind kind = .procedure ∨ Construct.ofKind kind = .localFunction := by
  simp only [isListed, Bool.or_eq_true, Bool.and_eq_true, beq_iff_eq] at h
  rcases h with rfl | ⟨-, rfl⟩
  · exact .inl (by decide)
  · exact .inr (by decide)

theorem opensScope_of_isListed {kind : String} (h : isListed withLocal kind = true) :
    (Construct.ofKind kind).opensScope = true := by
  rcases construct_of_isListed h with hc | hc <;> rw [hc] <;> rfl

theorem opensScope_of_at? (h : at? source root withLocal path = some p) :
    (Construct.ofKind p.node.kind).opensScope = true :=
  opensScope_of_isListed (node_of_at? h).2.1

/-- The parameters declared in the scope of a procedure are its own. -/
theorem parameter_of_declare {x : Binding} (h : at? source root withLocal path = some p)
    (hx : .declare (.node path) x ∈ walk (shape source) root) (hk : x.kind = .parameter) :
    ∃ parameter ∈ p.parameters,
      (x.symbol source).name = Identifier.bare parameter.name := by
  obtain ⟨hn, hl, list, hlist, hps⟩ := node_of_at? h
  obtain ⟨path', n, around, hs, hn', -, hx⟩ := (declare_of_mem_walk hx).2 hk
  cases hs
  cases hn.symm.trans hn'
  have hx' : x ∈ Lexical.parameters source list := by
    unfold shape at hx
    rcases construct_of_isListed hl with hc | hc <;>
      simpa [hc, Binder.parameterList?, hlist] using hx
  obtain ⟨parameter, hp, rfl⟩ := List.mem_map.1 hx'
  exact ⟨parameter, hps ▸ hp, by rw [Parameter.name_of_mem_collect hp]; rfl⟩

end
end Procedure

/-! ## The place of the first use -/

namespace Usage

/-- A node stands directly in a block or switch section of a subtree. -/
def StandsIn (n s : Node) : Prop :=
  ∃ holder ∈ n.preorder, Kind.holdsStatements holder.kind = true ∧ s ∈ holder.children

theorem StandsIn.mono {n c s : Node} (hc : c ∈ n.preorder) (h : StandsIn c s) : StandsIn n s := by
  obtain ⟨holder, hh, hk, hs⟩ := h
  exact ⟨holder, Node.preorder_subset hc hh, hk, hs⟩

theorem StandsIn.mem_preorder {n s : Node} (h : StandsIn n s) : s ∈ n.preorder := by
  obtain ⟨holder, hh, -, hs⟩ := h
  exact Node.preorder_subset hh (Node.child_mem_preorder hs)

/-- The statement that holds the first use of a parameter stands in a block or switch section of the
body. -/
theorem standsIn_of_locate? {m : Model} {body : Option Node} {name : String} {symbol : Nat}
    {statement : Node} (h : locate? m body name symbol = some statement) :
    Kind.isStatement statement.kind = true ∧ ∃ b, body = some b ∧ StandsIn b statement := by
  rw [locate?_eq, locateBy_eq_some_iff fun _ => kind_of_isUse] at h
  obtain ⟨hkind, b, place, r, inner, hb, -, hnearest, hs⟩ := h
  refine ⟨hkind, b, hb, ?_⟩
  cases inner with
  | nil => cases hnearest.stands
  | cons k path =>
    have hstands := hnearest.stands
    cases hholder : b.at? path with
    | none => simp [standsAt, hholder] at hstands
    | some holder =>
      rw [Node.at?_child hholder] at hs
      exact ⟨holder, Node.mem_preorder_of_at? hholder, by simpa [standsAt, hholder] using hstands,
        List.mem_of_getElem? hs⟩

theorem mem_of_locate? {m : Model} {body : Option Node} {name : String} {symbol : Nat}
    {statement : Node} (h : locate? m body name symbol = some statement) :
    ∃ b, body = some b ∧ statement ∈ b.preorder := by
  obtain ⟨-, b, hb, hs⟩ := standsIn_of_locate? h
  exact ⟨b, hb, hs.mem_preorder⟩

end Usage
end ParamTwin
