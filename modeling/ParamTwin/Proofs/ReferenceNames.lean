import ParamTwin.Proofs.DocumentOrder
import ParamTwin.Proofs.ReferenceMap

/-!
# The spelling of references

The model knows identifiers and symbols by their offsets alone. If no two names of a tree start at
the same offset, an entry of the model belongs to one identifier and leads to one declaring name,
and the two have the same spelling (`Model.spelling_of_reference?`).
-/

namespace ParamTwin

open Lexical

namespace Node

/-- Parameters, local functions and catch clauses have a name that can declare something. -/
def NamesDeclare (root : Node) : Prop :=
  ∀ n ∈ root.preorder, (n.kind = "parameter" ∨ Construct.ofKind n.kind = .localFunction ∨
    Construct.ofKind n.kind = .catchVariable) →
      ∀ x ∈ n.child? "name", Kind.isDeclaringName x.kind = true

instance (root : Node) : Decidable root.NamesDeclare :=
  inferInstanceAs (Decidable (∀ n ∈ root.preorder, _ → _))

theorem NamesDistinct.eq_of_start {root a b : Node} (h : root.NamesDistinct)
    (ha : a ∈ root.preorder) (hb : b ∈ root.preorder) (hka : Kind.isDeclaringName a.kind = true)
    (hkb : Kind.isDeclaringName b.kind = true) (hstart : a.span.start = b.span.start) : a = b := by
  obtain ⟨p, hp⟩ := mem_preorder_iff.1 ha
  obtain ⟨q, hq⟩ := mem_preorder_iff.1 hb
  obtain rfl := h.place_unique hp hq hka hkb hstart
  exact Option.some.inj (hp.symm.trans hq)

end Node

section
variable {source : Text} {root : Node}

theorem Parameter.isDeclaringName_nameNode {list : Node} {q : Parameter} (h : root.NamesDeclare)
    (hlist : list ∈ root.preorder) (hq : q ∈ Parameter.collect source list) :
    Kind.isDeclaringName q.nameNode.kind = true := by
  rcases Parameter.binder_of_mem_collect hq with ⟨hk, hname⟩ | ⟨hname, hk⟩
  · have hbinder := Node.preorder_subset hlist (Node.child_mem_preorder (Parameter.binder_mem hq))
    exact h q.binder hbinder (.inl hk) q.nameNode hname
  · simp [Kind.isDeclaringName, hname, hk]

theorem Lexical.Names.isDeclaringName {n x : Node} (h : root.NamesDeclare)
    (hn : n ∈ root.preorder) (hx : Names source n x) : Kind.isDeclaringName x.kind = true := by
  cases hx with
  | field hk hx => exact h n hn (.inr hk) x hx
  | designated _ hx => exact (mem_of_designated hx).2
  | hoisted hx =>
    obtain ⟨f, hf, hk, hx⟩ := function_of_hoisted hx
    have hk : Construct.ofKind f.kind = .localFunction := by
      rw [hk]
      decide
    exact h f (Node.preorder_subset hn hf) (.inr (.inl hk)) x hx
  | parameter hl hp =>
    exact Parameter.isDeclaringName_nameNode h
      (Node.preorder_subset hn (Node.child_mem_preorder hl)) hp
  | child _ hk => exact hk

namespace Model

/-- An identifier is spelled like the name at the offset that the model resolves it to. -/
theorem spelling_of_reference? (hdistinct : root.NamesDistinct) (hdeclare : root.NamesDeclare)
    {x name : Node} (hx : x ∈ root.preorder) (hname : name ∈ root.preorder)
    (hkind : Kind.isDeclaringName name.kind = true)
    (h : (build source root).reference? x = some name.span.start) :
    spelling source x = spelling source name := by
  rw [reference?] at h
  split at h
  · rename_i hk
    obtain ⟨before, place, c, after, decl, he, hstart, hresolves, hoffset⟩ := refers_of_lookup h
    obtain ⟨hc, hkc⟩ := refer_of_split he
    have heq : x = c := hdistinct.eq_of_start hx (Node.mem_preorder_of_at? hc)
      (by simp [Kind.isDeclaringName, eq_of_beq hk]) (by simp [Kind.isDeclaringName, hkc])
      hstart.symm
    obtain ⟨-, b, hb, hsymbol⟩ := exists_declare_of_mem hresolves.mem
    have hb : .declare decl.scope b ∈ walk (shape source) root := by
      rw [he]
      exact List.mem_append_left _ hb
    obtain ⟨n, hn, hnames⟩ := names_of_mem_walk hb
    have heq' : b.name = name := hdistinct.eq_of_start
      (Node.preorder_subset hn hnames.mem_preorder) hname (hnames.isDeclaringName hdeclare hn) hkind
      (by rw [← hoffset, hsymbol]; rfl)
    calc spelling source x = decl.symbol.name := by rw [heq, hresolves.name_eq]
      _ = spelling source name := by rw [hsymbol, ← heq']; rfl
  · cases h

theorem nameNode?_binder {list : Node} {q : Parameter} (hq : q ∈ Parameter.collect source list) :
    nameNode? q.binder = some q.nameNode := by
  rcases Parameter.binder_of_mem_collect hq with ⟨hk, hname⟩ | ⟨hname, hk⟩
  · simp [nameNode?, hk, hname, Kind.isDeclaringName]
  · simp [nameNode?, hk, hname, Kind.isDeclaringName]

/-- The symbol of a parameter is at the offset of its name. -/
theorem eq_start_of_declared? {m : Model} {list : Node} {q : Parameter} {symbol : Nat}
    (hq : q ∈ Parameter.collect source list) (h : m.declared? q.binder = some symbol) :
    symbol = q.nameNode.span.start := by
  obtain ⟨name, hname, h⟩ := Option.bind_eq_some_iff.1 h
  obtain ⟨found, hfound, h⟩ := Option.bind_eq_some_iff.1 h
  cases h
  cases hname.symm.trans (nameNode?_binder hq)
  simpa using List.find?_some hfound

end Model

/-- References to a parameter are spelled like it, up to a leading `@`. -/
theorem Parameter.spelling_of_reference? (hdistinct : root.NamesDistinct)
    (hdeclare : root.NamesDeclare) {list x : Node} {q : Parameter} {symbol : Nat}
    (hlist : list ∈ root.preorder) (hq : q ∈ Parameter.collect source list)
    (hd : (Model.build source root).declared? q.binder = some symbol) (hx : x ∈ root.preorder)
    (h : (Model.build source root).reference? x = some symbol) :
    Identifier.bare (x.textString source) = Identifier.bare q.name := by
  rw [Model.eq_start_of_declared? hq hd] at h
  rw [Parameter.name_of_mem_collect hq]
  exact Model.spelling_of_reference? hdistinct hdeclare hx
    (Node.preorder_subset hlist (Parameter.nameNode_mem hq))
    (Parameter.isDeclaringName_nameNode hdeclare hlist hq) h

end
end ParamTwin
