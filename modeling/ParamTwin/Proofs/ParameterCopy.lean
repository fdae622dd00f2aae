import ParamTwin.Proofs.Definedness

/-!
# The copy of a parameter

The copy of a parameter is its text with another name, and without the modifier `this` of an
extension method. A child of the parameter that spells `this` is taken for the modifier wherever it
stands.

* `Plan.parameter_copy_text`: the text of the copy, and that there is none iff all children that
  spell `this` stand behind the name.
* `Plan.default_this_not_copied`: so the default value `this` keeps a parameter from being copied.
-/

namespace ParamTwin.Plan

open Text

/-- A child of the parameter other than its name spells `this`. -/
def SpellsThis (source : Text) (q : Parameter) (c : Node) : Prop :=
  c ∈ q.binder.children ∧ c.span ≠ q.nameNode.span ∧ source.at? c.span = some "this".toList

instance (source : Text) (q : Parameter) (c : Node) : Decidable (SpellsThis source q c) :=
  inferInstanceAs (Decidable (_ ∧ _ ∧ _))

section
variable {source : Text} {q : Parameter} {before : Text}

theorem thisModifier?_eq_none_iff :
    thisModifier? source q = none ↔ ∀ c, ¬ SpellsThis source q c := by
  simp [thisModifier?, SpellsThis]

/-- The modifier is the first child that spells `this`. -/
theorem exists_first_of_thisModifier? {this : Span}
    (hordered : q.binder.children.Pairwise fun a b => a.span.stop ≤ b.span.start)
    (h : thisModifier? source q = some this) :
    ∃ c, SpellsThis source q c ∧ c.span = this ∧
      ∀ c', SpellsThis source q c' → c' = c ∨ c.span.stop ≤ c'.span.start := by
  obtain ⟨c, hc, rfl⟩ := Option.map_eq_some_iff.1 h
  obtain ⟨hspells, front, back, heq, hfront⟩ := List.find?_eq_some_iff_append.1 hc
  simp only [Bool.and_eq_true, bne_iff_ne, ne_eq, beq_iff_eq] at hspells
  refine ⟨c, ⟨List.mem_of_find?_eq_some hc, hspells⟩, rfl, fun c' hc' => ?_⟩
  obtain ⟨hmem, hne, htext⟩ := hc'
  rw [heq] at hmem hordered
  rcases List.mem_append.1 hmem with hmem | hmem
  · have := hfront c' hmem
    simp [hne, htext] at this
  · rcases List.mem_cons.1 hmem with rfl | hmem
    · exact .inl rfl
    · exact .inr ((List.pairwise_cons.1 (List.pairwise_append.1 hordered).2.1).1 c' hmem)

theorem beforeName?_of_no_modifier (h : ∀ c, ¬ SpellsThis source q c) :
    beforeName? source q = source.slice? q.span.start q.nameNode.span.start := by
  rw [beforeName?, thisModifier?_eq_none_iff.2 h]

/-- A modifier in front of the name is left out with the blanks after it. -/
theorem beforeName?_of_modifier {c : Node} (hc : SpellsThis source q c)
    (hthis : thisModifier? source q = some c.span) (hq : q.LaidOut source)
    (hbefore : source.slice? q.span.start q.nameNode.span.start = some before)
    (hle : c.span.stop ≤ q.nameNode.span.start) :
    ∃ front blanks rest, before = front ++ "this".toList ++ blanks ++ rest ∧
      (∀ x ∈ blanks, isBlank x = true) ∧ (∀ x ∈ rest.head?, isBlank x = false) ∧
      c.span.start = q.span.start + byteSize front ∧
      beforeName? source q = some (front ++ rest) := by
  obtain ⟨hstart, hcuts⟩ := hq.parts c hc.1
  obtain ⟨front, hfront⟩ := Option.isSome_iff_exists.1
    (isSome_slice?_iff.2 ⟨hstart, hq.whole.1, hcuts.1⟩)
  obtain ⟨between, hbetween⟩ := Option.isSome_iff_exists.1
    (isSome_slice?_iff.2 ⟨hle, hcuts.2, hq.name.1⟩)
  have hwhole := slice?_append (slice?_append hfront hc.2.2) hbetween
  cases hbefore.symm.trans hwhole
  refine ⟨front, between.takeWhile isBlank, trimStart between, ?_, ?_, ?_, stop_of_slice? hfront,
    ?_⟩
  · rw [List.append_assoc _ (between.takeWhile isBlank), trimStart,
      List.takeWhile_append_dropWhile]
  · exact fun x hx => List.mem_takeWhile_imp hx
  · intro x hx
    have := List.head?_dropWhile_not isBlank between
    rw [show (between.dropWhile isBlank).head? = some x from hx] at this
    simpa using this
  · simp [beforeName?, hthis, hfront, hbetween]

/-- Behind the name the cut from the modifier to the name would run backwards. -/
theorem beforeName?_of_modifier_behind {this : Span} (hthis : thisModifier? source q = some this)
    (h : q.nameNode.span.start < this.stop) : beforeName? source q = none := by
  have hbetween : source.slice? this.stop q.nameNode.span.start = none := by
    rw [Option.eq_none_iff_forall_not_mem]
    intro piece hpiece
    have := stop_of_slice? hpiece
    omega
  simp [beforeName?, hthis, hbetween]

variable (hq : q.LaidOut source)
  (hordered : q.binder.children.Pairwise fun a b => a.span.stop ≤ b.span.start)
  (hcuts : ∀ c ∈ q.binder.children, c.span.start ≤ c.span.stop)
  (hbefore : source.slice? q.span.start q.nameNode.span.start = some before)

include hq hordered hcuts hbefore

theorem beforeName?_eq_none_iff : beforeName? source q = none ↔
    (∃ c, SpellsThis source q c) ∧
      ∀ c, SpellsThis source q c → q.nameNode.span.start < c.span.stop := by
  cases hthis : thisModifier? source q with
  | none =>
    have hno := thisModifier?_eq_none_iff.1 hthis
    simp [beforeName?_of_no_modifier hno, hbefore, hno]
  | some this =>
    obtain ⟨c, hc, rfl, hfirst⟩ := exists_first_of_thisModifier? hordered hthis
    refine ⟨fun hnone => ⟨⟨c, hc⟩, fun c' hc' => ?_⟩, fun h =>
      beforeName?_of_modifier_behind hthis (h.2 c hc)⟩
    have hbehind : q.nameNode.span.start < c.span.stop := by
      by_contra hle
      obtain ⟨front, -, rest, -, -, -, -, hsome⟩ :=
        beforeName?_of_modifier hc hthis hq hbefore (by omega)
      cases hnone.symm.trans hsome
    rcases hfirst c' hc' with rfl | hle
    · exact hbehind
    · have := hcuts c' hc'.1
      omega

/-- If a child in front of the name spells `this`, the first one that does is left out. -/
theorem exists_beforeName?_of_spellsThis {c : Node} (hc : SpellsThis source q c)
    (hle : c.span.stop ≤ q.nameNode.span.start) :
    ∃ front blanks rest, before = front ++ "this".toList ++ blanks ++ rest ∧
      (∀ x ∈ blanks, isBlank x = true) ∧ (∀ x ∈ rest.head?, isBlank x = false) ∧
      beforeName? source q = some (front ++ rest) ∧
      ∃ c', SpellsThis source q c' ∧ c'.span.start = q.span.start + byteSize front ∧
        ∀ c'', SpellsThis source q c'' → c'.span.start ≤ c''.span.start := by
  cases hthis : thisModifier? source q with
  | none => exact absurd hc (thisModifier?_eq_none_iff.1 hthis c)
  | some this =>
    obtain ⟨c', hc', rfl, hfirst⟩ := exists_first_of_thisModifier? hordered hthis
    have hcut := hcuts c hc.1
    have hcut' := hcuts c' hc'.1
    have hle' : c'.span.stop ≤ q.nameNode.span.start := by
      rcases hfirst c hc with rfl | hfront
      · exact hle
      · omega
    obtain ⟨front, blanks, rest, heq, hblanks, hrest, hstart, hsome⟩ :=
      beforeName?_of_modifier hc' hthis hq hbefore hle'
    refine ⟨front, blanks, rest, heq, hblanks, hrest, hsome, c', hc', hstart, fun c'' hc'' => ?_⟩
    rcases hfirst c'' hc'' with rfl | hbehind
    · exact Nat.le_refl _
    · omega

end

/-- **The copy of a parameter.** In a tree whose spans nest, a parameter can be copied unless a child
of it other than the name spells `this` and all that do so stand behind the name. Without such a
child the copy is the text of the parameter with the name replaced; with one in front of the name,
the first of them and the blanks after it are left out. -/
theorem parameter_copy_text (source : Text) (root list : Node) (q : Parameter) (name : Text)
    (hnested : root.Nested source) (hlist : list ∈ root.preorder)
    (hq : q ∈ Parameter.collect source list) :
    (parameterCopy? source q name = none ↔ (∃ c, SpellsThis source q c) ∧
      ∀ c, SpellsThis source q c → q.nameNode.span.start < c.span.stop) ∧
    ∃ before written after, source.at? q.span = some (before ++ written ++ after) ∧
      source.at? q.nameNode.span = some written ∧
      q.nameNode.span.start = q.span.start + byteSize before ∧
      ((∀ c, ¬ SpellsThis source q c) →
        parameterCopy? source q name = some (before ++ name ++ after)) ∧
      ∀ c, SpellsThis source q c → c.span.stop ≤ q.nameNode.span.start →
        ∃ front blanks rest, before = front ++ "this".toList ++ blanks ++ rest ∧
          (∀ x ∈ blanks, isBlank x = true) ∧ (∀ x ∈ rest.head?, isBlank x = false) ∧
          parameterCopy? source q name = some (front ++ rest ++ name ++ after) ∧
          ∃ c', SpellsThis source q c' ∧ c'.span.start = q.span.start + byteSize front ∧
            ∀ c'', SpellsThis source q c'' → c'.span.start ≤ c''.span.start := by
  have hlaid := Parameter.laidOut_of_mem_collect hnested hlist hq
  have hbinder : q.binder ∈ root.preorder :=
    Node.preorder_subset hlist (Node.child_mem_preorder (Parameter.binder_mem hq))
  have hordered := hnested.ordered q.binder hbinder
  have hcuts : ∀ c ∈ q.binder.children, c.span.start ≤ c.span.stop := fun c hc =>
    (hnested.cuts c (Node.preorder_subset hbinder (Node.child_mem_preorder hc))).1
  have hname := (hnested.cuts q.nameNode
    (Node.preorder_subset hlist (Parameter.nameNode_mem hq))).1
  obtain ⟨before, hbefore⟩ := Option.isSome_iff_exists.1
    (isSome_slice?_iff.2 ⟨hlaid.front, hlaid.whole.1, hlaid.name.1⟩)
  obtain ⟨written, hwritten⟩ := Option.isSome_iff_exists.1
    (isSome_slice?_iff.2 ⟨hname, hlaid.name⟩)
  obtain ⟨after, hafter⟩ := Option.isSome_iff_exists.1
    (isSome_slice?_iff.2 ⟨hlaid.back, hlaid.name.2, hlaid.whole.2⟩)
  have hcopy : parameterCopy? source q name =
      (beforeName? source q).map (· ++ name ++ after) := by
    rw [parameterCopy?, hafter]
    cases beforeName? source q <;> rfl
  rw [hcopy, Option.map_eq_none_iff, beforeName?_eq_none_iff hlaid hordered hcuts hbefore]
  refine ⟨Iff.rfl, before, written, after,
    slice?_append (slice?_append hbefore hwritten) hafter, hwritten, stop_of_slice? hbefore,
    fun hno => ?_, fun c hc hle => ?_⟩
  · rw [beforeName?_of_no_modifier hno, hbefore]
    rfl
  · obtain ⟨front, blanks, rest, heq, hblanks, hrest, hsome, hfirst⟩ :=
      exists_beforeName?_of_spellsThis hlaid hordered hcuts hbefore hc hle
    exact ⟨front, blanks, rest, heq, hblanks, hrest, by rw [hsome]; rfl, hfirst⟩

/-- The parameter list of an extension method. -/
def extensionList : Node :=
  .ofRows [
    .named 0 "parameter_list" none 0 15, .token 1 "(" 0, .named 1 "parameter" none 1 14,
    .named 2 "modifier" none 1 5, .named 2 "predefined_type" "type" 6 12,
    .named 2 "identifier" "name" 13 14, .token 1 ")" 14]

def extensionSource : Text := "(this string s)".toList

theorem extension_parameter_copied :
    extensionList.Nested extensionSource ∧
      ∃ q ∈ Parameter.collect extensionSource extensionList, ∃ c,
        SpellsThis extensionSource q c ∧ c.span.stop ≤ q.nameNode.span.start ∧
        ∃ front blanks rest after,
          extensionSource.at? q.span =
            some (front ++ "this".toList ++ blanks ++ rest ++ "s".toList ++ after) ∧
          parameterCopy? extensionSource q "s2".toList =
            some (front ++ rest ++ "s2".toList ++ after) := by
  have hnested : extensionList.Nested extensionSource := by decide
  obtain ⟨q, hq, hname, c, -, hc, hle⟩ :
      ∃ q ∈ Parameter.collect extensionSource extensionList,
        extensionSource.at? q.nameNode.span = some "s".toList ∧
        ∃ c ∈ q.binder.children, SpellsThis extensionSource q c ∧
          c.span.stop ≤ q.nameNode.span.start := by decide
  obtain ⟨-, before, written, after, htext, hwritten, -, -, hthis⟩ :=
    parameter_copy_text extensionSource extensionList extensionList q "s2".toList hnested
      (Node.self_mem_preorder _) hq
  obtain ⟨front, blanks, rest, rfl, -, -, hcopy, -⟩ := hthis c hc hle
  cases hwritten.symm.trans hname
  exact ⟨hnested, q, hq, c, hc, hle, front, blanks, rest, after, htext, hcopy⟩

/-- A method whose parameter has the default value `this`. -/
def defaultThisTree : Node :=
  .ofRows [
    .named 0 "compilation_unit" none 0 36, .named 1 "class_declaration" none 0 36,
    .token 2 "class" 0, .named 2 "identifier" "name" 6 7,
    .named 2 "declaration_list" "body" 8 36, .token 3 "\x7b" 8,
    .named 3 "method_declaration" none 10 34, .named 4 "predefined_type" "returns" 10 14,
    .named 4 "identifier" "name" 15 16, .named 4 "parameter_list" "parameters" 16 30,
    .token 5 "(" 16, .named 5 "parameter" none 17 29, .named 6 "predefined_type" "type" 17 20,
    .named 6 "identifier" "name" 21 22, .token 6 "=" 23, .token 6 "this" 25, .token 5 ")" 29,
    .named 4 "block" "body" 31 34, .token 5 "\x7b" 31, .token 5 "\x7d" 33, .token 3 "\x7d" 35]

def defaultThisSource : Text :=
  "class A \x7b void M(int x = this) \x7b \x7d \x7d".toList

theorem default_this_not_copied :
    ¬ ∀ (source : Text) (root list : Node) (q : Parameter) (name : Text), root.Nested source →
      list ∈ root.preorder → q ∈ Parameter.collect source list →
        (parameterCopy? source q name).isSome = true := by
  intro h
  have hnested : defaultThisTree.Nested defaultThisSource := by decide
  obtain ⟨list, hlist, q, hq, hnone⟩ : ∃ list ∈ defaultThisTree.preorder,
      ∃ q ∈ Parameter.collect defaultThisSource list,
        parameterCopy? defaultThisSource q "x2".toList = none := by decide
  have hsome := h _ _ list q "x2".toList hnested hlist hq
  rw [hnone] at hsome
  cases hsome

end ParamTwin.Plan
