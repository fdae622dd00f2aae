import ParamTwin.Proofs.ReferenceNames
import ParamTwin.Proofs.RenamedCopy

/-!
# The statement of the first use

Which statement is duplicated, and when there is none.

* `Usage.isUse_iff`: in a tree whose names start at distinct offsets the uses of a parameter are the
  references to it.
* `Usage.located_statement_nearest`: the statement is the nearest one around the first reference, and
  its copy has a place for the new name.
* `Usage.first_use_unlocated_iff`: a parameter that is used stays without a duplicated statement iff
  its first use lies in a part of a switch section or block that is no statement, as the guard of a
  case does (`guarded_use_not_located`).
-/

namespace ParamTwin.Usage

section
variable {source : Text} {root : Node} {withLocal : Bool} {p : Procedure} {q : Parameter}
  {symbol : Nat}

/-- References to a parameter have its spelling, so they are its uses. -/
theorem isUse_iff (hdistinct : root.NamesDistinct) (hdeclare : root.NamesDeclare)
    (hp : p ∈ Procedure.list source root withLocal) (hq : q ∈ p.parameters)
    (hd : (Model.build source root).declared? q.binder = some symbol) {n : Node}
    (hn : n ∈ root.preorder) :
    isUse (Model.build source root) q.name symbol n = true ↔
      (Model.build source root).reference? n = some symbol := by
  obtain ⟨ps, hps, heq⟩ := Procedure.exists_list_of_mem hp
  rw [heq] at hq
  simp only [isUse, Bool.and_eq_true, beq_iff_eq]
  refine ⟨fun h => h.2, fun h => ⟨?_, h⟩⟩
  exact Parameter.spelling_of_reference? hdistinct hdeclare hps hq hd hn h

theorem FirstAt.congr {test test' : Node → Bool} {body r : Node} {place : Path}
    (h : ∀ n ∈ body.preorder, test n = test' n) (hfirst : FirstAt test body place r) :
    FirstAt test' body place r := by
  obtain ⟨before, after, heq, hr, hbefore⟩ := hfirst
  have hmem {x : Path × Node} (hx : x ∈ body.placed) : x.2 ∈ body.preorder :=
    Node.mem_preorder_of_at? (Node.mem_placed_iff.1 hx)
  refine ⟨before, after, heq, ?_, fun x hx => ?_⟩
  · rw [← h r (hmem (x := (place, r)) (by rw [heq]; simp)), hr]
  · rw [← h x.2 (hmem (by rw [heq]; simp [hx])), hbefore x hx]

/-- Tests that agree in the body find the same statement. -/
theorem locateBy_congr {test test' : Node → Bool} {body : Option Node}
    (htest : ∀ n, test n = true → n.kind = "identifier")
    (htest' : ∀ n, test' n = true → n.kind = "identifier")
    (h : ∀ b, body = some b → ∀ n ∈ b.preorder, test n = test' n) :
    locateBy test body = locateBy test' body := by
  have hfirst {b r : Node} {place : Path} (hb : body = some b) :
      FirstAt test b place r ↔ FirstAt test' b place r :=
    ⟨.congr (h b hb), .congr fun n hn => (h b hb n hn).symm⟩
  ext s
  rw [locateBy_eq_some_iff htest, locateBy_eq_some_iff htest']
  refine and_congr_right fun _ => exists_congr fun b => exists_congr fun place =>
    exists_congr fun r => exists_congr fun inner => and_congr_right fun hb => ?_
  rw [hfirst hb]

/-- A node around a reference has a place for the new name in its copy. -/
theorem exists_renamed_place {s r : Node} (hnested : root.Nested source)
    (happart : root.IdentifiersApart) (hs : s ∈ root.preorder) (hr : r ∈ s.preorder)
    (href : (Model.build source root).reference? r = some symbol) :
    ∃ pieces : List Text, 2 ≤ pieces.length ∧ ∀ name,
      renamed? (Model.build source root) s name symbol = some (Text.join name pieces) := by
  obtain ⟨pieces, hpieces, spellings, hmap, hlength, -⟩ := exists_pieces hnested happart hs symbol
  refine ⟨pieces, ?_, fun name => ?_⟩
  · have hmem : r.span ∈ referenceSpans (Model.build source root) symbol s := by
      refine List.mem_map_of_mem (List.mem_filter.2 ⟨hr, ?_⟩)
      simp [href, kind_of_reference? href]
    have hcount := congrArg List.length hmap
    have hpos := List.length_pos_of_mem hmem
    rw [List.length_map, List.length_map] at hcount
    omega
  · rw [renamed?_eq]
    exact congrArg (Option.map (Text.join name)) hpieces

end

/-- **The statement that is duplicated.** In a tree whose spans nest and whose names start at
distinct offsets, the references to a parameter are spelled like it, and comparing the spelling does
not change what is found. What is found is a statement that stands directly in a block or switch
section of the body, around the first reference to the parameter in document order and with no other
such node between the two; its copy has at least one place for the new name. -/
theorem located_statement_nearest (source : Text) (root : Node) (withLocal : Bool) (p : Procedure)
    (q : Parameter) (symbol : Nat) (hnested : root.Nested source)
    (hdistinct : root.NamesDistinct) (hdeclare : root.NamesDeclare)
    (hp : p ∈ Procedure.list source root withLocal) (hq : q ∈ p.parameters)
    (hd : (Model.build source root).declared? q.binder = some symbol) :
    let m := Model.build source root
    let refers := fun n => m.reference? n == some symbol
    (∀ n ∈ root.preorder, m.reference? n = some symbol →
      Identifier.bare (n.textString source) = Identifier.bare q.name) ∧
    locate? m p.body q.name symbol = locateBy refers p.body ∧
    ∀ s, locate? m p.body q.name symbol = some s → Kind.isStatement s.kind = true ∧
      ∃ body place r inner, p.body = some body ∧ FirstAt refers body place r ∧
        body.at? inner = some s ∧ inner ≠ [] ∧ inner.Encloses place ∧
        standsAt body inner = true ∧
        (∀ mid, inner.Encloses mid → mid.Encloses place → standsAt body mid = false) ∧
        ∃ pieces : List Text, 2 ≤ pieces.length ∧
          ∀ name, renamed? m s name symbol = some (Text.join name pieces) := by
  intro m refers
  have hrefers : ∀ n, refers n = true → n.kind = "identifier" := fun n hn =>
    kind_of_reference? (eq_of_beq hn)
  have hsame : locate? m p.body q.name symbol = locateBy refers p.body := by
    rw [locate?_eq]
    refine locateBy_congr (fun n => kind_of_isUse) hrefers fun b hb n hn => ?_
    have hn := Node.preorder_subset (Procedure.body_mem_preorder hp hb) hn
    rw [Bool.eq_iff_iff, isUse_iff hdistinct hdeclare hp hq hd hn, beq_iff_eq]
  refine ⟨fun n hn href => ?_, hsame, fun s hs => ?_⟩
  · have huse := (isUse_iff hdistinct hdeclare hp hq hd hn).2 href
    simp only [isUse, Bool.and_eq_true, beq_iff_eq] at huse
    exact huse.1
  · rw [hsame, locateBy_eq_some_iff hrefers] at hs
    obtain ⟨hkind, body, place, r, inner, hbody, hfirst, hnearest, hs⟩ := hs
    have hbodyIn := Procedure.body_mem_preorder hp hbody
    obtain ⟨s', hs', hsub⟩ := Node.exists_around hnearest.around hfirst.at?
    cases hs.symm.trans hs'
    -- An identifier is no statement, so the statement lies around the reference.
    have hne : inner ≠ place := by
      rintro rfl
      cases hs.symm.trans hfirst.at?
      rw [hrefers s hfirst.passes] at hkind
      exact absurd hkind (by decide)
    refine ⟨hkind, body, place, r, inner, hbody, hfirst, hs, ?_, ⟨hnearest.around, hne⟩,
      hnearest.stands, fun mid hmid hle => hnearest.between mid hmid hle.1, ?_⟩
    · rintro rfl
      cases hnearest.stands
    · exact exists_renamed_place hnested hdistinct.identifiersApart
        (Node.preorder_subset hbodyIn (Node.mem_preorder_of_at? hs))
        (hsub (Node.self_mem_preorder r)) (eq_of_beq hfirst.passes)

theorem method_statement_nearest :
    Plan.methodTree.Nested Plan.methodSource ∧ Plan.methodTree.NamesDistinct ∧
      Plan.methodTree.NamesDeclare ∧
      ∃ p ∈ Procedure.list Plan.methodSource Plan.methodTree false, ∃ q ∈ p.parameters, ∃ s,
        locate? (Model.build Plan.methodSource Plan.methodTree) p.body q.name 21 = some s ∧
        s.span = ⟨53, 60⟩ ∧ ∃ body place r inner, p.body = some body ∧
          FirstAt (fun n => (Model.build Plan.methodSource Plan.methodTree).reference? n == some 21)
            body place r ∧ body.at? inner = some s ∧ inner.Encloses place := by
  have htree : Plan.methodTree.Nested Plan.methodSource ∧ Plan.methodTree.NamesDistinct ∧
      Plan.methodTree.NamesDeclare := by decide +kernel
  obtain ⟨p, hp, q, hq, hd, hs⟩ :
      ∃ p ∈ Procedure.list Plan.methodSource Plan.methodTree false, ∃ q ∈ p.parameters,
        (Model.build Plan.methodSource Plan.methodTree).declared? q.binder = some 21 ∧
        (locate? (Model.build Plan.methodSource Plan.methodTree) p.body q.name 21).map (·.span) =
          some ⟨53, 60⟩ := by decide +kernel
  obtain ⟨s, hs, hspan⟩ := Option.map_eq_some_iff.1 hs
  obtain ⟨hnested, hdistinct, hdeclare⟩ := htree
  obtain ⟨-, -, hfound⟩ := located_statement_nearest Plan.methodSource Plan.methodTree false p q 21
    hnested hdistinct hdeclare hp hq hd
  obtain ⟨-, body, place, r, inner, hbody, hfirst, hat, -, henc, -⟩ := hfound s hs
  exact ⟨hnested, hdistinct, hdeclare, p, hp, q, hq, s, hs, hspan, body, place, r, inner, hbody,
    hfirst, hat, henc⟩

/-! ## Uses without a statement -/

/-- The one parameter of a procedure is used, and the nearest node around its first use that stands
directly in a block or switch section is a statement. -/
def UsedInStatement (m : Model) (p : Procedure) : Prop :=
  ∃ q symbol s, p.parameters = [q] ∧ m.declared? q.binder = some symbol ∧
    Kind.isStatement s.kind = true ∧ ∃ body place r inner, p.body = some body ∧
      FirstAt (isUse m q.name symbol) body place r ∧ Nearest body inner place ∧
      body.at? inner = some s

theorem usedInStatement_iff {m : Model} {p : Procedure} : UsedInStatement m p ↔
    p.parameters.length = 1 ∧ ∀ q ∈ p.parameters, (Plan.located? m p q).isSome = true := by
  constructor
  · rintro ⟨q, symbol, s, hone, hd, hs⟩
    rw [← locateBy_eq_some_iff fun _ => kind_of_isUse, ← locate?_eq] at hs
    simp [hone, Plan.located?, hd, hs]
  · rintro ⟨hone, hall⟩
    obtain ⟨q, hone⟩ := List.length_eq_one_iff.1 hone
    obtain ⟨⟨symbol, s⟩, hfound⟩ :=
      Option.isSome_iff_exists.1 (hall q (by rw [hone]; exact .head _))
    obtain ⟨hd, hs⟩ := Plan.located?_eq_some_iff.1 hfound
    rw [locate?_eq, locateBy_eq_some_iff fun _ => kind_of_isUse] at hs
    exact ⟨q, symbol, s, hone, hd, hs⟩

instance (m : Model) (p : Procedure) : Decidable (UsedInStatement m p) :=
  decidable_of_iff _ usedInStatement_iff.symm

theorem isSome_of_usageSlot? {m : Model} {p : Procedure} {q : Parameter} {second : Option Slot}
    (h : Plan.usageSlot? m p q = some second) :
    second.isSome = (Plan.located? m p q).isSome := by
  unfold Plan.usageSlot? at h
  split at h
  · rename_i hnone
    cases h
    rw [hnone]
    rfl
  · rename_i symbol s hsome
    obtain ⟨pieces, -, h⟩ := Option.bind_eq_some_iff.1 h
    obtain ⟨place, -, h⟩ := Option.bind_eq_some_iff.1 h
    cases h
    rw [hsome]
    rfl

theorem length_slots?_eq_two_iff {m : Model} {p : Procedure} {xs : List Slot}
    (h : Plan.slots? m p = some xs) : xs.length = 2 ↔ UsedInStatement m p := by
  rw [usedInStatement_iff]
  unfold Plan.slots? at h
  split at h
  · rename_i q hone
    obtain ⟨first, -, h⟩ := Option.bind_eq_some_iff.1 h
    obtain ⟨second, hsecond, h⟩ := Option.bind_eq_some_iff.1 h
    cases h
    have hlocated := isSome_of_usageSlot? hsecond
    cases second <;> simp_all
  · rename_i hne
    cases h
    refine iff_of_false (by simp) fun hone => ?_
    obtain ⟨q, hone⟩ := List.length_eq_one_iff.1 hone.1
    exact hne q hone

/-- The counter of duplicated usages counts the procedures whose parameter is used in a statement. -/
theorem countP_length_slots? {m : Model} {ps : List Procedure} {xss : List (List Slot)}
    (h : List.Forall₂ (fun p xs => Plan.slots? m p = some xs) ps xss) :
    xss.countP (·.length = 2) = ps.countP fun p => UsedInStatement m p := by
  induction h with
  | nil => rfl
  | @cons p xs ps xss hxs _ ih =>
    rw [List.countP_cons, List.countP_cons, ih]
    simp only [length_slots?_eq_two_iff hxs]

/-- **Which uses are not duplicated.** No statement is found for a parameter iff the procedure has no
block for a body, the parameter has no use in it, or the node nearest to the first use that stands
directly in a block or switch section is no statement. If the names of the tree start at distinct
offsets, the uses are the references that the model resolves to the parameter. The counter of
duplicated usages leaves out just these procedures. -/
theorem first_use_unlocated_iff (source : Text) (root : Node) (withLocal : Bool)
    (suggester : Suggester) (count : Nat) :
    let m := Model.build source root
    let ps := Procedure.list source root withLocal
    (∀ p ∈ ps, ∀ q ∈ p.parameters, ∀ symbol, m.declared? q.binder = some symbol →
      (locate? m p.body q.name symbol = none ↔ p.body = none ∨ ∃ body, p.body = some body ∧
        ((∀ n ∈ body.preorder, isUse m q.name symbol n = false) ∨
          ∃ place r inner s, FirstAt (isUse m q.name symbol) body place r ∧
            Nearest body inner place ∧ body.at? inner = some s ∧
            Kind.isStatement s.kind = false)) ∧
      (root.NamesDistinct → root.NamesDeclare → ∀ n ∈ root.preorder,
        (isUse m q.name symbol n = true ↔ m.reference? n = some symbol))) ∧
    ∀ plan, Plan.make? m root suggester withLocal count = some plan →
      plan.counts.usages = ps.countP fun p => UsedInStatement m p := by
  intro m ps
  refine ⟨fun p hp q hq symbol hd => ⟨?_, fun hdistinct hdeclare n hn =>
    isUse_iff hdistinct hdeclare hp hq hd hn⟩, fun plan hplan => ?_⟩
  · rw [locate?_eq]
    cases hbody : p.body with
    | none => simp [locateBy]
    | some body =>
      rw [locateBy_eq_none_iff (fun _ => kind_of_isUse) (Plan.kind_of_body hp hbody)]
      simp
  · obtain ⟨xss, hxss, -, hcounts⟩ := Plan.make?_eq_some_iff.1 hplan
    rw [hcounts]
    exact countP_length_slots? (Plan.outline?_eq_some_iff.1 hxss)

/-- The only use of the parameter is in the guard of a case. -/
def guardTree : Node :=
  .ofRows [
    .named 0 "compilation_unit" none 0 99, .named 1 "class_declaration" none 0 98,
    .token 2 "class" 0, .named 2 "identifier" "name" 6 7,
    .named 2 "declaration_list" "body" 8 98, .token 3 "\x7b" 8,
    .named 3 "method_declaration" none 14 96, .named 4 "predefined_type" "returns" 14 18,
    .named 4 "identifier" "name" 19 20, .named 4 "parameter_list" "parameters" 20 27,
    .token 5 "(" 20, .named 5 "parameter" none 21 26, .named 6 "predefined_type" "type" 21 24,
    .named 6 "identifier" "name" 25 26, .token 5 ")" 26, .named 4 "block" "body" 28 96,
    .token 5 "\x7b" 28, .named 5 "switch_statement" none 38 90, .token 6 "switch" 38,
    .token 6 "(" 45, .named 6 "identifier" "value" 46 47, .token 6 ")" 47,
    .named 6 "switch_body" "body" 49 90, .token 7 "\x7b" 49,
    .named 7 "switch_section" none 51 88, .token 8 "case" 51,
    .named 8 "declaration_pattern" none 56 61, .named 9 "predefined_type" "type" 56 59,
    .named 9 "identifier" "name" 60 61, .named 8 "when_clause" none 62 72, .token 9 "when" 62,
    .named 9 "binary_expression" none 67 72, .named 10 "identifier" "left" 67 68,
    .token 10 ">" 69 "operator", .named 10 "identifier" "right" 71 72, .token 8 ":" 72,
    .named 8 "expression_statement" none 74 81, .named 9 "invocation_expression" none 74 80,
    .named 10 "identifier" "function" 74 77, .named 10 "argument_list" "arguments" 77 80,
    .token 11 "(" 77, .named 11 "argument" none 78 79, .named 12 "identifier" none 78 79,
    .token 11 ")" 79, .token 9 ";" 80, .named 8 "break_statement" none 82 88,
    .token 9 "break" 82, .token 9 ";" 87, .token 7 "\x7d" 89, .token 5 "\x7d" 95,
    .token 3 "\x7d" 97]

def guardSource : Text :=
  ("class C \x7b\n    void M(int x) \x7b\n        " ++
    "switch (y) \x7b case int n when n > x: Use(n); break; \x7d\n    \x7d\n\x7d\n").toList

theorem guard_procedure : ∃ p ∈ Procedure.list guardSource guardTree false, ∃ q ∈ p.parameters,
    (Model.build guardSource guardTree).declared? q.binder = some 25 ∧
      (∃ body ∈ p.body, ∃ n ∈ body.preorder,
        (Model.build guardSource guardTree).reference? n = some 25) ∧
      locate? (Model.build guardSource guardTree) p.body q.name 25 = none := by decide +kernel

theorem guarded_use_unlocated :
    guardTree.NamesDistinct ∧ guardTree.NamesDeclare ∧
      ∃ p ∈ Procedure.list guardSource guardTree false, ∃ q ∈ p.parameters, ∃ body place r inner s,
        p.body = some body ∧
        FirstAt (isUse (Model.build guardSource guardTree) q.name 25) body place r ∧
        (Model.build guardSource guardTree).reference? r = some 25 ∧ Nearest body inner place ∧
        body.at? inner = some s ∧ Kind.isStatement s.kind = false ∧
        ∃ plan, Plan.make? (Model.build guardSource guardTree) guardTree .deterministic false 1 =
          some plan ∧ (Procedure.list guardSource guardTree false).countP
            (fun p => UsedInStatement (Model.build guardSource guardTree) p) = 0 := by
  have hnames : guardTree.NamesDistinct ∧ guardTree.NamesDeclare := by decide +kernel
  obtain ⟨p, hp, q, hq, hd, ⟨body, hbody, n, hn, href⟩, hnone⟩ := guard_procedure
  obtain ⟨hfirst, hcount⟩ := first_use_unlocated_iff guardSource guardTree false .deterministic 1
  obtain ⟨hiff, huse⟩ := hfirst p hp q hq 25 hd
  have hbodyIn := Procedure.body_mem_preorder hp hbody
  have huse := huse hnames.1 hnames.2
  obtain ⟨plan, hplan, hzero⟩ := Option.map_eq_some_iff.1 (show (Plan.make?
    (Model.build guardSource guardTree) guardTree .deterministic false 1).map (·.counts.usages) =
      some 0 by decide +kernel)
  refine ⟨hnames.1, hnames.2, p, hp, q, hq, body, ?_⟩
  rcases hiff.1 hnone with h | ⟨body', hbody', h | ⟨place, r, inner, s, hfirst, hnearest, hs, hk⟩⟩
  · cases h.symm.trans hbody
  · cases hbody'.symm.trans hbody
    have := (huse n (Node.preorder_subset hbodyIn hn)).2 href
    simp [h n hn] at this
  · cases hbody'.symm.trans hbody
    have hr := Node.preorder_subset hbodyIn (Node.mem_preorder_of_at? hfirst.at?)
    exact ⟨place, r, inner, s, hbody, hfirst, (huse r hr).1 hfirst.passes, hnearest, hs, hk, plan,
      hplan, (hcount plan hplan).symm.trans hzero⟩

theorem guarded_use_not_located :
    ¬ ∀ (source : Text) (root : Node) (withLocal : Bool),
      ∀ p ∈ Procedure.list source root withLocal, ∀ q ∈ p.parameters, ∀ body symbol,
        p.body = some body → (Model.build source root).declared? q.binder = some symbol →
        (∃ n ∈ body.preorder, (Model.build source root).reference? n = some symbol) →
          (locate? (Model.build source root) p.body q.name symbol).isSome = true := by
  intro h
  obtain ⟨p, hp, q, hq, hd, ⟨body, hbody, href⟩, hnone⟩ := guard_procedure
  have hsome := h guardSource guardTree false p hp q hq body 25 hbody hd href
  simp [hnone] at hsome

end ParamTwin.Usage
