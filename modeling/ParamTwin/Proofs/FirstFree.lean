import ParamTwin.Proofs.FreeName

/-!
# Naming by suffix takes the first free candidates

The suffix sequence is endless and the bound names are finite, so naming by suffix always finds as
many names as it is asked for, and they are the first ones that are free.

* `Candidates.first_free_candidates`: what the search finds, as indices of the sequence. They ascend,
  no free candidate is left out between them, and the bound names can delay the search by no more
  candidates than there are bound names.
* `Suggester.deterministic_best_first`: every candidate of an identifier is an identifier, so the
  chosen name is the first free candidate, however many proposals are asked for.
-/

namespace ParamTwin

namespace Candidates

section
variable (name : String) (bound : NameSet) (count : Nat)

theorem length_freeIndices : (freeIndices name bound count).length = count := by
  have hmany := le_countP_isFree name bound (bound.size + count)
  rw [List.countP_eq_length_filter] at hmany
  rw [freeIndices, List.length_take]
  omega

theorem pairwise_freeIndices : (freeIndices name bound count).Pairwise (· < ·) :=
  List.pairwise_lt_range.sublist ((List.take_sublist _ _).trans List.filter_sublist)

variable {name bound count}

theorem of_mem_freeIndices {i : Nat} (h : i ∈ freeIndices name bound count) :
    i < bound.size + count ∧ isFree name bound i = true := by
  simpa using List.mem_of_mem_take h

/-- No free candidate is left out before the last one that is found. -/
theorem mem_freeIndices_or_behind {j : Nat} (h : isFree name bound j = true) :
    j ∈ freeIndices name bound count ∨ ∀ i ∈ freeIndices name bound count, i < j := by
  by_cases hj : j < bound.size + count
  · have hmem : j ∈ (List.range (bound.size + count)).filter (isFree name bound) :=
      List.mem_filter.2 ⟨List.mem_range.2 hj, h⟩
    have hsorted : ((List.range (bound.size + count)).filter (isFree name bound)).Pairwise
        (· < ·) := List.pairwise_lt_range.sublist List.filter_sublist
    -- The found indices are the front part of the free ones, which ascend.
    rw [← List.take_append_drop count (List.filter _ _)] at hmem hsorted
    rcases List.mem_append.1 hmem with hfront | hback
    · exact .inl hfront
    · exact .inr fun i hi => (List.pairwise_append.1 hsorted).2.2 i hi j hback
  · right
    intro i hi
    have := (of_mem_freeIndices hi).1
    omega

end

/-- **Naming by suffix finds the first free candidates.** The first free candidate is the one of
least index that is not bound, and that index is at most the number of bound names. Exactly as many
proposals are made as are asked for; they differ even without a leading `@`, none of them is bound,
they are candidates in ascending order, all within the first `size + count`, with no free one left
out, and they begin with the first free candidate. -/
theorem first_free_candidates (name : String) (bound : NameSet) :
    (∃ i ≤ bound.size, firstFree name bound = candidate name i ∧
      bound.contains (candidate name i) = false ∧
      ∀ j < i, bound.contains (candidate name j) = true) ∧
    ∀ (context : NamingContext) (typeName : String) (count : Nat),
      let names := Suggester.deterministic.suggest name context typeName bound count
      names.length = count ∧ (names.map Identifier.bare).Nodup ∧
      (∀ n ∈ names, bound.contains n = false) ∧
      names.head? = (if count = 0 then none else some (firstFree name bound)) ∧
      ∃ indices : List Nat, names = indices.map (candidate name) ∧ indices.Pairwise (· < ·) ∧
        (∀ i ∈ indices, i < bound.size + count) ∧
        ∀ j, bound.contains (candidate name j) = false → j ∈ indices ∨ ∀ i ∈ indices, i < j := by
  obtain ⟨i, hi, hfirst, hfree, hleast⟩ := firstFree_spec name bound
  refine ⟨⟨i, hi, hfirst, by simpa [isFree] using hfree, by simpa [isFree] using hleast⟩, ?_⟩
  intro context typeName count names
  have hnames : names = (freeIndices name bound count).map (candidate name) :=
    free_eq name bound count
  refine ⟨?_, ?_, ?_, ?_, freeIndices name bound count, hnames,
    pairwise_freeIndices name bound count, fun j hj => (of_mem_freeIndices hj).1, ?_⟩
  · rw [hnames, List.length_map, length_freeIndices]
  · rw [hnames, List.map_map]
    have hnodup : (freeIndices name bound count).Nodup :=
      (pairwise_freeIndices name bound count).imp Nat.ne_of_lt
    exact hnodup.map fun _ _ h => bare_candidate_inj h
  · rw [hnames]
    intro n hn
    obtain ⟨j, hj, rfl⟩ := List.mem_map.1 hn
    simpa [isFree] using (of_mem_freeIndices hj).2
  · cases count with
    | zero => rw [hnames]; simp [freeIndices]
    | succ count =>
      rw [hfirst, if_neg (Nat.succ_ne_zero count)]
      exact head?_free hi hfree hleast count
  · intro j hj
    exact mem_freeIndices_or_behind (by simpa [isFree] using hj)

theorem marked_name_passes_bound :
    let bound := NameSet.ofList ["x2", "@xCopy"]
    let names := Suggester.deterministic.suggest "@x" default "int" bound 2
    names = ["@x_copy", "@x_1"] ∧ names.head? = some (firstFree "@x" bound) ∧
      bound.contains (candidate "@x" 2) = false ∧
      ∃ indices : List Nat, names = indices.map (candidate "@x") ∧ (∀ i ∈ indices, i < 4) ∧
        (2 ∈ indices ∨ ∀ i ∈ indices, i < 2) := by
  intro bound names
  have hfree : bound.contains (candidate "@x" 2) = false := by decide
  obtain ⟨-, hnames⟩ := first_free_candidates "@x" bound
  obtain ⟨-, -, -, hhead, indices, heq, -, hbelow, hleft⟩ := hnames default "int" 2
  exact ⟨by decide, hhead, hfree, indices, heq, hbelow, hleft 2 hfree⟩

end Candidates

namespace Suggester

theorem isBlankString_of_isValid {name : String} (h : Identifier.isValid name = true) :
    Text.isBlankString name = false := by
  have hne : name.toList ≠ [] := by
    intro hnil
    simp [Identifier.isValid, hnil, Identifier.isWord] at h
  obtain ⟨c, hc⟩ := List.exists_mem_of_ne_nil _ hne
  refine List.all_eq_false.2 ⟨c, hc, ?_⟩
  rw [Identifier.isBlank_of_mem_isValid h hc]
  exact Bool.false_ne_true

/-- The first proposal for an identifier is taken. -/
theorem find?_deterministic {name : String} (h : Identifier.isValid name = true)
    (context : NamingContext) (typeName : String) (bound : NameSet) (count : Nat) :
    (deterministic.suggest name context typeName bound (max count 1)).find? (isUsable bound) =
      some (Candidates.firstFree name bound) := by
  obtain ⟨i, hi, hfirst, hfree, hleast⟩ := Candidates.firstFree_spec name bound
  obtain ⟨more, hmore⟩ : ∃ more, max count 1 = more + 1 := Nat.exists_eq_add_of_le' (by omega)
  obtain ⟨rest, hrest⟩ := List.head?_eq_some_iff.1 (Candidates.head?_free hi hfree hleast more)
  have hproposals : deterministic.suggest name context typeName bound (max count 1) =
      Candidates.firstFree name bound :: rest := by rw [hmore, hfirst]; exact hrest
  rw [hproposals, List.find?_cons_of_pos (isUsable_firstFree h bound)]

/-- **Naming by suffix does not depend on how many proposals are asked for.** All candidates of an
identifier are identifiers, and no keywords even without their mark. So the search among the
proposals succeeds with the first free candidate, and the fallback is not needed; a blank name is
given the candidates of `param`. -/
theorem deterministic_best_first (name : String) (context : NamingContext) (typeName : String)
    (bound : NameSet) (count : Nat) :
    (Identifier.isValid name = true →
      (∀ i, Identifier.isValid (Candidates.candidate name i) = true ∧
        Identifier.keywords.contains (Identifier.bare (Candidates.candidate name i)) = false) ∧
      (deterministic.suggest name context typeName bound (max count 1)).find? (isUsable bound) =
        some (Candidates.firstFree name bound) ∧
      deterministic.best name context typeName bound count =
        Candidates.firstFree name bound) ∧
    (Text.isBlankString name = true →
      deterministic.best name context typeName bound count =
        Candidates.firstFree "param" bound) := by
  constructor
  · intro h
    have hfind := find?_deterministic h context typeName bound count
    refine ⟨fun i => ⟨Candidates.isValid_candidate h i, ?_⟩, hfind, ?_⟩
    · rw [Candidates.bare_candidate]
      exact Candidates.not_keyword _ i
    · simp only [best, isBlankString_of_isValid h, Bool.false_eq_true, if_false]
      rw [hfind, Option.getD_some]
  · intro h
    simp only [best, h, if_true]
    rw [find?_deterministic isValid_fallback, Option.getD_some]
    rfl

theorem marked_keyword_named :
    let bound := NameSet.ofList ["class", "@class2", "classCopy", "param2"]
    Identifier.isValid "@class" = true ∧ Text.isBlankString " \t" = true ∧
    (∀ count, deterministic.best "@class" default "int" bound count = "@class_copy") ∧
    ∀ count, deterministic.best " \t" default "int" bound count = "paramCopy" := by
  intro bound
  have hvalid : Identifier.isValid "@class" = true := by decide
  have hblank : Text.isBlankString " \t" = true := by decide
  refine ⟨hvalid, hblank, fun count => ?_, fun count => ?_⟩
  · rw [((deterministic_best_first "@class" default "int" bound count).1 hvalid).2.2]
    decide
  · rw [(deterministic_best_first " \t" default "int" bound count).2 hblank]
    decide

end Suggester
end ParamTwin
