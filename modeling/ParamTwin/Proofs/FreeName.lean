import ParamTwin.Naming.Suggester
import Mathlib.Data.List.Nodup
import Mathlib.Data.List.Perm.Subperm

/-!
# Every chosen name is free and valid

Whatever a suggester proposes, `Suggester.best` gives an identifier that is not bound:

* `NameSet.contains_ofList`: a name is in the set of a list iff a name of the list agrees with it
  up to a leading `@`.
* `Candidates.le_countP_isFree`: the candidates of a name are pairwise different even without a
  leading `@` (`bare_candidate_inj`), so of the first `n` at most `size` are bound.
  `Candidates.firstFree` finds the first free one (`firstFree_spec`).
* `Candidates.isValid_candidate`: the candidates of an identifier are identifiers, since a suffix
  continues a word and ends no keyword.
* `Suggester.isUsable_best`: the first usable proposal is usable, and so is the fallback.
-/

namespace ParamTwin

/-! ## Names without their mark -/

namespace Identifier

theorem bare_of_head (name : String) (h : name.toList.head? ≠ some '@') : bare name = name := by
  unfold bare
  split
  · rename_i rest hl
    simp [hl] at h
  · rfl

theorem bare_of_mark {name : String} {rest : List Char} (h : name.toList = '@' :: rest) :
    bare name = String.ofList rest := by
  simp [bare, h]

/-- A suffix that does not start with the mark is kept. -/
theorem bare_append {suffix : String} (name : String) (h : suffix.toList.head? ≠ some '@') :
    bare (name ++ suffix) = bare name ++ suffix := by
  rcases hn : name.toList with _ | ⟨c, rest⟩
  · have : name = "" := by rw [← String.ofList_toList (s := name), hn]
    subst this
    rw [String.empty_append, bare_of_head _ h, bare_of_head "" (by decide), String.empty_append]
  · by_cases hc : c = '@'
    · subst hc
      have hs : (name ++ suffix).toList = '@' :: (rest ++ suffix.toList) := by simp [hn]
      rw [bare_of_mark hn, bare_of_mark hs, String.ofList_append, String.ofList_toList]
    · rw [bare_of_head name (by simpa [hn] using hc),
        bare_of_head (name ++ suffix) (by simpa [hn] using hc)]

/-- The mark in front of a word is no part of it. -/
theorem isLetterOrNumber_mark : Text.isLetterOrNumber '@' = false := by
  decide +kernel

/-- A word does not start with the mark. -/
theorem head_of_isWord {cs : List Char} (h : isWord cs = true) : cs.head? ≠ some '@' := by
  rcases cs with _ | ⟨c, cs⟩
  · simp
  · intro hc
    simp only [List.head?_cons, Option.some.injEq] at hc
    subst hc
    have hl : Text.isLetter '@' = false := (Bool.or_eq_false_iff.1 isLetterOrNumber_mark).1
    simp [isWord, hl] at h

/-- An identifier is a word after its mark, and no keyword if it has none. -/
theorem isValid_iff {name : String} : isValid name = true ↔
    isWord (bare name).toList = true ∧ (bare name = name → keywords.contains name = false) := by
  unfold isValid
  split
  · rename_i rest hl
    have hne : String.ofList rest ≠ name := by
      rintro rfl
      simpa using congrArg List.length hl
    simp [bare_of_mark hl, hne]
  · rename_i hmark
    have hbare : bare name = name := by
      refine bare_of_head name fun hhead => ?_
      obtain ⟨rest, hrest⟩ := List.head?_eq_some_iff.1 hhead
      exact hmark rest hrest
    simp [hbare]

/-- An identifier carries at most one mark. -/
theorem bare_bare_of_isValid {name : String} (h : isValid name = true) :
    bare (bare name) = bare name :=
  bare_of_head _ (head_of_isWord (isValid_iff.1 h).1)

/-- No white space stands in a word. -/
theorem isBlank_of_mem_word {cs : List Char} (h : isWord cs = true) {c : Char} (hc : c ∈ cs) :
    Text.isBlank c = false := by
  have hpart : (Text.isLetterOrNumber c || c == '_') = true := by
    cases cs with
    | nil => cases hc
    | cons d cs =>
      simp only [isWord, Bool.and_eq_true, List.all_eq_true] at h
      rcases List.mem_cons.1 hc with rfl | hc
      · simp only [Text.isLetterOrNumber, Bool.or_eq_true] at h ⊢
        exact h.1.imp_left .inl
      · exact h.2 c hc
  by_contra hblank
  rw [Bool.not_eq_false] at hblank
  rw [Text.isLetterOrNumber_of_isBlank hblank, Bool.false_or, beq_iff_eq] at hpart
  subst hpart
  exact absurd hblank (by decide)

/-- No white space stands in an identifier. -/
theorem isBlank_of_mem_isValid {name : String} (h : isValid name = true) {c : Char}
    (hc : c ∈ name.toList) : Text.isBlank c = false := by
  unfold isValid at h
  split at h
  · rename_i rest hmark
    rw [hmark] at hc
    rcases List.mem_cons.1 hc with rfl | hc
    · decide
    · exact isBlank_of_mem_word h hc
  · exact isBlank_of_mem_word (Bool.and_eq_true_iff.1 h).1 hc

/-- A word goes on with letters, numbers and underscores. -/
theorem isWord_append {cs more : List Char} (h : isWord cs = true)
    (hmore : ∀ c ∈ more, (Text.isLetterOrNumber c || c == '_') = true) :
    isWord (cs ++ more) = true := by
  cases cs with
  | nil => cases h
  | cons c cs =>
    simp only [isWord, List.cons_append, List.all_append, Bool.and_eq_true] at h ⊢
    exact ⟨h.1, h.2, List.all_eq_true.2 hmore⟩

end Identifier

/-! ## Sets of names -/

namespace NameSet

@[simp] theorem contains_empty (name : String) : empty.contains name = false := rfl

@[simp] theorem length_names (s : NameSet) : s.names.length = s.size := rfl

theorem contains_insert (s : NameSet) (a b : String) :
    (s.insert a).contains b = true ↔
      Identifier.bare a = Identifier.bare b ∨ s.contains b = true := by
  unfold insert
  split
  · rename_i h
    refine ⟨.inr, fun hb => hb.elim (fun he => ?_) id⟩
    unfold contains at h ⊢
    rwa [← he]
  · simp only [contains, List.contains_cons, Bool.or_eq_true, beq_iff_eq]
    exact or_congr_left eq_comm

theorem contains_foldl_insert (names : List String) (s : NameSet) (b : String) :
    (names.foldl insert s).contains b = true ↔
      (∃ a ∈ names, Identifier.bare a = Identifier.bare b) ∨ s.contains b = true := by
  induction names generalizing s with
  | nil => simp
  | cons a names ih =>
    rw [List.foldl_cons, ih, contains_insert]
    simp only [List.exists_mem_cons_iff]
    rw [or_left_comm, ← or_assoc]

/-- A name is in the set of a list iff a name of the list agrees with it up to the mark. -/
theorem contains_ofList (names : List String) (b : String) :
    (ofList names).contains b = true ↔ ∃ a ∈ names, Identifier.bare a = Identifier.bare b := by
  simp [ofList, contains_foldl_insert]

end NameSet

/-! ## The candidates -/

namespace Candidates

/-- The digits of a number start with a digit. -/
theorem toDigits_cons (n : Nat) : ∃ c ds, Nat.toDigits 10 n = c :: ds ∧ c.isDigit = true := by
  rcases h : Nat.toDigits 10 n with _ | ⟨c, ds⟩
  · exact absurd h Nat.toDigits_ne_nil
  · exact ⟨c, ds, rfl, Nat.isDigit_of_mem_toDigits (by decide) (by decide) (h ▸ List.mem_cons_self)⟩

theorem toList_suffixAt_number {i : Nat} (h : i < lastNumber) :
    (suffixAt (i + 3)).toList = '_' :: Nat.toDigits 10 (i + 1) := by
  simp [suffixAt, h, Nat.toList_repr]

theorem toList_suffixAt_dup {i : Nat} (h : ¬ i < lastNumber) :
    (suffixAt (i + 3)).toList =
      '_' :: 'd' :: 'u' :: 'p' :: Nat.toDigits 10 (i - lastNumber + 1) := by
  simp [suffixAt, h, Nat.toList_repr]

/-- The index at which a suffix stands in the sequence. -/
def indexOf : List Char → Nat
  | 'C' :: _ => 1
  | '_' :: 'c' :: _ => 2
  | '_' :: 'd' :: _ :: _ :: ds => Nat.ofDigitChars 10 ds 0 + lastNumber + 2
  | '_' :: ds => Nat.ofDigitChars 10 ds 0 + 2
  | _ => 0

theorem indexOf_number (n : Nat) : indexOf ('_' :: Nat.toDigits 10 n) = n + 2 := by
  obtain ⟨c, ds, hd, hc⟩ := toDigits_cons n
  have hn : Nat.ofDigitChars 10 (c :: ds) 0 = n := by rw [← hd, Nat.ofDigitChars_ten_toDigits]
  have h1 : c ≠ 'c' := by rintro rfl; exact absurd hc (by decide)
  have h2 : c ≠ 'd' := by rintro rfl; exact absurd hc (by decide)
  rw [hd]
  unfold indexOf
  split <;> simp_all

theorem indexOf_suffixAt (i : Nat) : indexOf (suffixAt i).toList = i := by
  match i with
  | 0 | 1 | 2 => rfl
  | i + 3 =>
    by_cases h : i < lastNumber
    · rw [toList_suffixAt_number h, indexOf_number]
    · rw [toList_suffixAt_dup h, indexOf, Nat.ofDigitChars_ten_toDigits]
      omega

theorem suffixAt_inj {i j : Nat} (h : suffixAt i = suffixAt j) : i = j := by
  rw [← indexOf_suffixAt i, h, indexOf_suffixAt]

theorem isLetterOrNumber_of_isDigit {c : Char} (h : c.isDigit = true) :
    Text.isLetterOrNumber c = true := by
  rw [Char.isDigit_iff_toNat] at h
  have hr : Text.inRanges Text.numberRanges c.toNat = true :=
    List.any_eq_true.2 ⟨(0x30, 0x39), List.mem_cons_self, by simpa using h⟩
  rw [Text.isLetterOrNumber, hr, Bool.or_true]

/-- A suffix is made of letters, numbers and underscores. -/
theorem suffixAt_word (i : Nat) :
    ∀ c ∈ (suffixAt i).toList, (Text.isLetterOrNumber c || c == '_') = true := by
  have fixed : ∀ c ∈ "_dup".toList, (Text.isLetterOrNumber c || c == '_') = true :=
    List.all_eq_true.1 (by decide +kernel)
  have digit : ∀ n, ∀ c ∈ Nat.toDigits 10 n, (Text.isLetterOrNumber c || c == '_') = true := by
    intro n c hc
    have hd := Nat.isDigit_of_mem_toDigits (by decide) (by decide) hc
    rw [isLetterOrNumber_of_isDigit hd, Bool.true_or]
  match i with
  | 0 | 1 | 2 => exact List.all_eq_true.1 (by decide +kernel)
  | i + 3 =>
    intro c hc
    by_cases h : i < lastNumber
    · rw [toList_suffixAt_number h] at hc
      rcases List.mem_cons.1 hc with rfl | hc
      · exact fixed _ (by decide)
      · exact digit _ c hc
    · rw [toList_suffixAt_dup h] at hc
      simp only [List.mem_cons] at hc
      rcases hc with rfl | rfl | rfl | rfl | hc
      iterate 4 exact fixed _ (by decide)
      exact digit _ c hc

theorem head_suffixAt (i : Nat) : (suffixAt i).toList.head? ≠ some '@' := by
  intro h
  have hmark := suffixAt_word i '@' (List.mem_of_mem_head? h)
  rw [Identifier.isLetterOrNumber_mark] at hmark
  exact absurd hmark (by decide)

theorem bare_candidate (name : String) (i : Nat) :
    Identifier.bare (candidate name i) = Identifier.bare name ++ suffixAt i :=
  Identifier.bare_append name (head_suffixAt i)

/-- The sequence never repeats, not even up to the mark. -/
theorem bare_candidate_inj {name : String} {i j : Nat}
    (h : Identifier.bare (candidate name i) = Identifier.bare (candidate name j)) : i = j := by
  rw [bare_candidate, bare_candidate] at h
  have hl := congrArg String.toList h
  simp only [String.toList_append, List.append_cancel_left_eq] at hl
  exact suffixAt_inj (String.toList_inj.1 hl)

/-- Whether the candidate at an index is free. -/
def isFree (name : String) (bound : NameSet) (i : Nat) : Bool :=
  !bound.contains (candidate name i)

/-- Of the first candidates, no more are bound than there are bound names. -/
theorem le_countP_isFree (name : String) (bound : NameSet) (n : Nat) :
    n ≤ (List.range n).countP (isFree name bound) + bound.size := by
  let taken := (List.range n).filter fun i => !isFree name bound i
  have hnodup : (taken.map fun i => Identifier.bare (candidate name i)).Nodup :=
    (List.nodup_range.filter _).map fun _ _ h => bare_candidate_inj h
  have hsub : taken.map (fun i => Identifier.bare (candidate name i)) ⊆ bound.names := by
    intro b hb
    obtain ⟨i, hi, rfl⟩ := List.mem_map.1 hb
    simpa [isFree, NameSet.contains] using (List.mem_filter.1 hi).2
  have htaken : taken.length ≤ bound.size := by
    simpa using (List.subperm_of_subset hnodup hsub).length_le
  have hsplit : n = (List.range n).countP (isFree name bound) + taken.length := by
    rw [List.countP_eq_length_filter, ← List.length_eq_length_filter_add, List.length_range]
  omega

/-- The search finds the first free candidates. -/
theorem freeFrom_eq (name : String) (bound : NameSet) (i n count : Nat) :
    freeFrom name bound i n count =
      (((List.range' i n).filter (isFree name bound)).take count).map (candidate name) := by
  fun_induction freeFrom name bound i n count with
  | case1 => simp
  | case2 => simp
  | case3 i n count hb ih =>
    have hi : ¬ isFree name bound i = true := by simpa [isFree] using hb
    rw [ih, List.range'_succ, List.filter_cons_of_neg hi]
  | case4 i n count hb ih =>
    have hi : isFree name bound i = true := by simpa [isFree] using hb
    rw [ih, List.range'_succ, List.filter_cons_of_pos hi, List.take_succ_cons, List.map_cons]

/-- The indices of the candidates that are found when `count` are asked for. -/
def freeIndices (name : String) (bound : NameSet) (count : Nat) : List Nat :=
  ((List.range (bound.size + count)).filter (isFree name bound)).take count

theorem free_eq (name : String) (bound : NameSet) (count : Nat) :
    free name bound count = (freeIndices name bound count).map (candidate name) := by
  rw [free, freeFrom_eq, freeIndices, List.range_eq_range']

/-- One of the first `size + 1` candidates is free, so there is a first one. -/
theorem exists_least_free (name : String) (bound : NameSet) :
    ∃ i ≤ bound.size, isFree name bound i = true ∧ ∀ j < i, isFree name bound j = false := by
  have hpos : 0 < (List.range (bound.size + 1)).countP (isFree name bound) := by
    have := le_countP_isFree name bound (bound.size + 1)
    omega
  obtain ⟨k, hk, hfree⟩ := List.countP_pos_iff.1 hpos
  obtain ⟨i, hi⟩ := Option.isSome_iff_exists.1 (List.find?_isSome.2 ⟨k, hk, hfree⟩)
  obtain ⟨hi, hlt, hleast⟩ := List.find?_range_eq_some.1 hi
  exact ⟨i, Nat.le_of_lt_succ (List.mem_range.1 hlt), hi, by simpa using hleast⟩

section
variable {name : String} {bound : NameSet} {i : Nat} (hi : i ≤ bound.size)
  (hfree : isFree name bound i = true) (hleast : ∀ j < i, isFree name bound j = false)
include hi hfree hleast

/-- The search starts with the first free candidate, however many are asked for. -/
theorem head?_free (count : Nat) :
    (free name bound (count + 1)).head? = some (candidate name i) := by
  have hfind : (List.range (bound.size + (count + 1))).find? (isFree name bound) = some i :=
    List.find?_range_eq_some.2 ⟨hfree, List.mem_range.2 (by omega), by simpa using hleast⟩
  rw [free_eq, List.head?_map, freeIndices, List.head?_take, if_neg (Nat.succ_ne_zero count),
    List.head?_filter, hfind]
  rfl

theorem firstFree_eq : firstFree name bound = candidate name i := by
  rw [firstFree, List.headD_eq_head?_getD, head?_free hi hfree hleast]
  rfl

end

/-- The first free candidate is a candidate, and free. -/
theorem firstFree_spec (name : String) (bound : NameSet) :
    ∃ i ≤ bound.size, firstFree name bound = candidate name i ∧
      isFree name bound i = true ∧ ∀ j < i, isFree name bound j = false := by
  obtain ⟨i, hi, hfree, hleast⟩ := exists_least_free name bound
  exact ⟨i, hi, firstFree_eq hi hfree hleast, hfree, hleast⟩

/-- No keyword ends in a suffix: keywords are in lower case, and no suffix is. -/
theorem not_keyword (name : String) (i : Nat) :
    Identifier.keywords.contains (name ++ suffixAt i) = false := by
  have hlower : ∀ k ∈ Identifier.keywords, k.toList.all Char.isLower = true := by decide +kernel
  have hsuffix : ∃ c ∈ (suffixAt i).toList, c.isLower = false := by
    match i with
    | 0 => exact ⟨'2', by decide, rfl⟩
    | 1 => exact ⟨'C', by decide, rfl⟩
    | 2 => exact ⟨'_', by decide, rfl⟩
    | i + 3 =>
      refine ⟨'_', ?_, rfl⟩
      by_cases h : i < lastNumber
      · simp [toList_suffixAt_number h]
      · simp [toList_suffixAt_dup h]
  by_contra hc
  simp only [Bool.not_eq_false, List.contains_iff_mem] at hc
  obtain ⟨c, hmem, hc'⟩ := hsuffix
  have := List.all_eq_true.1 (hlower _ hc) c (by simp [hmem])
  rw [hc'] at this
  cases this

/-- The candidates of an identifier are identifiers. -/
theorem isValid_candidate {name : String} (h : Identifier.isValid name = true) (i : Nat) :
    Identifier.isValid (candidate name i) = true := by
  rw [Identifier.isValid_iff, bare_candidate] at *
  refine ⟨?_, fun _ => not_keyword name i⟩
  rw [String.toList_append]
  exact Identifier.isWord_append h.1 (suffixAt_word i)

end Candidates

/-! ## The chosen name -/

namespace Suggester

theorem isValid_fallback : Identifier.isValid fallback = true := by
  decide

/-- The first free candidate of an identifier can be taken. -/
theorem isUsable_firstFree {name : String} (h : Identifier.isValid name = true)
    (bound : NameSet) : isUsable bound (Candidates.firstFree name bound) = true := by
  obtain ⟨i, -, heq, hfree, -⟩ := Candidates.firstFree_spec name bound
  rw [heq, isUsable, Candidates.isValid_candidate h, Bool.true_and]
  exact hfree

theorem isUsable_fallbackName (bound : NameSet) : isUsable bound (fallbackName bound) = true := by
  unfold fallbackName
  split
  · exact isUsable_firstFree isValid_fallback bound
  · rename_i h
    simpa [isUsable, isValid_fallback] using h

/-- **The chosen name is an identifier and not bound**, whatever the suggester proposes. -/
theorem isUsable_best (s : Suggester) (name : String) (context : NamingContext)
    (typeName : String) (bound : NameSet) (count : Nat) :
    isUsable bound (s.best name context typeName bound count) = true := by
  simp only [best]
  generalize s.suggest _ context typeName bound (max count 1) = proposals
  cases h : proposals.find? (isUsable bound) with
  | none => exact isUsable_fallbackName bound
  | some chosen => exact List.find?_some h

end Suggester
end ParamTwin
