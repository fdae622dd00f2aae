import Mathlib.Data.List.Forall2
import Mathlib.Data.List.TakeDrop
import Mathlib.Tactic.Common
import ParamTwin.Json.Reader

/-!
# Written JSON is read back

`Json.read?_prettyAt`: a value that is written over several lines is read as the same value, if its
numbers are read from their own texts. Strings may hold any characters.

A number can have several forms with the same text, of which only one is read back. The lemmas on
arrays and objects are therefore about a value that is read as another one (`Json.ReadsAs`).

The fuel of the readers counts nested calls. Two calls in a row read at least one character, so
twice the length of the text is enough.
-/

namespace ParamTwin

/-- The text of a number is read as the number before a comma, a line feed and the end. -/
def Number.ReadsBack (n : Number) : Prop :=
  ∀ rest : Text, (∀ c ∈ rest.head?, c = ',' ∨ c = '\n') →
    Json.readNumber (n.text ++ rest) = some (n, rest)

namespace Json

/-! ## Blanks -/

theorem skipBlanks_newline (level : Nat) (t : Text) :
    skipBlanks (newline level ++ t) = skipBlanks t := by
  have h : ∀ n, skipBlanks (List.replicate n ' ' ++ t) = skipBlanks t := by
    intro n
    induction n with
    | zero => rfl
    | succ n ih => exact ih
  exact h (2 * level)

theorem skipBlanks_skipBlanks (t : Text) : skipBlanks (skipBlanks t) = skipBlanks t := by
  induction t with
  | nil => rfl
  | cons c cs ih =>
    unfold skipBlanks at ih ⊢
    rw [List.dropWhile_cons]
    split
    · exact ih
    · rename_i hc
      rw [List.dropWhile_cons, if_neg hc]

/-! ## Strings -/

theorem hexValue?_hexDigit {n : Nat} (h : n < 16) : hexValue? (hexDigit n) = some n := by
  revert n
  decide

theorem readChars_escapeChar (c : Char) (t : Text) :
    readChars (escapeChar c ++ t) = (readChars t).map (withChar c) := by
  unfold escapeChar
  split
  · subst c; rfl
  split
  · subst c; rfl
  split
  · subst c; rfl
  split
  · subst c; rfl
  split
  · subst c; rfl
  split
  · rename_i h
    rw [← Char.ofNat_toNat c, h]; rfl
  split
  · rename_i h
    rw [← Char.ofNat_toNat c, h]; rfl
  split
  · rename_i h
    have hunit : unit? '0' '0' (hexDigit (c.toNat / 16)) (hexDigit (c.toNat % 16)) =
        some c.toNat := by
      have hzero : hexValue? '0' = some 0 := by decide
      simp only [unit?, hzero, hexValue?_hexDigit (show c.toNat / 16 < 16 by omega),
        hexValue?_hexDigit (show c.toNat % 16 < 16 by omega)]
      exact congrArg some (by omega)
    simp only [List.cons_append, List.nil_append]
    rw [readChars, hunit]
    dsimp only
    rw [if_neg (by omega), if_neg (by omega), Char.ofNat_toNat]
  · rename_i hquote hback _ _ _ _ _ hlow
    rw [List.singleton_append, readChars.eq_def]
    split
    · simp_all
    · simp_all
    · simp_all
    · simp_all
    · rename_i c' cs' _ _ _ heq
      obtain ⟨rfl, rfl⟩ := List.cons.inj heq
      rw [if_neg hlow]

theorem readChars_quoted (s rest : Text) :
    readChars (s.flatMap escapeChar ++ '"' :: rest) = some (some s, rest) := by
  induction s with
  | nil => rfl
  | cons c cs ih => rw [List.flatMap_cons, List.append_assoc, readChars_escapeChar, ih]; rfl

theorem quote_append (s : String) (rest : Text) :
    quote s ++ rest = '"' :: (s.toList.flatMap escapeChar ++ '"' :: rest) := by
  simp [quote]

theorem readString_quote (s : String) (rest : Text) :
    readString (quote s ++ rest) = some (some s, rest) := by
  rw [quote_append, readString, readChars_quoted]
  simp only [Option.map_some, String.ofList_toList]

/-! ## Numbers -/

section
variable {rest : Text} (hrest : ∀ c ∈ rest.head?, c = ',' ∨ c = '\n')
include hrest

theorem spanDigits_append (t : Text) :
    spanDigits (t ++ rest) = ((spanDigits t).1, (spanDigits t).2 ++ rest) := by
  have hstop : rest.takeWhile Char.isDigit = [] ∧ rest.dropWhile Char.isDigit = rest := by
    cases rest with
    | nil => exact ⟨rfl, rfl⟩
    | cons c cs =>
      have hc : c.isDigit = false := by
        rcases hrest c rfl with rfl | rfl <;> rfl
      simp [hc]
  simp only [spanDigits, List.span_eq_takeWhile_dropWhile]
  induction t with
  | nil => simp [hstop]
  | cons c cs ih =>
    by_cases hc : c.isDigit = true
    · simpa [hc] using ih
    · simp [hc]

theorem readOptFraction_append {t r : Text} {fraction : Option Text}
    (h : readOptFraction t = some (fraction, r)) :
    readOptFraction (t ++ rest) = some (fraction, r ++ rest) := by
  unfold readOptFraction at h
  split at h
  · rename_i ds
    simp only [List.cons_append, readOptFraction, spanDigits_append hrest]
    by_cases hne : (spanDigits ds).1.isEmpty = true
    · simp [hne] at h
    · simp only [hne] at h ⊢
      cases h
      rfl
  · rename_i hpoint
    cases h
    unfold readOptFraction
    split
    · rename_i heq
      cases t with
      | nil => 
        rcases hrest '.' (by rw [← List.nil_append rest, heq]; rfl) with h | h <;> cases h
      | cons c t =>
        cases heq
        exact absurd rfl (hpoint t)
    · rfl

omit hrest in
theorem readExponent_cons (c : Char) (cs : Text) :
    readExponent (c :: cs) =
      let ds := spanDigits (if c = '-' ∨ c = '+' then cs else c :: cs)
      if ds.1.isEmpty then none
      else some
        (if c = '-' then -(Number.ofDigits ds.1 : Int) else Number.ofDigits ds.1, ds.2) := by
  by_cases hminus : c = '-'
  · subst hminus
    rfl
  by_cases hplus : c = '+'
  · subst hplus
    rfl
  unfold readExponent
  split
  rename_i hsign
  split at hsign
  · simp_all
  · simp_all
  · cases hsign
    simp [hminus, hplus]

theorem readExponent_append {t r : Text} {e : Int} (h : readExponent t = some (e, r)) :
    readExponent (t ++ rest) = some (e, r ++ rest) := by
  cases t with
  | nil => cases h
  | cons c cs =>
    have hbody : (if c = '-' ∨ c = '+' then cs ++ rest else c :: (cs ++ rest)) =
        (if c = '-' ∨ c = '+' then cs else c :: cs) ++ rest := by
      split <;> rfl
    rw [readExponent_cons] at h
    rw [List.cons_append, readExponent_cons, hbody, spanDigits_append hrest]
    generalize (if c = '-' ∨ c = '+' then cs else c :: cs) = body at h ⊢
    by_cases hempty : (spanDigits body).1.isEmpty = true
    · simp [hempty] at h
    · simp only [hempty] at h ⊢
      cases h
      rfl

theorem readOptExponent_append {t r : Text} {e : Option Int}
    (h : readOptExponent t = some (e, r)) :
    readOptExponent (t ++ rest) = some (e, r ++ rest) := by
  cases t with
  | nil =>
    cases h
    cases rest with
    | nil => rfl
    | cons c cs => rcases hrest c rfl with rfl | rfl <;> rfl
  | cons c cs =>
    simp only [List.cons_append, readOptExponent] at h ⊢
    split at h
    · rename_i hmark
      obtain ⟨⟨e', r'⟩, hread, heq⟩ := Option.map_eq_some_iff.1 h
      cases heq
      rw [if_pos hmark, readExponent_append hrest hread]
      rfl
    · rename_i hmark
      cases h
      rw [if_neg hmark]
      rfl

omit hrest in
/-- The sign of a number is taken first. -/
theorem readNumber_cons (c : Char) (cs : Text) :
    readNumber (c :: cs) = (do
      let (ds, cs) := spanDigits (if c = '-' then cs else c :: cs)
      if ds.isEmpty || (ds.length > 1 && ds.head? = some '0') then none
      else do
        let (fraction, cs) ← readOptFraction cs
        let (exponent, cs) ← readOptExponent cs
        return ({ negative := c = '-'
                  digits := Number.ofDigits (ds ++ fraction.getD [])
                  exponent := exponent.getD 0 - (fraction.getD []).length
                  whole := fraction.isNone && exponent.isNone }, cs)) := by
  by_cases hminus : c = '-'
  · subst hminus
    rfl
  · unfold readNumber
    split
    rename_i hsign
    split at hsign
    · simp_all
    · cases hsign
      simp only [hminus]
      rfl

/-- **A number that is read goes on to be read before a comma and a line feed.** -/
theorem readNumber_append {t r : Text} {n : Number} (h : readNumber t = some (n, r)) :
    readNumber (t ++ rest) = some (n, r ++ rest) := by
  cases t with
  | nil => cases h
  | cons c cs =>
    have hbody : (if c = '-' then cs ++ rest else c :: (cs ++ rest)) =
        (if c = '-' then cs else c :: cs) ++ rest := by
      split <;> rfl
    rw [readNumber_cons] at h
    rw [List.cons_append, readNumber_cons, hbody, spanDigits_append hrest]
    generalize (if c = '-' then cs else c :: cs) = body at h ⊢
    dsimp only at h ⊢
    split at h
    · cases h
    · rename_i hdigits
      rw [if_neg hdigits]
      obtain ⟨⟨fraction, r₁⟩, hfraction, h⟩ := Option.bind_eq_some_iff.1 h
      obtain ⟨⟨exponent, r₂⟩, hexponent, h⟩ := Option.bind_eq_some_iff.1 h
      cases h
      rw [readOptFraction_append hrest hfraction]
      simp only [Option.bind_eq_bind, Option.bind_some]
      rw [readOptExponent_append hrest hexponent]
      rfl

end

/-! ## Values -/

/-- The values whose numbers read back. -/
inductive Readable : Json → Prop
  | null : Readable .null
  | bool (b : Bool) : Readable (.bool b)
  | num {n : Number} (h : n.ReadsBack) : Readable (.num n)
  | str (s : String) : Readable (.str s)
  | arr {items : List Json} (h : ∀ v ∈ items, Readable v) : Readable (.arr items)
  | obj {members : List (String × Json)} (h : ∀ m ∈ members, Readable m.2) :
      Readable (.obj members)
  | unreadable : Readable .unreadable

theorem head_of_readNumber {t rest : Text} {n : Number} (h : readNumber t = some (n, rest)) :
    ∃ c cs, t = c :: cs ∧ (c = '-' ∨ c.isDigit = true) := by
  cases t with
  | nil => cases h
  | cons c cs =>
    refine ⟨c, cs, rfl, ?_⟩
    by_cases hminus : c = '-'
    · exact .inl hminus
    · refine .inr ?_
      by_contra hdigit
      have hspan : spanDigits (c :: cs) = ([], c :: cs) := by
        simp [spanDigits, List.span_eq_takeWhile_dropWhile, hdigit]
      unfold readNumber at h
      split at h
      rename_i negative cs' hsign
      split at hsign
      · rename_i heq
        exact hminus (List.cons.inj heq).1
      · cases hsign
        rw [hspan] at h
        cases h

theorem readValue_skipBlanks (fuel : Nat) (t : Text) :
    readValue fuel (skipBlanks t) = readValue fuel t := by
  cases fuel with
  | zero => simp only [readValue]
  | succ fuel => simp only [readValue, skipBlanks_skipBlanks]

theorem readItems_skipBlanks (fuel : Nat) (t : Text) :
    readItems fuel (skipBlanks t) = readItems fuel t := by
  cases fuel with
  | zero => simp only [readItems]
  | succ fuel => simp only [readItems, readValue_skipBlanks]

theorem readMembers_skipBlanks (fuel : Nat) (t : Text) :
    readMembers fuel (skipBlanks t) = readMembers fuel t := by
  cases fuel with
  | zero => simp only [readMembers]
  | succ fuel => simp only [readMembers, skipBlanks_skipBlanks]

theorem readValue_newline (fuel level : Nat) (t : Text) :
    readValue fuel (newline level ++ t) = readValue fuel t := by
  rw [← readValue_skipBlanks, skipBlanks_newline, readValue_skipBlanks]

theorem readValue_number {t rest : Text} {n : Number} (h : readNumber t = some (n, rest))
    (fuel : Nat) : readValue (fuel + 1) t = some (.num n, rest) := by
  obtain ⟨c, cs, rfl, hc⟩ := head_of_readNumber h
  have hskip : skipBlanks (c :: cs) = c :: cs := by
    unfold skipBlanks
    rw [List.dropWhile_cons, if_neg]
    rcases hc with rfl | hc
    · decide
    · simp only [Bool.or_eq_true, decide_eq_true_eq, not_or]
      refine ⟨⟨⟨?_, ?_⟩, ?_⟩, ?_⟩ <;> (rintro rfl; revert hc; decide)
  have hhead : ∀ x, ¬ (x = '-' ∨ x.isDigit = true) → c ≠ x := by
    rintro x hx rfl
    exact hx hc
  unfold readValue
  rw [hskip]
  split
  case h_7 =>
    rw [h]
    rfl
  -- In the other cases the text starts as no number does.
  all_goals
    rename_i heq
    exact absurd (List.cons.inj heq).1 (hhead _ (by decide))

/-- The text of a value is read as another value, at every level of indentation and
before every text that cannot go on with it, if there is fuel for it. -/
def ReadsAs (v w : Json) : Prop :=
  ∀ (level fuel : Nat) (rest : Text), (∀ c ∈ rest.head?, c = ',' ∨ c = '\n') →
    2 * (v.prettyAt level).length ≤ fuel →
    readValue (fuel + 1) (v.prettyAt level ++ rest) = some (w, rest)

theorem ReadsAs.read {v w : Json} (h : ReadsAs v w) {level fuel : Nat}
    {rest : Text} (hrest : ∀ c ∈ rest.head?, c = ',' ∨ c = '\n')
    (hfuel : 2 * (v.prettyAt level).length < fuel) :
    readValue fuel (v.prettyAt level ++ rest) = some (w, rest) := by
  obtain ⟨fuel, rfl⟩ : ∃ f, fuel = f + 1 := ⟨fuel - 1, by omega⟩
  exact h level fuel rest hrest (by omega)

/-- The text does not start with a closing bracket, so it is not taken for the end of an array. -/
theorem ReadsAs.skipBlanks_ne {v w : Json} (h : ReadsAs v w) (level : Nat)
    (rest cs : Text) : skipBlanks (v.prettyAt level ++ rest) ≠ ']' :: cs := by
  have hread := h level _ [] (by simp) (Nat.le_refl _)
  rw [List.append_nil] at hread
  intro hclose
  unfold skipBlanks at hclose
  rw [List.dropWhile_append] at hclose
  split at hclose
  · rename_i hempty
    have hblank : skipBlanks (v.prettyAt level) = [] := List.isEmpty_iff.1 hempty
    unfold readValue at hread
    rw [hblank] at hread
    cases hread
  · rename_i hne
    obtain ⟨c, cs', hc⟩ := List.exists_cons_of_ne_nil (mt List.isEmpty_iff.2 hne)
    rw [hc, List.cons_append] at hclose
    obtain ⟨rfl, -⟩ := List.cons.inj hclose
    have hbracket : skipBlanks (v.prettyAt level) = ']' :: cs' := hc
    unfold readValue at hread
    rw [hbracket] at hread
    cases hread

theorem readItems_prettyItems {items items' : List Json} (hne : items ≠ [])
    (h : List.Forall₂ ReadsAs items items') (level outer fuel : Nat) (rest : Text)
    (hfuel : 2 * (prettyItems level items).length ≤ fuel) :
    readItems fuel (prettyItems level items ++ (newline outer ++ ']' :: rest)) =
      some (items', rest) := by
  induction h generalizing fuel with
  | nil => exact absurd rfl hne
  | @cons v w vs ws hv hvs ih =>
    cases hvs with
    | nil =>
      simp only [prettyItems, newline, List.cons_append, List.length_cons,
        List.length_append] at hfuel
      obtain ⟨fuel, rfl⟩ : ∃ f, fuel = f + 1 := ⟨fuel - 1, by omega⟩
      have hread : readValue fuel (v.prettyAt level ++ (newline outer ++ ']' :: rest)) =
          some (w, newline outer ++ ']' :: rest) := hv.read (by simp [newline]) (by omega)
      have hclose : skipBlanks (newline outer ++ ']' :: rest) = ']' :: rest :=
        skipBlanks_newline outer _
      simp only [prettyItems, List.append_assoc, readItems, readValue_newline, hread, hclose]
    | cons _ _ =>
      simp only [prettyItems, newline, List.cons_append, List.length_cons,
        List.length_append] at hfuel
      obtain ⟨fuel, rfl⟩ : ∃ f, fuel = f + 1 := ⟨fuel - 1, by omega⟩
      have hread : ∀ t, readValue fuel (v.prettyAt level ++ ',' :: t) = some (w, ',' :: t) :=
        fun t => hv.read (by simp) (by omega)
      have hrest := ih (by simp) fuel (by omega)
      have hcomma : ∀ t, skipBlanks (',' :: t) = ',' :: t := fun _ => rfl
      simp only [prettyItems, List.append_assoc, List.cons_append, readItems, readValue_newline,
        hread, hcomma]
      rw [hrest]
      rfl

/-- The text of a member is read as another member, which has the same key. -/
def MemberReadsAs (m m' : String × Json) : Prop :=
  m.1 = m'.1 ∧ ReadsAs m.2 m'.2

theorem readMembers_prettyMembers {members members' : List (String × Json)} (hne : members ≠ [])
    (h : List.Forall₂ MemberReadsAs members members')
    (level outer fuel : Nat) (rest : Text)
    (hfuel : 2 * (prettyMembers level members).length ≤ fuel) :
    readMembers fuel (prettyMembers level members ++ (newline outer ++ '}' :: rest)) =
      some (some members', rest) := by
  have hcolon : ∀ t, skipBlanks (':' :: t) = ':' :: t := fun _ => rfl
  have hspace : ∀ fuel t, readValue fuel (' ' :: t) = readValue fuel t := by
    intro fuel t
    rw [← readValue_skipBlanks fuel t, ← readValue_skipBlanks]
    rfl
  have hkey : ∀ k t, skipBlanks (newline level ++ (quote k ++ t)) = quote k ++ t := by
    intro k t
    rw [skipBlanks_newline, quote_append]
    rfl
  induction h generalizing fuel with
  | nil => exact absurd rfl hne
  | @cons m m' ms ms' hm hms ih =>
    obtain ⟨k, v⟩ := m
    obtain ⟨_, w⟩ := m'
    obtain ⟨rfl, hv⟩ : k = _ ∧ ReadsAs v w := hm
    cases hms with
    | nil =>
      simp only [prettyMembers, newline, List.cons_append, List.length_cons,
        List.length_append] at hfuel
      obtain ⟨fuel, rfl⟩ : ∃ f, fuel = f + 1 := ⟨fuel - 1, by omega⟩
      have hread : readValue fuel (v.prettyAt level ++ (newline outer ++ '}' :: rest)) =
          some (w, newline outer ++ '}' :: rest) := hv.read (by simp [newline]) (by omega)
      have hclose : skipBlanks (newline outer ++ '}' :: rest) = '}' :: rest :=
        skipBlanks_newline outer _
      simp only [prettyMembers, List.append_assoc, List.cons_append, readMembers, hkey,
        readString_quote, hcolon, hspace, hread, hclose]
      rfl
    | cons _ _ =>
      simp only [prettyMembers, newline, List.cons_append, List.length_cons,
        List.length_append] at hfuel
      obtain ⟨fuel, rfl⟩ : ∃ f, fuel = f + 1 := ⟨fuel - 1, by omega⟩
      have hread : ∀ t, readValue fuel (v.prettyAt level ++ ',' :: t) = some (w, ',' :: t) :=
        fun t => hv.read (by simp) (by omega)
      have hrest := ih (by simp) fuel (by omega)
      have hcomma : ∀ t, skipBlanks (',' :: t) = ',' :: t := fun _ => rfl
      simp only [prettyMembers, List.append_assoc, List.cons_append, readMembers, hkey,
        readString_quote, hcolon, hspace, hread, hcomma]
      rw [hrest]
      rfl

theorem readValue_bracket {t : Text} (h : ∀ cs, skipBlanks t ≠ ']' :: cs) (fuel : Nat) :
    readValue (fuel + 1) ('[' :: t) =
      (readItems fuel t).map fun (vs, rest) => (.arr vs, rest) := by
  have hskip : skipBlanks ('[' :: t) = '[' :: t := rfl
  simp only [readValue, hskip]
  rw [readItems_skipBlanks]

theorem readValue_brace {t : Text} (h : ∀ cs, skipBlanks t ≠ '}' :: cs) (fuel : Nat) :
    readValue (fuel + 1) ('{' :: t) =
      (readMembers fuel t).map fun (ms, rest) => (ofMembers ms, rest) := by
  have hskip : skipBlanks ('{' :: t) = '{' :: t := rfl
  simp only [readValue, hskip]
  rw [readMembers_skipBlanks]

theorem prettyItems_cons (level : Nat) (v : Json) (vs : List Json) :
    ∃ t, prettyItems level (v :: vs) = newline level ++ (v.prettyAt level ++ t) := by
  cases vs with
  | nil => exact ⟨[], by simp [prettyItems]⟩
  | cons w ws => exact ⟨',' :: prettyItems level (w :: ws), by simp [prettyItems]⟩

theorem prettyMembers_cons (level : Nat) (k : String) (v : Json) (ms : List (String × Json)) :
    ∃ t, prettyMembers level ((k, v) :: ms) = newline level ++ (quote k ++ t) := by
  cases ms with
  | nil => exact ⟨':' :: ' ' :: v.prettyAt level, by simp [prettyMembers]⟩
  | cons m ms =>
    exact ⟨':' :: ' ' :: v.prettyAt level ++ ',' :: prettyMembers level (m :: ms),
      by simp [prettyMembers]⟩

/-- The array is not taken for an empty one. -/
theorem skipBlanks_prettyItems_ne {v w : Json} (hv : ReadsAs v w) (level : Nat)
    (vs : List Json) (rest cs : Text) :
    skipBlanks (prettyItems level (v :: vs) ++ rest) ≠ ']' :: cs := by
  obtain ⟨t, ht⟩ := prettyItems_cons level v vs
  rw [ht, List.append_assoc, List.append_assoc, skipBlanks_newline]
  exact hv.skipBlanks_ne level _ cs

theorem skipBlanks_prettyMembers_ne (level : Nat) (m : String × Json) (ms : List (String × Json))
    (rest cs : Text) : skipBlanks (prettyMembers level (m :: ms) ++ rest) ≠ '}' :: cs := by
  obtain ⟨t, ht⟩ := prettyMembers_cons level m.1 m.2 ms
  rw [ht, List.append_assoc, List.append_assoc, skipBlanks_newline, quote_append]
  exact fun heq => absurd (List.cons.inj heq).1 (by decide)

namespace ReadsAs

theorem null : ReadsAs .null .null := by
  intro level fuel rest hrest hfuel
  rfl

theorem bool (b : Bool) : ReadsAs (.bool b) (.bool b) := by
  intro level fuel rest hrest hfuel
  cases b <;> rfl

theorem num {n m : Number} (h : ∀ rest : Text, (∀ c ∈ rest.head?, c = ',' ∨ c = '\n') →
    readNumber (n.text ++ rest) = some (m, rest)) : ReadsAs (.num n) (.num m) := by
  intro level fuel rest hrest hfuel
  exact readValue_number (h rest hrest) fuel

theorem str (s : String) : ReadsAs (.str s) (.str s) := by
  intro level fuel rest hrest hfuel
  have hskip : ∀ t, skipBlanks ('"' :: t) = '"' :: t := fun _ => rfl
  simp only [prettyAt, quote_append, readValue, hskip, readChars_quoted, Option.map_some,
    ofText, String.ofList_toList]

theorem arr {items items' : List Json} (h : List.Forall₂ ReadsAs items items') :
    ReadsAs (.arr items) (.arr items') := by
  intro level fuel rest hrest hfuel
  cases h with
  | nil => rfl
  | cons hv hvs =>
    simp only [prettyAt, List.cons_append, List.length_cons, List.length_append] at hfuel
    have hread := readItems_prettyItems (by simp) (.cons hv hvs) (level + 1) level fuel rest
      (by omega)
    simp only [prettyAt, List.append_assoc, List.cons_append, List.nil_append]
    rw [readValue_bracket (skipBlanks_prettyItems_ne hv _ _ _), hread]
    rfl

theorem obj {members members' : List (String × Json)}
    (h : List.Forall₂ MemberReadsAs members members') :
    ReadsAs (.obj members) (.obj members') := by
  intro level fuel rest hrest hfuel
  cases h with
  | nil => rfl
  | cons hm hms =>
    simp only [prettyAt, List.cons_append, List.length_cons, List.length_append] at hfuel
    have hread := readMembers_prettyMembers (by simp) (.cons hm hms) (level + 1) level fuel rest
      (by omega)
    simp only [prettyAt, List.append_assoc, List.cons_append, List.nil_append]
    rw [readValue_brace (skipBlanks_prettyMembers_ne _ _ _ _), hread]
    rfl

theorem unreadable : ReadsAs .unreadable .unreadable := by
  intro level fuel rest hrest hfuel
  have hunit : unit? 'd' '8' '0' '0' = some 0xD800 := by decide
  have hread : readChars ('\\' :: 'u' :: 'd' :: '8' :: '0' :: '0' :: '"' :: rest) =
      some (none, rest) := by
    rw [readChars, hunit]
    dsimp only
    rw [if_pos (by omega)]
    rfl
  have hskip : ∀ t, skipBlanks ('"' :: t) = '"' :: t := fun _ => rfl
  simp only [prettyAt, unreadableText, List.cons_append, List.nil_append, readValue, hskip, hread,
    Option.map_some, ofText]

end ReadsAs

theorem readsAs_of_readable {v : Json} (h : Readable v) : ReadsAs v v := by
  induction h with
  | null => exact .null
  | bool b => exact .bool b
  | num h => exact .num h
  | str s => exact .str s
  | arr _ ih => exact .arr (List.forall₂_same.2 ih)
  | obj _ ih => exact .obj (List.forall₂_same.2 fun m hm => ⟨rfl, ih m hm⟩)
  | unreadable => exact .unreadable

/-- **Written JSON is read,** as the value that its text is read as. -/
theorem read?_of_readsAs {v w : Json} (h : ReadsAs v w) :
    read? (v.prettyAt 0) = some w := by
  have hread := h 0 (2 * (v.prettyAt 0).length + 1) [] (by simp) (by omega)
  rw [List.append_nil] at hread
  unfold read?
  rw [hread]
  rfl

theorem read?_prettyAt {v : Json} (h : Readable v) : read? (v.prettyAt 0) = some v :=
  read?_of_readsAs (readsAs_of_readable h)

end Json
end ParamTwin
