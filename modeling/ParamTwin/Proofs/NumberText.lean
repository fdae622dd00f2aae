import ParamTwin.Index.Record
import ParamTwin.Proofs.JsonRoundTrip

/-!
# The text of a number

A number with a point or an exponent is written as a row of digits and a tail: the digits after the
point, an exponent, or both. `Number.exists_readNumber_text` says that the text is read as a number
up to its end, whatever that number is.
-/

namespace ParamTwin

namespace Json

/-- A row of decimal digits, at least one. -/
structure IsDigits (ds : Text) : Prop where
  ne_nil : ds ≠ []
  digits : ∀ c ∈ ds, c.isDigit = true

theorem spanDigits_digits {ds rest : Text} (h : ∀ c ∈ ds, c.isDigit = true)
    (hrest : ∀ c ∈ rest.head?, c.isDigit = false) : spanDigits (ds ++ rest) = (ds, rest) := by
  induction ds with
  | nil =>
    cases rest with
    | nil => rfl
    | cons c cs => simp [spanDigits, List.span_eq_takeWhile_dropWhile, hrest c rfl]
  | cons c cs ih =>
    have hcs := ih fun d hd => h d (.tail _ hd)
    simp only [spanDigits, List.span_eq_takeWhile_dropWhile] at hcs ⊢
    simpa [h c (.head _)] using hcs

theorem IsDigits.readOptFraction {ds rest : Text} (h : IsDigits ds)
    (hrest : ∀ c ∈ rest.head?, c.isDigit = false) :
    readOptFraction ('.' :: (ds ++ rest)) = some (some ds, rest) := by
  simp [Json.readOptFraction, spanDigits_digits h.digits hrest, h.ne_nil]

theorem isDigits_digitText (n : Nat) : IsDigits (Number.digitText n) :=
  ⟨Nat.toDigits_ne_nil, fun _ hc => Nat.isDigit_of_mem_toDigits (by decide) (by decide) hc⟩

theorem isDigit_of_mem_zeros {n : Nat} {c : Char} (h : c ∈ List.replicate n '0') :
    c.isDigit = true := by
  rw [List.eq_of_mem_replicate h]
  rfl

theorem isDigits_zero : IsDigits ['0'] :=
  ⟨by simp, by simp⟩

theorem IsDigits.zeros_append {ds : Text} (h : IsDigits ds) (n : Nat) :
    IsDigits (List.replicate n '0' ++ ds) := by
  refine ⟨by simp [h.ne_nil], fun c hc => ?_⟩
  cases List.mem_append.1 hc with
  | inl hc => exact isDigit_of_mem_zeros hc
  | inr hc => exact h.digits c hc

theorem IsDigits.append_zeros {ds : Text} (h : IsDigits ds) (n : Nat) :
    IsDigits (ds ++ List.replicate n '0') := by
  refine ⟨by simp [h.ne_nil], fun c hc => ?_⟩
  cases List.mem_append.1 hc with
  | inl hc => exact h.digits c hc
  | inr hc => exact isDigit_of_mem_zeros hc

theorem exists_readOptExponent (e : Int) :
    ∃ k, readOptExponent (Number.exponentText e) = some (some k, []) := by
  have hspan : spanDigits (Number.digitText e.natAbs ++ []) = (Number.digitText e.natAbs, []) :=
    spanDigits_digits (isDigits_digitText e.natAbs).digits (by simp)
  rw [List.append_nil] at hspan
  have hne := (isDigits_digitText e.natAbs).ne_nil
  by_cases he : e < 0
  · exact ⟨_, by simp [Number.exponentText, readOptExponent, readExponent, he, hspan, hne]; rfl⟩
  · exact ⟨_, by simp [Number.exponentText, readOptExponent, readExponent, he, hspan, hne]; rfl⟩

/-- What may follow the digits in front of the point: a fraction and an exponent, up to the end. -/
structure IsTail (tail : Text) : Prop where
  front : ∀ c ∈ tail.head?, c.isDigit = false
  reads : ∃ fraction rest exponent, readOptFraction tail = some (fraction, rest) ∧
    readOptExponent rest = some (exponent, [])

theorem isTail_exponent (e : Int) : IsTail (Number.exponentText e) := by
  obtain ⟨k, hk⟩ := exists_readOptExponent e
  exact ⟨by simp [Number.exponentText], none, _, some k, rfl, hk⟩

theorem IsDigits.isTail {ds : Text} (h : IsDigits ds) : IsTail ('.' :: ds) := by
  have hread : Json.readOptFraction ('.' :: (ds ++ [])) = some (some ds, []) :=
    h.readOptFraction (by simp)
  rw [List.append_nil] at hread
  exact ⟨by simp, some ds, [], none, hread, rfl⟩

theorem IsDigits.isTail_exponent {ds : Text} (h : IsDigits ds) (e : Int) :
    IsTail ('.' :: (ds ++ Number.exponentText e)) := by
  obtain ⟨k, hk⟩ := exists_readOptExponent e
  exact ⟨by simp, some ds, _, some k, h.readOptFraction (Json.isTail_exponent e).front, hk⟩

/-- A number is read from its digits and its tail, with or without a sign in front of them. -/
theorem exists_readNumber_cons {c : Char} {cs ds tail : Text}
    (hbody : (if c = '-' then cs else c :: cs) = ds ++ tail) (h : IsDigits ds)
    (hlead : ds.head? = some '0' → ds.length ≤ 1) (htail : IsTail tail) :
    ∃ n, readNumber (c :: cs) = some (n, []) := by
  obtain ⟨fraction, rest, exponent, hfraction, hexponent⟩ := htail.reads
  have hok : ¬(ds.isEmpty || (ds.length > 1 && ds.head? = some '0')) = true := by
    simp only [Bool.or_eq_true, Bool.and_eq_true, decide_eq_true_eq, List.isEmpty_iff]
    intro hbad
    cases hbad with
    | inl hnil => exact h.ne_nil hnil
    | inr hzero => exact absurd (hlead hzero.2) (by omega)
  rw [readNumber_cons, hbody, spanDigits_digits h.digits htail.front]
  dsimp only
  rw [if_neg hok, hfraction]
  simp only [Option.bind_eq_bind, Option.bind_some, hexponent]
  exact ⟨_, rfl⟩

theorem exists_readNumber (negative : Bool) {ds tail : Text} (h : IsDigits ds)
    (hlead : ds.head? = some '0' → ds.length ≤ 1) (htail : IsTail tail) :
    ∃ n, readNumber ((if negative then ['-'] else []) ++ (ds ++ tail)) = some (n, []) := by
  cases negative with
  | true =>
    have hbody : (if '-' = '-' then ds ++ tail else '-' :: (ds ++ tail)) = ds ++ tail := if_pos rfl
    exact exists_readNumber_cons hbody h hlead htail
  | false =>
    obtain ⟨d, ds, rfl⟩ := List.exists_cons_of_ne_nil h.ne_nil
    have hminus : d ≠ '-' := by
      intro hd
      exact absurd (hd ▸ h.digits d (.head _)) (by decide)
    exact exists_readNumber_cons (if_neg hminus) h hlead htail

end Json

namespace Number

open Json

theorem head_digitText_ne_zero {n : Nat} (h : n ≠ 0) : (digitText n).head? ≠ some '0' := by
  induction n using Nat.strongRecOn with
  | ind n ih =>
    rw [digitText, Nat.toDigits_eq_if (by decide)]
    split
    · rename_i hlt
      have hdigit : ∀ d < 10, d ≠ 0 → some d.digitChar ≠ some '0' := by decide
      exact hdigit n hlt h
    · have hfront := ih (n / 10) (by omega) (by omega)
      rw [List.head?_append_of_ne_nil _ Nat.toDigits_ne_nil]
      exact hfront

/-- The parts of a number with a point or an exponent. -/
theorem exists_parts_fractionText (layout : Layout) (digits : Nat) (exponent : Int) :
    ∃ ds tail, fractionText layout digits exponent = ds ++ tail ∧ IsDigits ds ∧
      (ds.head? = some '0' → ds.length ≤ 1) ∧ IsTail tail := by
  have hdigits := isDigits_digitText digits
  unfold fractionText
  by_cases hzero : digits = 0
  · rw [if_pos hzero]
    exact ⟨['0'], ['.', '0'], rfl, isDigits_zero, by simp, (isDigits_zero).isTail⟩
  have hlead := head_digitText_ne_zero hzero
  rw [if_neg hzero]
  dsimp only
  split
  · split
    · exact ⟨['0'], '.' :: _, rfl, isDigits_zero, by simp, (hdigits.zeros_append _).isTail⟩
    · rename_i hsign
      unfold pointAfter
      split
      · refine ⟨digitText digits ++ _, ['.', '0'], rfl, hdigits.append_zeros _, fun hhead => ?_,
          isDigits_zero.isTail⟩
        rw [List.head?_append_of_ne_nil _ hdigits.ne_nil] at hhead
        exact absurd hhead hlead
      · refine ⟨(digitText digits).take _, '.' :: _, rfl, ⟨?_, fun c hc => ?_⟩, fun hhead => ?_,
          IsDigits.isTail ⟨?_, fun c hc => ?_⟩⟩
        · simp only [ne_eq, List.take_eq_nil_iff, hdigits.ne_nil, or_false]
          omega
        · exact hdigits.digits c (List.mem_of_mem_take hc)
        · rw [List.head?_take, if_neg (by omega)] at hhead
          exact absurd hhead hlead
        · rw [ne_eq, List.drop_eq_nil_iff]
          omega
        · exact hdigits.digits c (List.mem_of_mem_drop hc)
  · split
    · rename_i hnil
      exact absurd hnil hdigits.ne_nil
    · rename_i d hd
      exact ⟨[d], _, rfl, hd ▸ hdigits, by simp, isTail_exponent _⟩
    · rename_i d rest hone hd
      rw [hd] at hdigits
      refine ⟨[d], '.' :: (rest ++ _), rfl, ⟨by simp, fun c hc => ?_⟩, by simp,
        IsDigits.isTail_exponent ⟨fun hnil => ?_, fun c hc => ?_⟩ _⟩
      · exact hdigits.digits c (List.mem_singleton.1 hc ▸ .head _)
      · exact hone hnil
      · exact hdigits.digits c (.tail _ hc)

/-- **A number with a point or an exponent is read as a number**, if not always as the same one. -/
theorem exists_readNumber_text {n : Number} (h : n.whole = false) :
    ∃ m, readNumber n.text = some (m, []) := by
  obtain ⟨ds, tail, hparts, hdigits, hlead, htail⟩ :=
    exists_parts_fractionText plainLayout n.digits n.exponent
  have htext : n.text = (if n.negative then ['-'] else []) ++ (ds ++ tail) := by
    rw [text, h, hparts]
    rfl
  rw [htext]
  exact exists_readNumber n.negative hdigits hlead htail

end Number
end ParamTwin
