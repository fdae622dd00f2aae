import ParamTwin.Text.Blank
import Mathlib.Data.List.DropRight

/-!
# White space and lines

What trimming and cutting into lines do to a text. `Text.solid` lists the characters that are no
white space, so that two texts with the same solid characters differ in white space only;
`Text.skeleton` lists the line feeds with them.

* `Text.trimEnd_append`: trimming does not reach past a solid character.
* `Text.lineInduction`: a text is its last line, or a line and a line feed before a text.
* `Text.occursIn_iff`: the search for a text inside another finds it wherever it stands.
-/

namespace ParamTwin.Text

/-- The characters of a text that are no white space. -/
def solid (t : Text) : Text :=
  t.filter (!isBlank ·)

/-- The last character of a text is no white space. -/
def EndsSolid (t : Text) : Prop :=
  ∃ c ∈ t.getLast?, isBlank c = false

-- Given outright: a search may find the enumeration of all characters instead.
instance (t : Text) : Decidable (EndsSolid t) :=
  decidable_of_iff (t.getLast?.any (!isBlank ·) = true) (by simp [EndsSolid, Option.any_eq_true])

/-! ## Solid characters -/

@[simp] theorem solid_nil : solid [] = [] := rfl

@[simp] theorem solid_append (a b : Text) : solid (a ++ b) = solid a ++ solid b :=
  List.filter_append ..

theorem solid_eq_nil_iff {t : Text} : solid t = [] ↔ ∀ c ∈ t, isBlank c = true := by
  simp [solid, List.filter_eq_nil_iff]

theorem endsSolid_iff {t : Text} :
    EndsSolid t ↔ ∃ front c, t = front ++ [c] ∧ isBlank c = false := by
  constructor
  · rintro ⟨c, hc, hb⟩
    obtain ⟨front, rfl⟩ := List.getLast?_eq_some_iff.1 hc
    exact ⟨front, c, rfl, hb⟩
  · rintro ⟨front, c, rfl, hb⟩
    exact ⟨c, by simp, hb⟩

theorem EndsSolid.ne_nil {t : Text} (h : EndsSolid t) : t ≠ [] := by
  rintro rfl
  obtain ⟨c, hc, -⟩ := h
  cases hc

theorem EndsSolid.append {b : Text} (h : EndsSolid b) (a : Text) : EndsSolid (a ++ b) := by
  obtain ⟨front, c, rfl, hb⟩ := endsSolid_iff.1 h
  exact endsSolid_iff.2 ⟨a ++ front, c, by simp, hb⟩

theorem EndsSolid.of_append {a b : Text} (h : EndsSolid (a ++ b)) (hb : b ≠ []) :
    EndsSolid b := by
  obtain ⟨c, hc, hblank⟩ := h
  rw [List.getLast?_append_of_ne_nil _ hb] at hc
  exact ⟨c, hc, hblank⟩

theorem EndsSolid.solid_ne_nil {t : Text} (h : EndsSolid t) : solid t ≠ [] := by
  obtain ⟨front, c, rfl, hb⟩ := endsSolid_iff.1 h
  simp [solid, hb]

/-- Two front parts of a text that end solid are equal if their solid characters are. -/
theorem eq_of_solid_eq {a b a' b' : Text} (h : a ++ b = a' ++ b') (ha : EndsSolid a)
    (ha' : EndsSolid a') (hs : solid a = solid a') : a = a' := by
  rcases List.append_eq_append_iff.1 h with ⟨m, rfl, rfl⟩ | ⟨m, rfl, rfl⟩
  · by_cases hm : m = []
    · simp [hm]
    · exact absurd (by simpa using hs) (ha'.of_append hm).solid_ne_nil
  · by_cases hm : m = []
    · simp [hm]
    · exact absurd (by simpa using hs) (ha.of_append hm).solid_ne_nil

/-- A front part that ends solid lies before the white space that trails. -/
theorem exists_append_of_endsSolid {x y p w : Text} (h : x ++ y = p ++ w) (hx : EndsSolid x)
    (hw : ∀ c ∈ w, isBlank c = true) : ∃ q, p = x ++ q := by
  rcases List.append_eq_append_iff.1 h with ⟨m, rfl, -⟩ | ⟨m, rfl, rfl⟩
  · exact ⟨m, rfl⟩
  · by_cases hm : m = []
    · exact ⟨[], by simp [hm]⟩
    · have hblank : solid m = [] := solid_eq_nil_iff.2 fun c hc => hw c (by simp [hc])
      exact absurd hblank (hx.of_append hm).solid_ne_nil

/-! ## Trimming -/

theorem trimEnd_eq (t : Text) : trimEnd t = t.rdropWhile isBlank := rfl

theorem exists_trimEnd_append (t : Text) :
    ∃ b, t = trimEnd t ++ b ∧ ∀ c ∈ b, isBlank c = true :=
  ⟨t.rtakeWhile isBlank, (List.rdropWhile_append_rtakeWhile ..).symm,
    fun _ hc => List.mem_rtakeWhile_imp hc⟩

theorem trimEnd_of_endsSolid {t : Text} (h : EndsSolid t) : trimEnd t = t := by
  obtain ⟨front, c, rfl, hb⟩ := endsSolid_iff.1 h
  exact List.rdropWhile_concat_neg _ _ _ (by simp [hb])

theorem endsSolid_trimEnd {t : Text} (h : trimEnd t ≠ []) : EndsSolid (trimEnd t) := by
  refine ⟨(trimEnd t).getLast h, List.getLast?_eq_some_getLast h, ?_⟩
  exact Bool.eq_false_iff.2 (List.rdropWhile_last_not isBlank t h)

theorem trimEnd_eq_nil_iff {t : Text} : trimEnd t = [] ↔ ∀ c ∈ t, isBlank c = true :=
  List.rdropWhile_eq_nil_iff

@[simp] theorem trimEnd_trimEnd (t : Text) : trimEnd (trimEnd t) = trimEnd t :=
  List.rdropWhile_idempotent ..

theorem trimEnd_append_blank (t : Text) {b : Text} (hb : ∀ c ∈ b, isBlank c = true) :
    trimEnd (t ++ b) = trimEnd t := by
  induction b using List.reverseRecOn with
  | nil => simp
  | append_singleton b c ih =>
    have hc : isBlank c = true := hb c (by simp)
    rw [← List.append_assoc, trimEnd_eq, List.rdropWhile_concat_pos _ _ _ hc]
    exact ih fun d hd => hb d (by simp [hd])

theorem trimEnd_append {a : Text} (ha : EndsSolid a) (b : Text) :
    trimEnd (a ++ b) = a ++ trimEnd b := by
  obtain ⟨w, hw, hblank⟩ := exists_trimEnd_append b
  have hcut : trimEnd (a ++ b) = trimEnd (a ++ trimEnd b) := by
    rw [← trimEnd_append_blank (a ++ trimEnd b) hblank, List.append_assoc, ← hw]
  rw [hcut]
  by_cases hb : trimEnd b = []
  · rw [hb, List.append_nil, trimEnd_of_endsSolid ha]
  · exact trimEnd_of_endsSolid ((endsSolid_trimEnd hb).append a)

@[simp] theorem solid_trimEnd (t : Text) : solid (trimEnd t) = solid t := by
  obtain ⟨b, hb, hblank⟩ := exists_trimEnd_append t
  conv_rhs => rw [hb]
  rw [solid_append, solid_eq_nil_iff.2 hblank, List.append_nil]

theorem not_mem_trimEnd {c : Char} {t : Text} (h : c ∉ t) : c ∉ trimEnd t :=
  fun hc => h ((List.rdropWhile_prefix isBlank t).subset hc)

/-! ## Lines -/

theorem lines_of_not_mem {t : Text} (h : '\n' ∉ t) : lines t = [t] := by
  induction t with
  | nil => rfl
  | cons c cs ih =>
    simp only [List.mem_cons, not_or] at h
    rw [lines, if_neg (Ne.symm h.1), ih h.2]

theorem lines_append_feed {line : Text} (h : '\n' ∉ line) (rest : Text) :
    lines (line ++ '\n' :: rest) = line :: lines rest := by
  induction line with
  | nil => rfl
  | cons c cs ih =>
    simp only [List.mem_cons, not_or] at h
    rw [List.cons_append, lines, if_neg (Ne.symm h.1), ih h.2]

theorem byteSize_feed (t : Text) : byteSize ('\n' :: t) = 1 + byteSize t := rfl

/-- A line feed is white space, so a text does not end solid with it. -/
theorem EndsSolid.after_feed {line rest : Text} (h : EndsSolid (line ++ '\n' :: rest)) :
    EndsSolid rest := by
  have hfeed : EndsSolid (['\n'] ++ rest) := h.of_append (by simp)
  refine hfeed.of_append ?_
  rintro rfl
  revert hfeed
  decide

theorem lines_ne_nil (t : Text) : lines t ≠ [] := by
  cases t with
  | nil => simp [lines]
  | cons c cs =>
    rw [lines]
    split
    · simp
    · split <;> simp

/-- Induction over the lines of a text. -/
@[elab_as_elim]
theorem lineInduction {P : Text → Prop} (last : ∀ t, '\n' ∉ t → P t)
    (step : ∀ line rest, '\n' ∉ line → P rest → P (line ++ '\n' :: rest)) (t : Text) : P t := by
  by_cases h : '\n' ∈ t
  · obtain ⟨line, rest, hsplit, hline⟩ := List.eq_append_cons_of_mem h
    rw [hsplit]
    exact step line rest hline (lineInduction last step rest)
  · exact last t h
termination_by t.length
decreasing_by simp [hsplit]; omega

theorem feed_not_mem_of_mem_lines {line t : Text} (h : line ∈ lines t) : '\n' ∉ line := by
  induction t using lineInduction with
  | last t ht =>
    rw [lines_of_not_mem ht, List.mem_singleton] at h
    rwa [h]
  | step first rest hfirst ih =>
    rw [lines_append_feed hfirst] at h
    cases h with
    | head => exact hfirst
    | tail _ h => exact ih h

/-! ## Line feeds and solid characters -/

/-- The line feeds of a text and its characters that are no white space. -/
def skeleton (t : Text) : Text :=
  t.filter fun c => c == '\n' || !isBlank c

@[simp] theorem skeleton_append (a b : Text) : skeleton (a ++ b) = skeleton a ++ skeleton b :=
  List.filter_append ..

@[simp] theorem skeleton_feed (t : Text) : skeleton ('\n' :: t) = '\n' :: skeleton t := by
  simp [skeleton]

theorem skeleton_eq_solid {t : Text} (h : '\n' ∉ t) : skeleton t = solid t := by
  refine List.filter_congr fun c hc => ?_
  have hne : c ≠ '\n' := fun he => h (he ▸ hc)
  simp [hne]

theorem solid_skeleton (t : Text) : solid (skeleton t) = solid t := by
  rw [solid, skeleton, List.filter_filter]
  refine List.filter_congr fun c _ => ?_
  cases isBlank c <;> simp

theorem EndsSolid.skeleton {t : Text} (h : EndsSolid t) : EndsSolid (skeleton t) := by
  obtain ⟨front, c, rfl, hb⟩ := endsSolid_iff.1 h
  exact endsSolid_iff.2 ⟨Text.skeleton front, c, by simp [Text.skeleton, hb], hb⟩

/-! ## Searching -/

theorem isSome_breakBefore_iff {test : Text → Bool} {t : Text} :
    (breakBefore test t).isSome = true ↔ ∃ a b, t = a ++ b ∧ test b = true := by
  induction t with
  | nil => simp [breakBefore]
  | cons c cs ih =>
    rw [breakBefore]
    by_cases h : test (c :: cs) = true
    · simp only [h, if_true, Option.isSome_some, true_iff]
      exact ⟨[], c :: cs, rfl, h⟩
    · rw [if_neg h, Option.isSome_map, ih]
      constructor
      · rintro ⟨a, b, rfl, hb⟩
        exact ⟨c :: a, b, rfl, hb⟩
      · rintro ⟨a, b, hsplit, hb⟩
        cases a with
        | nil => exact absurd (hsplit ▸ hb) h
        | cons d a =>
          cases hsplit
          exact ⟨a, b, rfl, hb⟩

theorem occursIn_iff {needle hay : Text} : occursIn needle hay = true ↔ needle <:+: hay := by
  rw [occursIn, isSome_breakBefore_iff]
  constructor
  · rintro ⟨a, b, rfl, hb⟩
    obtain ⟨c, rfl⟩ := List.isPrefixOf_iff_prefix.1 hb
    exact ⟨a, c, by simp⟩
  · rintro ⟨a, c, rfl⟩
    exact ⟨a, needle ++ c, by simp, List.isPrefixOf_iff_prefix.2 (List.prefix_append ..)⟩

end ParamTwin.Text
