import ParamTwin.Duplicate.Edit
import ParamTwin.Proofs.TextCut
import ParamTwin.Proofs.TextLines

/-!
# Tidying loses no content

Tidying changes white space only, and none of it inside a literal. `Tidy.body` is the text with its
lines trimmed and closed, before what trails is cut off.

* `Tidy.body_feed`: a text is tidied line by line, each one with its line feed (`Tidy.closed`).
* `Tidy.body_append`: behind a solid character the text can be cut and tidied in two parts.
* `Tidy.body_append_literal`: a literal that ends solid survives, whatever stands before it.
* `Tidy.run_keeps_content`: the solid characters of the text, and each literal as it stands.
-/

namespace ParamTwin.Tidy

open Text

/-- The lines of a text put together again. -/
def body (ending : Text) (literals : List Span) (position : Nat) (t : Text) : Text :=
  lines ending literals position (Text.lines t)

/-- A line that starts at `position`, with its line feed. -/
def closed (ending : Text) (literals : List Span) (position : Nat) (line : Text) : Text :=
  if isInside literals (position + byteSize line) then line ++ ['\n'] else trimEnd line ++ ending

/-- A line feed, with a carriage return before it or not. -/
def IsEnding (ending : Text) : Prop :=
  ∃ front, ending = front ++ ['\n'] ∧ '\n' ∉ front ∧ ∀ c ∈ front, isBlank c = true

theorem isEnding_lineEnding (t : Text) : IsEnding (lineEnding t) := by
  unfold lineEnding
  split
  · exact ⟨['\r'], rfl, by decide, List.forall_mem_singleton.2 (by decide)⟩
  · exact ⟨[], rfl, by simp, by simp⟩

theorem IsEnding.blank {ending : Text} (h : IsEnding ending) : ∀ c ∈ ending, isBlank c = true := by
  obtain ⟨front, rfl, -, hblank⟩ := h
  intro c hc
  rcases List.mem_append.1 hc with hc | hc
  · exact hblank c hc
  · rw [List.mem_singleton.1 hc]; decide

section
variable {ending : Text} {literals : List Span} {position : Nat}

/-! ## One line after the other -/

theorem body_last {t : Text} (h : '\n' ∉ t) : body ending literals position t = trimEnd t := by
  rw [body, lines_of_not_mem h, lines]

theorem body_feed {line : Text} (h : '\n' ∉ line) (rest : Text) :
    body ending literals position (line ++ '\n' :: rest) =
      closed ending literals position line ++
        body ending literals (position + byteSize line + 1) rest := by
  rw [body, lines_append_feed h, body, closed]
  cases hrest : Text.lines rest with
  | nil => exact absurd hrest (lines_ne_nil rest)
  | cons next later => rfl

@[simp] theorem body_nil : body ending literals position [] = [] :=
  body_last List.not_mem_nil

theorem solid_closed (he : IsEnding ending) (literals : List Span) (position : Nat) (line : Text) :
    solid (closed ending literals position line) = solid line := by
  unfold closed
  split
  · rw [solid_append, show solid ['\n'] = [] by decide, List.append_nil]
  · rw [solid_append, solid_trimEnd, solid_eq_nil_iff.2 he.blank, List.append_nil]

theorem solid_body (he : IsEnding ending) (literals : List Span) (position : Nat) (t : Text) :
    solid (body ending literals position t) = solid t := by
  induction t using lineInduction generalizing position with
  | last t h => rw [body_last h, solid_trimEnd]
  | step line rest h ih =>
    have hfeed : solid ('\n' :: rest) = solid rest := by
      rw [← List.singleton_append, solid_append, show solid ['\n'] = [] by decide, List.nil_append]
    rw [body_feed h, solid_append, solid_closed he, ih, solid_append, hfeed]

/-! ## Cutting behind a solid character -/

theorem closed_append {a : Text} (ha : EndsSolid a) (b : Text) :
    closed ending literals position (a ++ b) =
      a ++ closed ending literals (position + byteSize a) b := by
  unfold closed
  rw [byteSize_append, Nat.add_assoc, trimEnd_append ha]
  split <;> simp

theorem body_append {a : Text} (ha : EndsSolid a) (b : Text) :
    body ending literals position (a ++ b) =
      body ending literals position a ++ body ending literals (position + byteSize a) b := by
  induction a using lineInduction generalizing position with
  | last a h =>
    rw [body_last h, trimEnd_of_endsSolid ha]
    by_cases hb : '\n' ∈ b
    · obtain ⟨line, rest, rfl, hline⟩ := List.eq_append_cons_of_mem hb
      have hjoined : '\n' ∉ a ++ line := by simp [h, hline]
      have hsize : position + byteSize (a ++ line) + 1 =
          position + byteSize a + byteSize line + 1 := by
        rw [byteSize_append]; omega
      rw [← List.append_assoc, body_feed hjoined, body_feed hline, closed_append ha, hsize,
        List.append_assoc]
    · rw [body_last hb, body_last (by simp [h, hb]), trimEnd_append ha]
  | step line rest h ih =>
    have hsize : position + byteSize line + 1 + byteSize rest =
        position + byteSize (line ++ '\n' :: rest) := by
      rw [byteSize_append, byteSize_feed]; omega
    rw [List.append_assoc, List.cons_append, body_feed h, body_feed h, ih ha.after_feed, hsize,
      List.append_assoc]

/-! ## Literals -/

theorem closed_of_isInside {line : Text}
    (h : isInside literals (position + byteSize line) = true) :
    closed ending literals position line = line ++ ['\n'] :=
  if_pos h

/-- A text whose line feeds all lie inside literals is kept. -/
theorem body_of_isInside {t : Text} (ht : EndsSolid t)
    (h : ∀ front back, t = front ++ '\n' :: back →
      isInside literals (position + byteSize front) = true) :
    body ending literals position t = t := by
  induction t using lineInduction generalizing position with
  | last t hfeed => rw [body_last hfeed, trimEnd_of_endsSolid ht]
  | step line rest hline ih =>
    rw [body_feed hline, closed_of_isInside (h line rest rfl), ih ht.after_feed,
      List.append_assoc, List.singleton_append]
    intro front back hsplit
    have hin := h (line ++ '\n' :: front) back (by simp [hsplit])
    rw [byteSize_append, byteSize_feed] at hin
    rwa [show position + byteSize line + 1 + byteSize front =
      position + (byteSize line + (1 + byteSize front)) by omega]

/-- A literal that ends solid survives: all its line feeds are kept, except that one right at its
start may count as the end of the line before it. -/
theorem body_append_literal (he : IsEnding ending) {pre lit : Text} (hlit : EndsSolid lit)
    (h : ∀ front back, lit = front ++ '\n' :: back → front ≠ [] →
      isInside literals (position + byteSize pre + byteSize front) = true) :
    ∃ pre', body ending literals position (pre ++ lit) = pre' ++ lit := by
  induction pre using lineInduction generalizing position with
  | last pre hpre =>
    by_cases hfeed : '\n' ∈ lit
    · obtain ⟨line, rest, rfl, hline⟩ := List.eq_append_cons_of_mem hfeed
      have hrest : body ending literals (position + byteSize (pre ++ line) + 1) rest = rest := by
        refine body_of_isInside hlit.after_feed fun front back hsplit => ?_
        have hin := h (line ++ '\n' :: front) back (by simp [hsplit]) (by simp)
        rw [byteSize_append, byteSize_feed] at hin
        rwa [byteSize_append, show position + (byteSize pre + byteSize line) + 1 + byteSize front =
          position + byteSize pre + (byteSize line + (1 + byteSize front)) by omega]
      rw [← List.append_assoc, body_feed (by simp [hpre, hline]), hrest]
      by_cases hin : isInside literals (position + byteSize (pre ++ line)) = true
      · exact ⟨pre, by simp [closed_of_isInside hin]⟩
      · -- only a line feed at the very start of the literal can be outside
        have hempty : line = [] := by
          by_contra hne
          exact hin (by rw [byteSize_append, ← Nat.add_assoc]; exact h line rest rfl hne)
        subst hempty
        obtain ⟨front, rfl, -⟩ := he
        exact ⟨trimEnd pre ++ front, by simp_all [closed]⟩
    · refine ⟨pre, ?_⟩
      rw [body_last (by simp [hpre, hfeed]), trimEnd_of_endsSolid (hlit.append pre)]
  | step line rest hline ih =>
    have hsize : position + byteSize (line ++ '\n' :: rest) =
        position + byteSize line + 1 + byteSize rest := by
      rw [byteSize_append, byteSize_feed]; omega
    rw [hsize] at h
    obtain ⟨pre', hpre'⟩ := ih h
    refine ⟨closed ending literals position line ++ pre', ?_⟩
    rw [List.append_assoc, List.cons_append, body_feed hline, hpre', List.append_assoc]

end

/-! ## The whole text -/

theorem run_eq (t : Text) (literals : List Span) :
    run t literals =
      if trimEnd (body (lineEnding t) literals 0 t) = [] then []
      else trimEnd (body (lineEnding t) literals 0 t) ++ lineEnding t := by
  by_cases h : trimEnd (body (lineEnding t) literals 0 t) = []
  · rw [if_pos h]
    exact if_pos (List.isEmpty_iff.2 h)
  · rw [if_neg h]
    exact if_neg fun hempty => h (List.isEmpty_iff.1 hempty)

theorem solid_run (t : Text) (literals : List Span) : solid (run t literals) = solid t := by
  have he := isEnding_lineEnding t
  have hbody : solid (trimEnd (body (lineEnding t) literals 0 t)) = solid t := by
    rw [solid_trimEnd, solid_body he]
  rw [run_eq]
  split
  · rename_i hempty
    rw [← hbody, hempty]
  · rw [solid_append, hbody, solid_eq_nil_iff.2 he.blank, List.append_nil]

theorem isInside_iff {literals : List Span} {position : Nat} :
    isInside literals position = true ↔
      ∃ s ∈ literals, s.start < position ∧ position < s.stop := by
  simp [isInside, List.any_eq_true]

/-- A literal that ends solid stands unchanged in the tidied text, with the same solid characters
before and after it. -/
theorem run_keeps_literal {literals : List Span} {pre lit : Text}
    (hs : ⟨byteSize pre, byteSize pre + byteSize lit⟩ ∈ literals) (hlit : EndsSolid lit)
    (post : Text) :
    ∃ pre' post', run (pre ++ lit ++ post) literals = pre' ++ lit ++ post' ∧
      solid pre' = solid pre ∧ solid post' = solid post := by
  have he := isEnding_lineEnding (pre ++ lit ++ post)
  generalize hend : lineEnding (pre ++ lit ++ post) = ending at he
  have hprotected : ∀ front back, lit = front ++ '\n' :: back → front ≠ [] →
      isInside literals (0 + byteSize pre + byteSize front) = true := by
    intro front back hsplit hne
    have hpos : byteSize front ≠ 0 := fun h0 => hne (byteSize_eq_zero.1 h0)
    have hsize : byteSize lit = byteSize front + 1 + byteSize back := by
      rw [hsplit, byteSize_append, byteSize_feed]; omega
    refine isInside_iff.2 ⟨_, hs, ?_⟩
    dsimp only
    omega
  obtain ⟨pre', hpre'⟩ := body_append_literal he hlit hprotected
  have hbody : body ending literals 0 (pre ++ lit ++ post) =
      pre' ++ lit ++ body ending literals (0 + byteSize (pre ++ lit)) post := by
    rw [body_append (hlit.append pre), hpre']
  have htrim : trimEnd (body ending literals 0 (pre ++ lit ++ post)) =
      pre' ++ lit ++ trimEnd (body ending literals (0 + byteSize (pre ++ lit)) post) := by
    rw [hbody, trimEnd_append (hlit.append pre')]
  refine ⟨pre', trimEnd (body ending literals (0 + byteSize (pre ++ lit)) post) ++ ending,
    ?_, ?_, ?_⟩
  · rw [run_eq, hend, htrim, if_neg (by simp [hlit.ne_nil]), List.append_assoc]
  · have hsolid := solid_body he literals 0 (pre ++ lit)
    rw [hpre', solid_append, solid_append] at hsolid
    exact List.append_cancel_right hsolid
  · rw [solid_append, solid_trimEnd, solid_body he, solid_eq_nil_iff.2 he.blank, List.append_nil]

/-- **Tidying loses no content.** The solid characters of a text stay, in their order, and each
literal that ends solid stands unchanged in the tidied text, its line endings and the white space
inside it included, between the solid characters that stood around it. -/
theorem run_keeps_content (t : Text) (literals : List Span) :
    solid (run t literals) = solid t ∧
    ∀ s ∈ literals, ∀ pre lit post, t = pre ++ lit ++ post →
      s.start = byteSize pre → s.stop = byteSize pre + byteSize lit → EndsSolid lit →
      ∃ pre' post', run t literals = pre' ++ lit ++ post' ∧
        solid pre' = solid pre ∧ solid post' = solid post := by
  refine ⟨solid_run t literals, ?_⟩
  rintro ⟨start, stop⟩ hs pre lit post rfl rfl rfl hlit
  exact run_keeps_literal hs hlit post

/-- Two literals over two lines each, the second of which starts where the first one ends; a third
span covers both. -/
theorem adjacent_literals_kept :
    let t := "s = @\"a  \r\nb\" + @\"c \n d\";\t\r\n\n".toList
    ∃ pre' post', run t [⟨4, 13⟩, ⟨16, 24⟩, ⟨4, 24⟩] = pre' ++ "@\"c \n d\"".toList ++ post' ∧
      solid pre' = "s=@\"ab\"+".toList ∧ solid post' = [';'] :=
  (run_keeps_content _ [⟨4, 13⟩, ⟨16, 24⟩, ⟨4, 24⟩]).2 ⟨16, 24⟩ (by decide)
    "s = @\"a  \r\nb\" + ".toList "@\"c \n d\"".toList ";\t\r\n\n".toList
    (by decide) (by decide) (by decide) (by decide)

end ParamTwin.Tidy
