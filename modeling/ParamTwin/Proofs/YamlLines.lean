import Mathlib.Data.List.TakeDrop
import ParamTwin.Proofs.YamlScalars

/-!
# Scalars in lines of their own

A string with line feeds is written below its key, each of its lines indented by the same margin.
The reader takes the margin off and looks at the mark behind the bar for what becomes of the line
ends at the end:

* `readLines_indentLines`: all lines are read, up to the first that is not indented as far.
* `Ends.finish`: the mark leaves as many line ends as the string has.
* `block_lines`: the string is read back.
-/

namespace ParamTwin.Yaml

/-! ## Margins -/

section
variable {k : Nat}

theorem indentLines_append_break {c : Char} (h : isBreak c = true) (fresh : Bool) (t : Text) :
    indentLines k fresh (t ++ [c]) = indentLines k fresh t ++ [c] := by
  induction t generalizing fresh with
  | nil => simp [indentLines, h]
  | cons d t ih =>
    rw [List.cons_append, indentLines, indentLines, ih, ih]
    split <;> simp

/-- A line is written as it is, up to its end. -/
theorem indentLines_line {line : Text} (h : ∀ c ∈ line, isBreak c = false) {d : Char}
    (hd : isBreak d = true) (t : Text) :
    indentLines k false (line ++ d :: t) = line ++ d :: indentLines k true t := by
  induction line with
  | nil => simp [indentLines, hd]
  | cons c line ih =>
    rw [List.cons_append, indentLines, h c (.head _), if_neg Bool.false_ne_true,
      ih fun x hx => h x (.tail _ hx)]
    rfl

theorem exists_indentLines_append (c : Char) (fresh : Bool) (t : Text) :
    ∃ w, indentLines k fresh (t ++ [c]) = w ++ [c] := by
  induction t generalizing fresh with
  | nil =>
    rw [List.nil_append, indentLines]
    split
    · exact ⟨[], rfl⟩
    · exact ⟨margin k fresh, rfl⟩
  | cons d t ih =>
    rw [List.cons_append, indentLines]
    split
    · obtain ⟨w, hw⟩ := ih true
      exact ⟨d :: w, by rw [hw, List.cons_append]⟩
    · obtain ⟨w, hw⟩ := ih false
      exact ⟨margin k fresh ++ d :: w, by rw [hw, List.append_assoc, List.cons_append]⟩

theorem getLast?_indentLines {t : Text} (h : t ≠ []) (fresh : Bool) :
    (indentLines k fresh t).getLast? = t.getLast? := by
  obtain ⟨w, hw⟩ := exists_indentLines_append (k := k) (t.getLast h) fresh t.dropLast
  rw [List.dropLast_concat_getLast] at hw
  rw [hw, List.getLast?_concat, List.getLast?_eq_some_getLast h]

/-- The line end that closes a string in lines of its own closes its last line. -/
theorem closeLine_indentLines {t : Text} (h : t ≠ []) :
    closeLine (indentLines k true t) = indentLines k true (closeLine t) := by
  unfold closeLine
  rw [getLast?_indentLines h]
  split
  · rfl
  · rw [indentLines_append_break (by decide)]

theorem closeLine_eq_append {t : Text} (h : ∀ d ∈ t.getLast?, isBreak d = false) :
    closeLine t = t ++ ['\n'] := by
  unfold closeLine
  cases hlast : t.getLast? with
  | none => rfl
  | some d => simp [h d hlast]

theorem closeLine_append {t u : Text} (h : u ≠ []) : closeLine (t ++ u) = t ++ closeLine u := by
  unfold closeLine
  rw [List.getLast?_append, List.getLast?_eq_some_getLast h, Option.some_or]
  split
  · rfl
  · rw [List.append_assoc]

theorem closeLine_single (k : Nat) (t : Text) : closeLine (single k t) = single k t ++ ['\n'] := by
  refine closeLine_eq_append fun d hd => ?_
  obtain rfl := Option.some.inj (List.getLast?_concat.symm.trans hd)
  decide

theorem closeLine_double (t : Text) : closeLine (double t) = double t ++ ['\n'] := by
  refine closeLine_eq_append fun d hd => ?_
  obtain rfl := Option.some.inj (List.getLast?_concat.symm.trans hd)
  decide

theorem closeLine_lines {t : Text} (h : t ≠ []) (k : Nat) :
    closeLine (lines k t) =
      '|' :: (indentMark t ++ chompMark t ++ '\n' :: indentLines k true (closeLine t)) := by
  have hne : indentLines k true t ≠ [] := by
    obtain ⟨c, cs, rfl⟩ := List.exists_cons_of_ne_nil h
    rw [indentLines]
    split <;> simp
  have hlines : lines k t = ('|' :: (indentMark t ++ chompMark t) ++ ['\n']) ++
      indentLines k true t := by simp [lines]
  rw [hlines, closeLine_append hne, closeLine_indentLines h]
  simp

end

/-! ## Empty lines -/

section
variable {k : Nat}

/-- Blanks inside the margin are passed over. -/
theorem skipBreaks_replicate {indent : Option Nat} {j : Nat} {p : Place}
    (h : ∀ n ∈ indent, p.column + j ≤ n) (t : Text) (reached : Nat) (breaks : Text) :
    skipBreaks indent (List.replicate j ' ' ++ t) p reached breaks =
      skipBreaks indent t ⟨p.line, p.column + j, p.index + j⟩ reached breaks := by
  induction j generalizing p with
  | zero => rfl
  | succ j ih =>
    have hinside : (indent.all fun n => p.column < n) = true := by
      cases indent with
      | none => rfl
      | some n =>
        have := h n rfl
        simp only [Option.all_some, decide_eq_true_eq]
        omega
    rw [List.replicate_succ, List.cons_append, skipBreaks]
    simp only [hinside, decide_true, Bool.and_self, if_true]
    rw [Place.after_of_not_isBreak (by decide), ih]
    · simp only [Nat.add_assoc, Nat.add_comm 1 j]
    · intro n hn
      have := h n hn
      show p.column + 1 + j ≤ n
      omega

/-- A line that is indented as it should be, or not so far, ends the empty lines. -/
theorem skipBreaks_stop {indent : Option Nat} {c : Char} {t : Text} {p : Place}
    (hc : isBreak c = false) (htab : c ≠ '\t')
    (h : c = ' ' → (indent.all fun n => p.column < n) = false) (reached : Nat) (breaks : Text) :
    skipBreaks indent (c :: t) p reached breaks =
      some (c :: t, p, max reached p.column, breaks) := by
  rw [skipBreaks]
  by_cases hspace : c = ' '
  · simp [h hspace, hc]
  · simp [hspace, htab, hc]

theorem indentLines_breaks {bs : Text} (h : ∀ c ∈ bs, isBreak c = true) (t : Text) :
    indentLines k true (bs ++ t) = bs ++ indentLines k true t := by
  induction bs with
  | nil => rfl
  | cons b bs ih =>
    rw [List.cons_append, indentLines, if_pos (h b (.head _)), ih fun c hc => h c (.tail _ hc),
      List.cons_append]

theorem ne_of_isBreak {b : Char} (h : isBreak b = true) : b ≠ ' ' ∧ b ≠ '\t' := by
  have hblank := isBlank_of_isBreak h
  simpa [isBlank] using hblank

theorem skipBreaks_breaks (indent : Option Nat) {bs : Text} (h : ∀ c ∈ bs, isBreak c = true)
    {p : Place} (hp : p.column = 0) (t : Text) (reached : Nat) (breaks : Text) :
    ∃ p' : Place, p'.column = 0 ∧
      skipBreaks indent (bs ++ t) p reached breaks =
        skipBreaks indent t p' reached (bs.reverse ++ breaks) := by
  induction bs generalizing p breaks with
  | nil => exact ⟨p, hp, rfl⟩
  | cons b bs ih =>
    have hb := h b (.head _)
    obtain ⟨hspace, htab⟩ := ne_of_isBreak hb
    have hstep : skipBreaks indent (b :: (bs ++ t)) p reached breaks =
        skipBreaks indent (bs ++ t) (p.after b) reached (b :: breaks) := by
      rw [skipBreaks]
      simp [hspace, htab, hb, hp]
    have hafter : (p.after b).column = 0 := by rw [Place.after_of_isBreak hb]
    obtain ⟨p', hp', hrest⟩ := ih (fun c hc => h c (.tail _ hc)) hafter (b :: breaks)
    exact ⟨p', hp', by rw [List.cons_append, hstep, hrest]; simp⟩

/-- Empty lines before a line. -/
theorem skipBreaks_line {bs : Text} (h : ∀ c ∈ bs, isBreak c = true) {c : Char}
    (hc : InLine c) {p : Place} (hp : p.column = 0) (t tail : Text) (reached : Nat) :
    ∃ (p' : Place) (reached' : Nat), p'.column = k ∧
      skipBreaks (some k) (indentLines k true (bs ++ c :: t) ++ tail) p reached [] =
        some (c :: indentLines k false t ++ tail, p', reached', bs.reverse) := by
  obtain ⟨p', hp', hbreaks⟩ := skipBreaks_breaks (some k) h hp
    (indentLines k true (c :: t) ++ tail) reached []
  have htab : c ≠ '\t' := by
    intro heq
    subst heq
    exact absurd hc.1 (by decide)
  have hline : indentLines k true (c :: t) =
      List.replicate k ' ' ++ c :: indentLines k false t := by
    rw [indentLines, hc.2]
    rfl
  refine ⟨{ p' with column := p'.column + k, index := p'.index + k },
    max reached (p'.column + k), by simp [hp'], ?_⟩
  rw [indentLines_breaks h, List.append_assoc, hbreaks, hline, List.append_assoc,
    skipBreaks_replicate (by simp [hp']), List.cons_append,
    skipBreaks_stop hc.2 htab (by simp [hp'])]
  simp

/-- Empty lines at the end, before a line that is not indented as far. -/
theorem skipBreaks_end {bs : Text} (h : ∀ c ∈ bs, isBreak c = true) {col : Nat} (hcol : col < k)
    {t : Text} (ht : Solid t) {p : Place} (hp : p.column = 0) (reached : Nat) :
    ∃ (p' : Place) (reached' : Nat), p'.column = col ∧
      skipBreaks (some k) (indentLines k true bs ++ (List.replicate col ' ' ++ t)) p reached [] =
        some (t, p', reached', bs.reverse) := by
  obtain ⟨p', hp', hbreaks⟩ := skipBreaks_breaks (some k) h hp
    (List.replicate col ' ' ++ t) reached []
  have hlines : indentLines k true bs = bs := by
    simpa [indentLines] using indentLines_breaks (k := k) h []
  refine ⟨{ p' with column := p'.column + col, index := p'.index + col },
    max reached (p'.column + col), by simp [hp'], ?_⟩
  rw [hlines, hbreaks, skipBreaks_replicate (by simp [hp']; omega)]
  cases t with
  | nil => simp [skipBreaks]
  | cons c t =>
    obtain ⟨hblank, hbreak, -⟩ := ht c rfl
    simp only [isBlank, Bool.or_eq_false_iff, decide_eq_false_iff_not] at hblank
    rw [skipBreaks_stop hbreak hblank.2 fun hspace => absurd hspace hblank.1]
    simp

end

/-! ## Lines -/

namespace Lines

/-- The lines read so far, with all line ends behind the last of them. -/
structure Holds (l : Lines) (t : Text) : Prop where
  all : l.empty ++ l.last ++ l.out = t.reverse
  breaks : ∀ c ∈ l.empty ++ l.last, isBreak c = true
  solid : ∀ c ∈ l.out.head?, isBreak c = false
  last : l.out ≠ [] → l.last.length = 1

/-- One more line, with its end and the empty lines behind it. -/
def add (l : Lines) (line : Text) (d : Char) (bs : Text) (indented : Bool) : Lines where
  out := line.reverse ++ l.join false indented
  last := [d]
  empty := bs.reverse
  indented := indented

theorem join_eq (l : Lines) (indented : Bool) :
    l.join false indented = l.empty ++ l.last ++ l.out := by
  simp [join]

end Lines

theorem exists_breaks (t : Text) :
    ∃ bs w, t = bs ++ w ∧ (∀ c ∈ bs, isBreak c = true) ∧ ∀ c ∈ w.head?, isBreak c = false := by
  induction t with
  | nil => exact ⟨[], [], rfl, by simp, by simp⟩
  | cons c t ih =>
    cases hc : isBreak c with
    | false => exact ⟨[], c :: t, rfl, by simp, by simpa using hc⟩
    | true =>
      obtain ⟨bs, w, rfl, hbs, hw⟩ := ih
      exact ⟨c :: bs, w, rfl, List.forall_mem_cons.2 ⟨hc, hbs⟩, hw⟩

/-- A text is cut at its first line end and before the next line. -/
theorem exists_line {t : Text} (h : ∃ d ∈ t, isBreak d = true) :
    ∃ line d bs w, t = line ++ d :: (bs ++ w) ∧ (∀ c ∈ line, isBreak c = false) ∧
      isBreak d = true ∧ (∀ c ∈ bs, isBreak c = true) ∧ ∀ c ∈ w.head?, isBreak c = false := by
  induction t with
  | nil => simp at h
  | cons c t ih =>
    cases hc : isBreak c with
    | true =>
      obtain ⟨bs, w, rfl, hbs, hw⟩ := exists_breaks t
      exact ⟨[], c, bs, w, rfl, by simp, hc, hbs, hw⟩
    | false =>
      obtain ⟨line, d, bs, w, rfl, hline, hd, hbs, hw⟩ := ih (by simpa [hc] using h)
      exact ⟨c :: line, d, bs, w, rfl, List.forall_mem_cons.2 ⟨hc, hline⟩, hd, hbs, hw⟩

theorem span_line {line : Text} (h : ∀ c ∈ line, isBreak c = false) {d : Char}
    (hd : isBreak d = true) (t : Text) :
    (line ++ d :: t).span (fun c => !isBreak c) = (line, d :: t) := by
  have hline : ∀ c ∈ line, (!isBreak c) = true := fun c hc => by simp [h c hc]
  rw [List.span_eq_takeWhile_dropWhile, List.takeWhile_append_of_pos hline,
    List.dropWhile_append_of_pos hline, List.takeWhile_cons_of_neg (by simp [hd]),
    List.dropWhile_cons_of_neg (by simp [hd]), List.append_nil]

section
variable {k col : Nat} {rest : Text} {l : Lines} {read : Text}

/-- The next line, the empty lines behind it, and what has then been read. -/
theorem readLines_line {fuel : Nat} {c d : Char} {line t t' bs : Text} {p p' : Place}
    {reached : Nat} (hp : p.column = k) (hline : ∀ x ∈ c :: line, isBreak x = false)
    (hd : isBreak d = true)
    (hskip : skipBreaks (some k) t (((c :: line).foldl Place.after p).after d) 0 [] =
      some (t', p', reached, bs.reverse)) :
    readLines false k (fuel + 1) (c :: (line ++ d :: t)) p l =
      readLines false k fuel t' p' (l.add (c :: line) d bs (isBlank c)) := by
  rw [readLines, if_neg (by simpa using hp), ← List.cons_append, span_line hline hd]
  simp only [hskip]
  rfl

theorem Lines.Holds.add (h : l.Holds read) {c d : Char} {line bs : Text}
    (hline : ∀ x ∈ c :: line, isBreak x = false) (hd : isBreak d = true)
    (hbs : ∀ x ∈ bs, isBreak x = true) (indented : Bool) :
    (l.add (c :: line) d bs indented).Holds (read ++ c :: (line ++ d :: bs)) where
  all := by
    simp only [Lines.add, Lines.join_eq, h.all]
    simp
  breaks x hx := by
    cases List.mem_append.1 hx with
    | inl hx => exact hbs x (List.mem_reverse.1 hx)
    | inr hx => rwa [List.mem_singleton.1 hx]
  solid x hx := by
    obtain ⟨y, ys, hy⟩ := List.exists_cons_of_ne_nil (List.reverse_ne_nil_iff.2
      (List.cons_ne_nil c line))
    obtain rfl : y = x := by simpa [Lines.add, hy] using hx
    exact hline y (List.mem_reverse.1 (hy ▸ .head _))
  last _ := rfl

/-- A line that is not indented as far ends the scalar. -/
theorem readLines_stop {p : Place} (h : p.column ≠ k) (fuel : Nat) :
    readLines false k fuel rest p l = some (l, rest, p) := by
  cases fuel with
  | zero => rfl
  | succ fuel =>
    cases rest with
    | nil => rfl
    | cons c rest => rw [readLines, if_pos h]

/-- All lines are read, up to the first that is not indented as far. -/
theorem readLines_indentLines (hcol : col < k) (hrest : Solid rest) {fuel : Nat} {c : Char}
    {t : Text} {p : Place} (hfuel : t.length < fuel)
    (hprintable : ∀ x ∈ c :: t, isPrintable x = true) (hc : isBreak c = false)
    (hend : ∀ d ∈ (c :: t).getLast?, isBreak d = true)
    (hl : l.Holds read) (hp : p.column = k) :
    ∃ (l' : Lines) (p' : Place),
      readLines false k fuel (c :: indentLines k false t ++ (List.replicate col ' ' ++ rest)) p l =
        some (l', rest, p') ∧ l'.Holds (read ++ c :: t) ∧ p'.column = col := by
  induction fuel generalizing c t l read p with
  | zero => exact absurd hfuel (Nat.not_lt_zero _)
  | succ fuel ih =>
    have hbreak : ∃ d ∈ t, isBreak d = true := by
      cases t with
      | nil =>
        have hlast := hend c rfl
        rw [hc] at hlast
        cases hlast
      | cons b t =>
        refine ⟨(b :: t).getLast (List.cons_ne_nil _ _), List.getLast_mem _, hend _ ?_⟩
        rw [List.getLast?_cons_cons]
        exact List.getLast?_eq_some_getLast _
    obtain ⟨line, d, bs, w, rfl, hunbroken, hd, hbs, hw⟩ := exists_line hbreak
    have hline : ∀ x ∈ c :: line, isBreak x = false := List.forall_mem_cons.2 ⟨hc, hunbroken⟩
    have hafter : (((c :: line).foldl Place.after p).after d).column = 0 := by
      rw [Place.after_of_isBreak hd]
    rw [indentLines_line hunbroken hd, List.cons_append, List.append_assoc, List.cons_append]
    cases w with
    | nil =>
      obtain ⟨p', reached, hp', hskip⟩ := skipBreaks_end hbs hcol hrest hafter 0
      rw [List.append_nil, readLines_line hp hline hd hskip]
      exact ⟨_, p', readLines_stop (by omega) _,
        by simpa using hl.add hline hd hbs (isBlank c), hp'⟩
    | cons b w =>
      have hb : InLine b := ⟨hprintable b (by simp), hw b rfl⟩
      obtain ⟨p', reached, hp', hskip⟩ :=
        skipBreaks_line (k := k) hbs hb hafter w (List.replicate col ' ' ++ rest) 0
      rw [readLines_line hp hline hd hskip]
      have hlength : w.length < fuel := by
        simp only [List.length_append, List.length_cons] at hfuel
        omega
      have hlast : ∀ x ∈ (b :: w).getLast?, isBreak x = true := by
        intro x hx
        refine hend x ?_
        have hcut : c :: (line ++ d :: (bs ++ b :: w)) = (c :: line ++ d :: bs) ++ b :: w := by simp
        rw [hcut, List.getLast?_append, Option.mem_def.1 hx]
        rfl
      obtain ⟨l', p'', hread, hl', hp''⟩ := ih hlength (fun x hx => hprintable x (by
        simp only [List.mem_cons, List.mem_append] at hx ⊢
        exact .inr (.inr (.inr (.inr hx))))) hb.2 hlast (hl.add hline hd hbs (isBlank c)) hp'
      exact ⟨l', p'', hread, by simpa using hl', hp''⟩

end

/-! ## Line ends at the end -/

/-- The mark that asks for a way to treat the line ends at the end. -/
def Chomping.mark : Chomping → Text
  | .strip => ['-']
  | .keep => ['+']
  | .clip => []

/-- How a string ends, and what is to become of the line ends behind it. -/
inductive Ends : Text → Chomping → Prop
  | strip {t : Text} {c : Char} (hc : isBreak c = false) : Ends (t ++ [c]) .strip
  | clip {t : Text} {c d : Char} (hc : isBreak c = false) (hd : isBreak d = true) :
    Ends (t ++ [c] ++ [d]) .clip
  | keep {t : Text} {d : Char} (hd : isBreak d = true) : Ends (t ++ [d]) .keep

theorem exists_ends {t : Text} (h : t ≠ []) :
    ∃ chomping, Ends t chomping ∧ chompMark t = chomping.mark := by
  obtain ⟨c, rest, hreverse⟩ := List.exists_cons_of_ne_nil (List.reverse_ne_nil_iff.2 h)
  obtain rfl : t = rest.reverse ++ [c] := by
    rw [← List.reverse_cons, ← hreverse, List.reverse_reverse]
  unfold chompMark
  rw [hreverse]
  dsimp only
  cases hc : isBreak c with
  | false => exact ⟨.strip, .strip hc, rfl⟩
  | true =>
    cases rest with
    | nil => exact ⟨.keep, .keep hc, rfl⟩
    | cons d rest =>
      cases hd : isBreak d with
      | false =>
        refine ⟨.clip, ?_, by simp [hd, Chomping.mark]⟩
        rw [List.reverse_cons]
        exact .clip hd hc
      | true => exact ⟨.keep, .keep hc, by simp [hd, Chomping.mark]⟩

theorem append_breaks_inj {bs bs' o o' : Text} (h : bs ++ o = bs' ++ o')
    (hbs : ∀ c ∈ bs, isBreak c = true) (hbs' : ∀ c ∈ bs', isBreak c = true)
    (ho : ∀ c ∈ o.head?, isBreak c = false) (ho' : ∀ c ∈ o'.head?, isBreak c = false) :
    bs = bs' ∧ o = o' := by
  induction bs generalizing bs' with
  | nil =>
    cases bs' with
    | nil => exact ⟨rfl, h⟩
    | cons b bs' =>
      have hb := ho b (by rw [List.nil_append] at h; rw [h]; rfl)
      rw [hbs' b (.head _)] at hb
      cases hb
  | cons b bs ih =>
    cases bs' with
    | nil =>
      have hb := ho' b (by rw [List.nil_append] at h; rw [← h]; rfl)
      rw [hbs b (.head _)] at hb
      cases hb
    | cons b' bs' =>
      obtain ⟨rfl, hrest⟩ := List.cons.inj h
      obtain ⟨rfl, rfl⟩ := ih hrest (fun c hc => hbs c (.tail _ hc)) fun c hc => hbs' c (.tail _ hc)
      exact ⟨rfl, rfl⟩

/-- Behind a last character one line end is left. -/
theorem Lines.Holds.cut {l : Lines} {t : Text} {c d : Char} (h : l.Holds (t ++ [c] ++ [d]))
    (hc : isBreak c = false) (hd : isBreak d = true) :
    l.out = (t ++ [c]).reverse ∧ l.last = [d] := by
  have hall : (l.empty ++ l.last) ++ l.out = [d] ++ (t ++ [c]).reverse := by
    rw [h.all]
    simp
  obtain ⟨hbreaks, hout⟩ := append_breaks_inj hall h.breaks (by simpa using hd) h.solid
    (by simpa using hc)
  refine ⟨hout, ?_⟩
  have hlast := h.last (by simp [hout])
  obtain ⟨x, hx⟩ := List.length_eq_one_iff.1 hlast
  rw [hx] at hbreaks ⊢
  cases hempty : l.empty with
  | nil => simpa [hempty] using hbreaks
  | cons y ys => simp [hempty] at hbreaks

/-- The mark leaves as many line ends as the string has. -/
theorem Ends.finish {t : Text} {chomping : Chomping} (h : Ends t chomping) {l : Lines}
    (hl : l.Holds (closeLine t)) : l.finish chomping = String.ofList t := by
  cases h with
  | @strip t c hc =>
    have hclose : closeLine (t ++ [c]) = t ++ [c] ++ ['\n'] := by simp [closeLine, hc]
    rw [hclose] at hl
    rw [Lines.finish, (hl.cut hc rfl).1, List.reverse_reverse]
  | @clip t c d hc hd =>
    have hclose : closeLine (t ++ [c] ++ [d]) = t ++ [c] ++ [d] := by simp [closeLine, hd]
    rw [hclose] at hl
    obtain ⟨hout, hlast⟩ := hl.cut hc hd
    simp [Lines.finish, hout, hlast]
  | @keep t d hd =>
    have hclose : closeLine (t ++ [d]) = t ++ [d] := by simp [closeLine, hd]
    rw [hclose] at hl
    rw [Lines.finish, hl.all, List.reverse_reverse]

/-! ## Headers -/

/-- Whether the margin must be told, as the first line does not show it. -/
def hidesMargin (t : Text) : Bool :=
  t.head?.any fun c => c = ' ' || isBreak c

theorem header?_marks (t : Text) (chomping : Chomping) (rest : Text) :
    header? (indentMark t ++ chomping.mark ++ '\n' :: rest) =
      some ({ chomping, increment := if hidesMargin t then some 2 else none }, '\n' :: rest) := by
  unfold indentMark
  rw [hidesMargin]
  split
  · cases chomping <;> rfl
  · cases chomping <;> rfl

theorem length_le_indentLines (k : Nat) (fresh : Bool) (t : Text) :
    t.length ≤ (indentLines k fresh t).length := by
  induction t generalizing fresh with
  | nil => exact Nat.le_refl _
  | cons c t ih =>
    rw [indentLines]
    split
    · exact Nat.succ_le_succ (ih true)
    · have := ih false
      simp only [List.length_append, List.length_cons]
      omega

/-- What is read behind the header of a scalar in lines of its own. -/
theorem block_of_header {t rest : Text} {chomping : Chomping} {i : Nat} {body : Text} {p : Place}
    {start : Text} {empty : Text} {reached : Nat} {p₁ p₂ : Place} {l : Lines}
    (hskip : skipBreaks (if hidesMargin t then some (i + 2) else none) body
      (((indentMark t ++ chomping.mark).foldl Place.after p).after '\n') 0 [] =
        some (start, p₁, reached, empty))
    (hmargin : (if hidesMargin t then some (i + 2) else none).getD (max reached (i + 1)) = i + 2)
    (hlines : readLines false (i + 2) (start.length + 1) start p₁
      { out := [], last := [], empty, indented := false } = some (l, rest, p₂)) :
    block false (i + 1) (indentMark t ++ chomping.mark ++ '\n' :: body) p =
      some (l.finish chomping, rest, p₂) := by
  have hgiven : (if hidesMargin t then some 2 else none).map (fun n => i + 1 - 1 + n) =
      if hidesMargin t then some (i + 2) else none := by
    split <;> rfl
  have htake : ((indentMark t ++ chomping.mark ++ '\n' :: body).take
      ((indentMark t ++ chomping.mark ++ '\n' :: body).length - ('\n' :: body).length)) =
        indentMark t ++ chomping.mark := by
    rw [List.length_append, Nat.add_sub_cancel, List.take_left]
  have hmax : max (i + 1) 1 = i + 1 := by omega
  unfold block
  rw [header?_marks]
  simp only [Option.bind_eq_bind, Option.bind_some, htake, hgiven, hskip, hmax, hmargin, hlines]
  rfl

/-- The lines before the first one with characters. -/
theorem Lines.holds_start {bs : Text} (h : ∀ c ∈ bs, isBreak c = true) :
    Lines.Holds { out := [], last := [], empty := bs.reverse, indented := false } bs where
  all := by simp
  breaks c hc := h c (by simpa using hc)
  solid := by simp
  last h := absurd rfl h

theorem head?_closeLine {t : Text} (h : t ≠ []) : (closeLine t).head? = t.head? := by
  obtain ⟨c, t, rfl⟩ := List.exists_cons_of_ne_nil h
  unfold closeLine
  split <;> rfl

theorem getLast?_closeLine (t : Text) : ∀ d ∈ (closeLine t).getLast?, isBreak d = true := by
  intro d hd
  unfold closeLine at hd
  split at hd
  · rename_i hlast
    simpa [Option.mem_def.1 hd] using hlast
  · obtain rfl : '\n' = d := by simpa using hd
    decide

theorem isPrintable_of_mem_closeLine {t : Text} (h : ∀ c ∈ t, isPrintable c = true) {c : Char}
    (hc : c ∈ closeLine t) : isPrintable c = true := by
  unfold closeLine at hc
  split at hc
  · exact h c hc
  · cases List.mem_append.1 hc with
    | inl hc => exact h c hc
    | inr hc =>
      rw [List.mem_singleton.1 hc]
      decide

/-- The margin is found, be it told or shown by the first line. -/
theorem exists_skipBreaks_first {t bs w : Text} {c : Char} {i : Nat} {p : Place} (h : t ≠ [])
    (hclose : closeLine t = bs ++ c :: w) (hbs : ∀ d ∈ bs, isBreak d = true) (hc : InLine c)
    (hp : p.column = 0) (tail : Text) :
    ∃ (p' : Place) (reached : Nat), p'.column = i + 2 ∧
      (if hidesMargin t then some (i + 2) else none).getD (max reached (i + 1)) = i + 2 ∧
      skipBreaks (if hidesMargin t then some (i + 2) else none)
          (indentLines (i + 2) true (bs ++ c :: w) ++ tail) p 0 [] =
        some (c :: indentLines (i + 2) false w ++ tail, p', reached, bs.reverse) := by
  cases hhides : hidesMargin t with
  | true =>
    obtain ⟨p', reached, hp', hskip⟩ := skipBreaks_line (k := i + 2) hbs hc hp w tail 0
    exact ⟨p', reached, hp', rfl, hskip⟩
  | false =>
    have hhead : t.head? = (bs ++ c :: w).head? := by rw [← hclose, head?_closeLine h]
    rw [hidesMargin, hhead] at hhides
    cases bs with
    | cons b bs => simp [hbs b (.head _)] at hhides
    | nil =>
      have hspace : c ≠ ' ' := by
        intro heq
        simp [heq] at hhides
      have htab : c ≠ '\t' := by
        intro heq
        subst heq
        exact absurd hc.1 (by decide)
      have hline : indentLines (i + 2) true (c :: w) =
          List.replicate (i + 2) ' ' ++ c :: indentLines (i + 2) false w := by
        rw [indentLines, hc.2]
        rfl
      refine ⟨{ p with column := p.column + (i + 2), index := p.index + (i + 2) },
        max 0 (p.column + (i + 2)), by simp [hp], ?_, ?_⟩
      · show max (max 0 (p.column + (i + 2))) (i + 1) = i + 2
        omega
      · rw [List.nil_append, hline, List.append_assoc]
        show skipBreaks none _ p 0 [] = _
        rw [skipBreaks_replicate (by simp), List.cons_append,
          skipBreaks_stop hc.2 htab fun heq => absurd heq hspace]
        rfl

/-- **A string in lines of its own is read back.** -/
theorem block_lines {t : Text} (h : t ≠ []) (hprintable : ∀ c ∈ t, isPrintable c = true)
    {i col : Nat} (hcol : col ≤ i) {rest : Text} (hrest : Solid rest) (p : Place) :
    ∃ p' : Place, p'.column = col ∧
      block false (i + 1) (indentMark t ++ chompMark t ++
          '\n' :: (indentLines (i + 2) true (closeLine t) ++ (List.replicate col ' ' ++ rest))) p =
        some (String.ofList t, rest, p') := by
  obtain ⟨chomping, hends, hmark⟩ := exists_ends h
  obtain ⟨bs, w, hclose, hbs, hw⟩ := exists_breaks (closeLine t)
  have hcolumn : (((indentMark t ++ chomping.mark).foldl Place.after p).after '\n').column = 0 := by
    rw [Place.after_of_isBreak (by decide)]
  have hfar : col < i + 2 := by omega
  rw [hmark, hclose]
  cases w with
  | nil =>
    -- A string of line ends only: its first character hides the margin.
    rw [List.append_nil] at hclose ⊢
    have hhides : hidesMargin t = true := by
      obtain ⟨c, t, rfl⟩ := List.exists_cons_of_ne_nil h
      have hhead := head?_closeLine h
      rw [hclose] at hhead
      have hc := hbs c (List.mem_of_mem_head? hhead)
      simp [hidesMargin, hc]
    obtain ⟨p', reached, hp', hskip⟩ :=
      skipBreaks_end hbs hfar hrest hcolumn 0
    refine ⟨p', hp', ?_⟩
    rw [block_of_header (by rw [hhides]; exact hskip) (by rw [hhides]; rfl)
      (readLines_stop (by omega) _), hends.finish (by rw [hclose]; exact Lines.holds_start hbs)]
  | cons c w =>
    have hc : InLine c := ⟨isPrintable_of_mem_closeLine hprintable (by rw [hclose]; simp), hw c rfl⟩
    obtain ⟨p₁, reached, hp₁, hmargin, hskip⟩ :=
      exists_skipBreaks_first (i := i) h hclose hbs hc hcolumn (List.replicate col ' ' ++ rest)
    have hlength := length_le_indentLines (i + 2) false w
    have hlast : ∀ d ∈ (c :: w).getLast?, isBreak d = true := by
      intro d hd
      refine getLast?_closeLine t d ?_
      rw [hclose, List.getLast?_append, Option.mem_def.1 hd]
      rfl
    obtain ⟨l, p₂, hlines, hl, hp₂⟩ := readLines_indentLines hfar hrest
      (show w.length < (c :: indentLines (i + 2) false w ++ (List.replicate col ' ' ++ rest)).length
        + 1 by simp only [List.length_append, List.length_cons]; omega)
      (fun x hx => isPrintable_of_mem_closeLine hprintable (by
        rw [hclose]
        exact List.mem_append_right _ hx))
      hc.2 hlast (Lines.holds_start hbs) hp₁
    exact ⟨p₂, hp₂, by rw [block_of_header hskip hmargin hlines, hends.finish (hclose ▸ hl)]⟩

end ParamTwin.Yaml
