import Mathlib.Algebra.Group.Nat.Defs
import ParamTwin.Yaml.Writer

/-!
# Scalars are read back

What the reader makes of the text that the writer gives for a string on a line of its key:

* `IsPlain`, `isPlain_of_isDull`: which texts are written without quotes.
* `plain_append`, `plain_lineEnd`: a text without quotes is read up to the end of its line.
* `quoted_single`, `quoted_flatMap_doubleChar`: a text in single and in double quotes.

Each lemma holds whatever follows on the next line, as long as that is not indented further than
what holds the scalar.
-/

namespace ParamTwin.Yaml

/-! ## Characters and places -/

theorem isPrintable_iff {c : Char} :
    isPrintable c = true ↔ c.toNat = 10 ∨ (32 ≤ c.toNat ∧ c.toNat ≤ 126) ∨
      (0xA0 ≤ c.toNat ∧ c.toNat ≤ 0xFFFD ∧ c.toNat ≠ 0xFEFF) := by
  simp [isPrintable, and_assoc, or_assoc]

theorem toNat_ne {c d : Char} (h : c ≠ d) : c.toNat ≠ d.toNat :=
  fun heq => h (Char.toNat_inj.1 heq)

/-- A printable character ends a line for the writer iff it does for the reader. -/
theorem endsLine_eq_isBreak {c : Char} (h : isPrintable c = true) : endsLine c = isBreak c := by
  rw [isPrintable_iff] at h
  have hreturn : c ≠ '\r' := by
    rintro rfl
    exact absurd h (by decide)
  have hnext : c.toNat ≠ 0x85 := by omega
  simp [endsLine, hreturn, hnext]

theorem isBlank_eq_isSpace {c : Char} (h : isPrintable c = true) : isBlank c = isSpace c := by
  have htab : c ≠ '\t' := by
    rintro rfl
    exact absurd h (by decide)
  simp [isBlank, isSpace, htab]

theorem isBreak_of_isBlank {c : Char} (h : isBlank c = true) : isBreak c = false := by
  simp only [isBlank, Bool.or_eq_true, decide_eq_true_eq] at h
  cases h with
  | inl h => subst h; decide
  | inr h => subst h; decide

theorem isBlank_of_isBreak {c : Char} (h : isBreak c = true) : isBlank c = false := by
  cases hblank : isBlank c with
  | false => rfl
  | true =>
    rw [isBreak_of_isBlank hblank] at h
    cases h

namespace Place

theorem foldl_after_line_le (t : Text) (p : Place) : p.line ≤ (t.foldl after p).line := by
  induction t generalizing p with
  | nil => exact Nat.le_refl _
  | cons c t ih =>
    refine Nat.le_trans ?_ (ih (p.after c))
    unfold after
    split
    · exact Nat.le_succ _
    · exact Nat.le_refl _

theorem after_of_not_isBreak {c : Char} (h : isBreak c = false) (p : Place) :
    p.after c = { p with column := p.column + 1, index := p.index + 1 } := by
  simp [after, h]

theorem after_of_isBreak {c : Char} (h : isBreak c = true) (p : Place) :
    p.after c = { line := p.line + 1, column := 0, index := p.index + 1 } := by
  simp [after, h]

/-- The place further on in the same line. -/
theorem foldl_after {t : Text} (h : ∀ c ∈ t, isBreak c = false) (p : Place) :
    t.foldl after p =
      { p with column := p.column + t.length, index := p.index + t.length } := by
  induction t generalizing p with
  | nil => rfl
  | cons c t ih =>
    rw [List.foldl_cons, ih (fun d hd => h d (.tail _ hd)), after_of_not_isBreak (h c (.head _))]
    simp only [List.length_cons]
    congr 1 <;> omega

theorem foldl_after_replicate (n : Nat) (p : Place) :
    (List.replicate n ' ').foldl after p =
      { p with column := p.column + n, index := p.index + n } := by
  rw [foldl_after, List.length_replicate]
  intro c hc
  rw [List.eq_of_mem_replicate hc]
  decide

end Place

/-! ## Folding -/

namespace Folding

/-- What is read so far, with the blanks and breaks read last. -/
def Holds (f : Folding) (t : Text) : Prop :=
  f.settle.out = t.reverse

theorem holds_empty : empty.Holds [] := rfl

theorem holds_push {f : Folding} {t : Text} (h : f.Holds t) (c : Char) :
    (f.push c).Holds (t ++ [c]) := by
  simp only [Holds, push, List.reverse_append, List.reverse_singleton, List.singleton_append] at h ⊢
  rw [← h]
  unfold settle
  cases f.breaks <;> rfl

theorem breaks_settle (f : Folding) : f.settle.breaks = none := by
  unfold settle
  cases f.breaks <;> rfl

theorem blanks_settle (f : Folding) : f.settle.blanks = [] := by
  unfold settle
  cases f.breaks <;> rfl

@[simp] theorem breaks_push (f : Folding) (c : Char) : (f.push c).breaks = none :=
  f.breaks_settle

@[simp] theorem blanks_push (f : Folding) (c : Char) : (f.push c).blanks = [] :=
  f.blanks_settle

theorem holds_blank {f : Folding} {t : Text} (h : f.Holds t) (hbreaks : f.breaks = none)
    (c : Char) : (f.blank c).Holds (t ++ [c]) := by
  simp only [Holds, settle, hbreaks] at h
  simp [Holds, settle, blank, hbreaks, h]

theorem breaks_blank {f : Folding} (h : f.breaks = none) (c : Char) :
    (f.blank c).breaks = none := by
  simp [blank, h]

/-- Blanks after a line break are dropped. -/
theorem blank_of_breaks {f : Folding} (h : f.breaks.isSome = true) (c : Char) : f.blank c = f := by
  simp [blank, h]

theorem out_of_holds {f : Folding} {t : Text} (h : f.Holds t) (hbreaks : f.breaks = none)
    (hblanks : f.blanks = []) : f.out = t.reverse := by
  simpa [Holds, settle, hbreaks, hblanks] using h

end Folding

/-! ## Plain scalars -/

/-- What keeps a plain scalar going: neither a comment nor the end of a key. -/
structure GoesOn (before : Char) (t : Text) : Prop where
  printable : ∀ c ∈ t, isPrintable c = true
  unbroken : ∀ c ∈ t, isBreak c = false
  unmarked : hasMark before t = false

theorem GoesOn.tail {before c : Char} {t : Text} (h : GoesOn before (c :: t)) : GoesOn c t where
  printable d hd := h.printable d (.tail _ hd)
  unbroken d hd := h.unbroken d (.tail _ hd)
  unmarked := by
    have hmark := h.unmarked
    simp only [hasMark, Bool.or_eq_false_iff] at hmark
    exact hmark.2

theorem endsWord_append {t : Text} (h : isSpaced t = false) (rest : Text) :
    endsWord (t ++ rest) = false := by
  cases t with
  | nil => cases h
  | cons c t =>
    simp only [isSpaced, endsLine, Bool.or_eq_false_iff] at h
    simp [endsWord, h]

/-- A colon in front of a blank or at the end would have been a mark. -/
theorem GoesOn.isSpaced {before : Char} {t : Text} (h : GoesOn before (':' :: t)) :
    isSpaced t = false := by
  have hmark := h.unmarked
  simp only [hasMark, decide_true, Bool.true_and, Bool.or_eq_false_iff] at hmark
  exact hmark.1.1

/-- A plain scalar that is being read: it has characters, and blanks only after a blank. -/
structure Folding.Reads (f : Folding) (t : Text) (before : Char) : Prop where
  holds : f.Holds t
  breaks : f.breaks = none
  out : f.out ≠ []
  blanks : f.blanks = [] ∨ before = ' '

theorem Folding.Reads.blank {f : Folding} {t : Text} {before : Char} (h : f.Reads t before) :
    (f.blank ' ').Reads (t ++ [' ']) ' ' where
  holds := holds_blank h.holds h.breaks ' '
  breaks := breaks_blank h.breaks ' '
  out := by simpa [Folding.blank, h.breaks] using h.out
  blanks := .inr rfl

theorem Folding.Holds.reads_push {f : Folding} {t : Text} (h : f.Holds t) (c : Char) :
    (f.push c).Reads (t ++ [c]) c where
  holds := holds_push h c
  breaks := breaks_push f c
  out := by simp [push]
  blanks := .inl (blanks_push f c)

/-- One more character of a plain scalar. -/
theorem plain_cons {before c : Char} {t u : Text} {f : Folding} {p : Place}
    (h : GoesOn before (c :: u)) (hf : f.Reads t before) (hcolumn : 0 < p.column) (n : Nat)
    (rest : Text) :
    ∃ f', plain false n (c :: u ++ rest) p f = plain false n (u ++ rest) (p.after c) f' ∧
      f'.Reads (t ++ [c]) c := by
  by_cases hspace : c = ' '
  · subst hspace
    refine ⟨f.blank ' ', ?_, hf.blank⟩
    simp [plain, isBlank, hf.breaks]
  · have hblank : isBlank c = false := by
      rw [isBlank_eq_isSpace (h.printable c (.head _))]
      simpa [isSpace] using hspace
    have hbreak := h.unbroken c (.head _)
    have hcomment : (f.isFresh && c = '#') = false := by
      rw [Bool.and_eq_false_iff]
      by_cases hc : c = '#'
      · left
        have hmark := h.unmarked
        simp only [hasMark, hc, Bool.or_eq_false_iff] at hmark
        have hblanks : f.blanks = [] := by
          refine hf.blanks.resolve_right fun hbefore => ?_
          subst hbefore
          exact absurd hmark.1.2 (by decide)
        simp [Folding.isFresh, hblanks, hf.breaks, hf.out]
      · exact .inr (by simpa using hc)
    have hcolon : (c = ':' && endsWord (u ++ rest)) = false := by
      rw [Bool.and_eq_false_iff]
      by_cases hc : c = ':'
      · subst hc
        exact .inr (endsWord_append h.isSpaced rest)
      · exact .inl (by simpa using hc)
    refine ⟨f.push c, ?_, hf.holds.reads_push c⟩
    have hfresh : (f.isFresh && (c = '#' || (p.column = 0 && isDocumentMark (c :: (u ++ rest))) ||
        (f.breaks.isSome && !false && p.column < n))) = false := by
      have hzero : p.column ≠ 0 := by omega
      simpa [hf.breaks, hzero] using hcomment
    rw [List.cons_append, plain]
    simp only [hblank, hbreak, hfresh, hcolon, Bool.false_and, Bool.false_eq_true, if_false]

theorem plain_goesOn {before : Char} {u : Text} (h : GoesOn before u) {t : Text} {f : Folding}
    {p : Place} (hf : f.Reads t before) (hcolumn : 0 < p.column) (n : Nat) (rest : Text) :
    ∃ f' last, plain false n (u ++ rest) p f = plain false n rest (u.foldl Place.after p) f' ∧
      f'.Reads (t ++ u) last ∧ (before :: u).getLast? = some last := by
  induction u generalizing before t f p with
  | nil => exact ⟨f, before, rfl, by simpa using hf, rfl⟩
  | cons c u ih =>
    obtain ⟨f₁, hstep, hf₁⟩ := plain_cons h hf hcolumn n rest
    have hafter : 0 < (p.after c).column := by
      rw [Place.after_of_not_isBreak (h.unbroken c (.head _))]
      exact Nat.succ_pos _
    obtain ⟨f₂, last, hrest, hf₂, hlast⟩ := ih h.tail hf₁ hafter
    exact ⟨f₂, last, hstep.trans hrest, by simpa using hf₂, by simpa using hlast⟩

/-- A text that can be written without quotes, and is not taken for a mark of a document. -/
structure IsPlain (t : Text) : Prop where
  canBePlain : canBePlain t = true
  ne_nil : t ≠ []
  head : ∀ c ∈ t.head?, c ≠ '-' ∧ c ≠ '.'

section
variable {c : Char} {cs : Text}

theorem IsPlain.goesOn (h : IsPlain (c :: cs)) : GoesOn c cs := by
  have hplain := h.canBePlain
  simp only [Yaml.canBePlain, needsEscapes, Bool.and_eq_true, Bool.not_eq_true',
    Bool.or_eq_false_iff, List.any_eq_false, Bool.not_eq_true, Bool.not_eq_false] at hplain
  obtain ⟨⟨⟨⟨hprintable, -⟩, -⟩, hline⟩, -, hmark⟩ := hplain
  refine ⟨fun d hd => hprintable d (.tail _ hd), fun d hd => ?_, hmark⟩
  rw [← endsLine_eq_isBreak (hprintable d (.tail _ hd))]
  exact hline d (.tail _ hd)

/-- The first character of a plain scalar. -/
structure Starts (c : Char) (cs : Text) : Prop where
  solid : isBlank c = false ∧ isBreak c = false
  unmarked : isMark c cs = false
  head : c ≠ '-' ∧ c ≠ '.'

theorem IsPlain.starts (h : IsPlain (c :: cs)) : Starts c cs := by
  have hplain := h.canBePlain
  simp only [Yaml.canBePlain, needsEscapes, Bool.and_eq_true, Bool.not_eq_true',
    Bool.or_eq_false_iff, List.any_eq_false, Bool.not_eq_true, Bool.not_eq_false] at hplain
  obtain ⟨⟨⟨⟨hprintable, -⟩, -⟩, hline⟩, ⟨⟨hspace, -⟩, hmark⟩, -⟩ := hplain
  have hc := hprintable c (.head _)
  refine ⟨⟨?_, ?_⟩, hmark, h.head c rfl⟩
  · rw [isBlank_eq_isSpace hc, hspace]
  · rw [← endsLine_eq_isBreak hc]
    exact hline c (.head _)

/-- A colon or a question mark that starts a plain scalar does not stand alone. -/
theorem Starts.alone (h : Starts c cs) {d : Char} (hd : d = ':' ∨ d = '?') (rest : Text) :
    (c = d && endsWord (cs ++ rest)) = false := by
  rw [Bool.and_eq_false_iff]
  by_cases hc : c = d
  · have hmark := h.unmarked
    simp only [isMark, Bool.or_eq_false_iff] at hmark
    have hspaced : isSpaced cs = false := by
      cases hd with
      | inl hd => simpa [hc, hd] using hmark.2
      | inr hd => simpa [hc, hd] using hmark.2
    exact .inr (endsWord_append hspaced rest)
  · exact .inl (by simpa using hc)

theorem IsPlain.unbroken {t : Text} (h : IsPlain t) : ∀ c ∈ t, isBreak c = false := by
  obtain ⟨c, cs, rfl⟩ := List.exists_cons_of_ne_nil h.ne_nil
  exact List.forall_mem_cons.2 ⟨h.starts.solid.2, h.goesOn.unbroken⟩

/-- Neither a blank, a line end nor a comment stands first. -/
def Solid (t : Text) : Prop :=
  ∀ c ∈ t.head?, isBlank c = false ∧ isBreak c = false ∧ c ≠ '#'

theorem solid_cons (h : isBlank c = false ∧ isBreak c = false ∧ c ≠ '#') (t : Text) :
    Solid (c :: t) := by
  intro d hd
  obtain rfl := Option.some.inj hd
  exact h

theorem Starts.isSolid (h : Starts c cs) (t : Text) : Solid (c :: t) := by
  refine solid_cons ⟨h.solid.1, h.solid.2, fun heq => ?_⟩ t
  subst heq
  exact absurd h.unmarked (by simp [isMark])

theorem IsPlain.getLast? (h : IsPlain (c :: cs)) : (c :: cs).getLast? ≠ some ' ' := by
  have hplain := h.canBePlain
  simp only [Yaml.canBePlain, Bool.and_eq_true, bne_iff_ne] at hplain
  exact hplain.2.1.1.2

/-- Whether a string is written without quotes. -/
def isBare (t : Text) : Bool :=
  !t.contains '\n' && (!isAmbiguous t && canBePlain t)

theorem isPlain_of_isBare {t : Text} (h : isBare t = true) : IsPlain t := by
  simp only [isBare, Bool.and_eq_true, Bool.not_eq_true'] at h
  obtain ⟨-, hambiguous, hplain⟩ := h
  refine ⟨hplain, ?_, ?_⟩
  · rintro rfl
    cases hambiguous
  · intro c hc
    cases t with
    | nil => cases hc
    | cons d t =>
      obtain rfl := Option.some.inj hc
      simp only [isAmbiguous, Bool.or_eq_false_iff, decide_eq_false_iff_not] at hambiguous
      exact ⟨hambiguous.1.1.1.2, hambiguous.1.1.2⟩

theorem string_of_isBare {t : Text} (h : isBare t = true) (k : Nat) : string k t = t := by
  simp only [isBare, Bool.and_eq_true] at h
  rw [string, if_neg (by simpa using h.1), if_pos (by simpa using h.2)]

/-- Whether a character has no meaning in a plain scalar, wherever it stands. -/
def isDull (c : Char) : Bool :=
  isPrintable c && !isSpace c && !endsLine c && !isMark c [] && c != '.'

theorem hasPair_of_forall {p q : Char → Bool} {t : Text} (h : ∀ c ∈ t, p c = false) :
    hasPair p q t = false := by
  induction t with
  | nil => rfl
  | cons a t ih =>
    obtain ⟨ha, ht⟩ := List.forall_mem_cons.1 h
    cases t with
    | nil => rfl
    | cons b t => rw [hasPair, ha, ih ht]; rfl

theorem hasMark_of_forall {t : Text} (h : ∀ c ∈ t, isMark c [] = false) (before : Char) :
    hasMark before t = false := by
  induction t generalizing before with
  | nil => rfl
  | cons c t ih =>
    obtain ⟨hc, ht⟩ := List.forall_mem_cons.1 h
    have hcolon : c ≠ ':' := by
      rintro rfl
      cases hc
    have hcomment : c ≠ '#' := by
      rintro rfl
      cases hc
    simp [hasMark, hcolon, hcomment, ih ht]

theorem isPlain_of_isDull {t : Text} (hne : t ≠ []) (h : t.all isDull = true) : IsPlain t := by
  simp only [List.all_eq_true, isDull, Bool.and_eq_true, Bool.not_eq_true', bne_iff_ne] at h
  obtain ⟨c, cs, rfl⟩ := List.exists_cons_of_ne_nil hne
  obtain ⟨⟨⟨⟨-, hspace⟩, -⟩, hmark⟩, hdot⟩ := h c (.head _)
  have hdash : c ≠ '-' := by
    rintro rfl
    cases hmark
  have hescapes : needsEscapes (c :: cs) = false := by
    rw [needsEscapes, hasPair_of_forall fun d hd => (h d hd).1.1.1.2, Bool.or_false,
      List.any_eq_false]
    exact fun d hd => by simp [(h d hd).1.1.1.1]
  have hends : (c :: cs).any endsLine = false := by
    rw [List.any_eq_false]
    exact fun d hd => by simp [(h d hd).1.1.2]
  have hlast : (c :: cs).getLast? ≠ some ' ' := fun hd =>
    absurd (h ' ' (List.mem_of_getLast? hd)).1.1.1.2 (by decide)
  have hfirst : isMark c cs = false := by
    simp only [isMark, isSpaced, Bool.and_true, Bool.or_eq_false_iff] at hmark
    simp only [isMark, hmark, Bool.or_false, Bool.false_and]
  have hstart : startsAsMark (c :: cs) = false := by
    have hdash' : ('-' == c) = false := by simpa using Ne.symm hdash
    have hdot' : ('.' == c) = false := by simpa using Ne.symm hdot
    simp [startsAsMark, List.isPrefixOf_cons_cons, hdash', hdot']
  refine ⟨?_, hne, fun d hd => ?_⟩
  · have hmarks : hasMark c cs = false :=
      hasMark_of_forall (fun d hd => (h d (.tail _ hd)).1.2) c
    simp [canBePlain, hescapes, hstart, hends, hspace, hlast, hfirst, hmarks]
  · obtain rfl := Option.some.inj hd
    exact ⟨hdash, hdot⟩

theorem isDocumentMark_of_ne {c : Char} (h : c ≠ '-' ∧ c ≠ '.') (t : Text) :
    isDocumentMark (c :: t) = false := by
  unfold isDocumentMark
  split
  · rename_i heq
    obtain ⟨rfl, -⟩ := List.cons.inj heq
    simp [h]
  · rfl

/-- A plain scalar is read up to its end. -/
theorem plain_append {t : Text} (h : IsPlain t) (n : Nat) (rest : Text) (p : Place) :
    ∃ f, plain false n (t ++ rest) p .empty = plain false n rest (t.foldl Place.after p) f ∧
      f.out = t.reverse ∧ f.blanks = [] ∧ f.breaks = none := by
  obtain ⟨c, cs, rfl⟩ := List.exists_cons_of_ne_nil h.ne_nil
  have hstart := h.starts
  have hcomment : c ≠ '#' := by
    intro hc
    subst hc
    exact absurd hstart.unmarked (by simp [isMark])
  have hfirst : plain false n (c :: cs ++ rest) p .empty =
      plain false n (cs ++ rest) (p.after c) (Folding.empty.push c) := by
    rw [List.cons_append, plain]
    simp only [hstart.solid.1, hstart.solid.2, isDocumentMark_of_ne hstart.head,
      hstart.alone (.inl rfl), hcomment, Folding.empty, decide_false, Bool.and_false,
      Bool.or_false, Bool.false_eq_true, if_false, Option.isSome_none, Bool.false_and]
  have hcolumn : 0 < (p.after c).column := by
    rw [Place.after_of_not_isBreak hstart.solid.2]
    exact Nat.succ_pos _
  obtain ⟨f, last, hrest, hf, hlast⟩ :=
    plain_goesOn h.goesOn (Folding.holds_empty.reads_push c) hcolumn n rest
  have hblanks : f.blanks = [] :=
    hf.blanks.resolve_right fun hspace => h.getLast? (hspace ▸ hlast)
  exact ⟨f, hfirst.trans hrest, Folding.out_of_holds hf.holds hf.breaks hblanks, hblanks, hf.breaks⟩

end

section
variable {f : Folding} {n : Nat}

theorem plain_replicate (h : f.breaks.isSome = true) (k : Nat) (t : Text) (p : Place) :
    plain false n (List.replicate k ' ' ++ t) p f =
      plain false n t ((List.replicate k ' ').foldl Place.after p) f := by
  induction k generalizing p with
  | zero => rfl
  | succ k ih =>
    have hspace : isBlank ' ' = true := rfl
    rw [List.replicate_succ, List.cons_append, plain, if_pos hspace, if_neg (by simp),
      Folding.blank_of_breaks h, ih, List.foldl_cons]

/-- A line that is not indented far enough ends a plain scalar. -/
theorem plain_stop (h : f.breaks.isSome = true) {t : Text} (ht : Solid t) {p : Place}
    (hcolumn : p.column < n) : plain false n t p f = some (f, t, p) := by
  cases t with
  | nil => rfl
  | cons c t =>
    obtain ⟨hblank, hbreak, -⟩ := ht c rfl
    have hfresh : f.isFresh = true := by simp [Folding.isFresh, h]
    rw [plain]
    simp [hblank, hbreak, hfresh, h, hcolumn]

theorem plain_lineEnd (h : f.breaks = none) {t : Text} (ht : Solid t) {k : Nat} (hk : k < n)
    (p : Place) :
    plain false n ('\n' :: (List.replicate k ' ' ++ t)) p f =
      some (f.lineBreak '\n', t, ⟨p.line + 1, k, p.index + 1 + k⟩) := by
  have hbreak : isBreak '\n' = true := rfl
  have hbreaks : (f.lineBreak '\n').breaks.isSome = true := by simp [Folding.lineBreak, h]
  have hplace : (List.replicate k ' ').foldl Place.after (p.after '\n') =
      { line := p.line + 1, column := k, index := p.index + 1 + k } := by
    rw [Place.foldl_after_replicate, Place.after_of_isBreak hbreak]
    simp
  rw [plain, if_neg (by decide), if_pos hbreak, plain_replicate hbreaks, hplace,
    plain_stop hbreaks ht hk]

/-- A colon at the end of a word ends a plain scalar. -/
theorem plain_colon (hout : f.out ≠ []) (hblanks : f.blanks = []) (hbreaks : f.breaks = none)
    {t : Text} (ht : endsWord t = true) (p : Place) :
    plain false n (':' :: t) p f = some (f, ':' :: t, p) := by
  have hfresh : f.isFresh = false := by simp [Folding.isFresh, hout, hblanks, hbreaks]
  rw [plain, if_neg (by decide), if_neg (by decide)]
  simp [hfresh, ht]

end

/-! ## Single quotes -/

namespace Folding

/-- A quoted scalar that is being read; `fresh` tells that a line has just ended. -/
structure Inside (f : Folding) (t : Text) (fresh : Bool) : Prop where
  holds : f.Holds t
  breaks : f.breaks.isSome = fresh
  kept : ∀ x ∈ f.breaks, x.1 ≠ ['\n']

theorem inside_empty : empty.Inside [] false :=
  ⟨holds_empty, rfl, by simp [empty]⟩

theorem Inside.push {f : Folding} {t : Text} {fresh : Bool} (h : f.Inside t fresh) (c : Char) :
    (f.push c).Inside (t ++ [c]) false :=
  ⟨holds_push h.holds c, by simp, by simp⟩

theorem Inside.breaks_eq_none {f : Folding} {t : Text} (h : f.Inside t false) :
    f.breaks = none := by
  simpa using h.breaks

theorem Inside.blank {f : Folding} {t : Text} (h : f.Inside t false) (c : Char) :
    (f.blank c).Inside (t ++ [c]) false := by
  have hbreaks := breaks_blank h.breaks_eq_none c
  exact ⟨holds_blank h.holds h.breaks_eq_none c, by simp [hbreaks], by simp [hbreaks]⟩

/-- A line end other than a line feed is kept. -/
theorem Inside.lineBreak {f : Folding} {t : Text} {fresh : Bool} (h : f.Inside t fresh)
    (hblanks : fresh = false → f.blanks = []) {c : Char} (hc : c ≠ '\n') :
    (f.lineBreak c).Inside (t ++ [c]) true := by
  have hholds := h.holds
  cases hbreaks : f.breaks with
  | none =>
    have hnil : f.blanks = [] := hblanks (by rw [← h.breaks, hbreaks]; rfl)
    simp only [Holds, settle, hbreaks, hnil, List.nil_append] at hholds
    refine ⟨?_, by simp [Folding.lineBreak, hbreaks], by simp [Folding.lineBreak, hbreaks, hc]⟩
    simp [Holds, settle, Folding.lineBreak, hbreaks, hc, hholds]
  | some x =>
    obtain ⟨first, more⟩ := x
    have hfirst : first ≠ ['\n'] := h.kept _ hbreaks
    simp only [Holds, settle, hbreaks, beq_eq_false_iff_ne.2 hfirst, Bool.false_eq_true, if_false]
      at hholds
    refine ⟨?_, by simp [Folding.lineBreak, hbreaks],
      by simpa [Folding.lineBreak, hbreaks] using hfirst⟩
    simp [Holds, settle, Folding.lineBreak, hbreaks, hfirst, ← hholds]

theorem text_settle {f : Folding} {t : Text} (h : f.Holds t) : f.settle.text = String.ofList t := by
  rw [text, h, List.reverse_reverse]

end Folding

section
variable {f : Folding} {p : Place}

/-- The next character between quotes, if it is no escape. -/
theorem quoted_zero {double : Bool} {c : Char} (h : (double && c = '\\') = false) (t : Text) :
    quoted double 0 (c :: t) p f =
      if isBlank c then quoted double 0 t (p.after c) (f.blank c)
      else if isBreak c then quoted double 0 t (p.after c) (f.lineBreak c)
      else if p.column = 0 && isDocumentMark (c :: t) then none
      else if c = (if double then '"' else '\'') then
        if !double && t.head? == some '\'' then quoted double 1 t (p.after c) (f.push '\'')
        else some (f.settle.text, t, p.after c)
      else quoted double 0 t (p.after c) (f.push c) := by
  rw [quoted.eq_def]
  simp only [h, Bool.false_eq_true, if_false]

/-- A character that has no meaning of its own between quotes. -/
theorem quoted_char {double : Bool} {c : Char} (hblank : isBlank c = false)
    (hbreak : isBreak c = false) (hcolumn : 0 < p.column) (hescape : (double && c = '\\') = false)
    (hquote : c ≠ if double then '"' else '\'') (t : Text) :
    quoted double 0 (c :: t) p f = quoted double 0 t (p.after c) (f.push c) := by
  have hzero : (decide (p.column = 0) && isDocumentMark (c :: t)) = false := by
    have : p.column ≠ 0 := by omega
    simp [this]
  rw [quoted_zero hescape]
  simp only [hblank, hbreak, hzero, hquote, Bool.false_eq_true, if_false]

theorem quoted_blank {double : Bool} (t : Text) :
    quoted double 0 (' ' :: t) p f = quoted double 0 t (p.after ' ') (f.blank ' ') := by
  rw [quoted_zero (by simp), if_pos (by decide)]

theorem quoted_apostrophe (t : Text) :
    quoted false 0 ('\'' :: '\'' :: t) p f =
      quoted false 0 t ((p.after '\'').after '\'') (f.push '\'') := by
  rw [quoted_zero (by simp), if_neg (by decide), if_neg (by decide),
    isDocumentMark_of_ne (by decide)]
  simp [quoted]

theorem quoted_close {t : Text} (h : t.head? ≠ some '\'') :
    quoted false 0 ('\'' :: t) p f = some (f.settle.text, t, p.after '\'') := by
  rw [quoted_zero (by simp), if_neg (by decide), if_neg (by decide),
    isDocumentMark_of_ne (by decide)]
  simp [h]

/-- The blanks at the start of a line are passed over. -/
theorem quoted_margin {t : Text} {fresh : Bool} (hf : f.Inside t fresh) (k : Nat) (rest : Text)
    (p : Place) :
    quoted false 0 (margin k fresh ++ rest) p f =
      quoted false 0 rest ((margin k fresh).foldl Place.after p) f := by
  cases fresh with
  | false => rfl
  | true =>
    show quoted false 0 (List.replicate k ' ' ++ rest) p f = _
    induction k generalizing p with
    | zero => rfl
    | succ k ih =>
      rw [List.replicate_succ, List.cons_append, quoted_blank,
        Folding.blank_of_breaks hf.breaks, ih]
      rfl

/-- The rest of a text in single quotes after a character: no space touches a line end. -/
structure Fits (before : Char) (t : Text) : Prop where
  printable : ∀ c ∈ t, isPrintable c = true
  feedless : '\n' ∉ t
  noSpaceBefore : hasPair isSpace endsLine (before :: t) = false
  noSpaceAfter : hasPair endsLine isSpace (before :: t) = false

theorem Fits.tail {before c : Char} {t : Text} (h : Fits before (c :: t)) : Fits c t where
  printable d hd := h.printable d (.tail _ hd)
  feedless hd := h.feedless (.tail _ hd)
  noSpaceBefore := (Bool.or_eq_false_iff.1 h.noSpaceBefore).2
  noSpaceAfter := (Bool.or_eq_false_iff.1 h.noSpaceAfter).2

theorem Fits.ne_space_of_isBreak {before c : Char} {t : Text} (h : Fits before (c :: t))
    (hc : isBreak c = true) : before ≠ ' ' := by
  intro hspace
  have hpair := (Bool.or_eq_false_iff.1 h.noSpaceBefore).1
  simp [hspace, isSpace, endsLine, hc] at hpair

theorem Fits.ne_space_of_isBreak_before {before c : Char} {t : Text} (h : Fits before (c :: t))
    (hbefore : isBreak before = true) : c ≠ ' ' := by
  intro hspace
  have hpair := (Bool.or_eq_false_iff.1 h.noSpaceAfter).1
  simp [hspace, isSpace, endsLine, hbefore] at hpair

/-- Where the next character of a text in single quotes stands. -/
structure Follows (before : Char) (fresh : Bool) (f : Folding) (p : Place) : Prop where
  isBreak : fresh = true → isBreak before = true
  blanks : fresh = false → f.blanks = [] ∨ before = ' '
  column : fresh = false → 0 < p.column

theorem column_margin {before : Char} {fresh : Bool} (h : Follows before fresh f p) {k : Nat}
    (hk : 0 < k) : 0 < ((margin k fresh).foldl Place.after p).column := by
  cases fresh with
  | false => exact h.column rfl
  | true =>
    show 0 < ((List.replicate k ' ').foldl Place.after p).column
    rw [Place.foldl_after_replicate]
    show 0 < p.column + k
    omega

theorem quoted_singleText {k : Nat} (hk : 0 < k) {rest : Text} (hrest : rest.head? ≠ some '\'')
    {u : Text} {before : Char} (h : Fits before u) {t : Text} {fresh : Bool}
    (hf : f.Inside t fresh) (hfollows : Follows before fresh f p) :
    quoted false 0 (singleText k fresh u ++ '\'' :: rest) p f =
      some (String.ofList (t ++ u), rest,
        (singleText k fresh u ++ ['\'']).foldl Place.after p) := by
  induction u generalizing before t fresh f p with
  | nil =>
    rw [singleText, quoted_margin hf, quoted_close hrest, Folding.text_settle hf.holds,
      List.append_nil, List.foldl_append]
    rfl
  | cons c u ih =>
    have hc := h.printable c (.head _)
    by_cases hbreak : isBreak c = true
    · have hfeed : c ≠ '\n' := fun heq => h.feedless (heq ▸ .head _)
      have hblanks : fresh = false → f.blanks = [] := fun hfresh =>
        (hfollows.blanks hfresh).resolve_right (h.ne_space_of_isBreak hbreak)
      have hnext : Follows c true (f.lineBreak c) (p.after c) :=
        ⟨fun _ => hbreak, by simp, by simp⟩
      rw [singleText, if_pos hbreak, List.cons_append, quoted_zero (by simp),
        isBlank_of_isBreak hbreak, if_neg Bool.false_ne_true, if_pos hbreak,
        ih h.tail (hf.lineBreak hblanks hfeed) hnext]
      simp
    · rw [Bool.not_eq_true] at hbreak
      -- The margin is passed over; behind it no line starts.
      have hcolumn := column_margin hfollows hk
      have hafter : 0 < (((margin k fresh).foldl Place.after p).after c).column := by
        rw [Place.after_of_not_isBreak hbreak]
        exact Nat.succ_pos _
      rw [singleText, hbreak, if_neg Bool.false_ne_true, List.append_assoc, List.append_assoc,
        quoted_margin hf]
      by_cases hspace : c = ' '
      · subst hspace
        have hfresh : fresh = false := by
          cases fresh with
          | false => rfl
          | true => exact absurd rfl (h.ne_space_of_isBreak_before (hfollows.isBreak rfl))
        subst hfresh
        rw [if_neg (by decide), List.singleton_append, quoted_blank,
          ih h.tail (hf.blank ' ') ⟨by simp, fun _ => .inr rfl, fun _ => hafter⟩]
        simp
      · have hblank : isBlank c = false := by
          rw [isBlank_eq_isSpace hc]
          simpa [isSpace] using hspace
        have hnext : ∀ q : Place, 0 < q.column → Follows c false (f.push c) q := fun q hq =>
          ⟨by simp, fun _ => .inl (Folding.blanks_push f c), fun _ => hq⟩
        by_cases hquote : c = '\''
        · subst hquote
          rw [if_pos rfl, List.cons_append, List.singleton_append, quoted_apostrophe,
            ih h.tail (hf.push _) (hnext _ (by
              rw [Place.after_of_not_isBreak (by decide)]
              exact Nat.succ_pos _))]
          simp
        · rw [if_neg hquote, List.singleton_append,
            quoted_char hblank hbreak hcolumn (by simp) (by simpa using hquote),
            ih h.tail (hf.push c) (hnext _ hafter)]
          simp

theorem hasPair_cons_of_false {q r : Char → Bool} {c : Char} (h : q c = false) (t : Text) :
    hasPair q r (c :: t) = hasPair q r t := by
  cases t with
  | nil => rfl
  | cons d t => simp [hasPair, h]

theorem fits_of_canBeSingle {t : Text} (h : canBeSingle t = true) (hfeed : '\n' ∉ t) :
    Fits '\'' t := by
  simp only [canBeSingle, needsEscapes, Bool.and_eq_true, Bool.not_eq_true', Bool.or_eq_false_iff,
    List.any_eq_false, Bool.not_eq_false] at h
  refine ⟨h.1.1, hfeed, ?_, ?_⟩
  · rw [hasPair_cons_of_false (by decide)]
    exact h.1.2
  · rw [hasPair_cons_of_false (by decide)]
    exact h.2

/-- A text in single quotes is read back. -/
theorem quoted_single {t : Text} (h : canBeSingle t = true) (hfeed : '\n' ∉ t) {k : Nat}
    (hk : 0 < k) {rest : Text} (hrest : rest.head? ≠ some '\'') (hcolumn : 0 < p.column) :
    quoted false 0 (singleText k false t ++ '\'' :: rest) p .empty =
      some (String.ofList t, rest, (singleText k false t ++ ['\'']).foldl Place.after p) :=
  quoted_singleText hk hrest (fits_of_canBeSingle h hfeed) Folding.inside_empty
    ⟨by simp, fun _ => .inl rfl, fun _ => hcolumn⟩

end

/-! ## Double quotes -/

theorem hexDigit?_upperDigit (n : Nat) : hexDigit? (upperDigit n) = some (n % 16) := by
  have hdigit : ∀ d < 16, hexDigit? (Nat.digitChar d).toUpper = some d := by decide
  exact hdigit (n % 16) (Nat.mod_lt _ (by decide))

theorem hexNumber?_upperHex (k : Nat) (n j acc : Nat) (t : Text) :
    hexNumber? (k + j) acc (upperHex k n ++ t) =
      hexNumber? j (16 ^ k * acc + n % 16 ^ k) t := by
  induction k generalizing n j t with
  | zero => simp [upperHex, Nat.mod_one]
  | succ k ih =>
    have hvalue : 16 * (16 ^ k * acc + n / 16 % 16 ^ k) + n % 16 =
        16 ^ (k + 1) * acc + n % 16 ^ (k + 1) := by
      rw [Nat.pow_succ', Nat.mod_mul, Nat.mul_add, Nat.mul_assoc]
      omega
    rw [upperHex, List.append_assoc, List.singleton_append, Nat.add_assoc, Nat.add_comm 1 j, ih,
      hexNumber?, hexDigit?_upperDigit, ← hvalue]
    rfl

theorem length_upperHex (k n : Nat) : (upperHex k n).length = k := by
  induction k generalizing n with
  | zero => rfl
  | succ k ih => simp [upperHex, ih]

theorem codePoint?_toNat (c : Char) : codePoint? c.toNat = some c := by
  have hvalid : c.toNat < 0xD800 ∨ 0xDFFF < c.toNat ∧ c.toNat < 0x110000 := c.valid
  unfold codePoint?
  rw [if_pos, Char.ofNat_toNat]
  simp only [Bool.or_eq_true, Bool.and_eq_true, decide_eq_true_eq]
  omega

section
variable {f : Folding} {p : Place}

theorem quoted_skip (double : Bool) (u t : Text) :
    quoted double u.length (u ++ t) p f = quoted double 0 t (u.foldl Place.after p) f := by
  induction u generalizing p with
  | nil => rfl
  | cons c u ih => rw [List.cons_append, List.length_cons, quoted, ih, List.foldl_cons]

/-- An escape and the character that it stands for. -/
theorem quoted_escape {d c : Char} {u t : Text} (hbreak : isBreak d = false)
    (hcolumn : 0 < p.column) (h : escape? d (u ++ t) = some (c, u.length + 1)) :
    quoted true 0 ('\\' :: d :: u ++ t) p f =
      quoted true 0 t (('\\' :: d :: u).foldl Place.after p) (f.push c) := by
  have hzero : p.column ≠ 0 := by omega
  have hskip := quoted_skip (p := p.after '\\') (f := f.push c) true (d :: u) t
  rw [List.cons_append, List.cons_append, quoted.eq_def]
  rw [List.cons_append, List.length_cons] at hskip
  have hbackslash : isBlank '\\' = false ∧ isBreak '\\' = false := by decide
  simp [hbackslash, hzero, hbreak, h, hskip]

theorem quoted_quote (t : Text) :
    quoted true 0 ('"' :: t) p f = some (f.settle.text, t, p.after '"') := by
  rw [quoted_zero (by decide), if_neg (by decide), if_neg (by decide),
    isDocumentMark_of_ne (by decide)]
  simp

end

/-- A character that stands in a line as it is. -/
def InLine (c : Char) : Prop :=
  isPrintable c = true ∧ isBreak c = false

instance : DecidablePred InLine :=
  fun _ => inferInstanceAs (Decidable (_ ∧ _))

theorem inLine_upperDigit (n : Nat) : InLine (upperDigit n) := by
  have hdigit : ∀ d < 16, InLine (Nat.digitChar d).toUpper := by decide
  exact hdigit (n % 16) (Nat.mod_lt _ (by decide))

theorem inLine_of_mem_upperHex {k n : Nat} {c : Char} (h : c ∈ upperHex k n) : InLine c := by
  induction k generalizing n with
  | zero => cases h
  | succ k ih =>
    cases List.mem_append.1 h with
    | inl h => exact ih h
    | inr h =>
      rw [List.mem_singleton.1 h]
      exact inLine_upperDigit n

/-- How a character is written in double quotes: as it is, or by an escape that stands for it. -/
inductive Doubled (c : Char) : Text → Prop
  | raw (hline : InLine c) (hmark : c ≠ '"' ∧ c ≠ '\\') : Doubled c [c]
  | escape {d : Char} {u : Text} (hline : ∀ x ∈ d :: u, InLine x)
    (hread : ∀ t, escape? d (u ++ t) = some (c, u.length + 1)) : Doubled c ('\\' :: d :: u)

theorem doubled_of_lookup {c d : Char} (h : writtenEscapes.lookup c.toNat = some d) :
    Doubled c ['\\', d] := by
  have htable : ∀ x ∈ writtenEscapes, escapes.lookup x.2 = some x.1 ∧ InLine x.2 := by decide
  obtain ⟨l₁, l₂, heq, -⟩ := List.lookup_eq_some_iff.1 h
  obtain ⟨hread, hline⟩ := htable (c.toNat, d) (by rw [heq]; simp)
  refine .escape (by simpa using hline) fun t => ?_
  simp [escape?, hread, Char.ofNat_toNat]

theorem doubled_upperHex {c d : Char} {k : Nat} (hd : escapes.lookup d = none)
    (hk : hexLength? d = some k) (hline : InLine d) (hc : c.toNat < 16 ^ k) :
    Doubled c ('\\' :: d :: upperHex k c.toNat) := by
  refine .escape (List.forall_mem_cons.2 ⟨hline, fun x => inLine_of_mem_upperHex⟩) fun t => ?_
  have hnumber := hexNumber?_upperHex k c.toNat 0 0 t
  rw [Nat.add_zero, Nat.mul_zero, Nat.zero_add, Nat.mod_eq_of_lt hc] at hnumber
  simp [escape?, hd, hk, hnumber, hexNumber?, codePoint?_toNat, length_upperHex]

theorem doubled_doubleChar (c : Char) : Doubled c (doubleChar c) := by
  unfold doubleChar
  dsimp only
  split
  · rename_i d hlookup
    exact doubled_of_lookup hlookup
  · rename_i hlookup
    split
    · rename_i hprintable
      -- The characters with a letter of their own are left out here.
      have hne : ∀ d : Char, (writtenEscapes.lookup d.toNat).isSome = true → c ≠ d := by
        intro d hd heq
        rw [heq] at hlookup
        simp [hlookup] at hd
      have hbreak : isBreak c = false := by
        have hfeed := hne '\n' (by decide)
        have hline := toNat_ne (hne (Char.ofNat 0x2028) (by decide))
        have hparagraph := toNat_ne (hne (Char.ofNat 0x2029) (by decide))
        simp only [isBreak, Bool.or_eq_false_iff, decide_eq_false_iff_not]
        exact ⟨⟨hfeed, hline⟩, hparagraph⟩
      exact .raw ⟨hprintable, hbreak⟩ ⟨hne '"' (by decide), hne '\\' (by decide)⟩
    · have hbound : c.toNat < 0x110000 := by
        have hvalid : c.toNat < 0xD800 ∨ 0xDFFF < c.toNat ∧ c.toNat < 0x110000 := c.valid
        omega
      split
      · exact doubled_upperHex (by decide) (by decide) (by decide) (by omega)
      · split
        · exact doubled_upperHex (by decide) (by decide) (by decide) (by omega)
        · exact doubled_upperHex (by decide) (by decide) (by decide) (by omega)

theorem inLine_of_mem_doubleChar {c x : Char} (h : x ∈ doubleChar c) : InLine x := by
  generalize hw : doubleChar c = w at h
  have hdoubled := hw ▸ doubled_doubleChar c
  cases hdoubled with
  | raw hline _ =>
    rw [List.mem_singleton.1 h]
    exact hline
  | escape hline _ =>
    cases h with
    | head => decide
    | tail _ h => exact hline x h

section
variable {f : Folding} {p : Place}

/-- One character in double quotes. -/
theorem quoted_doubleChar {t : Text} (hf : f.Inside t false) (hcolumn : 0 < p.column) (c : Char)
    (rest : Text) :
    ∃ f', quoted true 0 (doubleChar c ++ rest) p f =
        quoted true 0 rest ((doubleChar c).foldl Place.after p) f' ∧
      f'.Inside (t ++ [c]) false := by
  generalize hw : doubleChar c = w
  have hdoubled := hw ▸ doubled_doubleChar c
  cases hdoubled with
  | raw hline hmark =>
    by_cases hspace : c = ' '
    · subst hspace
      exact ⟨_, quoted_blank rest, hf.blank ' '⟩
    · have hblank : isBlank c = false := by
        rw [isBlank_eq_isSpace hline.1]
        simpa [isSpace] using hspace
      exact ⟨_, quoted_char hblank hline.2 hcolumn (by simpa using hmark.2)
        (by simpa using hmark.1) rest, hf.push c⟩
  | escape hline hread =>
    exact ⟨_, quoted_escape (hline _ (.head _)).2 hcolumn (hread rest), hf.push c⟩

/-- A text in double quotes is read back. -/
theorem quoted_flatMap_doubleChar {u t : Text} (hf : f.Inside t false) (hcolumn : 0 < p.column)
    (rest : Text) :
    quoted true 0 (u.flatMap doubleChar ++ '"' :: rest) p f =
      some (String.ofList (t ++ u), rest, (u.flatMap doubleChar ++ ['"']).foldl Place.after p) := by
  induction u generalizing t f p with
  | nil =>
    rw [List.flatMap_nil, List.nil_append, quoted_quote, Folding.text_settle hf.holds,
      List.append_nil]
    rfl
  | cons c u ih =>
    have hunbroken : ∀ x ∈ doubleChar c, isBreak x = false := fun x hx =>
      (inLine_of_mem_doubleChar hx).2
    have hafter : 0 < ((doubleChar c).foldl Place.after p).column := by
      rw [Place.foldl_after hunbroken]
      exact Nat.lt_of_lt_of_le hcolumn (Nat.le_add_right ..)
    obtain ⟨f', hstep, hf'⟩ := quoted_doubleChar hf hcolumn c (u.flatMap doubleChar ++ '"' :: rest)
    rw [List.flatMap_cons, List.append_assoc, hstep, ih hf' hafter]
    simp

end

end ParamTwin.Yaml
