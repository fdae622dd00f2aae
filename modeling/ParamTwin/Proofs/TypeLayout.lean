import ParamTwin.Proofs.TextLines
import ParamTwin.TypeName

/-!
# The layout of a type's text

A type is written as a sequence of pieces: paths of names, each perhaps with `global::` before it,
and marks. The pieces fall into lexemes, and a text lays them out with blanks of its own choice
around every lexeme.

* `squeeze_of_laysOut`: normalising the blanks leaves of a layout only the lexemes themselves.
* `erase_joined`: deleting `global::` takes it from every path, and nothing else.
* `tokens_joined`: a path is read as one token, and a mark as a token for each character.

Together they say that the tokens read from a text depend on its pieces only, not on the layout and
not on `global::`.
-/

namespace ParamTwin.TypeName

open Text

/-! ## Pieces -/

/-- A name in a type: one or more name characters. -/
structure Name where
  text : Text
  ne_nil : text ≠ []
  chars : ∀ c ∈ text, isNameChar c = true

/-- One or more names, with dots between them. -/
structure Path where
  first : Name
  more : List Name

def Path.text (p : Path) : Text :=
  p.first.text ++ p.more.flatMap fun n => '.' :: n.text

/-- The punctuation of types. The dot after a generic type belongs to the bracket before it, as all
other dots belong to paths. -/
inductive Mark where
  | openArguments | closeArguments | closeOuter
  | openArray | closeArray | openTuple | closeTuple | comma | question

def Mark.chars : Mark → List Char
  | .openArguments => ['<']
  | .closeArguments => ['>']
  | .closeOuter => ['>', '.']
  | .openArray => ['[']
  | .closeArray => [']']
  | .openTuple => ['(']
  | .closeTuple => [')']
  | .comma => [',']
  | .question => ['?']

/-- A mark as it is shown: a comma with a blank after it. -/
def Mark.text : Mark → Text
  | .comma => [',', ' ']
  | m => m.chars

inductive Piece where
  | path (rooted : Bool) (p : Path)
  | mark (m : Mark)

namespace Piece

def isPath : Piece → Bool
  | path .. => true
  | mark _ => false

/-- What blanks may part: names, dots, the two parts of `global::`, and the characters of marks. -/
def lexemes : Piece → List Text
  | path rooted p =>
    (if rooted then ["global".toList, "::".toList] else []) ++
      p.first.text :: p.more.flatMap fun n => [['.'], n.text]
  | mark m => m.chars.map fun c => [c]

def text : Piece → Text
  | path rooted p => (if rooted then "global::".toList else []) ++ p.text
  | mark m => m.text

/-- The piece without `global::`. -/
def unrooted : Piece → Piece
  | path _ p => path false p
  | mark m => mark m

def tokens : Piece → List Token
  | path _ p => [.path p.text]
  | mark m => m.text.map .mark

@[simp] theorem isPath_unrooted (q : Piece) : q.unrooted.isPath = q.isPath := by
  cases q <;> rfl

end Piece

/-! ## Layouts -/

def startsName (w : Text) : Bool :=
  w.head?.any isNameChar

def endsName (w : Text) : Bool :=
  w.getLast?.any isNameChar

/-- Whether the first parts are blanks that may stand before the second parts: at least one has to
part two name characters. `after` tells whether a name character stands before the first. -/
def spaced (after : Bool) : List (Text × Text) → Bool
  | [] => true
  | (gap, w) :: rest =>
    gap.all isBlank && !(gap.isEmpty && after && startsName w) && spaced (endsName w) rest

/-- A text consists of the given lexemes, with blanks around them. -/
def LaysOut (t : Text) (ws : List Text) : Prop :=
  ∃ (items : List (Text × Text)) (tail : Text), spaced false items = true ∧
    tail.all isBlank = true ∧ items.map (·.2) = ws ∧ t = items.flatMap (fun i => i.1 ++ i.2) ++ tail

/-- A run of characters that the normalisation of blanks leaves together. -/
structure IsLexeme (w : Text) : Prop where
  ne_nil : w ≠ []
  solid : ∀ c ∈ w, isBlank c = false
  comma : ',' ∈ w → w = [',']

/-! ## Characters -/

/-- The characters that are neither blanks nor name characters, and the blank that is written. -/
def punctuation : List Char :=
  ['<', '>', '(', ')', '[', ']', ',', '?', '.', ':', ' ']

theorem isNameChar_punctuation : ∀ c ∈ punctuation, isNameChar c = false := by
  have h : (punctuation.all fun c => !isNameChar c) = true := by decide +kernel
  simpa using List.all_eq_true.1 h

theorem isBlank_of_isNameChar {c : Char} (h : isNameChar c = true) : isBlank c = false := by
  by_contra hc
  simp only [Bool.not_eq_false] at hc
  simp only [isNameChar, isLetterOrNumber_of_isBlank hc, Bool.false_or, Bool.or_eq_true,
    beq_iff_eq] at h
  rcases h with rfl | rfl
  · exact absurd hc (by decide)
  · exact absurd hc (by decide)

theorem ne_of_isNameChar {c d : Char} (h : isNameChar c = true) (hd : d ∈ punctuation) :
    c ≠ d := by
  intro heq
  rw [heq, isNameChar_punctuation d hd] at h
  cases h

@[simp] theorem startsName_singleton (c : Char) : startsName [c] = isNameChar c := rfl

@[simp] theorem endsName_singleton (c : Char) : endsName [c] = isNameChar c := rfl

theorem Mark.mem_punctuation (m : Mark) : ∀ c ∈ m.text, c ∈ punctuation ∧ c ≠ ':' := by
  cases m <;> simp [text, chars, punctuation]

theorem Mark.text_eq_cons (m : Mark) : ∃ c w, m.text = c :: w ∧ c ≠ '.' := by
  cases m <;> exact ⟨_, _, rfl, by decide⟩

theorem Mark.isLexeme (m : Mark) : ∀ c ∈ m.chars, IsLexeme [c] := by
  have hblank : (m.chars.all fun c => !isBlank c) = true := by cases m <;> decide
  intro c hc
  refine ⟨by simp, ?_, ?_⟩
  · simpa using List.all_eq_true.1 hblank c hc
  · simp [eq_comm]

namespace Name

variable (n : Name)

theorem startsName_text : startsName n.text = true := by
  obtain ⟨c, w, hw⟩ := List.exists_cons_of_ne_nil n.ne_nil
  rw [startsName, hw]
  exact n.chars c (by simp [hw])

theorem endsName_text : endsName n.text = true := by
  rw [endsName, List.getLast?_eq_some_getLast n.ne_nil]
  exact n.chars _ (List.getLast_mem n.ne_nil)

theorem not_mem_text {d : Char} (hd : d ∈ punctuation) : d ∉ n.text :=
  fun h => ne_of_isNameChar (n.chars d h) hd rfl

theorem isLexeme : IsLexeme n.text where
  ne_nil := n.ne_nil
  solid c hc := isBlank_of_isNameChar (n.chars c hc)
  comma h := absurd h (n.not_mem_text (by decide))

end Name

namespace Path

variable (p : Path)

theorem chars : ∀ c ∈ p.text, isNameChar c = true ∨ c = '.' := by
  intro c hc
  rcases List.mem_append.1 hc with hc | hc
  · exact .inl (p.first.chars c hc)
  · obtain ⟨n, -, hc⟩ := List.mem_flatMap.1 hc
    rcases List.mem_cons.1 hc with hc | hc
    · exact .inr hc
    · exact .inl (n.chars c hc)

theorem text_eq_cons : ∃ c w, p.text = c :: w ∧ isNameChar c = true := by
  obtain ⟨c, w, hw⟩ := List.exists_cons_of_ne_nil p.first.ne_nil
  exact ⟨c, _, by rw [text, hw, List.cons_append], p.first.chars c (by simp [hw])⟩

theorem text_ne_nil : p.text ≠ [] := by
  obtain ⟨c, w, hw, -⟩ := p.text_eq_cons
  rw [hw]
  exact List.cons_ne_nil c w

theorem colon_not_mem_text : ':' ∉ p.text := by
  intro h
  rcases p.chars ':' h with h | h
  · exact ne_of_isNameChar h (by decide) rfl
  · exact absurd h (by decide)

theorem endsSolid_text : EndsSolid p.text := by
  have hsolid : ∀ c ∈ p.text, isBlank c = false := by
    intro c hc
    rcases p.chars c hc with h | rfl
    · exact isBlank_of_isNameChar h
    · decide
  exact ⟨_, List.getLast?_eq_some_getLast p.text_ne_nil, hsolid _ (List.getLast_mem p.text_ne_nil)⟩

end Path

/-! ## Normalising the blanks -/

theorem squeezeFrom_blanks {gap : Text} (h : gap.all isBlank = true) (last : Option Char)
    (g : Bool) (t : Text) :
    squeezeFrom last g (gap ++ t) = squeezeFrom last (g || !gap.isEmpty) t := by
  induction gap generalizing g with
  | nil => simp
  | cons c gap ih =>
    simp only [List.all_cons, Bool.and_eq_true] at h
    rw [List.cons_append, squeezeFrom, if_pos h.1, ih h.2]
    simp

theorem squeezeFrom_cons {c : Char} (hc : isBlank c = false) (hne : c ≠ ',')
    (last : Option Char) (g : Bool) (t : Text) :
    squeezeFrom last g (c :: t) =
      (if g && last.any isNameChar && isNameChar c then [' '] else []) ++
        c :: squeezeFrom (some c) false t := by
  rw [squeezeFrom]
  simp [hc, hne]

theorem getLast?_cons_or (c : Char) (w : Text) (last : Option Char) :
    (c :: w).getLast?.or last = w.getLast?.or (some c) := by
  rw [List.getLast?_cons]
  cases w.getLast? <;> rfl

theorem squeezeFrom_solid {w : Text} (hsolid : ∀ c ∈ w, isBlank c = false) (hcomma : ',' ∉ w)
    (last : Option Char) (t : Text) :
    squeezeFrom last false (w ++ t) = w ++ squeezeFrom (w.getLast?.or last) false t := by
  induction w generalizing last with
  | nil => simp
  | cons c w ih =>
    have hne : c ≠ ',' := by rintro rfl; simp at hcomma
    rw [List.cons_append, squeezeFrom_cons (hsolid c List.mem_cons_self) hne, getLast?_cons_or,
      ih (fun d hd => hsolid d (by simp [hd])) (fun h => hcomma (by simp [h]))]
    simp

/-- A lexeme is kept, with a blank before it if it continues a name after blanks, and with a blank
behind it if it is a comma. -/
theorem squeezeFrom_lexeme {w : Text} (hw : IsLexeme w) (last : Option Char) (g : Bool) (t : Text) :
    ∃ last', last'.any isNameChar = endsName w ∧ squeezeFrom last g (w ++ t) =
      (if g && last.any isNameChar && startsName w then [' '] else []) ++ w ++
        (if w = [','] then [' '] else []) ++ squeezeFrom last' false t := by
  by_cases hcomma : w = [',']
  · subst hcomma
    have hname : isNameChar ',' = false := isNameChar_punctuation ',' (by decide)
    have hspace : isNameChar ' ' = false := isNameChar_punctuation ' ' (by decide)
    have hblank : isBlank ',' = false := by decide
    refine ⟨some ' ', by rw [Option.any_some, hspace, endsName_singleton, hname], ?_⟩
    simp [squeezeFrom, hname, hblank]
  · have hno : ',' ∉ w := fun h => hcomma (hw.comma h)
    obtain ⟨c, w, rfl⟩ := List.exists_cons_of_ne_nil hw.ne_nil
    have hne : c ≠ ',' := by rintro rfl; simp at hno
    have hrest := squeezeFrom_solid (fun d hd => hw.solid d (List.mem_cons_of_mem c hd))
      (fun h => hno (List.mem_cons_of_mem c h)) (some c) t
    refine ⟨w.getLast?.or (some c), by rw [← getLast?_cons_or c w none, Option.or_none, endsName],
      ?_⟩
    rw [List.cons_append, squeezeFrom_cons (hw.solid c List.mem_cons_self) hne, hrest,
      if_neg hcomma]
    simp [startsName]

/-- The lexemes with the blanks that normalising leaves: between two name characters, and behind a
comma. -/
def pressed (after : Bool) : List Text → Text
  | [] => []
  | w :: ws =>
    (if after && startsName w then [' '] else []) ++ w ++ (if w = [','] then [' '] else []) ++
      pressed (endsName w) ws

theorem squeezeFrom_spaced {items : List (Text × Text)} {after : Bool}
    (h : spaced after items = true) (hlexemes : ∀ i ∈ items, IsLexeme i.2) {tail : Text}
    (htail : tail.all isBlank = true) {last : Option Char} (hlast : last.any isNameChar = after) :
    squeezeFrom last false (items.flatMap (fun i => i.1 ++ i.2) ++ tail) =
      pressed after (items.map (·.2)) := by
  induction items generalizing after last with
  | nil =>
    have hblanks := squeezeFrom_blanks htail last false []
    rw [List.append_nil] at hblanks
    rw [List.flatMap_nil, List.nil_append, hblanks]
    simp [squeezeFrom, pressed]
  | cons item items ih =>
    obtain ⟨gap, w⟩ := item
    simp only [spaced, Bool.and_eq_true, Bool.not_eq_true'] at h
    obtain ⟨⟨hgap, hparted⟩, hspaced⟩ := h
    obtain ⟨last', hlast', hw⟩ := squeezeFrom_lexeme (hlexemes _ List.mem_cons_self) last
      (!gap.isEmpty) (items.flatMap (fun i => i.1 ++ i.2) ++ tail)
    have hrest := ih hspaced (fun i hi => hlexemes i (List.mem_cons_of_mem _ hi)) hlast'
    have hblank : (!gap.isEmpty && after && startsName w) = (after && startsName w) := by
      cases hempty : gap.isEmpty with
      | false => simp
      | true => simpa [hempty] using hparted
    simp only [List.flatMap_cons, List.append_assoc, List.map_cons, pressed] at hw hrest ⊢
    rw [squeezeFrom_blanks hgap, Bool.false_or, hw, hrest, hlast, hblank]

/-- The blank between two paths. `after` tells whether a path stands before the piece. -/
def parting (after : Bool) (q : Piece) : Text :=
  if after && q.isPath then [' '] else []

theorem parting_punctuation (after : Bool) (q : Piece) :
    ∀ c ∈ parting after q, c ∈ punctuation := by
  rw [parting]
  split
  · simp [punctuation]
  · simp

/-- The texts of pieces, with a blank between two paths. -/
def joined (after : Bool) : List Piece → Text
  | [] => []
  | q :: ps => parting after q ++ q.text ++ joined q.isPath ps

theorem Piece.text_ne_nil (q : Piece) : q.text ≠ [] := by
  cases q with
  | path rooted p => exact List.append_ne_nil_of_right_ne_nil _ p.text_ne_nil
  | mark m =>
    obtain ⟨c, w, hw, -⟩ := m.text_eq_cons
    rw [text, hw]
    exact List.cons_ne_nil c w

theorem joined_ne_nil {ps : List Piece} (h : ps ≠ []) (after : Bool) : joined after ps ≠ [] := by
  obtain ⟨q, ps, rfl⟩ := List.exists_cons_of_ne_nil h
  simp [joined, q.text_ne_nil]

theorem mem_joined_of_mark {m : Mark} {ps : List Piece} (hm : .mark m ∈ ps) {c : Char}
    (hc : c ∈ m.text) (after : Bool) : c ∈ joined after ps := by
  induction ps generalizing after with
  | nil => cases hm
  | cons q ps ih =>
    rw [joined]
    rcases List.mem_cons.1 hm with rfl | hm
    · simp [Piece.text, hc]
    · simp [ih hm]

theorem pressed_names (ns : List Name) (ws : List Text) :
    pressed true ((ns.flatMap fun n => [['.'], n.text]) ++ ws) =
      (ns.flatMap fun n => '.' :: n.text) ++ pressed true ws := by
  induction ns with
  | nil => rfl
  | cons n ns ih =>
    have hdot : isNameChar '.' = false := isNameChar_punctuation '.' (by decide)
    have hcomma : n.text ≠ [','] := fun h => n.not_mem_text (d := ',') (by decide) (by simp [h])
    simp [pressed, hdot, hcomma, n.endsName_text, ih]

theorem pressed_root (after : Bool) (ws : List Text) :
    pressed after ("global".toList :: "::".toList :: ws) =
      (if after then [' '] else []) ++ "global::".toList ++ pressed false ws := by
  have hcolon : isNameChar ':' = false := isNameChar_punctuation ':' (by decide)
  have hglobal : startsName "global".toList = true ∧ endsName "global".toList = true := by decide
  have hcolons : startsName "::".toList = false ∧ endsName "::".toList = false := by
    simp [startsName, endsName, hcolon]
  rw [pressed, pressed, hglobal.1, hglobal.2, hcolons.1, hcolons.2]
  simp

theorem pressed_char {c : Char} (hc : isNameChar c = false) (after : Bool) (ws : List Text) :
    pressed after ([c] :: ws) = c :: (if c = ',' then [' '] else []) ++ pressed false ws := by
  rw [pressed, startsName_singleton, endsName_singleton, hc]
  simp

theorem pressed_mark (m : Mark) (after : Bool) (ws : List Text) :
    pressed after ((m.chars.map fun c => [c]) ++ ws) = m.text ++ pressed false ws := by
  have hname : ∀ c ∈ m.text, isNameChar c = false :=
    fun c hc => isNameChar_punctuation c (m.mem_punctuation c hc).1
  cases m with
  | closeOuter =>
    simp only [Mark.chars, List.map_cons, List.map_nil, List.cons_append, List.nil_append]
    rw [pressed_char (hname '>' (by decide)), pressed_char (hname '.' (by decide))]
    rfl
  | _ =>
    simp only [Mark.chars, List.map_cons, List.map_nil, List.cons_append, List.nil_append]
    rw [pressed_char (hname _ (by decide))]
    rfl

theorem pressed_lexemes (q : Piece) (after : Bool) (ws : List Text) :
    pressed after (q.lexemes ++ ws) =
      parting after q ++ q.text ++ pressed q.isPath ws := by
  cases q with
  | mark m => simpa [parting, Piece.lexemes, Piece.text, Piece.isPath] using pressed_mark m after ws
  | path rooted p =>
    have hfirst : ∀ after, pressed after (p.first.text ::
        (p.more.flatMap fun n => [['.'], n.text]) ++ ws) =
        (if after then [' '] else []) ++ p.text ++ pressed true ws := by
      intro after
      have hcomma : p.first.text ≠ [','] :=
        fun h => p.first.not_mem_text (d := ',') (by decide) (by simp [h])
      simp [pressed, hcomma, p.first.startsName_text, p.first.endsName_text, pressed_names,
        Path.text]
    cases rooted with
    | false => simpa [parting, Piece.lexemes, Piece.text, Piece.isPath] using hfirst after
    | true =>
      simp only [parting, Piece.lexemes, Piece.text, Piece.isPath, if_true, List.cons_append,
        List.nil_append, Bool.and_true] at hfirst ⊢
      rw [pressed_root, hfirst]
      simp

theorem pressed_flatMap (ps : List Piece) (after : Bool) :
    pressed after (ps.flatMap Piece.lexemes) = joined after ps := by
  induction ps generalizing after with
  | nil => rfl
  | cons q ps ih => rw [List.flatMap_cons, pressed_lexemes, joined, ih]

theorem Piece.isLexeme (q : Piece) : ∀ w ∈ q.lexemes, IsLexeme w := by
  cases q with
  | mark m => simpa [lexemes] using m.isLexeme
  | path rooted p =>
    have hdot : IsLexeme ['.'] := Mark.closeOuter.isLexeme '.' (by decide)
    have hnames : ∀ w ∈ p.first.text :: p.more.flatMap (fun n => [['.'], n.text]),
        IsLexeme w := by
      intro w hw
      rcases List.mem_cons.1 hw with rfl | hw
      · exact p.first.isLexeme
      · obtain ⟨n, -, hw⟩ := List.mem_flatMap.1 hw
        simp only [List.mem_cons, List.not_mem_nil, or_false] at hw
        rcases hw with rfl | rfl
        · exact hdot
        · exact n.isLexeme
    have hroot : ∀ w ∈ ["global".toList, "::".toList], IsLexeme w := by
      have hsolid : ∀ w ∈ ["global".toList, "::".toList],
          w ≠ [] ∧ (w.all fun c => !isBlank c) = true ∧ ',' ∉ w := by decide
      intro w hw
      obtain ⟨hne, hblank, hcomma⟩ := hsolid w hw
      exact ⟨hne, by simpa using hblank, fun h => absurd h hcomma⟩
    intro w hw
    rcases List.mem_append.1 hw with hw | hw
    · cases rooted with
      | false => simp at hw
      | true => exact hroot w hw
    · exact hnames w hw

/-- **Normalising the blanks leaves the pieces**, whatever their layout. -/
theorem squeeze_of_laysOut {t : Text} {ps : List Piece} (h : LaysOut t (ps.flatMap Piece.lexemes)) :
    squeeze t = trimEnd (joined false ps) := by
  obtain ⟨items, tail, hspaced, htail, hlexemes, rfl⟩ := h
  have hall : ∀ i ∈ items, IsLexeme i.2 := by
    intro i hi
    have hmem : i.2 ∈ ps.flatMap Piece.lexemes := hlexemes ▸ List.mem_map_of_mem hi
    obtain ⟨q, -, hq⟩ := List.mem_flatMap.1 hmem
    exact q.isLexeme _ hq
  rw [squeeze, squeezeFrom_spaced hspaced hall htail rfl, hlexemes, pressed_flatMap]

/-! ## Deleting `global::` -/

/-- What stands behind a path: no name character, no dot and no colon. -/
def Stops (t : Text) : Prop :=
  ∀ c ∈ t.head?, isNameChar c = false ∧ c ≠ '.' ∧ c ≠ ':'

theorem stops_joined (ps : List Piece) : Stops (joined true ps) := by
  cases ps with
  | nil => simp [Stops, joined]
  | cons q ps =>
    intro c hc
    cases q with
    | path rooted p =>
      simp only [joined, parting, Piece.isPath, Bool.and_self, if_true, List.cons_append,
        List.head?_cons, Option.mem_def, Option.some.injEq] at hc
      subst hc
      exact ⟨isNameChar_punctuation ' ' (by decide), by decide, by decide⟩
    | mark m =>
      obtain ⟨d, w, hd, hdot⟩ := m.text_eq_cons
      have hpunctuation := m.mem_punctuation d (by simp [hd])
      have heq : d = c := by simpa [joined, parting, Piece.isPath, Piece.text, hd] using hc
      subst heq
      exact ⟨isNameChar_punctuation d hpunctuation.1, hdot, hpunctuation.2⟩

/-- `global::` starts nowhere in a text that has no colon, if what follows neither continues a name
nor starts with a colon. -/
theorem not_root_isPrefix {u v : Text} (hne : u ≠ []) (hu : ':' ∉ u) (hv : Stops v) :
    ¬ "global::".toList <+: u ++ v := by
  rintro ⟨z, hz⟩
  rcases List.append_eq_append_iff.1 hz with ⟨a, rfl, -⟩ | ⟨a, ha, rfl⟩
  · simp at hu
  · cases a with
    | nil =>
      rw [List.append_nil] at ha
      exact hu (ha ▸ by decide)
    | cons d a =>
      -- The first character behind `u` would be one of `global::`.
      have hglobal : ∀ c ∈ "global".toList, isNameChar c = true :=
        List.all_eq_true.1 (by decide)
      have hmem : d ∈ "global".toList ++ "::".toList := by
        rw [show "global".toList ++ "::".toList = "global::".toList from rfl, ha]
        simp
      obtain ⟨hname, -, hcolon⟩ := hv d (by simp)
      rcases List.mem_append.1 hmem with h | h
      · rw [hglobal d h] at hname
        cases hname
      · exact hcolon (by simpa using h)

/-- Where no match starts, nothing is deleted. -/
theorem erase_append {needle u v : Text}
    (h : ∀ s, s ≠ [] → s <:+ u → ¬ needle <+: s ++ v) :
    erase needle (u ++ v) = u ++ erase needle v := by
  induction u with
  | nil => rfl
  | cons c u ih =>
    have hno : ¬ needle.isPrefixOf (c :: (u ++ v)) = true := by
      rw [List.isPrefixOf_iff_prefix]
      exact h (c :: u) (List.cons_ne_nil c u) (List.suffix_refl _)
    rw [List.cons_append, erase, eraseFrom, if_neg hno, List.cons_append,
      ← ih fun s hs hsuffix => h s hs (hsuffix.trans (List.suffix_cons c u))]
    rfl

theorem erase_punctuation {u : Text} (hu : ∀ c ∈ u, c ∈ punctuation) (v : Text) :
    erase "global::".toList (u ++ v) = u ++ erase "global::".toList v := by
  apply erase_append
  intro s hs hsuffix hroot
  obtain ⟨c, s, rfl⟩ := List.exists_cons_of_ne_nil hs
  have hc : c ∈ punctuation := hu c (hsuffix.subset List.mem_cons_self)
  have hg : 'g' = c := by
    obtain ⟨z, hz⟩ := hroot
    exact (List.cons.inj hz).1
  subst hg
  exact absurd hc (by decide)

theorem eraseFrom_append (needle w t : Text) :
    eraseFrom needle w.length (w ++ t) = erase needle t := by
  induction w with
  | nil => rfl
  | cons c w ih => exact ih

theorem erase_self_append {needle : Text} (h : needle ≠ []) (t : Text) :
    erase needle (needle ++ t) = erase needle t := by
  obtain ⟨c, w, rfl⟩ := List.exists_cons_of_ne_nil h
  have hmatch : (c :: w).isPrefixOf (c :: (w ++ t)) = true :=
    List.isPrefixOf_iff_prefix.2 (List.prefix_append (c :: w) t)
  rw [List.cons_append, erase, eraseFrom, if_pos hmatch]
  exact eraseFrom_append (c :: w) w t

theorem erase_path (p : Path) {v : Text} (hv : Stops v) :
    erase "global::".toList (p.text ++ v) = p.text ++ erase "global::".toList v := by
  apply erase_append
  intro s hs hsuffix
  exact not_root_isPrefix hs (fun h => p.colon_not_mem_text (hsuffix.subset h)) hv

theorem erase_piece (q : Piece) (ps : List Piece) :
    erase "global::".toList (q.text ++ joined q.isPath ps) =
      q.unrooted.text ++ erase "global::".toList (joined q.isPath ps) := by
  cases q with
  | mark m => exact erase_punctuation (fun c hc => (m.mem_punctuation c hc).1) _
  | path rooted p =>
    have hpath := erase_path p (stops_joined ps)
    cases rooted with
    | false => exact hpath
    | true =>
      simp only [Piece.text, Piece.isPath, Piece.unrooted, if_true, List.append_assoc] at hpath ⊢
      rw [erase_self_append (by decide), hpath]
      rfl

/-- **Only `global::` is deleted**, and from every path that has it. -/
theorem erase_joined (ps : List Piece) (after : Bool) :
    erase "global::".toList (joined after ps) = joined after (ps.map Piece.unrooted) := by
  induction ps generalizing after with
  | nil => rfl
  | cons q ps ih =>
    rw [joined, List.append_assoc, erase_punctuation (parting_punctuation after q), erase_piece, ih]
    simp [joined, parting]

/-! ## Reading the tokens -/

theorem tokensFrom_append {path u : Text} (hpath : path ≠ [])
    (hu : ∀ c ∈ u, isNameChar c = true ∨ c = '.') (v : Text) :
    tokensFrom path (u ++ v) = tokensFrom (path ++ u) v := by
  induction u generalizing path with
  | nil => simp
  | cons c u ih =>
    have hc : (isNameChar c || (c == '.' && !path.isEmpty)) = true := by
      rcases hu c List.mem_cons_self with h | h
      · simp [h]
      · simp [h, hpath]
    rw [List.cons_append, tokensFrom, if_pos hc,
      ih (by simp) (fun d hd => hu d (List.mem_cons_of_mem c hd))]
    simp

theorem tokensFrom_stops {path v : Text} (hpath : path ≠ []) (hv : Stops v) :
    tokensFrom path v = .path path :: tokens v := by
  cases v with
  | nil => simp [tokens, tokensFrom, hpath]
  | cons c v =>
    obtain ⟨hname, hdot, -⟩ := hv c (by simp)
    simp [tokens, tokensFrom, hname, hdot, hpath]

theorem tokens_path (p : Path) {v : Text} (hv : Stops v) :
    tokens (p.text ++ v) = .path p.text :: tokens v := by
  obtain ⟨c, w, hw, hc⟩ := p.text_eq_cons
  have hchars : ∀ d ∈ w, isNameChar d = true ∨ d = '.' := fun d hd => p.chars d (by simp [hw, hd])
  have hstart : tokens (c :: w ++ v) = tokensFrom [c] (w ++ v) := by
    simp [tokens, tokensFrom, hc]
  rw [hw, hstart, tokensFrom_append (by simp) hchars, tokensFrom_stops (by simp) hv]
  rfl

theorem tokens_marks {u : Text} (hu : ∀ c ∈ u, c ∈ punctuation) (v : Text) :
    tokens (u ++ v) = u.map .mark ++ tokens v := by
  induction u with
  | nil => rfl
  | cons c u ih =>
    have hc : isNameChar c = false := isNameChar_punctuation c (hu c List.mem_cons_self)
    have hrest := ih fun d hd => hu d (List.mem_cons_of_mem c hd)
    simp only [tokens] at hrest ⊢
    simp [tokensFrom, hc, hrest]

/-- The tokens of pieces, with a blank between two paths. -/
def tokenized (after : Bool) : List Piece → List Token
  | [] => []
  | q :: ps =>
    (parting after q).map .mark ++ q.tokens ++ tokenized q.isPath ps

@[simp] theorem tokenized_nil (after : Bool) : tokenized after [] = [] := rfl

@[simp] theorem tokenized_mark (after : Bool) (m : Mark) (ps : List Piece) :
    tokenized after (.mark m :: ps) = m.text.map .mark ++ tokenized false ps := by
  simp [tokenized, parting, Piece.isPath, Piece.tokens]

@[simp] theorem tokenized_path (after rooted : Bool) (p : Path) (ps : List Piece) :
    tokenized after (.path rooted p :: ps) =
      (if after then [.mark ' '] else []) ++ .path p.text :: tokenized true ps := by
  cases after <;> simp [tokenized, parting, Piece.isPath, Piece.tokens]

@[simp] theorem tokenized_commas (after : Bool) (n : Nat) :
    tokenized after (List.replicate n (.mark .comma)) =
      (List.replicate n [',', ' ']).flatten.map .mark := by
  induction n generalizing after with
  | zero => rfl
  | succ n ih =>
    rw [List.replicate_succ, tokenized_mark, ih]
    simp [Mark.text, List.replicate_succ]

/-- **Each piece is read as its own tokens.** -/
theorem tokens_joined (ps : List Piece) (after : Bool) :
    tokens (joined after (ps.map Piece.unrooted)) = tokenized after ps := by
  induction ps generalizing after with
  | nil => rfl
  | cons q ps ih =>
    have hpiece : tokens (q.unrooted.text ++ joined q.unrooted.isPath (ps.map Piece.unrooted)) =
        q.tokens ++ tokenized q.isPath ps := by
      cases q with
      | mark m =>
        rw [← ih]
        exact tokens_marks (fun c hc => (m.mem_punctuation c hc).1) _
      | path rooted p =>
        rw [← ih]
        exact tokens_path p (stops_joined _)
    have hparting : parting after q.unrooted = parting after q := by simp [parting]
    rw [List.map_cons, joined, tokenized, List.append_assoc, List.append_assoc, ← hpiece, hparting,
      tokens_marks (parting_punctuation after q)]

/-! ## From a layout to tokens -/

/-- Whether a path stands last, or before if there are no pieces. -/
def endsPath (after : Bool) (ps : List Piece) : Bool :=
  ps.foldl (fun _ q => q.isPath) after

theorem endsPath_append_singleton (after : Bool) (ps : List Piece) (q : Piece) :
    endsPath after (ps ++ [q]) = q.isPath := by
  simp [endsPath]

theorem joined_append (ps qs : List Piece) (after : Bool) :
    joined after (ps ++ qs) = joined after ps ++ joined (endsPath after ps) qs := by
  induction ps generalizing after with
  | nil => rfl
  | cons q ps ih => simp [joined, ih, endsPath]

theorem tokenized_append (ps qs : List Piece) (after : Bool) :
    tokenized after (ps ++ qs) = tokenized after ps ++ tokenized (endsPath after ps) qs := by
  induction ps generalizing after with
  | nil => rfl
  | cons q ps ih => simp [tokenized, ih, endsPath]

/-- **The text that is read depends on the pieces only**, neither on their layout nor on `global::`,
if it does not end in a comma. -/
theorem erase_squeeze_of_laysOut {t : Text} {ps : List Piece} {q : Piece}
    (h : LaysOut t ((ps ++ [q]).flatMap Piece.lexemes)) (hq : EndsSolid q.text) :
    erase "global::".toList (squeeze t) = joined false ((ps ++ [q]).map Piece.unrooted) := by
  have hsolid : EndsSolid (joined false (ps ++ [q])) := by
    rw [joined_append]
    refine EndsSolid.append ?_ _
    simpa [joined] using hq.append _
  rw [squeeze_of_laysOut h, trimEnd_of_endsSolid hsolid, erase_joined]

end ParamTwin.TypeName
