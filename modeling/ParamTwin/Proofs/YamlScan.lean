import ParamTwin.Proofs.YamlLines
import ParamTwin.Yaml.Token

/-!
# Tokens of written documents

The scanner on the text that the writer gives for a mapping, construct by construct. Each lemma
leads from one place between two tokens to the next such place, whatever follows there:

* `Scan.LeadsTo`: a part of a run, with no more steps than characters are read.
* `Scan.leadsTo_key`, `Scan.leadsTo_dash`: what stands in front of a value.
* `Scan.leadsTo_string`: a string in any of its forms.
* `Scan.Shows`, `Scan.LinesShow`: the tokens of a value and of the lines of a collection, with a
  rule for each kind of value.
* `Scan.run?_members`: the tokens of a document.
-/

namespace ParamTwin.Yaml.Scan

/-! ## Parts of a run -/

/-- A run comes from a scan to one that satisfies a condition, with no more steps than characters
are read. -/
def LeadsTo (s : Scan) (Q : Scan → Prop) : Prop :=
  ∃ n s', n + s'.rest.length ≤ s.rest.length ∧ (∀ fuel, run? (n + fuel) s = run? fuel s') ∧ Q s'

section
variable {s s' : Scan} {Q Q' : Scan → Prop}

theorem LeadsTo.bind (h : LeadsTo s Q) (h' : ∀ s', Q s' → LeadsTo s' Q') : LeadsTo s Q' := by
  obtain ⟨n, s₁, hn, hrun, hQ⟩ := h
  obtain ⟨n', s₂, hn', hrun', hQ'⟩ := h' s₁ hQ
  refine ⟨n + n', s₂, by omega, fun fuel => ?_, hQ'⟩
  rw [Nat.add_assoc, hrun, hrun']

theorem leadsTo_self (h : Q s) : LeadsTo s Q :=
  ⟨0, s, by omega, fun fuel => by rw [Nat.zero_add], h⟩

/-- A scan at which a run goes on as at another one. -/
theorem leadsTo_of_run (h : ∀ fuel, run? fuel s = run? fuel s')
    (hrest : s'.rest.length ≤ s.rest.length) (hQ : Q s') : LeadsTo s Q :=
  ⟨0, s', by omega, fun fuel => by rw [Nat.zero_add, h], hQ⟩

end

/-! ## Between two tokens -/

/-- A scan outside of brackets, with what may turn out to be a key. -/
def pending (t : Text) (p : Place) (tokens : List Token) (indent : Int) (outer : List Int)
    (allowed : Bool) (key : Option PossibleKey) : Scan where
  rest := t
  place := p
  tokens := tokens
  keys := [key]
  indent := indent
  outer := outer
  keyAllowed := allowed

/-- A scan outside of brackets without a possible key. -/
abbrev between (t : Text) (p : Place) (tokens : List Token) (indent : Int) (outer : List Int)
    (allowed : Bool) : Scan :=
  pending t p tokens indent outer allowed none

/-- The scan at the first token of a line, which is at a given column. -/
def AtLine (t : Text) (column : Nat) (tokens : List Token) (indent : Int) (outer : List Int)
    (s : Scan) : Prop :=
  ∃ p : Place, p.column = column ∧ s = between t p tokens indent outer true

section
variable {t : Text} {p : Place} {tokens : List Token} {indent : Int} {outer : List Int}
  {allowed : Bool} {key : Option PossibleKey}

theorem skipBlanks_of_solid (h : Solid t) (inFlow allowed : Bool) (p : Place) :
    skipBlanks inFlow t p allowed false = (t, p, allowed) := by
  cases t with
  | nil => rfl
  | cons c t =>
    obtain ⟨hblank, hbreak, hcomment⟩ := h c rfl
    simp only [isBlank, Bool.or_eq_false_iff, decide_eq_false_iff_not] at hblank
    simp [skipBlanks, hbreak, hblank, hcomment]

theorem skipBlanks_replicate (k : Nat) (t : Text) (inFlow allowed : Bool) (p : Place) :
    skipBlanks inFlow (List.replicate k ' ' ++ t) p allowed false =
      skipBlanks inFlow t ⟨p.line, p.column + k, p.index + k⟩ allowed false := by
  induction k generalizing p with
  | zero => rfl
  | succ k ih =>
    have hspace : isBreak ' ' = false := by decide
    rw [List.replicate_succ, List.cons_append, skipBlanks, hspace, if_neg Bool.false_ne_true,
      if_pos (by simp), ih, Place.after_of_not_isBreak hspace]
    simp only [Nat.add_assoc, Nat.add_comm 1 k]

/-- A line end and the indentation of the next line. -/
theorem skipBlanks_line (h : Solid t) (k : Nat) (allowed : Bool) (p : Place) :
    skipBlanks false ('\n' :: (List.replicate k ' ' ++ t)) p allowed false =
      (t, { line := p.line + 1, column := k, index := p.index + 1 + k }, true) := by
  have hbreak : isBreak '\n' = true := by decide
  rw [skipBlanks, if_pos hbreak, skipBlanks_replicate, skipBlanks_of_solid h,
    Place.after_of_isBreak hbreak]
  simp

theorem toNext_pending (h : Solid t) :
    (pending t p tokens indent outer allowed key).toNext =
      pending t p tokens indent outer allowed key := by
  unfold toNext
  rw [show (pending t p tokens indent outer allowed key).inFlow = false from rfl]
  simp only [pending, skipBlanks_of_solid h]

theorem refreshKeys?_pending {key' : Option PossibleKey} (h : refreshKey? p key = some key') :
    (pending t p tokens indent outer allowed key).refreshKeys? =
      some (pending t p tokens indent outer allowed key') := by
  simp [refreshKeys?, pending, h]

theorem unroll_pending (h : indent ≤ p.column) :
    (pending t p tokens indent outer allowed key).unroll p.column =
      pending t p tokens indent outer allowed key := by
  have hclose : closeTo p.column outer indent tokens = (indent, outer, tokens) := by
    cases outer with
    | nil => rfl
    | cons i is => rw [closeTo, if_neg (by omega)]
  unfold unroll
  rw [show (pending t p tokens indent outer allowed key).inFlow = false from rfl]
  simp only [pending, hclose, Bool.false_eq_true, if_false]

/-- The rest of a run, once the collections that end are closed. -/
def proceed? (fuel : Nat) (s : Scan) : Option Scan :=
  match s.rest with
  | [] => s.closeAll?
  | c :: cs => (s.token? c cs).bind (run? fuel)

theorem run?_pending (h : Solid t) (hkey : refreshKey? p key = some key) (fuel : Nat) :
    run? (fuel + 1) (pending t p tokens indent outer allowed key) =
      proceed? fuel ((pending t p tokens indent outer allowed key).unroll p.column) := by
  rw [run?, toNext_pending h, refreshKeys?_pending hkey]
  rfl

theorem run?_eq_of_next {s s' : Scan} (h : s.toNext.refreshKeys? = some s')
    (h' : s'.toNext.refreshKeys? = some s') (fuel : Nat) : run? fuel s = run? fuel s' := by
  cases fuel with
  | zero => rfl
  | succ fuel => rw [run?, run?, h, h']

variable {Q : Scan → Prop}

theorem leadsTo_next {s : Scan} (ht : Solid t)
    (h : s.toNext.refreshKeys? = some (between t p tokens indent outer allowed))
    (hrest : t.length ≤ s.rest.length) (hQ : Q (between t p tokens indent outer allowed)) :
    LeadsTo s Q :=
  leadsTo_of_run (run?_eq_of_next h (by rw [toNext_pending ht]; rfl)) hrest hQ

/-- One token is read. -/
theorem leadsTo_token {c : Char} {cs : Text} (h : Solid (c :: cs)) (hindent : indent ≤ p.column)
    (hkey : refreshKey? p key = some key) {s : Scan}
    (htoken : (pending (c :: cs) p tokens indent outer allowed key).token? c cs = some s)
    (hrest : s.rest.length ≤ cs.length) (hnext : LeadsTo s Q) :
    LeadsTo (pending (c :: cs) p tokens indent outer allowed key) Q := by
  obtain ⟨n, s', hn, hrun, hQ⟩ := hnext
  refine ⟨n + 1, s', ?_, fun fuel => ?_, hQ⟩
  · show n + 1 + s'.rest.length ≤ cs.length + 1
    omega
  · rw [Nat.add_right_comm, run?_pending h hkey, unroll_pending hindent]
    show (Scan.token? _ c cs).bind (run? (n + fuel)) = _
    rw [htoken]
    exact hrun fuel

theorem leadsTo_blank (h : Solid t)
    (hnext : LeadsTo (between t (p.after ' ') tokens indent outer allowed) Q) :
    LeadsTo (between (' ' :: t) p tokens indent outer allowed) Q := by
  have hskip : skipBlanks false (' ' :: t) p allowed false = (t, p.after ' ', allowed) := by
    have hone := skipBlanks_replicate 1 t false allowed p
    rw [skipBlanks_of_solid h] at hone
    rw [Place.after_of_not_isBreak (by decide)]
    exact hone
  have htoNext : (between (' ' :: t) p tokens indent outer allowed).toNext =
      between t (p.after ' ') tokens indent outer allowed := by
    unfold toNext
    rw [show (between (' ' :: t) p tokens indent outer allowed).inFlow = false from rfl]
    simp only [pending, hskip]
  refine (leadsTo_next h (by rw [htoNext]; rfl) (Nat.le_succ _) ?_ : LeadsTo _ fun s =>
    s = between t (p.after ' ') tokens indent outer allowed).bind fun s hs => ?_
  · rfl
  · rw [hs]
    exact hnext

/-- The end of a line, and the indentation of the next one. What may have been a key is none. -/
theorem leadsTo_line (h : Solid t) (k : Nat)
    (hkey : refreshKey? ⟨p.line + 1, k, p.index + 1 + k⟩ key = some none) :
    LeadsTo (pending ('\n' :: (List.replicate k ' ' ++ t)) p tokens indent outer allowed key)
      (AtLine t k tokens indent outer) := by
  refine leadsTo_next (p := ⟨p.line + 1, k, p.index + 1 + k⟩) h ?_ ?_ ⟨_, rfl, rfl⟩
  · unfold toNext
    rw [show Scan.inFlow (pending _ p tokens indent outer allowed key) = false from rfl]
    simp only [pending, skipBlanks_line h]
    exact refreshKeys?_pending hkey
  · show t.length ≤ ('\n' :: (List.replicate k ' ' ++ t)).length
    simp only [List.length_cons, List.length_append]
    omega

/-! ## Plain scalars -/

theorem startsPlain_of_starts {c : Char} {cs : Text} (h : Starts c cs) (rest : Text) :
    startsPlain false c (cs ++ rest) = true := by
  have hmark := h.unmarked
  simp only [isMark, Bool.or_eq_false_iff] at hmark
  unfold startsPlain
  rw [if_neg h.head.1]
  split
  · rename_i hc
    have hspaced : isSpaced cs = false := by
      have := hmark.2
      simpa [hc] using this
    simp [endsWord_append hspaced]
  · simp only [h.solid.1, hmark.1.1.1, hmark.1.1.2, hmark.1.2, Bool.or_false, Bool.not_false]

theorem isDocumentMark_rest {s : Scan} {c : Char} {r : Text} (hrest : s.rest = c :: r)
    (hc : c ≠ '-' ∧ c ≠ '.') : isDocumentMark s.rest = false := by
  rw [hrest]
  exact isDocumentMark_of_ne hc r

theorem token?_of_starts {s : Scan} {c : Char} {cs : Text} (h : Starts c cs) {rest : Text}
    (hrest : s.rest = c :: (cs ++ rest)) (hflow : s.inFlow = false) :
    s.token? c (cs ++ rest) = s.plain? := by
  have hne : ∀ d : Char, isMark d cs = true → c ≠ d := by
    intro d hd heq
    rw [← heq, h.unmarked] at hd
    cases hd
  unfold token?
  rw [isDocumentMark_rest hrest h.head, hflow, startsPlain_of_starts h rest]
  simp only [hne '%' rfl, hne '[' rfl, hne '{' rfl, hne ']' rfl, hne '}' rfl, hne ',' rfl,
    hne '*' rfl, hne '&' rfl, hne '!' rfl, hne '|' rfl, hne '>' rfl, hne '\'' rfl, hne '"' rfl,
    h.head.1, h.alone (.inl rfl), h.alone (.inr rfl), decide_false, Bool.and_false,
    Bool.false_and, Bool.or_false, Bool.false_or, Bool.false_eq_true, if_false, if_true]

/-- What is remembered of a scalar that may be a key. -/
def remembered (p : Place) (tokens : List Token) (indent : Int) (allowed : Bool) :
    Option PossibleKey :=
  if allowed then some { required := indent == p.column, number := tokens.length, place := p }
  else none

theorem saveKey?_between :
    (between t p tokens indent outer allowed).saveKey? =
      some (pending t p tokens indent outer allowed (remembered p tokens indent allowed)) := by
  cases allowed <;> rfl

theorem plain?_between {f : Folding} {t' : Text} {p' : Place}
    (h : plain false (indent + 1).toNat t p .empty = some (f, t', p')) :
    (between t p tokens indent outer allowed).plain? =
      some (pending t' p' (.scalar true f.text :: tokens) indent outer f.breaks.isSome
        (remembered p tokens indent allowed)) := by
  unfold plain?
  rw [saveKey?_between]
  show (plain false (indent + 1).toNat t p .empty).bind _ = _
  rw [h]
  rfl

/-! ## Keys -/

/-- A word that is written in front of a colon. -/
structure IsKey (t : Text) : Prop where
  bare : isBare t = true
  short : t.length ≤ keyLimit

instance (t : Text) : Decidable (IsKey t) :=
  decidable_of_iff (isBare t = true ∧ t.length ≤ keyLimit)
    ⟨fun h => ⟨h.1, h.2⟩, fun h => ⟨h.bare, h.short⟩⟩

theorem IsKey.plain {t : Text} (h : IsKey t) : IsPlain t :=
  isPlain_of_isBare h.bare

theorem IsKey.solid {t : Text} (h : IsKey t) (r : Text) : Solid (t ++ r) := by
  obtain ⟨c, cs, rfl⟩ := List.exists_cons_of_ne_nil h.plain.ne_nil
  exact h.plain.starts.isSolid _

/-- The colon after a scalar that may be a key. -/
theorem token?_colon {k : PossibleKey} {r : Text} (hk : k.number = tokens.length)
    (h : endsWord r = true) (scalar : Token) :
    (pending (':' :: r) p (scalar :: tokens) indent outer false (some k)).token? ':' r =
      some (if (k.place.column : Int) ≤ indent then
        between r (p.after ':') (.value :: scalar :: .key :: tokens) indent outer false
      else
        between r (p.after ':') (.value :: scalar :: .key :: .blockMapStart :: tokens)
          k.place.column (indent :: outer) false) := by
  have htoken : (pending (':' :: r) p (scalar :: tokens) indent outer false (some k)).token? ':' r =
      (pending (':' :: r) p (scalar :: tokens) indent outer false (some k)).value? := by
    unfold token?
    rw [isDocumentMark_rest rfl (by decide), h]
    simp
  have hone : tokens.length + 1 - tokens.length = 1 := by omega
  have htwo : tokens.length + 1 + 1 - tokens.length = 2 := by omega
  rw [htoken]
  by_cases hcolumn : (k.place.column : Int) ≤ indent
  · simp [value?, insert, roll, inFlow, pending, allow, push, skip, hk, hcolumn, hone]
  · simp [value?, insert, roll, inFlow, pending, allow, push, skip, hk, hcolumn, hone, htwo]

/-- A key and its colon. A key right of the innermost collection starts one of its own. -/
theorem leadsTo_key {word r : Text} (h : IsKey word) (hr : endsWord r = true)
    (hindent : indent ≤ p.column) :
    LeadsTo (between (word ++ ':' :: r) p tokens indent outer true) fun s =>
      ∃ p', p'.column = p.column + word.length + 1 ∧
        s = if (p.column : Int) ≤ indent then
            between r p' (.value :: .scalar true (String.ofList word) :: .key :: tokens) indent
              outer false
          else
            between r p'
              (.value :: .scalar true (String.ofList word) :: .key :: .blockMapStart :: tokens)
              p.column (indent :: outer) false := by
  obtain ⟨c, cs, rfl⟩ := List.exists_cons_of_ne_nil h.plain.ne_nil
  have hstart := h.plain.starts
  obtain ⟨f, hplain, hout, hblanks, hbreaks⟩ :=
    plain_append h.plain (indent + 1).toNat (':' :: r) p
  rw [plain_colon (by simp [hout]) hblanks hbreaks hr, Place.foldl_after h.plain.unbroken] at hplain
  have htext : f.text = String.ofList (c :: cs) := by
    rw [Folding.text, hout, List.reverse_reverse]
  rw [List.cons_append]
  refine leadsTo_token (hstart.isSolid _) hindent rfl
    ((token?_of_starts hstart rfl rfl).trans (plain?_between hplain)) (by simp [pending]) ?_
  rw [htext, hbreaks]
  -- The word is remembered, and the colon turns it into a key.
  have hfresh : isStale ⟨p.line, p.column + (c :: cs).length, p.index + (c :: cs).length⟩
      ⟨indent == p.column, tokens.length, p⟩ = false := by
    have hshort := h.short
    simp only [isStale, Bool.or_eq_false_iff, decide_eq_false_iff_not]
    omega
  show LeadsTo (pending (':' :: r) _ _ indent outer false
    (some ⟨indent == p.column, tokens.length, p⟩)) _
  refine leadsTo_token (solid_cons (by decide) r) (by simp; omega)
    (by rw [refreshKey?, hfresh]; rfl)
    (token?_colon rfl hr _) ?_ (leadsTo_self ⟨_, ?_, rfl⟩)
  · split <;> exact Nat.le_refl _
  · rw [Place.after_of_not_isBreak (by decide)]

/-! ## Strings -/

variable {i col : Nat} {rest : Text}

/-- A scalar right of the innermost collection need not be a key. -/
theorem refreshKey?_remembered {p' : Place} (hp : i < p.column) (hline : p.line < p'.line) :
    refreshKey? p' (remembered p tokens i allowed) = some none := by
  cases allowed with
  | false => rfl
  | true =>
    have hrequired : ((i : Int) == p.column) = false := by
      simp only [beq_eq_false_iff_ne]
      omega
    simp [remembered, refreshKey?, isStale, hline, hrequired]

theorem leadsTo_plain {word : Text} (h : IsPlain word) (hp : i < p.column) (hcol : col ≤ i)
    (hrest : Solid rest) :
    LeadsTo (between (word ++ '\n' :: (List.replicate col ' ' ++ rest)) p tokens i outer allowed)
      (AtLine rest col (.scalar true (String.ofList word) :: tokens) i outer) := by
  obtain ⟨c, cs, rfl⟩ := List.exists_cons_of_ne_nil h.ne_nil
  have hstart := h.starts
  obtain ⟨f, hplain, hout, -, hbreaks⟩ :=
    plain_append h ((i : Int) + 1).toNat ('\n' :: (List.replicate col ' ' ++ rest)) p
  rw [plain_lineEnd hbreaks hrest (by omega), Place.foldl_after h.unbroken] at hplain
  have htext : (f.lineBreak '\n').text = String.ofList (c :: cs) := by
    simp [Folding.lineBreak, hbreaks, Folding.text, hout]
  have hallowed : (f.lineBreak '\n').breaks.isSome = true := by simp [Folding.lineBreak, hbreaks]
  rw [List.cons_append]
  refine leadsTo_token (hstart.isSolid _) (by omega) rfl
    ((token?_of_starts hstart rfl rfl).trans (plain?_between hplain)) ?_ ?_
  · simp only [pending, List.length_append, List.length_cons]
    omega
  · rw [htext, hallowed]
    refine leadsTo_next (p := ⟨p.line + 1, col, p.index + (c :: cs).length + 1 + col⟩) hrest ?_
      (Nat.le_refl _) ⟨_, rfl, rfl⟩
    rw [toNext_pending hrest]
    exact refreshKeys?_pending (refreshKey?_remembered hp (Nat.lt_succ_self _))

theorem token?_quote {s : Scan} {r : Text} {double : Bool}
    (hrest : s.rest = (if double then '"' else '\'') :: r) :
    s.token? (if double then '"' else '\'') r = s.quoted? double := by
  unfold token?
  rw [isDocumentMark_rest hrest (by cases double <;> decide)]
  cases double <;> simp

theorem leadsTo_quoted (double : Bool) {body : Text} {text : String} {p' : Place}
    (hp : i < p.column) (hrest : Solid rest) (hline : p.line ≤ p'.line)
    (h : quoted double 0 (body ++ '\n' :: (List.replicate col ' ' ++ rest))
      (p.after (if double then '"' else '\'')) .empty =
        some (text, '\n' :: (List.replicate col ' ' ++ rest), p')) :
    LeadsTo (between ((if double then '"' else '\'') ::
        (body ++ '\n' :: (List.replicate col ' ' ++ rest))) p tokens i outer allowed)
      (AtLine rest col (.scalar false text :: tokens) i outer) := by
  have hquoted : (between ((if double then '"' else '\'') ::
      (body ++ '\n' :: (List.replicate col ' ' ++ rest))) p tokens i outer allowed).quoted? double =
      some (pending ('\n' :: (List.replicate col ' ' ++ rest)) p' (.scalar false text :: tokens) i
        outer false (remembered p tokens i allowed)) := by
    unfold quoted?
    rw [saveKey?_between]
    show (quoted double 0 (body ++ '\n' :: (List.replicate col ' ' ++ rest))
      (p.after (if double then '"' else '\'')) .empty).bind _ = _
    rw [h]
    rfl
  refine leadsTo_token (solid_cons (by cases double <;> decide) _) (by omega) rfl
    ((token?_quote rfl).trans hquoted) ?_ ?_
  · simp only [pending, List.length_append]
    omega
  · exact leadsTo_line hrest col
      (refreshKey?_remembered hp (Nat.lt_succ_of_le hline))

theorem token?_bar {s : Scan} {r : Text} (hrest : s.rest = '|' :: r) (hflow : s.inFlow = false) :
    s.token? '|' r = s.block? false := by
  unfold token?
  rw [isDocumentMark_rest hrest (by decide), hflow]
  simp

theorem leadsTo_lines {text : Text} (h : text ≠ []) (hprintable : ∀ c ∈ text, isPrintable c = true)
    (hp : i < p.column) (hcol : col ≤ i) (hrest : Solid rest) :
    LeadsTo (between ('|' :: (indentMark text ++ chompMark text ++
        '\n' :: (indentLines (i + 2) true (closeLine text) ++ (List.replicate col ' ' ++ rest)))) p
        tokens i outer allowed)
      (AtLine rest col (.scalar false (String.ofList text) :: tokens) i outer) := by
  obtain ⟨p', hp', hblock⟩ := block_lines h hprintable hcol hrest (p.after '|')
  generalize hbody : indentMark text ++ chompMark text ++
    '\n' :: (indentLines (i + 2) true (closeLine text) ++ (List.replicate col ' ' ++ rest)) = body
    at hblock
  have htoken : (between ('|' :: body) p tokens i outer allowed).token? '|' body =
      some (between rest p' (.scalar false (String.ofList text) :: tokens) i outer true) := by
    rw [token?_bar rfl rfl]
    show (block false ((i : Int) + 1).toNat body (p.after '|')).bind _ = _
    rw [show ((i : Int) + 1).toNat = i + 1 by omega, hblock]
    rfl
  refine leadsTo_token (solid_cons (by decide) _) (by omega) rfl htoken ?_
    (leadsTo_self ⟨p', hp', rfl⟩)
  subst hbody
  simp only [pending, List.length_append, List.length_cons]
  omega

/-- The blank in front of a value. -/
theorem leadsTo_value (h : Solid t) (hp : i ≤ p.column)
    (hnext : ∀ p' : Place, i < p'.column → LeadsTo (between t p' tokens i outer allowed) Q) :
    LeadsTo (between (' ' :: t) p tokens i outer allowed) Q := by
  refine leadsTo_blank h (hnext _ ?_)
  rw [Place.after_of_not_isBreak (by decide)]
  exact Nat.lt_succ_of_le hp

theorem leadsTo_double (text : Text) (hp : i < p.column) (hrest : Solid rest) :
    LeadsTo (between (closeLine (double text) ++ (List.replicate col ' ' ++ rest)) p tokens i outer
        allowed)
      (AtLine rest col (.scalar false (String.ofList text) :: tokens) i outer) := by
  have hplace : (p.after '"').column = p.column + 1 := by
    rw [Place.after_of_not_isBreak (by decide)]
  have hline : p.line ≤ ((text.flatMap doubleChar ++ ['"']).foldl Place.after (p.after '"')).line :=
    Nat.le_trans (Place.foldl_after_line_le ['"'] p) (Place.foldl_after_line_le _ _)
  have htext : closeLine (double text) ++ (List.replicate col ' ' ++ rest) =
      '"' :: (text.flatMap doubleChar ++ ['"'] ++ '\n' :: (List.replicate col ' ' ++ rest)) := by
    rw [closeLine_double, double]
    simp
  have hquoted := quoted_flatMap_doubleChar (u := text) (p := p.after '"') Folding.inside_empty
    (by omega) ('\n' :: (List.replicate col ' ' ++ rest))
  rw [List.append_cons, List.nil_append] at hquoted
  rw [htext]
  exact leadsTo_quoted true hp hrest hline hquoted

theorem leadsTo_single {text : Text} (h : canBeSingle text = true) (hfeed : '\n' ∉ text)
    (hp : i < p.column) (hrest : Solid rest) :
    LeadsTo (between (closeLine (single (i + 2) text) ++ (List.replicate col ' ' ++ rest)) p tokens
        i outer allowed)
      (AtLine rest col (.scalar false (String.ofList text) :: tokens) i outer) := by
  have hplace : (p.after '\'').column = p.column + 1 := by
    rw [Place.after_of_not_isBreak (by decide)]
  have hline : p.line ≤
      ((singleText (i + 2) false text ++ ['\'']).foldl Place.after (p.after '\'')).line :=
    Nat.le_trans (Place.foldl_after_line_le ['\''] p) (Place.foldl_after_line_le _ _)
  have htext : closeLine (single (i + 2) text) ++ (List.replicate col ' ' ++ rest) =
      '\'' :: (singleText (i + 2) false text ++ ['\''] ++
        '\n' :: (List.replicate col ' ' ++ rest)) := by
    rw [closeLine_single, single]
    simp
  have hquoted := quoted_single (p := p.after '\'') h hfeed (Nat.succ_pos (i + 1))
    (show ('\n' :: (List.replicate col ' ' ++ rest)).head? ≠ some '\'' by simp) (by omega)
  rw [List.append_cons] at hquoted
  rw [htext]
  exact leadsTo_quoted false hp hrest hline hquoted

/-- A value that is written without quotes. -/
theorem leadsTo_word {word : Text} (h : IsPlain word) (hp : i ≤ p.column) (hcol : col ≤ i)
    (hrest : Solid rest) :
    LeadsTo (between (' ' :: (closeLine word ++ (List.replicate col ' ' ++ rest))) p tokens i outer
        allowed)
      (AtLine rest col (.scalar true (String.ofList word) :: tokens) i outer) := by
  have hclose : closeLine word = word ++ ['\n'] :=
    closeLine_eq_append fun d hd => h.unbroken d (List.mem_of_getLast? hd)
  rw [hclose, List.append_assoc, List.singleton_append]
  refine leadsTo_value ?_ hp fun p' hp' => leadsTo_plain h hp' hcol hrest
  obtain ⟨c, cs, rfl⟩ := List.exists_cons_of_ne_nil h.ne_nil
  exact h.starts.isSolid _

/-- **A string is read back** in whatever form it is written. -/
theorem leadsTo_string (s : String) (hp : i ≤ p.column) (hcol : col ≤ i) (hrest : Solid rest) :
    LeadsTo (between (' ' :: (closeLine (string (i + 2) s.toList) ++
        (List.replicate col ' ' ++ rest))) p tokens i outer allowed)
      (AtLine rest col (.scalar (isBare s.toList) s :: tokens) i outer) := by
  obtain ⟨text, rfl⟩ : ∃ text, s = String.ofList text := ⟨s.toList, s.ofList_toList.symm⟩
  rw [String.toList_ofList]
  have hdouble : isBare text = false → LeadsTo
      (between (' ' :: (closeLine (double text) ++ (List.replicate col ' ' ++ rest))) p tokens i
        outer allowed)
      (AtLine rest col (.scalar (isBare text) (String.ofList text) :: tokens) i outer) := by
    intro hbare
    rw [hbare]
    refine leadsTo_value ?_ hp fun p' hp' => leadsTo_double text hp' hrest
    rw [closeLine_double]
    exact solid_cons (by decide) _
  unfold string
  split
  · rename_i hfeed
    have hbare : isBare text = false := by rw [isBare, hfeed]; rfl
    split
    · rename_i hlines
      simp only [canBeLines, needsEscapes, Bool.and_eq_true, Bool.not_eq_true',
        Bool.or_eq_false_iff, List.any_eq_false, Bool.not_eq_false] at hlines
      obtain ⟨⟨⟨hprintable, -⟩, hne⟩, -⟩ := hlines
      have hne : text ≠ [] := by simpa using hne
      rw [hbare, closeLine_lines hne]
      refine leadsTo_value (solid_cons (by decide) _) hp fun p' hp' => ?_
      rw [List.cons_append, List.append_assoc, List.cons_append]
      exact leadsTo_lines hne hprintable hp' hcol hrest
    · exact hdouble hbare
  · rename_i hfeed
    split
    · rename_i hplain
      have hbare : isBare text = true := by simp_all [isBare]
      rw [hbare]
      exact leadsTo_word (isPlain_of_isBare hbare) hp hcol hrest
    · rename_i hplain
      have hbare : isBare text = false := by
        rw [isBare, Bool.eq_false_iff.2 hplain, Bool.and_false]
      split
      · rename_i hsingle
        rw [hbare]
        refine leadsTo_value ?_ hp fun p' hp' =>
          leadsTo_single hsingle (by simpa using hfeed) hp' hrest
        rw [closeLine_single]
        exact solid_cons (by decide) _
      · exact hdouble hbare

/-! ## Sequences and mappings -/

/-- A sequence without items, in brackets. -/
theorem leadsTo_brackets (hp : i ≤ p.column) (hrest : Solid rest) :
    LeadsTo (between (' ' :: '[' :: ']' :: '\n' :: (List.replicate col ' ' ++ rest)) p tokens i
        outer false)
      (AtLine rest col (.flowSeqEnd :: .flowSeqStart :: tokens) i outer) := by
  refine leadsTo_value (solid_cons (by decide) _) hp fun p' hp' => ?_
  have hopen : (between ('[' :: ']' :: '\n' :: (List.replicate col ' ' ++ rest)) p' tokens i outer
      false).token? '[' (']' :: '\n' :: (List.replicate col ' ' ++ rest)) =
        some { rest := ']' :: '\n' :: (List.replicate col ' ' ++ rest), place := p'.after '[',
               tokens := .flowSeqStart :: tokens, keys := [none, none], indent := i, outer := outer,
               keyAllowed := true } := by
    unfold token?
    rw [isDocumentMark_rest rfl (by decide)]
    simp [openFlow?, saveKey?, pending, allow, push, skip]
  refine leadsTo_token (solid_cons (by decide) _) (by omega) rfl hopen (Nat.le_refl _) ?_
  have hclose : LeadsTo (between ('\n' :: (List.replicate col ' ' ++ rest))
        ((p'.after '[').after ']') (.flowSeqEnd :: .flowSeqStart :: tokens) i outer false)
      (AtLine rest col (.flowSeqEnd :: .flowSeqStart :: tokens) i outer) :=
    leadsTo_line hrest col rfl
  -- Inside of brackets there are two places for keys, so the closing one is read step by step.
  obtain ⟨n, s', hn, hrun, hQ⟩ := hclose
  refine ⟨n + 1, s', ?_, fun fuel => ?_, hQ⟩
  · show n + 1 + s'.rest.length ≤ ('\n' :: (List.replicate col ' ' ++ rest)).length + 1
    have : n + s'.rest.length ≤ ('\n' :: (List.replicate col ' ' ++ rest)).length := hn
    omega
  · rw [← hrun, Nat.add_right_comm]
    rfl

/-- The dash in front of an item. -/
theorem leadsTo_dash (hp : p.column = i)
    (hnext : LeadsTo (between (' ' :: t) (p.after '-') (.blockEntry :: tokens) i outer true) Q) :
    LeadsTo (between ('-' :: ' ' :: t) p tokens i outer true) Q := by
  refine leadsTo_token (solid_cons (by decide) _) (by omega) rfl ?_ (Nat.le_refl _) hnext
  have hends : endsWord (' ' :: t) = true := rfl
  have hdocument : isDocumentMark ('-' :: ' ' :: t) = false := by
    unfold isDocumentMark
    split
    · rename_i heq
      simp only [List.cons.injEq] at heq
      obtain ⟨rfl, rfl, -⟩ := heq
      simp
    · rfl
  unfold token?
  rw [show isDocumentMark (between ('-' :: ' ' :: t) p tokens i outer true).rest = false from
    hdocument, hends]
  simp [pending, blockEntry?, allow, push, skip, roll, dropKey?, inFlow, column, hp]

/-- The end of a collection, at the first line that is not right of it. -/
theorem leadsTo_dedent {j : Int} (h : Solid t) (hp : (p.column : Int) < indent)
    (hQ : Q (between t p (.blockEnd :: tokens) j outer true)) :
    LeadsTo (between t p tokens indent (j :: outer) true) Q := by
  have hunroll : (between t p tokens indent (j :: outer) true).unroll p.column =
      (between t p (.blockEnd :: tokens) j outer true).unroll p.column := by
    simp [unroll, pending, inFlow, closeTo, hp]
  have hrun : ∀ fuel, run? fuel (between t p tokens indent (j :: outer) true) =
      run? fuel (between t p (.blockEnd :: tokens) j outer true) := by
    intro fuel
    cases fuel with
    | zero => rfl
    | succ fuel => rw [run?_pending h rfl, run?_pending h rfl, hunroll]
  exact leadsTo_of_run hrun (Nat.le_refl _) hQ

/-- The end of the document closes its outermost collection. -/
theorem run?_end (hp : p.column = 0) (fuel : Nat) :
    run? (fuel + 1) (between [] p tokens 0 [-1] true) =
      some (between [] p (.blockEnd :: tokens) (-1) [] false) := by
  rw [run?_pending (by simp [Solid]) rfl, unroll_pending (by omega)]
  rfl

/-! ## Values and lines -/

/-- The tokens of a value that is written after its key. -/
def Shows (v : Json) (ts : List Token) : Prop :=
  ∀ {i col : Nat} {p : Place} {tokens : List Token} {outer : List Int} {rest : Text},
    i ≤ p.column → col ≤ i → Solid rest →
      LeadsTo (between (afterKey i v ++ (List.replicate col ' ' ++ rest)) p tokens i outer false)
        (AtLine rest col (ts.reverse ++ tokens) i outer)

/-- The tokens of lines of a collection. The lines start, as what follows them does, with some
blanks. -/
def LinesShow (text : Nat → Text) (ts : List Token) : Prop :=
  ∀ {i col : Nat} {rest : Text}, col ≤ i → Solid rest → ∃ col' rest', col' ≤ i ∧ Solid rest' ∧
    text i ++ (List.replicate col ' ' ++ rest) = List.replicate col' ' ' ++ rest' ∧
    ∀ {p : Place} {tokens : List Token} {outer : List Int}, p.column = col' →
      LeadsTo (between rest' p tokens i outer true) (AtLine rest col (ts.reverse ++ tokens) i outer)

theorem shows_word {v : Json} {word : Text} (h : IsPlain word)
    (hv : ∀ i, afterKey i v = ' ' :: closeLine word) :
    Shows v [.scalar true (String.ofList word)] := by
  intro i col p tokens outer rest hp hcol hrest
  rw [hv]
  exact leadsTo_word h hp hcol hrest

theorem shows_str (s : String) : Shows (.str s) [.scalar (isBare s.toList) s] :=
  fun hp hcol hrest => leadsTo_string s hp hcol hrest

theorem shows_nil : Shows (.arr []) [.flowSeqStart, .flowSeqEnd] :=
  fun hp _ hrest => leadsTo_brackets hp hrest

theorem linesShow_nil : LinesShow (fun _ => []) [] := by
  intro i col rest hcol hrest
  exact ⟨col, rest, hcol, hrest, rfl, fun hp => leadsTo_self ⟨_, hp, rfl⟩⟩

theorem linesShow_items (ss : List String) :
    LinesShow (fun i => itemsText i (ss.map .str))
      (ss.flatMap fun s => [.blockEntry, .scalar (isBare s.toList) s]) := by
  induction ss with
  | nil => exact linesShow_nil
  | cons s ss ih =>
    intro i col rest hcol hrest
    obtain ⟨col', rest', hcol', hrest', htext, hlines⟩ := ih hcol hrest
    refine ⟨i, '-' :: ' ' :: (closeLine (string (i + 2) s.toList) ++
      (List.replicate col' ' ' ++ rest')), Nat.le_refl i, solid_cons (by decide) _, ?_, ?_⟩
    · rw [← htext]
      simp [itemsText, afterDash, leaf]
    · intro p tokens outer hp
      refine leadsTo_dash hp ((leadsTo_string s ?_ hcol' hrest').bind ?_)
      · rw [Place.after_of_not_isBreak (by decide)]
        exact Nat.le_succ_of_le (Nat.le_of_eq hp.symm)
      · rintro s' ⟨p', hp', rfl⟩
        rw [List.flatMap_cons, List.reverse_append, List.append_assoc]
        exact hlines hp'

theorem endsWord_afterKey (i : Nat) (v : Json) (r : Text) :
    endsWord (afterKey i v ++ r) = true := by
  unfold afterKey
  split <;> rfl

/-- A value and the lines after it. -/
theorem leadsTo_entries {v : Json} {ts us : List Token} {text : Nat → Text} (hv : Shows v ts)
    (htext : LinesShow text us) (hp : i ≤ p.column) (hcol : col ≤ i) (hrest : Solid rest) :
    LeadsTo (between (afterKey i v ++ (text i ++ (List.replicate col ' ' ++ rest))) p tokens i outer
        false)
      (AtLine rest col ((ts ++ us).reverse ++ tokens) i outer) := by
  obtain ⟨col', rest', hcol', hrest', heq, hlines⟩ := htext hcol hrest
  rw [heq, List.reverse_append, List.append_assoc]
  refine (hv hp hcol' hrest').bind ?_
  rintro _ ⟨p', hp', rfl⟩
  exact hlines hp'

theorem linesShow_member {k : String} {v : Json} {ms : List (String × Json)} {ts us : List Token}
    (hk : IsKey k.toList) (hv : Shows v ts) (hms : LinesShow (membersText · ms) us) :
    LinesShow (membersText · ((k, v) :: ms)) (.key :: .scalar true k :: .value :: (ts ++ us)) := by
  intro i col rest hcol hrest
  refine ⟨i, k.toList ++ ':' :: (afterKey i v ++ (membersText i ms ++
    (List.replicate col ' ' ++ rest))), Nat.le_refl i, hk.solid _, ?_,
    fun {p tokens outer} hp => ?_⟩
  · simp [membersText, string_of_isBare hk.bare]
  · refine (leadsTo_key hk (endsWord_afterKey i v _) (by omega)).bind ?_
    rintro _ ⟨p', hp', rfl⟩
    rw [if_pos (by omega), String.ofList_toList]
    have htokens : (.key :: .scalar true k :: .value :: (ts ++ us)).reverse ++ tokens =
        (ts ++ us).reverse ++ .value :: .scalar true k :: .key :: tokens := by simp
    rw [htokens]
    exact leadsTo_entries hv hms (by omega) hcol hrest

theorem shows_items {s : String} {ss : List String} :
    Shows (.arr ((s :: ss).map .str))
      ((s :: ss).flatMap fun s => [.blockEntry, .scalar (isBare s.toList) s]) := by
  intro i col p tokens outer rest hp hcol hrest
  obtain ⟨col', rest', hcol', hrest', htext, hlines⟩ := linesShow_items (s :: ss) hcol hrest
  rw [List.map_cons, afterKey, ← List.map_cons, List.cons_append, htext]
  refine (leadsTo_line hrest' col' rfl).bind ?_
  rintro _ ⟨p', hp', rfl⟩
  exact hlines hp'

/-- A mapping that starts right of the innermost collection, from its first key on. -/
theorem leadsTo_mapping {k : String} {v : Json} {ts us : List Token} {text : Nat → Text}
    (hk : IsKey k.toList) (hv : Shows v ts) (htext : LinesShow text us) (hp : p.column = i)
    (hindent : indent < i) (hcol : col ≤ i) (hrest : Solid rest) :
    LeadsTo (between (k.toList ++ ':' :: (afterKey i v ++ (text i ++
        (List.replicate col ' ' ++ rest)))) p tokens indent outer true)
      (AtLine rest col
        ((.blockMapStart :: .key :: .scalar true k :: .value :: (ts ++ us)).reverse ++ tokens) i
        (indent :: outer)) := by
  refine (leadsTo_key hk (endsWord_afterKey i v _) (by omega)).bind ?_
  rintro _ ⟨p', hp', rfl⟩
  have htokens :
      (.blockMapStart :: .key :: .scalar true k :: .value :: (ts ++ us)).reverse ++ tokens =
        (ts ++ us).reverse ++ .value :: .scalar true k :: .key :: .blockMapStart :: tokens := by
    simp
  rw [if_neg (by omega), String.ofList_toList, hp, htokens]
  exact leadsTo_entries hv htext (by omega) hcol hrest

theorem shows_members {k : String} {v : Json} {ms : List (String × Json)} {ts us : List Token}
    (hk : IsKey k.toList) (hv : Shows v ts) (hms : LinesShow (membersText · ms) us) :
    Shows (.obj ((k, v) :: ms))
      (.blockMapStart :: .key :: .scalar true k :: .value :: (ts ++ us) ++ [.blockEnd]) := by
  intro i col p tokens outer rest hp hcol hrest
  have htext : afterKey i (.obj ((k, v) :: ms)) ++ (List.replicate col ' ' ++ rest) =
      '\n' :: (List.replicate (i + 2) ' ' ++ (k.toList ++ ':' :: (afterKey (i + 2) v ++
        (membersText (i + 2) ms ++ (List.replicate col ' ' ++ rest))))) := by
    simp [afterKey, membersText, string_of_isBare hk.bare]
  rw [htext]
  refine (leadsTo_line (hk.solid _) (i + 2) rfl).bind ?_
  rintro _ ⟨p₁, hp₁, rfl⟩
  refine (leadsTo_mapping hk hv hms hp₁ (by omega) (by omega) hrest).bind ?_
  rintro _ ⟨p₂, hp₂, rfl⟩
  -- What follows is left of the entries, which ends the mapping.
  refine leadsTo_dedent hrest (by omega) ⟨p₂, hp₂, ?_⟩
  simp

/-- **The tokens of a written mapping.** -/
theorem run?_members {k : String} {v : Json} {ms : List (String × Json)} {ts us : List Token}
    (hk : IsKey k.toList) (hv : Shows v ts) (hms : LinesShow (membersText · ms) us) :
    ∃ s, run? ((membersText 0 ((k, v) :: ms)).length + 2) (start (membersText 0 ((k, v) :: ms))) =
        some s ∧
      s.tokens.reverse =
        .blockMapStart :: .key :: .scalar true k :: .value :: (ts ++ us) ++ [.blockEnd] := by
  have htext : membersText 0 ((k, v) :: ms) = k.toList ++ ':' :: (afterKey 0 v ++
      (membersText 0 ms ++ (List.replicate 0 ' ' ++ []))) := by
    simp [membersText, string_of_isBare hk.bare]
  have hread : LeadsTo (start (membersText 0 ((k, v) :: ms)))
      (AtLine [] 0
        ((.blockMapStart :: .key :: .scalar true k :: .value :: (ts ++ us)).reverse ++ []) 0
        [-1]) := by
    rw [htext]
    exact leadsTo_mapping (i := 0) hk hv hms rfl (by decide) (Nat.le_refl 0) (by simp [Solid])
  -- A part of a run has no more steps than characters, so the fuel lasts to the end.
  obtain ⟨n, s', hn, hrun, p, hp, rfl⟩ := hread
  have hlength : n ≤ (membersText 0 ((k, v) :: ms)).length :=
    Nat.le_trans (Nat.le_add_right ..) hn
  obtain ⟨fuel, hfuel⟩ : ∃ fuel, (membersText 0 ((k, v) :: ms)).length + 2 = n + (fuel + 1) :=
    ⟨(membersText 0 ((k, v) :: ms)).length + 1 - n, by omega⟩
  refine ⟨_, by rw [hfuel, hrun, run?_end hp], ?_⟩
  simp [pending]

end

end ParamTwin.Yaml.Scan
