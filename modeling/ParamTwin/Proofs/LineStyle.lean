import ParamTwin.Proofs.Definedness
import ParamTwin.Proofs.InsertionLine

/-!
# The style of line endings is kept

The line ending of a text is looked up twice: in the source, for the lines of the copies, and in the
text with all edits, for tidying. In a source without stray carriage returns both give the same
(`Plan.lineEnding_woven`): no edit parts a carriage return from its line feed, and in a source
without carriage returns no edit brings one.

* `Tidy.run_feed`: what stands before a line feed of a tidied text.
* `Tidy.keptFeed_iff`: which line feeds are those inside literals, read off the tidied text.
-/

namespace ParamTwin

/-- A line feed follows each carriage return. -/
def Text.ReturnsClosed (t : Text) : Prop :=
  ∀ a b, t = a ++ '\r' :: b → b.head? = some '\n'

theorem Text.returnsClosed_nil : ReturnsClosed [] := by
  intro a b h
  simp at h

theorem Text.returnsClosed_cons (c : Char) (t : Text) :
    ReturnsClosed (c :: t) ↔ (c = '\r' → t.head? = some '\n') ∧ ReturnsClosed t := by
  constructor
  · intro h
    refine ⟨fun hc => h [] t (by rw [hc]; rfl), fun a b ht => h (c :: a) b (by rw [ht]; rfl)⟩
  · rintro ⟨hc, ht⟩ a b hsplit
    cases a with
    | nil =>
      cases hsplit
      exact hc rfl
    | cons d a =>
      cases hsplit
      exact ht a b rfl

instance Text.decidableReturnsClosed : (t : Text) → Decidable t.ReturnsClosed
  | [] => .isTrue returnsClosed_nil
  | c :: t =>
    have := decidableReturnsClosed t
    decidable_of_iff' _ (returnsClosed_cons c t)

/-- What ends at the offset does not end in white space. -/
def Text.SolidBefore (t : Text) (offset : Nat) : Prop :=
  ∀ cut ∈ splitAt? offset t, ∀ c ∈ cut.1.getLast?, isBlank c = false

instance (t : Text) (offset : Nat) : Decidable (t.SolidBefore offset) :=
  decidable_of_iff
    ((Text.splitAt? offset t).all (fun cut => cut.1.getLast?.all (!Text.isBlank ·)) = true)
    (by simp [Text.SolidBefore, Option.all_eq_true])

/-! ## Line feeds of a tidied text -/

namespace Tidy

open Text

/-- The line feed behind `a` ends in `ending`, and no other white space ends its line. -/
def Styled (ending a : Text) : Prop :=
  ∃ line, a ++ ['\n'] = line ++ ending ∧ ∀ c ∈ line.getLast?, c = '\n' ∨ isBlank c = false

/-- The line feed behind `a` in a tidied text came from one inside a literal of the text `t`: the
same line feeds and solid characters stand before both. -/
def KeptFeed (t : Text) (literals : List Span) (a : Text) : Prop :=
  ∃ a₀ b₀, t = a₀ ++ '\n' :: b₀ ∧ skeleton a₀ = skeleton a ∧
    isInside literals (byteSize a₀) = true

theorem keptFeed_iff_exists_range {t a : Text} {literals : List Span} :
    KeptFeed t literals a ↔ ∃ i ∈ List.range t.length, (t.drop i).head? = some '\n' ∧
      skeleton (t.take i) = skeleton a ∧ isInside literals (byteSize (t.take i)) = true := by
  constructor
  · rintro ⟨a₀, b₀, rfl, hskeleton, hinside⟩
    exact ⟨a₀.length, by simp, by simp, by simpa using hskeleton, by simpa using hinside⟩
  · rintro ⟨i, -, hhead, hskeleton, hinside⟩
    obtain ⟨b₀, hb₀⟩ := List.head?_eq_some_iff.1 hhead
    exact ⟨t.take i, b₀, by rw [← hb₀, List.take_append_drop], hskeleton, hinside⟩

instance (t a : Text) (literals : List Span) : Decidable (KeptFeed t literals a) :=
  decidable_of_iff _ keptFeed_iff_exists_range.symm

theorem Styled.cons_line {ending a : Text} (h : Styled ending a) (front : Text) :
    Styled ending (front ++ '\n' :: a) := by
  obtain ⟨line, hline, hlast⟩ := h
  refine ⟨front ++ '\n' :: line, by simp [hline], ?_⟩
  intro c hc
  rw [List.getLast?_append, List.getLast?_cons] at hc
  cases hl : line.getLast? with
  | none =>
    rw [hl] at hc
    exact .inl (by simpa using hc.symm)
  | some d =>
    rw [hl] at hc hlast
    obtain rfl : d = c := by simpa using hc
    exact hlast d rfl

theorem styled_of_endsSolid {ending line a : Text} (h : a ++ ['\n'] = line ++ ending)
    (hline : line = [] ∨ EndsSolid line) : Styled ending a := by
  refine ⟨line, h, ?_⟩
  intro c hc
  rcases hline with rfl | ⟨d, hd, hsolid⟩
  · cases hc
  · rw [Option.mem_def.1 hc] at hd
    cases hd
    exact .inr hsolid

/-- A line feed of a text is that of its first line or comes later. -/
theorem first_feed_cases {line rest a b : Text} (hline : '\n' ∉ line)
    (h : line ++ '\n' :: rest = a ++ '\n' :: b) :
    a = line ∨ ∃ a', a = line ++ '\n' :: a' ∧ rest = a' ++ '\n' :: b := by
  rcases List.append_eq_append_iff.1 h with ⟨m, rfl, hm⟩ | ⟨m, rfl, hm⟩
  · cases m with
    | nil => exact .inl (List.append_nil _)
    | cons c m =>
      cases hm
      exact .inr ⟨m, rfl, rfl⟩
  · cases m with
    | nil => exact .inl (List.append_nil _).symm
    | cons c m =>
      cases hm
      simp at hline

/-- A closed line has one line feed, and before it what the line has apart from white space. -/
theorem exists_closed_line {ending line : Text} (he : IsEnding ending) (literals : List Span)
    (position : Nat) (hline : '\n' ∉ line) :
    ∃ line', '\n' ∉ line' ∧ closed ending literals position line = line' ++ ['\n'] ∧
      skeleton line' = skeleton line := by
  obtain ⟨line', hline', hc⟩ := exists_closed he literals position hline
  have hskel : skeleton (closed ending literals position line) = _ := skeleton_closed he hline
  rw [hc, skeleton_append] at hskel
  exact ⟨line', hline', hc, List.append_cancel_right hskel⟩

/-- Each line feed of the tidied lines came from one of the text; outside of literals it is part of
an ending. -/
theorem body_feed_cases {ending : Text} (he : IsEnding ending) {literals : List Span}
    {position : Nat} {t a b : Text} (h : body ending literals position t = a ++ '\n' :: b) :
    ∃ a₀ b₀, t = a₀ ++ '\n' :: b₀ ∧ skeleton a₀ = skeleton a ∧
      (isInside literals (position + byteSize a₀) = true ∨ Styled ending a) := by
  induction t using lineInduction generalizing position a with
  | last t hfeed =>
    rw [body_last hfeed] at h
    have hin : '\n' ∈ trimEnd t := by rw [h]; simp
    exact absurd hin (not_mem_trimEnd hfeed)
  | step line rest hline ih =>
    obtain ⟨line', hline', hc, hskel⟩ := exists_closed_line he literals position hline
    rw [body_feed hline, hc, List.append_assoc, List.singleton_append] at h
    rcases first_feed_cases hline' h with rfl | ⟨a', rfl, hrest⟩
    · refine ⟨line, rest, rfl, hskel.symm, ?_⟩
      by_cases hin : isInside literals (position + byteSize line) = true
      · exact .inl hin
      · rw [closed, if_neg hin] at hc
        refine .inr (styled_of_endsSolid hc.symm ?_)
        exact or_iff_not_imp_left.2 endsSolid_trimEnd
    · obtain ⟨a₀, b₀, rfl, hskel', hcases⟩ := ih hrest
      refine ⟨line ++ '\n' :: a₀, b₀, by simp, by simp [hskel, hskel'], ?_⟩
      refine hcases.imp (fun hin => ?_) fun hstyled => hstyled.cons_line line'
      rwa [byteSize_append, byteSize_feed, ← Nat.add_assoc, ← Nat.add_assoc]

/-- A line feed of a closed text is the last one or stands before the ending. -/
theorem feed_of_ending {ending x a b : Text} (he : IsEnding ending)
    (h : x ++ ending = a ++ '\n' :: b) :
    (∃ b', x = a ++ '\n' :: b') ∨ a ++ ['\n'] = x ++ ending := by
  obtain ⟨front, rfl, hfront, -⟩ := he
  rcases List.append_eq_append_iff.1 h with ⟨m, rfl, hm⟩ | ⟨m, rfl, hm⟩
  · rcases first_feed_cases hfront hm with rfl | ⟨a', -, hnil⟩
    · exact .inr (List.append_assoc ..)
    · simp at hnil
  · cases m with
    | nil =>
      have hfeed : front ++ '\n' :: [] = [] ++ '\n' :: b := hm.symm
      rcases first_feed_cases hfront hfeed with rfl | ⟨a', hnil, -⟩
      · exact .inr (by simp)
      · simp at hnil
    | cons c m =>
      cases hm
      exact .inl ⟨m, rfl⟩

/-- Each line feed of a tidied text came from one inside a literal or is part of an ending. -/
theorem run_feed {t a b : Text} {literals : List Span} (h : run t literals = a ++ '\n' :: b) :
    KeptFeed t literals a ∨ Styled (lineEnding t) a := by
  by_cases hempty : trimEnd t = []
  · rw [run_of_trimEnd_eq_nil literals hempty] at h
    simp at h
  have ht := endsSolid_trimEnd hempty
  have he := isEnding_lineEnding t
  rw [run_of_endsSolid literals ht] at h
  rcases feed_of_ending he h with ⟨b', hbody⟩ | hlast
  · obtain ⟨a₀, b₀, hsplit, hskel, hcases⟩ := body_feed_cases he hbody
    refine hcases.imp_left fun hin => ?_
    obtain ⟨w, hw, -⟩ := exists_trimEnd_append t
    exact ⟨a₀, b₀ ++ w, by rw [hw, hsplit]; simp, hskel, by rwa [Nat.zero_add] at hin⟩
  · exact .inr (styled_of_endsSolid hlast (.inr (endsSolid_body ht)))

theorem run_eq_nil_or (t : Text) (literals : List Span) :
    run t literals = [] ∨ ∃ text, run t literals = text ++ lineEnding t ∧ EndsSolid text := by
  by_cases hempty : trimEnd t = []
  · exact .inl (run_of_trimEnd_eq_nil literals hempty)
  · have ht := endsSolid_trimEnd hempty
    exact .inr ⟨_, run_of_endsSolid literals ht, endsSolid_body ht⟩

/-- A styled line feed has a carriage return before it in the one style and none in the other. -/
theorem Styled.getLast?_iff {t a : Text} (h : Styled (lineEnding t) a) :
    a.getLast? = some '\r' ↔ ['\r', '\n'] <:+: t := by
  obtain ⟨line, hline, hlast⟩ := h
  by_cases hin : ['\r', '\n'] <:+: t
  · rw [lineEnding_eq_return hin] at hline
    have ha : a = line ++ ['\r'] := by
      have hcut : a ++ ['\n'] = (line ++ ['\r']) ++ ['\n'] := by simpa using hline
      exact List.append_cancel_right hcut
    simp [ha, hin]
  · rw [lineEnding_eq_feed hin] at hline
    obtain rfl := List.append_cancel_right hline
    refine iff_of_false (fun hreturn => ?_) hin
    have hcase := hlast '\r' hreturn
    revert hcase
    decide

/-! ## Literals of the tidied text -/

theorem feed_before {a b x y : Text} (h : a ++ '\n' :: b = x ++ y) (hlt : byteSize a < byteSize x) :
    ∃ m, x = a ++ '\n' :: m := by
  obtain ⟨m, rfl, hm⟩ := exists_append_of_byteSize_le h hlt.le
  cases m with
  | nil => simp at hlt
  | cons c m =>
    cases hm
    exact ⟨m, rfl⟩

/-- Each line feed of a text has one in the tidied lines. -/
theorem exists_body_feed {ending : Text} (he : IsEnding ending) (literals : List Span)
    (position : Nat) (a b : Text) :
    ∃ a' b', body ending literals position (a ++ '\n' :: b) = a' ++ '\n' :: b' ∧
      skeleton a' = skeleton a := by
  induction a using lineInduction generalizing position with
  | last a h =>
    obtain ⟨line', -, hc, hskel⟩ := exists_closed_line he literals position h
    exact ⟨line', body ending literals (position + byteSize a + 1) b,
      by rw [body_feed h, hc]; simp, hskel⟩
  | step line rest h ih =>
    obtain ⟨a', b', hbody, hskel⟩ := ih (position + byteSize line + 1)
    refine ⟨closed ending literals position line ++ a', b', ?_, ?_⟩
    · rw [List.append_assoc, List.cons_append, body_feed h, hbody, List.append_assoc]
    · rw [skeleton_append, skeleton_closed he h, hskel]
      simp

section
variable {t a b : Text} {literals literals' : List Span}

theorem Image.at?_eq {out lit : Text} {s s' : Span} (h : Image t out s s')
    (hlit : t.at? s = some lit) : out.at? s' = some lit := by
  obtain ⟨pre, piece, post, pre', post', ht, hout, hs, hs', -, -⟩ := h
  obtain rfl := eq_of_at?_eq_some hlit ht hs
  exact at?_eq_some_iff.2 ⟨pre', post', hout, hs'⟩

/-- A literal that ends solid ends before what trails. -/
theorem stop_le_of_endsSolid {x w lit : Text} {s : Span} (hlit : at? (x ++ w) s = some lit)
    (hend : EndsSolid lit) (hw : ∀ c ∈ w, isBlank c = true) : s.stop ≤ byteSize x := by
  obtain ⟨pre, post, hsplit, rfl⟩ := at?_eq_some_iff.1 hlit
  obtain ⟨q, hq⟩ := exists_append_of_endsSolid hsplit.symm (hend.append pre) hw
  rw [hq, byteSize_append, byteSize_append]
  exact Nat.le_add_right _ _

/-- Where the literals of the tidied text are the images of those of the text, the line feeds that
came from inside a literal are those inside a literal. -/
theorem keptFeed_iff (hsolid : ∀ s ∈ literals, ∃ lit, t.at? s = some lit ∧ EndsSolid lit)
    (himage : ∀ s', s' ∈ literals' ↔ ∃ s ∈ literals, Image t (run t literals) s s')
    (h : run t literals = a ++ '\n' :: b) :
    KeptFeed t literals a ↔ isInside literals' (byteSize a) = true := by
  have he := isEnding_lineEnding t
  have ht : EndsSolid (trimEnd t) := by
    refine endsSolid_trimEnd fun hempty => ?_
    rw [run_of_trimEnd_eq_nil literals hempty] at h
    simp at h
  have hrun := run_of_endsSolid literals ht
  obtain ⟨w, hw, hblank⟩ := exists_trimEnd_append t
  rw [isInside_iff]
  constructor
  · rintro ⟨a₀, b₀, hsplit, hskel, hin⟩
    obtain ⟨s, hs, hstart, hstop⟩ := isInside_iff.1 hin
    obtain ⟨lit, hlit, hend⟩ := hsolid s hs
    obtain ⟨s', himg⟩ := exists_image hs hlit hend
    -- The literal ends solid, so its line feeds stand before what trails.
    have hbefore := stop_le_of_endsSolid (hw ▸ hlit) hend hblank
    obtain ⟨b₁, hb₁⟩ := feed_before (hsplit.symm.trans hw) (by omega)
    obtain ⟨a', b', hbody, hskel'⟩ := exists_body_feed he literals 0 a₀ b₁
    rw [← hb₁] at hbody
    have ha : a = a' := by
      have heq : a ++ '\n' :: b = a' ++ '\n' :: (b' ++ lineEnding t) := by
        rw [← h, hrun, hbody, List.append_assoc, List.cons_append]
      have hsize := byteSize_eq_of_skeleton_eq heq (hskel.symm.trans hskel'.symm)
      exact (append_inj_of_byteSize heq hsize).1
    subst ha
    exact ⟨s', (himage s').2 ⟨s, hs, himg⟩,
      (himg.inside_iff hlit hend ht hb₁ hbody hskel').2 ⟨hstart, hstop⟩⟩
  · rintro ⟨s', hs', hin⟩
    obtain ⟨s, hs, himg⟩ := (himage s').1 hs'
    obtain ⟨lit, hlit, hend⟩ := hsolid s hs
    have hbefore := stop_le_of_endsSolid (hrun ▸ himg.at?_eq hlit) hend he.blank
    obtain ⟨b', hbody⟩ := feed_before (h.symm.trans hrun) (by omega)
    obtain ⟨a₀, b₀, hsplit, hskel, -⟩ := body_feed_cases he hbody
    have hin₀ := (himg.inside_iff hlit hend ht hsplit hbody hskel.symm).1 hin
    exact ⟨a₀, b₀ ++ w, by rw [hw, hsplit]; simp, hskel, isInside_iff.2 ⟨s, hs, hin₀⟩⟩

end
end Tidy

/-! ## The line ending of the edited text -/

namespace Edit

open Text

/-- A carriage return and its line feed stay together if no edit comes between them. -/
theorem return_infix_interleave {edits : List Edit} {position : Nat} {x y : Text}
    (h : insertedAt edits (position + byteSize x + 1) = []) :
    ['\r', '\n'] <:+: interleave edits position (x ++ '\r' :: '\n' :: y) := by
  induction x generalizing position with
  | nil =>
    have hnone : insertedAt edits (position + '\r'.utf8Size) = [] := h
    refine ⟨insertedAt edits position,
      interleave edits (position + '\r'.utf8Size + '\n'.utf8Size) y, ?_⟩
    simp [interleave, hnone]
  | cons c x ih =>
    rw [byteSize_cons, ← Nat.add_assoc] at h
    rw [List.cons_append, interleave]
    exact ((ih h).trans (List.suffix_cons ..).isInfix).trans (List.suffix_append ..).isInfix

theorem not_mem_insertedAt {c : Char} {edits : List Edit} (h : ∀ e ∈ edits, c ∉ e.text)
    (offset : Nat) : c ∉ insertedAt edits offset := by
  intro hc
  obtain ⟨e, he, hce⟩ := List.mem_flatMap.1 hc
  exact h e (List.mem_of_mem_filter he) hce

theorem not_mem_interleave {c : Char} {edits : List Edit} {t : Text}
    (h : ∀ e ∈ edits, c ∉ e.text) (ht : c ∉ t) (position : Nat) :
    c ∉ interleave edits position t := by
  induction t generalizing position with
  | nil => exact not_mem_insertedAt h position
  | cons d t ih =>
    rw [List.mem_cons, not_or] at ht
    rw [interleave, List.mem_append, List.mem_cons]
    rintro (hc | hc | hc)
    · exact not_mem_insertedAt h position hc
    · exact ht.1 hc
    · exact ih ht.2 _ hc

end Edit

theorem Text.not_mem_slice? {c : Char} {t piece : Text} {start stop : Nat} (h : c ∉ t)
    (hpiece : slice? t start stop = some piece) : c ∉ piece := by
  obtain ⟨pre, post, rfl, -⟩ := at?_eq_some_iff (s := ⟨start, stop⟩).1 hpiece
  exact fun hc => h (by simp [hc])

theorem Usage.not_mem_replaceSpans? {c : Char} {source name copy : Text} {cursor stop : Nat}
    {spans : List Span} (h : c ∉ source) (hname : c ∉ name)
    (hcopy : replaceSpans? source name cursor stop spans = some copy) : c ∉ copy := by
  induction spans generalizing cursor copy with
  | nil => exact Text.not_mem_slice? h hcopy
  | cons s spans ih =>
    obtain ⟨before, hbefore, hcopy⟩ := Option.bind_eq_some_iff.1 hcopy
    obtain ⟨rest, hrest, hcopy⟩ := Option.bind_eq_some_iff.1 hcopy
    cases hcopy
    simp [Text.not_mem_slice? h hbefore, hname, ih hrest]

theorem Usage.not_mem_indentation {c : Char} {before : Text} (h : c ∉ before) :
    c ∉ indentation before := by
  obtain ⟨front, head, rfl, -, -, hlast⟩ := exists_last_line before
  rw [indentation, hlast]
  exact fun hc => h (List.mem_append_right _ ((List.takeWhile_sublist _).subset hc))

namespace Plan

open Text Usage

section
variable {source : Text} {root : Node} {suggester : Suggester} {withLocal : Bool} {count : Nat}
  {plan : Plan} {e : Edit}

theorem not_mem_parameterCopy? {c : Char} {parameter : Parameter} {name copy : Text}
    (h : c ∉ source) (hname : c ∉ name)
    (hcopy : parameterCopy? source parameter name = some copy) : c ∉ copy := by
  obtain ⟨before, hbefore, hcopy⟩ := Option.bind_eq_some_iff.1 hcopy
  obtain ⟨after, hafter, hcopy⟩ := Option.bind_eq_some_iff.1 hcopy
  cases hcopy
  have hfront : c ∉ before := by
    unfold beforeName? at hbefore
    split at hbefore
    · exact not_mem_slice? h hbefore
    · obtain ⟨front, hfront, hbefore⟩ := Option.bind_eq_some_iff.1 hbefore
      obtain ⟨between, hbetween, hbefore⟩ := Option.bind_eq_some_iff.1 hbefore
      cases hbefore
      have htrim : c ∉ trimStart between := fun hc =>
        not_mem_slice? h hbetween ((List.dropWhile_sublist _).subset hc)
      simp [not_mem_slice? h hfront, htrim]
  simp [hfront, hname, not_mem_slice? h hafter]

/-- Into a source without carriage returns no edit brings one. -/
theorem no_return_of_mem_edits (hreturn : '\r' ∉ source)
    (hplan : make? (Model.build source root) root suggester withLocal count = some plan)
    (he : e ∈ plan.edits) : '\r' ∉ e.text := by
  obtain ⟨p, -, q, -, hedit⟩ := exists_procedure_of_mem_edits hplan he
  have hname : '\r' ∉ (newName (Model.build source root) suggester count p q).toList := by
    have husable := isUsable_newName (Model.build source root) suggester count p q
    intro hc
    have hsolid := Identifier.isBlank_of_mem_isValid (Bool.and_eq_true_iff.1 husable).1 hc
    exact absurd hsolid (by decide)
  rcases hedit with hedit | hedit
  · obtain ⟨copy, hcopy, hedit⟩ := Option.bind_eq_some_iff.1 hedit
    cases hedit
    simp [not_mem_parameterCopy? hreturn hname hcopy]
  · obtain ⟨symbol, s, copy, -, hcopy, hedit⟩ := exists_clone_of_usageEdit? hedit
    obtain ⟨before, behind, upTo, after, rest, hstart, hstop, hrest⟩ := exists_cuts hedit
    rw [insertAfter?_of_rest hstart hstop hrest] at hedit
    cases hedit
    have hending : lineEnding source = ['\n'] :=
      Tidy.lineEnding_eq_feed fun hin => hreturn (hin.subset (by simp))
    have hbefore : '\r' ∉ before := by
      have hsource : source = before ++ behind := (append_of_splitAt? hstart).1
      exact fun hc => hreturn (hsource ▸ List.mem_append_left _ hc)
    have hclone : '\r' ∉ copy := not_mem_replaceSpans? hreturn hname hcopy
    show '\r' ∉ lineEnding source ++ indentation before ++ copy
    simp [hending, not_mem_indentation hbefore, hclone]

/-- No edit comes between a carriage return and its line feed, if no parameter ends in white
space. -/
theorem not_splitsEnding_of_mem_edits
    (hends : ∀ p ∈ Procedure.list source root withLocal, ∀ q ∈ p.parameters,
      source.SolidBefore q.span.stop)
    (hplan : make? (Model.build source root) root suggester withLocal count = some plan)
    (he : e ∈ plan.edits) : ¬ SplitsEnding source e.offset := by
  obtain ⟨p, hp, q, hone, hedit⟩ := exists_procedure_of_mem_edits hplan he
  rcases hedit with hedit | hedit
  · obtain ⟨copy, -, hedit⟩ := Option.bind_eq_some_iff.1 hedit
    cases hedit
    rintro ⟨a, b, hsource, hoffset⟩
    have hcut : splitAt? q.span.stop source = some (a ++ ['\r'], '\n' :: b) :=
      splitAt?_eq_some_iff.2 ⟨by simpa using hsource, by rw [byteSize_append]; exact hoffset.symm⟩
    have hsolid := hends p hp q (by rw [hone]; exact .head _) _ hcut '\r' (by simp)
    exact absurd hsolid (by decide)
  · obtain ⟨symbol, s, copy, -, -, hedit⟩ := exists_clone_of_usageEdit? hedit
    obtain ⟨upTo, gap, tail, -, -, -, -, -, hending⟩ := exists_gap hedit
    exact hending

/-- **The edited text has the line ending of the source.** -/
theorem lineEnding_woven (hreturn : source.ReturnsClosed)
    (hends : ∀ p ∈ Procedure.list source root withLocal, ∀ q ∈ p.parameters,
      source.SolidBefore q.span.stop)
    (hplan : make? (Model.build source root) root suggester withLocal count = some plan) :
    lineEnding (Edit.interleave plan.edits 0 source) = lineEnding source := by
  by_cases hin : ['\r', '\n'] <:+: source
  · rw [Tidy.lineEnding_eq_return hin]
    obtain ⟨a, b, hsource⟩ := hin
    have hsource' : source = a ++ '\r' :: '\n' :: b := by simp [← hsource]
    refine Tidy.lineEnding_eq_return ?_
    rw [hsource']
    refine Edit.return_infix_interleave (Edit.insertedAt_eq_nil fun e he hoffset => ?_)
    refine not_splitsEnding_of_mem_edits hends hplan he ⟨a, b, hsource', ?_⟩
    rw [hoffset, Nat.zero_add]
  · have hnone : '\r' ∉ source := by
      intro hc
      obtain ⟨a, b, hsource⟩ := List.append_of_mem hc
      obtain ⟨b', rfl⟩ := List.head?_eq_some_iff.1 (hreturn a b hsource)
      exact hin ⟨a, b', by simp [hsource]⟩
    rw [Tidy.lineEnding_eq_feed hin]
    refine Tidy.lineEnding_eq_feed fun hwoven => ?_
    exact Edit.not_mem_interleave (fun e he => no_return_of_mem_edits hnone hplan he) hnone 0
      (hwoven.subset (by simp))

end
end Plan

namespace Transform

open Text Tidy

/-- **The style of line endings is kept.** In a source without stray carriage returns, of which no
parameter ends in white space, let some names be chosen in whatever way. Each line feed of the
result that did not come from inside a literal has a carriage return before it iff the source has
the two together somewhere, and no other white space ends its line; the result is empty or ends with
one such ending. Where the parser finds the literals again, the line feeds that came from inside a
literal are those inside a literal of the result. -/
theorem line_style_kept (grammar : Grammar) (suggester : Suggester) (settings : Settings) (t : Text)
    (out : Transformed) (hreturn : t.ReturnsClosed)
    (hends : ∀ p ∈ Procedure.list t (grammar.tree t) settings.procedures.includeLocalFunctions,
      ∀ q ∈ p.parameters, t.SolidBefore q.span.stop)
    (hout : source grammar suggester settings t = .ok out) :
    ∃ plan woven, plan? grammar suggester settings t = some plan ∧
      Edit.apply t plan.edits = .ok woven ∧
      (∀ a b, out.text = a ++ '\n' :: b → ¬ KeptFeed woven (grammar.literals woven) a →
        (a.getLast? = some '\r' ↔ ['\r', '\n'] <:+: t) ∧ Styled (lineEnding t) a) ∧
      (out.text = [] ∨ ∃ text, out.text = text ++ lineEnding t ∧ EndsSolid text) ∧
      (grammar.KeepsLiterals woven → ∀ a b, out.text = a ++ '\n' :: b →
        (KeptFeed woven (grammar.literals woven) a ↔
          isInside (grammar.literals out.text) (byteSize a) = true)) := by
  obtain ⟨plan, hplan, hrender, -⟩ := source_eq_ok_iff.1 hout
  have hgood : ∀ e ∈ plan.edits, Edit.misses t e = false := by
    intro e he
    obtain ⟨p, -, q, -, -, hboundary⟩ := Plan.shape_of_mem_edits hplan he
    rw [Edit.misses, hboundary]
    rfl
  obtain ⟨happly, htext⟩ := render_of_not_misses grammar hgood
  have hrun := Except.ok.inj (hrender.symm.trans htext)
  have hending := Plan.lineEnding_woven hreturn hends hplan
  refine ⟨plan, _, hplan, happly, ?_, ?_, ?_⟩
  · intro a b hsplit hkept
    rcases run_feed (hrun.symm.trans hsplit) with h | h
    · exact absurd h hkept
    · rw [hending] at h
      exact ⟨Styled.getLast?_iff h, h⟩
  · rw [hrun, ← hending]
    exact run_eq_nil_or _ _
  · intro hkeeps a b hsplit
    rw [hrun]
    exact keptFeed_iff hkeeps.solid hkeeps.image (hrun.symm.trans hsplit)

/-- A method with lines that end in a carriage return and a line feed, and a literal over two lines
in the statement that is duplicated. -/
def crossedSource : Text :=
  "void M(int x) \x7b\r\n  Use(@\"a \n b\", x); \r\n\x7d\r\n".toList

/-- The rows of the statement at an offset, with a name of `d` bytes. -/
def crossedCall (k d : Nat) : List Node.Row :=
  [.named 3 "expression_statement" none k (k + 16 + d),
    .named 4 "invocation_expression" none k (k + 15 + d),
    .named 5 "identifier" "function" k (k + 3),
    .named 5 "argument_list" "arguments" (k + 3) (k + 15 + d), .token 6 "(" (k + 3),
    .named 6 "argument" none (k + 4) (k + 12),
    .named 7 "verbatim_string_literal" none (k + 4) (k + 12), .token 6 "," (k + 12),
    .named 6 "argument" none (k + 14) (k + 14 + d),
    .named 7 "identifier" none (k + 14) (k + 14 + d), .token 6 ")" (k + 14 + d),
    .token 4 ";" (k + 15 + d)]

def crossedTree : Node :=
  .ofRows ([
    .named 0 "compilation_unit" none 0 42, .named 1 "method_declaration" none 0 40,
    .named 2 "predefined_type" "returns" 0 4, .named 2 "identifier" "name" 5 6,
    .named 2 "parameter_list" "parameters" 6 13, .token 3 "(" 6, .named 3 "parameter" none 7 12,
    .named 4 "predefined_type" "type" 7 10, .named 4 "identifier" "name" 11 12, .token 3 ")" 12,
    .named 2 "block" "body" 14 40, .token 3 "\x7b" 14] ++ crossedCall 19 1 ++ [.token 3 "\x7d" 39])

/-- The second parameter and the copy of the statement. -/
def crossedEdits : List Edit :=
  [⟨12, ", int x2".toList⟩, ⟨37, "\r\n  Use(@\"a \n b\", x2);".toList⟩]

/-- The source with both inserted. -/
def crossedWoven : Text :=
  ("void M(int x, int x2) \x7b\r\n  Use(@\"a \n b\", x); \r\n" ++
    "  Use(@\"a \n b\", x2);\r\n\x7d\r\n").toList

def crossedWovenTree : Node :=
  .ofRows ([
    .named 0 "compilation_unit" none 0 72, .named 1 "method_declaration" none 0 70,
    .named 2 "predefined_type" "returns" 0 4, .named 2 "identifier" "name" 5 6,
    .named 2 "parameter_list" "parameters" 6 21, .token 3 "(" 6, .named 3 "parameter" none 7 12,
    .named 4 "predefined_type" "type" 7 10, .named 4 "identifier" "name" 11 12, .token 3 "," 12,
    .named 3 "parameter" none 14 20, .named 4 "predefined_type" "type" 14 17,
    .named 4 "identifier" "name" 18 20, .token 3 ")" 20, .named 2 "block" "body" 22 70,
    .token 3 "\x7b" 22] ++ crossedCall 27 1 ++ crossedCall 49 2 ++ [.token 3 "\x7d" 69])

def crossedOut : Text :=
  ("void M(int x, int x2) \x7b\r\n  Use(@\"a \n b\", x);\r\n" ++
    "  Use(@\"a \n b\", x2);\r\n\x7d\r\n").toList

def crossedGrammar : Grammar where
  tree t := if t = crossedSource then crossedTree else crossedWovenTree

/-- Behind the statement the blank is gone and the ending is that of the source; inside the literal
the blank and the line feed are as they were. -/
theorem return_style_kept :
    ∃ out, source crossedGrammar .deterministic {} crossedSource = .ok out ∧
      out.counts.usages = 1 ∧ out.text = crossedOut ∧
      crossedGrammar.literals crossedWoven = [⟨31, 39⟩, ⟨53, 61⟩] ∧
      KeptFeed crossedWoven (crossedGrammar.literals crossedWoven)
        "void M(int x, int x2) \x7b\r\n  Use(@\"a ".toList ∧
      Styled ['\r', '\n']
        "void M(int x, int x2) \x7b\r\n  Use(@\"a \n b\", x);\r".toList := by
  have hplan : plan? crossedGrammar .deterministic {} crossedSource = some {
      edits := crossedEdits
      counts := { foundAny := true, changes := 1, procedures := 1, usages := 1 } } := by
    decide +kernel
  have hwoven : Edit.apply crossedSource crossedEdits = .ok crossedWoven := by
    rw [Edit.apply, Edit.sorted_of_pairwise (by decide)]
    decide +kernel
  have hliterals : crossedGrammar.literals crossedWoven = [⟨31, 39⟩, ⟨53, 61⟩] := by
    decide +kernel
  have hout : source crossedGrammar .deterministic {} crossedSource = .ok {
      text := crossedOut
      counts := { foundAny := true, changes := 1, procedures := 1, usages := 1 } } :=
    source_eq_ok_iff.2 ⟨_, hplan, by rw [render, hwoven]; decide +kernel, rfl⟩
  obtain ⟨plan, woven, hplan', hwoven', hstyled, -⟩ := line_style_kept crossedGrammar
    .deterministic {} crossedSource _ (by decide +kernel) (by decide +kernel) hout
  cases hplan'.symm.trans hplan
  cases hwoven'.symm.trans hwoven
  rw [hliterals] at hstyled ⊢
  refine ⟨_, hout, rfl, rfl, rfl, by decide +kernel, ?_⟩
  exact (hstyled _ "  Use(@\"a \n b\", x2);\r\n\x7d\r\n".toList (by decide +kernel)
    (by decide +kernel)).2

end Transform
end ParamTwin
