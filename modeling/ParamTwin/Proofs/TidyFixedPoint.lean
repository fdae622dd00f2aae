import ParamTwin.Proofs.Insertion
import ParamTwin.Proofs.TidyContent
import ParamTwin.Proofs.TreePath

/-!
# A tidied text is a fixed point

Tidying a tidied text again changes nothing, if the literals of the second text are those of the
first one where they now stand (`Tidy.Image`). Line feeds and solid characters keep their order, so
a line feed is inside a literal of the first text exactly if the line feed that came from it is
inside the image of that literal (`Tidy.inside_iff`); then both passes treat each line alike
(`Tidy.body_body`).
-/

namespace ParamTwin

namespace Tidy

open Text

/-- The span `s'` of `out` is the image of the span `s` of `t`: both cover the same text, and the
same solid characters stand before and after it. -/
def Image (t out : Text) (s s' : Span) : Prop :=
  ∃ pre lit post pre' post', t = pre ++ lit ++ post ∧ out = pre' ++ lit ++ post' ∧
    s = ⟨byteSize pre, byteSize pre + byteSize lit⟩ ∧
    s' = ⟨byteSize pre', byteSize pre' + byteSize lit⟩ ∧
    solid pre' = solid pre ∧ solid post' = solid post

section
variable {ending : Text} {literals literals' : List Span} {position position' : Nat}

/-! ## A second pass over the lines -/

theorem exists_closed (he : IsEnding ending) (literals : List Span) (position : Nat) {line : Text}
    (h : '\n' ∉ line) :
    ∃ line', '\n' ∉ line' ∧ closed ending literals position line = line' ++ ['\n'] := by
  unfold closed
  split
  · exact ⟨line, h, rfl⟩
  · obtain ⟨front, rfl, hfront, -⟩ := he
    refine ⟨trimEnd line ++ front, ?_, by simp⟩
    simp [not_mem_trimEnd h, hfront]

/-- A closed line is closed alike if its line feed is inside a literal again, or outside again. -/
theorem closed_closed (he : IsEnding ending) {line line' : Text}
    (hc : closed ending literals position line = line' ++ ['\n'])
    (hin : isInside literals' (position' + byteSize line') =
      isInside literals (position + byteSize line)) :
    closed ending literals' position' line' = line' ++ ['\n'] := by
  unfold closed at hc ⊢
  rw [hin]
  split
  · rfl
  · rename_i hout
    rw [if_neg hout] at hc
    obtain ⟨front, rfl, -, hblank⟩ := he
    have hline : line' = trimEnd line ++ front := by
      rw [← List.append_assoc] at hc
      exact (List.append_cancel_right hc).symm
    rw [hline, trimEnd_append_blank _ hblank, trimEnd_trimEnd, List.append_assoc]

theorem body_body (he : IsEnding ending) {t : Text}
    (h : ∀ a b a', t = a ++ '\n' :: b →
      body ending literals position (a ++ ['\n']) = a' ++ ['\n'] →
      isInside literals' (position' + byteSize a') = isInside literals (position + byteSize a)) :
    body ending literals' position' (body ending literals position t) =
      body ending literals position t := by
  induction t using lineInduction generalizing position position' with
  | last t hfeed =>
    rw [body_last hfeed, body_last (not_mem_trimEnd hfeed), trimEnd_trimEnd]
  | step line rest hline ih =>
    obtain ⟨line', hline', hc⟩ := exists_closed he literals position hline
    have hin := h line rest line' rfl (by rw [body_feed hline, hc, body_nil, List.append_nil])
    have hagain := closed_closed he hc hin
    rw [body_feed hline, hc, List.append_assoc, List.singleton_append, body_feed hline', hagain,
      ih, List.append_assoc, List.singleton_append]
    intro a b a' hsplit ha
    have hlater := h (line ++ '\n' :: a) b (line' ++ '\n' :: a') (by simp [hsplit]) (by
      rw [List.append_assoc, List.cons_append, body_feed hline, hc, ha]
      simp)
    simp only [byteSize_append, byteSize_feed] at hlater
    rw [show position' + byteSize line' + 1 + byteSize a' =
      position' + (byteSize line' + (1 + byteSize a')) by omega, hlater]
    congr 1
    omega

/-! ## What trails -/

theorem endsSolid_body {t : Text} (ht : EndsSolid t) :
    EndsSolid (body ending literals position t) := by
  induction t using lineInduction generalizing position with
  | last t h =>
    rw [body_last h, trimEnd_of_endsSolid ht]
    exact ht
  | step line rest h ih =>
    rw [body_feed h]
    exact (ih ht.after_feed).append _

/-- Trimming the tidied lines is tidying the trimmed text. -/
theorem trimEnd_body (he : IsEnding ending) (t : Text) :
    trimEnd (body ending literals position t) = body ending literals position (trimEnd t) := by
  by_cases ht : trimEnd t = []
  · have hblank : solid (body ending literals position t) = [] := by
      rw [solid_body he, ← solid_trimEnd, ht, solid_nil]
    rw [ht, body_nil, trimEnd_eq_nil_iff]
    exact solid_eq_nil_iff.1 hblank
  · obtain ⟨w, hw, hblank⟩ := exists_trimEnd_append t
    have hrest : solid (body ending literals (position + byteSize (trimEnd t)) w) = [] := by
      rw [solid_body he, solid_eq_nil_iff.2 hblank]
    conv_lhs => rw [hw]
    rw [body_append (endsSolid_trimEnd ht), trimEnd_append_blank _ (solid_eq_nil_iff.1 hrest),
      trimEnd_of_endsSolid (endsSolid_body (endsSolid_trimEnd ht))]

theorem body_append_feed (a b : Text) :
    body ending literals position (a ++ '\n' :: b) =
      body ending literals position (a ++ ['\n']) ++
        body ending literals (position + byteSize a + 1) b := by
  induction a using lineInduction generalizing position with
  | last a h => rw [body_feed h, body_feed h, body_nil, List.append_nil]
  | step line rest h ih =>
    rw [List.append_assoc, List.cons_append, body_feed h, ih, List.append_assoc, List.cons_append,
      body_feed h, byteSize_append, byteSize_feed, List.append_assoc]
    congr 3
    omega

theorem body_ending (he : IsEnding ending) : body ending literals position ending = ending := by
  obtain ⟨front, rfl, hfront, hblank⟩ := he
  rw [body_feed hfront, body_nil, List.append_nil, closed]
  split
  · rfl
  · rw [trimEnd_eq_nil_iff.2 hblank, List.nil_append]

/-! ## Line feeds and solid characters keep their order -/

theorem skeleton_closed (he : IsEnding ending) {line : Text} (h : '\n' ∉ line) :
    skeleton (closed ending literals position line) = skeleton line ++ ['\n'] := by
  obtain ⟨line', hline', hc⟩ := exists_closed he literals position h
  have hsolid := solid_closed he literals position line
  rw [hc, solid_append, show solid ['\n'] = [] by decide, List.append_nil] at hsolid
  rw [hc, skeleton_append, skeleton_eq_solid hline', hsolid, skeleton_eq_solid h]
  rfl

theorem skeleton_body (he : IsEnding ending) (t : Text) :
    skeleton (body ending literals position t) = skeleton t := by
  induction t using lineInduction generalizing position with
  | last t h =>
    rw [body_last h, skeleton_eq_solid (not_mem_trimEnd h), skeleton_eq_solid h, solid_trimEnd]
  | step line rest h ih =>
    rw [body_feed h, skeleton_append, skeleton_closed he h, ih]
    simp

end

/-! ## Literals and their images -/

/-- A line feed stands before the end of a front part exactly if that part has more of the
skeleton. -/
theorem byteSize_lt_iff {a b x y : Text} (h : a ++ '\n' :: b = x ++ y) :
    byteSize a < byteSize x ↔ (skeleton a).length < (skeleton x).length := by
  constructor
  · intro hlt
    obtain ⟨m, rfl, hm⟩ := exists_append_of_byteSize_le h hlt.le
    cases m with
    | nil => simp at hlt
    | cons c m =>
      cases hm
      simp
  · intro hlt
    by_contra hle
    obtain ⟨m, rfl, -⟩ := exists_append_of_byteSize_le h.symm (Nat.not_lt.1 hle)
    simp only [skeleton_append, List.length_append] at hlt
    omega

theorem byteSize_eq_of_skeleton_eq {a b x y : Text} (h : a ++ '\n' :: b = x ++ '\n' :: y)
    (hs : skeleton a = skeleton x) : byteSize a = byteSize x := by
  have h1 := byteSize_lt_iff h
  have h2 := byteSize_lt_iff h.symm
  rw [hs] at h1 h2
  omega

section
variable {a b a' b' pre lit post pre' post' : Text}

/-- A line feed at the start of a literal comes to stand at the start of its image. -/
theorem byteSize_eq_pre (h : a ++ '\n' :: b = pre ++ lit ++ post)
    (h' : a' ++ '\n' :: b' = pre' ++ lit ++ post') (hlit : lit ≠ [])
    (ha : skeleton a' = skeleton a) (hpre : skeleton pre' = skeleton pre)
    (heq : byteSize a = byteSize pre) : byteSize a' = byteSize pre' := by
  rw [List.append_assoc] at h h'
  obtain ⟨rfl, hstart⟩ := append_inj_of_byteSize h heq
  obtain ⟨c, lit, rfl⟩ := List.exists_cons_of_ne_nil hlit
  cases hstart
  exact byteSize_eq_of_skeleton_eq h' (ha.trans hpre.symm)

/-- A line feed is strictly inside a literal exactly if the one that came from it is strictly inside
the image. -/
theorem inside_iff (h : a ++ '\n' :: b = pre ++ lit ++ post)
    (h' : a' ++ '\n' :: b' = pre' ++ lit ++ post') (hlit : lit ≠ [])
    (ha : skeleton a' = skeleton a) (hpre : skeleton pre' = skeleton pre) :
    (byteSize pre' < byteSize a' ∧ byteSize a' < byteSize pre' + byteSize lit) ↔
      (byteSize pre < byteSize a ∧ byteSize a < byteSize pre + byteSize lit) := by
  have hstop := byteSize_lt_iff h
  have hstop' := byteSize_lt_iff h'
  rw [List.append_assoc] at h h'
  have hstart := byteSize_lt_iff h
  have hstart' := byteSize_lt_iff h'
  rw [← List.append_assoc] at h h'
  have heq := byteSize_eq_pre h h' hlit ha hpre
  have heq' := byteSize_eq_pre h' h hlit ha.symm hpre.symm
  simp only [byteSize_append, skeleton_append, ha, hpre] at hstop hstop' hstart hstart'
  omega

end

theorem skeleton_pre_eq {t out pre lit post pre' post' : Text} (ht : t = pre ++ lit ++ post)
    (hout : out = pre' ++ lit ++ post') (hlit : EndsSolid lit)
    (hpre : solid pre' = solid pre) (hs : skeleton out = skeleton t) :
    skeleton pre' = skeleton pre := by
  subst ht hout
  rw [skeleton_append, skeleton_append (pre ++ lit)] at hs
  have heq := eq_of_solid_eq hs (hlit.append pre').skeleton (hlit.append pre).skeleton
    (by rw [solid_skeleton, solid_skeleton, solid_append, solid_append, hpre])
  rw [skeleton_append, skeleton_append] at heq
  exact List.append_cancel_right heq

/-! ## The line ending -/

theorem return_infix_feed {line rest : Text} (h : '\n' ∉ line) :
    ['\r', '\n'] <:+: line ++ '\n' :: rest ↔
      line.getLast? = some '\r' ∨ ['\r', '\n'] <:+: rest := by
  induction line with
  | nil => simp [List.infix_cons_iff, List.cons_prefix_cons]
  | cons c cs ih =>
    simp only [List.mem_cons, not_or] at h
    rw [List.cons_append, List.infix_cons_iff, ih h.2, List.cons_prefix_cons]
    cases cs with
    | nil => simp [List.cons_prefix_cons, eq_comm (a := c)]
    | cons d cs =>
      have hd : '\n' ≠ d := fun hd => h.2 (hd ▸ List.mem_cons_self)
      simp [List.cons_prefix_cons, hd]

theorem no_return_of_no_feed {t : Text} (h : '\n' ∉ t) : ¬['\r', '\n'] <:+: t :=
  fun hin => h (hin.subset (by simp))

/-- With a line feed alone as the ending, tidying brings no carriage return before a line feed. -/
theorem return_infix_of_body {literals : List Span} {position : Nat} {t : Text}
    (h : ['\r', '\n'] <:+: body ['\n'] literals position t) : ['\r', '\n'] <:+: t := by
  induction t using lineInduction generalizing position with
  | last t hfeed =>
    rw [body_last hfeed] at h
    exact absurd h (no_return_of_no_feed (not_mem_trimEnd hfeed))
  | step line rest hline ih =>
    rw [body_feed hline] at h
    rw [return_infix_feed hline]
    unfold closed at h
    split at h
    · rw [List.append_assoc, List.singleton_append, return_infix_feed hline] at h
      exact h.imp id ih
    · rw [List.append_assoc, List.singleton_append,
        return_infix_feed (not_mem_trimEnd hline)] at h
      rcases h with hlast | h
      · have hne : trimEnd line ≠ [] := by
          intro hnil
          rw [hnil] at hlast
          cases hlast
        obtain ⟨c, hc, hb⟩ := endsSolid_trimEnd hne
        cases hlast.symm.trans hc
        exact absurd hb (by decide)
      · exact .inr (ih h)

theorem lineEnding_eq_return {t : Text} (h : ['\r', '\n'] <:+: t) :
    lineEnding t = ['\r', '\n'] :=
  if_pos (occursIn_iff.2 h)

theorem lineEnding_eq_feed {t : Text} (h : ¬['\r', '\n'] <:+: t) :
    lineEnding t = ['\n'] :=
  if_neg fun hin => h (occursIn_iff.1 hin)

/-- A tidied text has the line ending of the text. -/
theorem lineEnding_body_append {literals : List Span} {t : Text} (ht : EndsSolid (trimEnd t)) :
    lineEnding (body (lineEnding t) literals 0 (trimEnd t) ++ lineEnding t) = lineEnding t := by
  by_cases h : ['\r', '\n'] <:+: t
  · rw [lineEnding_eq_return h]
    exact lineEnding_eq_return (List.suffix_append ..).isInfix
  · rw [lineEnding_eq_feed h]
    refine lineEnding_eq_feed fun hin => h ?_
    obtain ⟨front, back, hsplit⟩ := hin
    obtain ⟨w, hw, -⟩ := exists_trimEnd_append t
    have hbody : ['\r', '\n'] <:+: body ['\n'] literals 0 (trimEnd t) := by
      rcases List.eq_nil_or_concat back with rfl | ⟨back, c, rfl⟩
      · have hend : EndsSolid (front ++ ['\r']) := by
          have hcut : (front ++ ['\r']) ++ ['\n'] =
              body ['\n'] literals 0 (trimEnd t) ++ ['\n'] := by simpa using hsplit
          rw [List.append_cancel_right hcut]
          exact endsSolid_body ht
        exact absurd (hend.of_append (by simp)) (by decide)
      · refine ⟨front, back, ?_⟩
        rw [List.concat_eq_append, ← List.append_assoc] at hsplit
        exact (List.append_inj' hsplit rfl).1
    have hinfix := return_infix_of_body hbody
    rw [hw]
    exact hinfix.trans (List.prefix_append ..).isInfix

/-! ## Tidying again -/

theorem run_of_endsSolid {t : Text} (literals : List Span) (ht : EndsSolid (trimEnd t)) :
    run t literals = body (lineEnding t) literals 0 (trimEnd t) ++ lineEnding t := by
  rw [run_eq, trimEnd_body (isEnding_lineEnding t), if_neg (endsSolid_body ht).ne_nil]

theorem run_of_trimEnd_eq_nil {t : Text} (literals : List Span) (h : trimEnd t = []) :
    run t literals = [] := by
  rw [run_eq, trimEnd_body (isEnding_lineEnding t), h, body_nil, if_pos rfl]

section
variable {t : Text} {literals literals' : List Span}

/-- A literal that ends solid has an image. -/
theorem exists_image {s : Span} {lit : Text} (hs : s ∈ literals) (hlit : t.at? s = some lit)
    (hsolid : EndsSolid lit) : ∃ s', Image t (run t literals) s s' := by
  obtain ⟨pre, post, rfl, rfl⟩ := at?_eq_some_iff.1 hlit
  obtain ⟨pre', post', hrun, hpre, hpost⟩ := run_keeps_literal hs hsolid post
  exact ⟨_, pre, lit, post, pre', post', rfl, hrun, rfl, rfl, hpre, hpost⟩

/-- There is one image of a literal that ends solid. -/
theorem Image.unique {out lit : Text} {s s' s'' : Span} (h : Image t out s s')
    (h' : Image t out s s'') (hlit : t.at? s = some lit) (hsolid : EndsSolid lit) : s' = s'' := by
  obtain ⟨pre, piece, post, pre', post', ht, hout, hs, rfl, hpre, -⟩ := h
  obtain ⟨q, piece', r, q', r', ht', hout', hs', rfl, hq, -⟩ := h'
  obtain rfl := eq_of_at?_eq_some hlit ht hs
  obtain rfl := eq_of_at?_eq_some hlit ht' hs'
  have hpq : pre = q := by
    rw [ht, List.append_assoc, List.append_assoc] at ht'
    rw [hs] at hs'
    exact (append_inj_of_byteSize ht' (congrArg Span.start hs')).1
  subst hpq
  have hfront : pre' ++ piece' = q' ++ piece' := by
    refine eq_of_solid_eq (hout.symm.trans hout') (hsolid.append pre') (hsolid.append q') ?_
    rw [solid_append, solid_append, hpre, hq]
  rw [List.append_cancel_right hfront]

/-- Inside an image are the line feeds that came from inside the literal. -/
theorem Image.inside_iff {s s' : Span} {lit a b a' b' : Text}
    (himage : Image t (run t literals) s s') (hlit : t.at? s = some lit)
    (hsolid : EndsSolid lit) (ht : EndsSolid (trimEnd t)) (ha : trimEnd t = a ++ '\n' :: b)
    (ha' : body (lineEnding t) literals 0 (trimEnd t) = a' ++ '\n' :: b')
    (hskel : skeleton a' = skeleton a) :
    (s'.start < byteSize a' ∧ byteSize a' < s'.stop) ↔
      (s.start < byteSize a ∧ byteSize a < s.stop) := by
  obtain ⟨pre, piece, post, pre', post', hsplit, hout, rfl, rfl, hpre, -⟩ := himage
  obtain rfl := eq_of_at?_eq_some hlit hsplit rfl
  -- both the literal and its image lie before what trails
  obtain ⟨w, hw, hblank⟩ := exists_trimEnd_append t
  obtain ⟨q, hq⟩ := exists_append_of_endsSolid (hsplit.symm.trans hw) (hsolid.append pre) hblank
  rw [run_of_endsSolid literals ht] at hout
  have hending := (isEnding_lineEnding t).blank
  obtain ⟨q', hq'⟩ := exists_append_of_endsSolid hout.symm (hsolid.append pre') hending
  have hpre' : skeleton pre' = skeleton pre :=
    skeleton_pre_eq hq hq' hsolid hpre (skeleton_body (isEnding_lineEnding t) _)
  exact Tidy.inside_iff (ha.symm.trans hq) (ha'.symm.trans hq') hsolid.ne_nil hskel hpre'

/-- A tidied text is tidy, if its literals are the images of those of the text. -/
theorem run_run (hsolid : ∀ s ∈ literals, ∃ lit, t.at? s = some lit ∧ EndsSolid lit)
    (himage : ∀ s', s' ∈ literals' ↔ ∃ s ∈ literals, Image t (run t literals) s s') :
    run (run t literals) literals' = run t literals := by
  by_cases hempty : trimEnd t = []
  · rw [run_of_trimEnd_eq_nil literals hempty]
    rfl
  have ht := endsSolid_trimEnd hempty
  have he := isEnding_lineEnding t
  have hbody : body (lineEnding t) literals' 0 (body (lineEnding t) literals 0 (trimEnd t)) =
      body (lineEnding t) literals 0 (trimEnd t) := by
    refine body_body he fun a b a' ha ha' => ?_
    have hsplit : body (lineEnding t) literals 0 (trimEnd t) =
        a' ++ '\n' :: body (lineEnding t) literals (0 + byteSize a + 1) b := by
      rw [ha, body_append_feed, ha', List.append_assoc, List.singleton_append]
    have hskel : skeleton a' = skeleton a := by
      have h : skeleton (body (lineEnding t) literals 0 (a ++ ['\n'])) = _ := skeleton_body he _
      rw [ha', skeleton_append, skeleton_append] at h
      exact List.append_cancel_right h
    rw [Bool.eq_iff_iff, Nat.zero_add, Nat.zero_add, isInside_iff, isInside_iff]
    constructor
    · rintro ⟨s', hs', hin⟩
      obtain ⟨s, hs, himg⟩ := (himage s').1 hs'
      obtain ⟨lit, hlit, hend⟩ := hsolid s hs
      exact ⟨s, hs, (himg.inside_iff hlit hend ht ha hsplit hskel).1 hin⟩
    · rintro ⟨s, hs, hin⟩
      obtain ⟨lit, hlit, hend⟩ := hsolid s hs
      obtain ⟨s', himg⟩ := exists_image hs hlit hend
      exact ⟨s', (himage s').2 ⟨s, hs, himg⟩, (himg.inside_iff hlit hend ht ha hsplit hskel).2 hin⟩
  rw [run_of_endsSolid literals ht, run_eq, lineEnding_body_append ht,
    body_append (endsSolid_body ht), hbody, body_ending he,
    trimEnd_append_blank _ he.blank, trimEnd_of_endsSolid (endsSolid_body ht),
    if_neg (endsSolid_body ht).ne_nil]

end
end Tidy

/-! ## A second run -/

/-- The literals of a text end solid, and those of the tidied text are their images. -/
structure Grammar.KeepsLiterals (grammar : Grammar) (t : Text) : Prop where
  solid : ∀ s ∈ grammar.literals t, ∃ lit, t.at? s = some lit ∧ Text.EndsSolid lit
  image : ∀ s', s' ∈ grammar.literals (Tidy.run t (grammar.literals t)) ↔
    ∃ s ∈ grammar.literals t, Tidy.Image t (Tidy.run t (grammar.literals t)) s s'

namespace Plan

theorem ofProcedure?_of_length_ne_one {m : Model} {suggester : Suggester} {count : Nat}
    {p : Procedure} (h : p.parameters.length ≠ 1) :
    ofProcedure? m suggester count p = some [] := by
  unfold ofProcedure?
  split
  · rename_i parameter hp
    exact absurd (by rw [hp]; rfl) h
  · rfl

/-- Procedures that have not exactly one parameter are counted and nothing else. -/
theorem ofProcedures?_of_length_ne_one {m : Model} {suggester : Suggester} {count : Nat}
    {ps : List Procedure} (h : ∀ p ∈ ps, p.parameters.length ≠ 1) (plan : Plan) :
    ofProcedures? m suggester count plan ps =
      some { plan with
        counts := { plan.counts with procedures := plan.counts.procedures + ps.length } } := by
  induction ps generalizing plan with
  | nil => rfl
  | cons p ps ih =>
    rw [ofProcedures?, ofProcedure?_of_length_ne_one (h p (.head _)), Option.bind_eq_bind,
      Option.bind_some, ih fun q hq => h q (.tail _ hq)]
    simp [add, Nat.add_assoc, Nat.add_comm 1]

end Plan

namespace Transform

/-- The plan for a source text. -/
def plan? (grammar : Grammar) (suggester : Suggester) (settings : Settings) (t : Text) :
    Option Plan :=
  Plan.make? (Model.build t (grammar.tree t)) (grammar.tree t) suggester
    settings.procedures.includeLocalFunctions (max settings.naming.candidateCount 1)

section
variable {grammar : Grammar} {suggester : Suggester} {settings : Settings} {t : Text}

theorem source_eq (grammar : Grammar) (suggester : Suggester) (settings : Settings) (t : Text) :
    source grammar suggester settings t =
      match plan? grammar suggester settings t with
      | none => .error .panic
      | some plan =>
        match render grammar t plan.edits with
        | .error e => .error (.failed e)
        | .ok text => .ok { text, counts := plan.counts } :=
  rfl

theorem source_eq_ok_iff {out : Transformed} :
    source grammar suggester settings t = .ok out ↔
      ∃ plan, plan? grammar suggester settings t = some plan ∧
        render grammar t plan.edits = .ok out.text ∧ out.counts = plan.counts := by
  rw [source_eq]
  cases plan? grammar suggester settings t with
  | none => simp
  | some plan =>
    cases hr : render grammar t plan.edits with
    | error e => simp [hr]
    | ok text =>
      obtain ⟨text', counts⟩ := out
      simp [hr, eq_comm]

theorem exists_plan_of_failed {e : Error}
    (h : source grammar suggester settings t = .error (.failed e)) :
    ∃ plan, plan? grammar suggester settings t = some plan ∧
      render grammar t plan.edits = .error e := by
  rw [source_eq] at h
  cases hplan : plan? grammar suggester settings t with
  | none => simp [hplan] at h
  | some plan =>
    refine ⟨plan, rfl, ?_⟩
    cases hr : render grammar t plan.edits with
    | error e' => simpa [hplan, hr] using h
    | ok text => simp [hplan, hr] at h

end

theorem render_fixed_point {grammar : Grammar} {source woven out : Text} {edits : List Edit}
    (hwoven : Edit.apply source edits = .ok woven) (hkeeps : grammar.KeepsLiterals woven)
    (hout : render grammar source edits = .ok out) : render grammar out [] = .ok out := by
  have hout' : Tidy.run woven (grammar.literals woven) = out := by
    rw [render, hwoven] at hout
    exact Except.ok.inj hout
  have hnone : Edit.apply out [] = .ok out := by simp [Edit.apply, Edit.sorted, Edit.weave]
  rw [render, hnone]
  have hagain := Tidy.run_run hkeeps.solid hkeeps.image
  rw [hout'] at hagain
  exact congrArg Except.ok hagain

/-- A text in which no procedure has exactly one parameter gives a plan without edits. -/
theorem plan?_of_length_ne_one {grammar : Grammar} (suggester : Suggester) {settings : Settings}
    {t : Text}
    (h : ∀ p ∈ Procedure.list t (grammar.tree t) settings.procedures.includeLocalFunctions,
      p.parameters.length ≠ 1) :
    plan? grammar suggester settings t = some {
      edits := []
      counts := {
        foundAny := false, changes := 0, usages := 0
        procedures := (Procedure.list t (grammar.tree t)
          settings.procedures.includeLocalFunctions).length } } := by
  rw [plan?, Plan.make?]
  exact (Plan.ofProcedures?_of_length_ne_one h Plan.empty).trans (by simp [Plan.empty])

/-- **Rendered text is a fixed point.** Rendering it again without edits gives it back, if its
literals are the images of those of the text that was tidied. So a run on the text of an earlier
run, with any suggester and settings, in which no procedure has exactly one parameter, finds
nothing, plans no edits and gives the text back. -/
theorem rendered_text_fixed (grammar : Grammar) :
    (∀ source edits woven out, Edit.apply source edits = .ok woven →
      grammar.KeepsLiterals woven → render grammar source edits = .ok out →
      render grammar out [] = .ok out) ∧
    ∀ suggester settings t plan woven first, plan? grammar suggester settings t = some plan →
      Edit.apply t plan.edits = .ok woven → grammar.KeepsLiterals woven →
      source grammar suggester settings t = .ok first →
      ∀ suggester' settings',
        let procedures := Procedure.list first.text (grammar.tree first.text)
          settings'.procedures.includeLocalFunctions
        (∀ p ∈ procedures, p.parameters.length ≠ 1) →
        ∃ counts,
          plan? grammar suggester' settings' first.text = some { edits := [], counts } ∧
          source grammar suggester' settings' first.text = .ok { text := first.text, counts } ∧
          counts =
            { foundAny := false, changes := 0, procedures := procedures.length, usages := 0 } := by
  refine ⟨fun source edits woven out hwoven hkeeps hout =>
    render_fixed_point hwoven hkeeps hout, ?_⟩
  intro suggester settings t plan woven first hplan hwoven hkeeps hfirst suggester' settings'
    procedures hnone
  obtain ⟨plan', hplan', hrender, -⟩ := source_eq_ok_iff.1 hfirst
  cases hplan.symm.trans hplan'
  have hagain := plan?_of_length_ne_one suggester' hnone
  refine ⟨_, hagain, source_eq_ok_iff.2 ⟨_, hagain, ?_, rfl⟩, rfl⟩
  exact render_fixed_point hwoven hkeeps hrender

/-! ## A text with a literal over two lines -/

/-- A method with one parameter, blanks at the end of a line before it, and a literal over two
lines in it. -/
def quotedSource : Text :=
  "class C  \n\x7b string M(int x) => @\"a \n b\" + x; \x7d \n\n".toList

def quotedTree : Node :=
  .ofRows [
    .named 0 "compilation_unit" none 0 49, .named 1 "class_declaration" none 0 46,
    .token 2 "class" 0, .named 2 "identifier" "name" 6 7, .named 2 "declaration_list" "body" 10 46,
    .token 3 "\x7b" 10, .named 3 "method_declaration" none 12 44,
    .named 4 "predefined_type" "returns" 12 18, .named 4 "identifier" "name" 19 20,
    .named 4 "parameter_list" "parameters" 20 27, .token 5 "(" 20, .named 5 "parameter" none 21 26,
    .named 6 "predefined_type" "type" 21 24, .named 6 "identifier" "name" 25 26, .token 5 ")" 26,
    .named 4 "arrow_expression_clause" "body" 28 43, .token 5 "=>" 28,
    .named 5 "binary_expression" none 31 43, .named 6 "verbatim_string_literal" "left" 31 39,
    .token 6 "+" 40 "operator", .named 6 "identifier" "right" 42 43, .token 4 ";" 43,
    .token 3 "\x7d" 45]

/-- The source with the second parameter inserted. -/
def quotedWoven : Text :=
  "class C  \n\x7b string M(int x, int x2) => @\"a \n b\" + x; \x7d \n\n".toList

def quotedOut : Text :=
  "class C\n\x7b string M(int x, int x2) => @\"a \n b\" + x; \x7d\n".toList

/-- The tree of the text with two parameters, with `k` blanks behind the name of the class. -/
def quotedPairTree (k stop : Nat) : Node :=
  .ofRows [
    .named 0 "compilation_unit" none 0 stop, .named 1 "class_declaration" none 0 (52 + k),
    .token 2 "class" 0, .named 2 "identifier" "name" 6 7,
    .named 2 "declaration_list" "body" (8 + k) (52 + k), .token 3 "\x7b" (8 + k),
    .named 3 "method_declaration" none (10 + k) (50 + k),
    .named 4 "predefined_type" "returns" (10 + k) (16 + k),
    .named 4 "identifier" "name" (17 + k) (18 + k),
    .named 4 "parameter_list" "parameters" (18 + k) (33 + k), .token 5 "(" (18 + k),
    .named 5 "parameter" none (19 + k) (24 + k),
    .named 6 "predefined_type" "type" (19 + k) (22 + k),
    .named 6 "identifier" "name" (23 + k) (24 + k), .token 5 "," (24 + k),
    .named 5 "parameter" none (26 + k) (32 + k),
    .named 6 "predefined_type" "type" (26 + k) (29 + k),
    .named 6 "identifier" "name" (30 + k) (32 + k), .token 5 ")" (32 + k),
    .named 4 "arrow_expression_clause" "body" (34 + k) (49 + k), .token 5 "=>" (34 + k),
    .named 5 "binary_expression" none (37 + k) (49 + k),
    .named 6 "verbatim_string_literal" "left" (37 + k) (45 + k),
    .token 6 "+" (46 + k) "operator", .named 6 "identifier" "right" (48 + k) (49 + k),
    .token 4 ";" (49 + k), .token 3 "\x7d" (51 + k)]

/-- What a parser reads in the texts above. -/
def quotedGrammar : Grammar where
  tree t :=
    if t = quotedSource then quotedTree
    else if t = quotedWoven then quotedPairTree 2 57 else quotedPairTree 0 53

theorem quotedGrammar_keepsLiterals : quotedGrammar.KeepsLiterals quotedWoven := by
  have hlit : quotedWoven.at? ⟨39, 47⟩ = some "@\"a \n b\"".toList := by decide +kernel
  have hsolid : Text.EndsSolid "@\"a \n b\"".toList := by decide
  have hwoven : quotedGrammar.literals quotedWoven = [⟨39, 47⟩] := by decide +kernel
  have hrun : Tidy.run quotedWoven [⟨39, 47⟩] = quotedOut := by decide +kernel
  have hout : quotedGrammar.literals quotedOut = [⟨37, 45⟩] := by decide +kernel
  have himage : Tidy.Image quotedWoven quotedOut ⟨39, 47⟩ ⟨37, 45⟩ :=
    ⟨"class C  \n\x7b string M(int x, int x2) => ".toList, "@\"a \n b\"".toList,
      " + x; \x7d \n\n".toList, "class C\n\x7b string M(int x, int x2) => ".toList,
      " + x; \x7d\n".toList, by decide +kernel, by decide +kernel, by decide +kernel,
      by decide +kernel, by decide +kernel, by decide +kernel⟩
  constructor
  · rw [hwoven]
    intro s hs
    cases List.mem_singleton.1 hs
    exact ⟨_, hlit, hsolid⟩
  · rw [hwoven, hrun, hout]
    intro s'
    simp only [List.mem_singleton, exists_eq_left]
    exact ⟨fun h => h ▸ himage, fun h => h.unique himage hlit hsolid⟩

theorem quoted_second_run :
    (∃ first, source quotedGrammar .deterministic {} quotedSource = .ok first ∧
      first.text = quotedOut ∧ first.counts.changes = 1) ∧
    source quotedGrammar .deterministic {} quotedOut = .ok {
      text := quotedOut
      counts := { foundAny := false, changes := 0, procedures := 1, usages := 0 } } := by
  have hplan : plan? quotedGrammar .deterministic {} quotedSource = some {
      edits := [⟨26, ", int x2".toList⟩]
      counts := { foundAny := true, changes := 1, procedures := 1, usages := 0 } } := by
    decide +kernel
  have hwoven : Edit.apply quotedSource [⟨26, ", int x2".toList⟩] = .ok quotedWoven := by
    decide +kernel
  have hfirst : source quotedGrammar .deterministic {} quotedSource = .ok {
      text := quotedOut
      counts := { foundAny := true, changes := 1, procedures := 1, usages := 0 } } :=
    source_eq_ok_iff.2 ⟨_, hplan, by decide +kernel, rfl⟩
  obtain ⟨counts, -, hsource, hcounts⟩ := (rendered_text_fixed quotedGrammar).2 .deterministic {}
    quotedSource _ quotedWoven _ hplan hwoven quotedGrammar_keepsLiterals hfirst .deterministic {}
    (by decide +kernel)
  have hone : (Procedure.list quotedOut (quotedGrammar.tree quotedOut) true).length = 1 := by
    decide +kernel
  refine ⟨⟨_, hfirst, rfl, rfl⟩, ?_⟩
  rw [hsource, hcounts]
  exact congrArg (fun n => Except.ok (Transformed.mk quotedOut (Counts.mk false 0 n 0))) hone

end Transform
end ParamTwin
