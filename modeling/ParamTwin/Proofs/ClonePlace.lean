import ParamTwin.Proofs.NewName
import ParamTwin.Proofs.ProcedurePlace
import ParamTwin.Proofs.TextCut
import ParamTwin.Proofs.TextLines
import Mathlib.Data.List.Pairwise

/-!
# The place of the duplicated statement

Where the copy of a statement goes is read off the text behind the statement: before the next line
feed, if only white space or a line comment stands there, and right behind the statement otherwise.
The tree knows more: a line comment also ends at a carriage return. So a token of the program comes
to stand between a statement and its copy exactly if a line comment behind the statement is ended by
a carriage return alone and no line feed stands before the token (`Usage.RunsOver`).

* `Usage.insertAfter?_eq_some`: where the copy goes, in terms of the text behind the statement.
* `Usage.exists_comment`: a line comment behind a statement ends before each token that follows.
* `Usage.start_lt_offset_iff`: the tokens that come to stand before the copy.
* `Plan.clone_separated_iff`: this for every procedure with one parameter.
-/

namespace ParamTwin

/-- The line comment that a text starts with: all up to the first carriage return or line feed. -/
def Text.lineComment (t : Text) : Text :=
  t.takeWhile fun c => c != '\r' && c != '\n'

/-- The text starts with a character that is no white space. -/
def Text.StartsSolid (t : Text) : Prop :=
  ∃ c ∈ t.head?, isBlank c = false

instance (t : Text) : Decidable t.StartsSolid :=
  decidable_of_iff (t.head?.any (!Text.isBlank ·) = true)
    (by simp [Text.StartsSolid, Option.any_eq_true])

namespace Node

open Text

/-- The nodes without children in document order. -/
def leaves (root : Node) : List Node :=
  root.preorder.filter (·.children.isEmpty)

/-- A token of the program: no comment, and its text starts with no white space. -/
def IsToken (source : Text) (n : Node) : Prop :=
  n.kind ≠ "comment" ∧ ∃ t ∈ source.at? n.span, t.StartsSolid

instance (source : Text) (n : Node) : Decidable (n.IsToken source) :=
  inferInstanceAs (Decidable (_ ∧ _))

/-- The leaves of a tree follow each other, and where `//` stands behind a statement, after white
space, a comment starts that ends before the next carriage return or line feed. -/
structure Lexed (source : Text) (root : Node) : Prop where
  ordered : root.leaves.Pairwise fun a b => a.span.stop ≤ b.span.start
  comments : ∀ s ∈ root.preorder, Kind.isStatement s.kind = true →
    ∀ cut ∈ splitAt? s.span.stop source, ['/', '/'] <+: trimStart cut.2 →
      ∃ c ∈ root.leaves, c.kind = "comment" ∧
        c.span.start = s.span.stop + byteSize (cut.2.takeWhile isBlank) ∧
        c.span.stop = c.span.start + byteSize (lineComment (trimStart cut.2))

instance (source : Text) (root : Node) : Decidable (root.Lexed source) :=
  decidable_of_iff (_ ∧ _) ⟨fun h => ⟨h.1, h.2⟩, fun h => ⟨h.ordered, h.comments⟩⟩

theorem Lexed.apart {source : Text} {root a b : Node} (h : root.Lexed source) (ha : a ∈ root.leaves)
    (hb : b ∈ root.leaves) (hne : a ≠ b) :
    a.span.stop ≤ b.span.start ∨ b.span.stop ≤ a.span.start := by
  let Apart (a b : Node) : Prop := a.span.stop ≤ b.span.start ∨ b.span.stop ≤ a.span.start
  have : Std.Symm Apart := ⟨fun _ _ h => h.symm⟩
  have hall : root.leaves.Pairwise Apart := h.ordered.imp Or.inl
  exact hall.forall ha hb hne

/-- A leaf ends at a carriage return that no line feed follows, before more text. -/
def EndsAtReturn (source : Text) (n : Node) : Prop :=
  ∃ upTo c rest, splitAt? n.span.stop source = some (upTo, '\r' :: c :: rest) ∧ c ≠ '\n'

/-- Each character that is no white space stands in a leaf. -/
def Covered (source : Text) (root : Node) : Prop :=
  ∀ offset < byteSize source, ∀ cut ∈ splitAt? offset source, cut.2.StartsSolid →
    ∃ n ∈ root.leaves, n.span.start ≤ offset ∧ offset < n.span.stop

instance (source : Text) (root : Node) : Decidable (root.Covered source) :=
  inferInstanceAs (Decidable (∀ offset < byteSize source, _))

end Node

namespace Usage

open Text

/-- A line comment follows the statement, and no line feed stands before the token. -/
def RunsOver (source : Text) (s t : Node) : Prop :=
  ∃ between ∈ source.slice? s.span.stop t.span.start,
    '\n' ∉ between ∧ ['/', '/'] <+: trimStart between

instance (source : Text) (s t : Node) : Decidable (RunsOver source s t) :=
  inferInstanceAs (Decidable (∃ between ∈ source.slice? s.span.stop t.span.start, _))

/-! ## The rest of the line -/

theorem exists_head_line (t : Text) :
    ∃ more, t = (lines t).headD [] ++ more ∧ '\n' ∉ (lines t).headD [] ∧
      (more = [] ∨ ∃ rest, more = '\n' :: rest) := by
  by_cases h : '\n' ∈ t
  · obtain ⟨line, rest, rfl, hline⟩ := List.eq_append_cons_of_mem h
    refine ⟨'\n' :: rest, ?_⟩
    rw [lines_append_feed hline]
    exact ⟨rfl, hline, .inr ⟨rest, rfl⟩⟩
  · refine ⟨[], ?_⟩
    rw [lines_of_not_mem h]
    exact ⟨by simp, h, .inl rfl⟩

/-- The line that a text starts with, cut before the carriage return of its ending. -/
theorem lineLength?_eq_some {behind : Bool} {after : Text} {length : Nat}
    (h : lineLength? behind after = some length) :
    ∃ line ending more, after = line ++ (ending ++ more) ∧ byteSize line = length ∧
      '\n' ∉ line ∧ (ending = [] ∨ ending = ['\r']) ∧
      (more = [] ∨ ∃ rest, more = '\n' :: rest) := by
  obtain ⟨more, hsplit, hfeed, hmore⟩ := exists_head_line after
  unfold lineLength? at h
  generalize (lines after).headD [] = line at *
  cases hlast : line.getLast? with
  | none =>
    have hnil := List.getLast?_eq_none_iff.1 hlast
    simp only [hlast, Option.ite_none_left_eq_some, Option.some.injEq] at h
    exact ⟨[], [], more, by simpa [hnil] using hsplit, h.2, by simp, .inl rfl, hmore⟩
  | some c =>
    simp only [hlast, Option.some.injEq] at h
    obtain ⟨front, rfl⟩ := List.getLast?_eq_some_iff.1 hlast
    split at h
    · rename_i hc
      subst hc
      refine ⟨front, ['\r'], more, by simpa using hsplit, ?_, ?_, .inr rfl, hmore⟩
      · rw [← h, byteSize_append, show byteSize ['\r'] = 1 from rfl]
        omega
      · exact fun hin => hfeed (by simp [hin])
    · exact ⟨front ++ [c], [], more, hsplit, h, hfeed, .inl rfl, hmore⟩

/-- Behind the rest of a line only white space can follow before the line feed. -/
theorem isBlank_of_line_end {ending more m q : Text} {c : Char}
    (hend : ending = [] ∨ ending = ['\r']) (hmore : more = [] ∨ ∃ rest, more = '\n' :: rest)
    (h : ending ++ more = m ++ c :: q) (hm : '\n' ∉ m) : isBlank c = true := by
  have hfeed : ∀ m, more = m ++ c :: q → '\n' ∉ m → isBlank c = true := by
    intro m h hm
    rcases hmore with rfl | ⟨rest, rfl⟩
    · simp at h
    · cases m with
      | nil => cases h; decide
      | cons d m => cases h; simp at hm
  rcases hend with rfl | rfl
  · exact hfeed m h hm
  · cases m with
    | nil => cases h; decide
    | cons d m =>
      have hmore' : more = m ++ c :: q := (List.cons.inj h).2
      exact hfeed m hmore' fun hin => hm (by simp [hin])

/-- The copy goes to the end of the line if nothing but white space or a line comment follows the
statement there, and right behind the statement otherwise. -/
theorem insertAfter?_eq_some {source copy : Text} {span : Span} {e : Edit}
    (h : insertAfter? source span copy = some e) :
    ∃ upTo line ending more, splitAt? span.stop source = some (upTo, line ++ (ending ++ more)) ∧
      '\n' ∉ line ∧ (ending = [] ∨ ending = ['\r']) ∧
      (more = [] ∨ ∃ rest, more = '\n' :: rest) ∧
      e.offset = span.stop +
        if trim line = [] ∨ ['/', '/'] <+: trim line then byteSize line else 0 := by
  obtain ⟨⟨before, _⟩, -, h⟩ := Option.bind_eq_some_iff.1 h
  obtain ⟨⟨upTo, after⟩, hstop, h⟩ := Option.bind_eq_some_iff.1 h
  obtain ⟨length, hlength, h⟩ := Option.bind_eq_some_iff.1 h
  obtain ⟨⟨rest, _⟩, hrest, h⟩ := Option.bind_eq_some_iff.1 h
  obtain ⟨line, ending, more, rfl, rfl, hfeed, hend, hmore⟩ := lineLength?_eq_some hlength
  rw [splitAt?_append] at hrest
  obtain ⟨rfl, -⟩ := Prod.mk.inj (Option.some.inj hrest)
  cases h
  refine ⟨upTo, line, ending, more, hstop, hfeed, hend, hmore, ?_⟩
  simp only [Bool.or_eq_true, List.isEmpty_iff, List.isPrefixOf_iff_prefix]
  split <;> simp

/-! ## The text between a statement and a token -/

theorem trimStart_append {a b : Text} (h : trimStart a ≠ []) :
    trimStart (a ++ b) = trimStart a ++ b := by
  unfold trimStart at *
  rw [List.dropWhile_append, if_neg (by simpa using h)]

theorem slashes_trimStart_append {a : Text} (h : ['/', '/'] <+: trimStart a) (b : Text) :
    ['/', '/'] <+: trimStart (a ++ b) := by
  have hne : trimStart a ≠ [] := fun h' => by simp [h'] at h
  rw [trimStart_append hne]
  exact h.trans (List.prefix_append _ _)

theorem isBlank_of_trim_eq_nil {t : Text} (h : trim t = []) {c : Char} (hc : c ∈ t) :
    isBlank c = true := by
  rw [← List.takeWhile_append_dropWhile (p := isBlank) (l := t), List.mem_append] at hc
  rcases hc with hc | hc
  · exact List.mem_takeWhile_imp hc
  · exact trimEnd_eq_nil_iff.1 h c hc

theorem slashes_of_trimEnd {t : Text} (h : ['/', '/'] <+: trimEnd t) : ['/', '/'] <+: t := by
  obtain ⟨b, hb, -⟩ := exists_trimEnd_append t
  rw [hb]
  exact h.trans (List.prefix_append _ _)

theorem slashes_trimEnd {t : Text} (h : ['/', '/'] <+: t) : ['/', '/'] <+: trimEnd t := by
  obtain ⟨b, rfl⟩ := h
  rw [trimEnd_append (by decide)]
  exact List.prefix_append _ _

/-- Behind a line comment stands a line break or nothing. -/
theorem exists_lineComment_append (t : Text) :
    ∃ tail, t = lineComment t ++ tail ∧ ∀ r ∈ tail.head?, r = '\r' ∨ r = '\n' := by
  refine ⟨_, List.takeWhile_append_dropWhile.symm, fun r hr => ?_⟩
  have h := List.head?_dropWhile_not (fun c => c != '\r' && c != '\n') t
  rw [Option.mem_def.1 hr] at h
  simpa [or_iff_not_imp_left] using h

theorem slashes_lineComment {t : Text} (h : ['/', '/'] <+: t) : ['/', '/'] <+: lineComment t := by
  obtain ⟨b, rfl⟩ := h
  exact ⟨lineComment b, rfl⟩

/-- White space in front does not change where a text starts that starts with none. -/
theorem trimStart_blank_append {a b : Text} (ha : ∀ c ∈ a, isBlank c = true)
    (hb : ['/', '/'] <+: b) : trimStart (a ++ b) = b := by
  obtain ⟨b, rfl⟩ := hb
  rw [trimStart, List.dropWhile_append_of_pos ha]
  rfl

section
variable {source upTo after : Text} {root s t : Node}

/-- A token behind a statement cuts the text behind the statement. -/
theorem exists_between (hcut : splitAt? s.span.stop source = some (upTo, after))
    (ht : t.IsToken source) (hle : s.span.stop ≤ t.span.start) :
    ∃ between c rest, after = between ++ c :: rest ∧ isBlank c = false ∧
      t.span.start = s.span.stop + byteSize between ∧ t.span.start < t.span.stop ∧
      source.slice? s.span.stop t.span.start = some between := by
  obtain ⟨-, text, htext, c, hhead, hc⟩ := ht
  obtain ⟨pre, post, hsource, hspan⟩ := at?_eq_some_iff.1 htext
  obtain ⟨rest, rfl⟩ := List.head?_eq_some_iff.1 hhead
  obtain ⟨hsource', hstop⟩ := splitAt?_eq_some_iff.1 hcut
  have hstart : t.span.start = byteSize pre := by rw [hspan]
  have hpos : 0 < byteSize (c :: rest) :=
    Nat.pos_of_ne_zero fun h => by simpa using byteSize_eq_zero.1 h
  have heq : upTo ++ after = pre ++ (c :: (rest ++ post)) := by
    rw [← hsource', hsource]; simp
  obtain ⟨between, rfl, rfl⟩ := exists_append_of_byteSize_le heq (by omega)
  rw [byteSize_append] at hstart
  refine ⟨between, c, rest ++ post, rfl, hc, by omega, ?_, ?_⟩
  · rw [hspan]
    exact Nat.lt_add_of_pos_right hpos
  · refine at?_eq_some_iff (s := ⟨s.span.stop, t.span.start⟩).2
      ⟨upTo, c :: (rest ++ post), by simpa using hsource', ?_⟩
    rw [hstart, ← hstop]

/-- A line comment behind a statement ends before each token that follows, at a line break. -/
theorem exists_comment {between rest : Text} {c : Char} (hlexed : root.Lexed source)
    (hs : s ∈ root.preorder) (hkind : Kind.isStatement s.kind = true)
    (hcut : splitAt? s.span.stop source = some (upTo, between ++ c :: rest))
    (hc : isBlank c = false) (ht : t ∈ root.leaves) (hnot : t.kind ≠ "comment")
    (hstart : t.span.start = s.span.stop + byteSize between) (hpos : t.span.start < t.span.stop)
    (hslash : ['/', '/'] <+: trimStart (between ++ c :: rest)) :
    ∃ comment ∈ root.leaves, comment.kind = "comment" ∧ s.span.stop ≤ comment.span.start ∧
      ∃ front r more, between = front ++ r :: more ∧ (r = '\r' ∨ r = '\n') ∧
        comment.span.stop = s.span.stop + byteSize front ∧ ['/', '/'] <+: trimStart front := by
  obtain ⟨comment, hmem, hcomment, hfrom, hto⟩ := hlexed.comments s hs hkind _ hcut hslash
  dsimp only at hfrom hto
  generalize hafter : between ++ c :: rest = after at *
  -- The text behind the statement: white space, the comment and what follows the comment.
  have hblank : after.takeWhile isBlank ++ trimStart after = after :=
    List.takeWhile_append_dropWhile
  obtain ⟨tail, htail, hbreak⟩ := exists_lineComment_append (trimStart after)
  have hsplit : between ++ c :: rest =
      (after.takeWhile isBlank ++ lineComment (trimStart after)) ++ tail := by
    rw [hafter, List.append_assoc, ← htail, hblank]
  -- The token starts with no white space, so it does not stand before the comment.
  have hbefore : comment.span.stop ≤ t.span.start := by
    refine (hlexed.apart hmem ht fun h => hnot (h ▸ hcomment)).resolve_right fun hover => ?_
    obtain ⟨m, hm, hm'⟩ :=
      exists_append_of_byteSize_le (hafter.trans hblank.symm) (by omega)
    cases m with
    | nil =>
      rw [List.append_nil] at hm
      rw [hm] at hfrom
      omega
    | cons d m =>
      cases hm'
      have hd : c ∈ after.takeWhile isBlank := by rw [hm]; simp
      rw [List.mem_takeWhile_imp hd] at hc
      cases hc
  obtain ⟨m, hm, hm'⟩ := exists_append_of_byteSize_le hsplit.symm (by
    rw [byteSize_append]; omega)
  have hstarts := slashes_lineComment hslash
  have hfront : trimStart (after.takeWhile isBlank ++ lineComment (trimStart after)) =
      lineComment (trimStart after) :=
    trimStart_blank_append (fun _ => List.mem_takeWhile_imp) hstarts
  cases m with
  | nil =>
    have := hbreak c (by rw [hm']; rfl)
    rcases this with rfl | rfl <;> cases hc
  | cons r m =>
    refine ⟨comment, hmem, hcomment, by omega, _, r, m, hm, hbreak r (by rw [hm']; rfl), ?_, ?_⟩
    · rw [byteSize_append]
      omega
    · rw [hfront]
      exact hstarts

theorem exists_line_eq {line tail between rest : Text} {c : Char}
    (h : line ++ tail = between ++ c :: rest) (hlt : byteSize between < byteSize line) :
    ∃ m, line = between ++ c :: m := by
  obtain ⟨m, hm, hm'⟩ := exists_append_of_byteSize_le h.symm (Nat.le_of_lt hlt)
  cases m with
  | nil =>
    rw [hm, List.append_nil] at hlt
    omega
  | cons d m =>
    cases hm'
    exact ⟨m, hm⟩

/-- The tokens that come to stand between a statement and its copy. -/
theorem start_lt_offset_iff {copy : Text} {e : Edit} (hlexed : root.Lexed source)
    (hs : s ∈ root.preorder) (hkind : Kind.isStatement s.kind = true)
    (he : insertAfter? source s.span copy = some e) (ht : t ∈ root.leaves)
    (htoken : t.IsToken source) (hle : s.span.stop ≤ t.span.start) :
    t.span.start < e.offset ↔ RunsOver source s t := by
  obtain ⟨upTo, line, ending, more, hcut, hfeed, hend, hmore, hoffset⟩ := insertAfter?_eq_some he
  obtain ⟨between, c, rest, hafter, hc, hstart, hpos, hslice⟩ := exists_between hcut htoken hle
  have hruns : RunsOver source s t ↔ '\n' ∉ between ∧ ['/', '/'] <+: trimStart between := by
    simp [RunsOver, hslice]
  rw [hruns, hoffset, hstart]
  constructor
  · intro hlt
    split at hlt
    · rename_i hcond
      obtain ⟨m, hline⟩ := exists_line_eq hafter (by omega)
      have hsolid : trim line ≠ [] := fun h => by
        have hblank := isBlank_of_trim_eq_nil h (c := c) (by rw [hline]; simp)
        rw [hc] at hblank
        cases hblank
      have hslash : ['/', '/'] <+: trimStart (between ++ c :: rest) := by
        rw [← hafter]
        exact slashes_trimStart_append (slashes_of_trimEnd (hcond.resolve_left hsolid)) _
      rw [hafter] at hcut
      obtain ⟨comment, -, -, -, front, r, l, hbetween, -, -, hfront⟩ :=
        exists_comment hlexed hs hkind hcut hc ht htoken.1 hstart hpos hslash
      refine ⟨fun hin => hfeed (by rw [hline]; exact List.mem_append_left _ hin), ?_⟩
      rw [hbetween]
      exact slashes_trimStart_append hfront _
    · omega
  · rintro ⟨hno, hslash⟩
    -- Up to the line feed only white space follows the line, so the token stands on it.
    have hlt : byteSize between < byteSize line := by
      refine Nat.lt_of_not_le fun hge => ?_
      obtain ⟨m, hm, hm'⟩ := exists_append_of_byteSize_le hafter hge
      have hblank := isBlank_of_line_end hend hmore hm'
        fun hin => hno (by rw [hm]; exact List.mem_append_right _ hin)
      rw [hc] at hblank
      cases hblank
    obtain ⟨m, hline⟩ := exists_line_eq hafter hlt
    have hcond : ['/', '/'] <+: trim line := by
      rw [hline]
      exact slashes_trimEnd (slashes_trimStart_append hslash _)
    rw [if_pos (.inr hcond)]
    omega

/-- A token that a line comment runs over follows a comment that a carriage return alone ends. -/
theorem RunsOver.exists_return (h : RunsOver source s t) (hlexed : root.Lexed source)
    (hs : s ∈ root.preorder) (hkind : Kind.isStatement s.kind = true)
    (hcut : splitAt? s.span.stop source = some (upTo, after)) (ht : t ∈ root.leaves)
    (htoken : t.IsToken source) (hle : s.span.stop ≤ t.span.start) :
    ∃ comment ∈ root.leaves, comment.kind = "comment" ∧ s.span.stop ≤ comment.span.start ∧
      comment.span.stop ≤ t.span.start ∧ comment.EndsAtReturn source := by
  obtain ⟨between, c, rest, rfl, hc, hstart, hpos, hslice⟩ := exists_between hcut htoken hle
  obtain ⟨hno, hslash⟩ : '\n' ∉ between ∧ ['/', '/'] <+: trimStart between := by
    simpa [RunsOver, hslice] using h
  obtain ⟨comment, hmem, hcomment, hfrom, front, r, m, rfl, hr, hto, -⟩ :=
    exists_comment hlexed hs hkind hcut hc ht htoken.1 hstart hpos
      (slashes_trimStart_append hslash _)
  have hreturn : r = '\r' := hr.resolve_right fun hr => hno (by simp [hr])
  obtain ⟨hsource, hstop⟩ := splitAt?_eq_some_iff.1 hcut
  refine ⟨comment, hmem, hcomment, hfrom, ?_, upTo ++ front, ?_⟩
  · rw [hto, hstart, byteSize_append]
    omega
  · have hsplit (d : Char) (l : Text) (hd : m ++ c :: rest = d :: l) :
        splitAt? comment.span.stop source = some (upTo ++ front, '\r' :: d :: l) := by
      rw [hto, ← hstop, ← byteSize_append, hsource, hreturn]
      rw [show upTo ++ (front ++ '\r' :: m ++ c :: rest) = (upTo ++ front) ++ '\r' :: d :: l by
        simp [hd]]
      exact splitAt?_append _ _
    cases m with
    | nil => exact ⟨c, rest, hsplit c rest rfl, fun h => by rw [h] at hc; cases hc⟩
    | cons d m =>
      exact ⟨d, m ++ c :: rest, hsplit d _ rfl, fun h => hno (by simp [h])⟩

end

end Usage

namespace Plan

open Text Usage

/-- **What comes to stand between a statement and its copy.** The statement that is duplicated for a
procedure stands in a block or switch section of the procedure, and the copy is inserted behind it.
A token behind the statement comes to stand before the copy iff a line comment runs over it; then a
comment before the token is ended by a carriage return alone. -/
theorem clone_separated_iff (source : Text) (root : Node) (suggester : Suggester)
    (withLocal : Bool) (count : Nat) (plan : Plan) (p : Procedure) (parameter : Parameter)
    (symbol : Nat) (s : Node) (hlexed : root.Lexed source)
    (hplan : make? (Model.build source root) root suggester withLocal count = some plan)
    (hp : p ∈ Procedure.list source root withLocal) (hone : p.parameters = [parameter])
    (hsymbol : (Model.build source root).declared? parameter.binder = some symbol)
    (hs : locate? (Model.build source root) p.body parameter.name symbol = some s) :
    let m := Model.build source root
    let name := (newName m suggester count p parameter).toList
    StandsIn p.node s ∧
    ∃ e ∈ plan.edits, usageEdit? m p parameter name = some (some e) ∧ s.span.stop ≤ e.offset ∧
      ∀ t ∈ root.leaves, t.IsToken source → s.span.stop ≤ t.span.start →
        (t.span.start < e.offset ↔ RunsOver source s t) ∧
        (RunsOver source s t →
          ∃ comment ∈ root.leaves, comment.kind = "comment" ∧
            s.span.stop ≤ comment.span.start ∧ comment.span.stop ≤ t.span.start ∧
            comment.EndsAtReturn source) := by
  intro m name
  obtain ⟨hkind, body, hbody, hstands⟩ := standsIn_of_locate? hs
  obtain ⟨path, hpath⟩ := Procedure.mem_list_iff.1 hp
  have hstands : StandsIn p.node s :=
    hstands.mono (Node.child_mem_preorder (Procedure.body_of_at? hpath hbody))
  have hmem : s ∈ root.preorder :=
    Node.preorder_subset (Node.mem_preorder_of_at? (Procedure.node_of_at? hpath).1)
      hstands.mem_preorder
  obtain ⟨edits, hedits, hsub⟩ := (ofProcedures?_edits hplan).2 p hp
  obtain ⟨first, second, rfl, -, hsecond⟩ := ofProcedure?_single hone hedits
  obtain ⟨copy, e, -, he, rfl⟩ :=
    exists_copy_of_usageEdit? (located?_eq_some_iff.2 ⟨hsymbol, hs⟩) hsecond
  obtain ⟨upTo, line, ending, more, hcut, -, -, -, hoffset⟩ := insertAfter?_eq_some he
  refine ⟨hstands, e, hsub (by simp), hsecond, by omega, fun t ht htoken hle => ⟨?_, ?_⟩⟩
  · exact start_lt_offset_iff hlexed hmem hkind he ht htoken hle
  · exact fun h => h.exists_return hlexed hmem hkind hcut ht htoken hle

theorem eq_singleton_of_mem {parameters : List Parameter} {parameter : Parameter}
    (h : parameter ∈ parameters) (hone : parameters.length = 1) : parameters = [parameter] := by
  obtain ⟨q, rfl⟩ := List.length_eq_one_iff.1 hone
  rw [List.mem_singleton.1 h]

/-- A method `M(int x)` whose body is `Use(x);`, a comment, `Next();`, with a line break behind the
comment. -/
def commentTree : Node :=
  .ofRows [
    .named 0 "compilation_unit" none 0 50, .named 1 "class_declaration" none 0 50,
    .token 2 "class" 0, .named 2 "identifier" "name" 6 7,
    .named 2 "declaration_list" "body" 8 50, .token 3 "\x7b" 8,
    .named 3 "method_declaration" none 10 48, .named 4 "predefined_type" "returns" 10 14,
    .named 4 "identifier" "name" 15 16, .named 4 "parameter_list" "parameters" 16 23,
    .token 5 "(" 16, .named 5 "parameter" none 17 22, .named 6 "predefined_type" "type" 17 20,
    .named 6 "identifier" "name" 21 22, .token 5 ")" 22, .named 4 "block" "body" 24 48,
    .token 5 "\x7b" 24, .named 5 "expression_statement" none 26 33,
    .named 6 "invocation_expression" none 26 32, .named 7 "identifier" "function" 26 29,
    .named 7 "argument_list" "arguments" 29 32, .token 8 "(" 29, .named 8 "argument" none 30 31,
    .named 9 "identifier" none 30 31, .token 8 ")" 31, .token 6 ";" 32,
    .named 5 "comment" none 34 38, .named 5 "expression_statement" none 39 46,
    .named 6 "invocation_expression" none 39 45, .named 7 "identifier" "function" 39 43,
    .named 7 "argument_list" "arguments" 43 45, .token 8 "(" 43, .token 8 ")" 44,
    .token 6 ";" 45, .token 5 "\x7d" 47, .token 3 "\x7d" 49]

def feedSource : Text :=
  "class A \x7b void M(int x) \x7b Use(x); // c\nNext(); \x7d \x7d".toList

theorem feed_ended_comment_passed :
    commentTree.Lexed feedSource ∧
    ∃ plan, make? (Model.build feedSource commentTree) commentTree unusable true 1 = some plan ∧
    ∃ s ∈ commentTree.preorder, s.span = ⟨26, 33⟩ ∧ ∃ e ∈ plan.edits, s.span.stop ≤ e.offset ∧
      ∀ t ∈ commentTree.leaves, t.IsToken feedSource → s.span.stop ≤ t.span.start →
        e.offset ≤ t.span.start := by
  have hlexed : commentTree.Lexed feedSource := by decide +kernel
  obtain ⟨plan, hplan⟩ := Option.isSome_iff_exists.1 (show
    (make? (Model.build feedSource commentTree) commentTree unusable true 1).isSome by
      decide +kernel)
  have hex : ∃ p ∈ Procedure.list feedSource commentTree true, ∃ parameter ∈ p.parameters,
      p.parameters.length = 1 ∧
      ∃ symbol ∈ (Model.build feedSource commentTree).declared? parameter.binder,
      ∃ s ∈ locate? (Model.build feedSource commentTree) p.body parameter.name symbol,
        s ∈ commentTree.preorder ∧ s.span = ⟨26, 33⟩ ∧
        ∀ t ∈ commentTree.leaves, ¬ RunsOver feedSource s t := by decide +kernel
  obtain ⟨p, hp, parameter, hparameter, hone, symbol, hsymbol, s, hs, hmem, hspan, hnone⟩ := hex
  have hone := eq_singleton_of_mem hparameter hone
  obtain ⟨-, e, he, -, hle, htokens⟩ := clone_separated_iff feedSource commentTree unusable true 1
    plan p parameter symbol s hlexed hplan hp hone hsymbol hs
  refine ⟨hlexed, plan, hplan, s, hmem, hspan, e, he, hle, fun t ht htoken hbehind => ?_⟩
  exact Nat.le_of_not_lt fun hlt => hnone t ht ((htokens t ht htoken hbehind).1.1 hlt)

def returnSource : Text :=
  "class A \x7b void M(int x) \x7b Use(x); // c\rNext(); \x7d \x7d".toList

/-- Behind a line comment that a carriage return alone ends, the copy is inserted after the rest of
the block. -/
theorem return_ended_comment_separates :
    ¬ ∀ (source : Text) (root : Node) (suggester : Suggester) (withLocal : Bool) (count : Nat)
      (p : Procedure) (parameter : Parameter) (symbol : Nat) (s t : Node) (e : Edit),
      root.Lexed source → root.Covered source →
      p ∈ Procedure.list source root withLocal → p.parameters = [parameter] →
      (Model.build source root).declared? parameter.binder = some symbol →
      locate? (Model.build source root) p.body parameter.name symbol = some s →
      usageEdit? (Model.build source root) p parameter
        (newName (Model.build source root) suggester count p parameter).toList = some (some e) →
      t ∈ root.leaves → t.IsToken source → s.span.stop ≤ t.span.start →
        e.offset ≤ t.span.start := by
  intro h
  have hex : ∃ p ∈ Procedure.list returnSource commentTree true, ∃ parameter ∈ p.parameters,
      p.parameters.length = 1 ∧
      ∃ symbol ∈ (Model.build returnSource commentTree).declared? parameter.binder,
      ∃ s ∈ locate? (Model.build returnSource commentTree) p.body parameter.name symbol,
      ∃ second ∈ usageEdit? (Model.build returnSource commentTree) p parameter
        (newName (Model.build returnSource commentTree) unusable 1 p parameter).toList,
      ∃ e ∈ second, ∃ t ∈ commentTree.leaves, t.IsToken returnSource ∧
        s.span.stop ≤ t.span.start ∧ ¬ e.offset ≤ t.span.start := by decide +kernel
  obtain ⟨p, hp, parameter, hparameter, hone, symbol, hsymbol, s, hs, second, hsecond, e, he, t,
    ht, htoken, hbehind, hnot⟩ := hex
  have hone := eq_singleton_of_mem hparameter hone
  cases Option.mem_def.1 he
  exact hnot (h returnSource commentTree unusable true 1 p parameter symbol s t e
    (by decide +kernel) (by decide +kernel) hp hone hsymbol hs hsecond ht htoken hbehind)

end Plan
end ParamTwin
