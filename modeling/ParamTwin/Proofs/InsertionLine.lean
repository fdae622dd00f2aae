import ParamTwin.Proofs.ClonePlace

/-!
# The line on which a copy is inserted

The copy of a statement is inserted at the end of the line on which the statement ends, before the
line ending, or right behind the statement. `Usage.RestOfLine` says what the rest of that line is.

* `Usage.lineLength?_of_rest`, `Usage.exists_rest`: the rest of the line as the program finds it.
* `Usage.exists_last_line`: the line on which the statement starts, whose white space is repeated.
* `Usage.insertAfter?_of_rest`: the insertion, for every source and span.
-/

namespace ParamTwin.Usage

open Text

/-- Nothing but white space, or a line comment after it. -/
def OnlyComment (t : Text) : Prop :=
  (∀ c ∈ t, isBlank c = true) ∨ ['/', '/'] <+: trimStart t

instance (t : Text) : Decidable (OnlyComment t) :=
  decidable_of_iff (t.all isBlank = true ∨ ['/', '/'] <+: trimStart t)
    (or_congr List.all_eq_true Iff.rfl)

/-- With `upTo` before it, the text `after` starts with the rest of a line: a line feed or the end
follows, after a carriage return if one stands there. -/
def StartsWithRest (upTo after rest : Text) : Prop :=
  ∃ ending more, after = rest ++ (ending ++ more) ∧ '\n' ∉ rest ∧
    (ending = ['\r'] ∨ ending = [] ∧ (upTo ++ rest).getLast? ≠ some '\r') ∧
    (more = [] ∨ more.head? = some '\n')

/-- The text from an offset to the end of its line. -/
def RestOfLine (source : Text) (offset : Nat) (rest : Text) : Prop :=
  ∃ upTo after, source = upTo ++ after ∧ byteSize upTo = offset ∧ StartsWithRest upTo after rest

/-! ## The rest of the line -/

theorem head_line_of_append {line more : Text} (hline : '\n' ∉ line)
    (hmore : more = [] ∨ more.head? = some '\n') : (lines (line ++ more)).headD [] = line := by
  rcases hmore with rfl | hmore
  · rw [List.append_nil, lines_of_not_mem hline]
    rfl
  · obtain ⟨rest, rfl⟩ := List.head?_eq_some_iff.1 hmore
    rw [lines_append_feed hline]
    rfl

/-- The program finds the rest of the line. -/
theorem lineLength?_of_rest {upTo after rest : Text} (h : StartsWithRest upTo after rest) :
    lineLength? (upTo.getLast? == some '\r') after = some (byteSize rest) := by
  obtain ⟨ending, more, rfl, hrest, hend, hmore⟩ := h
  have hline : (lines (rest ++ (ending ++ more))).headD [] = rest ++ ending := by
    rw [← List.append_assoc]
    refine head_line_of_append ?_ hmore
    rcases hend with rfl | ⟨rfl, -⟩
    · simp [hrest]
    · simpa using hrest
  rw [lineLength?, hline]
  rcases hend with rfl | ⟨rfl, hlast⟩
  · simp [byteSize_append, show byteSize ['\r'] = 1 from rfl]
  · rw [List.append_nil]
    cases hc : rest.getLast? with
    | none =>
      have hnil := List.getLast?_eq_none_iff.1 hc
      rw [hnil, List.append_nil] at hlast
      simp [hnil, hlast]
    | some c =>
      have hne : c ≠ '\r' := by
        rintro rfl
        exact hlast (by rw [List.getLast?_append, hc]; rfl)
      simp [hne]

/-- The end of a line is behind an offset: a carriage return stands right before it, and the line
feed or the end of the text follows. -/
def EndsBehind (upTo after : Text) : Prop :=
  upTo.getLast? = some '\r' ∧ (after = [] ∨ after.head? = some '\n')

theorem lineLength?_of_endsBehind {upTo after : Text} (h : EndsBehind upTo after) :
    lineLength? (upTo.getLast? == some '\r') after = none := by
  have hline : (lines ([] ++ after)).headD [] = [] := head_line_of_append (by simp) h.2
  rw [List.nil_append] at hline
  rw [lineLength?, hline, h.1]
  rfl

/-- Otherwise there is a rest of the line, empty or not. -/
theorem exists_rest {upTo after : Text} (h : ¬ EndsBehind upTo after) :
    ∃ rest, StartsWithRest upTo after rest := by
  obtain ⟨more, hsplit, hfeed, hmore⟩ := exists_head_line after
  have hmore' : more = [] ∨ more.head? = some '\n' :=
    hmore.imp_right fun ⟨rest, hrest⟩ => by rw [hrest]; rfl
  generalize (lines after).headD [] = line at hsplit hfeed
  subst hsplit
  by_cases hreturn : line.getLast? = some '\r'
  · obtain ⟨rest, rfl⟩ := List.getLast?_eq_some_iff.1 hreturn
    refine ⟨rest, ['\r'], more, by simp, ?_, .inl rfl, hmore'⟩
    exact fun hin => hfeed (List.mem_append_left _ hin)
  · refine ⟨line, [], more, rfl, hfeed, .inr ⟨rfl, ?_⟩, hmore'⟩
    rw [List.getLast?_append]
    cases hlast : line.getLast? with
    | none =>
      have hnil := List.getLast?_eq_none_iff.1 hlast
      intro hupTo
      exact h ⟨by simpa using hupTo, by simpa [hnil] using hmore'⟩
    | some c =>
      rw [hlast] at hreturn
      simpa using hreturn

/-! ## The line of the statement -/

/-- The line on which a text ends. -/
theorem exists_last_line (t : Text) : ∃ front head, t = front ++ head ∧ '\n' ∉ head ∧
    (front = [] ∨ front.getLast? = some '\n') ∧ (lines t).getLastD [] = head := by
  induction t using lineInduction with
  | last t h => exact ⟨[], t, rfl, h, .inl rfl, by rw [lines_of_not_mem h]; rfl⟩
  | step line rest hline ih =>
    obtain ⟨front, head, rfl, hhead, hfront, hlast⟩ := ih
    refine ⟨line ++ '\n' :: front, head, by simp, hhead, .inr ?_, ?_⟩
    · rcases hfront with rfl | hfront
      · simp
      · rw [List.getLast?_append, List.getLast?_cons, hfront]
        rfl
    · rw [lines_append_feed hline]
      obtain ⟨l, ls, hlines⟩ := List.exists_cons_of_ne_nil (lines_ne_nil (front ++ head))
      rw [hlines] at hlast ⊢
      exact hlast

/-! ## The insertion -/

theorem onlyComment_iff (t : Text) :
    OnlyComment t ↔ trim t = [] ∨ ['/', '/'] <+: trim t := by
  unfold OnlyComment
  refine or_congr ⟨fun h => ?_, fun h c hc => isBlank_of_trim_eq_nil h hc⟩
    ⟨slashes_trimEnd, slashes_of_trimEnd⟩
  rw [trim, trimEnd_eq_nil_iff]
  exact fun c hc => h c (List.dropWhile_sublist _ |>.subset hc)

variable {source before behind upTo after rest copy : Text} {span : Span}

/-- The insertion, given the text before the statement and the rest of its last line. -/
theorem insertAfter?_of_rest (hstart : splitAt? span.start source = some (before, behind))
    (hstop : splitAt? span.stop source = some (upTo, after))
    (hrest : StartsWithRest upTo after rest) :
    insertAfter? source span copy =
      some { offset := span.stop + if OnlyComment rest then byteSize rest else 0
             text := lineEnding source ++ indentation before ++ copy } := by
  have hcut : splitAt? (byteSize rest) after = some (rest, after.drop rest.length) := by
    obtain ⟨ending, more, rfl, -⟩ := hrest
    rw [splitAt?_append, List.drop_left]
  have hoffset : (if ((trim rest).isEmpty || ['/', '/'].isPrefixOf (trim rest)) = true
      then span.stop + byteSize rest else span.stop) =
      span.stop + if OnlyComment rest then byteSize rest else 0 := by
    simp only [Bool.or_eq_true, List.isEmpty_iff, List.isPrefixOf_iff_prefix, ← onlyComment_iff]
    split <;> rfl
  simp only [insertAfter?, hstart, hstop, lineLength?_of_rest hrest, hcut, hoffset,
    Option.bind_eq_bind, Option.bind_some, Option.pure_def]

theorem insertAfter?_of_endsBehind (hstop : splitAt? span.stop source = some (upTo, after))
    (hend : EndsBehind upTo after) : insertAfter? source span copy = none := by
  simp [insertAfter?, hstop, lineLength?_of_endsBehind hend]

theorem isSome_insertAfter?_iff (copy : Text)
    (hstart : splitAt? span.start source = some (before, behind))
    (hstop : splitAt? span.stop source = some (upTo, after)) :
    (insertAfter? source span copy).isSome = true ↔ ¬ EndsBehind upTo after := by
  constructor
  · intro h hend
    rw [insertAfter?_of_endsBehind hstop hend] at h
    cases h
  · intro h
    obtain ⟨rest, hrest⟩ := exists_rest h
    rw [insertAfter?_of_rest hstart hstop hrest]
    rfl

theorem exists_cuts {e : Edit} (he : insertAfter? source span copy = some e) :
    ∃ before behind upTo after rest, splitAt? span.start source = some (before, behind) ∧
      splitAt? span.stop source = some (upTo, after) ∧ StartsWithRest upTo after rest := by
  obtain ⟨⟨before, behind⟩, hstart, hnext⟩ := Option.bind_eq_some_iff.1 he
  obtain ⟨⟨upTo, after⟩, hstop, -⟩ := Option.bind_eq_some_iff.1 hnext
  have hdefined := isSome_insertAfter?_iff copy hstart hstop
  obtain ⟨rest, hrest⟩ := exists_rest (hdefined.1 (Option.isSome_iff_exists.2 ⟨e, he⟩))
  exact ⟨before, behind, upTo, after, rest, hstart, hstop, hrest⟩

/-- The end of the line tells whether the insertion lies there. -/
theorem offset_of_rest {e : Edit} (hstart : splitAt? span.start source = some (before, behind))
    (hrest : RestOfLine source span.stop rest) (he : insertAfter? source span copy = some e) :
    (e.offset = span.stop + byteSize rest ↔ OnlyComment rest) ∧
      (¬ OnlyComment rest → e.offset = span.stop) := by
  obtain ⟨upTo, after, hsource, hsize, hrest⟩ := hrest
  have hstop := splitAt?_eq_some_iff.2 ⟨hsource, hsize⟩
  rw [insertAfter?_of_rest hstart hstop hrest] at he
  obtain rfl := Option.some.inj he
  by_cases h : OnlyComment rest
  · simp [h]
  · have hne : byteSize rest ≠ 0 := by
      intro hzero
      exact h (.inl (by simp [byteSize_eq_zero.1 hzero]))
    simp only [h, if_false, iff_false, not_false_iff, forall_true_left]
    omega

/-- What stands between the statement and its copy: white space or a line comment, up to the end of
the line, and the copy does not come between a carriage return and its line feed. -/
theorem exists_taken (hrest : StartsWithRest upTo after rest) :
    ∃ taken tail, after = taken ++ tail ∧ '\n' ∉ taken ∧ OnlyComment taken ∧
      byteSize taken = (if OnlyComment rest then byteSize rest else 0) ∧
      ¬ ((upTo ++ taken).getLast? = some '\r' ∧ tail.head? = some '\n') := by
  obtain ⟨ending, more, rfl, hfeed, hend, -⟩ := hrest
  by_cases h : OnlyComment rest
  · refine ⟨rest, ending ++ more, rfl, hfeed, h, by rw [if_pos h], ?_⟩
    rintro ⟨hreturn, hhead⟩
    rcases hend with rfl | ⟨-, hlast⟩
    · cases hhead
    · exact hlast hreturn
  · refine ⟨[], rest ++ (ending ++ more), rfl, by simp, .inl (by simp), by rw [if_neg h]; rfl, ?_⟩
    rintro ⟨-, hhead⟩
    -- A rest that is no comment is not empty, and it holds no line feed.
    cases rest with
    | nil => exact h (.inl (by simp))
    | cons c rest =>
      cases hhead
      exact hfeed List.mem_cons_self

/-- An offset lies between a carriage return and the line feed after it. -/
def SplitsEnding (source : Text) (offset : Nat) : Prop :=
  ∃ a b, source = a ++ '\r' :: '\n' :: b ∧ offset = byteSize a + 1

theorem splitsEnding_iff {a b : Text} : SplitsEnding (a ++ b) (byteSize a) ↔
    a.getLast? = some '\r' ∧ b.head? = some '\n' := by
  constructor
  · rintro ⟨x, y, heq, hsize⟩
    have heq' : a ++ b = (x ++ ['\r']) ++ '\n' :: y := by simpa using heq
    obtain ⟨rfl, rfl⟩ := append_inj_of_byteSize heq' (by rw [hsize, byteSize_append]; rfl)
    simp
  · rintro ⟨ha, hb⟩
    obtain ⟨x, rfl⟩ := List.getLast?_eq_some_iff.1 ha
    obtain ⟨y, rfl⟩ := List.head?_eq_some_iff.1 hb
    exact ⟨x, y, by simp, by rw [byteSize_append]; rfl⟩

/-- An insertion cuts the source behind the statement, after white space or a line comment. -/
theorem exists_gap {e : Edit} (he : insertAfter? source span copy = some e) :
    ∃ upTo gap tail, source = upTo ++ gap ++ tail ∧ byteSize upTo = span.stop ∧
      e.offset = byteSize (upTo ++ gap) ∧ '\n' ∉ gap ∧ OnlyComment gap ∧
      ¬ SplitsEnding source e.offset := by
  obtain ⟨before, behind, upTo, after, rest, hstart, hstop, hrest⟩ := exists_cuts he
  obtain ⟨rfl, hsize⟩ := append_of_splitAt? hstop
  rw [insertAfter?_of_rest hstart hstop hrest] at he
  obtain rfl := Option.some.inj he
  obtain ⟨gap, tail, rfl, hfeed, hcomment, hgap, hending⟩ := exists_taken hrest
  have hoffset : span.stop + (if OnlyComment rest then byteSize rest else 0) =
      byteSize (upTo ++ gap) := by
    rw [← hgap, byteSize_append, hsize]
  refine ⟨upTo, gap, tail, by rw [List.append_assoc], hsize, hoffset, hfeed, hcomment, ?_⟩
  rw [hoffset, ← List.append_assoc, splitsEnding_iff]
  exact hending

/-- **A copy is inserted as a line of its own.** The insertion after a span exists unless the line
on which the span ends is already over, so always if the span ends with a character other than a
carriage return. It lies at the end of that line if white space or a line comment follows the span
there and right behind the span otherwise, never between a carriage return and its line feed; and
its text is a line ending, the white space that starts the line of the span, and the copy. -/
theorem insertion_on_own_line {text : Text} (hspan : source.at? span = some text) (copy : Text) :
    ((insertAfter? source span copy).isSome = true ↔
      ∀ cut ∈ splitAt? span.stop source, ¬ EndsBehind cut.1 cut.2) ∧
    (∀ c ∈ text.getLast?, c ≠ '\r' → (insertAfter? source span copy).isSome = true) ∧
    ∀ e ∈ insertAfter? source span copy,
      span.stop ≤ e.offset ∧ e.offset ≤ byteSize source ∧ isBoundary source e.offset = true ∧
      ¬ SplitsEnding source e.offset ∧
      (∃ gap ∈ source.slice? span.stop e.offset, '\n' ∉ gap ∧ OnlyComment gap) ∧
      (∃ rest, RestOfLine source span.stop rest) ∧
      (∀ rest, RestOfLine source span.stop rest →
        (e.offset = span.stop + byteSize rest ↔ OnlyComment rest) ∧
        (¬ OnlyComment rest → e.offset = span.stop)) ∧
      ∃ front head behind, source = front ++ head ++ behind ∧
        byteSize (front ++ head) = span.start ∧ '\n' ∉ head ∧
        (front = [] ∨ front.getLast? = some '\n') ∧
        e.text = lineEnding source ++ head.takeWhile isBlank ++ copy := by
  obtain ⟨pre, post, hsource, hbounds⟩ := at?_eq_some_iff.1 hspan
  have hstart : splitAt? span.start source = some (pre, text ++ post) := by
    rw [hsource, hbounds, List.append_assoc, splitAt?_append]
  have hstop : splitAt? span.stop source = some (pre ++ text, post) := by
    rw [hsource, hbounds, ← byteSize_append, splitAt?_append]
  have hdefined := isSome_insertAfter?_iff copy hstart hstop
  refine ⟨?_, ?_, ?_⟩
  · rw [hdefined]
    simp [hstop]
  · intro c hc hne
    rw [hdefined]
    rintro ⟨hreturn, -⟩
    rw [List.getLast?_append, Option.mem_def.1 hc] at hreturn
    exact hne (Option.some.inj hreturn)
  · intro e he
    obtain ⟨upTo, gap, tail, hcut, hsize, hoffset, hfeed, hcomment, hending⟩ := exists_gap he
    obtain ⟨rest, hrest⟩ := exists_rest (hdefined.1 (Option.isSome_iff_exists.2 ⟨e, he⟩))
    have hboundary : isBoundary source e.offset = true :=
      isBoundary_iff.2 ⟨upTo ++ gap, tail, hcut, hoffset.symm⟩
    refine ⟨?_, le_byteSize_of_isBoundary hboundary, hboundary, hending, ⟨gap, ?_, hfeed, hcomment⟩,
      ⟨rest, pre ++ text, post, hsource, by rw [byteSize_append, hbounds], hrest⟩,
      fun rest hrest => offset_of_rest hstart hrest he, ?_⟩
    · rw [hoffset, byteSize_append]
      omega
    · rw [hoffset, ← hsize]
      exact at?_eq_some_iff (s := ⟨_, _⟩).2 ⟨upTo, tail, hcut, by rw [byteSize_append]⟩
    · obtain ⟨front, head, rfl, hhead, hfront, hlast⟩ := exists_last_line pre
      refine ⟨front, head, text ++ post, by rw [hsource]; simp, by rw [hbounds], hhead, hfront, ?_⟩
      rw [insertAfter?_of_rest hstart hstop hrest] at he
      obtain rfl := Option.some.inj he
      rw [indentation, hlast]

/-- The comment behind the statement stays with it, and the line ending behind the comment whole. -/
theorem insertion_behind_comment :
    at? "  f(x); // é\r\n".toList ⟨2, 7⟩ = some "f(x);".toList ∧
      ∃ e ∈ insertAfter? "  f(x); // é\r\n".toList ⟨2, 7⟩ "f(y);".toList, e.offset = 13 := by
  have hat : at? "  f(x); // é\r\n".toList ⟨2, 7⟩ = some "f(x);".toList := by decide
  obtain ⟨-, hdefined, hplace⟩ := insertion_on_own_line hat "f(y);".toList
  obtain ⟨e, he⟩ := Option.isSome_iff_exists.1 (hdefined ';' rfl (by decide))
  obtain ⟨-, -, -, -, -, -, hoffset, -⟩ := hplace e he
  have hrest : RestOfLine "  f(x); // é\r\n".toList 7 " // é".toList :=
    ⟨"  f(x);".toList, " // é\r\n".toList, by decide, by decide, ['\r'], ['\n'], by decide,
      by decide, .inl rfl, .inr rfl⟩
  exact ⟨hat, e, he, (hoffset _ hrest).1.2 (by decide)⟩

end ParamTwin.Usage
