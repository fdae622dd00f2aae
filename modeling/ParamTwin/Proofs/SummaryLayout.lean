import ParamTwin.Proofs.TextCut
import ParamTwin.Proofs.TextLines
import ParamTwin.Syntax.Summary

/-!
# Summaries and the layout of documentation

The tags of a summary are searched for in the text in lower case, and the text itself is cut at the
offsets found there. Lower case keeps the size of every character, so a text and its copy in lower
case are cut alike. The first character of a tag does not come again in the tag, so no occurrence
begins before another one and reaches into it: a tag is found right behind a text that holds none.

* `Text.offsetOf?_lower`: where a tag is found, in any letter case.
* `Summary.exists_extract?_eq`: every text has a summary, the lines of some body in one line.
* `Summary.extract_inverts_layout`: the summary of an element is its body in one line.
-/

namespace ParamTwin

namespace Text

/-! ## Lower case -/

/-- A character stays the same in lower case, or is an ASCII capital and becomes a small letter. -/
theorem toLower_cases (c : Char) :
    c.toLower = c ∨ 65 ≤ c.toNat ∧ c.toNat ≤ 90 ∧ c.toLower.toNat = c.toNat + 32 := by
  by_cases h : c.val ≥ 'A'.val ∧ c.val ≤ 'Z'.val
  · have hlo : 65 ≤ c.val.toNat := UInt32.le_iff_toNat_le.1 h.1
    have hhi : c.val.toNat ≤ 90 := UInt32.le_iff_toNat_le.1 h.2
    have hval : c.toLower.val = c.val + 32 := congrArg Char.val (dif_pos h)
    refine .inr ⟨hlo, hhi, ?_⟩
    show c.toLower.val.toNat = c.val.toNat + 32
    rw [hval, UInt32.toNat_add]
    show (c.val.toNat + 32) % 2 ^ 32 = c.val.toNat + 32
    omega
  · exact .inl (dif_neg h)

theorem utf8Size_toLower (c : Char) : c.toLower.utf8Size = c.utf8Size := by
  rcases toLower_cases c with h | ⟨-, hhi, hlower⟩
  · rw [h]
  · have hone : ∀ d : Char, d.toNat ≤ 127 → d.utf8Size = 1 := fun d hd =>
      Char.utf8Size_eq_one_iff.2 (UInt32.le_iff_toNat_le.2 hd)
    rw [hone c.toLower (by omega), hone c (by omega)]

/-- A character below the letters comes from itself only. -/
theorem toLower_eq_iff {c d : Char} (hd : d.toNat < 65) : c.toLower = d ↔ c = d := by
  rcases toLower_cases c with h | ⟨hlo, hhi, hlower⟩
  · rw [h]
  · constructor
    · rintro rfl
      omega
    · rintro rfl
      omega

theorem lower_append (a b : Text) : lower (a ++ b) = lower a ++ lower b :=
  List.map_append

@[simp] theorem byteSize_lower (t : Text) : byteSize (lower t) = byteSize t := by
  induction t with
  | nil => rfl
  | cons c cs ih =>
    show c.toLower.utf8Size + byteSize (lower cs) = _
    rw [utf8Size_toLower, ih, byteSize_cons]

theorem mem_lower {d : Char} (hd : d.toNat < 65) {t : Text} : d ∈ lower t ↔ d ∈ t := by
  simp [lower, toLower_eq_iff hd]

/-- A text and its copy in lower case are cut alike. -/
theorem splitAt?_lower (a b : Text) :
    splitAt? (byteSize a) (lower (a ++ b)) = some (lower a, lower b) := by
  rw [lower_append, ← byteSize_lower a, splitAt?_append]

theorem slice?_middle (a b c : Text) :
    slice? (a ++ (b ++ c)) (byteSize a) (byteSize a + byteSize b) = some b :=
  at?_eq_some_iff (s := ⟨_, _⟩).2 ⟨a, c, by simp, rfl⟩

/-! ## The first occurrence of a text -/

/-- The first character of a text does not come again in it, so that no two occurrences overlap. -/
def StartsOnce (t : Text) : Prop :=
  ∃ c rest, t = c :: rest ∧ c ∉ rest

theorem StartsOnce.ne_nil {t : Text} (h : StartsOnce t) : t ≠ [] := by
  obtain ⟨c, rest, rfl, -⟩ := h
  exact List.cons_ne_nil c rest

theorem StartsOnce.prefix_of_append {needle a b : Text} (h : StartsOnce needle) (ha : a ≠ [])
    (hp : needle <+: a ++ (needle ++ b)) : needle <+: a := by
  obtain ⟨c, n, rfl, hc⟩ := h
  obtain ⟨s, hs⟩ := hp
  rcases List.append_eq_append_iff.1 hs with ⟨m, rfl, -⟩ | ⟨m, hm, hrest⟩
  · exact List.prefix_append _ _
  · cases m with
    | nil => exact ⟨[], by rw [hm, List.append_nil, List.append_nil]⟩
    | cons d m =>
      -- The second occurrence would begin inside the first one.
      obtain ⟨e, a, rfl⟩ := List.exists_cons_of_ne_nil ha
      obtain ⟨rfl, -⟩ := List.cons.inj hrest
      obtain ⟨-, rfl⟩ := List.cons.inj hm
      exact absurd (by simp) hc

theorem offsetOf?_eq_none_iff {needle hay : Text} :
    offsetOf? needle hay = none ↔ ¬ needle <:+: hay := by
  rw [← occursIn_iff, occursIn, offsetOf?, Option.map_eq_none_iff, Option.not_isSome_iff_eq_none]

theorem offsetOf?_here (needle rest : Text) : offsetOf? needle (needle ++ rest) = some 0 := by
  have htest : needle.isPrefixOf (needle ++ rest) = true :=
    List.isPrefixOf_iff_prefix.2 (List.prefix_append _ _)
  unfold offsetOf?
  cases h : needle ++ rest with
  | nil =>
    rw [h] at htest
    simp [breakBefore, htest]
  | cons c cs =>
    rw [h] at htest
    simp [breakBefore, htest]

theorem offsetOf?_cons {needle cs : Text} {c : Char} (h : ¬ needle <+: c :: cs) :
    offsetOf? needle (c :: cs) = (offsetOf? needle cs).map (c.utf8Size + ·) := by
  rw [← List.isPrefixOf_iff_prefix] at h
  rw [offsetOf?, offsetOf?, breakBefore, if_neg h, Option.map_map, Option.map_map]
  rfl

/-- A text is found behind one that does not hold it. -/
theorem offsetOf?_append {needle before : Text} (h : StartsOnce needle)
    (hfree : ¬ needle <:+: before) (rest : Text) :
    offsetOf? needle (before ++ (needle ++ rest)) = some (byteSize before) := by
  induction before with
  | nil => exact offsetOf?_here needle rest
  | cons c cs ih =>
    rw [List.infix_cons_iff, not_or] at hfree
    have hlater : ¬ needle <+: c :: (cs ++ (needle ++ rest)) := fun hp =>
      hfree.1 (h.prefix_of_append (List.cons_ne_nil c cs) hp)
    rw [List.cons_append, offsetOf?_cons hlater, ih hfree.2]
    rfl

/-- A text that occurs has a first occurrence. -/
theorem exists_first {needle hay : Text} (hne : needle ≠ []) (h : needle <:+: hay) :
    ∃ before rest, hay = before ++ (needle ++ rest) ∧ ¬ needle <:+: before := by
  have hnil : ¬ needle <:+: [] := fun hin => hne (List.infix_nil.1 hin)
  induction hay with
  | nil => exact absurd h hnil
  | cons c cs ih =>
    by_cases hp : needle <+: c :: cs
    · obtain ⟨rest, hrest⟩ := hp
      exact ⟨[], rest, hrest.symm, hnil⟩
    · obtain ⟨before, rest, rfl, hfree⟩ := ih ((List.infix_cons_iff.1 h).resolve_left hp)
      refine ⟨c :: before, rest, rfl, fun hin => ?_⟩
      rcases List.infix_cons_iff.1 hin with hp' | hin
      · exact hp (hp'.trans (List.prefix_append (c :: before) _))
      · exact hfree hin

theorem offsetOf?_lower {tag before found : Text} (h : StartsOnce tag) (hfound : lower found = tag)
    (hfree : ¬ tag <:+: lower before) (rest : Text) :
    offsetOf? tag (lower (before ++ (found ++ rest))) = some (byteSize before) := by
  rw [lower_append, lower_append, hfound, offsetOf?_append h hfree, byteSize_lower]

theorem exists_first_lower {tag t : Text} (hne : tag ≠ []) (h : tag <:+: lower t) :
    ∃ before found rest, t = before ++ (found ++ rest) ∧ lower found = tag ∧
      ¬ tag <:+: lower before := by
  obtain ⟨before, rest, hsplit, hfree⟩ := exists_first hne h
  obtain ⟨before, tail, rfl, rfl, htail⟩ := List.map_eq_append_iff.1 hsplit
  obtain ⟨found, rest, rfl, hfound, -⟩ := List.map_eq_append_iff.1 htail
  exact ⟨before, found, rest, rfl, hfound, hfree⟩

/-! ## Trimmed lines -/

/-- A text that neither starts nor ends with white space. -/
def Trimmed (t : Text) : Prop :=
  (∀ c ∈ t.head?, isBlank c = false) ∧ ∀ c ∈ t.getLast?, isBlank c = false

theorem trimmed_nil : Trimmed [] := by
  simp [Trimmed]

theorem trimmed_trim (t : Text) : Trimmed (trim t) := by
  by_cases hne : trim t = []
  · rw [hne]
    exact trimmed_nil
  constructor
  · intro c hc
    obtain ⟨w, hw, -⟩ := exists_trimEnd_append (trimStart t)
    have hhead : (t.dropWhile isBlank).head? = some c := by
      rw [← trimStart, hw, ← trim, List.head?_append_of_ne_nil _ hne]
      exact hc
    have hsolid := List.head?_dropWhile_not isBlank t
    rwa [hhead] at hsolid
  · intro c hc
    obtain ⟨d, hd, hblank⟩ := endsSolid_trimEnd hne
    obtain rfl := Option.mem_unique hc hd
    exact hblank

theorem Trimmed.append {a b : Text} (ha : Trimmed a) (hb : Trimmed b) (hane : a ≠ [])
    (hbne : b ≠ []) (sep : Text) : Trimmed (a ++ sep ++ b) := by
  constructor
  · rw [List.append_assoc, List.head?_append_of_ne_nil _ hane]
    exact ha.1
  · rw [List.getLast?_append_of_ne_nil _ hbne]
    exact hb.2

theorem join_ne_nil {sep : Text} {ts : List Text} (hne : ts ≠ []) (h : ∀ t ∈ ts, t ≠ []) :
    join sep ts ≠ [] := by
  obtain ⟨t, rest, rfl⟩ := List.exists_cons_of_ne_nil hne
  by_cases hrest : rest = []
  · subst hrest
    exact h t (.head _)
  · rw [join_cons sep t hrest]
    simp [h t (.head _)]

theorem trimmed_join (sep : Text) {ts : List Text} (hne : ∀ t ∈ ts, t ≠ [])
    (h : ∀ t ∈ ts, Trimmed t) : Trimmed (join sep ts) := by
  induction ts with
  | nil => exact trimmed_nil
  | cons t ts ih =>
    by_cases hts : ts = []
    · subst hts
      exact h t (.head _)
    · rw [join_cons sep t hts]
      rw [List.forall_mem_cons] at hne h
      exact h.1.append (ih hne.2 h.2) hne.1 (join_ne_nil hts hne.2) sep

theorem mem_join {sep : Text} {ts : List Text} {c : Char} (h : c ∈ join sep ts) :
    c ∈ sep ∨ ∃ t ∈ ts, c ∈ t := by
  induction ts with
  | nil => cases h
  | cons t ts ih =>
    by_cases hts : ts = []
    · subst hts
      exact .inr ⟨t, .head _, h⟩
    · rw [join_cons sep t hts, List.mem_append, List.mem_append] at h
      rcases h with (h | h) | h
      · exact .inr ⟨t, .head _, h⟩
      · exact .inl h
      · exact (ih h).imp_right fun ⟨u, hu, hc⟩ => ⟨u, .tail _ hu, hc⟩

theorem mem_of_mem_trim {c : Char} {t : Text} (h : c ∈ trim t) : c ∈ t := by
  unfold trim trimEnd trimStart at h
  rw [List.mem_reverse] at h
  have h := (List.dropWhile_sublist _).subset h
  rw [List.mem_reverse] at h
  exact (List.dropWhile_sublist _).subset h

theorem join_eq_intercalate (sep : Text) (ts : List Text) : join sep ts = sep.intercalate ts := by
  induction ts with
  | nil => rfl
  | cons t ts ih =>
    by_cases hts : ts = []
    · subst hts
      simp [join]
    · rw [join_cons sep t hts, List.intercalate_cons_of_ne_nil hts, ih]

theorem lines_eq_splitOn (t : Text) : lines t = t.splitOn '\n' := by
  induction t using lineInduction with
  | last t h => rw [lines_of_not_mem h, List.splitOn_eq_singleton h]
  | step line rest h ih =>
    have hcut : (line ++ '\n' :: rest).splitOn '\n' = line.splitOn '\n' ++ rest.splitOn '\n' :=
      List.splitOnP_append_cons line rest (by simp)
    rw [lines_append_feed h, ih, hcut, List.splitOn_eq_singleton h]
    rfl

end Text

namespace Summary

open Text

/-! ## The lines of a body -/

theorem flatten_eq (t : Text) :
    flatten t = [' '].intercalate (((t.splitOn '\n').map trim).filter (· ≠ [])) := by
  rw [flatten, join_eq_intercalate, lines_eq_splitOn]
  congr 1
  refine List.filter_congr fun line _ => ?_
  cases line <;> rfl

theorem feed_not_mem_flatten (t : Text) : '\n' ∉ flatten t := by
  intro h
  rcases mem_join h with h | ⟨line, hline, h⟩
  · exact absurd h (by decide)
  · obtain ⟨hline, -⟩ := List.mem_filter.1 hline
    obtain ⟨raw, hraw, rfl⟩ := List.mem_map.1 hline
    exact feed_not_mem_of_mem_lines hraw (mem_of_mem_trim h)

theorem trimmed_flatten (t : Text) : Trimmed (flatten t) := by
  refine trimmed_join _ (fun line h => ?_) fun line h => ?_
  · simpa using (List.mem_filter.1 h).2
  · obtain ⟨raw, -, rfl⟩ := List.mem_map.1 (List.mem_filter.1 h).1
    exact trimmed_trim raw

/-! ## The three searches -/

theorem startsOnce_openingTag : StartsOnce openingTag :=
  ⟨'<', "summary".toList, by decide, by decide⟩

theorem startsOnce_closingTag : StartsOnce closingTag :=
  ⟨'<', "/summary".toList, by decide, by decide⟩

theorem contentFrom?_of_closed_tag {tag : Text} (h : ['/', '>'] <:+ lower tag) (rest : Text) :
    contentFrom? (tag ++ rest) (byteSize tag) = some [] := by
  rw [contentFrom?, splitAt?_lower]
  simp [h]

theorem contentFrom?_of_unclosed {tag body : Text} (htag : ¬ ['/', '>'] <:+ lower tag)
    (hbody : ¬ closingTag <:+: lower body) :
    contentFrom? (tag ++ body) (byteSize tag) = some (flatten body) := by
  have hslice := slice?_middle tag body []
  rw [List.append_nil] at hslice
  rw [contentFrom?, splitAt?_lower]
  simp [htag, offsetOf?_eq_none_iff.2 hbody, hslice]

theorem contentFrom?_of_closed {tag body closing : Text} (htag : ¬ ['/', '>'] <:+ lower tag)
    (hbody : ¬ closingTag <:+: lower body) (hclosing : lower closing = closingTag) (rest : Text) :
    contentFrom? (tag ++ (body ++ (closing ++ rest))) (byteSize tag) = some (flatten body) := by
  have hstop := offsetOf?_lower startsOnce_closingTag hclosing hbody rest
  rw [contentFrom?, splitAt?_lower]
  simp [htag, hstop, slice?_middle]

/-- There is a summary behind every tag; an empty one is that of an empty body. -/
theorem exists_contentFrom?_eq (tag rest : Text) :
    ∃ body, contentFrom? (tag ++ rest) (byteSize tag) = some (flatten body) := by
  by_cases htag : ['/', '>'] <:+ lower tag
  · exact ⟨[], contentFrom?_of_closed_tag htag rest⟩
  by_cases hclosing : closingTag <:+: lower rest
  · obtain ⟨body, closing, rest, rfl, hlower, hbody⟩ :=
      exists_first_lower startsOnce_closingTag.ne_nil hclosing
    exact ⟨body, contentFrom?_of_closed htag hbody hlower rest⟩
  · exact ⟨rest, contentFrom?_of_unclosed htag hclosing⟩

theorem no_bracket_lower {t : Text} (h : '>' ∉ t) : ¬ ['>'] <:+: lower t :=
  fun hin => h ((mem_lower (by decide)).1 (hin.subset (.head _)))

theorem elementFrom?_of_not_mem (before : Text) {element : Text} (h : '>' ∉ element) :
    elementFrom? (before ++ element) (byteSize before) = some [] := by
  have hnone : offsetOf? ['>'] (lower element) = none :=
    offsetOf?_eq_none_iff.2 (no_bracket_lower h)
  rw [elementFrom?, splitAt?_lower]
  simp [hnone]

theorem elementFrom?_of_tag (before : Text) {tag : Text} (h : '>' ∉ tag) (rest : Text) :
    elementFrom? (before ++ (tag ++ '>' :: rest)) (byteSize before) =
      contentFrom? ((before ++ tag ++ ['>']) ++ rest) (byteSize (before ++ tag ++ ['>'])) := by
  have honce : StartsOnce ['>'] := ⟨'>', [], rfl, List.not_mem_nil⟩
  have hsize : offsetOf? ['>'] (lower (tag ++ (['>'] ++ rest))) = some (byteSize tag) :=
    offsetOf?_lower honce (by decide) (no_bracket_lower h) rest
  have hend : byteSize (before ++ tag ++ ['>']) = byteSize before + byteSize tag + 1 := by
    rw [byteSize_append, byteSize_append]
    rfl
  rw [hend, elementFrom?, splitAt?_lower]
  simp only [List.singleton_append] at hsize
  simp [hsize]

theorem extract?_of_no_tag {xml : Text} (h : ¬ openingTag <:+: lower xml) :
    extract? xml = some [] := by
  rw [extract?, offsetOf?_eq_none_iff.2 h]

theorem extract?_of_element {before opening : Text} (hbefore : ¬ openingTag <:+: lower before)
    (hopening : lower opening = openingTag) (rest : Text) :
    extract? (before ++ (opening ++ rest)) =
      elementFrom? (before ++ (opening ++ rest)) (byteSize before) := by
  rw [extract?, offsetOf?_lower startsOnce_openingTag hopening hbefore]

/-- Every text has a summary: no cut falls inside a character. -/
theorem exists_extract?_eq (xml : Text) : ∃ body, extract? xml = some (flatten body) := by
  by_cases hopening : openingTag <:+: lower xml
  · obtain ⟨before, opening, rest, rfl, hlower, hbefore⟩ :=
      exists_first_lower startsOnce_openingTag.ne_nil hopening
    rw [extract?_of_element hbefore hlower]
    by_cases hend : '>' ∈ opening ++ rest
    · obtain ⟨tag, after, hsplit, htag⟩ := List.eq_append_cons_of_mem hend
      rw [hsplit, elementFrom?_of_tag before htag]
      exact exists_contentFrom?_eq _ after
    · exact ⟨[], elementFrom?_of_not_mem before hend⟩
  · exact ⟨[], extract?_of_no_tag hopening⟩

theorem extract?_eq (xml : Text) : extract? xml = some (extract xml) := by
  obtain ⟨body, h⟩ := exists_extract?_eq xml
  rw [extract, h]
  rfl

theorem exists_extract_eq (xml : Text) : ∃ body, extract xml = flatten body := by
  obtain ⟨body, h⟩ := exists_extract?_eq xml
  rw [extract?_eq] at h
  exact ⟨body, Option.some.inj h⟩

theorem feed_not_mem_extract (xml : Text) : '\n' ∉ extract xml := by
  obtain ⟨body, h⟩ := exists_extract_eq xml
  rw [h]
  exact feed_not_mem_flatten body

theorem trimmed_extract (xml : Text) : Trimmed (extract xml) := by
  obtain ⟨body, h⟩ := exists_extract_eq xml
  rw [h]
  exact trimmed_flatten body

/-! ## Elements laid out in a text -/

theorem getLast?_of_closed_tag {t : Text} (h : ['/', '>'] <:+ lower (t ++ ['>'])) :
    t.getLast? = some '/' := by
  obtain ⟨front, hfront⟩ := h
  have hslash : ['/', '>'] = ['/'] ++ lower ['>'] := by decide
  rw [lower_append, hslash, ← List.append_assoc] at hfront
  have hlast : (lower t).getLast? = some '/' := by
    rw [← List.append_cancel_right hfront]
    simp
  rw [lower, List.getLast?_map] at hlast
  obtain ⟨c, hc, hlower⟩ := Option.map_eq_some_iff.1 hlast
  rw [hc, (toLower_eq_iff (by decide)).1 hlower]

theorem not_closed_tag (before : Text) {opening attributes : Text}
    (hopening : lower opening = openingTag) (hopen : attributes.getLast? ≠ some '/') :
    ¬ ['/', '>'] <:+ lower (before ++ (opening ++ attributes) ++ ['>']) := by
  intro h
  have hlast := getLast?_of_closed_tag h
  by_cases hattributes : attributes = []
  · -- Without attributes the last character is that of the tag's name.
    have hname : (lower (before ++ opening)).getLast? = some 'y' := by
      rw [lower_append, hopening, List.getLast?_append_of_ne_nil _ startsOnce_openingTag.ne_nil]
      decide
    rw [hattributes, List.append_nil] at hlast
    rw [lower, List.getLast?_map, hlast] at hname
    exact absurd hname (by decide)
  · rw [← List.append_assoc, List.getLast?_append_of_ne_nil _ hattributes] at hlast
    exact hopen hlast

/-- The summary is what follows the first opening tag that ends. -/
theorem extract?_of_tag {before opening attributes : Text}
    (hbefore : ¬ openingTag <:+: lower before) (hopening : lower opening = openingTag)
    (hend : '>' ∉ attributes) (rest : Text) :
    extract? (before ++ opening ++ attributes ++ '>' :: rest) =
      contentFrom? ((before ++ (opening ++ attributes) ++ ['>']) ++ rest)
        (byteSize (before ++ (opening ++ attributes) ++ ['>'])) := by
  have hname : '>' ∉ opening := by
    rw [← mem_lower (by decide), hopening]
    decide
  have htag : '>' ∉ opening ++ attributes := by
    simp [hname, hend]
  have hfound := extract?_of_element hbefore hopening (attributes ++ '>' :: rest)
  rw [← elementFrom?_of_tag before htag]
  simpa using hfound

/-- **Every summary is cut at character boundaries, and it is the body of its element in one line.**
The summary of any text holds no line feed and neither starts nor ends with white space. If the
first opening tag ends and does not close itself, the summary is the lines of the body, trimmed,
without the blank ones, with single blanks between them; the body runs up to the first closing tag,
or to the end of the text. -/
theorem extract_inverts_layout :
    (∀ xml : Text, extract? xml = some (extract xml) ∧ '\n' ∉ extract xml ∧
      Trimmed (extract xml)) ∧
    ∀ before opening attributes body : Text,
      ¬ "<summary".toList <:+: lower before → lower opening = "<summary".toList →
      '>' ∉ attributes → attributes.getLast? ≠ some '/' →
      ¬ "</summary".toList <:+: lower body →
      let prose := [' '].intercalate (((body.splitOn '\n').map trim).filter (· ≠ []))
      extract (before ++ opening ++ attributes ++ '>' :: body) = prose ∧
      ∀ closing rest : Text, lower closing = "</summary".toList →
        extract (before ++ opening ++ attributes ++ '>' :: (body ++ closing ++ rest)) = prose := by
  refine ⟨fun xml => ⟨extract?_eq xml, feed_not_mem_extract xml, trimmed_extract xml⟩, ?_⟩
  intro before opening attributes body hbefore hopening hend hopen hbody prose
  have htag := not_closed_tag before hopening hopen
  have hprose : flatten body = prose := flatten_eq body
  constructor
  · rw [extract, extract?_of_tag hbefore hopening hend, contentFrom?_of_unclosed htag hbody]
    exact hprose
  · intro closing rest hclosing
    rw [extract, extract?_of_tag hbefore hopening hend, List.append_assoc body,
      contentFrom?_of_closed htag hbody hclosing]
    exact hprose

/-- Tags in mixed case among characters of two and three bytes, with an attribute, lines of both
endings and a blank one; the rest holds another element. -/
theorem unicode_summary_extracted :
    extract ("é<sum ".toList ++ "<SumMary".toList ++ " lang=\"ü\"".toList ++
      '>' :: ("\r\n  Gets the naïve\u3000\r\n \n\tİd</Summar\n".toList ++ "</SUMMARY".toList ++
        "> <summary>no</summary>".toList)) = "Gets the naïve İd</Summar".toList := by
  have hbefore : ¬ "<summary".toList <:+: lower "é<sum ".toList := by
    rw [← occursIn_iff]
    decide
  have hbody : ¬ "</summary".toList <:+:
      lower "\r\n  Gets the naïve\u3000\r\n \n\tİd</Summar\n".toList := by
    rw [← occursIn_iff]
    decide
  have hlayout := (extract_inverts_layout.2 _ "<SumMary".toList " lang=\"ü\"".toList _ hbefore
    (by decide) (by decide) (by decide) hbody).2 "</SUMMARY".toList
    "> <summary>no</summary>".toList (by decide)
  rw [hlayout]
  decide

end Summary
end ParamTwin
