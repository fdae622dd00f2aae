import ParamTwin.Proofs.Traversal
import ParamTwin.Proofs.YamlScan
import ParamTwin.Yaml.Reader

/-!
# Written documents

A mapping that is written as a document is read as the mapping of what its values are read as.
`Written v y` says that `v`, written after a key, is read as `y` whatever follows it; there is a
rule for each kind of value, and `read?_write` is the rule for a document.
-/

namespace ParamTwin.Yaml

/-! ## Rows of tokens as values -/

/-- A row of tokens that is read as a value in a block. -/
structure Parses (ts : List Token) (y : Yaml) : Prop where
  starts : ∃ t ∈ ts.head?, t ∉ [.key, .value, .blockEnd]
  node : ∀ {rest : List Token} {anchors : List (String × Yaml)} {handles : List (String × String)}
    {fuel : Nat}, rest.head? ≠ some .blockEntry → 4 * ts.length ≤ fuel →
      node? fuel true true ⟨ts ++ rest, anchors, handles⟩ = some (y, ⟨rest, anchors, handles⟩)

/-- A row of tokens that is read as the entries of a mapping. -/
structure EntriesParse (ts : List Token) (entries : List (Yaml × Yaml)) : Prop where
  head : ∀ t ∈ ts.head?, t = .key
  entries : ∀ {rest : List Token} {anchors : List (String × Yaml)}
    {handles : List (String × String)} {fuel : Nat}, 4 * (ts.length + 1) ≤ fuel →
      blockEntries? fuel ⟨ts ++ .blockEnd :: rest, anchors, handles⟩ =
        some (entries, ⟨rest, anchors, handles⟩)

section
variable {anchors : List (String × Yaml)} {handles : List (String × String)}
  {inBlock indentless : Bool} {ts rest : List Token} {fuel : Nat}

theorem node?_scalar (plain : Bool) (text : String) :
    node? (fuel + 2) inBlock indentless ⟨.scalar plain text :: rest, anchors, handles⟩ =
      some (.scalar none plain text, ⟨rest, anchors, handles⟩) := rfl

theorem node?_blockEntry {x : List Yaml × Parsing}
    (h : indentlessItems? fuel ⟨.blockEntry :: ts, anchors, handles⟩ = some x) :
    node? (fuel + 2) true true ⟨.blockEntry :: ts, anchors, handles⟩ =
      some (.seq none x.1, x.2) := by
  show ((indentlessItems? fuel ⟨.blockEntry :: ts, anchors, handles⟩).bind fun x =>
    some (Yaml.seq none x.1, x.2)).bind _ = _
  rw [h]
  rfl

theorem node?_blockMapStart {x : List (Yaml × Yaml) × Parsing}
    (h : blockEntries? fuel ⟨ts, anchors, handles⟩ = some x) :
    node? (fuel + 2) true indentless ⟨.blockMapStart :: ts, anchors, handles⟩ =
      some (.map none x.1, x.2) := by
  have hcontent : node? (fuel + 2) true indentless ⟨.blockMapStart :: ts, anchors, handles⟩ =
      ((blockEntries? fuel ⟨ts, anchors, handles⟩).bind fun x =>
        some (Yaml.map none x.1, x.2)).bind some := by
    cases indentless <;> rfl
  rw [hcontent, h]
  rfl

theorem indentlessItems?_blockEntry :
    indentlessItems? (fuel + 1) ⟨.blockEntry :: ts, anchors, handles⟩ =
      (nodeUnless? fuel true false [.blockEntry, .key, .value, .blockEnd]
        ⟨ts, anchors, handles⟩).bind fun x =>
          (indentlessItems? fuel x.2).bind fun xs => some (x.1 :: xs.1, xs.2) :=
  rfl

theorem blockEntries?_key :
    blockEntries? (fuel + 1) ⟨.key :: ts, anchors, handles⟩ =
      (nodeUnless? fuel true true [.key, .value, .blockEnd] ⟨ts, anchors, handles⟩).bind fun k =>
        (entryValue? fuel true [.key, .value, .blockEnd] k.2).bind fun v =>
          (blockEntries? fuel v.2).bind fun es => some ((k.1, v.1) :: es.1, es.2) :=
  rfl

theorem entryValue?_value {stops : List Token} :
    entryValue? (fuel + 1) inBlock stops ⟨.value :: ts, anchors, handles⟩ =
      nodeUnless? fuel inBlock inBlock stops ⟨ts, anchors, handles⟩ :=
  rfl

theorem parses_scalar (plain : Bool) (text : String) :
    Parses [.scalar plain text] (.scalar none plain text) where
  starts := ⟨_, rfl, by simp⟩
  node {rest anchors handles fuel} _ hfuel := by
    obtain ⟨n, rfl⟩ : ∃ n, fuel = n + 2 := ⟨fuel - 2, by simp at hfuel; omega⟩
    exact node?_scalar plain text

theorem parses_brackets : Parses [.flowSeqStart, .flowSeqEnd] (.seq none []) where
  starts := ⟨_, rfl, by simp⟩
  node {rest anchors handles fuel} _ hfuel := by
    obtain ⟨n, rfl⟩ : ∃ n, fuel = n + 3 := ⟨fuel - 3, by simp at hfuel; omega⟩
    rfl

/-- A value that stands where it may be missing. -/
theorem nodeUnless?_of_starts {stops : List Token} (h : ∃ t ∈ ts.head?, t ∉ stops) :
    nodeUnless? (fuel + 1) inBlock indentless stops ⟨ts ++ rest, anchors, handles⟩ =
      node? fuel inBlock indentless ⟨ts ++ rest, anchors, handles⟩ := by
  obtain ⟨t, ht, hstops⟩ := h
  have hnext : Parsing.next? ⟨ts ++ rest, anchors, handles⟩ = some t := by
    rw [Parsing.next?, List.head?_append, Option.mem_def.1 ht]
    rfl
  rw [nodeUnless?, Parsing.isAt, hnext]
  simp [hstops]

theorem nodeUnless?_scalar {stops : List Token} {plain : Bool} {text : String}
    (h : .scalar plain text ∉ stops) :
    nodeUnless? (fuel + 3) inBlock indentless stops
        ⟨.scalar plain text :: rest, anchors, handles⟩ =
      some (.scalar none plain text, ⟨rest, anchors, handles⟩) := by
  have hstarts : ∃ t ∈ [Token.scalar plain text].head?, t ∉ stops := ⟨_, rfl, h⟩
  exact (nodeUnless?_of_starts hstarts).trans (node?_scalar plain text)

/-- The items of a sequence that is indented no further than its key. -/
theorem indentlessItems?_scalars (plain : String → Bool) (ss : List String)
    (hrest : rest.head? ≠ some .blockEntry) (hfuel : 2 * ss.length + 2 < fuel) :
    indentlessItems? fuel ⟨(ss.flatMap fun s => [.blockEntry, .scalar (plain s) s]) ++ rest,
        anchors, handles⟩ =
      some (ss.map fun s => .scalar none (plain s) s, ⟨rest, anchors, handles⟩) := by
  induction ss generalizing fuel with
  | nil =>
    obtain ⟨n, rfl⟩ : ∃ n, fuel = n + 1 := ⟨fuel - 1, by omega⟩
    have hnext : (Parsing.next? ⟨rest, anchors, handles⟩ == some .blockEntry) = false := by
      simpa [Parsing.next?] using hrest
    show indentlessItems? (n + 1) ⟨rest, anchors, handles⟩ = _
    rw [indentlessItems?, hnext]
    rfl
  | cons s ss ih =>
    obtain ⟨n, rfl⟩ : ∃ n, fuel = n + 4 := ⟨fuel - 4, by simp at hfuel; omega⟩
    have hitems : indentlessItems? (n + 3) _ = _ := ih (by simp at hfuel; omega)
    rw [List.flatMap_cons, List.append_assoc, List.cons_append, List.singleton_append,
      indentlessItems?_blockEntry, nodeUnless?_scalar (by simp), Option.bind_some, hitems]
    rfl

theorem length_items (plain : String → Bool) (ss : List String) :
    (ss.flatMap fun s => [Token.blockEntry, .scalar (plain s) s]).length = 2 * ss.length := by
  induction ss with
  | nil => rfl
  | cons s ss ih =>
    rw [List.flatMap_cons, List.length_append, ih, List.length_cons, List.length_cons,
      List.length_cons, List.length_nil]
    omega

theorem parses_items (plain : String → Bool) {ss : List String} (h : ss ≠ []) :
    Parses (ss.flatMap fun s => [.blockEntry, .scalar (plain s) s])
      (.seq none (ss.map fun s => .scalar none (plain s) s)) where
  starts := by
    obtain ⟨s, ss, rfl⟩ := List.exists_cons_of_ne_nil h
    exact ⟨.blockEntry, rfl, by simp⟩
  node {rest anchors handles fuel} hrest hfuel := by
    have hlength := length_items plain ss
    have hpos := List.length_pos_iff.2 h
    obtain ⟨n, rfl⟩ : ∃ n, fuel = n + 2 := ⟨fuel - 2, by omega⟩
    have hitems : indentlessItems? n ⟨_, anchors, handles⟩ = _ :=
      indentlessItems?_scalars plain ss hrest (by omega)
    obtain ⟨s, ss, rfl⟩ := List.exists_cons_of_ne_nil h
    exact node?_blockEntry hitems

theorem node?_mapping {entries : List (Yaml × Yaml)} (h : EntriesParse ts entries)
    (hfuel : 4 * (ts.length + 2) ≤ fuel) :
    node? fuel true indentless ⟨.blockMapStart :: ts ++ .blockEnd :: rest, anchors, handles⟩ =
      some (.map none entries, ⟨rest, anchors, handles⟩) := by
  obtain ⟨n, rfl⟩ : ∃ n, fuel = n + 2 := ⟨fuel - 2, by omega⟩
  exact node?_blockMapStart (h.entries (by omega))

theorem parses_mapping {entries : List (Yaml × Yaml)} (h : EntriesParse ts entries) :
    Parses (.blockMapStart :: ts ++ [.blockEnd]) (.map none entries) where
  starts := ⟨.blockMapStart, rfl, by simp⟩
  node {rest anchors handles fuel} _ hfuel := by
    rw [List.append_assoc]
    refine node?_mapping h ?_
    simp only [List.length_append, List.length_cons, List.length_nil] at hfuel
    omega

theorem entriesParse_nil : EntriesParse [] [] where
  head := by simp
  entries {rest anchors handles fuel} hfuel := by
    obtain ⟨n, rfl⟩ : ∃ n, fuel = n + 1 := ⟨fuel - 1, by simp at hfuel; omega⟩
    rfl

theorem entriesParse_cons {us : List Token} {y : Yaml} {entries : List (Yaml × Yaml)}
    (hy : Parses ts y) (hus : EntriesParse us entries) (k : String) :
    EntriesParse (.key :: .scalar true k :: .value :: (ts ++ us))
      ((.scalar none true k, y) :: entries) where
  head := by simp
  entries {rest anchors handles fuel} hfuel := by
    simp only [List.length_cons, List.length_append] at hfuel
    -- The value is read three calls below its entry.
    obtain ⟨n, rfl⟩ : ∃ n, fuel = n + 4 := ⟨fuel - 4, by omega⟩
    have hrest : (us ++ .blockEnd :: rest).head? ≠ some .blockEntry := by
      cases us with
      | nil => simp
      | cons t us => simpa using fun h => absurd (hus.head t rfl) (by simp [h])
    have hvalue : nodeUnless? (n + 2) true true [.key, .value, .blockEnd]
        ⟨ts ++ (us ++ .blockEnd :: rest), anchors, handles⟩ = _ :=
      (nodeUnless?_of_starts hy.starts).trans (hy.node hrest (by omega))
    have hentries : blockEntries? (n + 3) ⟨us ++ .blockEnd :: rest, anchors, handles⟩ = _ :=
      hus.entries (by omega)
    rw [List.cons_append, List.cons_append, List.cons_append, List.append_assoc, blockEntries?_key,
      nodeUnless?_scalar (by simp), Option.bind_some, entryValue?_value, hvalue, Option.bind_some,
      hentries]
    rfl

end

/-! ## Characters of written documents -/

/-- A text of characters that are written as they are. -/
def Printable (t : Text) : Prop :=
  ∀ c ∈ t, isPrintable c = true

instance : DecidablePred Printable :=
  fun t => decidable_of_iff (t.all isPrintable = true) List.all_eq_true

namespace Printable

variable {t u : Text} {c : Char}

theorem nil : Printable [] :=
  fun _ h => nomatch h

theorem cons (hc : isPrintable c = true) (ht : Printable t) : Printable (c :: t) :=
  List.forall_mem_cons.2 ⟨hc, ht⟩

theorem append (ht : Printable t) (hu : Printable u) : Printable (t ++ u) :=
  List.forall_mem_append.2 ⟨ht, hu⟩

theorem blanks (k : Nat) : Printable (List.replicate k ' ') := by
  intro c hc
  rw [List.eq_of_mem_replicate hc]
  decide

theorem margin (k : Nat) (fresh : Bool) : Printable (margin k fresh) := by
  cases fresh with
  | false => exact nil
  | true => exact blanks k

theorem closeLine (h : Printable t) : Printable (closeLine t) :=
  fun _ => isPrintable_of_mem_closeLine h

theorem singleText (h : Printable t) (k : Nat) (fresh : Bool) :
    Printable (singleText k fresh t) := by
  induction t generalizing fresh with
  | nil => exact margin k fresh
  | cons c t ih =>
    obtain ⟨hc, ht⟩ := List.forall_mem_cons.1 h
    rw [Yaml.singleText]
    split
    · exact cons hc (ih ht true)
    · refine append (append (margin k fresh) ?_) (ih ht false)
      split
      · exact cons (by decide) (cons (by decide) nil)
      · exact cons hc nil

theorem indentLines (h : Printable t) (k : Nat) (fresh : Bool) :
    Printable (indentLines k fresh t) := by
  induction t generalizing fresh with
  | nil => exact nil
  | cons c t ih =>
    obtain ⟨hc, ht⟩ := List.forall_mem_cons.1 h
    rw [Yaml.indentLines]
    split
    · exact cons hc (ih ht true)
    · exact append (margin k fresh) (cons hc (ih ht false))

theorem lines (h : Printable t) (k : Nat) : Printable (lines k t) := by
  have hindent : Printable (indentMark t) := by
    unfold indentMark
    split <;> decide
  have hchomp : Printable (chompMark t) := by
    unfold chompMark
    split
    · split
      · decide
      · split <;> decide
    · decide
  exact cons (by decide) (append (append hindent hchomp) (cons (by decide) (indentLines h k true)))

theorem double (t : Text) : Printable (double t) := by
  refine cons (by decide) (append ?_ (cons (by decide) nil))
  intro c hc
  obtain ⟨d, -, hd⟩ := List.mem_flatMap.1 hc
  exact (inLine_of_mem_doubleChar hd).1

theorem of_needsEscapes (h : needsEscapes t = false) : Printable t := by
  simp only [needsEscapes, Bool.or_eq_false_iff, List.any_eq_false, Bool.not_eq_true',
    Bool.not_eq_false] at h
  exact h.1

/-- A string is written with characters that are written as they are. -/
theorem string (k : Nat) (t : Text) : Printable (string k t) := by
  unfold Yaml.string
  split
  · split
    · rename_i hlines
      simp only [canBeLines, Bool.and_eq_true, Bool.not_eq_true'] at hlines
      exact lines (of_needsEscapes hlines.1.1) k
    · exact double t
  · split
    · rename_i hplain
      simp only [canBePlain, Bool.and_eq_true, Bool.not_eq_true'] at hplain
      exact of_needsEscapes hplain.2.1.1.1
    · split
      · rename_i hsingle
        simp only [canBeSingle, Bool.and_eq_true, Bool.not_eq_true'] at hsingle
        exact cons (by decide) (append (singleText (of_needsEscapes hsingle.1) k false)
          (cons (by decide) nil))
      · exact double t

end Printable

theorem IsPlain.isPrintable {t : Text} (h : IsPlain t) : Printable t := by
  have hplain := h.canBePlain
  simp only [Yaml.canBePlain, Bool.and_eq_true, Bool.not_eq_true'] at hplain
  exact .of_needsEscapes hplain.1.1.1

theorem isAllowed_of_isPrintable {c : Char} (h : isPrintable c = true) : isAllowed c = true := by
  rw [isPrintable_iff] at h
  simp only [isAllowed, Bool.or_eq_true, Bool.and_eq_true, decide_eq_true_eq]
  omega

theorem uniform_of_printable {t : Text} (h : Printable t) : uniform t = t := by
  induction t with
  | nil => rfl
  | cons c t ih =>
    obtain ⟨hc, ht⟩ := List.forall_mem_cons.1 h
    have hreturn : c ≠ '\r' := by
      rintro rfl
      cases hc
    have hnext : c.toNat ≠ 0x85 := by
      rw [isPrintable_iff] at hc
      omega
    rw [uniform.eq_def]
    split
    · rename_i heq
      cases heq
    · rename_i heq
      exact absurd (List.cons.inj heq).1 hreturn
    · rename_i heq
      obtain ⟨rfl, rfl⟩ := List.cons.inj heq
      simp [hreturn, hnext, ih ht]

theorem withoutMark_of_printable {t : Text} (h : Printable t) : withoutMark t = t := by
  cases t with
  | nil => rfl
  | cons c t =>
    have hc := isPrintable_iff.1 (h c (.head _))
    rw [withoutMark, if_neg (by omega)]

theorem tokens?_of_run {t : Text} (h : Printable t) {s : Scan}
    (hrun : Scan.run? (t.length + 2) (Scan.start t) = some s) :
    tokens? t = some s.tokens.reverse := by
  have hallowed : t.all isAllowed = true :=
    List.all_eq_true.2 fun c hc => isAllowed_of_isPrintable (h c hc)
  rw [tokens?, if_pos hallowed, withoutMark_of_printable h, uniform_of_printable h]
  show (Scan.run? (t.length + 2) (Scan.start t)).bind _ = _
  rw [hrun]
  rfl

/-! ## Written values -/

/-- A value that is written after its key is read as a value, whatever follows it. -/
structure Written (v : Json) (y : Yaml) : Prop where
  printable : ∀ i, Printable (afterKey i v)
  tokens : ∃ ts, Scan.Shows v ts ∧ Parses ts y

/-- An entry of a mapping. -/
def entry (m : String × Yaml) : Yaml × Yaml :=
  (.scalar none true m.1, m.2)

/-- The entries of a mapping are read as entries. -/
structure MembersWritten (ms : List (String × Json)) (ns : List (String × Yaml)) : Prop where
  printable : ∀ i, Printable (membersText i ms)
  tokens : ∃ ts, Scan.LinesShow (membersText · ms) ts ∧ EntriesParse ts (ns.map entry)

theorem written_word {v : Json} {word : Text} (h : IsPlain word)
    (hv : ∀ i, afterKey i v = ' ' :: closeLine word) :
    Written v (.scalar none true (String.ofList word)) where
  printable i := by
    rw [hv]
    exact .cons (by decide) h.isPrintable.closeLine
  tokens := ⟨_, Scan.shows_word h hv, parses_scalar true _⟩

theorem written_str (s : String) : Written (.str s) (.scalar none (isBare s.toList) s) where
  printable i := .cons (by decide) (Printable.string (i + 2) s.toList).closeLine
  tokens := ⟨_, Scan.shows_str s, parses_scalar _ s⟩

theorem printable_itemsText (i : Nat) (ss : List String) :
    Printable (itemsText i (ss.map .str)) := by
  induction ss with
  | nil => exact .nil
  | cons s ss ih =>
    exact .append (.append (.blanks i) (.cons (by decide) (.cons (by decide)
      (Printable.string (i + 2) s.toList).closeLine))) ih

theorem written_texts (ss : List String) :
    Written (.arr (ss.map .str))
      (.seq none (ss.map fun s => .scalar none (isBare s.toList) s)) := by
  cases ss with
  | nil =>
    have hprintable : Printable " []\n".toList := by decide
    exact ⟨fun _ => hprintable, _, Scan.shows_nil, parses_brackets⟩
  | cons s ss =>
    exact ⟨fun i => .cons (by decide) (printable_itemsText i (s :: ss)), _, Scan.shows_items,
      parses_items (fun s => isBare s.toList) (List.cons_ne_nil s ss)⟩

section
variable {k : String} {v : Json} {y : Yaml} {ms : List (String × Json)} {ns : List (String × Yaml)}

theorem membersWritten_nil : MembersWritten [] [] where
  printable _ := .nil
  tokens := ⟨[], Scan.linesShow_nil, entriesParse_nil⟩

theorem membersWritten_cons (hk : Scan.IsKey k.toList) (hv : Written v y)
    (hms : MembersWritten ms ns) : MembersWritten ((k, v) :: ms) ((k, y) :: ns) := by
  obtain ⟨hprintable, ts, hts, hy⟩ := hv
  obtain ⟨hprintables, us, hus, hns⟩ := hms
  refine ⟨fun i => ?_, _, Scan.linesShow_member hk hts hus, entriesParse_cons hy hns k⟩
  exact .append (.append (.append (.blanks i) (.string i k.toList))
    (.cons (by decide) (hprintable i))) (hprintables i)

theorem written_obj (hk : Scan.IsKey k.toList) (hv : Written v y) (hms : MembersWritten ms ns) :
    Written (.obj ((k, v) :: ms)) (.map none (((k, y) :: ns).map entry)) := by
  have hprintable := (membersWritten_cons hk hv hms).printable
  obtain ⟨-, ts, hts, hy⟩ := hv
  obtain ⟨-, us, hus, hns⟩ := hms
  exact ⟨fun i => .cons (by decide) (hprintable (i + 2)), _, Scan.shows_members hk hts hus,
    parses_mapping (entriesParse_cons hy hns k)⟩

theorem document?_mapping {ts : List Token} {entries : List (Yaml × Yaml)}
    (h : EntriesParse ts entries) :
    document? (.blockMapStart :: ts ++ [.blockEnd]) = some (.map none entries, []) := by
  generalize hus : .blockMapStart :: ts ++ [.blockEnd] = us
  have hnode : node? (4 * us.length + 4) true false ⟨us, [], knownHandles⟩ =
      some (.map none entries, ⟨[], [], knownHandles⟩) := by
    subst hus
    refine node?_mapping h ?_
    simp only [List.length_append, List.length_cons, List.length_nil]
    omega
  have hdocument : document? us =
      (node? (4 * us.length + 4) true false ⟨us, [], knownHandles⟩).bind fun x =>
        some (x.1, x.2.tokens) := by
    subst hus
    simp [document?, directives?, Parsing.next?]
  rw [hdocument, hnode]
  rfl

/-- **A mapping that is written as a document is read back.** -/
theorem read?_write (hk : Scan.IsKey k.toList) (hv : Written v y) (hms : MembersWritten ms ns) :
    read? (write (.obj ((k, v) :: ms))) = some (.map none (((k, y) :: ns).map entry)) := by
  have hprintable := (membersWritten_cons hk hv hms).printable 0
  obtain ⟨-, ts, hts, hy⟩ := hv
  obtain ⟨-, us, hus, hns⟩ := hms
  obtain ⟨s, hrun, hs⟩ := Scan.run?_members hk hts hus
  have htokens := tokens?_of_run hprintable hrun
  rw [hs] at htokens
  show ((tokens? (membersText 0 ((k, v) :: ms))).bind fun ts =>
    if ts.isEmpty then some nothing
    else (document? ts).bind fun x =>
      if x.2.all (· == .documentEnd) then some x.1 else none) = _
  rw [htokens, Option.bind_some]
  show (document? (.blockMapStart :: _ ++ [.blockEnd])).bind _ = _
  rw [document?_mapping (entriesParse_cons hy hns k)]
  rfl

end

/-! ## Records -/

section
variable {P : Json → Yaml → Prop} {ms : List (String × Json)}

/-- A value that is read as one with a given property. -/
def WrittenAs (P : Json → Yaml → Prop) (m : String × Json) : Prop :=
  Scan.IsKey m.1.toList ∧ ∃ y, Written m.2 y ∧ P m.2 y

theorem exists_membersWritten (h : ∀ m ∈ ms, WrittenAs P m) :
    ∃ ns, MembersWritten ms ns ∧ List.Forall₂ (fun m n => n.1 = m.1 ∧ P m.2 n.2) ms ns := by
  induction ms with
  | nil => exact ⟨[], membersWritten_nil, .nil⟩
  | cons m ms ih =>
    obtain ⟨⟨hk, y, hy, hP⟩, hms⟩ := List.forall_mem_cons.1 h
    obtain ⟨ns, hns, hPs⟩ := ih hms
    exact ⟨(m.1, y) :: ns, membersWritten_cons hk hy hns, .cons ⟨rfl, hP⟩ hPs⟩

theorem exists_written_obj (hne : ms ≠ []) (h : ∀ m ∈ ms, WrittenAs P m) :
    ∃ ns, Written (.obj ms) (.map none (ns.map entry)) ∧
      read? (write (.obj ms)) = some (.map none (ns.map entry)) ∧
      List.Forall₂ (fun m n => n.1 = m.1 ∧ P m.2 n.2) ms ns := by
  obtain ⟨m, ms, rfl⟩ := List.exists_cons_of_ne_nil hne
  obtain ⟨⟨hk, y, hy, hP⟩, hms⟩ := List.forall_mem_cons.1 h
  obtain ⟨ns, hns, hPs⟩ := exists_membersWritten hms
  exact ⟨(m.1, y) :: ns, written_obj hk hy hns, read?_write hk hy hns, .cons ⟨rfl, hP⟩ hPs⟩

theorem keyed?_map_entry (ns : List (String × Yaml)) : keyed? (ns.map entry) = some ns := by
  rw [keyed?, mapM_eq_some_iff, List.forall₂_map_left_iff, List.forall₂_same]
  exact fun n _ => rfl

end

end ParamTwin.Yaml
