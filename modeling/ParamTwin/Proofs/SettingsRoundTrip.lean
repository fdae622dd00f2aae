import ParamTwin.Proofs.NumberText
import ParamTwin.Proofs.PartialSettings
import ParamTwin.Proofs.YamlDocuments
import ParamTwin.Settings.Yaml

/-!
# Settings in documents

Settings are read back from the document they are written as, and a document that leaves out some
of their fields or sections is read with defaults in their places:

* `Yaml.writing`: which YAML values stand for which fields.
* `Settings.exists_isPart_toYaml`: the YAML text of settings is read as a document with all fields.
* `Settings.partial_settings_overlay_defaults`: both formats, for all settings and all documents.
-/

namespace ParamTwin

namespace Yaml

/-! ## Values -/

/-- What may stand in YAML for a value without entries. -/
inductive Stands : Json → Yaml → Prop
  | null {word : String} (h : word ∈ nullWords) : Stands .null (.scalar none true word)
  | flag {word : String} {b : Bool} (h : flagWords.lookup word = some b) :
    Stands (.bool b) (.scalar none true word)
  | count (n : Nat) : Stands (.nat n) (.scalar none true (String.ofList (Number.digitText n)))
  | str {s : String} {plain : Bool} (h : plain = true → s ≠ "" ∧ s ∉ nullWords) :
    Stands (.str s) (.scalar none plain s)
  | texts {ss : List String} {ys : List Yaml}
    (h : List.Forall₂ (fun s y => y.text? = some s) ss ys) :
    Stands (.arr (ss.map .str)) (.seq none ys)

/-- A mapping is a record, and nothing is one without entries. -/
def IsRecord (y : Yaml) (members : List (String × Yaml)) : Prop :=
  (∃ tag entries, y = .map tag entries ∧ keyed? entries = some members) ∨
    y.isEmpty = true ∧ members = []

theorem isRecord_map_entry (members : List (String × Yaml)) :
    IsRecord (.map none (members.map entry)) members :=
  .inl ⟨none, _, rfl, keyed?_map_entry members⟩

theorem digit?_of_isDigit {c : Char} (h : c.isDigit = true) :
    digit? 10 c = some (c.toNat - 48) := by
  simp only [Char.isDigit, ge_iff_le, Bool.and_eq_true, decide_eq_true_eq,
    UInt32.le_iff_toNat_le] at h
  have hrange : '0' ≤ c ∧ c ≤ '9' := h
  have hlt : c.toNat - 48 < 10 := by
    have hle : c.toNat ≤ 57 := h.2
    omega
  unfold digit?
  simp [hrange, Option.filter, hlt]

theorem digitsFrom?_eq {ds : Text} (h : ∀ c ∈ ds, c.isDigit = true) (n : Nat) :
    digitsFrom? 10 n ds = some (Nat.ofDigitChars 10 ds n) := by
  induction ds generalizing n with
  | nil => rfl
  | cons c cs ih =>
    rw [digitsFrom?, digit?_of_isDigit (h c (.head _))]
    exact ih (fun x hx => h x (.tail _ hx)) _

theorem digits?_digitText {n : Nat} (h : n < Json.countLimit) :
    digits? 10 (Number.digitText n) = some n := by
  have hdigits := (Json.isDigits_digitText n).digits
  have hne : (Number.digitText n).isEmpty = false := by
    simpa using (Json.isDigits_digitText n).ne_nil
  unfold digits?
  rw [hne, digitsFrom?_eq hdigits, Number.digitText,
    Nat.ofDigitChars_toDigits (by decide) (by decide)]
  simp [Option.filter, h]

theorem number?_digitText {n : Nat} (h : n < Json.countLimit) :
    number? (Number.digitText n) = some n := by
  have hdigits := (Json.isDigits_digitText n).digits
  have hread := digits?_digitText h
  have hzero : ∀ c cs, Number.digitText n ≠ '0' :: c :: cs := by
    intro c cs hds
    by_cases hn : n = 0
    · subst hn
      cases hds
    · exact Number.head_digitText_ne_zero hn (by rw [hds]; rfl)
  generalize Number.digitText n = ds at *
  have hplus : ∀ t, ds ≠ '+' :: t := by
    intro t hds
    exact absurd (hdigits '+' (hds ▸ .head _)) (by decide)
  unfold number? unsigned? decimal?
  split
  · exact absurd rfl (hplus _)
  · split
    · exact absurd rfl (hzero _ _)
    · exact absurd rfl (hzero _ _)
    · exact absurd rfl (hzero _ _)
    · split
      · exact absurd rfl (hzero _ _)
      · exact hread

theorem fields_of_isRecord {y : Yaml} {members : List (String × Yaml)} {names : List String}
    (h : IsRecord y members)
    (honce : ∀ n ∈ names, (members.filter fun m => m.1 == n).length ≤ 1) :
    Yaml.fields names y = some (members.lookup ·) := by
  have hnot : (names.any fun n => 1 < (members.filter fun m => m.1 == n).length) = false := by
    simp only [List.any_eq_false, decide_eq_true_eq, Nat.not_lt]
    exact honce
  cases h with
  | inl h =>
    obtain ⟨tag, entries, rfl, hkeyed⟩ := h
    simp only [fields, hkeyed, Option.bind_eq_bind, Option.bind_some, hnot, Bool.false_eq_true,
      if_false]
    rfl
  | inr h =>
    obtain ⟨hempty, rfl⟩ := h
    cases y with
    | scalar tag plain text => simp [fields, hempty]
    | seq tag items => cases hempty
    | map tag entries => cases hempty

/-- Records and values of settings in YAML. -/
def writing : Writing Yaml.format where
  record := IsRecord
  leaf := Stands
  fields := fields_of_isRecord
  null := by
    intro d h
    cases h with
    | @null word h =>
      show (word == "" || nullWords.contains word) = true
      simp [h]
  notNull := by
    intro s d h
    cases h with
    | @str _ plain h =>
      cases plain with
      | false => rfl
      | true =>
        show (s == "" || nullWords.contains s) = false
        simpa using h rfl
  text := by
    intro s d h
    cases h with
    | str h => rfl
  choice := by
    intro s d h
    cases h with
    | str h => rfl
  flag := by
    intro b d h
    cases h with
    | flag h => exact h
  count := by
    intro n d h hn
    generalize hj : Json.nat n = j at h
    cases h with
    | count k =>
      obtain rfl : n = k := by simpa [Json.nat, Number.ofNat] using hj
      show number? (String.ofList (Number.digitText n)).toList = some n
      rw [String.toList_ofList, number?_digitText hn]
    | _ => cases hj
  texts := by
    intro ss d h
    generalize hj : Json.arr (ss.map .str) = j at h
    cases h with
    | @texts ss' ys h =>
      obtain rfl : ss = ss' := by
        have hmap := Json.arr.inj hj
        exact List.map_injective_iff.2 (fun _ _ => Json.str.inj) hmap
      show (ys.mapM text? : Option (List String)) = some ss
      exact mapM_eq_some_iff.2 h.flip
    | _ => cases hj

/-! ## Values as they are written -/

theorem isDull_of_isDigit {c : Char} (h : c.isDigit = true) : isDull c = true := by
  have hall : ∀ n < 10, isDull (Char.ofNat (48 + n)) = true := by decide
  simp only [Char.isDigit, ge_iff_le, Bool.and_eq_true, decide_eq_true_eq,
    UInt32.le_iff_toNat_le] at h
  have hrange : 48 ≤ c.toNat ∧ c.toNat ≤ 57 := h
  have hc := hall (c.toNat - 48) (by omega)
  rwa [Nat.add_sub_cancel' hrange.1, Char.ofNat_toNat] at hc

theorem mem_nullWords_lower {s : String} (h : s ∈ nullWords) :
    ambiguousWords.contains (String.ofList (Text.lower s.toList)) = true := by
  have hall : ∀ s ∈ nullWords,
      ambiguousWords.contains (String.ofList (Text.lower s.toList)) = true := by decide
  exact hall s h

theorem stands_str (s : String) : Stands (.str s) (.scalar none (isBare s.toList) s) := by
  refine .str fun hbare => ?_
  simp only [isBare, Bool.and_eq_true, Bool.not_eq_true'] at hbare
  have hambiguous := hbare.2.1
  constructor
  · rintro rfl
    cases hambiguous
  · intro hnull
    have hword := mem_nullWords_lower hnull
    unfold isAmbiguous at hambiguous
    split at hambiguous
    · cases hambiguous
    · rw [hword, Bool.or_true] at hambiguous
      cases hambiguous

/-- A value that is written in a way that stands for it. -/
def IsWritten (v : Json) : Prop :=
  ∃ y, Written v y ∧ Stands v y

theorem isWritten_null : IsWritten .null :=
  ⟨_, written_word (isPlain_of_isDull (by decide) (by decide)) fun _ => rfl, .null (by decide)⟩

theorem isWritten_bool (b : Bool) : IsWritten (.bool b) := by
  have hword : IsPlain (if b then "true" else "false").toList := by
    cases b <;> exact isPlain_of_isDull (by decide) (by decide)
  refine ⟨_, written_word hword fun _ => rfl, .flag ?_⟩
  cases b <;> rfl

theorem isWritten_nat (n : Nat) : IsWritten (.nat n) :=
  have hdigits := Json.isDigits_digitText n
  have hplain := isPlain_of_isDull hdigits.ne_nil
    (List.all_eq_true.2 fun c hc => isDull_of_isDigit (hdigits.digits c hc))
  ⟨_, written_word hplain fun _ => rfl, .count n⟩

theorem isWritten_str (s : String) : IsWritten (.str s) :=
  ⟨_, written_str s, stands_str s⟩

theorem isWritten_optStr (o : Option String) : IsWritten (.optStr o) := by
  cases o with
  | none => exact isWritten_null
  | some s => exact isWritten_str s

theorem isWritten_texts (ss : List String) : IsWritten (.arr (ss.map .str)) := by
  refine ⟨_, written_texts ss, .texts ?_⟩
  rw [List.forall₂_map_right_iff, List.forall₂_same]
  exact fun _ _ => rfl

end Yaml

namespace Settings

/-- Every section has fields, and all keys are words. -/
theorem isKey_sections (s : Settings) : ∀ x ∈ s.sections,
    Yaml.Scan.IsKey x.1.toList ∧ x.2 ≠ [] ∧ ∀ m ∈ x.2, Yaml.Scan.IsKey m.1.toList := by
  -- The keys do not depend on the settings.
  have hkeys : ∀ x ∈ ({} : Settings).sections.map fun x => (x.1, x.2.map Prod.fst),
      Yaml.Scan.IsKey x.1.toList ∧ x.2 ≠ [] ∧ ∀ n ∈ x.2, Yaml.Scan.IsKey n.toList := by decide
  have hsame : s.sections.map (fun x => (x.1, x.2.map Prod.fst)) =
      ({} : Settings).sections.map fun x => (x.1, x.2.map Prod.fst) := rfl
  intro x hx
  obtain ⟨hk, hne, hfields⟩ := hkeys (x.1, x.2.map Prod.fst) (hsame ▸ List.mem_map_of_mem hx)
  exact ⟨hk, fun h => hne (by simp [h]), fun m hm => hfields m.1 (List.mem_map_of_mem hm)⟩

theorem isWritten_sections (s : Settings) : ∀ x ∈ s.sections, ∀ m ∈ x.2, Yaml.IsWritten m.2 := by
  simp only [sections, namingMembers, embeddingMembers, indexMembers, harvestMembers,
    procedureMembers, List.forall_mem_cons, Yaml.isWritten_bool, Yaml.isWritten_nat,
    Yaml.isWritten_str, Yaml.isWritten_optStr, Yaml.isWritten_texts]
  simp

/-- The fields of a record stand for those of a section. -/
def IsSection (v : Json) (y : Yaml) : Prop :=
  ∃ fields members, v = .obj fields ∧ Yaml.IsRecord y members ∧
    List.Forall₂ (fun a b => b.1 = a.1 ∧ Yaml.Stands a.2 b.2) fields members

theorem exists_isPart_toYaml (s : Settings) :
    ∃ y, Yaml.read? s.toYaml = some y ∧ IsPart Yaml.writing (fun _ _ => true) s y := by
  have hsections : ∀ m ∈ s.sections.map (fun x => (x.1, Json.obj x.2)),
      Yaml.WrittenAs IsSection m := by
    rw [List.forall_mem_map]
    intro x hx
    obtain ⟨hk, hne, hkeys⟩ := isKey_sections s x hx
    obtain ⟨ns, hwritten, -, hstands⟩ := Yaml.exists_written_obj hne fun m hm =>
      ⟨hkeys m hm, isWritten_sections s x hx m hm⟩
    exact ⟨hk, _, hwritten, x.2, ns, rfl, Yaml.isRecord_map_entry ns, hstands⟩
  obtain ⟨ns, -, hread, hns⟩ := Yaml.exists_written_obj (by simp [sections]) hsections
  refine ⟨_, hread, isPart_of_record Yaml.writing (Yaml.isRecord_map_entry ns) ?_⟩
  rw [List.forall₂_map_left_iff] at hns
  refine hns.imp fun x m hm => ⟨hm.1, ?_⟩
  obtain ⟨fields, members, heq, hrecord, hstands⟩ := hm.2
  obtain rfl := Json.obj.inj heq
  exact ⟨members, hrecord, hstands⟩

/-- **Settings are read back, and what a document leaves out takes its default**, in both formats:
whether a field is missing by itself, with its section or as its section is empty, in any order of
keys and beside keys that are not known. The defaults of fields are those of sections. -/
theorem partial_settings_overlay_defaults (c : Settings)
    (hcounts : ∀ n ∈ c.counts, n < Json.countLimit) :
    unset = {} ∧ ofJson c.toJson = .ok c ∧ ofYaml? c.toYaml = some c ∧
      (∀ kept j, IsPart Json.writing kept c j → ofJson j = .ok (c.overlay kept {})) ∧
      ∀ kept t y, Yaml.read? t = some y → IsPart Yaml.writing kept c y →
        ofYaml? t = some (c.overlay kept {}) := by
  have hjson : ∀ kept j, IsPart Json.writing kept c j → ofJson j = .ok (c.overlay kept {}) := by
    intro kept j h
    rw [ofJson, read_of_isPart Json.writing hcounts h]
  have hyaml : ∀ kept t y, Yaml.read? t = some y → IsPart Yaml.writing kept c y →
      ofYaml? t = some (c.overlay kept {}) := by
    intro kept t y hread h
    rw [ofYaml?, hread]
    exact read_of_isPart Yaml.writing hcounts h
  obtain ⟨y, hread, hpart⟩ := exists_isPart_toYaml c
  refine ⟨unset_eq, ?_, ?_, hjson, hyaml⟩
  · rw [hjson _ _ c.isPart_toJson, overlay_self]
  · rw [hyaml _ _ y hread hpart, overlay_self]

/-- Settings that differ from the defaults in two sections. -/
def relocated : Settings :=
  { naming := { candidateCount := 7 }, index := { localPath := some "a\nb: 'c'" } }

theorem isPart_relocated {D : Type} {f : Format D} (w : Writing f) {d naming index extra path : D}
    (hd : w.record d [("index", index), ("extra", extra), ("naming", naming)])
    (hnaming : w.record naming [])
    (hindex : w.record index [("extra", extra), ("local_path", path)])
    (hpath : w.leaf (.str "a\nb: 'c'") path) :
    IsPart w (fun x m => x == "index" && m == "local_path") relocated d := by
  refine ⟨fun x => x == "naming" || x == "index", _, hd,
    ⟨[("naming", naming), ("index", index)], [("extra", extra)], ?_, ?_, ?_⟩, ?_⟩
  · show ([("index", index), ("extra", extra)] ++ [("naming", naming)]).Perm _
    exact List.perm_append_comm
  · simp [sections]
  · have hempty : w.Section (fun m => "naming" == "index" && m == "local_path")
        (namingMembers relocated.naming) naming :=
      ⟨[], hnaming, [], [], .nil, by simp, .nil⟩
    have hpath : w.Section (fun m => "index" == "index" && m == "local_path")
        (indexMembers relocated.index) index :=
      ⟨_, hindex, [("local_path", path)], [("extra", extra)], List.Perm.swap .., by
        simp [indexMembers], .cons ⟨rfl, hpath⟩ .nil⟩
    exact .cons ⟨rfl, hempty⟩ (.cons ⟨rfl, hpath⟩ .nil)
  · simp [sections]

/-- A document with one field of these settings. -/
def relocatedText : Text :=
  "index:\n  extra: ~\n  local_path: \"a\\nb: 'c'\"\nextra: ~\nnaming:\n".toList

theorem read?_relocatedText :
    Yaml.read? relocatedText = some (.map none ([
      ("index", .map none ([("extra", .scalar none true "~"),
        ("local_path", .scalar none false "a\nb: 'c'")].map Yaml.entry)),
      ("extra", .scalar none true "~"), ("naming", Yaml.nothing)].map Yaml.entry)) := by
  have htokens : Yaml.tokens? relocatedText = some [.blockMapStart, .key, .scalar true "index",
      .value, .blockMapStart, .key, .scalar true "extra", .value, .scalar true "~", .key,
      .scalar true "local_path", .value, .scalar false "a\nb: 'c'", .blockEnd, .key,
      .scalar true "extra", .value, .scalar true "~", .key, .scalar true "naming", .value,
      .blockEnd] := by
    decide
  rw [Yaml.read?, htokens]
  rfl

theorem path_alone_overlays_defaults :
    (∀ n ∈ relocated.counts, n < Json.countLimit) ∧
      ofJson relocated.toJson = .ok relocated ∧ ofYaml? relocated.toYaml = some relocated ∧
      ofJson (.obj [("index", .obj [("extra", .null), ("local_path", .str "a\nb: 'c'")]),
        ("extra", .null), ("naming", .obj [])]) =
          .ok { index := { localPath := some "a\nb: 'c'" } } ∧
      ofYaml? relocatedText = some { index := { localPath := some "a\nb: 'c'" } } := by
  have hcounts : ∀ n ∈ relocated.counts, n < Json.countLimit := by decide
  obtain ⟨-, hjson, hyaml, hpart, hread⟩ := partial_settings_overlay_defaults relocated hcounts
  exact ⟨hcounts, hjson, hyaml, hpart _ _ (isPart_relocated Json.writing rfl rfl rfl rfl),
    hread _ _ _ read?_relocatedText (isPart_relocated Yaml.writing (Yaml.isRecord_map_entry _)
      (.inr ⟨rfl, rfl⟩) (Yaml.isRecord_map_entry _) (.str (by decide)))⟩

end Settings

end ParamTwin
