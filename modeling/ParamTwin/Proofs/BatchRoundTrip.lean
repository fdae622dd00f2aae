import Mathlib.Data.List.Nodup
import ParamTwin.Corpus.Harvest
import ParamTwin.Proofs.FileWrites
import ParamTwin.Proofs.JsonRoundTrip
import ParamTwin.Proofs.Outline

/-!
# Harvested batches are read back

A harvest cuts the records of its sources into batches and writes each of them to a numbered file;
reading lists the files of the directory by number and decodes each. The two are inverse:

* `Batch.number?_fileName`, `Batch.fileName_inj`: the name of a file tells its number.
* `Batch.ofText?_text`: the text of a batch tells its records, whatever characters they hold.
* `Batch.flatten_split` and `Batch.length_of_mem_dropLast_split`: the cuts.
* `Harvest.write_of_leads`: what a run of writes leaves in the directory, from what one write does.
* `Harvest.filter_paths`: the files are listed in the order in which they were written.
* `Harvest.harvested_batches_read_back`: a harvest as a whole.
-/

namespace ParamTwin

namespace Batch

/-! ## Names of batch files -/

theorem toList_fileName (n : Nat) :
    (fileName n).toList = nameStart.toList ++ (Nat.toDigits 10 n ++ nameEnd.toList) := by
  simp [fileName, Nat.toList_repr]

theorem after?_append (start t : Text) : after? start (start ++ t) = some t := by
  induction start with
  | nil => rfl
  | cons c cs ih => rw [List.cons_append, after?, if_pos rfl, ih]

theorem digits?_eq {t : Text} (h : ∀ c ∈ t, c.isDigit = true) (n : Nat) :
    digits? n t = some (Nat.ofDigitChars 10 t n) := by
  induction t generalizing n with
  | nil => rfl
  | cons c cs ih =>
    have hc := h c (.head _)
    have hdigit : digit? c = some (c.toNat - '0'.toNat) := by
      unfold digit?
      rw [if_pos]
      simpa [Char.isDigit, UInt32.le_iff_toNat_le, Char.le_def] using hc
    rw [digits?, hdigit]
    exact ih (fun x hx => h x (.tail _ hx)) _

theorem digits?_toDigits (n : Nat) : digits? 0 (Nat.toDigits 10 n) = some n := by
  rw [digits?_eq fun c hc => Nat.isDigit_of_mem_toDigits (by decide) (by decide) hc,
    Nat.ofDigitChars_toDigits (by decide) (by decide)]

theorem number?_fileName_eq (n : Nat) : number? (fileName n) = count? (Nat.toDigits 10 n) := by
  unfold number?
  rw [toList_fileName, after?_append]
  simp only [Option.bind_eq_bind, Option.bind_some, List.reverse_append, after?_append,
    List.reverse_reverse]

theorem count?_toDigits (n : Nat) :
    count? (Nat.toDigits 10 n) = if n < numberLimit then some n else none := by
  obtain ⟨c, cs, hcs⟩ := List.exists_cons_of_ne_nil (Nat.toDigits_ne_nil (n := n) (b := 10))
  have hplus : c ≠ '+' := by
    rintro rfl
    have hdigit := Nat.isDigit_of_mem_toDigits (n := n) (b := 10) (c := '+') (by decide)
      (by decide) (by rw [hcs]; exact .head _)
    exact absurd hdigit (by decide)
  have hdigits := digits?_toDigits n
  unfold count?
  rw [hcs] at hdigits ⊢
  split
  · rename_i heq
    exact absurd (List.cons.inj heq).1 hplus
  · show (digits? 0 (c :: cs)).filter _ = _
    rw [hdigits]
    simp [Option.filter]

theorem number?_fileName {n : Nat} (h : n < numberLimit) : number? (fileName n) = some n := by
  rw [number?_fileName_eq, count?_toDigits, if_pos h]

theorem fileName_inj {n k : Nat} : fileName n = fileName k ↔ n = k := by
  constructor
  · intro h
    have h := congrArg String.toList h
    rw [toList_fileName, toList_fileName] at h
    have h := List.append_cancel_right (List.append_cancel_left h)
    have hn := digits?_toDigits n
    rw [h, digits?_toDigits] at hn
    exact (Option.some.inj hn).symm
  · rintro rfl
    rfl

theorem isName_fileName (n : Nat) : Path.IsName (fileName n) := by
  have htail : (fileName n).toList = 'c' :: ("ontexts_".toList ++
      (Nat.toDigits 10 n ++ nameEnd.toList)) := toList_fileName n
  have hne : ∀ s : String, s.toList.head? ≠ some 'c' → fileName n ≠ s := by
    rintro s hs rfl
    rw [htail] at hs
    exact hs rfl
  refine ⟨?_, ?_, hne _ (by decide)⟩
  · rw [toList_fileName]
    simp only [List.mem_append, not_or]
    refine ⟨by decide, fun hdigit => ?_, by decide⟩
    exact absurd (Nat.isDigit_of_mem_toDigits (by decide) (by decide) hdigit) (by decide)
  · simp [Path.isIdle, hne "" (by decide), hne "." (by decide)]

/-! ## Texts of batches -/

theorem ofJson?_toJson (r : CorpusRecord) : CorpusRecord.ofJson? r.toJson = some r := by
  rfl

theorem mapM_ofJson? (rs : List CorpusRecord) :
    (rs.map CorpusRecord.toJson).mapM CorpusRecord.ofJson? = some rs := by
  rw [mapM_eq_some_iff, List.forall₂_map_left_iff, List.forall₂_same]
  exact fun r _ => ofJson?_toJson r

theorem ofText?_text (rs : List CorpusRecord) : ofText? (text rs) = some rs := by
  have hreadable : Json.Readable (.arr (rs.map CorpusRecord.toJson)) := by
    refine .arr fun v hv => ?_
    obtain ⟨r, -, rfl⟩ := List.mem_map.1 hv
    refine .obj fun m hm => ?_
    simp only [List.mem_cons, List.not_mem_nil, or_false] at hm
    rcases hm with rfl | rfl | rfl <;> exact .str _
  unfold ofText? text
  rw [Json.read?_prettyAt hreadable]
  exact mapM_ofJson? rs

theorem head?_text (rs : List CorpusRecord) : (text rs).head? = some '[' := by
  cases rs <;> rfl

/-! ## Parts of a list -/

section
variable {α : Type} {size : Nat} {xs : List α}

theorem flatten_split (size : Nat) (xs : List α) : (split size xs).flatten = xs := by
  fun_induction split size xs with
  | case1 => rfl
  | case2 x xs ih => rw [List.flatten_cons, ih, List.cons_append, List.take_append_drop]

theorem length_of_mem_split {part : List α} (hsize : 0 < size) (h : part ∈ split size xs) :
    0 < part.length ∧ part.length ≤ size := by
  fun_induction split size xs with
  | case1 => cases h
  | case2 x xs ih =>
    rcases List.mem_cons.1 h with rfl | h
    · simp only [List.length_cons, List.length_take]
      omega
    · exact ih h

theorem length_of_mem_dropLast_split {part : List α} (hsize : 0 < size)
    (h : part ∈ (split size xs).dropLast) : part.length = size := by
  fun_induction split size xs with
  | case1 => cases h
  | case2 x xs ih =>
    cases hrest : split size (xs.drop (size - 1)) with
    | nil =>
      rw [hrest] at h
      cases h
    | cons next rest =>
      -- Another part follows, so items were left over.
      have hleft : size - 1 < xs.length := by
        by_contra hle
        rw [List.drop_eq_nil_of_le (by omega), split] at hrest
        cases hrest
      rw [hrest, List.dropLast_cons_cons] at h
      rcases List.mem_cons.1 h with rfl | h
      · simp only [List.length_cons, List.length_take]
        omega
      · exact ih (by rw [hrest]; exact h)

theorem length_split_le (size : Nat) (xs : List α) : (split size xs).length ≤ xs.length := by
  fun_induction split size xs with
  | case1 => exact Nat.le_refl _
  | case2 x xs ih =>
    rw [List.length_drop] at ih
    simp only [List.length_cons]
    omega

theorem length_split (hsize : 0 < size) (xs : List α) :
    (split size xs).length = (xs.length + size - 1) / size := by
  fun_induction split size xs with
  | case1 => exact (Nat.div_eq_of_lt (by rw [List.length_nil]; omega)).symm
  | case2 x xs ih =>
    rw [List.length_cons, ih, List.length_drop, List.length_cons]
    have hright : (xs.length + 1 + size - 1) / size = xs.length / size + 1 := by
      rw [← Nat.add_div_right _ hsize]
      congr 1
      omega
    rw [hright]
    congr 1
    by_cases h : size - 1 ≤ xs.length
    · congr 1
      omega
    · rw [Nat.div_eq_of_lt (by omega), Nat.div_eq_of_lt (by omega)]

end
end Batch

namespace Harvest

open Batch

/-! ## Writing batches -/

/-- The paths of a number of batch files in a directory, from a number on. -/
def pathsFrom (dir : String) (n count : Nat) : List String :=
  (List.range' n count).map fun i => Path.join dir (fileName i)

section
variable {dir : String} {l : Location}

theorem location_inj {n k : Nat} : l ++ [fileName n] = l ++ [fileName k] ↔ n = k := by
  simp [fileName_inj]

section
variable {n : Nat} {batch : List CorpusRecord} {rest : List (List CorpusRecord)} {t u v : FileTree}
  {e : Error}

-- The two sides below agree at once when a write stays closed; opened, it is run on both of them.
attribute [local irreducible] FileTree.writeText

theorem write_cons (dir : String) (n : Nat) (batch : List CorpusRecord)
    (rest : List (List CorpusRecord)) (t : FileTree) :
    write dir n (batch :: rest) t =
      match t.writeText (Path.join dir (fileName n)) (text batch) with
      | (files, .error e) => (files, .error e)
      | (files, .ok ()) =>
        match write dir (n + 1) rest files with
        | (files, .error e) => (files, .error e)
        | (files, .ok paths) => (files, .ok (Path.join dir (fileName n) :: paths)) :=
  rfl

theorem write_cons_ok {paths : List String}
    (h : t.writeText (Path.join dir (fileName n)) (text batch) = (u, .ok ()))
    (hrest : write dir (n + 1) rest u = (v, .ok paths)) :
    write dir n (batch :: rest) t = (v, .ok (Path.join dir (fileName n) :: paths)) := by
  simp only [write_cons, h, hrest]

theorem write_cons_rest_error
    (h : t.writeText (Path.join dir (fileName n)) (text batch) = (u, .ok ()))
    (hrest : write dir (n + 1) rest u = (v, .error e)) :
    write dir n (batch :: rest) t = (v, .error e) := by
  simp only [write_cons, h, hrest]

theorem write_cons_error
    (h : t.writeText (Path.join dir (fileName n)) (text batch) = (u, .error e)) :
    write dir n (batch :: rest) t = (u, .error e) := by
  simp only [write_cons, h]

end

theorem entry?_set_fileName (t : FileTree) (l : Location) {k n : Nat} (h : k ≠ n) (e : Entry) :
    FileTree.entry? (t.set (l ++ [fileName n]) e) (l ++ [fileName k]) =
      t.entry? (l ++ [fileName k]) :=
  FileTree.entry?_set_ne t (mt location_inj.1 h) e

/-- A run of writes to a directory that is there: the batches stand in their files, and the files
with smaller numbers are as before. -/
theorem write_of_leads (batches : List (List CorpusRecord)) (n : Nat) {t : FileTree}
    (hl : t.Leads dir l)
    (hfree : ∀ i < batches.length,
      Entry.givesWay (t.entry? (l ++ [fileName (n + i)])) = true) :
    ∃ t', write dir n batches t = (t', .ok (pathsFrom dir n batches.length)) ∧ t'.Leads dir l ∧
      (∀ i batch, batches[i]? = some batch →
        t'.entry? (l ++ [fileName (n + i)]) = some (.file (Text.encode (text batch)))) ∧
      ∀ i < n, t'.entry? (l ++ [fileName i]) = t.entry? (l ++ [fileName i]) := by
  induction batches generalizing n t with
  | nil => exact ⟨t, rfl, hl, by simp, fun _ _ => rfl⟩
  | cons batch rest ih =>
    have hhere : Entry.givesWay (t.entry? (l ++ [fileName n])) = true := hfree 0 (by simp)
    have hne := FileTree.ne_dir_of_givesWay hhere
    have hwrite := FileTree.writeText_of_leads (isName_fileName n) hl hhere (text batch)
    have hself := FileTree.entry?_set_self t hne (.file (Text.encode (text batch)))
    have hother := fun k (hk : k ≠ n) =>
      entry?_set_fileName t l hk (.file (Text.encode (text batch)))
    have hl₁ := (FileTree.keepsDirs_set hne (.file (Text.encode (text batch)))).leads hl
    obtain ⟨t', hrest, hl', hstored, hbefore⟩ := ih (n + 1) hl₁ (by
      intro i hi
      rw [hother _ (by omega)]
      have := hfree (i + 1) (by simpa using hi)
      rwa [show n + (i + 1) = n + 1 + i by omega] at this)
    refine ⟨t', ?_, hl', ?_, fun i hi => ?_⟩
    · rw [write_cons_ok hwrite hrest, pathsFrom, pathsFrom, List.length_cons, List.range'_succ,
        List.map_cons]
    · intro i b hb
      cases i with
      | zero =>
        cases hb
        rw [Nat.add_zero, hbefore n (by omega), hself]
      | succ i =>
        rw [show n + (i + 1) = n + 1 + i by omega]
        exact hstored i b hb
    · rw [hbefore i (by omega), hother i (by omega)]

theorem write_fails (batches : List (List CorpusRecord)) (n : Nat) {t : FileTree}
    (hl : t.Leads dir l) {i : Nat} (hi : i < batches.length)
    (htaken : Entry.givesWay (t.entry? (l ++ [fileName (n + i)])) = false) :
    ∃ t' e, write dir n batches t = (t', .error e) := by
  induction batches generalizing n t i with
  | nil => cases hi
  | cons batch rest ih =>
    cases hhere : Entry.givesWay (t.entry? (l ++ [fileName n])) with
    | false =>
      obtain ⟨e, hwrite⟩ :=
        FileTree.writeText_fails (isName_fileName n) hl hhere (text batch)
      exact ⟨t, e, write_cons_error hwrite⟩
    | true =>
      have hne := FileTree.ne_dir_of_givesWay hhere
      have hwrite := FileTree.writeText_of_leads (isName_fileName n) hl hhere (text batch)
      have hl₁ := (FileTree.keepsDirs_set hne (.file (Text.encode (text batch)))).leads hl
      obtain ⟨k, rfl⟩ : ∃ k, i = k + 1 := by
        refine Nat.exists_eq_succ_of_ne_zero ?_
        rintro rfl
        cases hhere.symm.trans htaken
      obtain ⟨t', e, hrest⟩ := ih (n + 1) hl₁ (i := k) (by simpa using hi) (by
        rw [entry?_set_fileName t l (by omega), show n + 1 + k = n + (k + 1) by omega]
        exact htaken)
      exact ⟨t', e, write_cons_rest_error hwrite hrest⟩

/-- Whether a number of batches can be written to a directory: it is there or can be made, and none
of their paths is that of a directory or a locked file. -/
def Writable (files : FileTree) (dir : String) (count : Nat) : Prop :=
  count = 0 ∨ ∃ made l, files.makeDirs dir = some made ∧ made.Leads dir l ∧
    ∀ n < count, Entry.givesWay (made.entry? (l ++ [fileName n])) = true

theorem write_makeDirs {batches : List (List CorpusRecord)} (hne : batches ≠ []) {t made : FileTree}
    (h : t.makeDirs dir = some made) (n : Nat) :
    write dir n batches t = write dir n batches made := by
  obtain ⟨batch, rest, rfl⟩ := List.exists_cons_of_ne_nil hne
  simp only [write_cons, FileTree.writeText_makeDirs (isName_fileName n) h]

/-- Batches are written iff they can be, and then each stands in its file. -/
theorem write_cases (dir : String) (batches : List (List CorpusRecord)) (t : FileTree) :
    (Writable t dir batches.length ∧
      ∃ t', write dir 0 batches t = (t', .ok (pathsFrom dir 0 batches.length)) ∧
        (batches ≠ [] → ∃ l, t'.Leads dir l ∧ ∀ i batch, batches[i]? = some batch →
          t'.entry? (l ++ [fileName i]) = some (.file (Text.encode (text batch))))) ∨
    (¬ Writable t dir batches.length ∧ ∃ t' e, write dir 0 batches t = (t', .error e)) := by
  by_cases hne : batches = []
  · subst hne
    exact .inl ⟨.inl rfl, t, rfl, fun h => absurd rfl h⟩
  have hlength : batches.length ≠ 0 := by simpa using hne
  cases hmade : t.makeDirs dir with
  | none =>
    obtain ⟨batch, rest, rfl⟩ := List.exists_cons_of_ne_nil hne
    obtain ⟨e, hwrite⟩ :=
      FileTree.writeText_of_makeDirs_eq_none (isName_fileName 0) hmade (text batch)
    refine .inr ⟨?_, t, e, write_cons_error hwrite⟩
    rintro (hzero | ⟨made, l, hsome, -⟩)
    · exact hlength hzero
    · rw [hmade] at hsome
      cases hsome
  | some made =>
    obtain ⟨-, l, hl⟩ := FileTree.leads_of_makeDirs hmade
    rw [write_makeDirs hne hmade]
    by_cases hfree : ∀ i < batches.length,
        Entry.givesWay (made.entry? (l ++ [fileName i])) = true
    · obtain ⟨t', hwrite, hl', hstored, -⟩ := write_of_leads batches 0 hl (by simpa using hfree)
      exact .inl ⟨.inr ⟨made, l, hmade, hl, hfree⟩, t', hwrite,
        fun _ => ⟨l, hl', by simpa using hstored⟩⟩
    · simp only [not_forall, Bool.not_eq_true] at hfree
      obtain ⟨i, hi, htaken⟩ := hfree
      refine .inr ⟨?_, write_fails batches 0 hl hi (by simpa using htaken)⟩
      rintro (hzero | ⟨made', l', hsome, hl', hfree⟩)
      · exact hlength hzero
      · rw [hmade] at hsome
        cases hsome
        have hgives := hfree i hi
        rw [← hl.unique hl', htaken] at hgives
        cases hgives

theorem mapM_read? {t : FileTree} (hl : t.Leads dir l) (batches : List (List CorpusRecord))
    (n : Nat) (h : ∀ i batch, batches[i]? = some batch →
      t.entry? (l ++ [fileName (n + i)]) = some (.file (Text.encode (text batch)))) :
    (pathsFrom dir n batches.length).mapM (Batch.read? t) = some batches := by
  induction batches generalizing n with
  | nil => rfl
  | cons batch rest ih =>
    have hread : Batch.read? t (Path.join dir (fileName n)) = some batch := by
      unfold Batch.read?
      rw [FileTree.readText_of_stored (isName_fileName n) hl (h 0 batch rfl) (by
        rw [head?_text]
        decide)]
      exact ofText?_text batch
    have hrest := ih (n + 1) (by
      intro i b hb
      rw [show n + 1 + i = n + (i + 1) by omega]
      exact h (i + 1) b hb)
    rw [pathsFrom] at hrest
    rw [pathsFrom, List.length_cons, List.range'_succ, List.map_cons, List.mapM_cons, hread, hrest]
    rfl

end
end Harvest

/-! ## The order of batch files -/

namespace Component

theorem le_total (a b : Component) : (a.le b || b.le a) = true := by
  cases a <;> cases b <;> simp [le, rank, String.le_total]

theorem le_trans {a b c : Component} (hab : a.le b = true) (hbc : b.le c = true) :
    a.le c = true := by
  cases a <;> cases b <;> cases c <;> simp_all [le, rank]
  exact String.le_trans hab hbc

theorem le_antisymm {a b : Component} (hab : a.le b = true) (hba : b.le a = true) : a = b := by
  cases a <;> cases b <;> simp_all [le, rank]
  exact String.le_antisymm hab hba

end Component

namespace Path

theorem leComponents_total (as bs : List Component) :
    (leComponents as bs || leComponents bs as) = true := by
  induction as generalizing bs with
  | nil => rfl
  | cons a as ih =>
    cases bs with
    | nil => rfl
    | cons b bs =>
      unfold leComponents
      by_cases h : a = b
      · rw [if_pos h, if_pos h.symm]
        exact ih bs
      · rw [if_neg h, if_neg (Ne.symm h)]
        exact Component.le_total a b

theorem leComponents_trans {as bs cs : List Component} (hab : leComponents as bs = true)
    (hbc : leComponents bs cs = true) : leComponents as cs = true := by
  induction as generalizing bs cs with
  | nil => rfl
  | cons a as ih =>
    cases bs with
    | nil => cases hab
    | cons b bs =>
      cases cs with
      | nil => cases hbc
      | cons c cs =>
        unfold leComponents at hab hbc ⊢
        split at hab
        · rename_i hab'
          subst hab'
          split at hbc
          · rename_i hbc'
            rw [if_pos hbc']
            exact ih hab hbc
          · rename_i hne
            rw [if_neg hne]
            exact hbc
        · rename_i hne
          split at hbc
          · rename_i hbc'
            subst hbc'
            rw [if_neg hne]
            exact hab
          · split
            · rename_i hac
              subst hac
              exact absurd (Component.le_antisymm hab hbc) hne
            · exact Component.le_trans hab hbc

end Path

namespace Batch

theorem numberedLe_total (a b : Nat × String) : (numberedLe a b || numberedLe b a) = true := by
  have hpath := Path.leComponents_total (Path.components a.2) (Path.components b.2)
  unfold numberedLe Path.le
  rcases Nat.lt_trichotomy a.1 b.1 with h | h | h
  · simp [h]
  · simpa [h] using hpath
  · simp [h]

theorem numberedLe_trans (a b c : Nat × String) (hab : numberedLe a b = true)
    (hbc : numberedLe b c = true) : numberedLe a c = true := by
  simp only [numberedLe, Bool.or_eq_true, decide_eq_true_eq, Bool.and_eq_true, beq_iff_eq,
    Path.le] at hab hbc ⊢
  rcases hab with hab | ⟨hab, hpath⟩
  · left
    omega
  · rcases hbc with hbc | ⟨hbc, hpath'⟩
    · left
      omega
    · exact .inr ⟨by omega, Path.leComponents_trans hpath hpath'⟩

theorem fst_le_of_numberedLe {a b : Nat × String} (h : numberedLe a b = true) : a.1 ≤ b.1 := by
  simp only [numberedLe, Bool.or_eq_true, decide_eq_true_eq, Bool.and_eq_true, beq_iff_eq] at h
  omega

end Batch

namespace FileTree

theorem nodup_eraseDups (names : List String) : names.eraseDups.Nodup := by
  induction h : names.length using Nat.strong_induction_on generalizing names with
  | _ n ih =>
    cases names with
    | nil => simp
    | cons a as =>
      rw [List.eraseDups_cons, List.nodup_cons]
      refine ⟨by simp [List.mem_eraseDups], ih _ ?_ _ rfl⟩
      subst h
      have := List.length_filter_le (fun b => !b == a) as
      simp only [List.length_cons]
      omega

theorem mem_locations {t : FileTree} {l : Location} {e : Entry} (h : t.entry? l = some e) :
    l ∈ t.locations := by
  unfold entry? at h
  unfold locations
  rw [List.mem_append]
  split at h
  · rename_i habove
    obtain ⟨rest, hrest⟩ := List.isPrefixOf_iff_prefix.1 habove
    refine .inl (List.mem_map.2 ⟨l.length, ?_, ?_⟩)
    · rw [List.mem_range, ← hrest, List.length_append]
      omega
    · rw [← hrest, List.take_left]
  · obtain ⟨front, back, hentries, -⟩ := List.lookup_eq_some_iff.1 h
    exact .inr (List.mem_map.2 ⟨(l, e), by rw [hentries]; simp, rfl⟩)

theorem mem_names {t : FileTree} {l : Location} {name : String} {e : Entry}
    (h : t.entry? (l ++ [name]) = some e) : name ∈ t.names l := by
  unfold names
  rw [List.mem_eraseDups, List.mem_filterMap]
  exact ⟨l ++ [name], mem_locations h, by simp⟩

theorem leads_of_find {t : FileTree} {dir : String} {l : Location}
    (h : t.find dir = .ok (l, .dir)) : t.Leads dir l := by
  unfold find resolve at h
  split at h
  · cases h
  · cases hr : t.resolveSteps (Path.components dir) with
    | error e =>
      rw [hr] at h
      cases h
    | ok l' =>
      rw [hr] at h
      simp only [bind, Except.bind] at h
      split at h
      · cases h
      · cases h
        exact ⟨hr, by assumption⟩
      · split at h
        · cases h
        · cases h
          exact ⟨hr, by assumption⟩

theorem find_of_leads {t : FileTree} {dir : String} {l : Location} (hne : dir ≠ "")
    (h : t.Leads dir l) : t.find dir = .ok (l, .dir) := by
  unfold find resolve
  rw [if_neg (by simpa using hne), h.1]
  simp only [bind, Except.bind, h.2]

end FileTree

namespace Path

theorem join_inj {dir a b : String} : join dir a = join dir b ↔ a = b := by
  constructor
  · intro h
    unfold join at h
    split at h
    · exact h
    · split at h
      · exact String.append_right_inj .. |>.1 h
      · exact String.append_right_inj .. |>.1 h
  · rintro rfl
    rfl

end Path

namespace Harvest

open Batch

/-- The batch files in a directory with their numbers. -/
def listed (t : FileTree) (l : Location) (dir : String) : List (Nat × String) :=
  (t.names l).filterMap fun name => (number? name).map fun n => (n, Path.join dir name)

section
variable {t : FileTree} {dir : String} {l : Location}

theorem mem_listed_iff {x : Nat × String} :
    x ∈ listed t l dir ↔
      ∃ name ∈ t.names l, number? name = some x.1 ∧ Path.join dir name = x.2 := by
  unfold listed
  simp only [List.mem_filterMap, Option.map_eq_some_iff]
  constructor
  · rintro ⟨name, hname, n, hn, rfl⟩
    exact ⟨name, hname, hn, rfl⟩
  · rintro ⟨name, hname, hn, hpath⟩
    exact ⟨name, hname, x.1, hn, by rw [hpath]⟩

theorem nodup_listed : (listed t l dir).Nodup := by
  refine List.Nodup.filterMap ?_ (FileTree.nodup_eraseDups _)
  intro a b x ha hb
  obtain ⟨_, -, rfl⟩ := Option.map_eq_some_iff.1 ha
  obtain ⟨_, -, hx⟩ := Option.map_eq_some_iff.1 hb
  exact Path.join_inj.1 (congrArg Prod.snd hx).symm

theorem paths_of_find (hfind : t.find dir = .ok (l, .dir)) :
    Batch.paths t dir = .ok (((listed t l dir).mergeSort numberedLe).map (·.2)) := by
  rw [Batch.paths, hfind]
  rfl

/-- The paths of batch files are those of the listing, by number. -/
theorem exists_numbered {ps : List String} (h : Batch.paths t dir = .ok ps) :
    ∃ (l : Location) (xs : List (Nat × String)), t.find dir = .ok (l, .dir) ∧
      xs.Perm (listed t l dir) ∧
      xs.Pairwise (fun x y => numberedLe x y = true) ∧ ps = xs.map (·.2) := by
  unfold Batch.paths at h
  split at h
  · rename_i l hfind
    cases h
    exact ⟨l, _, hfind, List.mergeSort_perm .., List.pairwise_mergeSort numberedLe_trans
      numberedLe_total _, rfl⟩
  · cases h

theorem mem_pathsFrom_iff {n count : Nat} {path : String} :
    path ∈ pathsFrom dir n count ↔
      ∃ i, n ≤ i ∧ i < n + count ∧ Path.join dir (fileName i) = path := by
  unfold pathsFrom
  simp only [List.mem_map, List.mem_range'_1, and_assoc]

/-- The paths of the first `count` batches with their numbers. -/
def numbered (dir : String) (count : Nat) : List (Nat × String) :=
  (List.range' 0 count).map fun i => (i, Path.join dir (fileName i))

theorem map_snd_numbered (count : Nat) :
    (numbered dir count).map (·.2) = pathsFrom dir 0 count := by
  unfold numbered
  rw [List.map_map]
  rfl

theorem pairwise_numbered (count : Nat) :
    (numbered dir count).Pairwise fun a b => a.1 < b.1 := by
  unfold numbered
  rw [List.pairwise_map]
  exact List.pairwise_lt_range' ..

theorem nodup_numbered (count : Nat) : (numbered dir count).Nodup :=
  (pairwise_numbered count).imp fun h heq => by
    rw [heq] at h
    exact absurd h (Nat.lt_irrefl _)

/-- Batches are ordered by their numbers alone. -/
theorem eq_of_numberedLe {count : Nat} {a b : Nat × String} (ha : a ∈ numbered dir count)
    (hb : b ∈ numbered dir count) (hab : numberedLe a b = true) (hba : numberedLe b a = true) :
    a = b := by
  obtain ⟨i, -, rfl⟩ := List.mem_map.1 ha
  obtain ⟨j, -, rfl⟩ := List.mem_map.1 hb
  obtain rfl : i = j := Nat.le_antisymm (fst_le_of_numberedLe hab) (fst_le_of_numberedLe hba)
  rfl

/-- A batch that stands in its file is listed once, under its number. -/
theorem mem_listed_batches_iff {count : Nat} (hcount : count ≤ numberLimit)
    (hstored : ∀ n < count, ∃ e, t.entry? (l ++ [fileName n]) = some e) {x : Nat × String} :
    x ∈ (listed t l dir).filter (fun x => x.2 ∈ pathsFrom dir 0 count) ↔
      x ∈ numbered dir count := by
  unfold numbered
  rw [List.mem_filter, mem_listed_iff, decide_eq_true_eq, mem_pathsFrom_iff, List.mem_map]
  constructor
  · rintro ⟨⟨name, -, hnumber, hname⟩, i, -, hi, hpath⟩
    obtain rfl := Path.join_inj.1 (hname.trans hpath.symm)
    rw [number?_fileName (by omega)] at hnumber
    exact ⟨i, by simpa using hi, Prod.ext (Option.some.inj hnumber) hpath⟩
  · rintro ⟨i, hi, rfl⟩
    have hi : i < count := by simpa using hi
    obtain ⟨e, he⟩ := hstored i hi
    exact ⟨⟨fileName i, FileTree.mem_names he,
      number?_fileName (by omega), rfl⟩, i, by omega, by omega, rfl⟩

theorem filter_mergeSort_listed {count : Nat} (hcount : count ≤ numberLimit)
    (hstored : ∀ n < count, ∃ e, t.entry? (l ++ [fileName n]) = some e) :
    ((listed t l dir).mergeSort numberedLe).filter (fun x => x.2 ∈ pathsFrom dir 0 count) =
      numbered dir count := by
  -- Both lists are sorted and hold the same files, each with its own number.
  have hsame : ((listed t l dir).filter fun x => x.2 ∈ pathsFrom dir 0 count).Perm
      (numbered dir count) :=
    (List.perm_ext_iff_of_nodup (nodup_listed.filter _) (nodup_numbered count)).2
      fun _ => mem_listed_batches_iff hcount hstored
  have hperm := ((List.mergeSort_perm (listed t l dir) numberedLe).filter
    fun x => x.2 ∈ pathsFrom dir 0 count).trans hsame
  have hleft := (List.pairwise_mergeSort numberedLe_trans numberedLe_total
    (listed t l dir)).filter fun x => x.2 ∈ pathsFrom dir 0 count
  have hright : (numbered dir count).Pairwise fun a b => numberedLe a b = true :=
    (pairwise_numbered count).imp fun h => by simp [numberedLe, h]
  refine List.Perm.eq_of_pairwise (fun a b ha hb => ?_) hleft hright hperm
  exact eq_of_numberedLe (hperm.mem_iff.1 ha) hb

/-- The files written stand in the listing of their directory in the order of the batches. -/
theorem filter_paths (hl : t.Leads dir l) {count : Nat} (hcount : count ≤ numberLimit)
    (hstored : ∀ n < count, ∃ e, t.entry? (l ++ [fileName n]) = some e) {ps : List String}
    (hps : Batch.paths t dir = .ok ps) :
    ps.filter (· ∈ pathsFrom dir 0 count) = pathsFrom dir 0 count := by
  unfold Batch.paths at hps
  split at hps
  · rename_i l' hfind
    obtain rfl := hl.unique (FileTree.leads_of_find hfind)
    cases hps
    rw [List.filter_map]
    exact (congrArg _ (filter_mergeSort_listed hcount hstored)).trans (map_snd_numbered count)
  · cases hps

end

/-! ## Harvests -/

/-- The texts of the files that can be read and are not blank. -/
def texts (files : FileTree) (sources : List String) : List Text :=
  (sources.filterMap fun path => (files.readText path).toOption).filter fun t =>
    !t.all Text.isBlank

/-- The records of the files that can be read and are not blank, file by file. -/
def recordsOf (files : FileTree) (grammar : Grammar) (minNameLength : Nat)
    (sources : List String) : List CorpusRecord :=
  (texts files sources).flatMap fun t => CorpusRecord.extract t (grammar.tree t) minNameLength

theorem filterMap_file? (files : FileTree) (grammar : Grammar) (minNameLength : Nat)
    (sources : List String) :
    (sources.map (file? files grammar minNameLength)).filterMap id =
      (texts files sources).map fun t => CorpusRecord.extract t (grammar.tree t) minNameLength := by
  induction sources with
  | nil => rfl
  | cons path rest ih =>
    have htexts : texts files (path :: rest) =
        ((files.readText path).toOption.toList.filter fun t => !t.all Text.isBlank) ++
          texts files rest := by
      unfold texts
      rw [← List.filter_append]
      cases h : (files.readText path).toOption <;> simp [h]
    rw [htexts, List.map_append, ← ih, List.map_cons]
    unfold file?
    cases files.readText path with
    | error e => rfl
    | ok t =>
      cases hblank : t.all Text.isBlank <;> simp [hblank, Except.toOption]

theorem length_texts_le (files : FileTree) (sources : List String) :
    (texts files sources).length ≤ sources.length :=
  (List.length_filter_le _ _).trans (List.length_filterMap_le _ _)

/-- What a harvest reports: the numbers of files and records, and the paths of the batches. -/
def report (files : FileTree) (grammar : Grammar) (settings : HarvestSettings)
    (sources : List String) (paths : List String) : HarvestSummary where
  filesDiscovered := sources.length
  filesProcessed := (texts files sources).length
  filesSkipped := sources.length - (texts files sources).length
  records := (recordsOf files grammar settings.minNameLength sources).length
  batchFiles := paths

/-- A harvest succeeds iff its batches can be written. -/
theorem fromSources_cases (files : FileTree) (grammar : Grammar) (settings : HarvestSettings)
    (sources : List String) {batches : List (List CorpusRecord)}
    (hbatches : batches = Batch.split settings.batchSize
      (recordsOf files grammar settings.minNameLength sources)) :
    (Writable files settings.outputDir batches.length ∧
      ∃ files', fromSources files grammar settings sources =
          (files', .ok (report files grammar settings sources
            (pathsFrom settings.outputDir 0 batches.length))) ∧
        (batches ≠ [] → ∃ l, files'.Leads settings.outputDir l ∧
          ∀ i batch, batches[i]? = some batch →
            files'.entry? (l ++ [fileName i]) = some (.file (Text.encode (text batch))))) ∨
    (¬ Writable files settings.outputDir batches.length ∧
      ∃ files' e, fromSources files grammar settings sources = (files', .error e)) := by
  have hrecords :
      ((sources.map (file? files grammar settings.minNameLength)).filterMap id).flatten =
      recordsOf files grammar settings.minNameLength sources := by
    rw [filterMap_file?, ← List.flatMap_def]
    rfl
  have hprocessed :
      ((sources.map (file? files grammar settings.minNameLength)).filterMap id).length =
      (texts files sources).length := by
    rw [filterMap_file?, List.length_map]
  unfold fromSources
  simp only [hrecords, hprocessed, ← hbatches]
  rcases write_cases settings.outputDir batches files with
    ⟨hwritable, files', hwrite, hstored⟩ | ⟨hwritable, files', e, hwrite⟩
  · refine .inl ⟨hwritable, files', ?_, hstored⟩
    simp only [hwrite, report]
  · refine .inr ⟨hwritable, files', e, ?_⟩
    simp only [hwrite]

/-- The paths of written batches are listed in their order. -/
theorem paths_of_stored {t : FileTree} {dir : String} {batches : List (List CorpusRecord)}
    (hlimit : batches.length ≤ numberLimit)
    (hstored : batches ≠ [] → ∃ l, t.Leads dir l ∧ ∀ i batch, batches[i]? = some batch →
      t.entry? (l ++ [fileName i]) = some (.file (Text.encode (text batch)))) :
    (∀ ps, Batch.paths t dir = .ok ps → ps.filter (· ∈ pathsFrom dir 0 batches.length) =
      pathsFrom dir 0 batches.length) ∧
    (dir ≠ "" → batches ≠ [] → ∃ ps, Batch.paths t dir = .ok ps) := by
  by_cases hne : batches = []
  · subst hne
    refine ⟨fun ps _ => ?_, fun _ h => absurd rfl h⟩
    exact List.filter_eq_nil_iff.2 fun _ _ => by simp [pathsFrom]
  · obtain ⟨l, hl, hentries⟩ := hstored hne
    refine ⟨fun ps hps => filter_paths hl hlimit (fun n hn => ?_) hps, fun hdir _ => ?_⟩
    · exact ⟨_, hentries n batches[n] (List.getElem?_eq_getElem hn)⟩
    · exact ⟨_, by rw [Batch.paths, FileTree.find_of_leads hdir hl]⟩

theorem mapM_read?_of_stored {t : FileTree} {dir : String} {batches : List (List CorpusRecord)}
    (hstored : batches ≠ [] → ∃ l, t.Leads dir l ∧ ∀ i batch, batches[i]? = some batch →
      t.entry? (l ++ [fileName i]) = some (.file (Text.encode (text batch)))) :
    (pathsFrom dir 0 batches.length).mapM (Batch.read? t) = some batches := by
  by_cases hne : batches = []
  · rw [hne]
    rfl
  · obtain ⟨l, hl, hbatches⟩ := hstored hne
    exact mapM_read? hl _ 0 (by simpa using hbatches)

theorem run_eq_fromSources {files : FileTree} {settings : HarvestSettings} {root : String}
    {sources : List String} (hcheck : settings.check = .ok ())
    (hsources : Discover.sources files root extensions settings.excludePatterns = .ok sources)
    (grammar : Grammar) :
    run files grammar settings root = fromSources files grammar settings sources := by
  unfold run
  rw [hcheck]
  simp only [bind, Except.bind, hsources]

/-- **Harvested batches are read back.** A harvest succeeds iff its batches can be written. Then its
batch files hold the records of the readable, non-blank sources in order, all but the last batch are
full and none is empty. A listing of the directory by number shows them in the same order. -/
theorem harvested_batches_read_back (files : FileTree) (grammar : Grammar)
    (settings : HarvestSettings) (sources : List String) (hsize : 1 ≤ settings.batchSize) :
    let records := recordsOf files grammar settings.minNameLength sources
    let count := (records.length + settings.batchSize - 1) / settings.batchSize
    (∀ root, settings.check = .ok () →
      Discover.sources files root extensions settings.excludePatterns = .ok sources →
      run files grammar settings root = fromSources files grammar settings sources) ∧
    ((∃ files' summary, fromSources files grammar settings sources = (files', .ok summary)) ↔
      Writable files settings.outputDir count) ∧
    (∀ files' summary, fromSources files grammar settings sources = (files', .ok summary) →
      (∃ batches, summary.batchFiles.mapM (Batch.read? files') = some batches ∧
        batches.flatten = records ∧
        (∀ batch ∈ batches.dropLast, batch.length = settings.batchSize) ∧
        ∀ batch ∈ batches, 0 < batch.length ∧ batch.length ≤ settings.batchSize) ∧
      summary.batchFiles = (List.range count).map
        (fun n => Path.join settings.outputDir (Batch.fileName n)) ∧
      (records.length ≤ Batch.numberLimit →
        (∀ ps, Batch.paths files' settings.outputDir = .ok ps →
          ps.filter (· ∈ summary.batchFiles) = summary.batchFiles) ∧
        (settings.outputDir ≠ "" → records ≠ [] →
          ∃ ps, Batch.paths files' settings.outputDir = .ok ps)) ∧
      summary.filesDiscovered = sources.length ∧
      summary.filesProcessed = (texts files sources).length ∧
      summary.filesProcessed + summary.filesSkipped = summary.filesDiscovered ∧
      summary.records = records.length) ∧
    ∀ n < Batch.numberLimit, Batch.number? (Batch.fileName n) = some n := by
  intro records count
  have hlength : (Batch.split settings.batchSize records).length = count :=
    Batch.length_split hsize records
  refine ⟨fun _ hcheck hsources => run_eq_fromSources hcheck hsources grammar, ?_⟩
  rcases fromSources_cases files grammar settings sources rfl with
    ⟨hwritable, t, heq, hstored⟩ | ⟨hwritable, t, e, heq⟩
  · rw [hlength] at hwritable heq
    rw [heq]
    refine ⟨⟨fun _ => hwritable, fun _ => ⟨_, _, rfl⟩⟩, ?_, fun n hn => Batch.number?_fileName hn⟩
    intro files' summary h
    cases h
    have hpaths : pathsFrom settings.outputDir 0 count =
        (List.range count).map fun n => Path.join settings.outputDir (Batch.fileName n) := by
      rw [List.range_eq_range']
      rfl
    have hread : (pathsFrom settings.outputDir 0 count).mapM (Batch.read? t) =
        some (Batch.split settings.batchSize records) := by
      rw [← hlength]
      exact mapM_read?_of_stored hstored
    refine ⟨⟨_, hread, Batch.flatten_split _ _,
      fun _ => Batch.length_of_mem_dropLast_split hsize, fun _ => Batch.length_of_mem_split hsize⟩,
      hpaths, fun hlimit => ?_, rfl, rfl, ?_, rfl⟩
    · have hlisted := paths_of_stored
        ((Batch.length_split_le settings.batchSize records).trans hlimit) hstored
      rw [hlength] at hlisted
      refine ⟨hlisted.1, fun hdir hne => hlisted.2 hdir fun hnil => hne ?_⟩
      rw [← Batch.flatten_split settings.batchSize records, hnil]
      rfl
    · have := length_texts_le files sources
      simp only [report]
      omega
  · rw [hlength] at hwritable
    rw [heq]
    exact ⟨⟨fun ⟨_, _, h⟩ => (by cases h), fun h => absurd h hwritable⟩, fun _ _ h => (by cases h),
      fun n hn => Batch.number?_fileName hn⟩

/-- Two sources with a method and a blank one. -/
def sampleFiles : FileTree where
  entries := [(["a.cs"], .file (Text.encode Plan.methodSource)), (["b.cs"], .file []),
    (["c.cs"], .file (Text.encode Plan.methodSource))]

def sampleGrammar : Grammar where
  tree := fun _ => Plan.methodTree

def sampleSettings : HarvestSettings where
  batchSize := 1
  outputDir := "out"
  minNameLength := 1

theorem sample_batches_read_back :
    ∃ files' summary batches,
      fromSources sampleFiles sampleGrammar sampleSettings ["a.cs", "b.cs", "c.cs", "d.cs"] =
        (files', .ok summary) ∧
      summary.batchFiles = ["out/contexts_0.json", "out/contexts_1.json"] ∧
      summary.filesProcessed = 2 ∧ summary.filesSkipped = 2 ∧
      summary.batchFiles.mapM (Batch.read? files') = some batches ∧
      batches.flatten.map (·.paramName) = ["x", "x"] := by
  obtain ⟨-, -, hall, -⟩ := harvested_batches_read_back sampleFiles sampleGrammar sampleSettings
    ["a.cs", "b.cs", "c.cs", "d.cs"] (by decide)
  have hnames : (recordsOf sampleFiles sampleGrammar sampleSettings.minNameLength
      ["a.cs", "b.cs", "c.cs", "d.cs"]).map (·.paramName) = ["x", "x"] := by decide +kernel
  have hreport : (match fromSources sampleFiles sampleGrammar sampleSettings
      ["a.cs", "b.cs", "c.cs", "d.cs"] with
    | (_, .ok summary) => some (summary.batchFiles, summary.filesProcessed, summary.filesSkipped)
    | (_, .error _) => none) =
      some (["out/contexts_0.json", "out/contexts_1.json"], 2, 2) := by decide +kernel
  split at hreport
  · rename_i files' summary heq
    obtain ⟨⟨batches, hread, hflatten, -, -⟩, -⟩ := hall files' summary heq
    obtain ⟨hfiles, hprocessed, hskipped⟩ : summary.batchFiles = _ ∧ _ ∧ _ := by
      simpa using hreport
    exact ⟨files', summary, batches, heq, hfiles, hprocessed, hskipped, hread,
      by rw [hflatten, hnames]⟩
  · cases hreport

end Harvest
end ParamTwin
