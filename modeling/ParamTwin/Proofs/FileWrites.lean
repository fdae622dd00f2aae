import Mathlib.Data.List.TakeWhile
import ParamTwin.Files.Tree
import ParamTwin.Proofs.Utf8RoundTrip

/-!
# Files that are written

What a file holds after it has been written, for any spelling of its path, and what becomes of the
other files.

* `Path.components_join`, `Path.components_parent_join`: the path of a name in a directory is one
  step further than the directory, and its parent leads to the directory again.
* `FileTree.addsDirs_of_makeDirsBack`, `FileTree.makeDirs_of_leads`: making directories changes no
  entry, and makes nothing that is there.
* `FileTree.writeText_of_leads`, `FileTree.writeText_fails`: when a file can be written to a
  directory.
* `FileTree.readText_of_stored`: what is read from it.
* `FileTree.wrote_of_writable`, `FileTree.writable_of_writeText`, `FileTree.addsDirs_of_writeText`:
  the three together, for every path.
-/

namespace ParamTwin

namespace Path

/-! ## The path of a name in a directory -/

theorem splitParts_ne_nil (t : Text) : splitParts t ≠ [] := by
  cases t with
  | nil => simp [splitParts]
  | cons c cs =>
    unfold splitParts
    split
    · simp
    · split <;> simp

theorem splitParts_slash (a b : Text) :
    splitParts (a ++ '/' :: b) = splitParts a ++ splitParts b := by
  induction a with
  | nil => rfl
  | cons c cs ih =>
    rw [List.cons_append, splitParts, splitParts, ih]
    split
    · rfl
    · obtain ⟨part, rest, h⟩ := List.exists_cons_of_ne_nil (splitParts_ne_nil cs)
      rw [h]
      rfl

theorem splitParts_of_not_mem {t : Text} (h : '/' ∉ t) : splitParts t = [t] := by
  induction t with
  | nil => rfl
  | cons c cs ih =>
    rw [List.mem_cons, not_or] at h
    rw [splitParts, if_neg (Ne.symm h.1), ih h.2]

theorem not_mem_of_mem_splitParts {t part : Text} (h : part ∈ splitParts t) : '/' ∉ part := by
  induction t generalizing part with
  | nil => simp_all [splitParts]
  | cons c cs ih =>
    unfold splitParts at h
    split at h
    · rcases List.mem_cons.1 h with rfl | h
      · simp
      · exact ih h
    · rename_i hc
      obtain ⟨first, rest, hcs⟩ := List.exists_cons_of_ne_nil (splitParts_ne_nil cs)
      rw [hcs] at h ih
      rcases List.mem_cons.1 h with rfl | h
      · simp [Ne.symm hc, ih]
      · exact ih (.tail _ h)

theorem intercalate_cons {sep first : Text} {rest : List Text} (h : rest ≠ []) :
    sep.intercalate (first :: rest) = first ++ (sep ++ sep.intercalate rest) := by
  obtain ⟨second, rest, rfl⟩ := List.exists_cons_of_ne_nil h
  simp [List.intercalate, List.intersperse]

theorem intercalate_splitParts (t : Text) : ['/'].intercalate (splitParts t) = t := by
  induction t with
  | nil => rfl
  | cons c cs ih =>
    have hne := splitParts_ne_nil cs
    unfold splitParts
    split
    · rename_i hc
      rw [intercalate_cons hne, ih, hc]
      rfl
    · obtain ⟨first, rest, hcs⟩ := List.exists_cons_of_ne_nil hne
      rw [hcs] at ih ⊢
      cases rest with
      | nil => simpa using ih
      | cons second rest =>
        rw [intercalate_cons (by simp)] at ih ⊢
        rw [List.cons_append, ih]

theorem splitParts_intercalate {qs : List Text} (hne : qs ≠ []) (h : ∀ q ∈ qs, '/' ∉ q) :
    splitParts (['/'].intercalate qs) = qs := by
  induction qs with
  | nil => exact absurd rfl hne
  | cons q qs ih =>
    have hq := splitParts_of_not_mem (h q (.head _))
    cases qs with
    | nil => simpa using hq
    | cons q' qs =>
      rw [intercalate_cons (by simp), List.singleton_append, splitParts_slash, hq,
        ih (by simp) fun x hx => h x (.tail _ hx)]
      rfl

/-- A name that is one step of a path. -/
structure IsName (name : String) : Prop where
  noSlash : '/' ∉ name.toList
  isStep : isIdle name = false
  isDown : name ≠ ".."

theorem parts_slash (base name : String) :
    parts (base ++ "/" ++ name) = parts base ++ parts name := by
  have h : (base ++ "/" ++ name).toList = base.toList ++ '/' :: name.toList := by simp
  rw [parts, h, splitParts_slash, List.map_append]
  rfl

theorem parts_of_noSlash {name : String} (h : '/' ∉ name.toList) : parts name = [name] := by
  rw [parts, splitParts_of_not_mem h, List.map_singleton, String.ofList_toList]

/-- The parts of the path of a name: those of the directory, without an empty one at its end, and
the name. -/
theorem parts_join {dir name : String} (hname : IsName name) (hdir : dir ≠ "") :
    ∃ ps, ps ≠ [] ∧ parts (join dir name) = ps ++ [name] ∧
      (parts dir = ps ∧ ps ≠ [""] ∨ parts dir = ps ++ [""]) := by
  have hlast : dir.toList ≠ [] := by simpa using hdir
  have hparts : ∀ t, parts t ≠ [] := fun t => by simp [parts, splitParts_ne_nil]
  have hname' : parts name = [name] := parts_of_noSlash hname.noSlash
  unfold join
  rw [if_neg (by simpa using hdir)]
  split
  · -- The slash at the end of the directory parts it from the name.
    rename_i hslash
    obtain ⟨front, hfront⟩ := List.getLast?_eq_some_iff.1 (by simpa using hslash)
    have hdir' : dir = String.ofList front ++ "/" := by
      rw [← String.toList_inj]
      simp [hfront]
    refine ⟨parts (String.ofList front), hparts _, ?_, .inr ?_⟩
    · rw [hdir', parts_slash, hname']
    · have h := parts_slash (String.ofList front) ""
      rw [String.append_empty] at h
      rw [hdir', h]
      rfl
  · rename_i hslash
    refine ⟨parts dir, hparts _, by rw [parts_slash, hname'], .inl ⟨rfl, fun h => hlast ?_⟩⟩
    obtain ⟨part, hpart, hempty⟩ := List.map_eq_singleton_iff.1 h
    rw [← intercalate_splitParts dir.toList, hpart]
    simpa using hempty

/-- The steps of a list of parts. -/
def steps (ps : List String) : List Component :=
  match ps with
  | [] => []
  | first :: rest =>
    let steps := (rest.filter fun p => !isIdle p).map stepOf
    if first == "" then (if rest.isEmpty then [] else .root :: steps)
    else if first == "." then .current :: steps
    else stepOf first :: steps

theorem components_eq (path : String) : components path = steps (parts path) := rfl

theorem stepOf_name {name : String} (h : IsName name) : stepOf name = .name name := by
  simp [stepOf, h.isDown]

theorem steps_append {ps : List String} (hne : ps ≠ []) {name : String} (h : IsName name) :
    steps (ps ++ [name]) = steps (ps ++ [""]) ++ [.name name] := by
  obtain ⟨first, rest, rfl⟩ := List.exists_cons_of_ne_nil hne
  have hlast : [name].filter (fun p => !isIdle p) = [name] := by simp [h.isStep]
  have hidle : [""].filter (fun p => !isIdle p) = [] := rfl
  have hrest : ∀ x, (rest ++ [x]).isEmpty = false := by simp
  simp only [steps, List.cons_append, List.filter_append, hlast, hidle, hrest, List.map_append,
    List.map_cons, List.map_nil, stepOf_name h, List.append_nil]
  split
  · rfl
  · split <;> rfl

theorem steps_empty {ps : List String} (hne : ps ≠ []) (h : ps ≠ [""]) :
    steps (ps ++ [""]) = steps ps := by
  obtain ⟨first, rest, rfl⟩ := List.exists_cons_of_ne_nil hne
  have hidle : [""].filter (fun p => !isIdle p) = [] := rfl
  simp only [steps, List.cons_append, List.filter_append, hidle, List.append_nil]
  cases rest with
  | nil =>
    have hfirst : (first == "") = false := by simpa using h
    simp [hfirst]
  | cons second rest => rfl

theorem components_join {name : String} (h : IsName name) (dir : String) :
    components (join dir name) = components dir ++ [.name name] := by
  by_cases hdir : dir = ""
  · subst hdir
    have hjoin : join "" name = name := rfl
    have hne : (name == "") = false ∧ (name == ".") = false := by simpa [isIdle] using h.isStep
    rw [hjoin, components_eq, parts_of_noSlash h.noSlash]
    simp only [steps, hne.1, hne.2, stepOf_name h]
    rfl
  · obtain ⟨ps, hps, hjoin, hparts⟩ := parts_join h hdir
    rw [components_eq, components_eq, hjoin, steps_append hps h]
    rcases hparts with ⟨hparts, hroot⟩ | hparts
    · rw [hparts, steps_empty hps hroot]
    · rw [hparts]

theorem endsInDirectory_join {name : String} (h : IsName name) (dir : String) :
    endsInDirectory (join dir name) = false := by
  have hlast : (parts (join dir name)).getLast? = some name := by
    by_cases hdir : dir = ""
    · subst hdir
      have hjoin : join "" name = name := rfl
      rw [hjoin, parts_of_noSlash h.noSlash]
      rfl
    · obtain ⟨ps, -, hparts, -⟩ := parts_join h hdir
      simp [hparts]
  simp [endsInDirectory, hlast, h.isStep, h.isDown]

theorem filter_trimIdle (rest : List String) :
    (rest.reverse.dropWhile isIdle).reverse.filter (fun p => !isIdle p) =
      rest.filter fun p => !isIdle p := by
  have hidle : (rest.reverse.takeWhile isIdle).filter (fun p => !isIdle p) = [] := by
    rw [List.filter_eq_nil_iff]
    intro p hp
    simp [List.mem_takeWhile_imp hp]
  have hsplit := List.takeWhile_append_dropWhile (p := isIdle) (l := rest.reverse)
  rw [List.filter_reverse]
  calc ((rest.reverse.dropWhile isIdle).filter fun p => !isIdle p).reverse
      = (rest.reverse.filter fun p => !isIdle p).reverse := by
        conv_rhs => rw [← hsplit, List.filter_append, hidle, List.nil_append]
    _ = rest.filter fun p => !isIdle p := by rw [List.filter_reverse, List.reverse_reverse]

theorem parentParts?_append {ps : List String} (hne : ps ≠ []) {name : String} (h : IsName name) :
    parentParts? (ps ++ [name]) = some (trimIdle ps) := by
  obtain ⟨first, rest, rfl⟩ := List.exists_cons_of_ne_nil hne
  have htrim : trimIdle (first :: rest ++ [name]) = first :: (rest ++ [name]) := by
    simp [trimIdle, h.isStep]
  unfold parentParts?
  rw [htrim]
  split
  · simp_all
  · simp_all
  · rename_i first' rest' _ heq
    obtain ⟨rfl, rfl⟩ := List.cons.inj heq
    rw [List.dropLast_concat]

theorem parts_intercalate {ps : List String} (hne : ps ≠ []) (h : ∀ p ∈ ps, '/' ∉ p.toList) :
    parts ("/".intercalate ps) = ps := by
  have hno : ∀ q ∈ ps.map String.toList, '/' ∉ q := by
    intro q hq
    obtain ⟨p, hp, rfl⟩ := List.mem_map.1 hq
    exact h p hp
  rw [parts, String.toList_intercalate, show "/".toList = ['/'] from rfl,
    splitParts_intercalate (by simpa using hne) hno, List.map_map]
  simp [Function.comp_def]

theorem trimIdle_subset {ps : List String} {p : String} (h : p ∈ trimIdle ps) : p ∈ ps := by
  cases ps with
  | nil => cases h
  | cons first rest =>
    rcases List.mem_cons.1 h with rfl | h
    · exact .head _
    · exact .tail _ (List.mem_reverse.1 ((List.dropWhile_sublist _).subset (List.mem_reverse.1 h)))

/-- The steps of a list of parts and a slash are those of the path that is written without idle
parts at its end. -/
theorem components_trimIdle {ps : List String} (hne : ps ≠ []) (hslash : ∀ p ∈ ps, '/' ∉ p.toList) :
    components (if trimIdle ps == [""] then "/" else "/".intercalate (trimIdle ps)) =
      steps (ps ++ [""]) := by
  obtain ⟨first, rest, rfl⟩ := List.exists_cons_of_ne_nil hne
  have hpath : parts ("/".intercalate (trimIdle (first :: rest))) = trimIdle (first :: rest) :=
    parts_intercalate (by simp [trimIdle]) fun p hp => hslash p (trimIdle_subset hp)
  have hsteps : steps (first :: rest ++ [""]) =
      let steps := (rest.filter fun p => !isIdle p).map stepOf
      if first == "" then .root :: steps
      else if first == "." then .current :: steps
      else stepOf first :: steps := by
    have hidle : [""].filter (fun p => !isIdle p) = [] := rfl
    simp [steps, hidle]
  rw [hsteps, ← filter_trimIdle rest]
  rw [trimIdle] at hpath ⊢
  split
  · rename_i hroot
    obtain ⟨hfirst, hrest⟩ : first = "" ∧ rest.reverse.dropWhile isIdle = [] := by
      simpa using hroot
    rw [hfirst, hrest]
    rfl
  · rename_i hroot
    rw [components_eq, hpath, steps]
    split
    · rename_i hfirst
      rw [if_neg]
      rintro hnil
      exact hroot (by simp_all)
    · rfl

/-- The directory that holds the path of a name has the steps of the directory of the path. -/
theorem components_parent_join {name : String} (h : IsName name) (dir : String) :
    components ((parent? (join dir name)).getD "") = components dir := by
  by_cases hdir : dir = ""
  · subst hdir
    have hjoin : join "" name = name := rfl
    have hname : (name == "") = false := by
      have := h.isStep
      simp_all [isIdle]
    simp [parent?, hjoin, parts_of_noSlash h.noSlash, parentParts?, trimIdle, hname]
  obtain ⟨ps, hne, hjoin, hparts⟩ := parts_join h hdir
  have hsteps : components dir = steps (ps ++ [""]) := by
    rw [components_eq]
    rcases hparts with ⟨hparts, hroot⟩ | hparts
    · rw [hparts, steps_empty hne hroot]
    · rw [hparts]
  have hslash : ∀ p ∈ ps, '/' ∉ p.toList := by
    intro p hp
    have hmem : p ∈ parts dir := by
      rcases hparts with ⟨hparts, -⟩ | hparts
      · rwa [hparts]
      · rw [hparts]
        exact List.mem_append_left _ hp
    obtain ⟨part, hpart, rfl⟩ := List.mem_map.1 hmem
    rw [String.toList_ofList]
    exact not_mem_of_mem_splitParts hpart
  rw [hsteps, parent?, hjoin, parentParts?_append hne h, Option.map_some, Option.getD_some,
    components_trimIdle hne hslash]

theorem join_ne_empty {name : String} (h : IsName name) (dir : String) : join dir name ≠ "" := by
  intro hempty
  have hcomponents := components_join h dir
  rw [hempty] at hcomponents
  have hlength := congrArg List.length hcomponents
  rw [List.length_append, List.length_singleton] at hlength
  exact absurd hlength (Nat.succ_ne_zero _).symm

/-- A path that need not be that of a directory is the path of a name in one. -/
theorem exists_join {path : String} (hne : path ≠ "") (h : endsInDirectory path = false) :
    ∃ dir name, IsName name ∧ path = join dir name := by
  -- The last part is a name, whatever stands before it.
  have hname : ∀ name, '/' ∉ name.toList → (parts path).getLast? = some name → IsName name := by
    intro name hslash hlast
    simp only [endsInDirectory, hlast, Bool.and_eq_false_iff, Bool.or_eq_false_iff,
      bne_eq_false_iff_eq, beq_eq_false_iff_ne] at h
    obtain h | h := h
    · exact absurd h hne
    · exact ⟨hslash, h.1, h.2⟩
  by_cases hslash : '/' ∈ path.toList
  · obtain ⟨back, front, hsplit, hback⟩ := List.eq_append_cons_of_mem (List.mem_reverse.2 hslash)
    have hpath : path.toList = front.reverse ++ '/' :: back.reverse := by
      rw [← List.reverse_reverse path.toList, hsplit]
      simp
    have hback : '/' ∉ back.reverse := by simpa using hback
    refine ⟨String.ofList (front.reverse ++ ['/']), String.ofList back.reverse, hname _ ?_ ?_, ?_⟩
    · simpa using hback
    · rw [parts, hpath, splitParts_slash, splitParts_of_not_mem hback]
      simp
    · rw [← String.toList_inj, hpath, join, if_neg (by simp [← String.toList_inj])]
      rw [if_pos (by simp)]
      simp
  · exact ⟨"", path, hname path hslash (by rw [parts_of_noSlash hslash]; rfl), rfl⟩

end Path

namespace FileTree

/-! ## Entries -/

theorem ne_dir_of_givesWay {e : Option Entry} (h : Entry.givesWay e = true) : e ≠ some .dir := by
  rintro rfl
  cases h

theorem entry?_set_self (t : FileTree) {l : Location} (h : t.entry? l ≠ some .dir) (e : Entry) :
    entry? (t.set l e) l = some e := by
  have habove : t.isAbove l = false := by
    by_contra hcon
    exact h (if_pos (by simpa using hcon))
  have hset : (t.set l e).isAbove l = false := habove
  have hnone : (t.entries.filter fun x => x.1 != l).lookup l = none := by
    rw [List.lookup_eq_none_iff]
    intro x hx
    have hne : x.1 ≠ l := by simpa using (List.mem_filter.1 hx).2
    simpa using hne.symm
  rw [ entry?, hset, if_neg Bool.false_ne_true]
  simp [set, List.lookup_append, hnone]

theorem entry?_set_ne (t : FileTree) {l l' : Location} (h : l' ≠ l) (e : Entry) :
    entry? (t.set l e) l' = t.entry? l' := by
  have hfilter : (t.entries.filter fun x => x.1 != l).lookup l' = t.entries.lookup l' := by
    induction t.entries with
    | nil => rfl
    | cons x xs ih =>
      rw [List.filter_cons]
      split
      · rw [List.lookup_cons, List.lookup_cons, ih]
      · rename_i hx
        have hx : x.1 = l := by simpa using hx
        rw [List.lookup_cons, ih, hx, beq_false_of_ne h]
  have hlast : [(l, e)].lookup l' = none := by rw [List.lookup_cons, beq_false_of_ne h]; rfl
  simp [ entry?, isAbove, set, List.lookup_append, hfilter, hlast]

theorem entry?_current (t : FileTree) : t.entry? t.current = some .dir :=
  if_pos (by simp [isAbove])

/-- Every directory of a tree stands in another one with the same current directory. -/
structure KeepsDirs (t t' : FileTree) : Prop where
  current : t'.current = t.current
  entry : ∀ l, t.entry? l = some .dir → t'.entry? l = some .dir

theorem keepsDirs_set {t : FileTree} {l : Location} (h : t.entry? l ≠ some .dir) (e : Entry) :
    t.KeepsDirs (t.set l e) := by
  refine ⟨rfl, fun l' hl' => ?_⟩
  rw [entry?_set_ne t (by rintro rfl; exact h hl'), hl']

/-- Every entry is as before, or a directory where nothing was. -/
structure AddsDirs (t t' : FileTree) : Prop where
  current : t'.current = t.current
  entry : ∀ l, t'.entry? l = t.entry? l ∨ t.entry? l = none ∧ t'.entry? l = some .dir

namespace AddsDirs

variable {t t' t'' : FileTree}

theorem refl (t : FileTree) : t.AddsDirs t :=
  ⟨rfl, fun _ => .inl rfl⟩

theorem trans (h : t.AddsDirs t') (h' : t'.AddsDirs t'') : t.AddsDirs t'' := by
  refine ⟨h'.current.trans h.current, fun l => ?_⟩
  rcases h.entry l with hl | ⟨hl, hl'⟩
  · rw [← hl]
    exact h'.entry l
  · rcases h'.entry l with hl'' | ⟨hl'', -⟩
    · exact .inr ⟨hl, hl''.trans hl'⟩
    · rw [hl'] at hl''
      cases hl''

end AddsDirs

theorem addsDirs_set {t : FileTree} {l : Location} (h : t.entry? l = none) :
    t.AddsDirs (t.set l .dir) := by
  refine ⟨rfl, fun l' => ?_⟩
  by_cases hl : l' = l
  · subst hl
    exact .inr ⟨h, entry?_set_self t (by rw [h]; simp) _⟩
  · exact .inl (entry?_set_ne t hl _)

/-! ## Steps -/

theorem standing_eq_ok_iff {t : FileTree} {l : Location} :
    t.standing l = .ok () ↔ t.entry? l = some .dir := by
  unfold standing
  split <;> simp_all

theorem resolveFrom_cons_eq_ok_iff {t : FileTree} {l r : Location} {c : Component}
    {steps : List Component} :
    t.resolveFrom l (c :: steps) = .ok r ↔
      t.entry? l = some .dir ∧ t.resolveFrom (next l c) steps = .ok r := by
  rw [← standing_eq_ok_iff, resolveFrom]
  cases t.standing l <;> simp [bind, Except.bind]

/-- Steps that can be made can be made where all the directories stand. -/
theorem KeepsDirs.resolveFrom {t t' : FileTree} (h : t.KeepsDirs t') {l r : Location}
    {steps : List Component} (hr : t.resolveFrom l steps = .ok r) :
    t'.resolveFrom l steps = .ok r := by
  induction steps generalizing l with
  | nil => exact hr
  | cons c steps ih =>
    obtain ⟨hdir, hr⟩ := resolveFrom_cons_eq_ok_iff.1 hr
    exact resolveFrom_cons_eq_ok_iff.2 ⟨h.entry l hdir, ih hr⟩

theorem KeepsDirs.resolveSteps {t t' : FileTree} (h : t.KeepsDirs t') {r : Location}
    {steps : List Component} (hr : t.resolveSteps steps = .ok r) :
    t'.resolveSteps steps = .ok r := by
  rw [FileTree.resolveSteps, h.current]
  exact h.resolveFrom hr

theorem resolveFrom_name_eq_ok_iff {t : FileTree} {l r : Location} {steps : List Component}
    {name : String} :
    t.resolveFrom l (steps ++ [.name name]) = .ok r ↔
      ∃ d, t.resolveFrom l steps = .ok d ∧ t.entry? d = some .dir ∧ r = d ++ [name] := by
  induction steps generalizing l with
  | nil =>
    rw [List.nil_append, resolveFrom_cons_eq_ok_iff]
    simp [next, resolveFrom, eq_comm]
  | cons c steps ih =>
    simp only [List.cons_append, resolveFrom_cons_eq_ok_iff, ih]
    constructor
    · rintro ⟨hdir, d, hd, hrest⟩
      exact ⟨d, ⟨hdir, hd⟩, hrest⟩
    · rintro ⟨d, ⟨hdir, hd⟩, hrest⟩
      exact ⟨hdir, d, hd, hrest⟩

/-- A path leads to the directory at a location. -/
def Leads (t : FileTree) (dir : String) (l : Location) : Prop :=
  t.resolveSteps (Path.components dir) = .ok l ∧ t.entry? l = some .dir

theorem KeepsDirs.leads {t t' : FileTree} (h : t.KeepsDirs t') {dir : String} {l : Location}
    (hl : t.Leads dir l) : t'.Leads dir l :=
  ⟨h.resolveSteps hl.1, h.entry l hl.2⟩

theorem Leads.unique {t : FileTree} {dir : String} {l l' : Location} (h : t.Leads dir l)
    (h' : t.Leads dir l') : l = l' := by
  have := h.1.symm.trans h'.1
  cases this
  rfl

/-! ## Directories that are made -/

theorem isDirAt_eq_true_iff {t : FileTree} {steps : List Component} :
    t.isDirAt steps = true ↔ ∃ l, t.resolveSteps steps = .ok l ∧ t.entry? l = some .dir := by
  unfold isDirAt
  cases t.resolveSteps steps <;> simp

theorem addsDirs_of_makeDir {t t' : FileTree} {steps : List Component}
    (h : t.makeDir steps = .done t') : t.AddsDirs t' ∧ t'.isDirAt steps = true := by
  unfold makeDir at h
  split at h
  · cases h
  · cases h
  · rename_i l hl
    split at h
    · cases h
    · rename_i hnone
      split at h
      · cases h
        have hne : t.entry? l ≠ some .dir := by rw [hnone]; simp
        exact ⟨addsDirs_set hnone, isDirAt_eq_true_iff.2
          ⟨l, (keepsDirs_set hne _).resolveSteps hl, entry?_set_self t hne _⟩⟩
      · cases h
      · cases h

theorem addsDirs_of_makeDirsBack {t t' : FileTree} {back : List Component}
    (h : t.makeDirsBack back = some t') : t.AddsDirs t' ∧ t'.isDirAt back.reverse = true := by
  induction back generalizing t t' with
  | nil =>
    cases h
    exact ⟨.refl t, isDirAt_eq_true_iff.2 ⟨t.current, rfl, entry?_current t⟩⟩
  | cons c before ih =>
    unfold makeDirsBack at h
    split at h
    · rename_i hmade
      cases h
      exact addsDirs_of_makeDir hmade
    · split at h
      · rename_i hdir
        cases h
        exact ⟨.refl t, hdir⟩
      · cases h
    · split at h
      · cases h
      · rename_i u hbefore
        have hadds := (ih hbefore).1
        split at h
        · rename_i hmade
          cases h
          obtain ⟨hadds', hdir⟩ := addsDirs_of_makeDir hmade
          exact ⟨hadds.trans hadds', hdir⟩
        · split at h
          · rename_i hdir
            cases h
            exact ⟨hadds, hdir⟩
          · cases h

theorem leads_of_makeDirs {t t' : FileTree} {dir : String} (h : t.makeDirs dir = some t') :
    t.AddsDirs t' ∧ ∃ l, t'.Leads dir l := by
  obtain ⟨hadds, hdir⟩ := addsDirs_of_makeDirsBack h
  rw [List.reverse_reverse] at hdir
  exact ⟨hadds, isDirAt_eq_true_iff.1 hdir⟩

/-- A directory that is there is not made again. -/
theorem makeDirs_of_leads {t : FileTree} {dir : String} {l : Location} (h : t.Leads dir l) :
    t.makeDirs dir = some t := by
  unfold makeDirs
  cases hback : (Path.components dir).reverse with
  | nil => rfl
  | cons c before =>
    have hsteps : (c :: before).reverse = Path.components dir := by
      rw [← hback, List.reverse_reverse]
    have hmade : t.makeDir (c :: before).reverse = .refused := by
      unfold makeDir
      rw [hsteps, h.1]
      simp only [h.2]
    have hdir : t.isDirAt (c :: before).reverse = true := by
      rw [hsteps]
      exact isDirAt_eq_true_iff.2 ⟨l, h⟩
    unfold makeDirsBack
    rw [hmade]
    simp only [hdir, if_true]

/-! ## Files in a directory -/

theorem writeBytes?_join_eq_some_iff {t t' : FileTree} {dir name : String}
    (hname : Path.IsName name) {bytes : List UInt8} :
    t.writeBytes? (Path.join dir name) bytes = some t' ↔
      ∃ l, t.Leads dir l ∧ Entry.givesWay (t.entry? (l ++ [name])) = true ∧
        t' = t.set (l ++ [name]) (.file bytes) := by
  unfold writeBytes? resolve
  rw [Path.endsInDirectory_join hname, if_neg Bool.false_ne_true,
    if_neg (by simpa using Path.join_ne_empty hname dir), Path.components_join hname]
  constructor
  · intro h
    split at h
    · cases h
    · rename_i r hr
      obtain ⟨l, hl, hdir, rfl⟩ := resolveFrom_name_eq_ok_iff.1 hr
      rw [List.dropLast_concat, standing_eq_ok_iff.2 hdir] at h
      dsimp only at h
      split at h
      · rename_i hfree
        cases h
        exact ⟨l, ⟨hl, hdir⟩, hfree, rfl⟩
      · cases h
  · rintro ⟨l, hl, hfree, rfl⟩
    rw [resolveSteps, resolveFrom_name_eq_ok_iff.2 ⟨l, hl.1, hl.2, rfl⟩]
    simp only [List.dropLast_concat, standing_eq_ok_iff.2 hl.2, hfree, if_true]

section
variable {t : FileTree} {dir name : String} {l : Location}

theorem makeDirs_parent_join (t : FileTree) (hname : Path.IsName name) (dir : String) :
    t.makeDirs ((Path.parent? (Path.join dir name)).getD "") = t.makeDirs dir := by
  rw [makeDirs, Path.components_parent_join hname, makeDirs]

theorem writeText_of_leads (hname : Path.IsName name) (hl : t.Leads dir l)
    (hfree : Entry.givesWay (t.entry? (l ++ [name])) = true) (text : Text) :
    t.writeText (Path.join dir name) text =
      (t.set (l ++ [name]) (.file (Text.encode text)), .ok ()) := by
  unfold writeText
  simp only [makeDirs_parent_join t hname, makeDirs_of_leads hl,
    (writeBytes?_join_eq_some_iff hname).2 ⟨l, hl, hfree, rfl⟩]

theorem writeText_fails (hname : Path.IsName name) (hl : t.Leads dir l)
    (htaken : Entry.givesWay (t.entry? (l ++ [name])) = false) (text : Text) :
    ∃ e, t.writeText (Path.join dir name) text = (t, .error e) := by
  have hnone : t.writeBytes? (Path.join dir name) (Text.encode text) = none := by
    rw [Option.eq_none_iff_forall_ne_some]
    intro t' h
    obtain ⟨l', hl', hfree, -⟩ := (writeBytes?_join_eq_some_iff hname).1 h
    rw [← hl.unique hl', htaken] at hfree
    cases hfree
  unfold writeText
  simp only [makeDirs_parent_join t hname, makeDirs_of_leads hl, hnone]
  exact ⟨_, rfl⟩

/-- Writing to a directory starts with making it. -/
theorem writeText_makeDirs (hname : Path.IsName name) {made : FileTree}
    (h : t.makeDirs dir = some made) (text : Text) :
    t.writeText (Path.join dir name) text = made.writeText (Path.join dir name) text := by
  obtain ⟨-, l, hl⟩ := leads_of_makeDirs h
  unfold writeText
  simp only [makeDirs_parent_join _ hname, h, makeDirs_of_leads hl]

theorem writeText_of_makeDirs_eq_none (hname : Path.IsName name) (h : t.makeDirs dir = none)
    (text : Text) : ∃ e, t.writeText (Path.join dir name) text = (t, .error e) := by
  unfold writeText
  simp only [makeDirs_parent_join t hname, h]
  exact ⟨_, rfl⟩

theorem find_of_stored (hname : Path.IsName name) (hl : t.Leads dir l) {bytes : List UInt8}
    (h : t.entry? (l ++ [name]) = some (.file bytes)) :
    t.find (Path.join dir name) = .ok (l ++ [name], .file bytes) := by
  have hresolve : t.resolve (Path.join dir name) = .ok (l ++ [name]) := by
    rw [resolve, if_neg (by simpa using Path.join_ne_empty hname dir), Path.components_join hname]
    exact resolveFrom_name_eq_ok_iff.2 ⟨l, hl.1, hl.2, rfl⟩
  unfold find
  simp only [hresolve, bind, Except.bind, h]
  exact if_neg (by simp [Path.endsInDirectory_join hname])

/-- **A text that stands in a file is read from it,** unless it starts with a mark of byte order. -/
theorem readText_of_find {path : String} {text : Text}
    (h : t.find path = .ok (l, .file (Text.encode text)))
    (hmark : text.head? ≠ some Text.byteOrderMark) : t.readText path = .ok text := by
  have htext : Text.withoutMark (Text.decode (Text.encode text)) = text := by
    rw [Text.decode_encode]
    cases text with
    | nil => rfl
    | cons c cs => exact if_neg (by simpa using hmark)
  unfold readText readBytes
  rw [h]
  exact congrArg _ htext

theorem readText_of_stored (hname : Path.IsName name) (hl : t.Leads dir l) {text : Text}
    (h : t.entry? (l ++ [name]) = some (.file (Text.encode text)))
    (hmark : text.head? ≠ some Text.byteOrderMark) :
    t.readText (Path.join dir name) = .ok text :=
  readText_of_find (find_of_stored hname hl h) hmark

end

/-! ## Files at any path -/

/-- Whether a text can be written to a path: it names a file in a directory that is there or can be
made, and neither a directory nor a locked file has that name. -/
def Writable (t : FileTree) (path : String) : Prop :=
  ∃ dir name made l, Path.IsName name ∧ path = Path.join dir name ∧ t.makeDirs dir = some made ∧
    made.Leads dir l ∧ Entry.givesWay (made.entry? (l ++ [name])) = true

/-- The bytes stand in the file at a path. At every other location the entry is as before, or a
directory where nothing was. -/
def Wrote (t t' : FileTree) (path : String) (bytes : List UInt8) : Prop :=
  t'.current = t.current ∧ ∃ l, t'.find path = .ok (l, .file bytes) ∧
    ∀ l' ≠ l, t'.entry? l' = t.entry? l' ∨ t.entry? l' = none ∧ t'.entry? l' = some .dir

section
variable {t t' : FileTree} {path : String} {text : Text}

theorem wrote_of_writable (h : t.Writable path) (text : Text) :
    ∃ t', t.writeText path text = (t', .ok ()) ∧ t.Wrote t' path (Text.encode text) := by
  obtain ⟨dir, name, made, l, hname, rfl, hmade, hl, hfree⟩ := h
  have hne : made.entry? (l ++ [name]) ≠ some .dir := ne_dir_of_givesWay hfree
  have hadds := (leads_of_makeDirs hmade).1
  refine ⟨made.set (l ++ [name]) (.file (Text.encode text)), ?_, hadds.current, l ++ [name],
    find_of_stored hname ((keepsDirs_set hne _).leads hl) (entry?_set_self made hne _),
    fun l' hl' => ?_⟩
  · rw [writeText_makeDirs hname hmade, writeText_of_leads hname hl hfree]
  · rw [entry?_set_ne made hl']
    exact hadds.entry l'

theorem writable_of_writeText (h : t.writeText path text = (t', .ok ())) : t.Writable path := by
  have hsome : ∃ made, t.makeDirs ((Path.parent? path).getD "") = some made ∧
      made.writeBytes? path (Text.encode text) = some t' := by
    unfold writeText at h
    dsimp only at h
    split at h
    · cases h
    · rename_i made hmade
      split at h
      · cases h
      · rename_i hwrite
        cases h
        exact ⟨made, hmade, hwrite⟩
  obtain ⟨made, hmade, hwrite⟩ := hsome
  have hpath : path ≠ "" ∧ Path.endsInDirectory path = false := by
    unfold writeBytes? at hwrite
    split at hwrite
    · cases hwrite
    · rename_i hdir
      refine ⟨?_, by simpa using hdir⟩
      rintro rfl
      cases hwrite
  obtain ⟨dir, name, hname, rfl⟩ := Path.exists_join hpath.1 hpath.2
  rw [makeDirs_parent_join t hname] at hmade
  obtain ⟨l, hl, hfree, -⟩ := (writeBytes?_join_eq_some_iff hname).1 hwrite
  exact ⟨dir, name, made, l, hname, rfl, hmade, hl, hfree⟩

end
end FileTree
end ParamTwin
