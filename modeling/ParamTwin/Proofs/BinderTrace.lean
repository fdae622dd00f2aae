import ParamTwin.Scope.Model
import ParamTwin.Proofs.BinderShape
import ParamTwin.Proofs.LexicalFacts

/-!
# The binder implements lexical scoping

`Binder.Tracks source root es scopes b`: the state `b` is what the events `es` of the walk amount to
inside the scopes `scopes`. Its symbols are the declarations so far, its stack holds for each scope
the names declared in it, and its references are the resolutions of the identifiers met so far.
Every step of the binder keeps this (`Tracks.declare`, `Tracks.refer`, `Tracks.enter`,
`Tracks.leave`), hence the walk over a node does (`visit_tracks`) and the run over a file
(`run_tracks`).

The scope of a node is empty when the walk enters it because no earlier declaration belongs to a
scope at or below the node (`Fresh`).
-/

namespace ParamTwin

open Lexical

namespace Lexical

/-! ## Lookup in a stack is resolution -/

/-- The names declared in a scope with their offsets, the most recent first. -/
def bindings (ds : List Declaration) (scope : ScopeId) : Scope :=
  ((ds.filter (·.scope = scope)).map fun d => (d.symbol.name, d.symbol.offset)).reverse

theorem bindings_append_self (ds : List Declaration) (d : Declaration) :
    bindings (ds ++ [d]) d.scope = (d.symbol.name, d.symbol.offset) :: bindings ds d.scope := by
  simp [bindings, List.filter_append]

theorem bindings_append_other (ds : List Declaration) {d : Declaration} {scope : ScopeId}
    (h : d.scope ≠ scope) : bindings (ds ++ [d]) scope = bindings ds scope := by
  simp [bindings, List.filter_append, h]

theorem bindings_eq_nil {ds : List Declaration} {scope : ScopeId}
    (h : ∀ d ∈ ds, d.scope ≠ scope) : bindings ds scope = [] := by
  have : ds.filter (·.scope = scope) = [] := by simpa [List.filter_eq_nil_iff] using h
  simp [bindings, this]

/-- Looking up a name among the bindings of a scope is finding its most recent declaration. -/
theorem lookup_bindings (ds : List Declaration) (scope : ScopeId) (name : String) :
    (bindings ds scope).lookup name =
      (ds.reverse.find? (·.declares scope name)).map (·.symbol.offset) := by
  rw [bindings, ← List.map_reverse, ← List.filter_reverse]
  induction ds.reverse with
  | nil => rfl
  | cons d ds ih =>
    rw [List.find?_cons, List.filter_cons]
    by_cases hs : d.scope = scope
    · by_cases hn : d.symbol.name = name
      · simp [Declaration.declares, hs, hn]
      · have hb : (name == d.symbol.name) = false := beq_false_of_ne (Ne.symm hn)
        simp [Declaration.declares, hs, hn, hb, List.lookup_cons, ih]
    · simp [Declaration.declares, hs, ih]

/-- Looking up a name in the stack of the bindings of scopes is resolving it. -/
theorem lookup_eq_resolve (ds : List Declaration) (scopes : List ScopeId) (name : String) :
    Binder.lookup name (scopes.map (bindings ds)) =
      (resolve ds scopes name).map (·.symbol.offset) := by
  induction scopes with
  | nil => rfl
  | cons scope scopes ih =>
    rw [List.map_cons, Binder.lookup, lookup_bindings, resolve, List.findSome?_cons]
    cases ds.reverse.find? (·.declares scope name) with
    | none => exact ih
    | some d => rfl

theorem resolve_map_eq_some_iff {ds : List Declaration} {scopes : List ScopeId} {name : String}
    {o : Nat} : (resolve ds scopes name).map (·.symbol.offset) = some o ↔
      ∃ d, Resolves ds scopes name d ∧ d.symbol.offset = o := by
  simp only [Option.map_eq_some_iff, resolves_iff_resolve]

/-! ## What a part of the walk amounts to -/

/-- The name that an identifier spells. -/
def spelling (source : Text) (n : Node) : String :=
  Identifier.bare (n.textString source)

/-- The events hold a reference at offset `o` that resolves to the declaration at offset `d`. -/
def Refers (source : Text) (root : Node) (es : List Event) (o d : Nat) : Prop :=
  ∃ before place n after decl, es = before ++ .refer place n :: after ∧ n.span.start = o ∧
    Resolves (declarations source before) (enclosing root place) (spelling source n) decl ∧
    decl.symbol.offset = d

theorem declarations_append_one (source : Text) (es : List Event) (e : Event) :
    declarations source (es ++ [e]) = declareNext source (declarations source es) e := by
  simp [declarations, List.foldl_append]

/-- One more event refers to what the events before it refer to, and to what it refers to itself. -/
theorem refers_append_one {source : Text} {root : Node} {es : List Event} {e : Event} {o d : Nat} :
    Refers source root (es ++ [e]) o d ↔ Refers source root es o d ∨
      ∃ place n decl, e = .refer place n ∧ n.span.start = o ∧
        Resolves (declarations source es) (enclosing root place) (spelling source n) decl ∧
        decl.symbol.offset = d := by
  constructor
  · rintro ⟨before, place, n, after, decl, h, hr⟩
    rcases List.eq_nil_or_concat after with rfl | ⟨after, x, rfl⟩
    · obtain ⟨rfl, he⟩ := List.append_inj' h rfl
      cases he
      exact .inr ⟨place, n, decl, rfl, hr⟩
    · rw [List.concat_eq_append, ← List.cons_append, ← List.append_assoc] at h
      obtain ⟨rfl, -⟩ := List.append_inj' h rfl
      exact .inl ⟨before, place, n, after, decl, rfl, hr⟩
  · rintro (⟨before, place, n, after, decl, rfl, hr⟩ | ⟨place, n, decl, rfl, hr⟩)
    · exact ⟨before, place, n, after ++ [e], decl, by simp, hr⟩
    · exact ⟨es, place, n, [], decl, rfl, hr⟩

/-- No event declares in a scope at or below a place. -/
def Fresh (es : List Event) (path : Path) : Prop :=
  ∀ scope x, .declare scope x ∈ es → ¬ scope.Below path

theorem Fresh.append {es es' : List Event} {path : Path} (h : Fresh es path)
    (h' : Fresh es' path) : Fresh (es ++ es') path := by
  intro scope x hx
  rcases List.mem_append.1 hx with hx | hx
  · exact h scope x hx
  · exact h' scope x hx

theorem Fresh.child {es : List Event} {path : Path} (h : Fresh es path) (k : Nat) :
    Fresh es (k :: path) :=
  fun scope x hx hb => h scope x hx (hb.trans (List.suffix_cons k path))

theorem fresh_declareIn {scope : ScopeId} {path : Path} (xs : List Binding)
    (h : ¬ scope.Below path) : Fresh (declareIn scope xs) path := by
  intro s x hx
  obtain ⟨y, -, he⟩ := mem_declareIn.1 hx
  cases he
  exact h

/-- The walk over a child declares nothing at or below its siblings. -/
theorem fresh_sibling {shape : List String → Node → Shape} {root c : Node} {scope : ScopeId}
    {outer : List ScopeId} {path : Path} {j k : Nat} {around : List String}
    (hc : root.at? (k :: path) = some c)
    (hs : ∀ k, enclosing root (k :: path) = scope :: outer) (hjk : j ≠ k) :
    Fresh (events shape scope (k :: path) around c) (j :: path) := by
  intro s x hx hb
  rcases scope_of_mem_events hc (hs k) hx with rfl | hb'
  · exact not_below_of_mem_enclosing (by rw [hs j]; exact .head _) hb
  · exact hjk (hb.index_unique hb')

/-- One more event adds a declaration at most: of a name other than the empty one, at an offset at
which none is declared yet. -/
theorem declareNext_cases (source : Text) (ds : List Declaration) (e : Event) :
    declareNext source ds e = ds ∨
      ∃ scope x, e = .declare scope x ∧ (x.symbol source).name ≠ "" ∧
        (∀ d ∈ ds, d.symbol.offset ≠ (x.symbol source).offset) ∧
        declareNext source ds e = ds ++ [⟨scope, x.symbol source⟩] := by
  cases e with
  | refer place n => exact .inl rfl
  | declare scope x =>
    simp only [declareNext]
    split
    · exact .inl rfl
    · rename_i h
      simp only [Bool.or_eq_true, beq_iff_eq, List.any_eq_true, not_or, not_exists, not_and] at h
      exact .inr ⟨scope, x, rfl, h.1.1, h.2, rfl⟩

/-- Declarations belong to the scopes in which names are declared, and have a name. -/
theorem exists_declare_of_mem {source : Text} {es : List Event} {d : Declaration}
    (h : d ∈ declarations source es) :
    d.symbol.name ≠ "" ∧ ∃ x, .declare d.scope x ∈ es ∧ d.symbol = x.symbol source := by
  induction es using List.reverseRecOn with
  | nil => simp [declarations] at h
  | append_singleton es e ih =>
    have old : d ∈ declarations source es → d.symbol.name ≠ "" ∧
        ∃ x, .declare d.scope x ∈ es ++ [e] ∧ d.symbol = x.symbol source := fun h => by
      obtain ⟨hn, x, hx, hd⟩ := ih h
      exact ⟨hn, x, List.mem_append_left _ hx, hd⟩
    rw [declarations_append_one] at h
    rcases declareNext_cases source (declarations source es) e with he | ⟨scope, x, rfl, hn, -, he⟩
    · exact old (he ▸ h)
    · rw [he] at h
      rcases List.mem_append.1 h with h | h
      · exact old h
      · rw [List.mem_singleton] at h
        subst h
        exact ⟨hn, x, by simp, rfl⟩

theorem declarations_subset_append (source : Text) (es es' : List Event) :
    declarations source es ⊆ declarations source (es ++ es') := by
  induction es' using List.reverseRecOn with
  | nil => rw [List.append_nil]; exact List.Subset.refl _
  | append_singleton es' e ih =>
    rw [← List.append_assoc, declarations_append_one]
    rcases declareNext_cases source (declarations source (es ++ es')) e with
      he | ⟨_, _, -, -, -, he⟩
    · rw [he]; exact ih
    · rw [he]; exact List.Subset.trans ih (List.subset_append_left ..)

/-- No two declarations stand at the same offset. -/
theorem declarations_offsets_nodup (source : Text) (es : List Event) :
    ((declarations source es).map (·.symbol.offset)).Nodup := by
  induction es using List.reverseRecOn with
  | nil => exact List.nodup_nil
  | append_singleton es e ih =>
    rw [declarations_append_one]
    rcases declareNext_cases source (declarations source es) e with he | ⟨scope, x, -, -, hx, he⟩
    · rwa [he]
    · rw [he, List.map_append]
      refine List.nodup_append.2 ⟨ih, List.nodup_singleton _, fun o ho o' ho' heq => ?_⟩
      obtain ⟨d, hd, rfl⟩ := List.mem_map.1 ho
      rw [List.map_singleton, List.mem_singleton] at ho'
      exact hx d hd (heq.trans ho')

end Lexical

/-! ## The invariant -/

namespace Binder

/-- The state of the walk after the events `es`, inside the scopes `scopes`. -/
structure Tracks (source : Text) (root : Node) (es : List Event) (scopes : List ScopeId)
    (b : Binder) : Prop where
  symbols : b.symbols = ((declarations source es).map (·.symbol)).reverse
  stack : b.scopes = scopes.map (bindings (declarations source es))
  references : ∀ o d, (o, d) ∈ b.references ↔ Refers source root es o d

section
variable {source : Text} {root : Node} {es : List Event} {scopes : List ScopeId} {b : Binder}

theorem Tracks.isDeclared (h : Tracks source root es scopes b) (o : Nat) :
    b.isDeclared o = (declarations source es).any (·.symbol.offset == o) := by
  rw [Binder.isDeclared, h.symbols, List.any_reverse, List.any_map]; rfl

theorem map_bindings_of_not_mem {ds : List Declaration} {d : Declaration}
    (h : d.scope ∉ scopes) : scopes.map (bindings (ds ++ [d])) = scopes.map (bindings ds) :=
  List.map_congr_left fun _ hs => bindings_append_other ds fun he => h (he ▸ hs)

theorem declare_eq (source : Text) (x : Binding) (b : Binder) :
    b.declare source x.kind x.name =
      let symbol := x.symbol source
      if symbol.name == "" || symbol.name == "_" || b.isDeclared symbol.offset then b
      else
        { b with
          symbols := symbol :: b.symbols
          scopes := bindInnermost symbol.name symbol.offset b.scopes } := rfl

/-- Declaring a name puts it into the frame of the innermost scope. -/
theorem Tracks.declare {scope : ScopeId} (h : Tracks source root es (scope :: scopes) b)
    (hs : scope ∉ scopes) (x : Binding) :
    Tracks source root (es ++ [.declare scope x]) (scope :: scopes)
      (b.declare source x.kind x.name) := by
  have hr : ∀ o d, (o, d) ∈ b.references ↔ Refers source root (es ++ [.declare scope x]) o d :=
    fun o d => by simp [h.references, refers_append_one]
  have hd := declarations_append_one source es (.declare scope x)
  rw [declare_eq]
  simp only [declareNext, h.isDeclared] at hd ⊢
  -- The two tests are the same one now, on the same symbol.
  generalize x.symbol source = symbol at hd ⊢
  split at hd
  · rename_i hc
    rw [if_pos hc]
    exact ⟨hd ▸ h.symbols, hd ▸ h.stack, hr⟩
  · rename_i hc
    rw [if_neg hc]
    refine ⟨by simp [hd, h.symbols], ?_, hr⟩
    rw [hd, h.stack, List.map_cons, bindInnermost, List.map_cons, map_bindings_of_not_mem hs]
    exact congrArg (· :: _) (bindings_append_self _ ⟨scope, symbol⟩).symm

theorem Tracks.declareAll {scope : ScopeId} (h : Tracks source root es (scope :: scopes) b)
    (hs : scope ∉ scopes) (xs : List Binding) :
    Tracks source root (es ++ declareIn scope xs) (scope :: scopes) (b.declareAll source xs) := by
  induction xs generalizing es b with
  | nil => simpa [declareIn] using h
  | cons x xs ih =>
    have := ih (h.declare hs x)
    rwa [List.append_assoc] at this

theorem Tracks.refer {place : Path} (h : Tracks source root es (enclosing root place) b)
    (n : Node) :
    Tracks source root (es ++ [.refer place n]) (enclosing root place) (b.refer source n) := by
  have hd : declarations source (es ++ [.refer place n]) = declarations source es :=
    declarations_append_one ..
  have hl : ∀ o, lookup (spelling source n) b.scopes = some o ↔
      ∃ decl, Resolves (declarations source es) (enclosing root place) (spelling source n) decl ∧
        decl.symbol.offset = o := fun o => by
    rw [h.stack, lookup_eq_resolve, resolve_map_eq_some_iff]
  have hr : ∀ o d, Refers source root (es ++ [.refer place n]) o d ↔
      (o, d) ∈ b.references ∨ n.span.start = o ∧ lookup (spelling source n) b.scopes = some d :=
    fun o d => by
      rw [refers_append_one, h.references, hl]
      refine or_congr_right ⟨?_, ?_⟩
      · rintro ⟨place, n, decl, he, ho, hres, hd⟩
        cases he
        exact ⟨ho, decl, hres, hd⟩
      · rintro ⟨ho, decl, hres, hd⟩
        exact ⟨place, n, decl, rfl, ho, hres, hd⟩
  unfold Binder.refer
  split
  · rename_i o' hf
    refine ⟨by rw [hd]; exact h.symbols, by rw [hd]; exact h.stack, fun o d => ?_⟩
    rw [hr, spelling, hf]
    simp [or_comm, eq_comm]
  · rename_i hf
    refine ⟨by rw [hd]; exact h.symbols, by rw [hd]; exact h.stack, fun o d => ?_⟩
    rw [hr, spelling, hf]
    simp

/-- A scope in which nothing is declared yet is entered with an empty frame. -/
theorem Tracks.enter {scope : ScopeId} (h : Tracks source root es scopes b)
    (hs : ∀ d ∈ declarations source es, d.scope ≠ scope) :
    Tracks source root es (scope :: scopes) { b with scopes := [] :: b.scopes } :=
  ⟨h.symbols, by rw [List.map_cons, bindings_eq_nil hs, h.stack], h.references⟩

theorem Tracks.leave {scope : ScopeId} (h : Tracks source root es (scope :: scopes) b) :
    Tracks source root es scopes { b with scopes := b.scopes.tail } :=
  ⟨h.symbols, by rw [h.stack]; rfl, h.references⟩

/-! ## The walk -/

/-- The walk over a node does what the events of the node say. -/
def Follows (source : Text) (root n : Node) : Prop :=
  ∀ (path : Path) (around : List String) (scope : ScopeId) (outer : List ScopeId)
    (es : List Event) (b : Binder), root.at? path = some n →
    enclosing root path = scope :: outer → Fresh es path →
    Tracks source root es (scope :: outer) b →
    Tracks source root (es ++ events (shape source) scope path around n) (scope :: outer)
      (visit source around n b)

variable {n : Node} {path : Path} {own : ScopeId} {outer : List ScopeId} {around : List String}

theorem Tracks.walkRoles (hn : root.at? path = some n)
    (hs : ∀ k, enclosing root (k :: path) = own :: outer)
    (ih : ∀ c ∈ n.children, Follows source root c) {k : Nat} {ns : List Node} {roles : List Role}
    (hk : n.children.drop k = ns) (hf : ∀ j, k ≤ j → Fresh es (j :: path))
    (h : Tracks source root es (own :: outer) b) :
    Tracks source root (es ++ eventsAmong (shape source) own path k around roles ns)
      (own :: outer) (walkRoles source around roles ns b) := by
  induction ns generalizing k roles es b with
  | nil => cases roles <;> simpa [eventsAmong, Binder.walkRoles] using h
  | cons c ns ihs =>
    cases roles with
    | nil => simpa [eventsAmong, Binder.walkRoles] using h
    | cons role roles =>
      obtain ⟨hc, hk'⟩ := Node.child_of_drop hk
      have hown : ∀ j, own ∈ enclosing root (j :: path) := fun j => by rw [hs j]; exact .head _
      have hnd : own ∉ outer := (List.nodup_cons.1 (hs k ▸ enclosing_nodup root (k :: path))).1
      rw [eventsAmong_cons, ← List.append_assoc, Binder.walkRoles]
      -- A role keeps the siblings to come fresh: it declares around them or below this child.
      cases role with
      | passed =>
        rw [List.append_nil]
        exact ihs hk' (fun j hj => hf j (by omega)) h
      | walked =>
        have hat : root.at? (k :: path) = some c := by rw [Node.at?_child hn, hc]
        refine ihs hk' (fun j hj => ?_)
          (ih c (List.mem_of_getElem? hc) _ _ _ _ _ _ hat (hs k) (hf k (Nat.le_refl k)) h)
        exact (hf j (by omega)).append (fresh_sibling hat hs (by omega))
      | reference =>
        refine ihs hk' (fun j hj => (hf j (by omega)).append fun s x hx => by simp at hx) ?_
        rw [← hs k] at h ⊢
        exact h.refer c
      | designates xs =>
        refine ihs hk' (fun j hj => (hf j (by omega)).append ?_) (h.declareAll hnd xs)
        exact fresh_declareIn xs (not_below_of_mem_enclosing (hown j))

theorem Tracks.inside (hn : root.at? path = some n)
    (hs : ∀ k, enclosing root (k :: path) = own :: outer)
    (ih : ∀ c ∈ n.children, Follows source root c) (hf : Fresh es path)
    (h : Tracks source root es (own :: outer) b) (s : Shape) :
    Tracks source root
      (es ++ declareIn own s.entry ++
        eventsAmong (shape source) own path 0 (n.kind :: around) s.roles n.children ++
        declareIn own s.last)
      (own :: outer) (inside source around n s b) := by
  have hnd : own ∉ outer := (List.nodup_cons.1 (hs 0 ▸ enclosing_nodup root (0 :: path))).1
  have hf' : ∀ j, Fresh (es ++ declareIn own s.entry) (j :: path) := fun j =>
    (hf.child j).append
      (fresh_declareIn _ (not_below_of_mem_enclosing (by rw [hs j]; exact .head _)))
  exact ((h.declareAll hnd s.entry).walkRoles hn hs ih rfl fun j _ => hf' j).declareAll hnd s.last

/-- **The walk over a node does what the events of the node say.** -/
theorem visit_tracks (source : Text) (root n : Node) : Follows source root n := by
  induction n using Node.induction with
  | step n ih =>
    intro path around scope outer es b hn hs hf h
    have hnd : scope ∉ outer := (List.nodup_cons.1 (hs ▸ enclosing_nodup root path)).1
    have hf' : Fresh (es ++ declareIn scope (shape source around n).outside) path :=
      hf.append (fresh_declareIn _ (not_below_of_mem_enclosing (by rw [hs]; exact .head _)))
    have h' := h.declareAll hnd (shape source around n).outside
    have henc := enclosing_child hn
    rw [visit_eq, events_eq, scopeInside]
    simp only [← List.append_assoc]
    rw [hs] at henc
    split
    · -- The scope of the node starts out empty, for the events so far are fresh at its place.
      rename_i ho
      simp only [ho, if_true] at henc
      have hempty : ∀ d ∈ declarations source
          (es ++ declareIn scope (shape source around n).outside), d.scope ≠ .node path := by
        intro d hd he
        obtain ⟨-, x, hx, -⟩ := exists_declare_of_mem hd
        exact hf' _ x hx ⟨path, he, List.suffix_rfl⟩
      exact ((h'.enter hempty).inside hn henc ih hf' _).leave
    · rename_i ho
      simp only [ho] at henc
      exact h'.inside hn henc ih hf' _

/-- **The run over a file ends in the state that the events of the file amount to.** -/
theorem run_tracks (source : Text) (root : Node) :
    Tracks source root (walk (shape source) root) [] (run source root) := by
  have hstart : Tracks source root [] [] start :=
    ⟨rfl, rfl, fun o d => by simp [start, Refers]⟩
  have := visit_tracks source root root [] [] .file [] [] _ rfl rfl (fun _ _ h => nomatch h)
    (hstart.enter fun _ h => nomatch h)
  exact this.leave

end
end Binder
end ParamTwin
