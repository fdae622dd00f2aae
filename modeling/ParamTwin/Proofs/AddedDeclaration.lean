import ParamTwin.Proofs.LexicalFacts

/-!
# Resolution with more declarations

What a name resolves to when declarations are put in front of those that are there already. A new
declaration in the scope of a node is found by the names inside the node that are spelled like it
and not bound inside the node (`resolves_new_iff`), and no other name changes its meaning
(`resolves_cons_of_not_captured`). With several new declarations, those in scopes further in go
first (`resolves_front_iff`).
-/

namespace ParamTwin.Lexical

/-! ## Resolution with more declarations -/

section
variable {ds : List Declaration} {scope : ScopeId} {inner outer scopes : List ScopeId}
  {name : String} {d new : Declaration}

/-- A name that is declared in one of the first scopes resolves to a declaration in one of them. -/
theorem exists_resolves {e : Declaration} (he : e ∈ ds) (hs : e.scope ∈ inner)
    (hn : e.symbol.name = name) : ∃ d, Resolves ds (inner ++ outer) name d ∧ d.scope ∈ inner := by
  induction inner with
  | nil => simp at hs
  | cons s inner ih =>
    simp only [List.cons_append, resolves_cons_iff]
    by_cases hex : ∃ e ∈ ds, e.scope = s ∧ e.symbol.name = name
    · obtain ⟨e, he, hs, hn⟩ := hex
      obtain ⟨d, hd⟩ := exists_latest he hs hn
      exact ⟨d, .inl hd, hd.1 ▸ .head _⟩
    · have hes : e.scope ∈ inner := by
        rcases List.mem_cons.1 hs with hs | hs
        · exact absurd ⟨e, he, hs, hn⟩ hex
        · exact hs
      obtain ⟨d, hd, hds⟩ := ih hes
      refine ⟨d, .inr ⟨fun x hx hxs => hex ⟨x, hx, hxs⟩, hd⟩, .tail _ hds⟩

/-- A name resolves to a declaration of a given scope iff it is the most recent one there and the
scopes inside have none. -/
theorem resolves_at_iff (hd : d.scope = scope) (hnd : (inner ++ scope :: outer).Nodup) :
    Resolves ds (inner ++ scope :: outer) name d ↔ Latest ds scope name d ∧
      ∀ e ∈ ds, e.scope ∈ inner → e.symbol.name ≠ name := by
  induction inner with
  | nil =>
    have hout : ¬ Resolves ds outer name d := fun h =>
      (List.nodup_cons.1 hnd).1 (hd ▸ h.mem_scopes)
    simp [resolves_cons_iff, hout]
  | cons s inner ih =>
    obtain ⟨hs, hnd⟩ := List.nodup_cons.1 hnd
    have hsd : ¬ Latest ds s name d := fun h => hs (by rw [← h.1, hd]; simp)
    simp only [List.cons_append, resolves_cons_iff, hsd, false_or, ih hnd, List.mem_cons]
    constructor
    · rintro ⟨hn, hl, hi⟩
      exact ⟨hl, fun e he hes => hes.elim (fun hs hn' => hn e he ⟨hs, hn'⟩) (hi e he)⟩
    · rintro ⟨hl, hi⟩
      exact ⟨fun e he hes => hi e he (.inl hes.1) hes.2, hl, fun e he hes => hi e he (.inr hes)⟩

/-- A declaration matters only to its name inside its scope. -/
theorem resolves_cons_of_irrelevant (h : ¬ (new.scope ∈ scopes ∧ new.symbol.name = name)) :
    Resolves (new :: ds) scopes name d ↔ Resolves ds scopes name d := by
  induction scopes with
  | nil => simp [Resolves]
  | cons s scopes ih =>
    have hs : ¬ (new.scope = s ∧ new.symbol.name = name) := fun hs => h ⟨hs.1 ▸ .head _, hs.2⟩
    have hl : Latest (new :: ds) s name d ↔ Latest ds s name d := by
      rw [show new :: ds = [new] ++ ds from rfl, latest_append, latest_singleton]
      simp [hs]
    rw [resolves_cons_iff, resolves_cons_iff, hl, ih fun hs => h ⟨.tail _ hs.1, hs.2⟩]
    simp only [List.forall_mem_cons, hs, not_false_eq_true, true_and]

/-- A declaration does not matter to a name that is bound no further out than its scope. -/
theorem resolves_cons_of_bound (hnd : (inner ++ new.scope :: outer).Nodup)
    (h : Resolves ds (inner ++ new.scope :: outer) name d) (hd : d.scope ∉ outer) :
    Resolves (new :: ds) (inner ++ new.scope :: outer) name d := by
  have hl : ∀ s, Latest ds s name d → Latest ([new] ++ ds) s name d := fun s hl =>
    latest_append.2 (.inl hl)
  induction inner with
  | nil =>
    rcases resolves_cons_iff.1 h with h | ⟨-, h⟩
    · exact resolves_cons_iff.2 (.inl (hl _ h))
    · exact absurd h.mem_scopes hd
  | cons s inner ih =>
    obtain ⟨hs, hnd⟩ := List.nodup_cons.1 hnd
    rcases resolves_cons_iff.1 h with h | ⟨hn, h⟩
    · exact resolves_cons_iff.2 (.inl (hl _ h))
    · refine resolves_cons_iff.2 (.inr ⟨List.forall_mem_cons.2 ⟨fun hns => hs ?_, hn⟩, ih hnd h⟩)
      rw [← hns.1]
      simp

end

/-- A name is not bound inside a node iff no scope at or below the node has a declaration of it. -/
theorem not_bound_below_iff {root : Node} {path : Path} {ds : List Declaration} {name : String}
    {inner : List ScopeId} (hb : ∀ s ∈ inner, s.Below path) :
    (∀ d, Resolves ds (inner ++ .node path :: enclosing root path) name d →
      ¬ d.scope.Below path) ↔
      ∀ e ∈ ds, e.scope ∈ inner ++ [.node path] → e.symbol.name ≠ name := by
  have hsplit : inner ++ .node path :: enclosing root path =
      (inner ++ [.node path]) ++ enclosing root path := by simp
  rw [hsplit]
  constructor
  · intro h e he hes hn
    obtain ⟨d, hd, hds⟩ := exists_resolves he hes hn
    refine h d hd ?_
    rcases List.mem_append.1 hds with hds | hds
    · exact hb _ hds
    · rw [List.mem_singleton] at hds
      exact hds ▸ ⟨path, rfl, List.suffix_rfl⟩
  · intro h d hd hbelow
    rcases List.mem_append.1 hd.mem_scopes with hds | hds
    · exact h d hd.mem hds hd.name_eq
    · exact not_below_of_mem_enclosing hds hbelow

/-! ## Declarations in the scope of a node -/

section
variable {root n : Node} {path place : Path} {front ds : List Declaration} {new d : Declaration}
  {name : String}

/-- With declarations in front of the others, the only one of a scope among those in front is the
most recent one of its name there iff the others have none. -/
theorem latest_front_iff (hnew : new ∉ ds) (hfront : new ∈ front)
    (hone : ∀ e ∈ front, e.scope = new.scope → e = new) :
    Latest (front ++ ds) new.scope name new ↔
      name = new.symbol.name ∧ ∀ e ∈ ds, e.scope = new.scope → e.symbol.name ≠ name := by
  rw [latest_append]
  constructor
  · rintro (hl | ⟨hds, hl⟩)
    · exact absurd hl.mem hnew
    · exact ⟨hl.2.1.symm, fun e he hs hname => hds e he ⟨hs, hname⟩⟩
  · rintro ⟨rfl, hds⟩
    obtain ⟨e, he⟩ := exists_latest hfront rfl rfl
    rw [hone e he.mem he.1] at he
    exact .inr ⟨fun e he hes => hds e he hes.1 hes.2, he⟩

/-- The scopes further in than the one of a node are those around the place that lie strictly below
the node. -/
theorem mem_further_in_iff {inner : List ScopeId} {s : ScopeId}
    (hnd : (inner ++ .node path :: enclosing root path).Nodup)
    (hb : ∀ s ∈ inner, s.Below path) :
    s ∈ inner ↔ s ∈ inner ++ .node path :: enclosing root path ∧ s.Below path ∧
      s ≠ .node path := by
  constructor
  · intro hs
    refine ⟨List.mem_append_left _ hs, hb s hs, ?_⟩
    rintro rfl
    exact (List.nodup_append.1 hnd).2.2 _ hs _ (.head _) rfl
  · rintro ⟨hs, hbelow, hne⟩
    rcases List.mem_append.1 hs with hs | hs
    · exact hs
    · rcases List.mem_cons.1 hs with hs | hs
      · exact absurd hs hne
      · exact absurd hbelow (not_below_of_mem_enclosing hs)

/-- With declarations in front of the others, of which one belongs to the scope of a node around a
place, a name at the place resolves to that one iff it is its name, neither the others bind the name
inside the node, nor do those in front below the node. -/
theorem resolves_front_iff (hn : root.at? path = some n)
    (ho : (Construct.ofKind n.kind).opensScope = true) (hp : path.Encloses place)
    (hscope : new.scope = .node path) (hnew : new ∉ ds) (hfront : new ∈ front)
    (hone : ∀ e ∈ front, e.scope = .node path → e = new) :
    Resolves (front ++ ds) (enclosing root place) name new ↔
      name = new.symbol.name ∧
        (∀ d, Resolves ds (enclosing root place) name d → ¬ d.scope.Below path) ∧
        ∀ e ∈ front, e.scope ∈ enclosing root place → e.scope.Below path →
          e.scope ≠ .node path → e.symbol.name ≠ name := by
  obtain ⟨inner, hsplit, hb⟩ := enclosing_split hn ho hp
  have hnd := enclosing_nodup root place
  rw [hsplit] at hnd ⊢
  have hlatest := @latest_front_iff front ds new name hnew hfront (hscope.symm ▸ hone)
  rw [hscope] at hlatest
  rw [resolves_at_iff hscope hnd, hlatest, not_bound_below_iff hb]
  constructor
  · rintro ⟨⟨hname, hown⟩, hin⟩
    refine ⟨hname, fun e he hes => ?_, fun e he hs hbelow hne => ?_⟩
    · rcases List.mem_append.1 hes with hes | hes
      · exact hin e (List.mem_append_right _ he) hes
      · exact hown e he (List.mem_singleton.1 hes)
    · exact hin e (List.mem_append_left _ he) ((mem_further_in_iff hnd hb).2 ⟨hs, hbelow, hne⟩)
  · rintro ⟨hname, hds, hfr⟩
    refine ⟨⟨hname, fun e he hes => hds e he (by simp [hes])⟩, fun e he hes => ?_⟩
    rcases List.mem_append.1 he with he | he
    · obtain ⟨hs, hbelow, hne⟩ := (mem_further_in_iff hnd hb).1 hes
      exact hfr e he hs hbelow hne
    · exact hds e he (List.mem_append_left _ hes)

theorem resolves_new_iff (hn : root.at? path = some n)
    (ho : (Construct.ofKind n.kind).opensScope = true) (hp : path.Encloses place)
    (hscope : new.scope = .node path) (hnew : new ∉ ds) :
    Resolves (new :: ds) (enclosing root place) name new ↔ name = new.symbol.name ∧
      ∀ d, Resolves ds (enclosing root place) name d → ¬ d.scope.Below path := by
  have hiff := @resolves_front_iff root n path place [new] ds new name hn ho hp hscope hnew
    (List.mem_singleton_self new) (by simp)
  refine hiff.trans (and_congr_right fun _ => and_iff_left ?_)
  rintro e he - - hne
  rw [List.mem_singleton] at he
  exact absurd (he ▸ hscope) hne

/-- A declaration in the scope of a node that is not what a name resolves to leaves its meaning. -/
theorem resolves_cons_of_not_captured (hn : root.at? path = some n)
    (ho : (Construct.ofKind n.kind).opensScope = true) (hscope : new.scope = .node path)
    (hnew : new ∉ ds) (hnot : ¬ Resolves (new :: ds) (enclosing root place) name new) :
    Resolves (new :: ds) (enclosing root place) name d ↔
      Resolves ds (enclosing root place) name d := by
  by_cases hrel : new.scope ∈ enclosing root place ∧ new.symbol.name = name
  · obtain ⟨hs, rfl⟩ := hrel
    have hp : path.Encloses place := mem_enclosing (hscope ▸ hs)
    have hbound : ∃ e, Resolves ds (enclosing root place) new.symbol.name e ∧
        e.scope.Below path := by
      by_contra hc
      push Not at hc
      exact hnot ((resolves_new_iff hn ho hp hscope hnew).2 ⟨rfl, hc⟩)
    obtain ⟨e, he, hbelow⟩ := hbound
    obtain ⟨inner, hsplit, -⟩ := enclosing_split hn ho hp
    have hnd := enclosing_nodup root place
    have hout : e.scope ∉ enclosing root path := fun hs => not_below_of_mem_enclosing hs hbelow
    rw [hsplit, ← hscope] at hnd he ⊢
    have he' := resolves_cons_of_bound hnd he hout
    exact ⟨fun hd => he'.unique hd ▸ he, fun hd => he.unique hd ▸ he'⟩
  · exact resolves_cons_of_irrelevant hrel

end

end ParamTwin.Lexical
