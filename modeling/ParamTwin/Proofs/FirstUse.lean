import ParamTwin.Duplicate.Usage
import ParamTwin.Proofs.DocumentOrder

/-!
# The place of the first use

The search for the statement to duplicate carries an anchor down the tree. Seen from the node that
it finds, the anchor is found by a climb: it is the nearest node around it that stands directly in
a block or switch section (`Usage.anchorOf_eq`). So the statement is given by the first use in
document order (`FirstAt`) and the nearest such position around it (`Nearest`), and there is none
if the node there is no statement (`Usage.locateBy_eq_some_iff`, `Usage.locateBy_eq_none_iff`).
-/

namespace ParamTwin.Usage

/-! ## The climb -/

/-- Whether a position is that of a direct child of a block or switch section. -/
def standsAt (root : Node) : Path → Bool
  | [] => false
  | _ :: path => (root.at? path).any (Kind.holdsStatements ·.kind)

/-- The nearest position at or around a place that is in a block or switch section. -/
def nearest? (root : Node) : Path → Option Path
  | [] => none
  | k :: path => if standsAt root (k :: path) then some (k :: path) else nearest? root path

structure Nearest (root : Node) (inner place : Path) : Prop where
  around : inner <:+ place
  stands : standsAt root inner = true
  between : ∀ mid, inner.Encloses mid → mid <:+ place → standsAt root mid = false

section
variable {root : Node} {inner place : Path}

theorem nearest_self (h : standsAt root place = true) :
    Nearest root inner place ↔ place = inner := by
  constructor
  · intro hn
    by_contra hne
    have := hn.between place ⟨hn.around, Ne.symm hne⟩ List.suffix_rfl
    simp [h] at this
  · rintro rfl
    exact ⟨List.suffix_rfl, h, fun mid hmid hle => absurd (hmid.1.eq_of_length_le hle.length_le)
      hmid.2⟩

theorem nearest_cons {k : Nat} (h : standsAt root (k :: place) = false) :
    Nearest root inner (k :: place) ↔ Nearest root inner place := by
  constructor
  · intro hn
    have haround : inner <:+ place := by
      rcases List.suffix_cons_iff.1 hn.around with rfl | haround
      · simp [hn.stands] at h
      · exact haround
    exact ⟨haround, hn.stands, fun mid hmid hle =>
      hn.between mid hmid (hle.trans (List.suffix_cons k place))⟩
  · intro hn
    refine ⟨hn.around.trans (List.suffix_cons k place), hn.stands, fun mid hmid hle => ?_⟩
    rcases List.suffix_cons_iff.1 hle with rfl | hle
    · exact h
    · exact hn.between mid hmid hle

theorem nearest?_eq_some_iff : nearest? root place = some inner ↔ Nearest root inner place := by
  induction place with
  | nil =>
    refine ⟨nofun, fun h => ?_⟩
    have hstands := h.stands
    rw [List.suffix_nil.1 h.around] at hstands
    cases hstands
  | cons k place ih =>
    rw [nearest?]
    cases hk : standsAt root (k :: place) with
    | true => rw [if_pos rfl, Option.some.injEq, nearest_self hk]
    | false => rw [if_neg nofun, nearest_cons hk, ih]

theorem exists_nearest (hroot : Kind.holdsStatements root.kind = true) (hplace : place ≠ []) :
    ∃ inner, Nearest root inner place := by
  induction place with
  | nil => exact absurd rfl hplace
  | cons k place ih =>
    cases hk : standsAt root (k :: place) with
    | true => exact ⟨_, (nearest_self hk).2 rfl⟩
    | false =>
      have hne : place ≠ [] := by
        rintro rfl
        simp [standsAt, hroot] at hk
      obtain ⟨inner, hinner⟩ := ih hne
      exact ⟨inner, (nearest_cons hk).2 hinner⟩

end

/-! ## The search -/

/-- What the search finds in a subtree, seen from the whole tree. -/
def found (test : Node → Bool) (root : Node) (xs : List (Path × Node)) : Option (Option Node) :=
  (xs.find? fun x => x.2.kind == "identifier" && test x.2).map fun x =>
    (nearest? root x.1).bind root.at?

theorem found_append (test : Node → Bool) (root : Node) (xs ys : List (Path × Node)) :
    found test root (xs ++ ys) = (found test root xs).or (found test root ys) := by
  simp [found, List.find?_append, Option.map_or]

section
variable {test : Node → Bool} {root : Node}

theorem anchorAmong_eq {n : Node} {path : Path} (hn : root.at? path = some n) {ns : List Node}
    (ih : ∀ c ∈ ns, ∀ place, root.at? place = some c →
      anchorOf test ((nearest? root place).bind root.at?) c =
        found test root (Node.placedFrom place c)) {k : Nat} (hns : n.children.drop k = ns) :
    anchorAmong test (Kind.holdsStatements n.kind) ((nearest? root path).bind root.at?) ns =
      found test root (Node.placedAmong path k ns) := by
  induction ns generalizing k with
  | nil => simp [anchorAmong, Node.placedAmong, found]
  | cons c ns ihs =>
    obtain ⟨hc, hrest⟩ := Node.child_of_drop hns
    have hplace : root.at? (k :: path) = some c := (Node.at?_child hn k).trans hc
    -- The anchor handed to a child is the one that a climb from the child finds.
    have hanchor : (if Kind.holdsStatements n.kind = true then some c
        else (nearest? root path).bind root.at?) = (nearest? root (k :: path)).bind root.at? := by
      simp only [nearest?, standsAt, hn, Option.any_some]
      split
      · exact hplace.symm
      · rfl
    rw [anchorAmong, Node.placedAmong, found_append, hanchor, ih c (.head _) _ hplace,
      ihs (fun c hc => ih c (.tail _ hc)) hrest]
    cases found test root (Node.placedFrom (k :: path) c) <;> rfl

/-- The search finds the first identifier that passes the test, and with it the nearest node around
it in a block or switch section. -/
theorem anchorOf_eq {n : Node} {path : Path} (hn : root.at? path = some n) :
    anchorOf test ((nearest? root path).bind root.at?) n =
      found test root (Node.placedFrom path n) := by
  induction n using Node.induction generalizing path with
  | step n ih =>
    have hamong := anchorAmong_eq hn (k := 0) (fun c hc place hplace => ih c hc hplace) rfl
    rw [Node.placedFrom_eq]
    obtain ⟨row, kind, field, marks, span, children⟩ := n
    rw [anchorOf, found, List.find?_cons]
    split
    · rename_i htest
      simp [htest]
    · rename_i htest
      simp only [htest]
      exact hamong

end

/-! ## The statement -/

/-- The first node of a tree that passes the test, in document order, with its position. -/
def FirstAt (test : Node → Bool) (root : Node) (place : Path) (r : Node) : Prop :=
  ∃ before after, root.placed = before ++ (place, r) :: after ∧ test r = true ∧
    ∀ x ∈ before, test x.2 = false

/-- The search for a statement by any test; `locate?` is the search by `isUse`. -/
def locateBy (test : Node → Bool) (body : Option Node) : Option Node :=
  body.bind fun b => (anchorOf test none b).bind fun anchor =>
    anchor.filter (Kind.isStatement ·.kind)

theorem locate?_eq (m : Model) (body : Option Node) (name : String) (symbol : Nat) :
    locate? m body name symbol = locateBy (isUse m name symbol) body := rfl

theorem kind_of_reference? {m : Model} {n : Node} {symbol : Nat}
    (h : m.reference? n = some symbol) : n.kind = "identifier" := by
  rw [Model.reference?] at h
  split at h
  · rename_i hk
    exact eq_of_beq hk
  · cases h

theorem kind_of_isUse {m : Model} {name : String} {symbol : Nat} {n : Node}
    (h : isUse m name symbol n = true) : n.kind = "identifier" := by
  simp only [isUse, Bool.and_eq_true, beq_iff_eq] at h
  exact kind_of_reference? h.2

section
variable {test : Node → Bool} {body s : Node} {place : Path} {r : Node}

theorem FirstAt.at? (h : FirstAt test body place r) : body.at? place = some r := by
  obtain ⟨before, after, heq, -⟩ := h
  exact Node.mem_placed_iff.1 (by rw [heq]; simp)

theorem FirstAt.passes (h : FirstAt test body place r) : test r = true := by
  obtain ⟨-, -, -, hr, -⟩ := h
  exact hr

theorem find?_placed_eq_some_iff :
    body.placed.find? (test ·.2) = some (place, r) ↔ FirstAt test body place r := by
  rw [List.find?_eq_some_iff_append]
  constructor
  · rintro ⟨hr, before, after, heq, hbefore⟩
    exact ⟨before, after, heq, hr, fun x hx => by simpa using hbefore x hx⟩
  · rintro ⟨before, after, heq, hr, hbefore⟩
    exact ⟨hr, before, after, heq, fun x hx => by simpa using hbefore x hx⟩

theorem locateBy_eq (htest : ∀ n, test n = true → n.kind = "identifier") :
    locateBy test (some body) = ((body.placed.find? (test ·.2)).bind fun x =>
      (nearest? body x.1).bind body.at?).filter (Kind.isStatement ·.kind) := by
  have hfind : body.placed.find? (fun x => x.2.kind == "identifier" && test x.2) =
      body.placed.find? (test ·.2) := by
    congr 1
    funext x
    cases hx : test x.2 with
    | false => simp
    | true => simp [htest x.2 hx]
  have hanchor : anchorOf test none body = found test body body.placed :=
    anchorOf_eq (Node.at?_nil body)
  rw [locateBy, Option.bind_some, hanchor, found, hfind]
  cases body.placed.find? (test ·.2) <;> rfl

/-- The statement found is the nearest node around the first use that stands in a block or switch
section, if it is a statement. -/
theorem locateBy_eq_some_iff (htest : ∀ n, test n = true → n.kind = "identifier")
    {body : Option Node} :
    locateBy test body = some s ↔ Kind.isStatement s.kind = true ∧ ∃ b place r inner,
      body = some b ∧ FirstAt test b place r ∧ Nearest b inner place ∧ b.at? inner = some s := by
  cases body with
  | none => simp [locateBy]
  | some body =>
    rw [locateBy_eq htest, Option.filter_eq_some_iff, and_comm, Option.bind_eq_some_iff]
    refine and_congr_right fun _ => ?_
    constructor
    · rintro ⟨⟨place, r⟩, hfind, h⟩
      obtain ⟨inner, hinner, hs⟩ := Option.bind_eq_some_iff.1 h
      exact ⟨body, place, r, inner, rfl, find?_placed_eq_some_iff.1 hfind,
        nearest?_eq_some_iff.1 hinner, hs⟩
    · rintro ⟨b, place, r, inner, hb, hfirst, hnearest, hs⟩
      cases hb
      refine ⟨(place, r), find?_placed_eq_some_iff.2 hfirst, ?_⟩
      rw [nearest?_eq_some_iff.2 hnearest, Option.bind_some, hs]

/-- In a block no statement is found iff nothing passes the test or the node nearest to the first
use that stands in a block or switch section is no statement. -/
theorem locateBy_eq_none_iff (htest : ∀ n, test n = true → n.kind = "identifier")
    (hbody : body.kind = "block") :
    locateBy test (some body) = none ↔ (∀ n ∈ body.preorder, test n = false) ∨
      ∃ place r inner s, FirstAt test body place r ∧ Nearest body inner place ∧
        body.at? inner = some s ∧ Kind.isStatement s.kind = false := by
  rw [locateBy_eq htest]
  cases hfind : body.placed.find? (test ·.2) with
  | none =>
    refine iff_of_true rfl (.inl fun n hn => ?_)
    obtain ⟨place, hplace⟩ := Node.mem_preorder_iff.1 hn
    simpa using List.find?_eq_none.1 hfind (place, n) (Node.mem_placed_iff.2 hplace)
  | some x =>
    obtain ⟨place, r⟩ := x
    have hfirst := find?_placed_eq_some_iff.1 hfind
    have hne : place ≠ [] := by
      rintro rfl
      cases hfirst.at?
      simp [htest _ hfirst.passes] at hbody
    have hholds : Kind.holdsStatements body.kind = true := by simp [Kind.holdsStatements, hbody]
    obtain ⟨inner, hnearest⟩ := exists_nearest hholds hne
    obtain ⟨s, hs, -⟩ := Node.exists_around hnearest.around hfirst.at?
    rw [Option.bind_some, nearest?_eq_some_iff.2 hnearest, Option.bind_some, hs,
      Option.filter_some]
    constructor
    · intro h
      refine .inr ⟨place, r, inner, s, hfirst, hnearest, hs, ?_⟩
      simpa using h
    · rintro (hnone | ⟨place', r', inner', s', hfirst', hnearest', hs', hkind⟩)
      · have := hnone r (Node.mem_preorder_of_at? hfirst.at?)
        simp [hfirst.passes] at this
      · cases hfind.symm.trans (find?_placed_eq_some_iff.2 hfirst')
        cases (nearest?_eq_some_iff.2 hnearest).symm.trans (nearest?_eq_some_iff.2 hnearest')
        cases hs.symm.trans hs'
        simp [hkind]

end
end ParamTwin.Usage
