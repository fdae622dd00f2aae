import ParamTwin.Proofs.TypeLayout

/-!
# Types and their spellings

A type is a tree of paths, generic arguments, arrays, nullable values and tuples. It has many
spellings: `global::` may stand before a path, a runtime type may be written as its keyword or as
its name with or without the namespace, a nullable value as `T?` or as `Nullable<T>`, and the pieces
of all this may be laid out with any blanks.

* `TypeExpr.Spelled.shows`: the tokens of every spelling are rendered as one form, the type's `shown`.
* `TypeExpr.Spelled.joined_eq_var_iff`: only the spellings of a bare `var` are read as `var`.
* `canonical_ignores_spelling`: so the canonical form is the same for all spellings.

Rendering finds the bracket that closes `Nullable<` by counting. `Balanced` says that tokens leave
the count alone, and `Shows` adds the text they are rendered as; both are proved piece by piece.
-/

namespace ParamTwin.TypeName

open Text

/-! ## Types -/

mutual
/-- A type, whatever its spelling. -/
inductive TypeExpr where
  | named (path : Path)
  | generic (g : Generic)
  | member (outer : Generic) (path : Path)
  | array (element : TypeExpr) (commas : Nat)
  | nullable (value : TypeExpr)
  | tuple (elements : Elements)

/-- A path with type arguments, perhaps inside another such type: `Outer<T>.Inner<U>`. -/
inductive Generic where
  | apply (path : Path) (args : Args)
  | within (outer : Generic) (path : Path) (args : Args)

inductive Args where
  | one (t : TypeExpr)
  | more (t : TypeExpr) (rest : Args)

inductive Elements where
  | one (t : TypeExpr) (name : Option Name)
  | more (t : TypeExpr) (name : Option Name) (rest : Elements)
end

/-! ## Spellings -/

/-- The spellings of a runtime type: its keyword, and its name without and with the namespace. -/
def runtimeSpellings (k : String × String) : List Text :=
  [k.2.toList, k.1.toList, "System.".toList ++ k.1.toList]

/-- Two paths are spellings of one type. -/
def SameType (p q : Path) : Prop :=
  p = q ∨ ∃ k ∈ keywords, p.text ∈ runtimeSpellings k ∧ q.text ∈ runtimeSpellings k

def namePieces (name : Option Name) : List Piece :=
  name.toList.map fun n => .path false ⟨n, []⟩

mutual
/-- The pieces of a spelling. -/
def TypeExpr.Spelled : TypeExpr → List Piece → Prop
  | .named p, ps => ∃ rooted q, SameType p q ∧ ps = [.path rooted q]
  | .generic g, ps => ∃ qs, g.Spelled qs ∧ ps = qs ++ [.mark .closeArguments]
  | .member g p, ps => ∃ qs, g.Spelled qs ∧ ps = qs ++ [.mark .closeOuter] ++ [.path false p]
  | .array e commas, ps => ∃ qs, e.Spelled qs ∧
      ps = qs ++ .mark .openArray :: List.replicate commas (.mark .comma) ++ [.mark .closeArray]
  | .nullable e, ps => ∃ qs, e.Spelled qs ∧
      (ps = qs ++ [.mark .question] ∨
        ∃ rooted q, q.text ∈ ["Nullable".toList, "System.Nullable".toList] ∧
          ps = .path rooted q :: .mark .openArguments :: qs ++ [.mark .closeArguments])
  | .tuple es, ps => ∃ qs, es.Spelled qs ∧
      ps = .mark .openTuple :: qs ++ [.mark .closeTuple]

/-- The pieces of a spelling up to the last closing bracket. -/
def Generic.Spelled : Generic → List Piece → Prop
  | .apply p args, ps => ∃ rooted qs, args.Spelled qs ∧
      ps = .path rooted p :: .mark .openArguments :: qs
  | .within g p args, ps => ∃ os qs, g.Spelled os ∧ args.Spelled qs ∧
      ps = os ++ .mark .closeOuter :: .path false p :: .mark .openArguments :: qs

def Args.Spelled : Args → List Piece → Prop
  | .one t, ps => t.Spelled ps
  | .more t rest, ps => ∃ qs rs, t.Spelled qs ∧ rest.Spelled rs ∧ ps = qs ++ .mark .comma :: rs

def Elements.Spelled : Elements → List Piece → Prop
  | .one t name, ps => ∃ qs, t.Spelled qs ∧ ps = qs ++ namePieces name
  | .more t name rest, ps => ∃ qs rs, t.Spelled qs ∧ rest.Spelled rs ∧
      ps = qs ++ namePieces name ++ .mark .comma :: rs
end

/-- A text spells a type. -/
def TypeExpr.SpelledAs (e : TypeExpr) (t : Text) : Prop :=
  ∃ ps, e.Spelled ps ∧ LaysOut t (ps.flatMap Piece.lexemes)

/-! ## The form shown -/

/-- Whether a type's spellings end in a name. -/
def TypeExpr.endsInName : TypeExpr → Bool
  | .named _ | .member .. => true
  | _ => false

def applied (path args : Text) : Text :=
  if isNullable path then args ++ ['?'] else pathText path ++ '<' :: args ++ ['>']

/-- A tuple element's name behind its type. -/
def nameShown (afterName : Bool) : Option Name → Text
  | none => []
  | some n => (if afterName then [' '] else []) ++ pathText n.text

mutual
/-- The one form in which all spellings are shown. -/
def TypeExpr.shown : TypeExpr → Text
  | .named p => pathText p.text
  | .generic g => g.shown
  | .member g p => g.shown ++ '.' :: pathText p.text
  | .array e commas => e.shown ++ '[' :: (List.replicate commas [',', ' ']).flatten ++ [']']
  | .nullable e => e.shown ++ ['?']
  | .tuple es => '(' :: es.shown ++ [')']

def Generic.shown : Generic → Text
  | .apply p args => applied p.text args.shown
  | .within g p args => g.shown ++ '.' :: applied p.text args.shown

def Args.shown : Args → Text
  | .one t => t.shown
  | .more t rest => t.shown ++ [',', ' '] ++ rest.shown

def Elements.shown : Elements → Text
  | .one t name => t.shown ++ nameShown t.endsInName name
  | .more t name rest => t.shown ++ nameShown t.endsInName name ++ [',', ' '] ++ rest.shown
end

/-! ## Brackets -/

section
variable {depth : Nat} {ts : List Token}

theorem closing?_cons {x : Token} (hopen : x ≠ .mark '<') (hclose : x ≠ .mark '>') :
    closing? depth (x :: ts) = (closing? depth ts).map fun p => (x :: p.1, p.2) := by
  simp only [closing?, if_neg hclose, if_neg hopen]

theorem closing?_open :
    closing? depth (.mark '<' :: ts) =
      (closing? (depth + 1) ts).map fun p => (.mark '<' :: p.1, p.2) := by
  simp [closing?]

theorem closing?_close_zero : closing? 0 (.mark '>' :: ts) = some ([], ts) := by
  rw [closing?, if_pos rfl]

theorem closing?_close_succ :
    closing? (depth + 1) (.mark '>' :: ts) =
      (closing? depth ts).map fun p => (.mark '>' :: p.1, p.2) := by
  rw [closing?, if_pos rfl]

end

/-- The search for a closing bracket passes over the tokens. -/
def Balanced (ts : List Token) : Prop :=
  ∀ depth rest, closing? depth (ts ++ rest) = (closing? depth rest).map fun p => (ts ++ p.1, p.2)

namespace Balanced

theorem nil : Balanced [] := by
  intro depth rest
  simp

theorem append {as bs : List Token} (ha : Balanced as) (hb : Balanced bs) :
    Balanced (as ++ bs) := by
  intro depth rest
  rw [List.append_assoc, ha, hb, Option.map_map]
  simp [Function.comp_def]

theorem single {x : Token} (hopen : x ≠ .mark '<') (hclose : x ≠ .mark '>') : Balanced [x] :=
  fun _ _ => closing?_cons hopen hclose

theorem bracket {ts : List Token} (h : Balanced ts) :
    Balanced (.mark '<' :: (ts ++ [.mark '>'])) := by
  intro depth rest
  rw [List.cons_append, closing?_open, List.append_assoc, h]
  simp [closing?_close_succ, Function.comp_def]

/-- The closing bracket behind balanced tokens is the one that is found. -/
theorem closing?_eq {ts : List Token} (h : Balanced ts) (rest : List Token) :
    closing? 0 (ts ++ .mark '>' :: rest) = some (ts, rest) := by
  rw [h, closing?_close_zero]
  simp

end Balanced

/-! ## Rendering -/

@[simp] theorem render_nil : render [] = [] := by
  rw [render]

@[simp] theorem render_mark (c : Char) (ts : List Token) :
    render (.mark c :: ts) = c :: render ts := by
  rw [render]

theorem render_path (p : Text) {ts : List Token} (h : ts.head? ≠ some (.mark '<')) :
    render (.path p :: ts) = pathText p ++ render ts := by
  rw [render]
  rintro ts rfl
  simp at h

theorem render_applied {p : Text} {ts : List Token} (h : Balanced ts) (rest : List Token) :
    render (.path p :: .mark '<' :: (ts ++ .mark '>' :: rest)) =
      if isNullable p then render ts ++ '?' :: render rest
      else pathText p ++ '<' :: render (ts ++ .mark '>' :: rest) := by
  rw [render]
  split
  · split
    · rename_i inner rest' hclosing
      obtain ⟨rfl, rfl⟩ : ts = inner ∧ rest = rest' := by
        simpa [h.closing?_eq rest] using hclosing
      rfl
    · rename_i hclosing
      simp [h.closing?_eq rest] at hclosing
  · rw [render_mark]

/-- Tokens are shown as a text, whatever follows that is no opening bracket. -/
structure Shows (ts : List Token) (shown : Text) : Prop where
  balanced : Balanced ts
  rendered : ∀ rest, rest.head? ≠ some (.mark '<') → render (ts ++ rest) = shown ++ render rest

namespace Shows

theorem nil : Shows [] [] :=
  ⟨.nil, fun _ _ => rfl⟩

theorem append {as bs : List Token} {x y : Text} (ha : Shows as x) (hb : Shows bs y)
    (hopen : bs.head? ≠ some (.mark '<')) : Shows (as ++ bs) (x ++ y) := by
  refine ⟨ha.balanced.append hb.balanced, fun rest hrest => ?_⟩
  have hhead : (bs ++ rest).head? ≠ some (.mark '<') := by
    cases bs with
    | nil => exact hrest
    | cons b bs => exact hopen
  rw [List.append_assoc, ha.rendered _ hhead, hb.rendered rest hrest, List.append_assoc]

theorem marks_append {u : Text} (hu : ∀ c ∈ u, c ≠ '<' ∧ c ≠ '>') {ts : List Token} {x : Text}
    (h : Shows ts x) : Shows (u.map .mark ++ ts) (u ++ x) := by
  induction u with
  | nil => exact h
  | cons c u ih =>
    have hc := hu c List.mem_cons_self
    have hrest := ih fun d hd => hu d (List.mem_cons_of_mem c hd)
    have hopen : Token.mark c ≠ .mark '<' := by simpa using hc.1
    have hclose : Token.mark c ≠ .mark '>' := by simpa using hc.2
    refine ⟨(Balanced.single hopen hclose).append hrest.balanced, fun rest hhead => ?_⟩
    rw [List.map_cons, List.cons_append, List.cons_append, render_mark, hrest.rendered rest hhead]
    rfl

theorem marks {u : Text} (hu : ∀ c ∈ u, c ≠ '<' ∧ c ≠ '>') : Shows (u.map .mark) u := by
  simpa using marks_append hu nil

theorem path (p : Text) : Shows [.path p] (pathText p) :=
  ⟨.single (by simp) (by simp), fun _ hrest => render_path p hrest⟩

theorem applied {p : Text} {ts : List Token} {x : Text} (h : Shows ts x) :
    Shows (.path p :: .mark '<' :: (ts ++ [.mark '>'])) (applied p x) := by
  refine ⟨(Balanced.single (by simp) (by simp)).append h.balanced.bracket, fun rest _ => ?_⟩
  have hwhole : render ts = x := by simpa using h.rendered [] (by simp)
  have hinside : render (ts ++ .mark '>' :: rest) = x ++ '>' :: render rest := by
    rw [h.rendered _ (by simp), render_mark]
  simp only [List.cons_append, List.append_assoc, List.nil_append]
  rw [render_applied h.balanced, hwhole, hinside, TypeName.applied]
  split <;> simp

end Shows

/-! ## All spellings are shown alike -/

theorem pathText_runtime : ∀ k ∈ keywords, ∀ s ∈ runtimeSpellings k, pathText s = k.2.toList := by
  decide

theorem SameType.pathText_eq {p q : Path} (h : SameType p q) :
    pathText q.text = pathText p.text := by
  rcases h with rfl | ⟨k, hk, hp, hq⟩
  · rfl
  · rw [pathText_runtime k hk _ hp, pathText_runtime k hk _ hq]

theorem Piece.endsSolid_path (rooted : Bool) (p : Path) : EndsSolid (Piece.path rooted p).text :=
  p.endsSolid_text.append _

/-- The last piece of a type is a path or a mark according to the type, and no comma. -/
theorem TypeExpr.Spelled.exists_last {e : TypeExpr} {ps : List Piece} (h : e.Spelled ps) :
    ∃ qs q, ps = qs ++ [q] ∧ q.isPath = e.endsInName ∧ EndsSolid q.text := by
  cases e with
  | named p =>
    obtain ⟨rooted, q, -, rfl⟩ := h
    exact ⟨[], _, rfl, rfl, Piece.endsSolid_path rooted q⟩
  | generic g =>
    obtain ⟨qs, -, rfl⟩ := h
    exact ⟨_, _, rfl, rfl, by decide⟩
  | member g p =>
    obtain ⟨qs, -, rfl⟩ := h
    exact ⟨_, _, rfl, rfl, Piece.endsSolid_path false p⟩
  | array e commas =>
    obtain ⟨qs, -, rfl⟩ := h
    exact ⟨_, _, rfl, rfl, by decide⟩
  | nullable e =>
    obtain ⟨qs, -, rfl | ⟨rooted, q, -, rfl⟩⟩ := h
    · exact ⟨_, _, rfl, rfl, by decide⟩
    · exact ⟨_, _, rfl, rfl, by decide⟩
  | tuple es =>
    obtain ⟨qs, -, rfl⟩ := h
    exact ⟨_, _, rfl, rfl, by decide⟩

theorem TypeExpr.Spelled.endsPath_eq {e : TypeExpr} {ps : List Piece} (h : e.Spelled ps) :
    endsPath false ps = e.endsInName := by
  obtain ⟨qs, q, rfl, hq, -⟩ := h.exists_last
  rw [endsPath_append_singleton, hq]

theorem shows_namePieces (after : Bool) (name : Option Name) :
    Shows (tokenized after (namePieces name)) (nameShown after name) := by
  cases name with
  | none => exact .nil
  | some n =>
    have htext : (Path.mk n []).text = n.text := by simp [Path.text]
    cases after with
    | false => simpa [namePieces, nameShown, htext] using Shows.path n.text
    | true =>
      simpa [namePieces, nameShown, htext] using
        Shows.marks_append (u := [' ']) (by simp) (Shows.path n.text)

theorem head?_namePieces (after : Bool) (name : Option Name) :
    (tokenized after (namePieces name)).head? ≠ some (.mark '<') := by
  cases name with
  | none => simp [namePieces]
  | some n => cases after <;> simp [namePieces]

-- The four inductions follow the type. A generic type's tokens are balanced only with the bracket
-- that closes it, which may be followed by a dot, so it is added behind the pieces.
mutual
theorem TypeExpr.Spelled.shows {e : TypeExpr} {ps : List Piece} (h : e.Spelled ps) :
    Shows (tokenized false ps) e.shown := by
  cases e with
  | named p =>
    obtain ⟨rooted, q, hq, rfl⟩ := h
    simpa [TypeExpr.shown, hq.pathText_eq] using Shows.path q.text
  | generic g =>
    obtain ⟨qs, hqs, rfl⟩ := h
    simpa [TypeExpr.shown, tokenized_append, Mark.text, Mark.chars] using hqs.shows
  | member g p =>
    obtain ⟨qs, hqs, rfl⟩ := h
    have hdot := Shows.marks_append (u := ['.']) (by simp) (Shows.path p.text)
    simpa [TypeExpr.shown, tokenized_append, Mark.text, Mark.chars] using
      hqs.shows.append hdot (by simp)
  | array e commas =>
    obtain ⟨qs, hqs, rfl⟩ := h
    have hrank : Shows (('[' :: (List.replicate commas [',', ' ']).flatten ++ [']']).map .mark) _ :=
      .marks (by simp [or_imp, forall_and])
    have happend := hqs.shows.append hrank (by simp)
    simpa [TypeExpr.shown, tokenized_append, Mark.text, Mark.chars] using happend
  | nullable e =>
    obtain ⟨qs, hqs, rfl | ⟨rooted, q, hq, rfl⟩⟩ := h
    · have hmark : Shows (['?'].map .mark) ['?'] := .marks (by simp)
      simpa [TypeExpr.shown, tokenized_append, Mark.text, Mark.chars] using
        hqs.shows.append hmark (by simp)
    · have hnullable : isNullable q.text = true := by
        simpa [isNullable] using hq
      simpa [TypeExpr.shown, tokenized_append, Mark.text, Mark.chars, applied, hnullable] using
        hqs.shows.applied (p := q.text)
  | tuple es =>
    obtain ⟨qs, hqs, rfl⟩ := h
    have hclose : Shows ([')'].map .mark) [')'] := .marks (by simp)
    simpa [TypeExpr.shown, tokenized_append, Mark.text, Mark.chars] using
      Shows.marks_append (u := ['(']) (by simp) (hqs.shows.append hclose (by simp))

theorem Generic.Spelled.shows {g : Generic} {ps : List Piece} (h : g.Spelled ps) :
    Shows (tokenized false ps ++ [.mark '>']) g.shown := by
  cases g with
  | apply p args =>
    obtain ⟨rooted, qs, hqs, rfl⟩ := h
    simpa [Generic.shown, Mark.text, Mark.chars] using hqs.shows.applied
  | within g p args =>
    obtain ⟨os, qs, hos, hqs, rfl⟩ := h
    have hdot := Shows.marks_append (u := ['.']) (by simp) (hqs.shows.applied (p := p.text))
    simpa [Generic.shown, tokenized_append, Mark.text, Mark.chars] using
      hos.shows.append hdot (by simp)

theorem Args.Spelled.shows {args : Args} {ps : List Piece} (h : args.Spelled ps) :
    Shows (tokenized false ps) args.shown := by
  cases args with
  | one t => exact TypeExpr.Spelled.shows (e := t) h
  | more t rest =>
    obtain ⟨qs, rs, hqs, hrs, rfl⟩ := h
    have hcomma := Shows.marks_append (u := [',', ' ']) (by simp) hrs.shows
    simpa [Args.shown, tokenized_append, Mark.text] using hqs.shows.append hcomma (by simp)

theorem Elements.Spelled.shows {es : Elements} {ps : List Piece} (h : es.Spelled ps) :
    Shows (tokenized false ps) es.shown := by
  cases es with
  | one t name =>
    obtain ⟨qs, hqs, rfl⟩ := h
    rw [tokenized_append, hqs.endsPath_eq]
    exact hqs.shows.append (shows_namePieces _ name) (head?_namePieces _ name)
  | more t name rest =>
    obtain ⟨qs, rs, hqs, hrs, rfl⟩ := h
    have helement := hqs.shows.append (shows_namePieces t.endsInName name) (head?_namePieces _ name)
    have hcomma := Shows.marks_append (u := [',', ' ']) (by simp) hrs.shows
    rw [tokenized_append, tokenized_append, hqs.endsPath_eq, tokenized_mark]
    simpa [Elements.shown, Mark.text] using helement.append hcomma (by simp)
end

/-! ## The canonical form -/

/-- A bare `var`, which names no type. -/
def TypeExpr.isVar : TypeExpr → Bool
  | .named p => p.text == "var".toList
  | _ => false

theorem var_not_runtime : ∀ k ∈ keywords, "var".toList ∉ runtimeSpellings k := by
  decide

theorem SameType.eq_var_iff {p q : Path} (h : SameType p q) :
    q.text = "var".toList ↔ p.text = "var".toList := by
  rcases h with rfl | ⟨k, hk, hp, hq⟩
  · rfl
  · have hvar := var_not_runtime k hk
    exact ⟨fun h => absurd (h ▸ hq) hvar, fun h => absurd (h ▸ hp) hvar⟩

theorem joined_ne_var {m : Mark} {ps : List Piece} (hm : .mark m ∈ ps) :
    joined false ps ≠ "var".toList := by
  intro h
  obtain ⟨c, w, hw, -⟩ := m.text_eq_cons
  have hc : c ∈ m.text := by simp [hw]
  have hpunctuation := isNameChar_punctuation c (m.mem_punctuation c hc).1
  have hletters : ∀ d ∈ "var".toList, isNameChar d = true := List.all_eq_true.1 (by decide)
  have hmem : c ∈ "var".toList := h ▸ mem_joined_of_mark hm hc false
  rw [hletters c hmem] at hpunctuation
  cases hpunctuation

theorem TypeExpr.Spelled.joined_eq_var_iff {e : TypeExpr} {ps : List Piece} (h : e.Spelled ps) :
    joined false (ps.map Piece.unrooted) = "var".toList ↔ e.isVar = true := by
  have hmark : ∀ m, Piece.mark m ∈ ps → joined false (ps.map Piece.unrooted) ≠ "var".toList :=
    fun m hm => joined_ne_var (List.mem_map_of_mem (f := Piece.unrooted) hm)
  cases e with
  | named p =>
    obtain ⟨rooted, q, hq, rfl⟩ := h
    simpa [joined, parting, Piece.text, Piece.unrooted, isVar] using hq.eq_var_iff
  | generic g =>
    obtain ⟨qs, -, rfl⟩ := h
    simpa [isVar] using hmark .closeArguments (by simp)
  | member g p =>
    obtain ⟨qs, -, rfl⟩ := h
    simpa [isVar] using hmark .closeOuter (by simp)
  | array e commas =>
    obtain ⟨qs, -, rfl⟩ := h
    simpa [isVar] using hmark .closeArray (by simp)
  | nullable e =>
    obtain ⟨qs, -, rfl | ⟨rooted, q, -, rfl⟩⟩ := h
    · simpa [isVar] using hmark .question (by simp)
    · simpa [isVar] using hmark .closeArguments (by simp)
  | tuple es =>
    obtain ⟨qs, -, rfl⟩ := h
    simpa [isVar] using hmark .closeTuple (by simp)

theorem TypeExpr.SpelledAs.canonical_eq {e : TypeExpr} {t : Text} (h : e.SpelledAs t) :
    canonical t = if e.isVar then none else some (String.ofList e.shown) := by
  obtain ⟨ps, hps, hlayout⟩ := h
  have hrender : render (tokenized false ps) = e.shown := by
    simpa using hps.shows.rendered [] (by simp)
  have hvar := hps.joined_eq_var_iff
  obtain ⟨qs, q, rfl, -, hsolid⟩ := hps.exists_last
  have hne : joined false ((qs ++ [q]).map Piece.unrooted) ≠ [] := joined_ne_nil (by simp) false
  rw [canonical, erase_squeeze_of_laysOut hlayout hsolid]
  simp only [tokens_joined, hrender, List.isEmpty_iff, Bool.or_eq_true, beq_iff_eq, hne, hvar,
    false_or]

theorem canonical_of_blank {t : Text} (h : LaysOut t []) : canonical t = none := by
  have hsqueeze : squeeze t = trimEnd (joined false []) := squeeze_of_laysOut h
  rw [canonical, hsqueeze]
  rfl

/-- **The canonical form does not depend on the spelling.** All spellings of a type have one
canonical form, which is none exactly for a bare `var`. A text of blanks has none either. -/
theorem canonical_ignores_spelling (e : TypeExpr) (s t : Text) (hs : e.SpelledAs s)
    (ht : e.SpelledAs t) :
    canonical s = canonical t ∧
      canonical s = (if e.isVar then none else some (String.ofList e.shown)) ∧
      ∀ blanks, LaysOut blanks [] → canonical blanks = none :=
  ⟨hs.canonical_eq.trans ht.canonical_eq.symm, hs.canonical_eq, fun _ => canonical_of_blank⟩

def simplePath (s : String) (h : s.toList ≠ [] ∧ s.toList.all isNameChar = true) : Path :=
  ⟨⟨s.toList, h.1, List.all_eq_true.1 h.2⟩, []⟩

/-- `(bool? flag, string)[,]` -/
def sampleType : TypeExpr :=
  .array (.tuple (.more (.nullable (.named (simplePath "bool" (by decide))))
    (some (simplePath "flag" (by decide)).first)
    (.one (.named (simplePath "string" (by decide))) none))) 1

def sampleTight : Text := "(bool? flag,string)[,]".toList

def sampleSpread : Text :=
  "( Nullable < Boolean > flag , global :: System . String ) [ , ]\n".toList

theorem sampleType_tight : sampleType.SpelledAs sampleTight :=
  ⟨_, ⟨_, ⟨_, ⟨_, _, ⟨_, ⟨false, _, .inl rfl, rfl⟩, .inl rfl⟩,
    ⟨_, ⟨false, _, .inl rfl, rfl⟩, rfl⟩, rfl⟩, rfl⟩, rfl⟩,
    [([], ['(']), ([], "bool".toList), ([], ['?']), ([' '], "flag".toList), ([], [',']),
      ([], "string".toList), ([], [')']), ([], ['[']), ([], [',']), ([], [']'])], [],
    by decide +kernel, rfl, rfl, rfl⟩

theorem sampleType_spread : sampleType.SpelledAs sampleSpread :=
  ⟨_, ⟨_, ⟨_, ⟨_, _,
    ⟨_, ⟨false, simplePath "Boolean" (by decide), .inr ⟨("Boolean", "bool"), by decide⟩, rfl⟩,
      .inr ⟨false, simplePath "Nullable" (by decide), by decide, rfl⟩⟩,
    ⟨_, ⟨true, ⟨(simplePath "System" (by decide)).first, [(simplePath "String" (by decide)).first]⟩,
      .inr ⟨("String", "string"), by decide⟩, rfl⟩, rfl⟩, rfl⟩, rfl⟩, rfl⟩,
    [([], ['(']), ([' '], "Nullable".toList), ([' '], ['<']), ([' '], "Boolean".toList),
      ([' '], ['>']), ([' '], "flag".toList), ([' '], [',']), ([' '], "global".toList),
      ([' '], "::".toList), ([' '], "System".toList), ([' '], ['.']), ([' '], "String".toList),
      ([' '], [')']), ([' '], ['[']), ([' '], [',']), ([' '], [']'])], ['\n'],
    by decide, rfl, rfl, by decide⟩

theorem sampleType_canonical :
    sampleType.SpelledAs sampleTight ∧ sampleType.SpelledAs sampleSpread ∧
      canonical sampleTight = canonical sampleSpread ∧
      canonical sampleTight = some "(bool?flag, string)[, ]" ∧ canonical "\t ".toList = none := by
  obtain ⟨heq, hshown, hblank⟩ :=
    canonical_ignores_spelling sampleType _ _ sampleType_tight sampleType_spread
  exact ⟨sampleType_tight, sampleType_spread, heq, hshown, hblank _ ⟨[], _, rfl, rfl, rfl, rfl⟩⟩

end ParamTwin.TypeName
