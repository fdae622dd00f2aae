import Mathlib.Algebra.Group.Nat.Defs
import ParamTwin.Proofs.HarvestedContext
import ParamTwin.Proofs.StoreMap
import ParamTwin.Proofs.SummaryLayout

/-!
# Records by their keys

The key of a record is its description and its name, with a line feed between them. It does not hold
the type as a field, but the description does: a summary is one line, and the names of the procedure
and of the parameter hold no blanks, so that the key can be taken apart again.

* `NamingContext.describe_unambiguous`: a description determines its three parts.
* `CorpusRecord.Harvested.eq_of_key_eq`: a key determines its record.
* `Digest.hex_inj`: a digest can be told from its digits, so an id determines the digest of a key.
* `CorpusRecord.harvested_records_apart`: so a harvested record is never replaced by another one,
  unless two keys have the same digest.
-/

namespace ParamTwin

namespace Text

/-- Two texts are equal up to the first separator, if it stands in neither part before it. -/
theorem append_cons_inj_first {sep : Char} {a b s t : Text} (ha : sep ∉ a) (hb : sep ∉ b)
    (h : a ++ sep :: s = b ++ sep :: t) : a = b ∧ s = t := by
  induction a generalizing b with
  | nil =>
    cases b with
    | nil => exact ⟨rfl, (List.cons.inj h).2⟩
    | cons y b =>
      obtain ⟨rfl, -⟩ := List.cons.inj h
      exact absurd (.head _) hb
  | cons x a ih =>
    cases b with
    | nil =>
      obtain ⟨rfl, -⟩ := List.cons.inj h
      exact absurd (.head _) ha
    | cons y b =>
      obtain ⟨rfl, hrest⟩ := List.cons.inj h
      rw [List.mem_cons, not_or] at ha hb
      obtain ⟨rfl, rfl⟩ := ih ha.2 hb.2 hrest
      exact ⟨rfl, rfl⟩

/-- The same from the last separator on. -/
theorem append_cons_inj_last {sep : Char} {a b s t : Text} (hs : sep ∉ s) (ht : sep ∉ t)
    (h : a ++ sep :: s = b ++ sep :: t) : a = b ∧ s = t := by
  have hrev := congrArg List.reverse h
  simp only [List.reverse_append, List.reverse_cons, List.append_assoc, List.singleton_append]
    at hrev
  have hparts := append_cons_inj_first (by simpa using hs) (by simpa using ht) hrev
  simpa [and_comm] using hparts

end Text

open Text

/-! ## Descriptions and keys -/

theorem NamingContext.toList_describe (c : NamingContext) :
    c.describe.toList = "Method description: ".toList ++ (c.summary.toList ++
      '\n' :: ("Type: ".toList ++ (c.typeName.toList ++ (" in method".toList ++
        ' ' :: c.procedure.toList)))) := by
  have hfeed : "\nType: ".toList = '\n' :: "Type: ".toList := by decide
  have hblank : " in method ".toList = " in method".toList ++ [' '] := by decide
  unfold describe
  simp only [String.toList_append, List.append_assoc, hfeed, hblank, List.cons_append,
    List.nil_append]

/-- A description can be taken apart: the summary is its first line, and the procedure is what
follows the last blank. -/
theorem NamingContext.describe_unambiguous {c c' : NamingContext}
    (hsummary : '\n' ∉ c.summary.toList) (hsummary' : '\n' ∉ c'.summary.toList)
    (hprocedure : ' ' ∉ c.procedure.toList) (hprocedure' : ' ' ∉ c'.procedure.toList)
    (h : c.describe = c'.describe) : c = c' := by
  have hchars := congrArg String.toList h
  rw [toList_describe, toList_describe] at hchars
  obtain ⟨hsummaries, hrest⟩ :=
    append_cons_inj_first hsummary hsummary' (List.append_cancel_left hchars)
  have hrest := List.append_cancel_left hrest
  rw [← List.append_assoc, ← List.append_assoc] at hrest
  obtain ⟨htypes, hprocedures⟩ := append_cons_inj_last hprocedure hprocedure' hrest
  have htypes := List.append_cancel_right htypes
  cases c
  cases c'
  simp only [NamingContext.mk.injEq]
  exact ⟨String.toList_inj.1 hprocedures, String.toList_inj.1 htypes,
    String.toList_inj.1 hsummaries⟩

namespace Node

/-- The names of methods and parameters are identifiers, and identifiers hold no blanks. -/
structure SolidNames (source : Text) (root : Node) : Prop where
  names : ∀ n ∈ root.preorder, n.kind = Procedure.methodKind ∨ n.kind = "parameter" →
    ∀ x ∈ n.child? "name", x.kind = "identifier"
  solid : ∀ n ∈ root.preorder, n.kind = "identifier" → (n.text source).any isBlank = false

instance (source : Text) (root : Node) : Decidable (root.SolidNames source) :=
  decidable_of_iff (_ ∧ _) ⟨fun h => ⟨h.1, h.2⟩, fun h => ⟨h.names, h.solid⟩⟩

variable {source : Text} {root : Node}

theorem SolidNames.not_mem {x : Node} (h : root.SolidNames source) (hx : x ∈ root.preorder)
    (hkind : x.kind = "identifier") {c : Char} (hc : isBlank c = true) :
    c ∉ (x.textString source).toList := by
  intro hmem
  rw [textString, String.toList_ofList] at hmem
  exact absurd hc (List.any_eq_false.1 (h.solid x hx hkind) c hmem)

end Node

namespace CorpusRecord

/-- A record of a source in which names hold no blanks. -/
def Harvested (r : CorpusRecord) : Prop :=
  ∃ source root minNameLength, Node.SolidNames source root ∧ r ∈ extract source root minNameLength

/-- A harvested record describes one parameter, in parts that can be told apart. -/
theorem Harvested.exists_context {r : CorpusRecord} (h : Harvested r) :
    ∃ c : NamingContext, r.context = c.describe ∧ r.typeName = c.typeName ∧
      '\n' ∉ c.summary.toList ∧ ' ' ∉ c.procedure.toList ∧ '\n' ∉ r.paramName.toList := by
  obtain ⟨source, root, minNameLength, hsolid, hr⟩ := h
  obtain ⟨p, hp, q, hq, -, rfl⟩ := mem_extract_iff.1 hr
  obtain ⟨path, hpath⟩ := Procedure.mem_list_iff.1 hp
  obtain ⟨hnode, hlisted, list, hlist, hparameters⟩ := Procedure.node_of_at? hpath
  obtain ⟨name, hname, hpname, hdocumentation⟩ := Procedure.named_of_at? hpath
  have hmethod : p.node.kind = Procedure.methodKind := by
    simpa [Procedure.isListed] using hlisted
  have hinside := Node.mem_preorder_of_at? hnode
  refine ⟨{ procedure := p.name, typeName := _, summary := p.documentation }, rfl, rfl, ?_, ?_, ?_⟩
  · rw [hdocumentation, String.toList_ofList]
    exact Summary.feed_not_mem_extract _
  · rw [hpname]
    exact hsolid.not_mem
      (Node.preorder_subset hinside (Node.child_mem_preorder (Node.child?_mem hname)))
      (hsolid.names _ hinside (.inl hmethod) name hname) (by decide)
  · rw [hparameters] at hq
    show '\n' ∉ q.name.toList
    rw [Parameter.name_of_mem_collect hq]
    have hlistIn := Node.preorder_subset hinside (Node.child_mem_preorder (Node.child?_mem hlist))
    have hbinderIn := Node.preorder_subset hlistIn
      (Node.child_mem_preorder (Parameter.binder_mem hq))
    refine hsolid.not_mem (Node.preorder_subset hlistIn (Parameter.nameNode_mem hq)) ?_ (by decide)
    rcases Parameter.binder_of_mem_collect hq with ⟨hkind, hname⟩ | ⟨hname, hkind⟩
    · exact hsolid.names _ hbinderIn (.inr hkind) _ hname
    · rw [hname, hkind]

theorem toList_key (r : CorpusRecord) :
    r.key.toList = r.context.toList ++ '\n' :: r.paramName.toList := by
  have hfeed : "\n".toList = ['\n'] := by decide
  unfold key
  simp only [String.toList_append, hfeed, List.append_assoc, List.singleton_append]

/-- A key determines its record, the type included. -/
theorem Harvested.eq_of_key_eq {r r' : CorpusRecord} (h : Harvested r) (h' : Harvested r')
    (hkey : r.key = r'.key) : r = r' := by
  obtain ⟨c, hcontext, htype, hsummary, hprocedure, hname⟩ := h.exists_context
  obtain ⟨c', hcontext', htype', hsummary', hprocedure', hname'⟩ := h'.exists_context
  have hchars := congrArg String.toList hkey
  rw [toList_key, toList_key] at hchars
  obtain ⟨hcontexts, hnames⟩ := append_cons_inj_last hname hname' hchars
  have hdescribe : c.describe = c'.describe := by
    rw [← hcontext, ← hcontext', String.toList_inj.1 hcontexts]
  have hc := NamingContext.describe_unambiguous hsummary hsummary' hprocedure hprocedure' hdescribe
  cases r
  cases r'
  simp only [CorpusRecord.mk.injEq]
  exact ⟨String.toList_inj.1 hcontexts, htype.trans (hc ▸ htype'.symm), String.toList_inj.1 hnames⟩

end CorpusRecord

/-! ## Ids -/

namespace Digest

/-- Inputs of which no two have the same digest. -/
def CollisionFree (inputs : List ByteArray) : Prop :=
  ∀ a ∈ inputs, ∀ b ∈ inputs, xxh3 a = xxh3 b → a = b

theorem eq_of_digits {b n x y : Nat} (hx : x < b ^ n) (hy : y < b ^ n)
    (h : ∀ k < n, x / b ^ k % b = y / b ^ k % b) : x = y := by
  induction n generalizing x y with
  | zero =>
    rw [Nat.pow_zero] at hx hy
    omega
  | succ n ih =>
    have hlast : x % b = y % b := by simpa using h 0 (by omega)
    have hfront : x / b = y / b := by
      refine ih (Nat.div_lt_of_lt_mul ?_) (Nat.div_lt_of_lt_mul ?_) fun k hk => ?_
      · rwa [← Nat.pow_succ']
      · rwa [← Nat.pow_succ']
      · rw [Nat.div_div_eq_div_mul, Nat.div_div_eq_div_mul, ← Nat.pow_succ']
        exact h (k + 1) (by omega)
    rw [← Nat.div_add_mod x b, hfront, hlast, Nat.div_add_mod]

theorem digitChar_inj : ∀ a < 16, ∀ b < 16, Nat.digitChar a = Nat.digitChar b → a = b := by
  decide

theorem hex_inj {x y : UInt64} (h : hex x = hex y) : x = y := by
  have hdigits := List.map_inj_left.1 (String.ofList_inj.1 h)
  refine UInt64.toNat_inj.1 (eq_of_digits x.toNat_lt y.toNat_lt (n := 16) (b := 16) ?_)
  intro k hk
  have hk' := hdigits (15 - k) (List.mem_range.2 (by omega))
  rw [show 15 - (15 - k) = k by omega] at hk'
  exact digitChar_inj _ (Nat.mod_lt _ (by decide)) _ (Nat.mod_lt _ (by decide)) hk'

end Digest

namespace CorpusRecord

theorem key_eq_of_id_eq {keys : List ByteArray} (hfree : Digest.CollisionFree keys)
    {r r' : CorpusRecord} (h : r.key.toUTF8 ∈ keys) (h' : r'.key.toUTF8 ∈ keys)
    (hid : r.id = r'.id) : r.key = r'.key :=
  String.toByteArray_inj.1 (hfree _ h _ h' (Digest.hex_inj hid))

/-- The index records of records with their embeddings. -/
def entries (corpus : List (CorpusRecord × Embedding)) : List IndexRecord :=
  corpus.map fun x => x.1.toIndexRecord x.2

/-- The last entry with the id of a record is one of that record, if no other one has its id. -/
theorem latest?_entries {corpus : List (CorpusRecord × Embedding)} {r : CorpusRecord}
    (h : ∀ x ∈ corpus, x.1.id = r.id → x.1 = r) {e : IndexRecord}
    (he : IndexRecord.latest? (entries corpus) r.id = some e) :
    ∃ v, (r, v) ∈ corpus ∧ e = r.toIndexRecord v := by
  unfold IndexRecord.latest? at he
  have hid : e.id = r.id := by simpa using List.find?_some he
  have hmem := List.mem_reverse.1 (List.mem_of_find?_eq_some he)
  obtain ⟨⟨r', v⟩, hx, rfl⟩ := List.mem_map.1 hmem
  obtain rfl := h (r', v) hx hid
  exact ⟨v, hx, rfl⟩

/-- **Harvested records do not replace each other.** A key determines its record; so if no two keys
have the same digest, a record that comes into an index takes the place of the same record or of
none, and in the end each record is found under its id. -/
theorem harvested_records_apart :
    (∀ r r', Harvested r → Harvested r' → r.key = r'.key → r = r') ∧
    ∀ corpus : List (CorpusRecord × Embedding), (∀ x ∈ corpus, Harvested x.1) →
      Digest.CollisionFree (corpus.map fun x => x.1.key.toUTF8) →
      ∀ (s : Store) (before after : List (CorpusRecord × Embedding)) (r : CorpusRecord)
        (v : Embedding), corpus = before ++ (r, v) :: after →
        (∀ e, IndexRecord.latest? (entries before) r.id = some e →
          ∃ v', (r, v') ∈ before ∧ e = r.toIndexRecord v') ∧
        ∃ v', (r, v') ∈ corpus ∧
          (s.upsert (entries corpus)).get? r.id = some (r.toIndexRecord v') := by
  refine ⟨fun r r' h h' => h.eq_of_key_eq h', ?_⟩
  intro corpus hharvested hfree s before after r v hcorpus
  have hr : (r, v) ∈ corpus := by simp [hcorpus]
  have hsame : ∀ x ∈ corpus, x.1.id = r.id → x.1 = r := fun x hx hid =>
    (hharvested x hx).eq_of_key_eq (hharvested _ hr)
      (key_eq_of_id_eq hfree (List.mem_map_of_mem hx) (List.mem_map_of_mem hr) hid)
  refine ⟨fun e he => latest?_entries (fun x hx => hsame x ?_) he, ?_⟩
  · rw [hcorpus]
    exact List.mem_append_left _ hx
  · have hentry : r.toIndexRecord v ∈ entries corpus := List.mem_map.2 ⟨(r, v), hr, rfl⟩
    obtain ⟨e, he⟩ : ∃ e, IndexRecord.latest? (entries corpus) r.id = some e :=
      IndexRecord.exists_latest? hentry
    obtain ⟨v', hv', rfl⟩ := latest?_entries hsame he
    refine ⟨v', hv', ?_⟩
    rw [Store.get?_upsert, he, Option.some_or]

/-- A method with two parameters, whose summary reads like the description of another one. -/
def summarySource : Text :=
  ("/// <summary>Type: int in method F\n/// done</summary>\n" ++
    "void F(int xs, (int a, int b) ys);").toList

def summaryTree : Node :=
  .ofRows [
    .named 0 "compilation_unit" none 0 88, .named 1 "comment" none 0 34,
    .named 1 "comment" none 35 53, .named 1 "method_declaration" none 54 88,
    .named 2 "predefined_type" "returns" 54 58, .named 2 "identifier" "name" 59 60,
    .named 2 "parameter_list" "parameters" 60 87, .token 3 "(" 60, .named 3 "parameter" none 61 67,
    .named 4 "predefined_type" "type" 61 64, .named 4 "identifier" "name" 65 67, .token 3 "," 67,
    .named 3 "parameter" none 69 86, .named 4 "tuple_type" "type" 69 83,
    .named 4 "identifier" "name" 84 86, .token 3 ")" 86, .token 2 ";" 87]

def intRecord : CorpusRecord where
  context := "Method description: Type: int in method F done\nType: int in method F"
  typeName := "int"
  paramName := "xs"

def tupleRecord : CorpusRecord where
  context := "Method description: Type: int in method F done\nType: (int a, int b) in method F"
  typeName := "(int a, int b)"
  paramName := "ys"

theorem summary_records_apart :
    summaryTree.SolidNames summarySource ∧
      extract summarySource summaryTree 2 = [intRecord, tupleRecord] ∧
      let corpus := [(intRecord, [⟨0⟩]), (tupleRecord, []), (intRecord, [])]
      ∃ v, (intRecord, v) ∈ corpus ∧
        (Store.empty.upsert (entries corpus)).get? intRecord.id =
          some (intRecord.toIndexRecord v) := by
  obtain ⟨hsolid, hextract, hdigest⟩ : summaryTree.SolidNames summarySource ∧
      extract summarySource summaryTree 2 = [intRecord, tupleRecord] ∧
      Digest.xxh3 intRecord.key.toByteArray ≠ Digest.xxh3 tupleRecord.key.toByteArray := by
    decide +kernel
  refine ⟨hsolid, hextract, ?_⟩
  intro corpus
  have hharvested : ∀ x ∈ corpus, Harvested x.1 := fun x hx =>
    ⟨summarySource, summaryTree, 2, hsolid, by
      rw [hextract]
      revert x
      simp [corpus]⟩
  have hfree : Digest.CollisionFree (corpus.map fun x => x.1.key.toUTF8) := by
    simp [Digest.CollisionFree, corpus, hdigest, hdigest.symm]
  exact (harvested_records_apart.2 corpus hharvested hfree .empty [_, _] [] intRecord [] rfl).2

end CorpusRecord
end ParamTwin
