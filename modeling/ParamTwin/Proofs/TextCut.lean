import ParamTwin.Text.Basic
import Mathlib.Data.List.Basic

/-!
# Cutting texts at byte offsets

A byte offset is a boundary of a text if some front part of the text has that size, and there is at
most one such part, because no character is empty. So cutting at the size of a front part gives that
part (`Text.splitAt?_append`), and front parts compare as their sizes do
(`Text.exists_append_of_byteSize_le`).
-/

namespace ParamTwin.Text

theorem byteSize_eq_zero {t : Text} : byteSize t = 0 ↔ t = [] := by
  cases t with
  | nil => simp
  | cons c cs =>
    have := c.utf8Size_pos
    simp only [byteSize_cons, reduceCtorEq, iff_false]
    omega

theorem splitAt?_cons {c : Char} {n : Nat} (h : c.utf8Size ≤ n) (cs : Text) :
    splitAt? n (c :: cs) = (splitAt? (n - c.utf8Size) cs).map fun (a, b) => (c :: a, b) := by
  have := c.utf8Size_pos
  cases n with
  | zero => omega
  | succ n => rw [splitAt?, if_pos h]

/-- A text is cut at the size of each of its front parts. -/
theorem splitAt?_append (a b : Text) : splitAt? (byteSize a) (a ++ b) = some (a, b) := by
  induction a with
  | nil => cases b <;> rfl
  | cons c a ih =>
    rw [List.cons_append, splitAt?_cons (by simp) (a ++ b), byteSize_cons,
      Nat.add_sub_cancel_left, ih]
    rfl

theorem splitAt?_eq_some_iff {n : Nat} {t a b : Text} :
    splitAt? n t = some (a, b) ↔ t = a ++ b ∧ byteSize a = n := by
  constructor
  · exact append_of_splitAt?
  · rintro ⟨rfl, rfl⟩
    exact splitAt?_append a b

theorem isBoundary_iff {t : Text} {n : Nat} :
    isBoundary t n = true ↔ ∃ a b, t = a ++ b ∧ byteSize a = n := by
  simp only [isBoundary, Option.isSome_iff_exists, Prod.exists, splitAt?_eq_some_iff]

/-- A boundary behind a front part is one of the remaining text. -/
theorem isBoundary_append {a b : Text} {n : Nat} (h : byteSize a ≤ n) :
    isBoundary (a ++ b) n = isBoundary b (n - byteSize a) := by
  induction a generalizing n with
  | nil => simp
  | cons c a ih =>
    rw [byteSize_cons] at h
    have hcut := splitAt?_cons (show c.utf8Size ≤ n by omega) (a ++ b)
    have hrest := ih (show byteSize a ≤ n - c.utf8Size by omega)
    rw [byteSize_cons, Nat.sub_add_eq, ← hrest, List.cons_append]
    simp only [isBoundary, hcut, Option.isSome_map]

/-- Of two front parts of a text, the one that is not larger is a front part of the other. -/
theorem exists_append_of_byteSize_le {a b a' b' : Text} (h : a ++ b = a' ++ b')
    (hle : byteSize a ≤ byteSize a') : ∃ m, a' = a ++ m ∧ b = m ++ b' := by
  rcases List.append_eq_append_iff.1 h with ⟨m, rfl, rfl⟩ | ⟨m, rfl, rfl⟩
  · exact ⟨m, rfl, rfl⟩
  · have hm : m = [] := by
      rw [byteSize_append] at hle
      exact byteSize_eq_zero.1 (by omega)
    subst hm
    exact ⟨[], by simp, by simp⟩

/-- A text has one front part of each size. -/
theorem append_inj_of_byteSize {a b a' b' : Text} (h : a ++ b = a' ++ b')
    (hs : byteSize a = byteSize a') : a = a' ∧ b = b' := by
  obtain ⟨m, rfl, rfl⟩ := exists_append_of_byteSize_le h (Nat.le_of_eq hs)
  have hm : m = [] := by
    rw [byteSize_append] at hs
    exact byteSize_eq_zero.1 (by omega)
  simp [hm]

/-- A span covers the piece that stands at its start and has its size. -/
theorem at?_eq_some_iff {t lit : Text} {s : Span} :
    t.at? s = some lit ↔ ∃ pre post, t = pre ++ lit ++ post ∧
      s = ⟨byteSize pre, byteSize pre + byteSize lit⟩ := by
  constructor
  · intro h
    rw [at?, slice?] at h
    split at h
    · obtain ⟨⟨before, post⟩, hcut, h⟩ := Option.bind_eq_some_iff.1 h
      obtain ⟨⟨pre, piece⟩, hcut', h⟩ := Option.bind_eq_some_iff.1 h
      cases h
      obtain ⟨rfl, hstop⟩ := append_of_splitAt? hcut
      obtain ⟨rfl, hstart⟩ := append_of_splitAt? hcut'
      rw [byteSize_append] at hstop
      exact ⟨pre, post, rfl, by rw [hstop, hstart]⟩
    · cases h
  · rintro ⟨pre, post, rfl, rfl⟩
    rw [at?, slice?, if_pos (Nat.le_add_right ..), ← byteSize_append, splitAt?_append]
    simp [splitAt?_append]

theorem eq_of_at?_eq_some {t lit pre piece post : Text} {s : Span} (h : t.at? s = some lit)
    (ht : t = pre ++ piece ++ post) (hs : s = ⟨byteSize pre, byteSize pre + byteSize piece⟩) :
    piece = lit :=
  Option.some.inj ((at?_eq_some_iff.2 ⟨pre, post, ht, hs⟩).symm.trans h)

theorem isSome_slice?_iff {t : Text} {start stop : Nat} :
    (slice? t start stop).isSome = true ↔
      start ≤ stop ∧ isBoundary t start = true ∧ isBoundary t stop = true := by
  simp only [isBoundary_iff]
  constructor
  · intro h
    obtain ⟨piece, hpiece⟩ := Option.isSome_iff_exists.1 h
    obtain ⟨pre, post, rfl, hspan⟩ := at?_eq_some_iff (s := ⟨start, stop⟩).1 hpiece
    cases hspan
    exact ⟨Nat.le_add_right _ _, ⟨pre, piece ++ post, by simp, rfl⟩,
      ⟨pre ++ piece, post, rfl, byteSize_append _ _⟩⟩
  · rintro ⟨hle, ⟨a, b, rfl, rfl⟩, ⟨a', b', heq, rfl⟩⟩
    obtain ⟨piece, rfl, rfl⟩ := exists_append_of_byteSize_le heq hle
    refine Option.isSome_iff_exists.2 ⟨piece, ?_⟩
    exact at?_eq_some_iff (s := ⟨_, _⟩).2 ⟨a, b', by simp, by rw [byteSize_append]⟩

theorem le_byteSize_of_isBoundary {t : Text} {n : Nat} (h : isBoundary t n = true) :
    n ≤ byteSize t := by
  obtain ⟨a, b, rfl, rfl⟩ := isBoundary_iff.1 h
  rw [byteSize_append]
  omega

theorem isBoundary_of_slice? {t piece : Text} {start stop : Nat}
    (h : slice? t start stop = some piece) : isBoundary t stop = true :=
  (isSome_slice?_iff.1 (by rw [h]; rfl)).2.2

theorem stop_of_slice? {t piece : Text} {start stop : Nat}
    (h : slice? t start stop = some piece) : stop = start + byteSize piece := by
  obtain ⟨pre, post, -, hspan⟩ := at?_eq_some_iff (s := ⟨start, stop⟩).1 h
  cases hspan
  rfl

theorem slice?_append {t a b : Text} {start mid stop : Nat} (ha : slice? t start mid = some a)
    (hb : slice? t mid stop = some b) : slice? t start stop = some (a ++ b) := by
  obtain ⟨pre, post, rfl, hspan⟩ := at?_eq_some_iff (s := ⟨start, mid⟩).1 ha
  obtain ⟨pre', post', heq, hspan'⟩ := at?_eq_some_iff (s := ⟨mid, stop⟩).1 hb
  cases hspan
  simp only [Span.mk.injEq] at hspan'
  obtain ⟨hmid, rfl⟩ := hspan'
  rw [← byteSize_append] at hmid
  obtain ⟨rfl, rfl⟩ := append_inj_of_byteSize (heq.trans (List.append_assoc _ _ _)) hmid
  refine at?_eq_some_iff (s := ⟨_, _⟩).2 ⟨pre, post', by simp, ?_⟩
  rw [byteSize_append, byteSize_append, Nat.add_assoc]

end ParamTwin.Text
