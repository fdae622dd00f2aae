import Mathlib.Data.List.Forall2
import Mathlib.Tactic.Common

/-!
# Lists that are mapped with a chance of failure

A map that stops at the first failure gives a list exactly if it gives its items one by one:
`mapM_eq_some_iff` where the failure is none, `mapM_eq_ok_iff` where it is an error. Both are
`mapM_eq_pure_iff`, for computations whose results come from intermediate results.
-/

namespace ParamTwin

variable {α β ε : Type} {as : List α} {bs : List β}

theorem mapM_eq_pure_iff {m : Type → Type} [Monad m] [LawfulMonad m]
    (hpure : ∀ {γ : Type} {c d : γ}, (pure c : m γ) = pure d ↔ c = d)
    (hbind : ∀ {γ δ : Type} {x : m γ} {g : γ → m δ} {d : δ},
      x >>= g = pure d ↔ ∃ c, x = pure c ∧ g c = pure d)
    {f : α → m β} : as.mapM f = pure bs ↔ List.Forall₂ (fun a b => f a = pure b) as bs := by
  induction as generalizing bs with
  | nil => rw [List.mapM_nil, hpure, List.forall₂_nil_left_iff, eq_comm]
  | cons a as ih =>
    simp only [List.mapM_cons, hbind, hpure, ih, List.forall₂_cons_left_iff]
    constructor
    · rintro ⟨b, hb, bs', hbs', rfl⟩
      exact ⟨b, bs', hb, hbs', rfl⟩
    · rintro ⟨b, bs', hb, hbs', rfl⟩
      exact ⟨b, hb, bs', hbs', rfl⟩

theorem mapM_eq_some_iff {f : α → Option β} :
    as.mapM f = some bs ↔ List.Forall₂ (fun a b => f a = some b) as bs :=
  mapM_eq_pure_iff Option.some_inj Option.bind_eq_some_iff

theorem mapM_eq_ok_iff {f : α → Except ε β} :
    as.mapM f = .ok bs ↔ List.Forall₂ (fun a b => f a = .ok b) as bs := by
  refine mapM_eq_pure_iff (by simp [pure, Except.pure]) fun {_ _ x _ _} => ?_
  cases x <;> simp [bind, Except.bind, pure, Except.pure]

theorem exists_forall₂_iff {R : α → β → Prop} :
    (∃ bs, List.Forall₂ R as bs) ↔ ∀ a ∈ as, ∃ b, R a b := by
  induction as with
  | nil => simp
  | cons a as ih =>
    rw [List.forall_mem_cons, ← ih]
    constructor
    · rintro ⟨_, _ | ⟨hab, hrest⟩⟩
      exact ⟨⟨_, hab⟩, _, hrest⟩
    · rintro ⟨⟨b, hab⟩, bs, hrest⟩
      exact ⟨b :: bs, .cons hab hrest⟩

theorem exists_mem_of_forall₂ {R : α → β → Prop} (h : List.Forall₂ R as bs) {b : β} (hb : b ∈ bs) :
    ∃ a ∈ as, R a b := by
  induction h with
  | nil => cases hb
  | cons hab _ ih =>
    cases hb with
    | head => exact ⟨_, .head _, hab⟩
    | tail _ hb =>
      obtain ⟨a, ha, hr⟩ := ih hb
      exact ⟨a, .tail _ ha, hr⟩

end ParamTwin
