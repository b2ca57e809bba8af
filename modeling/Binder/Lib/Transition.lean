import Mathlib.Tactic.Common

/-! Runs of a step function whose steps may be guarded by a condition on the state
before them. `step s a = none` says that the action `a` is not enabled in `s`. -/
namespace Binder.Lib

variable {σ α : Type*}

/-- The states reached from `s₀` by steps that all meet `C` in the state they leave. -/
inductive Reachable (step : σ → α → Option σ) (C : σ → α → Prop) (s₀ : σ) : σ → Prop
  | init : Reachable step C s₀ s₀
  | next {s s' : σ} {a : α} : Reachable step C s₀ s → C s a → step s a = some s' →
      Reachable step C s₀ s'

/-- Run a list of actions; `none` as soon as one of them is not enabled or does not meet `C`. -/
def exec (step : σ → α → Option σ) (C : σ → α → Prop) [∀ s a, Decidable (C s a)] : σ → List α → Option σ
  | s, [] => some s
  | s, a :: as => if C s a then (step s a).bind fun s' => exec step C s' as else none

def Free : σ → α → Prop := fun _ _ => True

instance (s : σ) (a : α) : Decidable (Free s a) := .isTrue trivial

variable {step : σ → α → Option σ} {C : σ → α → Prop} {s₀ s : σ}

theorem Reachable.invariant (Inv : σ → Prop) (h : Reachable step C s₀ s) (h₀ : Inv s₀)
    (hstep : ∀ s a s', Inv s → C s a → step s a = some s' → Inv s') : Inv s := by
  induction h with
  | init => exact h₀
  | next _ hC hs ih => exact hstep _ _ _ ih hC hs

theorem Reachable.exec [∀ s a, Decidable (C s a)] {s₁ : σ} {as : List α} (h : Reachable step C s₀ s₁)
    (he : exec step C s₁ as = some s) : Reachable step C s₀ s := by
  induction as generalizing s₁ with
  | nil =>
    cases Option.some.inj he
    exact h
  | cons a as ih =>
    simp only [Lib.exec] at he
    split_ifs at he with hC
    obtain ⟨s', hs, he'⟩ := Option.bind_eq_some_iff.mp he
    exact ih (.next h hC hs) he'

/-- A run that can be evaluated reaches a state with the tested property. -/
theorem exists_reachable (step : σ → α → Option σ) (C : σ → α → Prop) [∀ s a, Decidable (C s a)] (s₀ : σ)
    (as : List α) (P : σ → Prop) [DecidablePred P] (h : (exec step C s₀ as).any (P ·) = true) :
    ∃ s, Reachable step C s₀ s ∧ P s := by
  obtain ⟨s, hs, htest⟩ := (Option.any_eq_true _ _).mp h
  exact ⟨s, .exec .init hs, of_decide_eq_true htest⟩

end Binder.Lib
