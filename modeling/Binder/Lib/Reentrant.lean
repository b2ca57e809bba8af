import Mathlib.Data.List.Basic

/-! Keys that threads own through stacks of frames. A frame may open a key, or use one again that a
frame below it has opened; frames end in stack order. -/
namespace Binder.Lib
open Function

variable {φ κ τ : Type*}

/-- How a frame uses a key, and whether it does because a frame below it does. -/
structure Holding (φ κ : Type*) where
  uses : φ → Option κ
  nested : φ → Bool

namespace Holding

variable (H : Holding φ κ) {owner : κ → Option τ} {stack : τ → List φ} {k : κ} {t u : τ} {f : φ}
  {fs : List φ}

def Uses (k : κ) (fs : List φ) : Prop := ∃ f ∈ fs, H.uses f = some k

/-- A key is opened by the lowest of the frames that use it. -/
def Stacked : List φ → Prop
  | [] => True
  | f :: fs => (∀ k, H.uses f = some k → (H.Uses k fs ↔ H.nested f = true)) ∧ Stacked fs

/-- The owner of a key is the thread with frames that use it. -/
structure Held (owner : κ → Option τ) (stack : τ → List φ) : Prop where
  stacked : ∀ t, H.Stacked (stack t)
  uses : ∀ k t, H.Uses k (stack t) ↔ owner k = some t

variable {H}

theorem uses_cons : H.Uses k (f :: fs) ↔ H.uses f = some k ∨ H.Uses k fs := by
  simp [Uses]

theorem Stacked.opening (h : H.Stacked fs) (hk : H.Uses k fs) :
    ∃ f ∈ fs, H.uses f = some k ∧ H.nested f = false := by
  induction fs with
  | nil => simp [Uses] at hk
  | cons f fs ih =>
    by_cases hfs : H.Uses k fs
    · obtain ⟨g, hg, huses⟩ := ih h.2 hfs
      exact ⟨g, List.mem_cons_of_mem _ hg, huses⟩
    · have huses : H.uses f = some k := (uses_cons.mp hk).resolve_right hfs
      have hnested := (h.1 k huses).not.mp hfs
      exact ⟨f, List.mem_cons_self, huses, by simpa using hnested⟩

theorem held_empty : H.Held (fun _ => none : κ → Option τ) (fun _ => []) :=
  ⟨fun _ => trivial, fun k t => by simp [Uses]⟩

namespace Held

variable [DecidableEq τ]

section

variable (h : H.Held owner stack)
include h

theorem stacked_update (hfs : H.Stacked fs) (u : τ) : H.Stacked (update stack t fs u) := by
  by_cases hu : u = t
  · rwa [hu, update_self]
  · rw [update_of_ne hu]
    exact h.stacked u

/-- A thread opens a key that has no owner. -/
theorem enter [DecidableEq κ] (hk : owner k = none) (huses : H.uses f = some k) (hnested : H.nested f = false) :
    H.Held (update owner k (some t)) (update stack t (f :: stack t)) := by
  have hfree : ∀ u, ¬ H.Uses k (stack u) := fun u => by simp [h.uses, hk]
  refine ⟨h.stacked_update ⟨?_, h.stacked t⟩, ?_⟩
  · intro j hj
    obtain rfl : k = j := Option.some.inj (huses.symm.trans hj)
    simp [hfree, hnested]
  · intro j u
    by_cases hj : j = k
    · subst hj
      by_cases hu : u = t
      · subst hu
        simp [uses_cons, huses]
      · simp [hfree, hu, Ne.symm hu]
    · by_cases hu : u = t
      · subst hu
        simp [uses_cons, huses, hj, Ne.symm hj, h.uses]
      · simp [hu, hj, h.uses]

/-- A thread that owns a key uses it again, or does something that uses no key. -/
theorem reenter (huses : ∀ k, H.uses f = some k → owner k = some t ∧ H.nested f = true) :
    H.Held owner (update stack t (f :: stack t)) := by
  refine ⟨h.stacked_update ⟨?_, h.stacked t⟩, ?_⟩
  · intro k hk
    simp [h.uses, huses k hk]
  · intro k u
    by_cases hu : u = t
    · subst hu
      rw [update_self, uses_cons, h.uses]
      exact or_iff_right_of_imp fun hk => (huses k hk).1
    · rw [update_of_ne hu, h.uses]

/-- The frame that opened a key ends. -/
theorem leave [DecidableEq κ] (htop : stack t = f :: fs) (huses : H.uses f = some k)
    (hnested : H.nested f = false) :
    H.Held (update owner k none) (update stack t fs) := by
  have hstacked := h.stacked t
  rw [htop] at hstacked
  have hunused : ¬ H.Uses k fs := by
    rw [hstacked.1 k huses, hnested]
    exact Bool.false_ne_true
  have howner : owner k = some t := (h.uses k t).mp (htop ▸ uses_cons.mpr (.inl huses))
  refine ⟨h.stacked_update hstacked.2, ?_⟩
  intro j u
  by_cases hu : u = t
  · subst hu
    by_cases hj : j = k
    · subst hj
      simp [hunused]
    · have hsame := h.uses j u
      rw [htop, uses_cons, huses, Option.some.injEq, or_iff_right (Ne.symm hj)] at hsame
      simp [hj, hsame]
  · by_cases hj : j = k
    · subst hj
      simp [hu, h.uses, howner, Ne.symm hu]
    · simp [hu, hj, h.uses]

/-- A frame that opened no key ends. -/
theorem pop (htop : stack t = f :: fs) (huses : ∀ k, H.uses f = some k → H.nested f = true) :
    H.Held owner (update stack t fs) := by
  have hstacked := h.stacked t
  rw [htop] at hstacked
  refine ⟨h.stacked_update hstacked.2, ?_⟩
  intro k u
  by_cases hu : u = t
  · subst hu
    rw [update_self, ← h.uses, htop, uses_cons]
    refine (or_iff_right_of_imp fun hk => ?_).symm
    exact (hstacked.1 k hk).mpr (huses k hk)
  · rw [update_of_ne hu, h.uses]

end

end Held

end Holding

end Binder.Lib
