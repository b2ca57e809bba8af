import Binder.Lib.Fallible

/-! Computations that run in step: from related states they give the same result and leave related states. -/
namespace Binder.Lib.Fallible

variable {σ τ ε α β : Type} {R : σ → τ → Prop}

/-- From states related by `R`, `x` and `y` both abort, or give the same result and leave states related by `R`. -/
def Sim (R : σ → τ → Prop) (x : Fallible σ ε α) (y : Fallible τ ε α) : Prop :=
  ∀ s u, R s u → (x.run.run s = none ∧ y.run.run u = none) ∨
    ∃ r s' u', x.run.run s = some (r, s') ∧ y.run.run u = some (r, u') ∧ R s' u'

namespace Sim

theorem pure {a : α} : Sim R (pure a : Fallible σ ε α) (pure a : Fallible τ ε α) :=
  fun s u h => .inr ⟨.ok a, s, u, rfl, rfl, h⟩

theorem throw {e : ε} : Sim R (throw e : Fallible σ ε α) (throw e : Fallible τ ε α) :=
  fun s u h => .inr ⟨.error e, s, u, rfl, rfl, h⟩

theorem abort : Sim R (ExceptT.mk fun _ => none : Fallible σ ε α) (ExceptT.mk fun _ => none : Fallible τ ε α) :=
  fun _ _ _ => .inl ⟨rfl, rfl⟩

theorem bind {x : Fallible σ ε α} {y : Fallible τ ε α} {f : α → Fallible σ ε β} {g : α → Fallible τ ε β}
    (hx : Sim R x y) (hf : ∀ a, Sim R (f a) (g a)) : Sim R (x >>= f) (y >>= g) := by
  intro s u h
  rw [run_bind, run_bind]
  rcases hx s u h with ⟨hs, hu⟩ | ⟨r, s', u', hs, hu, h'⟩
  · rw [hs, hu]
    exact .inl ⟨rfl, rfl⟩
  · rw [hs, hu]
    cases r with
    | error e => exact .inr ⟨.error e, s', u', rfl, rfl, h'⟩
    | ok a => exact hf a s' u' h'

theorem ite {c : Prop} [Decidable c] {x x' : Fallible σ ε α} {y y' : Fallible τ ε α} (h : Sim R x y)
    (h' : Sim R x' y') : Sim R (if c then x else x') (if c then y else y') := by
  split_ifs
  · exact h
  · exact h'

/-- Computations on parts of the states. What relates the parts may depend on the states. -/
theorem zoom {σ' τ' : Type} {x : Fallible σ' ε α} {y : Fallible τ' ε α} {get : σ → σ'} {set : σ' → σ → σ}
    {get' : τ → τ'} {set' : τ' → τ → τ} (h : ∀ s u, R s u → ∃ R' : σ' → τ' → Prop, R' (get s) (get' u) ∧ Sim R' x y ∧
      ∀ a b, R' a b → R (set a s) (set' b u)) : Sim R (zoom get set x) (zoom get' set' y) := by
  intro s u hsu
  obtain ⟨R', hin, hsim, hout⟩ := h s u hsu
  rw [run_zoom, run_zoom]
  rcases hsim _ _ hin with ⟨hs, hu⟩ | ⟨r, a, b, hs, hu, hab⟩
  · rw [hs, hu]
    exact .inl ⟨rfl, rfl⟩
  · rw [hs, hu]
    exact .inr ⟨r, set a s, set' b u, rfl, rfl, hout a b hab⟩

theorem refl (x : Fallible σ ε α) : Sim (· = ·) x x := by
  rintro s _ rfl
  cases hx : x.run.run s with
  | none => exact .inl ⟨rfl, rfl⟩
  | some r => exact .inr ⟨r.1, r.2, r.2, rfl, rfl, rfl⟩

end Sim

end Binder.Lib.Fallible
