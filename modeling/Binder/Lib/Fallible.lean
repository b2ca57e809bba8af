import Mathlib.Tactic.Common

/-! Computations over a state that can fail and that can abort. A failure keeps the state it came
to. -/
namespace Binder.Lib

/-- `none` is an abort. -/
abbrev Fallible (σ ε α : Type) := ExceptT ε (StateT σ Option) α

namespace Fallible

variable {σ ε α β τ : Type} {s s' : σ} {a : α} {b : β}

def ofFun (f : σ → Except ε α × σ) : Fallible σ ε α := ExceptT.mk fun s => some (f s)

/-- `x` returns `a` from `s` and leaves `s'`. -/
def Returns (x : Fallible σ ε α) (s : σ) (a : α) (s' : σ) : Prop := x.run.run s = some (.ok a, s')

def Fails (x : Fallible σ ε α) (s : σ) (e : ε) (s' : σ) : Prop := x.run.run s = some (.error e, s')

def each (f : τ → Fallible σ ε α) : List τ → Fallible σ ε (List α)
  | [] => pure []
  | t :: ts => do
    let a ← f t
    let as ← each f ts
    pure (a :: as)

def times (x : Fallible σ ε α) : (n : ℕ) → Fallible σ ε { as : List α // as.length = n }
  | 0 => pure ⟨[], rfl⟩
  | n + 1 => do
    let a ← x
    let as ← times x n
    pure ⟨a :: as.val, congrArg (· + 1) as.property⟩

/-- `x` on a part of the state. -/
def zoom (get : τ → σ) (set : σ → τ → τ) (x : Fallible σ ε α) : Fallible τ ε α :=
  ExceptT.mk fun t => (x.run.run (get t)).map fun r => (r.1, set r.2 t)

variable {f : σ → Option (Except ε α × σ)} {a' : α} {e : ε} {x y : Fallible σ ε α} {c : Prop} {u : PUnit}
    {get : τ → σ} {set : σ → τ → τ} {t t' : τ} {as : List α}

@[simp] theorem returns_mk : Returns (ExceptT.mk f) s a s' ↔ f s = some (.ok a, s') := Iff.rfl

@[simp] theorem returns_ofFun {f : σ → Except ε α × σ} :
    Returns (ofFun f) s a s' ↔ f s = (.ok a, s') := Option.some_inj

@[simp] theorem returns_pure : Returns (pure a : Fallible σ ε α) s a' s' ↔ a = a' ∧ s = s' := by
  constructor
  · intro h
    cases h
    exact ⟨rfl, rfl⟩
  · rintro ⟨rfl, rfl⟩
    rfl

@[simp] theorem not_returns_throw : ¬ Returns (throw e : Fallible σ ε α) s a s' := by
  intro h
  cases h

theorem run_mk (f : σ → Option (Except ε α × σ)) (s : σ) : (ExceptT.mk f : Fallible σ ε α).run.run s = f s := rfl

theorem run_bind (x : Fallible σ ε α) (f : α → Fallible σ ε β) (s : σ) :
    (x >>= f).run.run s = (x.run.run s).bind fun r =>
      (match r.1 with
        | .ok a => (f a).run
        | .error e => (pure (.error e) : StateT σ Option (Except ε β))).run r.2 := rfl

theorem run_tryCatch (x : Fallible σ ε α) (f : ε → Fallible σ ε α) (s : σ) :
    (tryCatch x f).run.run s = (x.run.run s).bind fun r =>
      (match r.1 with
        | .ok a => (pure (.ok a) : StateT σ Option (Except ε α))
        | .error e => (f e).run).run r.2 := rfl

@[simp] theorem returns_bind {f : α → Fallible σ ε β} :
    Returns (x >>= f) s b s' ↔ ∃ a t, Returns x s a t ∧ Returns (f a) t b s' := by
  unfold Returns
  rw [run_bind]
  cases hx : x.run.run s with
  | none => simp
  | some r =>
    obtain ⟨_ | a, t⟩ := r
    · simp
    · simp

theorem returns_ite [Decidable c] :
    Returns (if c then x else y) s a s' ↔ c ∧ Returns x s a s' ∨ ¬ c ∧ Returns y s a s' := by
  split_ifs with h <;> simp [h]

theorem returns_unless [Decidable c] : Returns (if c then throw e else x) s a s' ↔ ¬ c ∧ Returns x s a s' := by
  simp [returns_ite]

@[simp] theorem fails_mk : Fails (ExceptT.mk f) s e s' ↔ f s = some (.error e, s') := Iff.rfl

@[simp] theorem fails_ofFun {f : σ → Except ε α × σ} :
    Fails (ofFun f) s e s' ↔ f s = (.error e, s') := Option.some_inj

@[simp] theorem not_fails_pure : ¬ Fails (pure a : Fallible σ ε α) s e s' := by
  intro h
  cases h

@[simp] theorem fails_bind {f : α → Fallible σ ε β} :
    Fails (x >>= f) s e s' ↔ Fails x s e s' ∨ ∃ a t, Returns x s a t ∧ Fails (f a) t e s' := by
  unfold Fails Returns
  rw [run_bind]
  cases hx : x.run.run s with
  | none => simp
  | some r =>
    obtain ⟨_ | a, t⟩ := r
    · simp
    · simp

theorem returns_tryCatch {f : ε → Fallible σ ε α} :
    Returns (tryCatch x f) s a s' ↔ Returns x s a s' ∨ ∃ e t, Fails x s e t ∧ Returns (f e) t a s' := by
  unfold Fails Returns
  rw [run_tryCatch]
  cases hx : x.run.run s with
  | none => simp
  | some r =>
    obtain ⟨_ | a, t⟩ := r
    · simp
    · simp

theorem fails_tryCatch {f : ε → Fallible σ ε α} {e' : ε} :
    Fails (tryCatch x f) s e' s' ↔ ∃ e t, Fails x s e t ∧ Fails (f e) t e' s' := by
  unfold Fails
  rw [run_tryCatch]
  cases hx : x.run.run s with
  | none => simp
  | some r =>
    obtain ⟨_ | a, t⟩ := r
    · simp
    · simp

theorem run_zoom (get : τ → σ) (set : σ → τ → τ) (x : Fallible σ ε α) (t : τ) :
    (zoom get set x).run.run t = (x.run.run (get t)).map fun r => (r.1, set r.2 t) := rfl

@[simp] theorem returns_zoom : Returns (zoom get set x) t a t' ↔ ∃ s', Returns x (get t) a s' ∧ set s' t = t' := by
  unfold Returns
  rw [run_zoom]
  cases hx : x.run.run (get t) with
  | none => simp
  | some => simp [Prod.ext_iff, and_assoc, eq_comm]

@[simp] theorem fails_zoom : Fails (zoom get set x) t e t' ↔ ∃ s', Fails x (get t) e s' ∧ set s' t = t' := by
  unfold Fails
  rw [run_zoom]
  cases hx : x.run.run (get t) with
  | none => simp
  | some => simp [Prod.ext_iff, and_assoc, eq_comm]

theorem returns_each_nil {f : τ → Fallible σ ε α} : Returns (each f []) s as s' ↔ as = [] ∧ s = s' := by
  simp [each, eq_comm]

theorem returns_each_cons {f : τ → Fallible σ ε α} {ts : List τ} : Returns (each f (t :: ts)) s as s' ↔
      ∃ a u as', as = a :: as' ∧ Returns (f t) s a u ∧ Returns (each f ts) u as' s' := by
  simp only [each, returns_bind, returns_pure]
  constructor
  · rintro ⟨a, u, ha, as', v, has, rfl, rfl⟩
    exact ⟨a, u, as', rfl, ha, has⟩
  · rintro ⟨a, u, as', rfl, ha, has⟩
    exact ⟨a, u, ha, as', s', has, rfl, rfl⟩

theorem returns_times_zero {as : { as : List α // as.length = 0 }} : Returns (times x 0) s as s' ↔ s = s' := by
  obtain ⟨as, has⟩ := as
  cases List.eq_nil_of_length_eq_zero has
  simp [times]

theorem returns_times_succ {n : ℕ} {as : { as : List α // as.length = n + 1 }} : Returns (times x (n + 1)) s as s' ↔
      ∃ a u as', as.val = a :: as'.val ∧ Returns x s a u ∧ Returns (times x n) u as' s' := by
  simp only [times, returns_bind, returns_pure]
  constructor
  · rintro ⟨a, u, ha, as', v, has, rfl, rfl⟩
    exact ⟨a, u, as', rfl, ha, has⟩
  · rintro ⟨a, u, as', heq, ha, has⟩
    exact ⟨a, u, ha, as', s', has, Subtype.ext heq.symm, rfl⟩

theorem Returns.unique {t : σ} (h : Returns x s a s') (h' : Returns x s a' t) : a = a' ∧ s' = t := by
  have := h.symm.trans h'
  simpa using this

theorem exists_returns (P : α → σ → Prop) [∀ a s, Decidable (P a s)]
    (h : (match x.run.run s with | some (.ok a, s') => decide (P a s') | _ => false) = true) :
    ∃ a s', Returns x s a s' ∧ P a s' := by
  unfold Returns
  cases hx : x.run.run s with
  | none => simp [hx] at h
  | some r =>
    obtain ⟨_ | a, s'⟩ := r
    · simp [hx] at h
    · rw [hx] at h
      exact ⟨a, s', rfl, of_decide_eq_true h⟩

/-! ### Errors -/

/-- Every failure of `x` is with an error in `E`. -/
def FailsOnly (E : ε → Prop) (x : Fallible σ ε α) : Prop := ∀ s e s', Fails x s e s' → E e

namespace FailsOnly

variable {E : ε → Prop}

theorem mk (h : ∀ s e s', f s = some (.error e, s') → E e) : FailsOnly E (ExceptT.mk f) := h

theorem ofFun {f : σ → Except ε α × σ} (h : ∀ s e, (f s).1 = .error e → E e) : FailsOnly E (ofFun f) := by
  intro s e s' hfail
  exact h s e (by rw [fails_ofFun.mp hfail])

theorem pure {a : α} : FailsOnly E (pure a : Fallible σ ε α) := fun _ _ _ h => absurd h not_fails_pure

theorem throw (h : E e) : FailsOnly E (throw e : Fallible σ ε α) := by
  intro s e' s' hfail
  cases hfail
  exact h

theorem bind {f : α → Fallible σ ε β} (hx : FailsOnly E x) (hf : ∀ a, FailsOnly E (f a)) :
    FailsOnly E (x >>= f) := by
  intro s e s' hfail
  rcases fails_bind.mp hfail with h | ⟨a, t, -, h⟩
  · exact hx s e s' h
  · exact hf a t e s' h

theorem ite [Decidable c] (hx : FailsOnly E x) (hy : FailsOnly E y) : FailsOnly E (if c then x else y) := by
  split_ifs
  · exact hx
  · exact hy

theorem tryCatch {f : ε → Fallible σ ε α} (hf : ∀ e, FailsOnly E (f e)) : FailsOnly E (tryCatch x f) := by
  intro s e' s' hfail
  obtain ⟨e, t, -, h⟩ := fails_tryCatch.mp hfail
  exact hf e t e' s' h

end FailsOnly

end Fallible

end Binder.Lib
