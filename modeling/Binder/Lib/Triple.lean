import Binder.Lib.Fallible

/-! Pre- and postconditions of fallible computations. -/
namespace Binder.Lib.Fallible

variable {σ ε α β : Type} {P P' : σ → Prop} {Q Q' : α → σ → Prop} {R : β → σ → Prop} {E E' : σ → Prop}

/-- From `P`, `x` does not abort: it returns into `Q` or fails into `E`. -/
def Triple (P : σ → Prop) (x : Fallible σ ε α) (Q : α → σ → Prop) (E : σ → Prop) : Prop :=
  ∀ s, P s → (∃ a s', Returns x s a s' ∧ Q a s') ∨ ∃ e s', Fails x s e s' ∧ E s'

def Post (Q : α → σ → Prop) (E : σ → Prop) : Except ε α → σ → Prop
  | .ok a => Q a
  | .error _ => E

namespace Triple

theorem mk {f : σ → Option (Except ε α × σ)} (h : ∀ s, P s → ∃ r s', f s = some (r, s') ∧ Post Q E r s') :
    Triple P (ExceptT.mk f) Q E := by
  intro s hs
  obtain ⟨r, s', hf, hr⟩ := h s hs
  cases r with
  | ok a => exact .inl ⟨a, s', hf, hr⟩
  | error e => exact .inr ⟨e, s', hf, hr⟩

theorem ofFun {f : σ → Except ε α × σ} (h : ∀ s, P s → Post Q E (f s).1 (f s).2) : Triple P (ofFun f) Q E :=
  .mk fun s hs => ⟨_, _, rfl, h s hs⟩

theorem pure {a : α} (h : ∀ s, P s → Q a s) : Triple P (pure a : Fallible σ ε α) Q E :=
  fun s hs => .inl ⟨a, s, returns_pure.mpr ⟨rfl, rfl⟩, h s hs⟩

theorem throw {e : ε} (h : ∀ s, P s → E s) : Triple P (throw e : Fallible σ ε α) Q E :=
  fun s hs => .inr ⟨e, s, rfl, h s hs⟩

theorem bind {x : Fallible σ ε β} {f : β → Fallible σ ε α} (hx : Triple P x R E)
    (hf : ∀ b, Triple (R b) (f b) Q E) : Triple P (x >>= f) Q E := by
  intro s hs
  rcases hx s hs with ⟨b, t, hb, ht⟩ | ⟨e, t, he, ht⟩
  · rcases hf b t ht with ⟨a, u, ha, hu⟩ | ⟨e, u, he, hu⟩
    · exact .inl ⟨a, u, returns_bind.mpr ⟨b, t, hb, ha⟩, hu⟩
    · exact .inr ⟨e, u, fails_bind.mpr (.inr ⟨b, t, hb, he⟩), hu⟩
  · exact .inr ⟨e, t, fails_bind.mpr (.inl he), ht⟩

theorem bind_pure {x : Fallible σ ε β} {f : β → α} {I : σ → Prop} (h : Triple P x (fun _ => I) E) :
    Triple P (x >>= fun b => Pure.pure (f b)) (fun _ => I) E :=
  h.bind fun _ => .pure fun _ hs => hs

variable {c : Prop} {x : Fallible σ ε α}

theorem ite [Decidable c] {y : Fallible σ ε α} (hx : c → Triple P x Q E)
    (hy : ¬ c → Triple P y Q E) : Triple P (if c then x else y) Q E := by
  split_ifs with h
  · exact hx h
  · exact hy h

theorem tryCatch {f : ε → Fallible σ ε α} (hx : Triple P x Q E')
    (hf : ∀ e, Triple E' (f e) Q E) : Triple P (tryCatch x f) Q E := by
  intro s hs
  rcases hx s hs with ⟨a, t, ha, ht⟩ | ⟨e, t, he, ht⟩
  · exact .inl ⟨a, t, returns_tryCatch.mpr (.inl ha), ht⟩
  · rcases hf e t ht with ⟨a, u, ha, hu⟩ | ⟨e', u, he', hu⟩
    · exact .inl ⟨a, u, returns_tryCatch.mpr (.inr ⟨e, t, he, ha⟩), hu⟩
    · exact .inr ⟨e', u, fails_tryCatch.mpr ⟨e, t, he, he'⟩, hu⟩

theorem zoom {τ : Type} {get : τ → σ} {set : σ → τ → τ} {P : τ → Prop} {Q : α → τ → Prop}
    {E : τ → Prop} (h : ∀ t, P t → Triple (· = get t) x (fun a s => Q a (set s t)) fun s => E (set s t)) :
    Triple P (zoom get set x) Q E := by
  intro t ht
  rcases h t ht (get t) rfl with ⟨a, s, ha, hs⟩ | ⟨e, s, he, hs⟩
  · exact .inl ⟨a, set s t, returns_zoom.mpr ⟨s, ha, rfl⟩, hs⟩
  · exact .inr ⟨e, set s t, fails_zoom.mpr ⟨s, he, rfl⟩, hs⟩

theorem weaken (h : Triple P x Q E) (hP : ∀ s, P' s → P s) : Triple P' x Q E :=
  fun s hs => h s (hP s hs)

theorem mono (h : Triple P x Q E) (hP : ∀ s, P' s → P s) (hQ : ∀ a s, Q a s → Q' a s)
    (hE : ∀ s, E s → E' s) : Triple P' x Q' E' := by
  intro s hs
  rcases h s (hP s hs) with ⟨a, t, ha, ht⟩ | ⟨e, t, he, ht⟩
  · exact .inl ⟨a, t, ha, hQ a t ht⟩
  · exact .inr ⟨e, t, he, hE t ht⟩

/-- What the precondition says about other values than the state. -/
theorem assume (hc : ∀ s, P s → c) (h : c → Triple P x Q E) : Triple P x Q E :=
  fun s hs => h (hc s hs) s hs

theorem times (h : Triple P x (fun _ => P) E) (n : ℕ) : Triple P (times x n) (fun _ => P) E := by
  induction n with
  | zero => exact .pure fun s hs => hs
  | succ n ih => exact h.bind fun a => ih.bind fun as => .pure fun s hs => hs

theorem run {I : σ → Prop} (h : Triple P x (fun _ => I) I) {s : σ} (hs : P s) :
    ∃ r s', x.run.run s = some (r, s') ∧ I s' := by
  rcases h s hs with ⟨a, t, ha, ht⟩ | ⟨e, t, he, ht⟩
  · exact ⟨.ok a, t, ha, ht⟩
  · exact ⟨.error e, t, he, ht⟩

end Triple

end Binder.Lib.Fallible
