import Mathlib.Data.List.Chain

/-! Histories of a value that starts from a known one: `(a :: l).IsChain R` says that each
value is `R`-related to the one before it, and `l.getLastD a` is the current value. -/
namespace Binder.Lib
open List

variable {α : Type*} {R : α → α → Prop}

theorem getLastD_append (a : α) (l l' : List α) : (l ++ l').getLastD a = l'.getLastD (l.getLastD a) := by
  induction l generalizing a with
  | nil => rfl
  | cons b l ih => simpa only [cons_append, getLastD_cons] using ih b

theorem isChain_cons_append {a : α} {l l' : List α} :
    (a :: (l ++ l')).IsChain R ↔ (a :: l).IsChain R ∧ (l.getLastD a :: l').IsChain R := by
  induction l generalizing a with
  | nil => simp
  | cons b l ih =>
    simp only [cons_append, isChain_cons_cons, getLastD_cons, ih, and_assoc]

theorem isChain_concat {a b : α} {l : List α} (h : (a :: l).IsChain R) (hb : R (l.getLastD a) b) :
    (a :: (l ++ [b])).IsChain R := by
  rw [isChain_cons_append]
  exact ⟨h, isChain_pair.mpr hb⟩

end Binder.Lib
