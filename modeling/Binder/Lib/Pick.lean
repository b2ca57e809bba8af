import Mathlib.Algebra.BigOperators.Group.List.Basic
import Mathlib.Algebra.Order.Group.Multiset

/-! Taking one element out of a list by its position, where the order of the rest
carries no meaning. -/
namespace Binder.Lib
open List

variable {α : Type*}

def pick (l : List α) (i : ℕ) : Option (α × List α) :=
  l[i]?.map fun x => (x, l.eraseIdx i)

variable {l r : List α} {i : ℕ} {x : α}

section

variable (h : pick l i = some (x, r))
include h

theorem pick_perm : l.Perm (x :: r) := by
  obtain ⟨y, hy, he⟩ := Option.map_eq_some_iff.mp h
  obtain ⟨hi, rfl⟩ := List.getElem?_eq_some_iff.mp hy
  cases he
  exact (getElem_cons_eraseIdx_perm hi).symm

theorem mem_of_pick : x ∈ l :=
  (pick_perm h).mem_iff.mpr mem_cons_self

theorem mem_of_mem_pick {y : α} (hy : y ∈ r) : y ∈ l :=
  (pick_perm h).mem_iff.mpr (mem_cons_of_mem _ hy)

theorem sum_map_of_pick {M : Type*} [AddCommMonoid M] (f : α → M) : (l.map f).sum = f x + (r.map f).sum := by
  rw [((pick_perm h).map f).sum_eq, map_cons, sum_cons]

end

end Binder.Lib
