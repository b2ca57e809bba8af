import Mathlib.Algebra.BigOperators.Group.List.Basic

/-! Items with a shared total that every change of an item is booked to. -/
namespace Binder.Lib
open List

section Items

variable {α β : Type*} {l : List α} {i : ℕ} {a : α}

theorem set_split (h : l[i]? = some a) : ∃ before behind, l = before ++ a :: behind ∧
    ∀ x, l.set i x = before ++ x :: behind := by
  obtain ⟨hi, ha⟩ := List.getElem?_eq_some_iff.mp h
  have hset (x : α) : l.set i x = l.take i ++ x :: l.drop (i + 1) := by
    rw [set_eq_take_append_cons_drop, if_pos hi]
  have hself : l = l.set i a := by rw [← ha, set_getElem_self]
  exact ⟨l.take i, l.drop (i + 1), hself.trans (hset a), hset⟩

theorem countP_set_add (h : l[i]? = some a) (q : α → Bool) (x : α) :
    (l.set i x).countP q + (q a).toNat = l.countP q + (q x).toNat := by
  obtain ⟨before, behind, hl, hset⟩ := set_split h
  rw [hset, hl]
  cases ha : q a <;> cases hx : q x <;> simp [ha, hx] <;> omega

theorem countP_flatMap_set_add (h : l[i]? = some a) (f : α → List β) (q : β → Bool) (x : α) :
    ((l.set i x).flatMap f).countP q + (f a).countP q = (l.flatMap f).countP q + (f x).countP q := by
  obtain ⟨before, behind, hl, hset⟩ := set_split h
  rw [hset, hl]
  simp only [flatMap_append, flatMap_cons, countP_append]
  omega

end Items

structure Ledger (σ G : Type*) where
  items : List σ
  total : G

namespace Ledger

variable {σ G : Type*} [AddCommGroup G] {weight : σ → G} {l : Ledger σ G} {i : ℕ} {a b : σ} {d : G}

def enter (a : σ) (l : Ledger σ G) : Ledger σ G := { l with items := l.items ++ [a] }

def update (i : ℕ) (b : σ) (d : G) (l : Ledger σ G) : Ledger σ G := ⟨l.items.set i b, l.total + d⟩

def remove (i : ℕ) (d : G) (l : Ledger σ G) : Ledger σ G := ⟨l.items.eraseIdx i, l.total + d⟩

def Balanced (weight : σ → G) (l : Ledger σ G) : Prop := l.total = (l.items.map weight).sum

theorem Balanced.enter (h : l.Balanced weight) (ha : weight a = 0) : (l.enter a).Balanced weight := by
  unfold Balanced Ledger.enter
  rw [map_append, sum_append, map_singleton, sum_singleton, ha, add_zero]
  exact h

/-- A change keeps the balance if it is booked with the difference of the weights. -/
theorem Balanced.update (h : l.Balanced weight) (hi : l.items[i]? = some a) (hd : d = weight b - weight a) :
    (l.update i b d).Balanced weight := by
  obtain ⟨hlt, ha⟩ := List.getElem?_eq_some_iff.mp hi
  have hlt' : i < (l.items.map weight).length := by simpa using hlt
  unfold Balanced Ledger.update
  rw [map_set, sum_set', dif_pos hlt', getElem_map, ha, hd, h, neg_add_eq_sub]

theorem Balanced.remove (h : l.Balanced weight) (hi : l.items[i]? = some a) (hd : d = -weight a) :
    (l.remove i d).Balanced weight := by
  obtain ⟨hlt, ha⟩ := List.getElem?_eq_some_iff.mp hi
  have hlt' : i < (l.items.map weight).length := by simpa using hlt
  have hsum := List.CommMonoid.add_sum_eraseIdx hlt'
  rw [getElem_map, ha] at hsum
  unfold Balanced Ledger.remove
  rw [← eraseIdx_map, h, hd, ← hsum, add_neg_cancel_comm]

end Ledger

end Binder.Lib
