import Mathlib.Algebra.Ring.Nat
import Mathlib.Order.Lattice
import Mathlib.Data.List.Nodup
import Mathlib.Data.List.Perm.Subperm

/-! Finite maps with keys in a linear order, kept as a strictly sorted list of
entries. Iteration over `entries` is in key order. -/
namespace Binder.Lib
open List

variable {κ ν : Type*} [LinearOrder κ]

/-- Sortedness is a field, so every key of a map is bound once. -/
structure OrdMap (κ ν : Type*) [LinearOrder κ] where
  entries : List (κ × ν)
  sorted : entries.Pairwise fun a b => a.1 < b.1
  deriving DecidableEq

namespace OrdMap

def SortedEntries (es : List (κ × ν)) : Prop := es.Pairwise fun a b => a.1 < b.1

def lookup (k : κ) : List (κ × ν) → Option ν
  | [] => none
  | e :: es => if e.1 = k then some e.2 else lookup k es

def insertEntry (k : κ) (v : ν) : List (κ × ν) → List (κ × ν)
  | [] => [(k, v)]
  | e :: es => if k < e.1 then (k, v) :: e :: es
      else if e.1 = k then (k, v) :: es
      else e :: insertEntry k v es

variable {k : κ} {v : ν} {es : List (κ × ν)} {m : OrdMap κ ν}

theorem mem_insertEntry {e : κ × ν} (h : e ∈ insertEntry k v es) : e = (k, v) ∨ e ∈ es := by
  induction es with
  | nil => simpa [insertEntry] using h
  | cons x es ih =>
    simp only [insertEntry] at h
    split_ifs at h with h1 h2
    · simpa using h
    · rcases mem_cons.mp h with h | h
      · exact .inl h
      · exact .inr (mem_cons_of_mem _ h)
    · rcases mem_cons.mp h with h | h
      · exact .inr (h ▸ mem_cons_self)
      · exact (ih h).imp_right (mem_cons_of_mem _)

theorem SortedEntries.insertEntry (h : SortedEntries es) (k : κ) (v : ν) :
    SortedEntries (insertEntry k v es) := by
  induction es with
  | nil => simp [SortedEntries, OrdMap.insertEntry]
  | cons x es ih =>
    obtain ⟨hx, hes⟩ := pairwise_cons.mp h
    simp only [OrdMap.insertEntry]
    split_ifs with h1 h2
    · refine pairwise_cons.mpr ⟨?_, h⟩
      intro y hy
      rcases mem_cons.mp hy with rfl | hy
      · exact h1
      · exact h1.trans (hx y hy)
    · exact pairwise_cons.mpr ⟨fun y hy => h2 ▸ hx y hy, hes⟩
    · refine pairwise_cons.mpr ⟨?_, ih hes⟩
      intro y hy
      rcases mem_insertEntry hy with rfl | hy
      · exact lt_of_le_of_ne (not_lt.mp h1) h2
      · exact hx y hy

theorem SortedEntries.nodup (h : SortedEntries es) : (es.map Prod.fst).Nodup :=
  pairwise_map.mpr (h.imp fun hab => ne_of_lt hab)

theorem insertEntry_of_lt (h : ∀ e ∈ es, e.1 < k) : insertEntry k v es = es ++ [(k, v)] := by
  induction es with
  | nil => rfl
  | cons e es ih =>
    have hlt := h e mem_cons_self
    unfold insertEntry
    rw [if_neg (not_lt.mpr hlt.le), if_neg hlt.ne, ih fun e he => h e (mem_cons_of_mem _ he)]
    rfl

/-- Entries that are inserted in the order of their keys are appended. -/
theorem SortedEntries.foldl_insertEntry {done : List (κ × ν)} (h : SortedEntries (done ++ es)) :
    es.foldl (fun m e => OrdMap.insertEntry e.1 e.2 m) done = done ++ es := by
  induction es generalizing done with
  | nil => simp
  | cons e es ih =>
    have hlt : ∀ e' ∈ done, e'.1 < e.1 := fun e' he' => (pairwise_append.mp h).2.2 e' he' e mem_cons_self
    rw [foldl_cons, insertEntry_of_lt hlt]
    have hassoc : done ++ e :: es = done ++ [e] ++ es := by simp
    rw [hassoc] at h ⊢
    exact ih h

def eraseEntry (k : κ) (es : List (κ × ν)) : List (κ × ν) := es.filter fun e => e.1 ≠ k

theorem SortedEntries.eraseEntry (h : SortedEntries es) (k : κ) : SortedEntries (eraseEntry k es) := h.filter _

def empty : OrdMap κ ν := ⟨[], List.Pairwise.nil⟩

def find? (m : OrdMap κ ν) (k : κ) : Option ν := lookup k m.entries

def insert (m : OrdMap κ ν) (k : κ) (v : ν) : OrdMap κ ν :=
  ⟨insertEntry k v m.entries, SortedEntries.insertEntry m.sorted k v⟩

def erase (m : OrdMap κ ν) (k : κ) : OrdMap κ ν := ⟨eraseEntry k m.entries, m.sorted.filter _⟩

/-- Rewrite every value, dropping the keys for which `f` gives none. -/
def filterMap (m : OrdMap κ ν) (f : ν → Option ν) : OrdMap κ ν where
  entries := m.entries.filterMap fun e => (f e.2).map fun v => (e.1, v)
  sorted := by
    refine List.Pairwise.filterMap _ ?_ m.sorted
    intro a b hab c hc d hd
    obtain ⟨v, -, rfl⟩ := Option.map_eq_some_iff.mp hc
    obtain ⟨w, -, rfl⟩ := Option.map_eq_some_iff.mp hd
    exact hab

def keys (m : OrdMap κ ν) : List κ := m.entries.map Prod.fst

def size (m : OrdMap κ ν) : ℕ := m.entries.length

theorem lookup_insertEntry (k k' : κ) (v : ν) (es : List (κ × ν)) :
    lookup k' (insertEntry k v es) = if k' = k then some v else lookup k' es := by
  induction es with
  | nil => simp [insertEntry, lookup, eq_comm]
  | cons x es ih =>
    simp only [insertEntry]
    by_cases hk : k' = k
    · subst hk
      rw [if_pos rfl]
      split_ifs with h1 h2
      · simp [lookup]
      · simp [lookup]
      · simp [lookup, h2, ih]
    · rw [if_neg hk]
      split_ifs with h1 h2
      · simp only [lookup, if_neg (Ne.symm hk)]
      · have hx : x.1 ≠ k' := fun he => hk (he ▸ h2)
        simp only [lookup, if_neg (Ne.symm hk), if_neg hx]
      · simp only [lookup, ih, if_neg hk]

theorem lookup_eraseEntry (k k' : κ) (es : List (κ × ν)) :
    lookup k' (eraseEntry k es) = if k' = k then none else lookup k' es := by
  unfold eraseEntry
  induction es with
  | nil => simp [lookup]
  | cons x es ih =>
    by_cases hx : x.1 = k
    · rw [filter_cons_of_neg (by simpa using hx), ih]
      by_cases hk : k' = k
      · simp [hk]
      · have : x.1 ≠ k' := fun he => hk (he ▸ hx)
        simp [hk, lookup, this]
    · rw [filter_cons_of_pos (by simpa using hx)]
      simp only [lookup, ih]
      by_cases hk : k' = k
      · subst hk; simp [hx]
      · simp [hk]

theorem lookup_isSome : (lookup k es).isSome ↔ k ∈ es.map Prod.fst := by
  induction es with
  | nil => simp [lookup]
  | cons x es ih =>
    simp only [lookup, map_cons, mem_cons]
    split_ifs with hk
    · simp [hk]
    · simp [ih, Ne.symm hk]

/-- An entry replaces the one that has its key. -/
theorem SortedEntries.sum_insertEntry (h : SortedEntries es) (f : κ × ν → ℕ) (k : κ) (v : ν) :
    ((OrdMap.insertEntry k v es).map f).sum + (lookup k es).elim 0 (fun w => f (k, w)) = (es.map f).sum + f (k, v) := by
  induction es with
  | nil => simp [OrdMap.insertEntry, lookup]
  | cons x es ih =>
    obtain ⟨hx, hes⟩ := pairwise_cons.mp h
    simp only [OrdMap.insertEntry, lookup]
    split_ifs with h1 h2 h2
    · exact absurd (h2 ▸ h1) (lt_irrefl _)
    · have hnone : lookup k es = none := by
        by_contra hsome
        obtain ⟨y, hy, rfl⟩ := mem_map.mp (lookup_isSome.mp (Option.isSome_iff_ne_none.mpr hsome))
        exact lt_asymm h1 (hx y hy)
      simp only [hnone, map_cons, sum_cons, Option.elim_none]
      omega
    · subst h2
      have hx : f (x.1, x.2) = f x := rfl
      simp only [map_cons, sum_cons, Option.elim_some]
      omega
    · have hrest := ih hes
      simp only [map_cons, sum_cons]
      omega

@[simp] theorem find?_empty (k : κ) : (empty : OrdMap κ ν).find? k = none := rfl

@[simp] theorem find?_insert (m : OrdMap κ ν) (k k' : κ) (v : ν) :
    (m.insert k v).find? k' = if k' = k then some v else m.find? k' :=
  lookup_insertEntry k k' v m.entries

@[simp] theorem find?_erase (m : OrdMap κ ν) (k k' : κ) :
    (m.erase k).find? k' = if k' = k then none else m.find? k' :=
  lookup_eraseEntry k k' m.entries

theorem lookup_eq_some_iff (hs : es.Pairwise fun a b => a.1 < b.1) : lookup k es = some v ↔ (k, v) ∈ es := by
  induction es with
  | nil => simp [lookup]
  | cons x es ih =>
    obtain ⟨hx, hes⟩ := pairwise_cons.mp hs
    simp only [lookup, mem_cons]
    split_ifs with hk
    · subst hk
      constructor
      · intro h
        exact .inl (by rw [← Option.some.inj h])
      · rintro (h | h)
        · rw [← h]
        · exact absurd (hx _ h) (lt_irrefl _)
    · rw [ih hes]
      constructor
      · exact .inr
      · rintro (h | h)
        · exact absurd (by rw [← h]) hk
        · exact h

theorem find?_eq_some_iff : m.find? k = some v ↔ (k, v) ∈ m.entries :=
  lookup_eq_some_iff m.sorted

theorem nodup (m : OrdMap κ ν) : m.entries.Nodup := by
  refine m.sorted.imp ?_
  rintro a b hab rfl
  exact lt_irrefl _ hab

/-- A map is what its lookups return. -/
theorem ext_find? {m' : OrdMap κ ν} (h : ∀ k, m.find? k = m'.find? k) : m = m' := by
  have hmem : ∀ e, e ∈ m.entries ↔ e ∈ m'.entries := by
    intro e
    rw [← find?_eq_some_iff, ← find?_eq_some_iff, h]
  have hperm := (perm_ext_iff_of_nodup m.nodup m'.nodup).mpr hmem
  have hentries : m.entries = m'.entries := by
    refine hperm.eq_of_pairwise ?_ m.sorted m'.sorted
    intro a b _ _ hab hba
    exact absurd (hab.trans hba) (lt_irrefl _)
  cases m
  cases m'
  cases hentries
  rfl

@[simp] theorem insert_insert (m : OrdMap κ ν) (k : κ) (v w : ν) : (m.insert k v).insert k w = m.insert k w := by
  apply ext_find?
  intro k'
  by_cases hk : k' = k <;> simp [hk]

theorem find?_filterMap (m : OrdMap κ ν) (f : ν → Option ν) (k : κ) :
    (m.filterMap f).find? k = (m.find? k).bind f := by
  ext w
  rw [find?_eq_some_iff, Option.bind_eq_some_iff]
  simp only [filterMap, mem_filterMap, Option.map_eq_some_iff, Prod.exists, Prod.mk.injEq]
  constructor
  · rintro ⟨k', v, hmem, w', hw, rfl, rfl⟩
    exact ⟨v, find?_eq_some_iff.mpr hmem, hw⟩
  · rintro ⟨v, hv, hw⟩
    exact ⟨k, v, find?_eq_some_iff.mp hv, w, hw, rfl, rfl⟩

/-- More distinct keys than entries: one of them is free. -/
theorem exists_find?_eq_none (m : OrdMap κ ν) (f : ℕ → κ) (n : ℕ) (hn : m.size < n)
    (hf : ∀ i < n, ∀ j < n, f i = f j → i = j) : ∃ i < n, m.find? (f i) = none := by
  by_contra hall
  push Not at hall
  have hnodup : ((List.range n).map f).Nodup := by
    refine List.Nodup.map_on ?_ nodup_range
    intro i hi j hj h
    exact hf i (mem_range.mp hi) j (mem_range.mp hj) h
  have hsub : (List.range n).map f ⊆ m.entries.map Prod.fst := by
    intro k hk
    obtain ⟨i, hi, rfl⟩ := mem_map.mp hk
    obtain ⟨v, hv⟩ := Option.ne_none_iff_exists'.mp (hall i (mem_range.mp hi))
    exact mem_map.mpr ⟨(f i, v), find?_eq_some_iff.mp hv, rfl⟩
  have hlen := (hnodup.subperm hsub).length_le
  simp only [length_map, length_range] at hlen
  unfold size at hn
  omega

end OrdMap

end Binder.Lib
