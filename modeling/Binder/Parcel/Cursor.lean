import Binder.Parcel.Read

/-! What the reads let through. -/
namespace Binder.Parcel
open Binder.Lib Binder.Lib.Fallible List

variable {p q r : Parcel} {n : ℕ}

/-! ### Validation -/

def Clear (p : Parcel) (n : ℕ) : Prop :=
  ∀ o ∈ p.mObjects, o + sizeofFlatBinderObject ≤ p.mDataPos ∨ p.mDataPos + n ≤ o
deriving Decidable

/-- The entries are in order, up to some that end before `pos`. -/
def Ordered (pos : ℕ) (objs : List ℕ) : Prop :=
  ∃ sorted passed, objs = sorted ++ passed ∧ sorted.Pairwise (· ≤ ·) ∧
    ∀ o ∈ passed, o + sizeofFlatBinderObject ≤ pos

instance (pos : ℕ) (objs : List ℕ) : Decidable (Ordered pos objs) :=
  decidable_of_iff (∃ k < objs.length + 1, (objs.take k).Pairwise (· ≤ ·) ∧
      ∀ o ∈ objs.drop k, o + sizeofFlatBinderObject ≤ pos) <| by
    constructor
    · rintro ⟨k, -, hsorted, hpassed⟩
      exact ⟨objs.take k, objs.drop k, (take_append_drop k objs).symm, hsorted, hpassed⟩
    · rintro ⟨sorted, passed, rfl, hsorted, hpassed⟩
      refine ⟨sorted.length, ?_, ?_, ?_⟩
      · rw [length_append]
        omega
      · rwa [take_left]
      · rwa [drop_left]

/-- What the hint and the flag `mObjectsSorted` stand for. -/
structure Guarded (p : Parcel) : Prop where
  passed : ∀ o ∈ p.mObjects.take p.mNextObjectHint, o + sizeofFlatBinderObject ≤ p.mDataPos
  ordered : p.mObjectsSorted = true → Ordered p.mDataPos p.mObjects

variable {pos o upper hint m len : ℕ} {objs : List ℕ}

theorem Ordered.tail (h : Ordered pos (o :: objs)) : Ordered pos objs := by
  obtain ⟨sorted, passed, heq, hsorted, hpassed⟩ := h
  cases sorted with
  | nil =>
    have hobjs : o :: objs = passed := heq
    exact ⟨[], objs, rfl, .nil, fun x hx => hpassed x (hobjs ▸ mem_cons_of_mem o hx)⟩
  | cons a sorted =>
    obtain ⟨rfl, rfl⟩ := List.cons.inj heq
    exact ⟨sorted, passed, rfl, hsorted.tail, hpassed⟩

theorem Ordered.drop (h : Ordered pos objs) (k : ℕ) : Ordered pos (objs.drop k) := by
  induction k generalizing objs with
  | zero => exact h
  | succ k ih =>
    cases objs with
    | nil => exact h
    | cons => exact ih h.tail

/-- Behind an entry that starts after the bytes, no entry overlaps them. -/
theorem Ordered.after (h : Ordered pos (o :: objs)) (ho : upper ≤ o) :
    ∀ x ∈ o :: objs, x + sizeofFlatBinderObject ≤ pos ∨ upper ≤ x := by
  obtain ⟨sorted, passed, heq, hsorted, hpassed⟩ := h
  intro x hx
  rw [heq, mem_append] at hx
  rcases hx with hx | hx
  · right
    cases sorted with
    | nil => simp at hx
    | cons =>
      obtain ⟨rfl, -⟩ := List.cons.inj heq
      rcases mem_cons.mp hx with rfl | hx
      · exact ho
      · exact ho.trans (rel_of_pairwise_cons hsorted hx)
  · exact .inl (hpassed x hx)

theorem scanObjects_eq_none (h : Ordered pos objs) : scanObjects pos upper objs hint = none ↔
      ¬ ∀ o ∈ objs, o + sizeofFlatBinderObject ≤ pos ∨ upper ≤ o := by
  induction objs generalizing hint with
  | nil => simp [scanObjects]
  | cons o objs ih =>
    unfold scanObjects
    split_ifs with h₁ h₂
    · have hno : ¬ (o + sizeofFlatBinderObject ≤ pos ∨ upper ≤ o) := by omega
      simp only [true_iff]
      exact fun hall => hno (hall o mem_cons_self)
    · rw [ih h.tail, forall_mem_cons]
      simp [show o + sizeofFlatBinderObject ≤ pos by omega]
    · have hall := h.after (not_lt.mp h₁)
      simp only [false_iff, not_not]
      exact hall

theorem scanObjects_eq_some {hint' : ℕ} (h : scanObjects pos upper objs hint = some hint') :
    ∃ k, hint' = hint + k ∧ ∀ o ∈ objs.take k, o + sizeofFlatBinderObject ≤ pos := by
  induction objs generalizing hint with
  | nil =>
    simp only [scanObjects, Option.some.injEq] at h
    exact ⟨0, h.symm, by simp⟩
  | cons o objs ih =>
    unfold scanObjects at h
    split_ifs at h with h₁ h₂
    · obtain ⟨k, hk, hall⟩ := ih h
      refine ⟨k + 1, by omega, ?_⟩
      rw [take_succ_cons, forall_mem_cons]
      exact ⟨not_lt.mp h₂, hall⟩
    · cases h
      exact ⟨0, rfl, by simp⟩

theorem sortObjects_eq (p : Parcel) : ∃ objs hint flag, objs.Perm p.mObjects ∧ p.sortObjects =
    { p with mObjects := objs, mNextObjectHint := hint, mObjectsSorted := flag } := by
  unfold sortObjects
  split_ifs
  · exact ⟨p.mObjects, p.mNextObjectHint, p.mObjectsSorted, .refl _, rfl⟩
  · exact ⟨p.mObjects, p.mNextObjectHint, true, .refl _, rfl⟩
  · exact ⟨_, 0, true, perm_insertionSort _ _, rfl⟩

theorem Guarded.sortObjects (h : Guarded p) :
    Guarded p.sortObjects ∧ Ordered p.mDataPos p.sortObjects.mObjects := by
  have hsorted {objs : List ℕ} (hs : objs.Pairwise (· ≤ ·)) : Ordered p.mDataPos objs :=
    ⟨objs, [], (append_nil _).symm, hs, by simp⟩
  unfold Parcel.sortObjects
  split_ifs with h₁ h₂
  · refine ⟨h, ?_⟩
    rcases h₁ with h₁ | h₁
    · exact h.ordered h₁
    · refine hsorted ?_
      match hobjs : p.mObjects, h₁ with
      | [], _ => exact .nil
      | [o], _ => exact pairwise_singleton _ o
  · exact ⟨⟨h.passed, fun _ => hsorted h₂⟩, hsorted h₂⟩
  · have hins := hsorted (pairwise_insertionSort (· ≤ ·) p.mObjects)
    exact ⟨⟨by simp, fun _ => hins⟩, hins⟩

/-- `q` is `p` after it moved over `n` bytes, with its objects in some order. -/
structure Passed (p : Parcel) (n : ℕ) (q : Parcel) : Prop where
  pos : q.mDataPos = p.mDataPos + n
  size : q.mDataSize = p.mDataSize
  data : q.mData = p.mData
  objects : q.mObjects.Perm p.mObjects
  guarded : Guarded q

theorem Passed.refl (h : Guarded p) : Passed p 0 p := ⟨rfl, rfl, rfl, .refl _, h⟩

theorem Passed.trans (h₁ : Passed p m q) (h₂ : Passed q n r) : Passed p (m + n) r where
  pos := by rw [h₂.pos, h₁.pos, Nat.add_assoc]
  size := h₂.size.trans h₁.size
  data := h₂.data.trans h₁.data
  objects := h₂.objects.trans h₁.objects
  guarded := h₂.guarded

theorem Passed.log {es : List Event} (h : Passed p n q) : Passed p n (q.log es) :=
  ⟨h.pos, h.size, h.data, h.objects, h.guarded.passed, h.guarded.ordered⟩

theorem Guarded.forward (h : Guarded p) (hm : p.mDataPos ≤ m) : Guarded { p with mDataPos := m } where
  passed o ho := (h.passed o ho).trans hm
  ordered hflag := by
    obtain ⟨sorted, passed, heq, hsorted, hpassed⟩ := h.ordered hflag
    exact ⟨sorted, passed, heq, hsorted, fun o ho => (hpassed o ho).trans hm⟩

theorem validateReadData_eq (upperBound : ℕ) (p : Parcel) : ∃ st objs hint flag, objs.Perm p.mObjects ∧
    validateReadData upperBound p =
      (st, { p with mObjects := objs, mNextObjectHint := hint, mObjectsSorted := flag }) := by
  obtain ⟨objs, hint, flag, hperm, hsort⟩ := sortObjects_eq p
  unfold validateReadData
  simp only [hsort]
  split
  · exact ⟨_, _, _, _, hperm, rfl⟩
  · exact ⟨_, _, _, _, hperm, rfl⟩

theorem passOver_eq (n : ℕ) (p : Parcel) : ∃ st objs hint flag, objs.Perm p.mObjects ∧ passOver n p = (st, { p with
    mDataPos := p.mDataPos + n, mObjects := objs, mNextObjectHint := hint, mObjectsSorted := flag }) := by
  unfold passOver
  split_ifs
  · obtain ⟨st, objs, hint, flag, hperm, h⟩ := validateReadData_eq (p.mDataPos + n) p
    rw [h]
    exact ⟨_, _, _, _, hperm, rfl⟩
  · exact ⟨_, _, _, _, .refl _, rfl⟩

/-- `validateReadData` answers for exactly the bytes asked for. -/
theorem validateReadData_cases (h : Guarded p) :
    ∃ q, validateReadData (p.mDataPos + n) p = (if p.Clear n then .ok else .permissionDenied, q) ∧
      Passed p 0 q := by
  obtain ⟨hg, hord⟩ := h.sortObjects
  obtain ⟨objs, hint, flag, hperm, hsort⟩ := sortObjects_eq p
  rw [hsort] at hg hord
  have hclear : p.Clear n ↔ ∀ o ∈ objs.drop hint, o + sizeofFlatBinderObject ≤ p.mDataPos ∨ p.mDataPos + n ≤ o := by
    have hiff : p.Clear n ↔ ∀ o ∈ objs, o + sizeofFlatBinderObject ≤ p.mDataPos ∨ p.mDataPos + n ≤ o :=
      ⟨fun hc o ho => hc o (hperm.mem_iff.mp ho), fun hc o ho => hc o (hperm.mem_iff.mpr ho)⟩
    rw [hiff]
    refine ⟨fun hc o ho => hc o (mem_of_mem_drop ho), fun hc o ho => ?_⟩
    rw [← take_append_drop hint objs, mem_append] at ho
    rcases ho with ho | ho
    · exact .inl (hg.passed o ho)
    · exact hc o ho
  unfold validateReadData
  simp only [hsort]
  cases hscan : scanObjects p.mDataPos (p.mDataPos + n) (objs.drop hint) hint with
  | none =>
    have hno : ¬ p.Clear n := by
      rw [hclear]
      exact (scanObjects_eq_none (hord.drop hint)).mp hscan
    rw [if_neg hno]
    exact ⟨_, rfl, rfl, rfl, rfl, hperm, hg⟩
  | some =>
    have hyes : p.Clear n := by
      rw [hclear]
      by_contra hc
      rw [← scanObjects_eq_none (hord.drop hint), hscan] at hc
      cases hc
    rw [if_pos hyes]
    refine ⟨_, rfl, rfl, rfl, rfl, hperm, ?_, hg.ordered⟩
    obtain ⟨k, rfl, hk⟩ := scanObjects_eq_some hscan
    intro o ho
    rw [take_add, mem_append] at ho
    rcases ho with ho | ho
    · exact hg.passed o ho
    · exact hk o ho

theorem passOver_cases (h : Guarded p) :
    ∃ q, passOver n p = (if p.Clear n then .ok else .permissionDenied, q) ∧ Passed p n q := by
  unfold passOver
  split_ifs with hobj hclear
  · obtain ⟨q, hq, hp⟩ := validateReadData_cases (n := n) h
    rw [hq, if_pos hclear]
    exact ⟨_, rfl, by simpa using congrArg (· + n) hp.pos, hp.size, hp.data, hp.objects,
      hp.guarded.forward (Nat.le_add_right _ _)⟩
  · obtain ⟨q, hq, hp⟩ := validateReadData_cases (n := n) h
    rw [hq, if_neg hclear]
    exact ⟨_, rfl, by simpa using congrArg (· + n) hp.pos, hp.size, hp.data, hp.objects,
      hp.guarded.forward (Nat.le_add_right _ _)⟩
  · exact ⟨_, rfl, rfl, rfl, rfl, .refl _, h.forward (Nat.le_add_right _ _)⟩
  · rename_i hno
    have hnil : p.mObjects = [] := not_not.mp hobj
    exact absurd (fun o ho => by simp [hnil] at ho) hno

/-! ### Plain data -/

theorem padSize?_eq (h : len ≤ int32Max) : padSize? len = some (padSize len) := by
  have hmax : int32Max = 2 ^ 31 - 1 := rfl
  have hsize : sizeMax = 2 ^ 64 - 1 := rfl
  unfold padSize?
  rw [if_neg (by omega)]

theorem returns_readAligned (h : Guarded p) {bs : List UInt8} :
    Returns (readAligned n) p bs q ↔ p.mDataPos + n ≤ p.mDataSize ∧ p.Clear n ∧
      bs = p.bytesAt p.mDataPos n ∧ q = (passOver n p).2.log [.load p.mDataPos n] := by
  obtain ⟨r, hr, -⟩ := passOver_cases (n := n) h
  unfold readAligned
  rw [returns_ofFun]
  by_cases hn : p.mDataPos + n ≤ p.mDataSize
  · by_cases hc : p.Clear n
    · simp only [hn, hr, hc, if_true, Prod.mk.injEq, Except.ok.injEq, true_and, eq_comm]
    · simp [hn, hr, hc]
  · simp [hn]

theorem returns_readInplace (h : Guarded p) {mem : Memory} :
    Returns (readInplace len) p (some mem) q ↔ len ≤ int32Max ∧ p.mDataPos + padSize len ≤ p.mDataSize ∧
      p.Clear (padSize len) ∧ (∃ data, p.mData = some data ∧ mem = data.shift p.mDataPos) ∧
      q = (passOver (padSize len) p).2.log [.load p.mDataPos len] := by
  obtain ⟨r, hr, -⟩ := passOver_cases (n := padSize len) h
  rw [readInplace, returns_mk]
  by_cases hlen : len > int32Max
  · simp [hlen, not_le.mpr hlen]
  · rw [if_neg hlen, padSize?_eq (not_lt.mp hlen)]
    by_cases hn : p.mDataPos + padSize len ≤ p.mDataSize
    · by_cases hc : p.Clear (padSize len)
      · cases p.mData <;> simp [hn, hr, hc, not_lt.mp hlen, eq_comm]
      · simp [hn, hr, hc]
    · simp [hn]

end Binder.Parcel
