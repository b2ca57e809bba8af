import Mathlib.Data.List.GetD
import Mathlib.Data.List.Range

/-! Blocks of bytes as functions of the offset, and the lists of bytes they hold. -/
namespace Binder.Lib
open List

abbrev Memory := ℕ → UInt8

namespace Memory

/-- `memcpy(mem + dst, src, len)`. -/
def memcpy (mem : Memory) (dst : ℕ) (src : Memory) (len : ℕ) : Memory :=
  fun i => if dst ≤ i ∧ i < dst + len then src (i - dst) else mem i

def ofBytes (bs : List UInt8) : Memory := fun i => bs.getD i 0

def load (mem : Memory) (off len : ℕ) : List UInt8 := (List.range len).map fun i => mem (off + i)

/-- The block that starts at `off`. -/
def shift (mem : Memory) (off : ℕ) : Memory := fun i => mem (off + i)

variable {mem mem' src : Memory} {off dst len m n : ℕ} {bs cs : List UInt8}

@[simp] theorem length_load : (mem.load off len).length = len := by simp [load]

@[simp] theorem load_shift {i : ℕ} : (mem.shift off).load i len = mem.load (off + i) len := by
  simp [load, shift, Nat.add_assoc]

theorem load_congr (h : ∀ i < len, mem (off + i) = mem' (dst + i)) : mem.load off len = mem'.load dst len := by
  exact map_congr_left fun i hi => h i (mem_range.mp hi)

theorem load_add : mem.load off (m + n) = mem.load off m ++ mem.load (off + m) n := by
  simp [load, range_add, Nat.add_assoc]

theorem load_ofBytes : (ofBytes bs).load 0 bs.length = bs := by
  refine ext_getElem (by simp) fun i h₁ h₂ => ?_
  simp [load, ofBytes, h₂]

theorem load_memcpy : (memcpy mem dst src len).load dst len = src.load 0 len := by
  refine load_congr fun i hi => ?_
  simp [memcpy, hi]

theorem load_memcpy_of_disjoint (h : off + n ≤ dst ∨ dst + len ≤ off) :
    (memcpy mem dst src len).load off n = mem.load off n := by
  refine load_congr fun i hi => ?_
  exact if_neg (by omega)

@[simp] theorem memcpy_zero : memcpy mem dst src 0 = mem := by
  funext i
  simp [memcpy, show ¬ (dst ≤ i ∧ i < dst) by omega]

theorem memcpy_append (mem : Memory) (dst : ℕ) (bs cs : List UInt8) :
    memcpy (memcpy mem dst (ofBytes bs) bs.length) (dst + bs.length) (ofBytes cs) cs.length =
      memcpy mem dst (ofBytes (bs ++ cs)) (bs ++ cs).length := by
  funext i
  simp only [memcpy, ofBytes, length_append]
  by_cases h₁ : dst + bs.length ≤ i
  · rw [getD_append_right _ _ _ _ (by omega), show i - dst - bs.length = i - (dst + bs.length) by omega]
    split_ifs <;> first | rfl | omega
  · rw [if_neg (by omega)]
    by_cases h₂ : dst ≤ i
    · rw [getD_append _ _ _ _ (by omega), if_pos (by omega), if_pos (by omega)]
    · rw [if_neg (by omega), if_neg (by omega)]

theorem load_eq_append : mem.load off (bs ++ cs).length = bs ++ cs ↔
    mem.load off bs.length = bs ∧ mem.load (off + bs.length) cs.length = cs := by
  rw [length_append, load_add]
  constructor
  · intro h
    exact append_inj h length_load
  · rintro ⟨h₁, h₂⟩
    rw [h₁, h₂]

/-- The `len` bytes of `mem` at `off` are those of `mem'` at `dst`. -/
def SameRange (len : ℕ) (mem : Memory) (off : ℕ) (mem' : Memory) (dst : ℕ) : Prop :=
  ∀ i < len, mem (off + i) = mem' (dst + i)

theorem SameRange.memcpy (k : ℕ) (src : Memory) (n : ℕ) (h : SameRange len mem off mem' dst) :
    SameRange len (memcpy mem (off + k) src n) off (memcpy mem' (dst + k) src n) dst := by
  intro i hi
  simp only [Memory.memcpy]
  by_cases hin : k ≤ i ∧ i < k + n
  · rw [if_pos (by omega), if_pos (by omega), Nat.add_sub_add_left, Nat.add_sub_add_left]
  · rw [if_neg (by omega), if_neg (by omega)]
    exact h i hi

end Memory

end Binder.Lib
