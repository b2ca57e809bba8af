import Mathlib.Tactic.Ring
import Binder.Parcel.Read

/-! Padded blocks, and what `write` is handed for a container. -/
namespace Binder.Parcel
open Binder.Lib List

variable {pos len i : ℕ}

def padded (bs : List UInt8) : List UInt8 := bs ++ List.replicate (padSize bs.length - bs.length) 0

@[simp] theorem length_padded (bs : List UInt8) : (padded bs).length = padSize bs.length := by
  have := le_padSize bs.length
  simp [padded]
  omega

def padMask (pos len size : ℕ) (mem : Memory) : Memory :=
  if size ≠ len then
    Memory.memcpy mem (pos + size - 4) (fun i => if i < 4 - (size - len) then mem (pos + size - 4 + i) else 0) 4
  else mem

theorem applyPadMask_eq (len size : ℕ) (p : Parcel) : ∃ es, applyPadMask len size p =
    { p with mData := p.mData.map (padMask p.mDataPos len size), events := es } := by
  unfold applyPadMask padMask
  split_ifs
  · refine ⟨.store (p.mDataPos + size - 4) 4 p.mDataCapacity :: p.events, ?_⟩
    cases hd : p.mData with
    | none | some => simp [store, log, hd]
  · exact ⟨p.events, by simp⟩

theorem padMask_padding (mem : Memory) (h₁ : pos + len ≤ i) (h₂ : i < pos + padSize len) :
    padMask pos len (padSize len) mem i = 0 := by
  unfold padMask
  unfold padSize at h₂ ⊢
  rw [if_pos (by omega)]
  simp only [Memory.memcpy]
  rw [if_pos (by omega), if_neg (by omega)]

/-- The reserved bytes are the padded ones, once `bs` is stored there. -/
theorem load_padMask (mem : Memory) (pos : ℕ) (bs : List UInt8) :
    (Memory.memcpy (padMask pos bs.length (padSize bs.length) mem) pos (.ofBytes bs) bs.length).load pos
      (padSize bs.length) = padded bs := by
  have hle := le_padSize bs.length
  rw [show padSize bs.length = bs.length + (padSize bs.length - bs.length) by omega, Memory.load_add,
    Memory.load_memcpy, Memory.load_ofBytes]
  congr 1
  refine eq_replicate_iff.mpr ⟨by simp, fun b hb => ?_⟩
  obtain ⟨i, hi, rfl⟩ := mem_map.mp hb
  rw [mem_range] at hi
  simp only [Memory.memcpy]
  rw [if_neg (by omega), show bs.length + (padSize bs.length - bs.length) = padSize bs.length by omega]
  exact padMask_padding mem (by omega) (by omega)

/-- What `data()` of a container gives; for an empty one that is up to the container. -/
def dataPtr (env : Env) (pos : ℕ) (bs : List UInt8) : Option (List UInt8) :=
  if bs = [] ∧ env.emptyData pos = false then none else some bs

theorem getD_dataPtr (env : Env) (pos : ℕ) (bs : List UInt8) : (dataPtr env pos bs).getD [] = bs := by
  unfold dataPtr
  split_ifs with hnull
  · exact hnull.1.symm
  · rfl

@[simp] theorem length_char16Bytes (str : List (BitVec 16)) : (char16Bytes str).length = str.length * 2 := by
  simp [char16Bytes, length_flatMap]

theorem ofBytes_replicate (n : ℕ) : Memory.ofBytes (List.replicate n 0) = fun _ => 0 := by
  funext i
  simp [Memory.ofBytes]

end Binder.Parcel
