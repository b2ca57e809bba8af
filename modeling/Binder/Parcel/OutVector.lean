import Binder.Parcel.Read

/-! The readers of the size of an out vector in the C++, NDK and Rust back-ends. -/
namespace Binder.Parcel
open Binder.Lib Fallible List

inductive OutVector
  | aborted
  | error (status : Status)
  | null
  | sized (n : ℕ)
  deriving DecidableEq

namespace OutVector

/-- `readOutVectorSizeWithCheck`, with what the caller does with a size that passes. -/
def readOutVectorSizeWithCheck (elmSize : ℕ) (size : BitVec 32) (client : BitVec 32 → OutVector) : OutVector :=
  if size.toInt < 0 then client size
  else if elmSize > int32Max then .aborted
  else if elmSize * size.toNat > int32Max then .error .noMemory
  else if elmSize * size.toNat ≥ 1000 * 1000 then .error .noMemory
  else client size

def resizeOutVector (elmSize : ℕ) (size : BitVec 32) : OutVector :=
  readOutVectorSizeWithCheck elmSize size fun size =>
    if size.toInt < 0 then .error .unexpectedNull else .sized size.toNat

/-- The forms for `std::optional` and `std::unique_ptr`. -/
def resizeOutVectorNullable (elmSize : ℕ) (size : BitVec 32) : OutVector :=
  readOutVectorSizeWithCheck elmSize size fun size => if size.toInt ≥ 0 then .sized size.toNat else .null

def resizeVector (size : BitVec 32) : OutVector :=
  if size.toInt < 0 then .error .unexpectedNull
  else if size.toInt > 1000000 then .error .noMemory
  else .sized size.toNat

def resizeVectorNullable (size : BitVec 32) : OutVector :=
  if size.toInt < -1 then .error .unexpectedNull
  else if size.toInt = -1 then .null
  else if size.toInt > 1000000 then .error .noMemory
  else .sized size.toNat

def resizeOutVec (len : BitVec 32) : OutVector :=
  if len.toInt < 0 then .error .unexpectedNull else .sized len.toNat

def resizeNullableOutVec (len : BitVec 32) : OutVector := if len.toInt < 0 then .null else .sized len.toNat

def nullableReaders (elmSize : ℕ) : List (BitVec 32 → OutVector) :=
  [resizeOutVectorNullable elmSize, resizeVectorNullable, resizeNullableOutVec]

def readers (elmSize : ℕ) : List (BitVec 32 → OutVector) :=
  [resizeOutVector elmSize, resizeVector, resizeOutVec] ++ nullableReaders elmSize

/-- A reader on a parcel: the size comes first, and its errors are returned. -/
def read (reader : BitVec 32 → OutVector) (p : Parcel) : OutVector :=
  match readInt32.run.run p with
  | some (.ok size, _) => reader size
  | some (.error status, _) => .error status
  | none => .aborted

variable {elmSize : ℕ} {p q : Parcel} {size : BitVec 32}

def Bounded : OutVector → Prop
  | .aborted => False
  | .error _ | .null => True
  | .sized n => n ≤ 1000000

theorem read_eq (h : Returns readInt32 p size q) (reader : BitVec 32 → OutVector) : read reader p = reader size := by
  unfold read
  rw [show readInt32.run.run p = _ from h]

theorem toInt_cases (size : BitVec 32) : size.toInt < 0 ∨ size.toInt = size.toNat := by
  have hcast := BitVec.toInt_eq_toNat_cond size
  split_ifs at hcast <;> omega

theorem bounded_withCheck (hpos : 0 < elmSize) (hmax : elmSize ≤ int32Max) (client : BitVec 32 → OutVector)
    (hneg : size.toInt < 0 → Bounded (client size)) (hsized : 0 ≤ size.toInt → client size = .sized size.toNat) :
    Bounded (readOutVectorSizeWithCheck elmSize size client) := by
  have hle : size.toNat ≤ elmSize * size.toNat := Nat.le_mul_of_pos_left _ hpos
  unfold readOutVectorSizeWithCheck
  split_ifs with hnull
  · exact hneg hnull
  · omega
  · trivial
  · trivial
  · rw [hsized (by omega)]
    change size.toNat ≤ 1000000
    omega

theorem bounded_readers (hpos : 0 < elmSize) (hmax : elmSize ≤ int32Max) (hwire : size.toInt ≤ 1000000) :
    ∀ reader ∈ readers elmSize, Bounded (reader size) := by
  have hcast := toInt_cases size
  simp only [readers, nullableReaders, cons_append, nil_append, forall_mem_cons]
  refine ⟨?_, ?_, ?_, ?_, ?_, ?_, by simp⟩
  · apply bounded_withCheck hpos hmax
    · intro hneg
      simp [hneg, Bounded]
    · intro hge
      simp [not_lt.mpr hge]
  · unfold resizeVector
    split_ifs <;> simp only [Bounded]
    omega
  · unfold resizeOutVec
    split_ifs <;> simp only [Bounded]
    omega
  · apply bounded_withCheck hpos hmax
    · intro hneg
      simp [not_le.mpr hneg, Bounded]
    · intro hge
      simp [hge]
  · unfold resizeVectorNullable
    split_ifs <;> simp only [Bounded]
    omega
  · unfold resizeNullableOutVec
    split_ifs <;> simp only [Bounded]
    omega

theorem null_iff (hwire : -1 ≤ size.toInt) : ∀ reader ∈ nullableReaders elmSize, reader size = .null ↔ size.toInt < 0 := by
  simp only [nullableReaders, forall_mem_cons]
  refine ⟨?_, ?_, ?_, by simp⟩
  · unfold resizeOutVectorNullable readOutVectorSizeWithCheck
    split_ifs <;> simp <;> omega
  · unfold resizeVectorNullable
    split_ifs <;> simp <;> omega
  · unfold resizeNullableOutVec
    split_ifs <;> simp <;> omega

/-- All back-ends are bounded and agree on null vectors just for sizes from -1 to a million. -/
theorem sizes_bounded_iff (hpos : 0 < elmSize) (hmax : elmSize ≤ int32Max) (h : Returns readInt32 p size q) :
    (∀ reader ∈ readers elmSize, Bounded (read reader p)) ∧
        (∀ reader ∈ nullableReaders elmSize, ∀ reader' ∈ nullableReaders elmSize,
          (read reader p = .null ↔ read reader' p = .null)) ↔
      -1 ≤ size.toInt ∧ size.toInt ≤ 1000000 := by
  simp only [read_eq h]
  constructor
  · rintro ⟨hbounded, hagree⟩
    constructor
    · have hnull := hagree resizeVectorNullable (by simp [nullableReaders]) resizeNullableOutVec
        (by simp [nullableReaders])
      by_contra hlt
      rw [resizeVectorNullable, if_pos (by omega), resizeNullableOutVec, if_pos (by omega)] at hnull
      simp at hnull
    · have hrust := hbounded resizeOutVec (by simp [readers])
      have hcast := toInt_cases size
      by_contra hlt
      rw [resizeOutVec, if_neg (by omega)] at hrust
      change size.toNat ≤ 1000000 at hrust
      omega
  · rintro ⟨hge, hle⟩
    refine ⟨bounded_readers hpos hmax hle, fun reader hr reader' hr' => ?_⟩
    rw [null_iff hge reader hr, null_iff hge reader' hr']

def sizeOnly (size : BitVec 32) : Parcel :=
  { mData := some (.ofBytes (leBytes 4 size.toNat)), mDataSize := 4, mDataCapacity := 4 }

theorem sizes_bounded_three : (∀ reader ∈ readers 8, Bounded (read reader (sizeOnly 3))) ∧
    read (resizeOutVectorNullable 8) (sizeOnly 3) = .sized 3 := by
  have hread : Returns readInt32 (sizeOnly 3) 3 _ := rfl
  exact ⟨((sizes_bounded_iff (by decide) (by decide) hread).mpr (by decide)).1, rfl⟩

/-- Rust allocates as many elements as the size says, and the NDK takes only -1 for null. -/
theorem not_sizes_bounded : read resizeOutVec (sizeOnly 0x7fffffff) = .sized 2147483647 ∧
    read resizeNullableOutVec (sizeOnly 0x7fffffff) = .sized 2147483647 ∧
    read resizeVectorNullable (sizeOnly (-2)) = .error .unexpectedNull ∧
    read resizeNullableOutVec (sizeOnly (-2)) = .null ∧ read (resizeOutVectorNullable 4) (sizeOnly (-2)) = .null := by
  decide

end OutVector

end Binder.Parcel
