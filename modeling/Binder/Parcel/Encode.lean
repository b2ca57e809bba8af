import Binder.Parcel.Types

/-! The blocks that `writeData` writes. -/
namespace Binder.Parcel
open Binder.Lib

variable {ι : Type} {U : Utf} {P : ι → Parcelable} {env : Env} {p q : Parcel}

def wordBytes (v : BitVec 32) : List UInt8 := leBytes 4 v.toNat

theorem length_wordBytes (v : BitVec 32) : (wordBytes v).length = 4 := length_leBytes 4 v.toNat

def stringChunks (units : List (BitVec 16)) : List (List UInt8) :=
  [wordBytes (.ofNat 32 units.length), padded (char16Bytes units ++ [0, 0])]

section Chunks

variable (U) (B : ∀ i, (P i).Val → List (List UInt8))

/-- `B` gives the blocks of a parcelable behind its flag. -/
def chunks : {k : Kind} → (t : Ty ι k) → t.Val P → List (List UInt8)
  | _, .scalar s, v => [s.wire.encode v]
  | _, .string16, v => stringChunks v
  | _, .utf8, v => (U.toUtf16 v).elim [] stringChunks
  | _, .parcelable i, v => wordBytes kNonNullParcelableFlag :: B i v
  | _, .vector t, vs => wordBytes (.ofNat 32 vs.length) ::
    match t.packed? P with
    | some c => [padded (vs.flatMap c.encode)]
    | none => match t.widened? P with
      | some c => [padded (vs.flatMap c.encode)]
      | none => vs.flatMap (chunks t)
  | _, .array t n _, vs => wordBytes (.ofNat 32 n) ::
    match t.packed? P with
    | some c => [padded (vs.val.flatMap c.encode)]
    | none => vs.val.flatMap (chunks t)
  | _, .nullable t, none => [wordBytes t.nullWord]
  | _, .nullable t, some v => chunks t v

end Chunks

/-! ### The writer -/

theorem Integral.write_eq (u : Integral) (v : u.Val) : u.write env v = writeAligned env (u.wire.encode v) := by
  cases u <;> rfl

theorem Scalar.write_eq (s : Scalar) (v : s.Val) : s.write env v = writeAligned env (s.wire.encode v) := by
  cases s with
  | integral u | enum u => exact u.write_eq v
  | float | double => rfl

theorem Integral.wire_size (u : Integral) : u.wire.size = 4 ∨ u.wire.size = 8 := by
  cases u <;> first | exact .inl rfl | exact .inr rfl

theorem Scalar.wire_size (s : Scalar) : s.wire.size = 4 ∨ s.wire.size = 8 := by
  cases s with
  | integral u | enum u => exact u.wire_size
  | float => exact .inl rfl
  | double => exact .inr rfl

end Binder.Parcel
