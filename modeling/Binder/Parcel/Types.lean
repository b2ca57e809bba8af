import Binder.Lib.Codec
import Binder.Parcel.Append
import Binder.Parcel.Cursor

/-! The types that `writeData` and `readData` handle, and the two functions. -/
namespace Binder.Parcel
open Binder.Lib

/-! ### Scalars -/

inductive Integral
  | bool | int8 | uint8 | char16 | int32 | uint32 | int64 | uint64
  deriving DecidableEq, Repr

/-- An enumeration is given by its underlying type. -/
inductive Scalar
  | integral (u : Integral)
  | float
  | double
  | enum (u : Integral)
  deriving DecidableEq, Repr

namespace Integral

def Val : Integral → Type
  | .bool => Bool
  | .int8 | .uint8 => BitVec 8
  | .char16 => BitVec 16
  | .int32 | .uint32 => BitVec 32
  | .int64 | .uint64 => BitVec 64

def flag (n : ℕ) (hn : 0 < n) : Codec Bool :=
  (Codec.word (8 * n) n le_rfl).via (fun b => if b then 1 else 0) (· != 0) fun b => by
    cases b <;> simp
    omega

def object : (u : Integral) → Codec u.Val
  | .bool => flag 1 (by decide)
  | .int8 | .uint8 => Codec.word 8 1 (by decide)
  | .char16 => Codec.word 16 2 (by decide)
  | .int32 | .uint32 => Codec.word 32 4 (by decide)
  | .int64 | .uint64 => Codec.word 64 8 (by decide)

def signed8 : Codec (BitVec 8) :=
  (Codec.word 32 4 (by decide)).via (·.signExtend 32) (·.setWidth 8) fun v => by
    ext i hi
    simp only [BitVec.getElem_setWidth, BitVec.getLsbD_signExtend, hi, if_true]
    simp [show i < 32 by omega, BitVec.getLsbD_eq_getElem hi]

def widened16 : Codec (BitVec 16) :=
  (Codec.word 32 4 (by decide)).via (·.setWidth 32) (·.setWidth 16) fun v => by simp

/-- The bytes of a single value in a parcel. -/
def wire : (u : Integral) → Codec u.Val
  | .bool => flag 4 (by decide)
  | .int8 | .uint8 => signed8
  | .char16 => widened16
  | .int32 | .uint32 => Codec.word 32 4 (by decide)
  | .int64 | .uint64 => Codec.word 64 8 (by decide)

def write (env : Env) : (u : Integral) → u.Val → Parcel → Status × Parcel
  | .bool => writeBool env
  | .int8 => writeByte env
  | .uint8 => writeByte env
  | .char16 => writeChar env
  | .int32 => writeInt32 env
  | .uint32 => writeUint32 env
  | .int64 => writeInt64 env
  | .uint64 => writeUint64 env

def read : (u : Integral) → Read u.Val
  | .bool => readBool
  | .int8 => readByte
  | .uint8 => readByte
  | .char16 => readChar
  | .int32 => readInt32
  | .uint32 => readUint32
  | .int64 => readInt64
  | .uint64 => readUint64

end Integral

namespace Scalar

def Val : Scalar → Type
  | .integral u | .enum u => u.Val
  | .float => BitVec 32
  | .double => BitVec 64

def object : (s : Scalar) → Codec s.Val
  | .integral u | .enum u => u.object
  | .float => Codec.word 32 4 (by decide)
  | .double => Codec.word 64 8 (by decide)

def wire : (s : Scalar) → Codec s.Val
  | .integral u | .enum u => u.wire
  | .float => Codec.word 32 4 (by decide)
  | .double => Codec.word 64 8 (by decide)

def write (env : Env) : (s : Scalar) → s.Val → Parcel → Status × Parcel
  | .integral u | .enum u => u.write env
  | .float => writeFloat env
  | .double => writeDouble env

def read : (s : Scalar) → Read s.Val
  | .integral u | .enum u => u.read
  | .float => readFloat
  | .double => readDouble

/-- `is_pointer_equivalent_array_v`: an array of the type is written as it lies in memory. -/
def pointerEquivalent : Scalar → Bool
  | .integral .bool | .integral .char16 => false
  | .integral _ | .float | .double => true
  | .enum u => u.object.size = 1 || u.object.size = 4

end Scalar

/-! ### Types -/

/-- What is outside the library in a parcelable. -/
structure Parcelable where
  Val : Type
  writeToParcel : Env → Val → Parcel → Status × Parcel
  readFromParcel : Read Val

/-- `utf8_to_utf16` and back, `none` where the length functions return a negative number. -/
structure Utf where
  toUtf16 : List UInt8 → Option (List (BitVec 16))
  toUtf8 : List (BitVec 16) → Option (List UInt8)

inductive Kind
  | scalar | object | nullable

/-- Only an object can be the target of a `std::optional`, `std::unique_ptr` or `std::shared_ptr`. The
bound on the length of an array is a `static_assert`. `utf8` is `std::string`. -/
inductive Ty (ι : Type) : Kind → Type
  | scalar (s : Scalar) : Ty ι .scalar
  | string16 : Ty ι .object
  | utf8 : Ty ι .object
  | parcelable (i : ι) : Ty ι .object
  | vector {k : Kind} (t : Ty ι k) : Ty ι .object
  | array {k : Kind} (t : Ty ι k) (n : ℕ) (hn : n ≤ int32Max) : Ty ι .object
  | nullable (t : Ty ι .object) : Ty ι .nullable

namespace Ty

variable {ι : Type} {k : Kind} (P : ι → Parcelable)

def Val : {k : Kind} → Ty ι k → Type
  | _, .scalar s => s.Val
  | _, .string16 => List (BitVec 16)
  | _, .utf8 => List UInt8
  | _, .parcelable i => (P i).Val
  | _, .vector t => List t.Val
  | _, .array t n _ => { vs : List t.Val // vs.length = n }
  | _, .nullable t => Option t.Val

/-- The elements of a vector or an array that are written as they lie in memory. -/
def packed? : {k : Kind} → (t : Ty ι k) → Option (Codec (t.Val P))
  | _, .scalar s => if s.pointerEquivalent then some s.object else none
  | _, .string16 | _, .utf8 | _, .parcelable _ | _, .vector _ | _, .array .. | _, .nullable _ => none

/-- The elements of a vector that are written as a block of `int32_t`. -/
def widened? : {k : Kind} → (t : Ty ι k) → Option (Codec (t.Val P))
  | _, .scalar s => if s = .integral .bool ∨ s = .integral .char16 then some s.wire else none
  | _, .string16 | _, .utf8 | _, .parcelable _ | _, .vector _ | _, .array .. | _, .nullable _ => none

/-- The first word of a null value: `kNullVectorSize` or `kNullParcelableFlag`. -/
def nullWord : Ty ι .object → BitVec 32
  | .parcelable _ => 0
  | .string16 | .utf8 | .vector _ | .array .. => -1

end Ty

def kNonNullParcelableFlag : BitVec 32 := 1

/-! ### Writing -/

/-- The elements one after the other, up to the first error. -/
def writeEach {α : Type} (f : α → Parcel → Status × Parcel) : List α → Parcel → Status × Parcel
  | [], p => (.ok, p)
  | a :: as, p => match f a p with
    | (.ok, p) => writeEach f as p
    | r => r

/-- `write` of the elements as they lie in memory. -/
def writePacked {α : Type} (env : Env) (c : Codec α) (vs : List α) (p : Parcel) : Status × Parcel :=
  let bytes := vs.flatMap c.encode
  write env ((dataPtr env p.mDataPos bytes).map .ofBytes) bytes.length p

/-- The block of `int32_t` for the elements of a `std::vector<bool>` or `std::vector<char16_t>`. -/
def writeWidened {α : Type} (env : Env) (c : Codec α) (vs : List α) (p : Parcel) : Status × Parcel :=
  let bytes := vs.flatMap c.encode
  match writeInplace env bytes.length p with
  | (some data, p) => (.ok, p.store data (.ofBytes bytes) bytes.length)
  | (none, p) => (.badValue, p)

def writeUtf8AsUtf16 (U : Utf) (env : Env) (str : List UInt8) (p : Parcel) : Status × Parcel :=
  match U.toUtf16 str with
  | none => (.badValue, p)
  | some units =>
    if units.length > int32Max then (.badValue, p)
    else match writeInt32 env (.ofNat 32 units.length) p with
      | (.ok, p) => match writeInplace env ((units.length + 1) * 2) p with
        | (some dst, p) => (.ok, p.store dst (.ofBytes (char16Bytes units ++ [0, 0])) ((units.length + 1) * 2))
        | (none, p) => (.noMemory, p)
      | r => r

section Data

variable {ι : Type} (U : Utf) (P : ι → Parcelable)

def writeData (env : Env) : {k : Kind} → (t : Ty ι k) → t.Val P → Parcel → Status × Parcel
  | _, .scalar s, v, p => s.write env v p
  | _, .string16, v, p => writeString16 env v p
  | _, .utf8, v, p => writeUtf8AsUtf16 U env v p
  | _, .parcelable i, v, p => match writeInt32 env kNonNullParcelableFlag p with
    | (.ok, p) => (P i).writeToParcel env v p
    | r => r
  | _, .vector t, vs, p =>
    if vs.length > int32Max then (.badValue, p)
    else
      -- the status of this write is dropped
      let p := (writeInt32 env (.ofNat 32 vs.length) p).2
      match t.packed? P with
      | some c => writePacked env c vs p
      | none => match t.widened? P with
        | some c => writeWidened env c vs p
        | none => writeEach (writeData env t) vs p
  | _, .array t n _, vs, p => match writeInt32 env (.ofNat 32 n) p with
    | (.ok, p) => match t.packed? P with
      | some c => writePacked env c vs.val p
      | none => writeEach (writeData env t) vs.val p
    | r => r
  | _, .nullable t, none, p => writeInt32 env t.nullWord p
  | _, .nullable t, some v, p => writeData env t v p

/-! ### Reading -/

def elementsAt {α : Type} (c : Codec α) (data : Memory) (size : ℕ) : List α :=
  (List.range size).map fun i => c.decode (data.load (i * c.size) c.size)

def readBlock {α : Type} (c : Codec α) (size : ℕ) : Read { vs : List α // vs.length = size } := do
  match ← readInplace (size * c.size) with
  | some data => return ⟨elementsAt c data size, by simp [elementsAt]⟩
  | none => throw .badValue

def readUtf8FromUtf16 : Read (List UInt8) := do
  match ← readString16Inplace with
  | none => throw .unexpectedNull
  | some (src, size) =>
    if size = 0 then return []
    else match U.toUtf8 ((List.range size).map (charAt src)) with
      | some str => return str
      | none => throw .badValue

def readData : {k : Kind} → (t : Ty ι k) → Read (t.Val P)
  | _, .scalar s => s.read
  | _, .string16 => readString16
  | _, .utf8 => readUtf8FromUtf16 U
  | _, .parcelable i => do
    let present ← readInt32
    if present ≠ kNonNullParcelableFlag then throw .unexpectedNull
    else (P i).readFromParcel
  | _, .vector t => do
    let size ← readInt32
    if size.toInt < 0 then throw .unexpectedNull
    else
      let availableBytes ← readAvail
      if size.toNat > availableBytes then throw .badValue
      else
        let vs ← match t.packed? P with
          | some c => readBlock c size.toNat
          | none => match t.widened? P with
            | some c => readBlock c size.toNat
            | none => Fallible.times (readData t) size.toNat
        return vs.val
  | _, .array t n _ => do
    let size ← readInt32
    if size.toInt < 0 then throw .unexpectedNull
    else if size ≠ .ofNat 32 n then throw .badValue
    else match t.packed? P with
      | some c => readBlock c n
      | none => Fallible.times (readData t) n
  | _, .nullable t => do
    let startPos ← dataPosition
    let peek ← readInt32
    if peek = t.nullWord then return none
    else
      rewind startPos
      return some (← readData t)

end Data

end Binder.Parcel
