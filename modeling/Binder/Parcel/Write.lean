import Binder.Parcel.State

/-! The operations that write into a `Parcel`. -/
namespace Binder.Parcel
open Binder.Lib

/-! ### Size and position -/

def setDataSize (env : Env) (size : ℕ) (p : Parcel) : Status × Parcel :=
  if size > int32Max then (.badValue, p)
  else match continueWrite env size p with
    | (.ok, p) => (.ok, { p with mDataSize := size })
    | r => r

/-- `none` where the process aborts. -/
def setDataPosition (pos : ℕ) (p : Parcel) : Option Parcel :=
  if pos > int32Max then none
  else some { p with mDataPos := pos, mNextObjectHint := 0, mObjectsSorted := false }

theorem setDataPosition_eq_some {pos : ℕ} {p q : Parcel} : setDataPosition pos p = some q ↔
    pos ≤ int32Max ∧ q = { p with mDataPos := pos, mNextObjectHint := 0, mObjectsSorted := false } := by
  unfold setDataPosition
  split_ifs with hmax
  · simp [hmax]
  · simp [not_lt.mp hmax, eq_comm]

def setDataCapacity (env : Env) (size : ℕ) (p : Parcel) : Status × Parcel :=
  if size > int32Max then (.badValue, p)
  else if size > p.mDataCapacity then continueWrite env size p
  else (.ok, p)

def setData (env : Env) (buffer : Memory) (len : ℕ) (p : Parcel) : Status × Parcel :=
  if len > int32Max then (.badValue, p)
  else match restartWrite env len p with
    | (.ok, p) => (.ok, { p.store 0 buffer len with mDataSize := len, mFdsKnown := false })
    | r => r

def markSensitive (p : Parcel) : Parcel := { p with mDeallocZero := true }

/-! ### Plain data -/

def padSize (s : ℕ) : ℕ := (s + 3) / 4 * 4

theorem le_padSize (n : ℕ) : n ≤ padSize n := by
  unfold padSize
  omega

/-- Room for `n` bytes at the position, after one attempt to grow. -/
def withRoom (env : Env) (n : ℕ) (p : Parcel) : Status × Parcel :=
  if (p.mDataPos + n) % 2 ^ 64 ≤ p.mDataCapacity then (.ok, p) else growData env n p

def writeUnpadded (env : Env) (data : Memory) (len : ℕ) (p : Parcel) : Status × Parcel :=
  if len > int32Max then (.badValue, p)
  else if (p.mDataPos + len) % 2 ^ 64 < p.mDataPos then (.badValue, p)
  else match withRoom env len p with
    | (.ok, p) => finishWrite len (p.store p.mDataPos data len)
    | r => r

/-- Zero the `padded - len` bytes of padding in the last word of the `padded` bytes at the position. -/
def applyPadMask (len padded : ℕ) (p : Parcel) : Parcel :=
  if padded ≠ len then
    let word := p.mDataPos + padded - 4
    let masked := fun i => if i < 4 - (padded - len) then p.mData.elim 0 fun mem => mem (word + i) else 0
    p.store word masked 4
  else p

/-- The offset of the reserved bytes; `none` is a null pointer. -/
def writeInplace (env : Env) (len : ℕ) (p : Parcel) : Option ℕ × Parcel :=
  if len > int32Max then (none, p)
  else
    let padded := padSize len
    if (p.mDataPos + padded) % 2 ^ 64 < p.mDataPos then (none, p)
    else match withRoom env padded p with
      | (.ok, p) => (p.mData.map fun _ => p.mDataPos, (finishWrite padded (applyPadMask len padded p)).2)
      | (_, p) => (none, p)

/-- `data` is `none` for a null pointer. -/
def write (env : Env) (data : Option Memory) (len : ℕ) (p : Parcel) : Status × Parcel :=
  if len > int32Max then (.badValue, p)
  else match writeInplace env len p, data with
    | (some d, p), some data => (.ok, p.store d data len)
    | (_, p), _ => (p.mError, p)

def writeAligned (env : Env) (val : List UInt8) (p : Parcel) : Status × Parcel :=
  match withRoom env val.length p with
  | (.ok, p) => finishWrite val.length (p.store p.mDataPos (.ofBytes val) val.length)
  | r => r

/-! ### Typed values, with floats as bit patterns -/

def writeInt32 (env : Env) (val : BitVec 32) : Parcel → Status × Parcel :=
  writeAligned env (leBytes 4 val.toNat)

def writeUint32 (env : Env) (val : BitVec 32) : Parcel → Status × Parcel :=
  writeAligned env (leBytes 4 val.toNat)

def writeInt64 (env : Env) (val : BitVec 64) : Parcel → Status × Parcel :=
  writeAligned env (leBytes 8 val.toNat)

def writeUint64 (env : Env) (val : BitVec 64) : Parcel → Status × Parcel :=
  writeAligned env (leBytes 8 val.toNat)

def writeFloat (env : Env) (val : BitVec 32) : Parcel → Status × Parcel :=
  writeAligned env (leBytes 4 val.toNat)

def writeDouble (env : Env) (val : BitVec 64) : Parcel → Status × Parcel :=
  writeAligned env (leBytes 8 val.toNat)

def writeBool (env : Env) (val : Bool) : Parcel → Status × Parcel :=
  writeInt32 env (if val then 1 else 0)

def writeChar (env : Env) (val : BitVec 16) : Parcel → Status × Parcel :=
  writeInt32 env (val.setWidth 32)

def writeByte (env : Env) (val : BitVec 8) : Parcel → Status × Parcel :=
  writeInt32 env (val.signExtend 32)

def char16Bytes (str : List (BitVec 16)) : List UInt8 := str.flatMap fun c => leBytes 2 c.toNat

def writeString16 (env : Env) (str : List (BitVec 16)) (p : Parcel) : Status × Parcel :=
  match writeInt32 env (.ofNat 32 str.length) p with
  | (.ok, p) =>
    let len := str.length * 2
    match writeInplace env (len + 2) p with
    | (some data, p) =>
      (.ok, (p.store data (.ofBytes (char16Bytes str)) len).store (data + len) (fun _ => 0) 2)
    | (none, p) => (p.mError, p)
  | r => r

/-- `str` is `none` for a null pointer. -/
def writeString8 (env : Env) (str : Option (List UInt8)) (p : Parcel) : Status × Parcel :=
  match str with
  | none => writeInt32 env (-1) p
  | some str => match writeInt32 env (.ofNat 32 str.length) p with
    | (.ok, p) =>
      match writeInplace env (str.length + 1) p with
      | (some data, p) =>
        (.ok, (p.store data (.ofBytes str) str.length).store (data + str.length) (fun _ => 0) 1)
      | (none, p) => (p.mError, p)
    | r => r

/-! ### Objects -/

/-- Room for `n` more entries in the table of objects, `none` if it cannot grow. -/
def growObjects (env : Env) (n : ℕ) (p : Parcel) : Option Parcel :=
  let newSize := (p.mObjects.length + n) * 3 / 2
  if n > sizeMax - p.mObjects.length ∨ p.mObjects.length + n > sizeMax / 3 ∨
      newSize > sizeMax / sizeofBinderSize ∨ env.growObjects = false then none
  else some { p with mObjectsCapacity := newSize }

def noteFd (val : FlatBinderObject) (p : Parcel) : Parcel :=
  if val.type = binderTypeFd then { p with mHasFds := true, mFdsKnown := true } else p

def noteObject (val : FlatBinderObject) (nullMetaData : Bool) (p : Parcel) : Parcel :=
  if nullMetaData ∨ val.binder ≠ 0 then
    { p with mObjects := p.mObjects ++ [p.mDataPos] }.log [.acquire val]
  else p

/-- `writeObject` once there is room. -/
def putObject (val : FlatBinderObject) (nullMetaData : Bool) (p : Parcel) : Status × Parcel :=
  let p := p.store p.mDataPos (.ofBytes val.bytes) sizeofFlatBinderObject
  if val.type = binderTypeFd ∧ p.mAllowFds = false then (.fdsNotAllowed, p)
  else finishWrite sizeofFlatBinderObject (noteObject val nullMetaData (noteFd val p))

def writeObject (env : Env) (val : FlatBinderObject) (nullMetaData : Bool) (p : Parcel) : Status × Parcel :=
  let enoughObjects := p.mObjects.length < p.mObjectsCapacity
  match withRoom env sizeofFlatBinderObject p with
  | (.ok, p) =>
    if enoughObjects then putObject val nullMetaData p
    else match growObjects env 2 p with
      | none => (.noMemory, p)
      | some p => putObject val nullMetaData p
  | r => r

/-! ### Appending -/

/-- The `int` that a `size_t` is converted to. -/
def toInt32 (n : ℕ) : ℤ := if n % 2 ^ 32 < 2 ^ 31 then (n % 2 ^ 32 : ℕ) else (n % 2 ^ 32 : ℕ) - 2 ^ 32

def inRange (offset len off : ℕ) : Bool :=
  offset ≤ off && (off + sizeofFlatBinderObject) % 2 ^ 64 ≤ offset + len

/-- The entries from the first to the last one in range. -/
def objectsBetween (objects : List ℕ) (offset len : ℕ) : List ℕ :=
  (objects.dropWhile fun off => !inRange offset len off).rdropWhile fun off => !inRange offset len off

/-- Where an object of the source comes to stand. -/
def movedTo (offset startPos off : ℕ) : ℕ := (((off : ℤ) - offset + toInt32 startPos) % 2 ^ 64).toNat

/-- Take the object that was copied to `off` into the table. A file descriptor is duplicated. -/
def adoptObject (env : Env) (off : ℕ) (p : Parcel) : Status × Parcel :=
  let flat := FlatBinderObject.load (p.mData.getD fun _ => 0) off
  let p := { p with mObjects := p.mObjects ++ [off] }.log [.acquire flat]
  if flat.type = binderTypeFd then
    let p := p.store (off + 8) (.ofBytes (leBytes 4 (env.dup flat.handle))) 4
    let p := p.store (off + 16) (.ofBytes (leBytes 8 1)) 8
    (if p.mAllowFds then .ok else .fdsNotAllowed, { p with mHasFds := true, mFdsKnown := true })
  else (.ok, p)

def adoptObjects (env : Env) : List ℕ → Parcel → Status × Parcel
  | [], p => (.ok, p)
  | off :: offs, p =>
    let first := adoptObject env off p
    let rest := adoptObjects env offs first.2
    (if rest.1 = .ok then first.1 else rest.1, rest.2)

/-- `appendFrom` once there is room for the data. -/
def appendData (env : Env) (src : Parcel) (offset len startPos : ℕ) (p : Parcel) : Status × Parcel :=
  let data := src.mData.elim (fun _ => 0) fun mem i => mem (offset + i)
  let p := p.store p.mDataPos data len
  let p := { p with mDataPos := p.mDataPos + len, mDataSize := p.mDataSize + len }
  let moved := (objectsBetween src.mObjects offset len).map (movedTo offset startPos)
  if moved = [] then (.ok, p)
  else if p.mObjectsCapacity < p.mObjects.length + moved.length then
    match growObjects env moved.length p with
    | none => (.noMemory, p)
    | some p => adoptObjects env moved p
  else adoptObjects env moved p

def appendFrom (env : Env) (src : Parcel) (offset len : ℕ) (p : Parcel) : Status × Parcel :=
  if p.mSession ≠ src.mSession then (.badType, p)
  else if len = 0 then (.ok, p)
  else if len > int32Max then (.badValue, p)
  else if offset > src.mDataSize ∨ len > src.mDataSize ∨ offset + len > src.mDataSize then (.badValue, p)
  else
    let startPos := p.mDataPos
    match (if p.mDataSize + len > p.mDataCapacity then growData env len p else (.ok, p)) with
    | (.ok, p) => appendData env src offset len startPos p
    | r => r

end Binder.Parcel
