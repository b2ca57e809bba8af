import Mathlib.Data.List.Sort
import Binder.Lib.Fallible
import Binder.Parcel.Write

/-! The operations that read from a `Parcel`. -/
namespace Binder.Parcel
open Binder.Lib

abbrev Read (α : Type) := Fallible Parcel Status α

/-! ### Protected objects -/

/-- The loop of `validateReadData` over the sorted entries from the hint on: the new hint, `none` if
the bytes from `pos` to `upperBound` overlap an object. -/
def scanObjects (pos upperBound : ℕ) : List ℕ → ℕ → Option ℕ
  | [], hint => some hint
  | obj :: objs, hint =>
    if upperBound > obj then
      if pos < obj + sizeofFlatBinderObject then none else scanObjects pos upperBound objs (hint + 1)
    else some hint

/-- The entries in order; the hint is lost when they have to be sorted. -/
def sortObjects (p : Parcel) : Parcel :=
  if p.mObjectsSorted ∨ p.mObjects.length ≤ 1 then p
  else if p.mObjects.Pairwise (· ≤ ·) then { p with mObjectsSorted := true }
  else { p with
    mObjects := p.mObjects.insertionSort (· ≤ ·), mNextObjectHint := 0, mObjectsSorted := true }

def validateReadData (upperBound : ℕ) (p : Parcel) : Status × Parcel :=
  let p := p.sortObjects
  match scanObjects p.mDataPos upperBound (p.mObjects.drop p.mNextObjectHint) p.mNextObjectHint with
  | none => (.permissionDenied, p)
  | some hint => (.ok, { p with mNextObjectHint := hint })

/-! ### Plain data -/

/-- `pad_size`; `none` where the process aborts. -/
def padSize? (s : ℕ) : Option ℕ := if s > sizeMax - 3 then none else some (padSize s)

/-- Move over `n` bytes that are there. The position moves also when they are protected. -/
def passOver (n : ℕ) (p : Parcel) : Status × Parcel :=
  let r := if p.mObjects ≠ [] then validateReadData (p.mDataPos + n) p else (.ok, p)
  (r.1, { r.2 with mDataPos := r.2.mDataPos + n })

def bytesAt (off len : ℕ) (p : Parcel) : List UInt8 := p.mData.elim [] fun mem => mem.load off len

def read (len : ℕ) : Read (List UInt8) := ExceptT.mk fun p =>
  if len > int32Max then some (.error .badValue, p)
  else (padSize? len).map fun padded =>
    if p.mDataPos + padded ≤ p.mDataSize then
      match passOver padded p with
      | (.ok, q) => (.ok (p.bytesAt p.mDataPos len), q.log [.load p.mDataPos len])
      | (err, q) => (.error err, q)
    else (.error .notEnoughData, p)

/-- What the returned pointer points at; `none` is a null pointer. -/
def readInplace (len : ℕ) : Read (Option Memory) := ExceptT.mk fun p =>
  if len > int32Max then some (.ok none, p)
  else (padSize? len).map fun padded =>
    if p.mDataPos + padded ≤ p.mDataSize then
      match passOver padded p with
      | (.ok, q) =>
        (.ok (p.mData.map fun mem => mem.shift p.mDataPos), q.log [.load p.mDataPos len])
      | (_, q) => (.ok none, q)
    else (.ok none, p)

def readAligned (n : ℕ) : Read (List UInt8) := .ofFun fun p =>
  if p.mDataPos + n ≤ p.mDataSize then
    match passOver n p with
    | (.ok, q) => (.ok (p.bytesAt p.mDataPos n), q.log [.load p.mDataPos n])
    | (err, q) => (.error err, q)
  else (.error .notEnoughData, p)

/-- `readCString` does not look at the objects. -/
def readCString : Read (Option (List UInt8)) := ExceptT.mk fun p =>
  if p.mDataPos < p.mDataSize then
    let avail := p.bytesAt p.mDataPos (p.mDataSize - p.mDataPos)
    match avail.findIdx? (· = 0) with
    | some len => (padSize? (len + 1)).map fun padded =>
      (.ok (some (avail.take len)),
        { p with mDataPos := p.mDataPos + padded }.log [.load p.mDataPos (len + 1)])
    | none => some (.ok none, p.log [.load p.mDataPos (p.mDataSize - p.mDataPos)])
  else some (.ok none, p)

/-! ### Objects -/

/-- The two searches of `readObject` for an entry at `dpos`; the first is given enough fuel by the
length of the table. -/
def seekForward (objs : List ℕ) (dpos : ℕ) : ℕ → ℕ → ℕ
  | 0, opos => opos
  | fuel + 1, opos =>
    if opos < objs.length - 1 ∧ objs.getD opos 0 < dpos then seekForward objs dpos fuel (opos + 1)
    else opos

def seekBackward (objs : List ℕ) (dpos : ℕ) : ℕ → ℕ
  | 0 => 0
  | opos + 1 => if objs.getD (opos + 1) 0 > dpos then seekBackward objs dpos opos else opos + 1

/-- The index of an entry at `dpos`, as far as `readObject` finds it. -/
def seekObject (objs : List ℕ) (dpos hint : ℕ) : Option ℕ :=
  if objs = [] then none
  else
    let opos := if hint < objs.length then seekForward objs dpos objs.length hint else objs.length - 1
    if objs.getD opos 0 = dpos then some opos
    else
      let opos := seekBackward objs dpos opos
      if objs.getD opos 0 = dpos then some opos else none

/-- `none` is a null pointer. -/
def readObject (nullMetaData : Bool) : Read (Option FlatBinderObject) := .ofFun fun p =>
  if p.mDataPos + sizeofFlatBinderObject ≤ p.mDataSize then
    let obj := p.mData.elim ⟨0, 0, 0, 0⟩ fun mem => .load mem p.mDataPos
    let q := { p with mDataPos := p.mDataPos + sizeofFlatBinderObject }.log
      [.load p.mDataPos sizeofFlatBinderObject]
    if !nullMetaData ∧ obj.cookie = 0 ∧ obj.binder = 0 then (.ok (some obj), q)
    else match seekObject p.mObjects p.mDataPos p.mNextObjectHint with
      | some opos => (.ok (some obj), { q with mNextObjectHint := opos + 1 })
      | none => (.ok none, q)
  else (.ok none, p)

/-! ### Typed values -/

def readInt32 : Read (BitVec 32) := do return .ofNat 32 (leNat (← readAligned 4))

def readUint32 : Read (BitVec 32) := do return .ofNat 32 (leNat (← readAligned 4))

def readInt64 : Read (BitVec 64) := do return .ofNat 64 (leNat (← readAligned 8))

def readUint64 : Read (BitVec 64) := do return .ofNat 64 (leNat (← readAligned 8))

def readFloat : Read (BitVec 32) := do return .ofNat 32 (leNat (← readAligned 4))

def readDouble : Read (BitVec 64) := do return .ofNat 64 (leNat (← readAligned 8))

def readBool : Read Bool := do return (← readInt32) != 0

def readChar : Read (BitVec 16) := do return (← readInt32).setWidth 16

def readByte : Read (BitVec 8) := do return (← readInt32).setWidth 8

/-- The form of `readInt32` that returns the value: 0 where the read fails. -/
def readInt32OrZero : Read (BitVec 32) := tryCatch readInt32 fun _ => pure 0

def charAt (str : Memory) (i : ℕ) : BitVec 16 := .ofNat 16 (leNat (str.load (i * 2) 2))

def readString8Inplace : Read (Option (Memory × ℕ)) := do
  let size ← readInt32OrZero
  if 0 ≤ size.toInt ∧ size.toInt < int32Max then
    match ← readInplace (size.toNat + 1) with
    | some str => if str size.toNat = 0 then return some (str, size.toNat) else return none
    | none => return none
  else return none

def readString16Inplace : Read (Option (Memory × ℕ)) := do
  let size ← readInt32OrZero
  if 0 ≤ size.toInt ∧ size.toInt < int32Max then
    match ← readInplace ((size.toNat + 1) * 2) with
    | some str => if charAt str size.toNat = 0 then return some (str, size.toNat) else return none
    | none => return none
  else return none

def readString16 : Read (List (BitVec 16)) := do
  match ← readString16Inplace with
  | some (str, len) => return (List.range len).map (charAt str)
  | none => throw .unexpectedNull

/-- The forms of `setDataPosition` and `dataAvail` that abort. -/
def rewind (pos : ℕ) : Read Unit := ExceptT.mk fun p => (setDataPosition pos p).map fun q => (.ok (), q)

def readAvail : Read ℕ := ExceptT.mk fun p => p.dataAvail.map fun n => (.ok n, p)

def dataPosition : Read ℕ := .ofFun fun p => (.ok p.mDataPos, p)

end Binder.Parcel
