import Binder.Lib.OrdMap
import Binder.Parcel.Types

/-! A parcel that refers to received data, and the readers of `binder::Status` and
`PersistableBundle`. -/
namespace Binder.Parcel
open Binder.Lib

/-! ### Received data -/

def binderTypeBinder : ℕ := 0x73622a85
def binderTypeHandle : ℕ := 0x73682a85

/-- The loop of `ipcSetDataReference` over the table: what it looks at, and whether the table is kept. -/
def checkObjects (data : Memory) : ℕ → List ℕ → List Event × Bool
  | _, [] => ([], true)
  | minOffset, offset :: offsets =>
    if offset < minOffset then ([], false)
    else
      let type := (FlatBinderObject.load data offset).type
      if type = binderTypeBinder ∨ type = binderTypeHandle ∨ type = binderTypeFd then
        let rest := checkObjects data ((offset + sizeofFlatBinderObject) % 2 ^ 64) offsets
        (rest.1 ++ [.load offset 4], rest.2)
      else ([.load offset 4], false)

def scanRange (data : Memory) (sorted : Bool) (offset len : ℕ) : List ℕ → List Event × Bool
  | [] => ([], false)
  | pos :: rest =>
    if pos < offset then scanRange data sorted offset len rest
    else if (pos + sizeofFlatBinderObject) % 2 ^ 64 > offset + len then
      if sorted then ([], false) else scanRange data sorted offset len rest
    else if (FlatBinderObject.load data pos).type = binderTypeFd then ([.load pos 4], true)
    else
      let found := scanRange data sorted offset len rest
      (found.1 ++ [.load pos 4], found.2)

def hasFileDescriptorsInRange (offset len : ℕ) : Read Bool := .ofFun fun p =>
  if len > int32Max ∨ offset > int32Max then (.error .badValue, p)
  else if offset + len > p.mDataSize then (.error .badValue, p)
  else
    let found := scanRange (p.mData.getD fun _ => 0) p.mObjectsSorted offset len p.mObjects
    (.ok found.2, p.log found.1)

/-- An error is only logged. -/
def scanForFds (p : Parcel) : Parcel :=
  match (hasFileDescriptorsInRange 0 p.dataSize).run.run p with
  | some (.ok result, p) => { p with mHasFds := result, mFdsKnown := true }
  | some (.error _, p) => { p with mFdsKnown := true }
  | none => p

/-- The release function is not null. -/
def ipcSetDataReference (data : Memory) (dataSize : ℕ) (objects : List ℕ) (p : Parcel) : Parcel :=
  let p := { p.freeData with
    mData := some data
    mDataSize := dataSize
    mDataCapacity := dataSize
    mObjects := objects
    mObjectsCapacity := objects.length
    mOwner := true }
  let checked := checkObjects data 0 objects
  scanForFds { p.log checked.1 with mObjects := if checked.2 then objects else [] }

/-! ### Status -/

abbrev String16 := List (BitVec 16)

instance : LawfulBEq String16 := inferInstance

/-- The order of `strzcmp16`. -/
instance : LinearOrder String16 :=
  LinearOrder.lift' (List.map BitVec.toNat) (List.map_injective_iff.mpr fun _ _ h => BitVec.eq_of_toNat_eq h)

abbrev noParcelable : Empty → Parcelable := nofun

/-- `readData` of a type without parcelables and `std::string`. -/
def readPlain {k : Kind} (t : Ty Empty k) : Read (t.Val noParcelable) :=
  readData ⟨fun _ => none, fun _ => none⟩ noParcelable t

def exNone : BitVec 32 := 0
def exServiceSpecific : BitVec 32 := -8
def exParcelable : BitVec 32 := -9
def exHasReplyHeader : BitVec 32 := -128
def exTransactionFailed : BitVec 32 := -129

inductive ErrorCode
  | status (s : Status)
  | serviceSpecific (code : BitVec 32)
  deriving DecidableEq, Repr

/-- `binder::Status`. The message is kept as it was read. -/
structure BinderStatus where
  mException : BitVec 32 := exNone
  mErrorCode : ErrorCode := .status .ok
  mMessage : String16 := []

namespace BinderStatus

def setFromStatusT (status : Status) : BinderStatus where
  mException := if status = .ok then exNone else exTransactionFailed
  mErrorCode := .status status
  mMessage := []

/-- Skip a header whose size includes the size field. -/
def skipHeader : Read Unit := do
  let headerStart ← dataPosition
  let headerAvail ← readAvail
  let headerSize ← readInt32
  if headerSize.toInt < 0 ∨ headerSize.toNat > headerAvail then throw .unknownError
  else rewind (headerStart + headerSize.toNat)

/-- Skip the data of a remote stack trace, whose size does not include the size field. -/
def skipStackTrace : Read Unit := do
  let size ← readInt32
  if size.toInt < 0 then throw .unknownError
  else
    let avail ← readAvail
    if size.toNat > avail then throw .unknownError
    else
      let pos ← dataPosition
      rewind (pos + size.toNat)

/-- What follows an exception code. -/
def readException (mException : BitVec 32) (s : BinderStatus) : Read BinderStatus := do
  let message ← readPlain (.nullable .string16)
  let mMessage : String16 := Option.getD message []
  skipStackTrace
  if mException = exServiceSpecific then
    let code ← readInt32
    return { mException, mErrorCode := .serviceSpecific code, mMessage }
  else
    if mException = exParcelable then
      skipHeader
      return { s with mException, mMessage }
    else return { s with mException, mMessage }

def readFields (s : BinderStatus) : Read BinderStatus := do
  let mException ← readInt32
  if mException = exHasReplyHeader then
    skipHeader
    return { s with mException := exNone }
  else
    if mException = exNone then return { s with mException := exNone }
    else readException mException s

/-- On an error the status is that error. -/
def readFromParcel (s : BinderStatus) : Read (Status × BinderStatus) :=
  tryCatch (do return (.ok, ← readFields s)) fun status => return (status, setFromStatusT status)

end BinderStatus

/-! ### Persistable bundles -/

def bundleMagic : BitVec 32 := 0x4C444E42
def bundleMagicNative : BitVec 32 := 0x4C444E44

/-- The typed maps, each with its entries in the order of their keys. -/
structure PersistableBundle where
  mBoolMap : List (String16 × Bool) := []
  mIntMap : List (String16 × BitVec 32) := []
  mLongMap : List (String16 × BitVec 64) := []
  mDoubleMap : List (String16 × BitVec 64) := []
  mStringMap : List (String16 × String16) := []
  mBoolVectorMap : List (String16 × List Bool) := []
  mIntVectorMap : List (String16 × List (BitVec 32)) := []
  mLongVectorMap : List (String16 × List (BitVec 64)) := []
  mDoubleVectorMap : List (String16 × List (BitVec 64)) := []
  mStringVectorMap : List (String16 × List String16) := []
  mPersistableBundleMap : List (String16 × PersistableBundle) := []

namespace PersistableBundle

def assign {α : Type} (map : List (String16 × α)) (key : String16) (v : α) : List (String16 × α) :=
  OrdMap.insertEntry key v map

/-- One pass of the loop of `readFromParcelInner`; `nested` reads the bundle in an entry. -/
def readEntry (nested : PersistableBundle → Read PersistableBundle) (b : PersistableBundle) :
    Read PersistableBundle := do
  let key ← readString16
  let valueType ← readInt32
  match valueType.toInt with
  | 0 => do
    let v ← readString16
    return { b with mStringMap := assign b.mStringMap key v }
  | 1 => do
    let v ← readInt32
    return { b with mIntMap := assign b.mIntMap key v }
  | 6 => do
    let v ← readInt64
    return { b with mLongMap := assign b.mLongMap key v }
  | 8 => do
    let v ← readDouble
    return { b with mDoubleMap := assign b.mDoubleMap key v }
  | 9 => do
    let v ← readBool
    return { b with mBoolMap := assign b.mBoolMap key v }
  | 14 => do
    let v ← readPlain (.vector .string16)
    return { b with mStringVectorMap := assign b.mStringVectorMap key v }
  | 18 => do
    let v ← readPlain (.vector (.scalar (.integral .int32)))
    return { b with mIntVectorMap := assign b.mIntVectorMap key v }
  | 19 => do
    let v ← readPlain (.vector (.scalar (.integral .int64)))
    return { b with mLongVectorMap := assign b.mLongVectorMap key v }
  | 23 => do
    let v ← readPlain (.vector (.scalar (.integral .bool)))
    return { b with mBoolVectorMap := assign b.mBoolVectorMap key v }
  | 25 => do
    -- a bundle that is there already is read into
    let v ← nested ((OrdMap.lookup key b.mPersistableBundleMap).getD {})
    return { b with mPersistableBundleMap := assign b.mPersistableBundleMap key v }
  | 28 => do
    let v ← readPlain (.vector (.scalar .double))
    return { b with mDoubleVectorMap := assign b.mDoubleVectorMap key v }
  | _ => throw .badType

def readEntries (nested : PersistableBundle → Read PersistableBundle) :
    ℕ → PersistableBundle → Read PersistableBundle
  | 0, b => pure b
  | n + 1, b => do
    let b ← readEntry nested b
    readEntries nested n b

def readFromParcelInner (nested : PersistableBundle → Read PersistableBundle) (length : ℕ)
    (b : PersistableBundle) : Read PersistableBundle := do
  if length = 0 then return b
  else
    let magic ← readInt32
    if magic ≠ bundleMagic ∧ magic ≠ bundleMagicNative then throw .badValue
    else
      let numEntries ← readInt32
      readEntries nested numEntries.toInt.toNat b

/-- Bundles nested to a depth below `fuel`. -/
def readNested : ℕ → PersistableBundle → Read PersistableBundle
  | 0, _ => ExceptT.mk fun _ => none
  | fuel + 1, b => do
    let length ← readInt32OrZero
    if length.toInt < 0 then throw .unexpectedNull
    else readFromParcelInner (readNested fuel) length.toNat b

/-- There are at most as many levels as bytes. -/
def readFromParcel (b : PersistableBundle) : Read PersistableBundle := ExceptT.mk fun p =>
  (readNested (p.mDataSize + 1) b).run.run p

end PersistableBundle

end Binder.Parcel
