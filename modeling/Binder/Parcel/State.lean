import Mathlib.Data.List.DropRight
import Binder.Status
import Binder.Lib.Bytes
import Binder.Lib.Memory

/-! A `Parcel` and the functions that allocate, grow and free its data. -/
namespace Binder
open Binder.Lib

namespace Parcel

def int32Max : ℕ := 2 ^ 31 - 1
def sizeMax : ℕ := 2 ^ 64 - 1

/-- `flat_binder_object` on a 64-bit little-endian machine. The field `binder` shares its bytes with
`handle`. -/
structure FlatBinderObject where
  type : ℕ
  flags : ℕ
  binder : ℕ
  cookie : ℕ
  deriving DecidableEq, Repr

def sizeofFlatBinderObject : ℕ := 24
def sizeofBinderSize : ℕ := 8
def binderTypeFd : ℕ := 0x66642a85

namespace FlatBinderObject

def handle (obj : FlatBinderObject) : ℕ := obj.binder % 2 ^ 32

def bytes (obj : FlatBinderObject) : List UInt8 :=
  leBytes 4 obj.type ++ leBytes 4 obj.flags ++ leBytes 8 obj.binder ++ leBytes 8 obj.cookie

/-- The object whose bytes stand at `off`. -/
def load (mem : Memory) (off : ℕ) : FlatBinderObject where
  type := leNat (mem.load off 4)
  flags := leNat (mem.load (off + 4) 4)
  binder := leNat (mem.load (off + 8) 8)
  cookie := leNat (mem.load (off + 16) 8)

end FlatBinderObject

/-- What the operations do to the data block of `block` bytes, and to the objects in it. A `load` is a
range that a read dereferences or returns. -/
inductive Event
  | store (offset length block : ℕ)
  | load (offset length : ℕ)
  | acquire (obj : FlatBinderObject)
  | release (obj : FlatBinderObject)
  | ownerRelease
  deriving DecidableEq, Repr

/-- What the allocator and the kernel answer during one operation: the contents of a new data block
of a given size, whether the tables of objects can be allocated, and the descriptor that
`F_DUPFD_CLOEXEC` gives; and whether the empty container that is written at a position gives a pointer
for its `data()`. -/
structure Env where
  malloc : ℕ → Option Memory
  callocObjects : Bool := true
  shrinkObjects : Bool := true
  growObjects : Bool := true
  dup : ℕ → ℕ := id
  emptyData : ℕ → Bool := fun _ => false

/-- Every allocation succeeds with a block of zeros. -/
def zeroEnv : Env := { malloc := fun _ => some fun _ => 0 }

end Parcel

/-- `mOwner` says whether the release function is set, `mSession` which session the parcel is for.
`mObjects` are the `mObjectsSize` entries of the table. `events` is what happened so far, the latest
first. -/
structure Parcel where
  mError : Status := .ok
  mData : Option Memory := none
  mDataSize : ℕ := 0
  mDataCapacity : ℕ := 0
  mDataPos : ℕ := 0
  mObjects : List ℕ := []
  mObjectsCapacity : ℕ := 0
  mNextObjectHint : ℕ := 0
  mObjectsSorted : Bool := false
  mFdsKnown : Bool := true
  mHasFds : Bool := false
  mAllowFds : Bool := true
  mDeallocZero : Bool := false
  mOwner : Bool := false
  mSession : Option ℕ := none
  events : List Parcel.Event := []

namespace Parcel

def dataSize (p : Parcel) : ℕ := if p.mDataSize > p.mDataPos then p.mDataSize else p.mDataPos

def ipcDataSize (p : Parcel) : ℕ := if p.mDataSize > p.mDataPos then p.mDataSize else p.mDataPos

/-- `none` where the process aborts. -/
def dataAvail (p : Parcel) : Option ℕ :=
  let result := p.dataSize - p.mDataPos
  if result > int32Max then none else some result

@[simps mOwner mData mDataSize mDataCapacity mDataPos events]
def log (p : Parcel) (es : List Event) : Parcel := { p with events := es ++ p.events }

@[simps! mOwner mDataSize mDataCapacity mDataPos mObjects mData]
def store (p : Parcel) (off : ℕ) (src : Memory) (len : ℕ) : Parcel :=
  { p with mData := p.mData.map fun mem => Memory.memcpy mem off src len }.log [.store off len p.mDataCapacity]

def objectsAt (p : Parcel) (offs : List ℕ) : List FlatBinderObject :=
  p.mData.elim [] fun mem => offs.map (FlatBinderObject.load mem)

def releaseObjects (p : Parcel) : Parcel := p.log ((p.objectsAt p.mObjects).map .release)

def initState (p : Parcel) : Parcel := { events := p.events }

def freeDataNoInit (p : Parcel) : Parcel :=
  if p.mOwner then p.log [.ownerRelease]
  else
    let p := p.releaseObjects
    if p.mData.isSome ∧ p.mDeallocZero then p.store 0 (fun _ => 0) p.mDataSize else p

def freeData (p : Parcel) : Parcel := p.freeDataNoInit.initState

/-- `reallocZeroFree`: the new block, and the stores that moving the data takes when the old block is
wiped. -/
def reallocZeroFree (env : Env) (data : Option Memory) (oldCapacity newCapacity : ℕ) (zero : Bool) :
    Option Memory × List Event :=
  match env.malloc newCapacity with
  | none => (none, [])
  | some fresh =>
    let kept := min oldCapacity newCapacity
    (some (data.elim fresh fun mem => Memory.memcpy fresh 0 mem kept),
      if zero then [.store 0 oldCapacity oldCapacity, .store 0 kept newCapacity] else [])

/-- The entries that `continueWrite` keeps when the data shrinks to `desired`. -/
def keptObjects (p : Parcel) (desired : ℕ) : List ℕ :=
  if desired < p.mDataSize then
    if desired = 0 then [] else p.mObjects.rdropWhile (desired ≤ ·)
  else p.mObjects

/-- `continueWrite` on the data of another owner, once `data` is allocated. -/
def takeOver (data : Memory) (desired : ℕ) (kept : List ℕ) (p : Parcel) : Parcel :=
  let size := if p.mDataSize < desired then p.mDataSize else desired
  let acquired := (p.objectsAt kept).map Event.acquire
  let copied := p.mData.elim [] fun _ => [Event.store 0 size desired]
  { p with
    mOwner := false
    mData := some (p.mData.elim data fun mem => Memory.memcpy data 0 mem size)
    mObjects := kept
    mDataSize := size
    mDataCapacity := desired
    mObjectsCapacity := kept.length
    mNextObjectHint := 0
    mObjectsSorted := false }.log (Event.ownerRelease :: copied ++ acquired)

def dropObjects (env : Env) (kept : List ℕ) (p : Parcel) : Parcel :=
  if kept.length < p.mObjects.length then
    let dropped := p.objectsAt (p.mObjects.drop kept.length)
    { p with
      mFdsKnown := p.mFdsKnown && !dropped.any (·.type = binderTypeFd)
      mObjects := kept
      mObjectsCapacity := if kept = [] then 0 else if env.shrinkObjects then kept.length
        else p.mObjectsCapacity
      mNextObjectHint := 0
      mObjectsSorted := false }.log (dropped.reverse.map .release)
  else p

/-- `continueWrite` on data of its own. -/
def resizeOwn (env : Env) (desired : ℕ) (p : Parcel) : Status × Parcel :=
  if desired > p.mDataCapacity then
    match reallocZeroFree env p.mData p.mDataCapacity desired p.mDeallocZero with
    | (some data, stores) => (.ok, { p with mData := some data, mDataCapacity := desired }.log stores)
    | (none, _) => (.noMemory, { p with mError := .noMemory })
  else
    (.ok, { p with
      mDataSize := if p.mDataSize > desired then desired else p.mDataSize
      mDataPos := if p.mDataPos > desired then desired else p.mDataPos })

def continueWrite (env : Env) (desired : ℕ) (p : Parcel) : Status × Parcel :=
  if desired > int32Max then (.badValue, p)
  else
    let kept := p.keptObjects desired
    if p.mOwner then
      if desired = 0 then (.ok, p.freeData)
      else match env.malloc desired with
        | none => (.noMemory, { p with mError := .noMemory })
        | some data =>
          if kept ≠ [] ∧ ¬ env.callocObjects then (.noMemory, { p with mError := .noMemory })
          else (.ok, takeOver data desired kept p)
    else if p.mData.isSome then resizeOwn env desired (p.dropObjects env kept)
    else match env.malloc desired with
      | none => (.noMemory, { p with mError := .noMemory })
      | some data =>
        (.ok, { p with mData := some data, mDataSize := 0, mDataPos := 0, mDataCapacity := desired })

def growData (env : Env) (len : ℕ) (p : Parcel) : Status × Parcel :=
  if len > int32Max then (.badValue, p)
  else if len > sizeMax - p.mDataSize then (.noMemory, p)
  else if p.mDataSize + len > sizeMax / 3 then (.noMemory, p)
  else
    let newSize := (p.mDataSize + len) * 3 / 2
    if newSize ≤ p.mDataSize then (.noMemory, p) else continueWrite env (max newSize 128) p

def restartWrite (env : Env) (desired : ℕ) (p : Parcel) : Status × Parcel :=
  if desired > int32Max then (.badValue, p)
  else if p.mOwner then continueWrite env desired p.freeData
  else
    let (data, stores) := reallocZeroFree env p.mData p.mDataCapacity desired p.mDeallocZero
    if data.isNone ∧ desired > p.mDataCapacity then (.noMemory, { p with mError := .noMemory })
    else
      let p := (p.log stores).releaseObjects
      let moved : Bool := data.isSome || desired = 0
      (.ok, { p with
        mData := if moved then data else p.mData
        mDataCapacity := if moved then desired else p.mDataCapacity
        mDataSize := 0
        mDataPos := 0
        mObjects := []
        mObjectsCapacity := 0
        mNextObjectHint := 0
        mObjectsSorted := false
        mHasFds := false
        mFdsKnown := true
        mAllowFds := true })

def finishWrite (len : ℕ) (p : Parcel) : Status × Parcel :=
  if len > int32Max then (.badValue, p)
  else
    let pos := p.mDataPos + len
    (.ok, { p with mDataPos := pos, mDataSize := if pos > p.mDataSize then pos else p.mDataSize })

end Parcel

end Binder
