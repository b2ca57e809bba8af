import Binder.Lib.Access
import Binder.Parcel.Steps

/-! The blocks behind the two arrays of a parcel that owns its data. -/
namespace Binder.Parcel
open Binder.Lib

/-- Whether a `realloc` of the data or of the objects gives the old block back. -/
structure Moves where
  data : Bool
  objects : Bool

/-- `data` and `objects` are the blocks that `mData` and `mObjects` point to. -/
structure Heaped where
  parcel : Parcel := {}
  data : Option ℕ := none
  objects : Option ℕ := none
  next : ℕ := 0
  trace : List Access := []
  destroyed : Bool := false

namespace Heaped

def log (t : Heaped) (accesses : List Access) : Heaped := { t with trace := accesses ++ t.trace }

def through (t : Heaped) (ptr : Option ℕ) (f : ℕ → List Access) : Heaped := t.log (ptr.elim [] f)

def withParcel (t : Heaped) (p : Parcel) : Heaped := { t with parcel := p }

/-! ### Allocation -/

section Allocation

variable (m : Moves) (env : Env)

def reallocZeroFree (newCapacity : ℕ) (t : Heaped) : Option ℕ × Heaped :=
  if t.parcel.mDeallocZero then
    if (env.malloc newCapacity).isSome then
      let newData := t.next
      let kept := min t.parcel.mDataCapacity newCapacity
      let t := { t with next := t.next + 1 }
      let t := t.through t.data fun b => [.copy newData b kept, .load b]
      let t := t.through t.data fun b => [.wipe b t.parcel.mDataCapacity]
      (some newData, t.through t.data fun b => [.free b])
    else (none, t)
  else if (env.malloc newCapacity).isSome then
    match t.data with
    | none => (some t.next, { t with next := t.next + 1 })
    | some b =>
      if m.data then (some t.next, { t with next := t.next + 1 }.log [.realloc b true])
      else (some b, t.log [.realloc b false])
  else (none, t.through t.data fun b => [.realloc b (newCapacity = 0 && m.data)])

def reallocObjects (t : Heaped) : Heaped :=
  match t.objects with
  | none => { t with objects := some t.next, next := t.next + 1 }
  | some b =>
    if m.objects then { t with objects := some t.next, next := t.next + 1 }.log [.realloc b true]
    else t.log [.realloc b false]

def freeObjects (t : Heaped) : Heaped := { t.through t.objects fun b => [.free b] with objects := none }

def releaseObjects (t : Heaped) : Heaped :=
  if t.parcel.mObjects = [] then t
  else (t.through t.objects fun b => [.load b]).through t.data fun b => [.load b]

def dropObjects (kept : List ℕ) (t : Heaped) : Heaped :=
  if kept.length < t.parcel.mObjects.length then
    let t := (t.through t.objects fun b => [.load b]).through t.data fun b => [.load b]
    let p := t.parcel.dropObjects env kept
    if kept = [] then t.freeObjects.withParcel p
    else if env.shrinkObjects then (t.reallocObjects m).withParcel p
    else (t.through t.objects fun b => [.realloc b false]).withParcel p
  else t

def resizeOwn (desired : ℕ) (t : Heaped) : Status × Heaped :=
  let r := t.parcel.resizeOwn env desired
  if desired > t.parcel.mDataCapacity then
    let (data, t) := t.reallocZeroFree m env desired
    (r.1, { t with data := if data.isSome then data else t.data, parcel := r.2 })
  else (r.1, t.withParcel r.2)

def continueWrite (desired : ℕ) (t : Heaped) : Status × Heaped :=
  if desired > int32Max then (.badValue, t)
  else
    let kept := t.parcel.keptObjects desired
    let t := if desired < t.parcel.mDataSize ∧ desired ≠ 0 ∧ t.parcel.mObjects ≠ [] then
      t.through t.objects fun b => [.load b] else t
    if t.parcel.mData.isSome then (t.dropObjects m env kept).resizeOwn m env desired
    else
      let r := t.parcel.continueWrite env desired
      (r.1, if (env.malloc desired).isSome then { t with data := some t.next, next := t.next + 1, parcel := r.2 }
        else t.withParcel r.2)

def growData (len : ℕ) (t : Heaped) : Status × Heaped :=
  if len > int32Max then (.badValue, t)
  else if len > sizeMax - t.parcel.mDataSize then (.noMemory, t)
  else if t.parcel.mDataSize + len > sizeMax / 3 then (.noMemory, t)
  else
    let newSize := (t.parcel.mDataSize + len) * 3 / 2
    if newSize ≤ t.parcel.mDataSize then (.noMemory, t) else t.continueWrite m env (max newSize 128)

def restartWrite (desired : ℕ) (t : Heaped) : Status × Heaped :=
  if desired > int32Max then (.badValue, t)
  else
    let r := t.parcel.restartWrite env desired
    let (data, t) := t.reallocZeroFree m env desired
    if data.isNone ∧ desired > t.parcel.mDataCapacity then (r.1, t.withParcel r.2)
    else
      -- `mData` still is the old pointer here
      let t := t.releaseObjects
      let t := if data.isSome || desired = 0 then { t with data := data } else t
      (r.1, t.freeObjects.withParcel r.2)

/-- More entries for the table, `false` if it cannot grow. -/
def growObjects (n : ℕ) (t : Heaped) : Bool × Heaped :=
  let newSize := (t.parcel.mObjects.length + n) * 3 / 2
  if n > sizeMax - t.parcel.mObjects.length ∨ t.parcel.mObjects.length + n > sizeMax / 3 ∨
      newSize > sizeMax / sizeofBinderSize then (false, t)
  else if env.growObjects then
    (true, (t.reallocObjects m).withParcel { t.parcel with mObjectsCapacity := newSize })
  else (false, t.through t.objects fun b => [.realloc b false])

end Allocation

/-! ### Operations -/

section Operations

variable (m : Moves) (env : Env)

def withRoom (n : ℕ) (t : Heaped) : Status × Heaped :=
  if (t.parcel.mDataPos + n) % 2 ^ 64 ≤ t.parcel.mDataCapacity then (.ok, t) else t.growData m env n

/-- `n` bytes at the position, and the new state of the parcel. -/
def put (n : ℕ) (p : Parcel) (t : Heaped) : Heaped :=
  (t.through t.data fun b => [.store b t.parcel.mDataPos n]).withParcel p

def setDataSize (size : ℕ) (t : Heaped) : Heaped :=
  if size > int32Max then t
  else match t.continueWrite m env size with
    | (.ok, t) => t.withParcel { t.parcel with mDataSize := size }
    | (_, t) => t

def setDataCapacity (size : ℕ) (t : Heaped) : Heaped :=
  if size > int32Max then t
  else if size > t.parcel.mDataCapacity then (t.continueWrite m env size).2
  else t

def setData (buffer : Memory) (len : ℕ) (t : Heaped) : Heaped :=
  if len > int32Max then t
  else match t.restartWrite m env len with
    | (.ok, t) => (t.through t.data fun b => [.store b 0 len]).withParcel
        { t.parcel.store 0 buffer len with mDataSize := len, mFdsKnown := false }
    | (_, t) => t

def writeUnpadded (data : Memory) (len : ℕ) (t : Heaped) : Heaped :=
  if len > int32Max then t
  else if (t.parcel.mDataPos + len) % 2 ^ 64 < t.parcel.mDataPos then t
  else match t.withRoom m env len with
    | (.ok, t) => t.put len (finishWrite len (t.parcel.store t.parcel.mDataPos data len)).2
    | (_, t) => t

/-- The reserved bytes count as stored: they are what the caller fills. -/
def writeInplace (len : ℕ) (t : Heaped) : Option ℕ × Heaped :=
  if len > int32Max then (none, t)
  else
    let padded := padSize len
    if (t.parcel.mDataPos + padded) % 2 ^ 64 < t.parcel.mDataPos then (none, t)
    else match t.withRoom m env padded with
      | (.ok, t) => (t.parcel.mData.map fun _ => t.parcel.mDataPos,
          t.put padded (finishWrite padded (applyPadMask len padded t.parcel)).2)
      | (_, t) => (none, t)

def write (data : Option Memory) (len : ℕ) (t : Heaped) : Heaped :=
  if len > int32Max then t
  else match t.writeInplace m env len, data with
    | (some d, t), some data => (t.through t.data fun b => [.store b d len]).withParcel (t.parcel.store d data len)
    | (_, t), _ => t

def writeAligned (val : List UInt8) (t : Heaped) : Heaped :=
  match t.withRoom m env val.length with
  | (.ok, t) => t.put val.length (finishWrite val.length (t.parcel.store t.parcel.mDataPos (.ofBytes val) val.length)).2
  | (_, t) => t

def putObject (val : FlatBinderObject) (nullMetaData : Bool) (t : Heaped) : Heaped :=
  let banned := val.type = binderTypeFd ∧ t.parcel.mAllowFds = false
  let listed := nullMetaData ∨ val.binder ≠ 0
  let t := t.put sizeofFlatBinderObject (t.parcel.putObject val nullMetaData).2
  if ¬ banned ∧ listed then t.through t.objects fun b => [.enter b] else t

def writeObject (val : FlatBinderObject) (nullMetaData : Bool) (t : Heaped) : Heaped :=
  let enoughObjects := t.parcel.mObjects.length < t.parcel.mObjectsCapacity
  match t.withRoom m env sizeofFlatBinderObject with
  | (.ok, t) =>
    if enoughObjects then t.putObject val nullMetaData
    else match t.growObjects m env 2 with
      | (true, t) => t.putObject val nullMetaData
      | (false, t) => t
  | (_, t) => t

/-- One round of the loop over the objects of the source, whose table is `objects` if it is the parcel
itself. -/
def adoptObject (objects : Option ℕ) (off : ℕ) (t : Heaped) : Heaped :=
  let flat := FlatBinderObject.load (t.parcel.mData.getD fun _ => 0) off
  let p := (t.parcel.adoptObject env off).2
  let t := (t.through objects fun b => [.load b]).through t.objects fun b => [.enter b]
  let t := t.through t.data fun b => [.load b]
  if flat.type = binderTypeFd then
    (t.through t.data fun b => [.store b (off + 16) 8, .store b (off + 8) 4]).withParcel p
  else t.withParcel p

def adoptObjects (objects : Option ℕ) : List ℕ → Heaped → Heaped
  | [], t => t
  | off :: offs, t => adoptObjects objects offs (t.adoptObject env objects off)

/-- `data` and `objects` are the arrays of the source if it is the parcel itself. -/
def appendData (src : Parcel) (data objects : Option ℕ) (offset len startPos : ℕ) (t : Heaped) : Heaped :=
  let bytes := src.mData.elim (fun _ => 0) fun mem i => mem (offset + i)
  let p := t.parcel.store t.parcel.mDataPos bytes len
  let t := (t.through data fun b => [.load b]).put len
    { p with mDataPos := p.mDataPos + len, mDataSize := p.mDataSize + len }
  let moved := (objectsBetween src.mObjects offset len).map (movedTo offset startPos)
  if moved = [] then t
  else if t.parcel.mObjectsCapacity < t.parcel.mObjects.length + moved.length then
    match t.growObjects m env moved.length with
    | (true, t) => t.adoptObjects env objects moved
    | (false, t) => t
  else t.adoptObjects env objects moved

/-- The pointers to the source are taken before the data grows. -/
def appendFrom (src : Parcel) (data objects : Option ℕ) (offset len : ℕ) (t : Heaped) : Heaped :=
  if t.parcel.mSession ≠ src.mSession then t
  else if len = 0 then t
  else if len > int32Max then t
  else if offset > src.mDataSize ∨ len > src.mDataSize ∨ offset + len > src.mDataSize then t
  else
    let startPos := t.parcel.mDataPos
    let t := if src.mObjects = [] then t else t.through objects fun b => [.load b]
    match (if t.parcel.mDataSize + len > t.parcel.mDataCapacity then t.growData m env len else (.ok, t)) with
    | (.ok, t) => t.appendData m env src data objects offset len startPos
    | (_, t) => t

def freeDataNoInit (t : Heaped) : Heaped :=
  let t := t.releaseObjects
  let t := if t.parcel.mDeallocZero then t.through t.data fun b => [.wipe b t.parcel.mDataSize] else t
  let t := t.through t.data fun b => [.free b]
  (t.through t.objects fun b => [.free b]).withParcel t.parcel.freeDataNoInit

def freeData (t : Heaped) : Heaped :=
  { t.freeDataNoInit with data := none, objects := none, parcel := t.parcel.freeData }

end Operations

def run (m : Moves) (t : Heaped) : Op → Option Heaped
  | .setDataPosition pos => (t.parcel.setDataPosition pos).map t.withParcel
  | .setDataSize env size => some (t.setDataSize m env size)
  | .setDataCapacity env size => some (t.setDataCapacity m env size)
  | .setData env buffer len => some (t.setData m env buffer len)
  | .appendFrom env src offset len => some (t.appendFrom m env src none none offset len)
  | .write env data len => some (t.write m env data len)
  | .writeInplace env len => some (t.writeInplace m env len).2
  | .writeUnpadded env data len => some (t.writeUnpadded m env data len)
  | .writeAligned env val =>
    if val.length = 4 ∨ val.length = 8 then some (t.writeAligned m env val) else none
  | .writeObject env val nullMetaData => some (t.writeObject m env val nullMetaData)
  | .markSensitive => some (t.withParcel t.parcel.markSensitive)

inductive Action
  | op (op : Op)
  | appendSelf (env : Env) (offset len : ℕ)
  | freeData
  | destroy

def step (t : Heaped) (a : Action × Moves) : Option Heaped :=
  if t.destroyed then none
  else match a with
    | (.op op, m) => t.run m op
    | (.appendSelf env offset len, m) => some (t.appendFrom m env t.parcel t.data t.objects offset len)
    | (.freeData, _) => some t.freeData
    | (.destroy, _) => some { t.freeDataNoInit with destroyed := true }

inductive Reallocated (m : Moves) (env : Env) (n : ℕ) (t : Heaped) : Option ℕ × Heaped → Prop
  | failed : (env.malloc n).isSome = false → Reallocated m env n t (none, t)
  | refused {b : ℕ} : t.parcel.mDeallocZero = false → (env.malloc n).isSome = false → t.data = some b →
      Reallocated m env n t (none, t.log [.realloc b (n = 0 && m.data)])
  | first : t.data = none → (env.malloc n).isSome →
      Reallocated m env n t (some t.next, { t with next := t.next + 1 })
  | moved {b : ℕ} : t.data = some b → (env.malloc n).isSome → t.parcel.mDeallocZero = false → m.data = true →
      Reallocated m env n t (some t.next, { t with next := t.next + 1 }.log [.realloc b true])
  | wiped {b : ℕ} : t.data = some b → (env.malloc n).isSome → t.parcel.mDeallocZero = true → Reallocated m env n t
      (some t.next, { t with next := t.next + 1 }.log [.free b, .wipe b t.parcel.mDataCapacity,
        .copy t.next b (min t.parcel.mDataCapacity n), .load b])
  | kept {b : ℕ} : t.data = some b → (env.malloc n).isSome → t.parcel.mDeallocZero = false → m.data = false →
      Reallocated m env n t (some b, t.log [.realloc b false])

theorem reallocZeroFree_cases (m : Moves) (env : Env) (n : ℕ) (t : Heaped) :
    Reallocated m env n t (t.reallocZeroFree m env n) := by
  unfold reallocZeroFree
  cases hzero : t.parcel.mDeallocZero with
  | true =>
    cases hsome : (env.malloc n).isSome with
    | false => exact .failed hsome
    | true =>
      cases hd : t.data with
      | none => simpa [through, log, hd] using Reallocated.first (m := m) hd hsome
      | some => simpa [through, log, hd] using Reallocated.wiped (m := m) hd hsome hzero
  | false =>
    cases hsome : (env.malloc n).isSome with
    | false =>
      cases hd : t.data with
      | none => exact .failed hsome
      | some => exact .refused hzero hsome hd
    | true =>
      cases hd : t.data with
      | none => simpa [hd] using Reallocated.first (m := m) hd hsome
      | some =>
        cases hmoves : m.data with
        | true => simpa [log, hd] using Reallocated.moved hd hsome hzero hmoves
        | false => exact .kept hd hsome hzero hmoves

/-! ### The parcel underneath -/

section Underneath

variable (m : Moves) (env : Env) (t : Heaped)

@[simp] theorem log_parcel (accesses : List Access) : (t.log accesses).parcel = t.parcel := rfl

@[simp] theorem through_parcel (ptr : Option ℕ) (f : ℕ → List Access) : (t.through ptr f).parcel = t.parcel := rfl

@[simp] theorem withParcel_parcel (p : Parcel) : (t.withParcel p).parcel = p := rfl

@[simp] theorem freeObjects_parcel : t.freeObjects.parcel = t.parcel := rfl

@[simp] theorem releaseObjects_parcel : t.releaseObjects.parcel = t.parcel := by
  unfold releaseObjects
  split <;> rfl

@[simp] theorem reallocObjects_parcel : (t.reallocObjects m).parcel = t.parcel := by
  unfold reallocObjects
  split
  · rfl
  · split <;> rfl

@[simp] theorem reallocZeroFree_parcel (n : ℕ) : (t.reallocZeroFree m env n).2.parcel = t.parcel := by
  have hcases := reallocZeroFree_cases m env n t
  generalize t.reallocZeroFree m env n = r at hcases ⊢
  cases hcases <;> rfl

@[simp] theorem dropObjects_parcel (kept : List ℕ) :
    (t.dropObjects m env kept).parcel = t.parcel.dropObjects env kept := by
  unfold dropObjects
  split_ifs with hlen
  · rfl
  · rfl
  · rfl
  · rw [Parcel.dropObjects, if_neg hlen]

/-- The same result, and the parcel underneath. -/
def Over {α : Type} (x : α × Heaped) (y : α × Parcel) : Prop := x.1 = y.1 ∧ x.2.parcel = y.2

@[elab_as_elim]
theorem Over.elim {α : Type} {x : α × Heaped} {y : α × Parcel} {P : α × Heaped → α × Parcel → Prop} (h : Over x y)
    (hP : ∀ a t, P (a, t) (a, t.parcel)) : P x y := by
  obtain ⟨a, t⟩ := x
  obtain ⟨a', p⟩ := y
  obtain ⟨rfl, rfl⟩ := h
  exact hP a t

theorem resizeOwn_parcel (desired : ℕ) : Over (t.resizeOwn m env desired) (t.parcel.resizeOwn env desired) := by
  unfold resizeOwn
  split_ifs <;> exact ⟨rfl, rfl⟩

theorem restartWrite_parcel (desired : ℕ) : Over (t.restartWrite m env desired) (t.parcel.restartWrite env desired) := by
  unfold restartWrite
  by_cases hmax : desired > int32Max
  · rw [if_pos hmax, Parcel.restartWrite, if_pos hmax]
    exact ⟨rfl, rfl⟩
  · rw [if_neg hmax]
    dsimp only
    split_ifs <;> exact ⟨rfl, rfl⟩

/-- An operation that goes on after a step that may fail. -/
theorem then_parcel {x : Status × Heaped} {y : Status × Parcel} {f : Heaped → Heaped} {g : Parcel → Status × Parcel}
    (h : Over x y) (hf : ∀ t, (f t).parcel = (g t.parcel).2) :
    (match x with | (.ok, t) => f t | (_, t) => t).parcel = (match y with | (.ok, p) => g p | r => r).2 := by
  refine h.elim fun st t => ?_
  cases st with
  | ok => exact hf t
  | _ => rfl

theorem setData_parcel (buffer : Memory) (len : ℕ) :
    (t.setData m env buffer len).parcel = (t.parcel.setData env buffer len).2 := by
  unfold setData Parcel.setData
  split_ifs
  · rfl
  · exact then_parcel (g := fun p => (.ok, { p.store 0 buffer len with mDataSize := len, mFdsKnown := false }))
      (restartWrite_parcel m env t len) fun _ => rfl

@[simp] theorem putObject_parcel (val : FlatBinderObject) (nullMetaData : Bool) :
    (t.putObject val nullMetaData).parcel = (t.parcel.putObject val nullMetaData).2 := by
  unfold putObject
  dsimp only
  split_ifs <;> rfl

/-- An operation that goes on once the table has grown. -/
theorem grown_parcel {f : Heaped → Heaped} {g : Parcel → Status × Parcel} (n : ℕ)
    (hf : ∀ t, (f t).parcel = (g t.parcel).2) :
    (match t.growObjects m env n with | (true, t) => f t | (false, t) => t).parcel =
      (match t.parcel.growObjects env n with | none => (Status.noMemory, t.parcel) | some p => g p).2 := by
  unfold growObjects Parcel.growObjects
  by_cases hover : n > sizeMax - t.parcel.mObjects.length ∨ t.parcel.mObjects.length + n > sizeMax / 3 ∨
      (t.parcel.mObjects.length + n) * 3 / 2 > sizeMax / sizeofBinderSize
  · rw [if_pos hover, if_pos (by tauto)]
  · rw [if_neg hover]
    by_cases hgrow : env.growObjects = true
    · rw [if_pos hgrow, if_neg (by rw [hgrow]; tauto)]
      exact hf _
    · rw [if_neg hgrow, if_pos (by simp only [Bool.not_eq_true] at hgrow; tauto)]
      rfl

theorem adoptObjects_parcel (objects : Option ℕ) (offs : List ℕ) :
    (t.adoptObjects env objects offs).parcel = (t.parcel.adoptObjects env offs).2 := by
  induction offs generalizing t with
  | nil => rfl
  | cons off offs ih =>
    have hfirst : (t.adoptObject env objects off).parcel = (t.parcel.adoptObject env off).2 := by
      unfold adoptObject
      dsimp only
      split_ifs <;> rfl
    rw [adoptObjects, ih, hfirst]
    rfl

theorem appendData_parcel (src : Parcel) (data objects : Option ℕ) (offset len startPos : ℕ) :
    (t.appendData m env src data objects offset len startPos).parcel =
      (Parcel.appendData env src offset len startPos t.parcel).2 := by
  have hadopt (r : Heaped) (offs : List ℕ) := adoptObjects_parcel env r objects offs
  unfold appendData Parcel.appendData
  dsimp only [put, withParcel, through, log]
  split_ifs
  · rfl
  · exact grown_parcel m env _ _ fun r => hadopt r _
  · exact hadopt _ _

variable {t}

section Owned

variable (hown : t.parcel.mOwner = false)
include hown

theorem continueWrite_parcel (desired : ℕ) :
    Over (t.continueWrite m env desired) (t.parcel.continueWrite env desired) := by
  unfold continueWrite
  by_cases hmax : desired > int32Max
  · rw [if_pos hmax, Parcel.continueWrite, if_pos hmax]
    exact ⟨rfl, rfl⟩
  · rw [if_neg hmax]
    dsimp only
    generalize ht' : (if desired < t.parcel.mDataSize ∧ desired ≠ 0 ∧ t.parcel.mObjects ≠ [] then
      t.through t.objects fun b => [.load b] else t) = t'
    have hp : t'.parcel = t.parcel := by
      rw [← ht']
      split_ifs <;> rfl
    rw [hp]
    by_cases hdata : t.parcel.mData.isSome
    · rw [if_pos hdata, Parcel.continueWrite, if_neg hmax]
      simp only [hown, Bool.false_eq_true, if_false, hdata, if_true]
      have hres := resizeOwn_parcel m env (t'.dropObjects m env (t.parcel.keptObjects desired)) desired
      rwa [dropObjects_parcel, hp] at hres
    · rw [if_neg hdata]
      split_ifs <;> exact ⟨rfl, rfl⟩

theorem growData_parcel (len : ℕ) : Over (t.growData m env len) (t.parcel.growData env len) := by
  unfold growData Parcel.growData
  dsimp only
  split_ifs
  · exact ⟨rfl, rfl⟩
  · exact ⟨rfl, rfl⟩
  · exact ⟨rfl, rfl⟩
  · exact ⟨rfl, rfl⟩
  · exact continueWrite_parcel m env hown _

theorem withRoom_parcel (n : ℕ) : Over (t.withRoom m env n) (t.parcel.withRoom env n) := by
  unfold withRoom Parcel.withRoom
  split_ifs
  · exact ⟨rfl, rfl⟩
  · exact growData_parcel m env hown n

theorem setDataSize_parcel (size : ℕ) : (t.setDataSize m env size).parcel = (t.parcel.setDataSize env size).2 := by
  unfold setDataSize Parcel.setDataSize
  split_ifs
  · rfl
  · exact then_parcel (g := fun p => (.ok, { p with mDataSize := size })) (continueWrite_parcel m env hown size)
      fun _ => rfl

theorem setDataCapacity_parcel (size : ℕ) :
    (t.setDataCapacity m env size).parcel = (t.parcel.setDataCapacity env size).2 := by
  unfold setDataCapacity Parcel.setDataCapacity
  split_ifs
  · rfl
  · exact (continueWrite_parcel m env hown size).2
  · rfl

theorem writeUnpadded_parcel (data : Memory) (len : ℕ) :
    (t.writeUnpadded m env data len).parcel = (t.parcel.writeUnpadded env data len).2 := by
  unfold writeUnpadded Parcel.writeUnpadded
  split_ifs
  · rfl
  · rfl
  · exact then_parcel (g := fun p => finishWrite len (p.store p.mDataPos data len)) (withRoom_parcel m env hown len)
      fun _ => rfl

theorem writeAligned_parcel (val : List UInt8) :
    (t.writeAligned m env val).parcel = (t.parcel.writeAligned env val).2 := by
  exact then_parcel (g := fun p => finishWrite val.length (p.store p.mDataPos (.ofBytes val) val.length))
    (withRoom_parcel m env hown val.length) fun _ => rfl

theorem writeInplace_parcel (len : ℕ) : Over (t.writeInplace m env len) (t.parcel.writeInplace env len) := by
  unfold writeInplace Parcel.writeInplace
  dsimp only
  split_ifs
  · exact ⟨rfl, rfl⟩
  · exact ⟨rfl, rfl⟩
  · refine (withRoom_parcel m env hown (padSize len)).elim fun st r => ?_
    cases st <;> exact ⟨rfl, rfl⟩

theorem write_parcel (data : Option Memory) (len : ℕ) :
    (t.write m env data len).parcel = (t.parcel.write env data len).2 := by
  unfold write Parcel.write
  split_ifs
  · rfl
  · refine (writeInplace_parcel m env hown len).elim fun d r => ?_
    cases d with
    | none => rfl
    | some d => cases data <;> rfl

theorem writeObject_parcel (val : FlatBinderObject) (nullMetaData : Bool) :
    (t.writeObject m env val nullMetaData).parcel = (t.parcel.writeObject env val nullMetaData).2 := by
  apply then_parcel (withRoom_parcel m env hown sizeofFlatBinderObject)
  intro r
  split_ifs
  · exact putObject_parcel r val nullMetaData
  · exact grown_parcel m env r 2 fun r => putObject_parcel r val nullMetaData

theorem appendFrom_parcel (src : Parcel) (data objects : Option ℕ) (offset len : ℕ) :
    (t.appendFrom m env src data objects offset len).parcel = (Parcel.appendFrom env src offset len t.parcel).2 := by
  unfold appendFrom Parcel.appendFrom
  dsimp only
  generalize ht' : (if src.mObjects = [] then t else t.through objects fun b => [.load b]) = t'
  have hp : t'.parcel = t.parcel := by
    rw [← ht']
    split_ifs <;> rfl
  rw [hp]
  split_ifs with _ _ _ _ hgrow
  · rfl
  · rfl
  · rfl
  · rfl
  · refine then_parcel ?_ fun r => appendData_parcel m env r src data objects offset len t.parcel.mDataPos
    have := growData_parcel m env (by rwa [hp] : t'.parcel.mOwner = false) len
    rwa [hp] at this
  · rw [← hp]
    exact appendData_parcel m env t' src data objects offset len t'.parcel.mDataPos

end Owned

end Underneath

variable {m : Moves} {t t' : Heaped}

/-- The operations on the blocks are those on the parcel. -/
theorem run_parcel {op : Op} (hown : t.parcel.mOwner = false) (hrun : t.run m op = some t') :
    t.parcel.run op = some t'.parcel := by
  cases op with
  | setDataPosition =>
    obtain ⟨p, hp, rfl⟩ := Option.map_eq_some_iff.mp hrun
    exact hp
  | setDataSize env size =>
    cases hrun
    exact congrArg some (setDataSize_parcel m env hown size).symm
  | setDataCapacity env size =>
    cases hrun
    exact congrArg some (setDataCapacity_parcel m env hown size).symm
  | setData env buffer len =>
    cases hrun
    exact congrArg some (setData_parcel m env t buffer len).symm
  | appendFrom env src offset len =>
    cases hrun
    exact congrArg some (appendFrom_parcel m env hown src none none offset len).symm
  | write env data len =>
    cases hrun
    exact congrArg some (write_parcel m env hown data len).symm
  | writeInplace env len =>
    cases hrun
    exact congrArg some (writeInplace_parcel m env hown len).2.symm
  | writeUnpadded env data len =>
    cases hrun
    exact congrArg some (writeUnpadded_parcel m env hown data len).symm
  | writeAligned env val =>
    simp only [run] at hrun
    split_ifs at hrun with hval
    cases hrun
    rw [Parcel.run, if_pos hval]
    exact congrArg some (writeAligned_parcel m env hown val).symm
  | writeObject env val nullMetaData =>
    cases hrun
    exact congrArg some (writeObject_parcel m env hown val nullMetaData).symm
  | markSensitive =>
    cases hrun
    rfl

end Heaped

end Binder.Parcel
