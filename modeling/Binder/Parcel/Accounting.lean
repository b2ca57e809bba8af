import Mathlib.Algebra.Group.Prod
import Mathlib.Tactic.Abel
import Binder.Lib.Ledger
import Binder.Parcel.Failure
import Binder.Parcel.Integrity
import Binder.Parcel.Protect

/-! The global counters of allocated data blocks. -/
namespace Binder.Parcel
open Binder.Lib List

/-- What is added to `gParcelGlobalAllocCount` and to `gParcelGlobalAllocSize`. -/
abbrev Tally := ℤ × ℤ

section Tallies

variable (env : Env) (p : Parcel)

def freeDataNoInitTally : Tally :=
  if p.mOwner then 0 else if p.mData.isSome then (-1, -p.mDataCapacity) else 0

def resizeOwnTally (desired : ℕ) : Tally :=
  if desired > p.mDataCapacity then
    match reallocZeroFree env p.mData p.mDataCapacity desired p.mDeallocZero with
    | (some _, _) => (0, desired - p.mDataCapacity)
    | (none, _) => 0
  else 0

def continueWriteTally (desired : ℕ) : Tally :=
  if desired > int32Max then 0
  else
    let kept := p.keptObjects desired
    if p.mOwner then
      if desired = 0 then p.freeDataNoInitTally
      else match env.malloc desired with
        | none => 0
        | some _ => if kept ≠ [] ∧ ¬ env.callocObjects then 0 else (1, desired)
    else if p.mData.isSome then (p.dropObjects env kept).resizeOwnTally env desired
    else match env.malloc desired with
      | none => 0
      | some _ => (1, desired)

def growDataTally (len : ℕ) : Tally :=
  if len > int32Max then 0
  else if len > sizeMax - p.mDataSize then 0
  else if p.mDataSize + len > sizeMax / 3 then 0
  else
    let newSize := (p.mDataSize + len) * 3 / 2
    if newSize ≤ p.mDataSize then 0 else p.continueWriteTally env (max newSize 128)

/-- The block may be gone with `desired = 0`, but only a block that is new is counted. -/
def restartWriteTally (desired : ℕ) : Tally :=
  if desired > int32Max then 0
  else if p.mOwner then p.freeDataNoInitTally + p.freeData.continueWriteTally env desired
  else
    let data := (reallocZeroFree env p.mData p.mDataCapacity desired p.mDeallocZero).1
    if data.isNone ∧ desired > p.mDataCapacity then 0
    else if data.isSome ∨ desired = 0 then (if p.mData.isNone then 1 else 0, desired - p.mDataCapacity)
    else 0

def withRoomTally (n : ℕ) : Tally :=
  if (p.mDataPos + n) % 2 ^ 64 ≤ p.mDataCapacity then 0 else p.growDataTally env n

end Tallies

def Op.tally (p : Parcel) : Op → Tally
  | .setDataPosition _ | .markSensitive => 0
  | .setDataSize env size => if size > int32Max then 0 else p.continueWriteTally env size
  | .setDataCapacity env size =>
    if size > int32Max then 0 else if size > p.mDataCapacity then p.continueWriteTally env size else 0
  | .setData env _ len => if len > int32Max then 0 else p.restartWriteTally env len
  | .appendFrom env src offset len =>
    if p.mSession ≠ src.mSession then 0
    else if len = 0 then 0
    else if len > int32Max then 0
    else if offset > src.mDataSize ∨ len > src.mDataSize ∨ offset + len > src.mDataSize then 0
    else if p.mDataSize + len > p.mDataCapacity then p.growDataTally env len
    else 0
  | .write env _ len | .writeInplace env len =>
    if len > int32Max then 0
    else if (p.mDataPos + padSize len) % 2 ^ 64 < p.mDataPos then 0
    else p.withRoomTally env (padSize len)
  | .writeUnpadded env _ len =>
    if len > int32Max then 0
    else if (p.mDataPos + len) % 2 ^ 64 < p.mDataPos then 0
    else p.withRoomTally env len
  | .writeAligned env val => p.withRoomTally env val.length
  | .writeObject env _ _ => p.withRoomTally env sizeofFlatBinderObject

def Action.tally (p : Parcel) : Action → Tally
  | .op o => o.tally p
  | .freeData => p.freeDataNoInitTally
  | .read _ | .readObject _ | .pushAllowFds _ | .restoreAllowFds _ => 0

/-! ### What the counters should say -/

variable {p q r : Parcel} {env : Env} {n desired : ℕ} {d : Tally}

/-- The share of one parcel: a data block of its own counts with its capacity. -/
def owned (p : Parcel) : Tally := if p.mOwner = false ∧ p.mData.isSome then (1, p.mDataCapacity) else 0

/-- A parcel without a block has no capacity. -/
def Backed (p : Parcel) : Prop := p.mOwner = false → p.mData = none → p.mDataCapacity = 0

/-- From `p` to `q` the counters follow the block when `d` is added to them. -/
structure Booked (p : Parcel) (d : Tally) (q : Parcel) : Prop where
  tally : d = owned q - owned p
  backed : Backed q

structure SameBlock (p q : Parcel) : Prop where
  owner : q.mOwner = p.mOwner
  data : q.mData.isSome = p.mData.isSome
  capacity : q.mDataCapacity = p.mDataCapacity

theorem SameBlock.refl (p : Parcel) : SameBlock p p := ⟨rfl, rfl, rfl⟩

theorem SameBlock.trans (h₁ : SameBlock p q) (h₂ : SameBlock q r) : SameBlock p r :=
  ⟨h₂.owner.trans h₁.owner, h₂.data.trans h₁.data, h₂.capacity.trans h₁.capacity⟩

theorem SameBlock.owned (h : SameBlock p q) : owned q = owned p := by
  unfold Parcel.owned
  rw [h.owner, h.data, h.capacity]

theorem SameBlock.backed (h : SameBlock p q) (hp : Backed p) : Backed q := by
  intro hown hnone
  have hdata := h.data
  rw [hnone, Option.isSome_none, eq_comm, Option.isSome_eq_false_iff, Option.isNone_iff_eq_none] at hdata
  rw [h.capacity]
  exact hp (h.owner.symm.trans hown) hdata

theorem Booked.same (h : Booked p d q) (hs : SameBlock q r) : Booked p d r :=
  ⟨hs.owned.symm ▸ h.tally, hs.backed h.backed⟩

theorem SameBlock.booked (h : SameBlock p q) (hp : Backed p) : Booked p 0 q :=
  ⟨by rw [h.owned, sub_self], h.backed hp⟩

/-! ### Blocks -/

theorem owned_of_block {capacity : ℕ} (hown : q.mOwner = false) (hdata : q.mData.isSome)
    (hcap : q.mDataCapacity = capacity) : owned q = (1, (capacity : ℤ)) := by
  unfold owned
  rw [if_pos ⟨hown, hdata⟩, hcap]

theorem owned_of_owner (hown : q.mOwner = true) : owned q = 0 := by
  unfold owned
  simp [hown]

theorem owned_of_null (hnone : q.mData = none) : owned q = 0 := by
  unfold owned
  simp [hnone]

theorem freeDataNoInitTally_eq (p : Parcel) : p.freeDataNoInitTally = -owned p := by
  unfold freeDataNoInitTally owned
  cases p.mOwner <;> cases p.mData <;> simp

theorem booked_freeData (p : Parcel) : Booked p p.freeDataNoInitTally p.freeData := by
  have hnull : owned p.freeData = 0 := owned_of_null rfl
  exact ⟨by rw [freeDataNoInitTally_eq, hnull, zero_sub], fun _ _ => rfl⟩

theorem backed_of_isSome (h : p.mData.isSome) : Backed p := fun _ hnone => by simp [hnone] at h

theorem sameBlock_dropObjects (env : Env) (kept : List ℕ) (p : Parcel) : SameBlock p (p.dropObjects env kept) :=
  ⟨dropObjects_mOwner env kept p, by rw [dropObjects_mData], dropObjects_mDataCapacity env kept p⟩

theorem booked_resizeOwn (env : Env) (desired : ℕ) (hown : p.mOwner = false) (hdata : p.mData.isSome) :
    Booked p (p.resizeOwnTally env desired) (resizeOwn env desired p).2 := by
  have howned : owned p = (1, (p.mDataCapacity : ℤ)) := owned_of_block hown hdata rfl
  unfold resizeOwnTally resizeOwn
  by_cases hcap : desired > p.mDataCapacity
  · rw [if_pos hcap, if_pos hcap]
    unfold reallocZeroFree
    cases env.malloc desired with
    | none => exact SameBlock.booked ⟨rfl, rfl, rfl⟩ (backed_of_isSome hdata)
    | some =>
      refine ⟨?_, backed_of_isSome rfl⟩
      rw [howned]
      simp [owned, hown]
  · rw [if_neg hcap, if_neg hcap]
    exact SameBlock.booked ⟨rfl, rfl, rfl⟩ (backed_of_isSome hdata)

theorem booked_continueWrite (env : Env) (desired : ℕ) (h : Backed p) :
    Booked p (p.continueWriteTally env desired) (continueWrite env desired p).2 := by
  unfold continueWriteTally continueWrite
  by_cases hmax : desired > int32Max
  · rw [if_pos hmax, if_pos hmax]
    exact (SameBlock.refl p).booked h
  · rw [if_neg hmax, if_neg hmax]
    dsimp only
    cases hown : p.mOwner with
    | true =>
      have hzero : owned p = 0 := owned_of_owner hown
      by_cases hempty : desired = 0
      · rw [if_pos hempty, if_pos hempty]
        exact booked_freeData p
      · rw [if_neg hempty, if_neg hempty]
        cases env.malloc desired with
        | none => exact SameBlock.booked ⟨hown.symm, rfl, rfl⟩ h
        | some =>
          dsimp only
          by_cases htable : p.keptObjects desired ≠ [] ∧ ¬ env.callocObjects
          · rw [if_pos htable, if_pos htable]
            exact SameBlock.booked ⟨hown.symm, rfl, rfl⟩ h
          · rw [if_neg htable, if_neg htable]
            refine ⟨?_, backed_of_isSome rfl⟩
            rw [hzero, sub_zero]
            simp [owned, takeOver]
    | false =>
      cases hdata : p.mData with
      | none =>
        cases env.malloc desired with
        | none => exact SameBlock.booked ⟨hown.symm, by simp [hdata], rfl⟩ h
        | some =>
          refine ⟨?_, backed_of_isSome rfl⟩
          rw [owned_of_null hdata, sub_zero]
          simp [owned]
      | some =>
        have hsame := sameBlock_dropObjects env (p.keptObjects desired) p
        have hres := booked_resizeOwn env desired (hsame.owner.trans hown) (hsame.data.trans (by simp [hdata]))
        exact ⟨hsame.owned ▸ hres.tally, hres.backed⟩

theorem booked_growData (env : Env) (n : ℕ) (h : Backed p) :
    Booked p (p.growDataTally env n) (growData env n p).2 := by
  unfold growDataTally growData
  dsimp only
  split_ifs
  · exact (SameBlock.refl p).booked h
  · exact (SameBlock.refl p).booked h
  · exact (SameBlock.refl p).booked h
  · exact (SameBlock.refl p).booked h
  · exact booked_continueWrite env _ h

theorem booked_withRoom (env : Env) (n : ℕ) (h : Backed p) :
    Booked p (p.withRoomTally env n) (withRoom env n p).2 := by
  unfold withRoomTally withRoom
  split_ifs
  · exact (SameBlock.refl p).booked h
  · exact booked_growData env n h

/-- An empty restart of a parcel with a block of its own needs the allocator to hand out a new one. -/
theorem booked_restartWrite (env : Env) (desired : ℕ) (h : Backed p)
    (hblock : p.mOwner = false → desired = 0 → env.malloc 0 ≠ none) :
    Booked p (p.restartWriteTally env desired) (restartWrite env desired p).2 := by
  unfold restartWriteTally restartWrite
  by_cases hmax : desired > int32Max
  · rw [if_pos hmax, if_pos hmax]
    exact (SameBlock.refl p).booked h
  · rw [if_neg hmax, if_neg hmax]
    cases hown : p.mOwner with
    | true =>
      rw [if_pos rfl, if_pos rfl]
      have hfree := booked_freeData p
      have hcont := booked_continueWrite env desired hfree.backed
      refine ⟨?_, hcont.backed⟩
      rw [hfree.tally, hcont.tally]
      abel
    | false =>
      unfold reallocZeroFree
      cases hfresh : env.malloc desired with
      | some =>
        refine ⟨?_, backed_of_isSome (by simp)⟩
        cases hdata : p.mData with
        | none => simp [owned, hdata, releaseObjects, hown, h hown hdata]
        | some => simp [owned, hdata, releaseObjects, hown]
      | none =>
        by_cases hcap : desired > p.mDataCapacity
        · simp only [Option.isNone_none, hcap, and_self, if_true]
          exact SameBlock.booked ⟨hown.symm, rfl, rfl⟩ h
        · have hzero : desired ≠ 0 := by
            rintro rfl
            exact hblock hown rfl hfresh
          simp only [Option.isNone_none, hcap, and_false, if_false, Option.isSome_none, Bool.false_eq_true, false_or,
            hzero]
          exact SameBlock.booked ⟨rfl, by simp [releaseObjects], by simp [releaseObjects]⟩ h

/-! ### Writes into the block -/

theorem sameBlock_store (p : Parcel) (off : ℕ) (src : Memory) (len : ℕ) : SameBlock p (p.store off src len) :=
  ⟨rfl, by simp, rfl⟩

theorem sameBlock_finishWrite (n : ℕ) (p : Parcel) : SameBlock p (finishWrite n p).2 := by
  unfold finishWrite
  split_ifs <;> exact ⟨rfl, rfl, rfl⟩

theorem sameBlock_applyPadMask (len padded : ℕ) (p : Parcel) : SameBlock p (applyPadMask len padded p) := by
  unfold applyPadMask
  split_ifs
  · exact sameBlock_store ..
  · exact .refl p

theorem sameBlock_putObject (val : FlatBinderObject) (nullMetaData : Bool) (p : Parcel) :
    SameBlock p (putObject val nullMetaData p).2 := by
  rcases putObject_cases val nullMetaData p with ⟨-, -, heq⟩ | ⟨-, heq⟩
  · rw [heq]
    exact sameBlock_store ..
  · rw [heq]
    exact ⟨rfl, by simp [placeObject], rfl⟩

theorem sameBlock_adoptObjects (env : Env) (offs : List ℕ) (p : Parcel) :
    SameBlock p (adoptObjects env offs p).2 := by
  induction offs generalizing p with
  | nil => exact .refl p
  | cons off offs ih =>
    refine SameBlock.trans ?_ (ih (adoptObject env off p).2)
    unfold adoptObject
    dsimp only
    split_ifs <;> exact ⟨rfl, by simp, rfl⟩

theorem sameBlock_appendData (env : Env) (src : Parcel) (offset len startPos : ℕ) (p : Parcel) :
    SameBlock p (appendData env src offset len startPos p).2 := by
  have hcopied (capacity : ℕ) : SameBlock p (copied src offset len capacity p) := ⟨rfl, by simp [copied], rfl⟩
  rw [appendData_eq_ite]
  dsimp only
  split_ifs
  · exact hcopied _
  · exact (hcopied _).trans (sameBlock_adoptObjects ..)
  · exact (hcopied _).trans (sameBlock_adoptObjects ..)
  · exact hcopied _

/-- A write that makes room first and then stays in the block. -/
theorem booked_withRoom_then {f : Parcel → Status × Parcel} (h : Backed p) (hf : ∀ r, SameBlock r (f r).2) :
    Booked p (p.withRoomTally env n) (match withRoom env n p with | (.ok, r) => f r | r => r).2 := by
  have hroom := booked_withRoom env n h
  cases hr : withRoom env n p with
  | mk st r =>
    rw [hr] at hroom
    cases st with
    | ok => exact hroom.same (hf r)
    | _ => exact hroom

theorem booked_writeInplace (env : Env) (len : ℕ) (h : Backed p) :
    Booked p (Op.tally p (.writeInplace env len)) (writeInplace env len p).2 := by
  unfold Op.tally writeInplace
  dsimp only
  split_ifs
  · exact (SameBlock.refl p).booked h
  · exact (SameBlock.refl p).booked h
  · have hroom := booked_withRoom env (padSize len) h
    cases hr : withRoom env (padSize len) p with
    | mk st =>
      rw [hr] at hroom
      cases st with
      | ok => exact hroom.same ((sameBlock_applyPadMask ..).trans (sameBlock_finishWrite ..))
      | _ => exact hroom

theorem booked_appendFrom (env : Env) (src : Parcel) (offset len : ℕ) (h : Backed p) :
    Booked p (Op.tally p (.appendFrom env src offset len)) (appendFrom env src offset len p).2 := by
  unfold Op.tally appendFrom
  dsimp only
  split_ifs
  · exact (SameBlock.refl p).booked h
  · exact (SameBlock.refl p).booked h
  · exact (SameBlock.refl p).booked h
  · exact (SameBlock.refl p).booked h
  · have hroom := booked_growData env len h
    cases hr : growData env len p with
    | mk st =>
      rw [hr] at hroom
      cases st with
      | ok => exact hroom.same (sameBlock_appendData ..)
      | _ => exact hroom
  · exact (sameBlock_appendData ..).booked h

theorem booked_write (env : Env) (data : Option Memory) (len : ℕ) (h : Backed p) :
    Booked p (Op.tally p (.write env data len)) (write env data len p).2 := by
  have hplace : Booked p (Op.tally p (.write env data len)) (writeInplace env len p).2 := booked_writeInplace env len h
  unfold write
  split_ifs with hmax
  · simp only [Op.tally, hmax, if_true]
    exact (SameBlock.refl p).booked h
  · cases hw : writeInplace env len p with
    | mk d =>
      rw [hw] at hplace
      cases d with
      | none => exact hplace
      | some =>
        cases data with
        | none => exact hplace
        | some => exact hplace.same (sameBlock_store ..)

theorem booked_writeObject (env : Env) (val : FlatBinderObject) (nullMetaData : Bool) (h : Backed p) :
    Booked p (Op.tally p (.writeObject env val nullMetaData)) (writeObject env val nullMetaData p).2 := by
  have hroom := booked_withRoom env sizeofFlatBinderObject h
  unfold writeObject
  cases hr : withRoom env sizeofFlatBinderObject p with
  | mk st r =>
    rw [hr] at hroom
    cases st with
    | ok =>
      dsimp only
      rw [growObjects_eq]
      split_ifs
      · exact hroom.same (sameBlock_putObject ..)
      · have hput := sameBlock_putObject val nullMetaData { r with mObjectsCapacity := (r.mObjects.length + 2) * 3 / 2 }
        exact hroom.same ⟨hput.owner, hput.data, hput.capacity⟩
      · exact hroom
    | _ => exact hroom

theorem booked_setDataSize (env : Env) (size : ℕ) (h : Backed p) :
    Booked p (Op.tally p (.setDataSize env size)) (setDataSize env size p).2 := by
  have hcont := booked_continueWrite env size h
  unfold Op.tally setDataSize
  dsimp only
  split_ifs
  · exact (SameBlock.refl p).booked h
  · cases hr : continueWrite env size p with
    | mk st =>
      rw [hr] at hcont
      cases st with
      | ok => exact hcont.same ⟨rfl, rfl, rfl⟩
      | _ => exact hcont

theorem booked_setData (env : Env) (buffer : Memory) (len : ℕ) (h : Backed p)
    (hblock : p.mOwner = false → len = 0 → (env.malloc 0).isSome) :
    Booked p (Op.tally p (.setData env buffer len)) (setData env buffer len p).2 := by
  have hrestart := booked_restartWrite env len h fun hown hzero => Option.isSome_iff_ne_none.mp (hblock hown hzero)
  unfold Op.tally setData
  dsimp only
  split_ifs
  · exact (SameBlock.refl p).booked h
  · cases hr : restartWrite env len p with
    | mk st =>
      rw [hr] at hrestart
      cases st with
      | ok => exact hrestart.same ⟨rfl, by simp, rfl⟩
      | _ => exact hrestart

/-! ### Operations -/

/-- The data is not replaced by nothing, unless the allocator hands out a block for that too. -/
def Op.KeepsCount (p : Parcel) : Op → Prop
  | .setData env _ len => p.mOwner = false → len = 0 → (env.malloc 0).isSome
  | _ => True

instance (p : Parcel) : (o : Op) → Decidable (o.KeepsCount p)
  | .setData .. => inferInstanceAs (Decidable (_ → _ → _))
  | .setDataPosition _ | .setDataSize .. | .setDataCapacity .. | .appendFrom .. | .write .. | .writeInplace ..
  | .writeUnpadded .. | .writeAligned .. | .writeObject .. | .markSensitive => .isTrue trivial

theorem booked_run {o : Op} (h : Backed p) (ho : o.KeepsCount p) (hrun : p.run o = some q) :
    Booked p (o.tally p) q := by
  cases o with
  | setDataPosition =>
    simp only [run, setDataPosition] at hrun
    split_ifs at hrun
    cases hrun
    exact SameBlock.booked ⟨rfl, rfl, rfl⟩ h
  | setDataSize env size =>
    cases hrun
    exact booked_setDataSize env size h
  | setDataCapacity env size =>
    cases hrun
    unfold Op.tally setDataCapacity
    dsimp only
    split_ifs
    · exact (SameBlock.refl p).booked h
    · exact booked_continueWrite env size h
    · exact (SameBlock.refl p).booked h
  | setData env buffer len =>
    cases hrun
    exact booked_setData env buffer len h ho
  | appendFrom env src offset len =>
    cases hrun
    exact booked_appendFrom env src offset len h
  | write env data len =>
    cases hrun
    exact booked_write env data len h
  | writeInplace env len =>
    cases hrun
    exact booked_writeInplace env len h
  | writeUnpadded =>
    cases hrun
    unfold Op.tally writeUnpadded
    dsimp only
    split_ifs
    · exact (SameBlock.refl p).booked h
    · exact (SameBlock.refl p).booked h
    · exact booked_withRoom_then h fun r => (sameBlock_store ..).trans (sameBlock_finishWrite ..)
  | writeAligned =>
    simp only [run] at hrun
    split_ifs at hrun
    cases hrun
    exact booked_withRoom_then h fun r => (sameBlock_store ..).trans (sameBlock_finishWrite ..)
  | writeObject env val nullMetaData =>
    cases hrun
    exact booked_writeObject env val nullMetaData h
  | markSensitive =>
    cases hrun
    exact SameBlock.booked ⟨rfl, rfl, rfl⟩ h

theorem Perused.sameBlock (h : Perused p q) : SameBlock p q := by
  obtain ⟨pos, objs, hint, flag, es, rfl, -, -, -⟩ := h
  exact ⟨rfl, rfl, rfl⟩

def Action.KeepsCount (p : Parcel) : Action → Prop
  | .op o => o.KeepsCount p
  | _ => True

instance (p : Parcel) : (a : Action) → Decidable (a.KeepsCount p)
  | .op o => inferInstanceAs (Decidable (o.KeepsCount p))
  | .read _ | .readObject _ | .pushAllowFds _ | .restoreAllowFds _ | .freeData => .isTrue trivial

theorem booked_action {a : Action} (h : Backed p) (ha : a.KeepsCount p) (hrun : a.run p = some q) :
    Booked p (a.tally p) q := by
  cases a with
  | op => exact booked_run h ha hrun
  | read r => exact (r.perused hrun).sameBlock.booked h
  | readObject nullMetaData => exact (readObject_perused nullMetaData hrun).sameBlock.booked h
  | pushAllowFds =>
    cases hrun
    unfold pushAllowFds
    split_ifs
    · exact SameBlock.booked ⟨rfl, rfl, rfl⟩ h
    · exact (SameBlock.refl p).booked h
  | restoreAllowFds =>
    cases hrun
    exact SameBlock.booked ⟨rfl, rfl, rfl⟩ h
  | freeData =>
    cases hrun
    exact booked_freeData p

theorem booked_ipcSetDataReference (data : Memory) (dataSize : ℕ) (objects : List ℕ) (p : Parcel) :
    Booked p p.freeDataNoInitTally (p.ipcSetDataReference data dataSize objects) := by
  have hown : (p.ipcSetDataReference data dataSize objects).mOwner = true := by
    unfold ipcSetDataReference
    obtain ⟨has, known, es, heq⟩ := scanForFds_eq _
    rw [heq]
    rfl
  refine ⟨?_, fun hno => by simp [hown] at hno⟩
  rw [freeDataNoInitTally_eq, owned_of_owner hown, zero_sub]

/-! ### All parcels -/

/-- The live parcels, and the two counters as the total. -/
abbrev Process := Ledger Parcel Tally

/-- One parcel is made, destroyed, used, or set to received data. -/
inductive Deed
  | create
  | destroy (i : ℕ)
  | act (i : ℕ) (a : Action)
  | ipcSetDataReference (i : ℕ) (data : Memory) (dataSize : ℕ) (objects : List ℕ)

namespace Process

def gParcelGlobalAllocCount (s : Process) : ℤ := s.total.1

def gParcelGlobalAllocSize (s : Process) : ℤ := s.total.2

def step (s : Process) : Deed → Option Process
  | .create => some (s.enter {})
  | .destroy i => s.items[i]?.map fun p => s.remove i p.freeDataNoInitTally
  | .act i a => s.items[i]?.bind fun p => (a.run p).map fun q => s.update i q (a.tally p)
  | .ipcSetDataReference i data dataSize objects =>
    s.items[i]?.map fun p => s.update i (p.ipcSetDataReference data dataSize objects) p.freeDataNoInitTally

def KeepsCount (s : Process) : Deed → Prop
  | .act i a => ∀ p ∈ s.items[i]?, a.KeepsCount p
  | .create | .destroy _ | .ipcSetDataReference .. => True

instance (s : Process) : (d : Deed) → Decidable (s.KeepsCount d)
  | .act i a => inferInstanceAs (Decidable (∀ p ∈ s.items[i]?, a.KeepsCount p))
  | .create | .destroy _ | .ipcSetDataReference .. => .isTrue trivial

structure Inv (s : Process) : Prop where
  balanced : s.Balanced owned
  backed : ∀ p ∈ s.items, Backed p

variable {s s' : Process}

theorem Inv.update {i : ℕ} (h : s.Inv) (hi : s.items[i]? = some p) (hb : Booked p d q) : Inv (s.update i q d) := by
  refine ⟨h.balanced.update hi hb.tally, fun r hr => ?_⟩
  rcases mem_or_eq_of_mem_set hr with hr | rfl
  · exact h.backed r hr
  · exact hb.backed

theorem Inv.step {deed : Deed} (h : s.Inv) (hc : s.KeepsCount deed) (hs : s.step deed = some s') : s'.Inv := by
  cases deed with
  | create =>
    cases hs
    refine ⟨h.balanced.enter (owned_of_null rfl), fun r hr => ?_⟩
    rcases mem_append.mp hr with hr | hr
    · exact h.backed r hr
    · rw [mem_singleton.mp hr]
      exact fun _ _ => rfl
  | destroy =>
    obtain ⟨p, hi, rfl⟩ := Option.map_eq_some_iff.mp hs
    exact ⟨h.balanced.remove hi (freeDataNoInitTally_eq p), fun r hr => h.backed r (mem_of_mem_eraseIdx hr)⟩
  | act =>
    obtain ⟨p, hi, hact⟩ := Option.bind_eq_some_iff.mp hs
    obtain ⟨q, hq, rfl⟩ := Option.map_eq_some_iff.mp hact
    exact h.update hi (booked_action (h.backed p (mem_of_getElem? hi)) (hc p hi) hq)
  | ipcSetDataReference i data dataSize objects =>
    obtain ⟨p, hi, rfl⟩ := Option.map_eq_some_iff.mp hs
    exact h.update hi (booked_ipcSetDataReference data dataSize objects p)

end Process

def ownsBlock (p : Parcel) : Bool := !p.mOwner && p.mData.isSome

theorem sum_owned (ps : List Parcel) :
    (ps.map owned).sum = ((ps.countP ownsBlock : ℤ), (((ps.filter ownsBlock).map mDataCapacity).sum : ℤ)) := by
  induction ps with
  | nil => rfl
  | cons p ps ih =>
    rw [map_cons, sum_cons, ih]
    cases hp : p.ownsBlock with
    | true =>
      have howned : owned p = (1, (p.mDataCapacity : ℤ)) := by
        simp only [ownsBlock, Bool.and_eq_true, Bool.not_eq_true'] at hp
        exact owned_of_block hp.1 hp.2 rfl
      simp [howned, hp, add_comm]
    | false =>
      have howned : owned p = 0 := by
        simp only [ownsBlock, Bool.and_eq_false_iff, Bool.not_eq_false'] at hp
        refine if_neg ?_
        rintro ⟨hown, hdata⟩
        simp [hown, hdata] at hp
      simp [howned, hp]

/-- In every run without an empty restart the counters are the number of the blocks that live parcels own and the
sum of their capacities. -/
theorem counters_exact {s : Process} (h : Reachable Process.step Process.KeepsCount ⟨[], 0⟩ s) :
    s.gParcelGlobalAllocCount = s.items.countP ownsBlock ∧
      s.gParcelGlobalAllocSize = ((s.items.filter ownsBlock).map mDataCapacity).sum ∧
      (s.items = [] → s.gParcelGlobalAllocCount = 0 ∧ s.gParcelGlobalAllocSize = 0) := by
  have hinv : s.Inv := h.invariant Process.Inv ⟨rfl, by simp⟩ fun _ _ _ hs hc hstep => hs.step hc hstep
  have htotal : s.total = _ := hinv.balanced.trans (sum_owned s.items)
  have hcount : s.gParcelGlobalAllocCount = s.items.countP ownsBlock := congrArg Prod.fst htotal
  have hsize : s.gParcelGlobalAllocSize = ((s.items.filter ownsBlock).map mDataCapacity).sum := congrArg Prod.snd htotal
  refine ⟨hcount, hsize, fun hnil => ?_⟩
  rw [hcount, hsize, hnil]
  exact ⟨rfl, rfl⟩

theorem counters_exact_two : ∃ s : Process, s.items.length = 1 ∧ s.gParcelGlobalAllocCount = 1 ∧
    s.gParcelGlobalAllocSize = ((s.items.filter ownsBlock).map mDataCapacity).sum := by
  obtain ⟨s, hs, hlen, hcount⟩ := exists_reachable Process.step Process.KeepsCount ⟨[], 0⟩
    [.create, .act 0 (.op (.writeAligned zeroEnv [1, 2, 3, 4])), .create, .act 1 (.op (.setData zeroEnv (fun _ => 0) 8)),
      .destroy 0]
    (fun s => s.items.length = 1 ∧ s.items.countP ownsBlock = 1) (by decide)
  have hexact := counters_exact hs
  refine ⟨s, hlen, ?_, hexact.2.1⟩
  rw [hexact.1, hcount]
  rfl

/-- Where an empty allocation gives no block, `setData` of nothing counts one that never goes away. -/
theorem empty_setData_counted : ∃ s : Process, Reachable Process.step Free ⟨[], 0⟩ s ∧ s.items = [] ∧
    s.gParcelGlobalAllocCount = 1 := by
  obtain ⟨s, hs, hempty, hcount⟩ := exists_reachable Process.step Free ⟨[], 0⟩
    [.create, .act 0 (.op (.setData { malloc := fun n => if n = 0 then none else some fun _ => 0 } (fun _ => 0) 0)),
      .destroy 0]
    (fun s => s.items.isEmpty ∧ s.gParcelGlobalAllocCount = 1) (by decide)
  exact ⟨s, hs, List.isEmpty_iff.mp hempty, hcount⟩

end Binder.Parcel
