import Binder.Parcel.Write

/-! The write operations, and what they can do to a parcel. -/
namespace Binder.Parcel
open Binder.Lib

/-- The public operations that write, with what the allocator answers. The values of the
`writeAligned` family have 4 or 8 bytes. -/
inductive Op
  | setDataPosition (pos : ℕ)
  | setDataSize (env : Env) (size : ℕ)
  | setDataCapacity (env : Env) (size : ℕ)
  | setData (env : Env) (buffer : Memory) (len : ℕ)
  | appendFrom (env : Env) (src : Parcel) (offset len : ℕ)
  | write (env : Env) (data : Option Memory) (len : ℕ)
  | writeInplace (env : Env) (len : ℕ)
  | writeUnpadded (env : Env) (data : Memory) (len : ℕ)
  | writeAligned (env : Env) (val : List UInt8)
  | writeObject (env : Env) (val : FlatBinderObject) (nullMetaData : Bool)
  | markSensitive

/-- One operation. Its status does not matter here. -/
def run (p : Parcel) : Op → Option Parcel
  | .setDataPosition pos => setDataPosition pos p
  | .setDataSize env size => some (setDataSize env size p).2
  | .setDataCapacity env size => some (setDataCapacity env size p).2
  | .setData env buffer len => some (setData env buffer len p).2
  | .appendFrom env src offset len => some (appendFrom env src offset len p).2
  | .write env data len => some (write env data len p).2
  | .writeInplace env len => some (writeInplace env len p).2
  | .writeUnpadded env data len => some (writeUnpadded env data len p).2
  | .writeAligned env val =>
    if val.length = 4 ∨ val.length = 8 then some (writeAligned env val p).2 else none
  | .writeObject env val nullMetaData => some (writeObject env val nullMetaData p).2
  | .markSensitive => some p.markSensitive

def wanted (p : Parcel) (n : ℕ) : ℕ := max ((p.mDataSize + n) * 3 / 2) 128

/-- A write of `n` bytes finds its room: within the capacity or the one that `growData` asks for. The
other cases are a growth that is turned down and one that moves the position back far enough. -/
def Room (p : Parcel) (n : ℕ) : Prop :=
  p.mDataPos + n ≤ max p.mDataCapacity (p.wanted n) ∨ int32Max < p.wanted n ∨ p.wanted n + n ≤ p.mDataCapacity
deriving Decidable

variable {p q : Parcel} {env : Env} {n desired : ℕ}

def moveStores (zero : Bool) (oldCapacity newCapacity : ℕ) : List Event :=
  if zero then [.store 0 oldCapacity oldCapacity, .store 0 (min oldCapacity newCapacity) newCapacity] else []

section DropObjects

variable (env : Env) (kept : List ℕ) (p : Parcel)

@[simp] theorem dropObjects_mData : (p.dropObjects env kept).mData = p.mData := by
  unfold dropObjects
  split <;> rfl

@[simp] theorem dropObjects_mDataSize : (p.dropObjects env kept).mDataSize = p.mDataSize := by
  unfold dropObjects
  split <;> rfl

@[simp] theorem dropObjects_mDataPos : (p.dropObjects env kept).mDataPos = p.mDataPos := by
  unfold dropObjects
  split <;> rfl

@[simp] theorem dropObjects_mDataCapacity : (p.dropObjects env kept).mDataCapacity = p.mDataCapacity := by
  unfold dropObjects
  split <;> rfl

@[simp] theorem dropObjects_mDeallocZero : (p.dropObjects env kept).mDeallocZero = p.mDeallocZero := by
  unfold dropObjects
  split <;> rfl

@[simp] theorem dropObjects_mOwner : (p.dropObjects env kept).mOwner = p.mOwner := by
  unfold dropObjects
  split <;> rfl

theorem dropObjects_all : p.dropObjects env p.mObjects = p := by
  unfold dropObjects
  rw [if_neg (lt_irrefl _)]

end DropObjects

theorem keptObjects_of_le (h : p.mDataSize ≤ desired) : p.keptObjects desired = p.mObjects := by
  unfold keptObjects
  rw [if_neg (not_lt.mpr h)]

inductive ResizedOwn (env : Env) (desired : ℕ) (p : Parcel) : Status → Parcel → Prop
  | failed : ResizedOwn env desired p .noMemory { p with mError := .noMemory }
  | moved (mem fresh : Memory) : p.mData = some mem → p.mDataCapacity < desired → env.malloc desired = some fresh →
      ResizedOwn env desired p .ok ({ p with
        mData := some (Memory.memcpy fresh 0 mem p.mDataCapacity)
        mDataCapacity := desired }.log (moveStores p.mDeallocZero p.mDataCapacity desired))
  | clamped : desired ≤ p.mDataCapacity →
      ResizedOwn env desired p .ok { p with
        mDataSize := min p.mDataSize desired
        mDataPos := min p.mDataPos desired }

theorem resizeOwn_cases (hdata : p.mData.isSome) :
    ResizedOwn env desired p (resizeOwn env desired p).1 (resizeOwn env desired p).2 := by
  have hmin (a : ℕ) : (if a > desired then desired else a) = min a desired := by
    split <;> omega
  obtain ⟨mem, hmem⟩ := Option.isSome_iff_exists.mp hdata
  unfold resizeOwn
  rw [hmin, hmin]
  split_ifs with hcap
  · unfold reallocZeroFree
    cases hfresh : env.malloc desired with
    | none => exact .failed
    | some fresh =>
      have hmoved := ResizedOwn.moved mem fresh hmem hcap hfresh
      rw [moveStores, min_eq_left hcap.le] at hmoved
      simpa only [hmem, Option.elim_some, min_eq_left hcap.le] using hmoved
  · exact .clamped (not_lt.mp hcap)

/-- The outcomes of `continueWrite`. Objects are dropped also when the allocation then fails. -/
inductive Continued (env : Env) (desired : ℕ) (p : Parcel) : Status → Parcel → Prop
  | refused : int32Max < desired → Continued env desired p .badValue p
  | failed : Continued env desired p .noMemory { p with mError := .noMemory }
  | emptied : p.mOwner = true → desired = 0 → Continued env desired p .ok p.freeData
  | taken (data : Memory) : desired ≤ int32Max → p.mOwner = true → env.malloc desired = some data →
      Continued env desired p .ok (takeOver data desired (p.keptObjects desired) p)
  | first (data : Memory) : desired ≤ int32Max → p.mOwner = false → p.mData = none →
      env.malloc desired = some data → Continued env desired p .ok
        { p with mData := some data, mDataSize := 0, mDataPos := 0, mDataCapacity := desired }
  | own {st : Status} {q : Parcel} : desired ≤ int32Max → p.mOwner = false → p.mData.isSome →
      ResizedOwn env desired (p.dropObjects env (p.keptObjects desired)) st q → Continued env desired p st q

theorem continueWrite_cases (env : Env) (desired : ℕ) (p : Parcel) :
    Continued env desired p (continueWrite env desired p).1 (continueWrite env desired p).2 := by
  unfold continueWrite
  split_ifs with hmax hown hzero hdata
  · exact .refused hmax
  · exact .emptied hown hzero
  · cases hfresh : env.malloc desired with
    | none => exact .failed
    | some data =>
      dsimp only
      split_ifs
      · exact .failed
      · exact .taken data (not_lt.mp hmax) hown hfresh
  · have hno : p.mOwner = false := by simpa using hown
    exact .own (not_lt.mp hmax) hno hdata (resizeOwn_cases (by simpa using hdata))
  · have hno : p.mOwner = false := by simpa using hown
    have hnone : p.mData = none := by simpa using hdata
    cases hfresh : env.malloc desired with
    | none => exact .failed
    | some data => exact .first data (not_lt.mp hmax) hno hnone hfresh

/-- A parcel that `growData` made room in for `n` more bytes. -/
inductive Enlarged (env : Env) (n : ℕ) (p : Parcel) : Parcel → Prop
  | taken (data : Memory) : p.mOwner = true → p.wanted n ≤ int32Max → env.malloc (p.wanted n) = some data →
      Enlarged env n p (takeOver data (p.wanted n) p.mObjects p)
  | first (data : Memory) : p.mOwner = false → p.mData = none → p.wanted n ≤ int32Max →
      env.malloc (p.wanted n) = some data → Enlarged env n p { p with
        mData := some data, mDataSize := 0, mDataPos := 0, mDataCapacity := p.wanted n }
  | moved (mem fresh : Memory) : p.mOwner = false → p.mData = some mem → p.wanted n ≤ int32Max →
      p.mDataCapacity < p.wanted n → env.malloc (p.wanted n) = some fresh → Enlarged env n p ({ p with
        mData := some (Memory.memcpy fresh 0 mem p.mDataCapacity)
        mDataCapacity := p.wanted n }.log (moveStores p.mDeallocZero p.mDataCapacity (p.wanted n)))
  | clamped : p.mOwner = false → p.mData.isSome → p.wanted n ≤ int32Max → p.wanted n ≤ p.mDataCapacity →
      Enlarged env n p { p with mDataPos := min p.mDataPos (p.wanted n) }

/-- The outcomes of asking for room for `n` more bytes. -/
inductive Roomed (env : Env) (n : ℕ) (p : Parcel) : Status → Parcel → Prop
  | fits : (p.mDataPos + n) % 2 ^ 64 ≤ p.mDataCapacity → Roomed env n p .ok p
  | refused {st : Status} : st ≠ .ok → Roomed env n p st p
  | failed : Roomed env n p .noMemory { p with mError := .noMemory }
  | enlarged {r : Parcel} : Enlarged env n p r → Roomed env n p .ok r

inductive Grew (env : Env) (n : ℕ) (p : Parcel) : Status → Parcel → Prop
  | refused {st : Status} : st ≠ .ok → Grew env n p st p
  | failed : Grew env n p .noMemory { p with mError := .noMemory }
  | enlarged {r : Parcel} : Enlarged env n p r → Grew env n p .ok r

theorem le_wanted (p : Parcel) (n : ℕ) : p.mDataSize + n ≤ p.wanted n := by
  unfold wanted
  omega

theorem growData_grew (env : Env) (n : ℕ) (p : Parcel) : Grew env n p (growData env n p).1 (growData env n p).2 := by
  have hsize : p.mDataSize ≤ p.wanted n := (Nat.le_add_right _ _).trans (p.le_wanted n)
  unfold growData
  dsimp only
  split_ifs
  · exact .refused (by simp)
  · exact .refused (by simp)
  · exact .refused (by simp)
  · exact .refused (by simp)
  · have hcases := continueWrite_cases env (p.wanted n) p
    change Grew env n p (continueWrite env (p.wanted n) p).1 (continueWrite env (p.wanted n) p).2
    generalize (continueWrite env (p.wanted n) p).1 = st at hcases ⊢
    generalize (continueWrite env (p.wanted n) p).2 = q at hcases ⊢
    cases hcases with
    | refused => exact .refused (by simp)
    | failed => exact .failed
    | emptied _ hzero =>
      unfold wanted at hzero
      omega
    | taken data hmax hown hdata =>
      rw [keptObjects_of_le hsize]
      exact .enlarged (.taken data hown hmax hdata)
    | first data hmax hown hnone hdata => exact .enlarged (.first data hown hnone hmax hdata)
    | own hmax hown hdata hres =>
      rw [keptObjects_of_le hsize, dropObjects_all] at hres
      cases hres with
      | failed => exact .failed
      | moved mem fresh hmem hcap hfresh => exact .enlarged (.moved mem fresh hown hmem hmax hcap hfresh)
      | clamped hcap =>
        rw [min_eq_left hsize]
        exact .enlarged (.clamped hown hdata hmax hcap)

theorem enlarged_of_growData (h : growData env n p = (.ok, q)) : Enlarged env n p q := by
  have hgrew := growData_grew env n p
  rw [h] at hgrew
  cases hgrew with
  | refused hst => exact absurd rfl hst
  | enlarged hr => exact hr

theorem withRoom_ok (h : withRoom env n p = (.ok, q)) : (p.mDataPos + n) % 2 ^ 64 ≤ p.mDataCapacity ∧ p = q ∨
    ¬ (p.mDataPos + n) % 2 ^ 64 ≤ p.mDataCapacity ∧ Enlarged env n p q := by
  unfold withRoom at h
  split_ifs at h with hfits
  · exact .inl ⟨hfits, (Prod.mk.inj h).2⟩
  · exact .inr ⟨hfits, enlarged_of_growData h⟩

theorem Enlarged.wanted_le (h : Enlarged env n p q) : p.wanted n ≤ q.mDataCapacity := by
  cases h with
  | clamped _ _ _ hcap => exact hcap
  | _ => exact le_rfl

/-- `growData` never leaves less than it asks for. -/
theorem growData_cases (env : Env) (n : ℕ) (p : Parcel) : Roomed env n p (growData env n p).1 (growData env n p).2 ∧
    ((growData env n p).1 = .ok → p.wanted n ≤ (growData env n p).2.mDataCapacity) := by
  have hgrew := growData_grew env n p
  generalize (growData env n p).1 = st at hgrew ⊢
  generalize (growData env n p).2 = q at hgrew ⊢
  cases hgrew with
  | refused hst => exact ⟨.refused hst, fun hok => absurd hok hst⟩
  | failed => exact ⟨.failed, by simp⟩
  | enlarged hr => exact ⟨.enlarged hr, fun _ => hr.wanted_le⟩

/-- Room is made without moving the position or the size forward. -/
theorem Roomed.counters_le {st : Status} (h : Roomed env n p st q) :
    q.mDataPos ≤ p.mDataPos ∧ q.mDataSize ≤ p.mDataSize := by
  cases h with
  | enlarged henl =>
    cases henl with
    | taken =>
      refine ⟨le_rfl, ?_⟩
      dsimp only [takeOver, log]
      split_ifs <;> omega
    | first => exact ⟨Nat.zero_le _, Nat.zero_le _⟩
    | clamped => exact ⟨Nat.min_le_left _ _, le_rfl⟩
    | _ => exact ⟨le_rfl, le_rfl⟩
  | _ => exact ⟨le_rfl, le_rfl⟩

theorem Roomed.objects {st : Status} (h : Roomed env n p st q) : q.mObjects = p.mObjects := by
  cases h with
  | enlarged h => cases h <;> rfl
  | _ => rfl

theorem Roomed.mAllowFds {st : Status} (h : Roomed env n p st q) : q.mAllowFds = p.mAllowFds := by
  cases h with
  | enlarged h => cases h <;> rfl
  | _ => rfl

theorem withRoom_cases (env : Env) (n : ℕ) (p : Parcel) :
    Roomed env n p (withRoom env n p).1 (withRoom env n p).2 := by
  unfold withRoom
  split_ifs with hfits
  · exact .fits hfits
  · exact (growData_cases env n p).1

/-! ### Plain writes -/

/-- `q` is `r` with `n` bytes stored at the position, which moves behind them if `adv` says so. -/
structure Stored (r : Parcel) (n : ℕ) (adv : Bool) (q : Parcel) : Prop where
  eq : ∃ f es, q = { r with
      mData := r.mData.map f
      mDataPos := if adv then r.mDataPos + n else r.mDataPos
      mDataSize := if adv then max r.mDataSize (r.mDataPos + n) else r.mDataSize
      events := es ++ r.events } ∧
    (∀ mem i, i < r.mDataPos ∨ r.mDataPos + n ≤ i → f mem i = mem i) ∧
    ∀ e ∈ es, ∃ off len, e = .store off len r.mDataCapacity ∧ r.mDataPos ≤ off ∧ off + len ≤ r.mDataPos + n

namespace Stored

variable {r : Parcel} {adv : Bool}

theorem refl (r : Parcel) (n : ℕ) : Stored r n false r :=
  ⟨id, [], by simp, fun _ _ _ => rfl, by simp⟩

theorem store {off len : ℕ} (src : Memory) (h : Stored r n adv q) (hoff : r.mDataPos ≤ off)
    (hlen : off + len ≤ r.mDataPos + n) : Stored r n adv (q.store off src len) := by
  obtain ⟨f, es, rfl, hf, hes⟩ := h
  refine ⟨fun mem => Memory.memcpy (f mem) off src len, .store off len r.mDataCapacity :: es, ?_, ?_, ?_⟩
  · simp only [Parcel.store, log, Option.map_map, List.cons_append]
    rfl
  · intro mem i hi
    have hout : Memory.memcpy (f mem) off src len i = f mem i := if_neg (by omega)
    exact hout.trans (hf mem i hi)
  · intro e he
    rcases List.mem_cons.mp he with rfl | he
    · exact ⟨off, len, rfl, hoff, hlen⟩
    · exact hes e he

theorem finish (h : Stored r n false q) : ∃ adv, Stored r n adv (finishWrite n q).2 := by
  unfold finishWrite
  split_ifs
  · exact ⟨false, h⟩
  · obtain ⟨f, es, rfl, hf, hes⟩ := h
    refine ⟨true, f, es, ?_, hf, hes⟩
    simp only [Bool.false_eq_true, if_false, if_true, gt_iff_lt]
    congr 1
    split <;> omega

end Stored

/-- The outcomes of a plain write of `n` bytes. -/
inductive PlainWritten (env : Env) (n : ℕ) (p : Parcel) : Parcel → Prop
  | rejected : PlainWritten env n p p
  | stayed {st : Status} {q : Parcel} : Roomed env n p st q → st ≠ .ok → PlainWritten env n p q
  | stored {r q : Parcel} (adv : Bool) : n ≤ int32Max + 3 → Roomed env n p .ok r → Stored r n adv q →
      PlainWritten env n p q

/-- The bytes that a plain write takes. -/
def Op.plain? : Op → Option (Env × ℕ)
  | .write env _ len | .writeInplace env len => some (env, padSize len)
  | .writeUnpadded env _ len => some (env, len)
  | .writeAligned env val => some (env, val.length)
  | .setDataPosition _ | .setDataSize .. | .setDataCapacity .. | .setData .. | .appendFrom .. | .writeObject ..
  | .markSensitive => none

theorem withRoom_written {f : Parcel → Status × Parcel} (hn : n ≤ int32Max + 3)
    (hf : ∀ r, ∃ adv, Stored r n adv (f r).2) :
    PlainWritten env n p (match withRoom env n p with | (.ok, r) => f r | r => r).2 := by
  have hroom := withRoom_cases env n p
  cases hr : withRoom env n p with
  | mk st r =>
    rw [hr] at hroom
    cases st with
    | ok =>
      obtain ⟨adv, hstored⟩ := hf r
      exact .stored adv hn hroom hstored
    | _ => exact .stayed hroom (by simp)

theorem writeUnpadded_written (env : Env) (data : Memory) (len : ℕ) (p : Parcel) :
    PlainWritten env len p (writeUnpadded env data len p).2 := by
  unfold writeUnpadded
  split_ifs
  · exact .rejected
  · exact .rejected
  · exact withRoom_written (by omega) fun r => ((Stored.refl r len).store data le_rfl le_rfl).finish

theorem writeAligned_written (env : Env) {val : List UInt8} (hval : val.length ≤ int32Max) (p : Parcel) :
    PlainWritten env val.length p (writeAligned env val p).2 := by
  exact withRoom_written (by omega) fun r => ((Stored.refl r val.length).store _ le_rfl le_rfl).finish

theorem applyPadMask_stored {r : Parcel} (len : ℕ) : Stored r (padSize len) false (applyPadMask len (padSize len) r) := by
  unfold applyPadMask
  split_ifs with hpad
  · have hfour : 4 ≤ padSize len := by
      unfold padSize at hpad ⊢
      omega
    exact (Stored.refl r _).store _ (by omega) (by omega)
  · exact .refl r _

/-- Where `writeInplace` returns a pointer, the bytes behind it are reserved. -/
theorem writeInplace_spec (env : Env) (len : ℕ) (p : Parcel) :
    PlainWritten env (padSize len) p (writeInplace env len p).2 ∧
      ∀ d, (writeInplace env len p).1 = some d → ∃ r adv, d = r.mDataPos ∧
        Roomed env (padSize len) p .ok r ∧ Stored r (padSize len) adv (writeInplace env len p).2 := by
  have hpad : padSize len ≤ len + 3 := by
    unfold padSize
    omega
  unfold writeInplace
  dsimp only
  split_ifs
  · exact ⟨.rejected, by simp⟩
  · exact ⟨.rejected, by simp⟩
  · have hroom := withRoom_cases env (padSize len) p
    cases hr : withRoom env (padSize len) p with
    | mk st r =>
      rw [hr] at hroom
      cases st with
      | ok =>
        obtain ⟨adv, hstored⟩ := (applyPadMask_stored len (r := r)).finish
        refine ⟨.stored adv (by omega) hroom hstored, fun d hd => ⟨r, adv, ?_, hroom, hstored⟩⟩
        cases hdata : r.mData <;> simp_all
      | _ => exact ⟨.stayed hroom (by simp), by simp⟩

theorem write_written (env : Env) (data : Option Memory) (len : ℕ) (p : Parcel) :
    PlainWritten env (padSize len) p (write env data len p).2 := by
  obtain ⟨hwritten, hspec⟩ := writeInplace_spec env len p
  have hle := le_padSize len
  have hpad : padSize len ≤ len + 3 := by
    unfold padSize
    omega
  unfold write
  split_ifs
  · exact .rejected
  · cases hw : writeInplace env len p with
    | mk d =>
      rw [hw] at hwritten hspec
      cases d with
      | none => exact hwritten
      | some d =>
        cases data with
        | none => exact hwritten
        | some data =>
          obtain ⟨r, adv, rfl, hroom, hstored⟩ := hspec d rfl
          exact .stored adv (by omega) hroom (hstored.store data le_rfl (by omega))

theorem run_written {op : Op} (hop : op.plain? = some (env, n)) (hrun : p.run op = some q) :
    PlainWritten env n p q := by
  cases op with
  | write env data len =>
    cases hop
    cases hrun
    exact write_written env data len p
  | writeInplace env len =>
    cases hop
    cases hrun
    exact (writeInplace_spec env len p).1
  | writeUnpadded _ data =>
    cases hop
    cases hrun
    exact writeUnpadded_written _ data _ p
  | writeAligned =>
    cases hop
    simp only [run] at hrun
    split_ifs at hrun with hval
    cases hrun
    exact writeAligned_written _ (by unfold int32Max; omega) p
  | _ => cases hop

/-! ### Objects -/

/-- An object at the position, listed in the table unless it is null. -/
def placeObject (val : FlatBinderObject) (nullMetaData : Bool) (capacity : ℕ) (r : Parcel) : Parcel :=
  let listed := nullMetaData ∨ val.binder ≠ 0
  { r with
    mData := r.mData.map fun mem => Memory.memcpy mem r.mDataPos (.ofBytes val.bytes) sizeofFlatBinderObject
    mDataPos := r.mDataPos + sizeofFlatBinderObject
    mDataSize := max r.mDataSize (r.mDataPos + sizeofFlatBinderObject)
    mObjects := if listed then r.mObjects ++ [r.mDataPos] else r.mObjects
    mObjectsCapacity := capacity
    mHasFds := r.mHasFds || val.type = binderTypeFd
    mFdsKnown := r.mFdsKnown || val.type = binderTypeFd
    events := (if listed then [.acquire val] else []) ++
      .store r.mDataPos sizeofFlatBinderObject r.mDataCapacity :: r.events }

inductive ObjectWritten (env : Env) (val : FlatBinderObject) (nullMetaData : Bool) (p : Parcel) :
    Status → Parcel → Prop
  | stayed {st : Status} {q : Parcel} : Roomed env sizeofFlatBinderObject p st q → st ≠ .ok →
      ObjectWritten env val nullMetaData p st q
  | noTable {r : Parcel} : Roomed env sizeofFlatBinderObject p .ok r → ObjectWritten env val nullMetaData p .noMemory r
  | banned {r : Parcel} (capacity : ℕ) : Roomed env sizeofFlatBinderObject p .ok r → val.type = binderTypeFd →
      r.mAllowFds = false → ObjectWritten env val nullMetaData p .fdsNotAllowed
        { r.store r.mDataPos (.ofBytes val.bytes) sizeofFlatBinderObject with mObjectsCapacity := capacity }
  | placed {r : Parcel} (capacity : ℕ) : Roomed env sizeofFlatBinderObject p .ok r →
      ObjectWritten env val nullMetaData p .ok (placeObject val nullMetaData capacity r)

theorem putObject_cases (val : FlatBinderObject) (nullMetaData : Bool) (p : Parcel) :
    (val.type = binderTypeFd ∧ p.mAllowFds = false ∧ putObject val nullMetaData p =
        (.fdsNotAllowed, p.store p.mDataPos (.ofBytes val.bytes) sizeofFlatBinderObject)) ∨
      (¬ (val.type = binderTypeFd ∧ p.mAllowFds = false) ∧
        putObject val nullMetaData p = (.ok, placeObject val nullMetaData p.mObjectsCapacity p)) := by
  unfold putObject
  dsimp only
  split_ifs with hban
  · exact .inl ⟨hban.1, hban.2, rfl⟩
  · refine .inr ⟨hban, ?_⟩
    have hsize (a b : ℕ) : (if a > b then a else b) = max b a := by
      split <;> omega
    have hle : ¬ sizeofFlatBinderObject > int32Max := by decide
    unfold finishWrite
    rw [if_neg hle]
    dsimp only
    rw [hsize]
    unfold noteObject noteFd placeObject
    by_cases hlisted : nullMetaData = true ∨ val.binder ≠ 0
    · by_cases hfd : val.type = binderTypeFd
      · simp [hlisted, hfd, Parcel.store, log]
      · simp [hlisted, hfd, Parcel.store, log]
    · by_cases hfd : val.type = binderTypeFd
      · simp [hlisted, hfd, Parcel.store, log]
      · simp [hlisted, hfd, Parcel.store, log]

theorem writeObject_cases (env : Env) (val : FlatBinderObject) (nullMetaData : Bool) (p : Parcel) :
    ObjectWritten env val nullMetaData p (writeObject env val nullMetaData p).1
      (writeObject env val nullMetaData p).2 := by
  have hput {r : Parcel} (capacity : ℕ) (hr : Roomed env sizeofFlatBinderObject p .ok r) :
      ObjectWritten env val nullMetaData p (putObject val nullMetaData { r with mObjectsCapacity := capacity }).1
        (putObject val nullMetaData { r with mObjectsCapacity := capacity }).2 := by
    rcases putObject_cases val nullMetaData { r with mObjectsCapacity := capacity } with ⟨hfd, hallow, heq⟩ | ⟨-, heq⟩
    · rw [heq]
      exact .banned capacity hr hfd hallow
    · rw [heq]
      exact ObjectWritten.placed (r := r) capacity hr
  have hroom := withRoom_cases env sizeofFlatBinderObject p
  unfold writeObject
  dsimp only
  cases hr : withRoom env sizeofFlatBinderObject p with
  | mk st r =>
    rw [hr] at hroom
    cases st with
    | ok =>
      split_ifs
      · exact hput r.mObjectsCapacity hroom
      · unfold growObjects
        dsimp only
        split_ifs
        · exact .noTable hroom
        · exact hput _ hroom
    | _ => exact .stayed hroom (by simp)

/-! ### Size -/

inductive SizeSet (env : Env) (size : ℕ) (p : Parcel) : Parcel → Prop
  | rejected : SizeSet env size p p
  | stayed {st : Status} {q : Parcel} : Continued env size p st q → st ≠ .ok → SizeSet env size p q
  | set {q : Parcel} : Continued env size p .ok q → SizeSet env size p { q with mDataSize := size }

theorem setDataSize_cases (env : Env) (size : ℕ) (p : Parcel) : SizeSet env size p (setDataSize env size p).2 := by
  unfold setDataSize
  split_ifs
  · exact .rejected
  · have hcont := continueWrite_cases env size p
    cases hr : continueWrite env size p with
    | mk st =>
      rw [hr] at hcont
      cases st with
      | ok => exact .set hcont
      | _ => exact .stayed hcont (by simp)

inductive CapacitySet (env : Env) (size : ℕ) (p : Parcel) : Parcel → Prop
  | stayed : CapacitySet env size p p
  | continued {st : Status} {q : Parcel} : p.mDataCapacity < size → Continued env size p st q →
      CapacitySet env size p q

theorem setDataCapacity_cases (env : Env) (size : ℕ) (p : Parcel) :
    CapacitySet env size p (setDataCapacity env size p).2 := by
  unfold setDataCapacity
  split_ifs with hmax hcap
  · exact .stayed
  · exact .continued hcap (continueWrite_cases env size p)
  · exact .stayed

/-! ### Data from outside -/

/-- A parcel of its own after `setData`, in a block of `capacity` bytes. -/
def renewed (buffer : Memory) (len : ℕ) (data : Option Memory) (capacity : ℕ) (stores : List Event) (p : Parcel) :
    Parcel where
  mError := p.mError
  mData := data.map fun mem => Memory.memcpy mem 0 buffer len
  mDataSize := len
  mDataCapacity := capacity
  mFdsKnown := false
  mDeallocZero := p.mDeallocZero
  mSession := p.mSession
  events := .store 0 len capacity :: (p.objectsAt p.mObjects).map .release ++ stores ++ p.events

theorem setData_eq (env : Env) (buffer : Memory) (len : ℕ) (hown : p.mOwner = false) :
    (setData env buffer len p).2 = if len > int32Max then p
      else match env.malloc len with
        | some fresh =>
          renewed buffer len (some (p.mData.elim fresh fun mem => Memory.memcpy fresh 0 mem (min p.mDataCapacity len)))
            len (moveStores p.mDeallocZero p.mDataCapacity len) p
        | none =>
          if len > p.mDataCapacity then { p with mError := .noMemory }
          else if len = 0 then renewed buffer len none 0 [] p
          else renewed buffer len p.mData p.mDataCapacity [] p := by
  unfold setData
  by_cases hmax : len > int32Max
  · rw [if_pos hmax, if_pos hmax]
  · rw [if_neg hmax, if_neg hmax]
    unfold restartWrite reallocZeroFree
    simp only [hmax, hown, if_false, Bool.false_eq_true]
    cases env.malloc len with
    | some => simp [renewed, moveStores, releaseObjects, objectsAt, Parcel.store, log, hown]
    | none =>
      by_cases hcap : len > p.mDataCapacity
      · simp [hcap]
      · by_cases hzero : len = 0
        · simp [renewed, releaseObjects, objectsAt, Parcel.store, log, hown, hzero]
        · simp [renewed, releaseObjects, objectsAt, Parcel.store, log, hown, hzero, hcap]

/-- The outcomes of `setData` on a parcel that owns its data. -/
inductive DataSet (env : Env) (buffer : Memory) (len : ℕ) (p : Parcel) : Parcel → Prop
  | rejected : DataSet env buffer len p p
  | failed : DataSet env buffer len p { p with mError := .noMemory }
  | moved (fresh : Memory) : len ≤ int32Max → env.malloc len = some fresh → DataSet env buffer len p
      (renewed buffer len (some (p.mData.elim fresh fun mem => Memory.memcpy fresh 0 mem (min p.mDataCapacity len)))
        len (moveStores p.mDeallocZero p.mDataCapacity len) p)
  | vanished : len = 0 → DataSet env buffer len p (renewed buffer len none 0 [] p)
  | kept : 0 < len → len ≤ p.mDataCapacity → DataSet env buffer len p
      (renewed buffer len p.mData p.mDataCapacity [] p)

theorem setData_cases (env : Env) (buffer : Memory) (len : ℕ) (hown : p.mOwner = false) :
    DataSet env buffer len p (setData env buffer len p).2 := by
  rw [setData_eq env buffer len hown]
  by_cases hmax : len > int32Max
  · rw [if_pos hmax]
    exact .rejected
  · rw [if_neg hmax]
    cases hfresh : env.malloc len with
    | some fresh => exact .moved fresh (not_lt.mp hmax) hfresh
    | none =>
      split_ifs with hcap hzero
      · exact .failed
      · exact .vanished hzero
      · exact .kept (Nat.pos_of_ne_zero hzero) (not_lt.mp hcap)

/-! ### Appending -/

def dataFrom (src : Parcel) (offset : ℕ) : Memory := src.mData.elim (fun _ => 0) fun mem i => mem (offset + i)

/-- Room for `len` bytes at the end of the data. -/
inductive Spaced (env : Env) (len : ℕ) (p : Parcel) : Parcel → Prop
  | fits : p.mDataSize + len ≤ p.mDataCapacity → Spaced env len p p
  | grown {r : Parcel} : p.mDataCapacity < p.mDataSize + len → Roomed env len p .ok r →
      p.wanted len ≤ r.mDataCapacity → Spaced env len p r

/-- The data of the source without its objects, and a table of the given capacity. -/
def copied (src : Parcel) (offset len capacity : ℕ) (r : Parcel) : Parcel :=
  { r with
    mData := r.mData.map fun mem => Memory.memcpy mem r.mDataPos (dataFrom src offset) len
    mDataPos := r.mDataPos + len
    mDataSize := r.mDataSize + len
    mObjectsCapacity := capacity
    events := .store r.mDataPos len r.mDataCapacity :: r.events }

/-- The entries that the objects of the source get. -/
def movedObjects (src : Parcel) (offset len startPos : ℕ) : List ℕ :=
  (objectsBetween src.mObjects offset len).map (movedTo offset startPos)

/-- The outcomes of `appendFrom`. The data stays also where the table cannot grow. -/
inductive Appended (env : Env) (src : Parcel) (offset len : ℕ) (p : Parcel) : Parcel → Prop
  | rejected : Appended env src offset len p p
  | stayed {st : Status} {q : Parcel} : Roomed env len p st q → st ≠ .ok → Appended env src offset len p q
  | plain {r : Parcel} : 0 < len → len ≤ int32Max → offset + len ≤ src.mDataSize → Spaced env len p r →
      Appended env src offset len p (copied src offset len r.mObjectsCapacity r)
  | adopted {r : Parcel} (capacity : ℕ) : 0 < len → len ≤ int32Max → offset + len ≤ src.mDataSize →
      Spaced env len p r → movedObjects src offset len p.mDataPos ≠ [] → Appended env src offset len p
        (adoptObjects env (movedObjects src offset len p.mDataPos) (copied src offset len capacity r)).2

theorem adoptObject_counters (env : Env) (off : ℕ) (p : Parcel) :
    (adoptObject env off p).2.mDataPos = p.mDataPos ∧ (adoptObject env off p).2.mDataSize = p.mDataSize := by
  unfold adoptObject
  dsimp only
  split_ifs <;> exact ⟨rfl, rfl⟩

theorem adoptObjects_counters (env : Env) (offs : List ℕ) (p : Parcel) :
    (adoptObjects env offs p).2.mDataPos = p.mDataPos ∧ (adoptObjects env offs p).2.mDataSize = p.mDataSize := by
  induction offs generalizing p with
  | nil => exact ⟨rfl, rfl⟩
  | cons off offs ih =>
    obtain ⟨hpos, hsize⟩ := ih (adoptObject env off p).2
    obtain ⟨hpos₁, hsize₁⟩ := adoptObject_counters env off p
    exact ⟨hpos.trans hpos₁, hsize.trans hsize₁⟩

theorem appendData_cases {r : Parcel} {src : Parcel} {offset len : ℕ} (hpos : 0 < len) (hlen : len ≤ int32Max)
    (hsrc : offset + len ≤ src.mDataSize) (hr : Spaced env len p r) :
    Appended env src offset len p (appendData env src offset len p.mDataPos r).2 := by
  unfold appendData
  dsimp only
  split_ifs with hnil hcap
  · exact .plain hpos hlen hsrc hr
  · unfold growObjects
    dsimp only
    split_ifs
    · exact .plain hpos hlen hsrc hr
    · exact .adopted _ hpos hlen hsrc hr hnil
  · exact .adopted r.mObjectsCapacity hpos hlen hsrc hr hnil

theorem appendFrom_cases (env : Env) (src : Parcel) (offset len : ℕ) (p : Parcel) :
    Appended env src offset len p (appendFrom env src offset len p).2 := by
  unfold appendFrom
  split_ifs with hsession hzero hmax hsrc hgrow
  · exact .rejected
  · exact .rejected
  · exact .rejected
  · exact .rejected
  · have hcases := growData_cases env len p
    cases hr : growData env len p with
    | mk st =>
      rw [hr] at hcases
      cases st with
      | ok => exact appendData_cases (Nat.pos_of_ne_zero hzero) (by omega) (by omega) (.grown hgrow hcases.1 (hcases.2 rfl))
      | _ => exact .stayed hcases.1 (by simp)
  · exact appendData_cases (Nat.pos_of_ne_zero hzero) (by omega) (by omega) (.fits (not_lt.mp hgrow))

end Binder.Parcel
