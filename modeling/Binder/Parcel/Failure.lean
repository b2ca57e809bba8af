import Binder.Parcel.Steps

/-! Which failed writes leave a parcel as it was. -/
namespace Binder.Parcel
open Binder.Lib List

variable {p q r : Parcel} {env : Env} {n : ℕ}

/-! ### Success of the allocations -/

/-- `growData` makes room for `n` more bytes: they stay under the limits, and what has to be allocated is. -/
def Grants (env : Env) (n : ℕ) (p : Parcel) : Prop :=
  p.mDataSize < (p.mDataSize + n) * 3 / 2 ∧ p.wanted n ≤ int32Max ∧
    (p.mOwner = false ∧ p.mData.isSome ∧ p.wanted n ≤ p.mDataCapacity ∨
      (env.malloc (p.wanted n)).isSome ∧ (p.mOwner = true → p.mObjects = [] ∨ env.callocObjects = true))
deriving Decidable

/-- `n` bytes fit behind the position, or `growData` makes room for them. -/
def RoomFor (env : Env) (n : ℕ) (p : Parcel) : Prop :=
  (p.mDataPos + n) % 2 ^ 64 ≤ p.mDataCapacity ∨ Grants env n p
deriving Decidable

theorem continueWrite_ok_iff {desired : ℕ} (hzero : desired ≠ 0) (hsize : p.mDataSize ≤ desired) :
    (continueWrite env desired p).1 = .ok ↔ desired ≤ int32Max ∧
      (p.mOwner = false ∧ p.mData.isSome ∧ desired ≤ p.mDataCapacity ∨
        (env.malloc desired).isSome ∧ (p.mOwner = true → p.mObjects = [] ∨ env.callocObjects = true)) := by
  unfold continueWrite
  rw [keptObjects_of_le hsize]
  by_cases hmax : desired > int32Max
  · rw [if_pos hmax]
    simp only [reduceCtorEq, false_iff]
    omega
  · rw [if_neg hmax]
    have hle : desired ≤ int32Max := not_lt.mp hmax
    cases hown : p.mOwner with
    | true =>
      rw [if_pos rfl, if_neg hzero]
      cases env.malloc desired with
      | none => simp
      | some =>
        by_cases htable : p.mObjects = [] <;> cases hcalloc : env.callocObjects <;> simp [hle, htable]
    | false =>
      rw [if_neg (by simp)]
      cases hdata : p.mData with
      | none => cases env.malloc desired <;> simp [hle]
      | some =>
        rw [if_pos Option.isSome_some, dropObjects_all]
        unfold resizeOwn reallocZeroFree
        by_cases hcap : desired > p.mDataCapacity
        · have hcap' : ¬ desired ≤ p.mDataCapacity := not_le.mpr hcap
          rw [if_pos hcap]
          cases env.malloc desired <;> simp [hle, hcap']
        · rw [if_neg hcap]
          simp [hle, not_lt.mp hcap]

theorem growData_ok_iff : (growData env n p).1 = .ok ↔ Grants env n p := by
  have hwanted : p.wanted n = max ((p.mDataSize + n) * 3 / 2) 128 := rfl
  have hsize : p.mDataSize ≤ p.wanted n := (Nat.le_add_right _ _).trans (p.le_wanted n)
  have hcont : (continueWrite env (p.wanted n) p).1 = .ok ↔ _ := continueWrite_ok_iff (by omega) hsize
  have hmax : int32Max = 2 ^ 31 - 1 := rfl
  have hword : sizeMax = 2 ^ 64 - 1 := rfl
  unfold growData Grants
  dsimp only
  rw [← hwanted]
  split_ifs with h₁ h₂ h₃ h₄
  · exact iff_of_false (by simp) (by omega)
  · exact iff_of_false (by simp) (by omega)
  · exact iff_of_false (by simp) (by omega)
  · exact iff_of_false (by simp) (by omega)
  · rw [hcont, and_iff_right (not_le.mp h₄)]

theorem withRoom_ok_iff : (withRoom env n p).1 = .ok ↔ RoomFor env n p := by
  unfold withRoom RoomFor
  split_ifs with hfits
  · exact iff_of_true rfl (.inl hfits)
  · rw [growData_ok_iff, or_iff_right hfits]

def ObjectsGrow (env : Env) (n : ℕ) (p : Parcel) : Prop :=
  p.mObjects.length + n ≤ sizeMax / 3 ∧ (p.mObjects.length + n) * 3 / 2 ≤ sizeMax / sizeofBinderSize ∧
    env.growObjects = true
deriving Decidable

theorem growObjects_eq (env : Env) (n : ℕ) (p : Parcel) : growObjects env n p =
    if ObjectsGrow env n p then some { p with mObjectsCapacity := (p.mObjects.length + n) * 3 / 2 } else none := by
  unfold growObjects ObjectsGrow
  by_cases hgrow : env.growObjects = true
  · simp only [hgrow, and_true, Bool.true_eq_false, or_false]
    split_ifs <;> first | rfl | omega
  · simp [hgrow]

/-! ### What stays the same -/

def byteAt (i : ℕ) (p : Parcel) : Option UInt8 := p.mData.map (· i)

/-- Offset `i` is in the data, as far as the block goes. -/
def InData (i : ℕ) (p : Parcel) : Prop := i < p.mDataSize ∧ (p.mData.isSome → i < p.mDataCapacity)

def Event.isReference : Event → Bool
  | .acquire _ | .release _ => true
  | .store .. | .load .. | .ownerRelease => false

/-- The references that were acquired and released, the latest first. -/
def references (p : Parcel) : List Event := p.events.filter Event.isReference

/-- No difference that a user of the parcel can see. -/
structure Unchanged (p q : Parcel) : Prop where
  bytes : ∀ i, InData i p → byteAt i q = byteAt i p
  size : q.mDataSize = p.mDataSize
  pos : q.mDataPos = p.mDataPos
  objects : q.mObjects = p.mObjects
  references : q.references = p.references

theorem Unchanged.refl (p : Parcel) : Unchanged p p := ⟨fun _ _ => rfl, rfl, rfl, rfl, rfl⟩

theorem Unchanged.failed (p : Parcel) (st : Status) : Unchanged p { p with mError := st } :=
  ⟨fun _ _ => rfl, rfl, rfl, rfl, rfl⟩

/-- Making room for `n` more bytes shows only in the block. -/
def Quiet (n : ℕ) (p : Parcel) : Prop :=
  match p.mData with
  | none => p.mDataSize = 0 ∧ (p.mOwner = false → p.mDataPos = 0)
  | some _ => if p.mOwner then p.mObjects = [] else p.wanted n ≤ p.mDataCapacity → p.mDataPos ≤ p.wanted n

variable {mem : Memory} {i off : ℕ} {st : Status}

/-- The data is copied as far as the old block goes. -/
theorem Enlarged.bytes (h : Enlarged env n p r) (hmem : p.mData = some mem) (hi : InData i p) :
    byteAt i r = byteAt i p := by
  obtain ⟨hsize, hcap⟩ := hi
  rw [hmem] at hcap
  specialize hcap rfl
  cases h with
  | taken =>
    have hwanted := p.le_wanted n
    simp only [byteAt, takeOver, log_mData, hmem, Option.elim_some, Option.map_some, Option.some.injEq]
    refine if_pos ⟨Nat.zero_le _, ?_⟩
    split_ifs <;> omega
  | first _ _ hnone => simp [hnone] at hmem
  | moved mem' _ _ hmem' =>
    obtain rfl : mem' = mem := Option.some.inj (hmem'.symm.trans hmem)
    simp only [byteAt, log_mData, hmem, Option.map_some, Option.some.injEq]
    exact if_pos ⟨Nat.zero_le _, by omega⟩
  | clamped => rfl

theorem references_log (es : List Event) (p : Parcel) :
    (p.log es).references = es.filter Event.isReference ++ p.references := filter_append ..

theorem filter_acquires (objs : List FlatBinderObject) :
    (objs.map Event.acquire).filter Event.isReference = objs.map Event.acquire := by
  refine filter_eq_self.mpr fun e he => ?_
  obtain ⟨obj, _, rfl⟩ := mem_map.mp he
  rfl

theorem references_moveStores (zero : Bool) (old new : ℕ) :
    (moveStores zero old new).filter Event.isReference = [] := by
  cases zero <;> rfl

/-- The owner's release is not a reference of the parcel, but every object that is kept takes one. -/
theorem takeOver_references (data : Memory) (desired : ℕ) (kept : List ℕ) (p : Parcel) :
    (takeOver data desired kept p).references = (p.objectsAt kept).map .acquire ++ p.references := by
  unfold takeOver
  rw [references_log]
  cases hmem : p.mData <;> simp [Event.isReference, filter_acquires] <;> rfl

theorem objectsAt_eq_nil_iff {offs : List ℕ} (hmem : p.mData = some mem) : p.objectsAt offs = [] ↔ offs = [] := by
  simp [objectsAt, hmem]

theorem Enlarged.unchanged_iff (h : Enlarged env n p r) : Unchanged p r ↔ Quiet n p := by
  have hwanted := p.le_wanted n
  have hbytes (mem : Memory) (hmem : p.mData = some mem) (i : ℕ) (hi : InData i p) := h.bytes hmem hi
  unfold Quiet
  cases h with
  | taken data hown =>
    have hsize : (takeOver data (p.wanted n) p.mObjects p).mDataSize = p.mDataSize := by
      simp only [takeOver, log_mDataSize]
      split_ifs <;> omega
    have href := takeOver_references data (p.wanted n) p.mObjects p
    cases hmem : p.mData with
    | none =>
      simp only [hown, Bool.true_eq_false, false_implies, and_true]
      constructor
      · intro hu
        by_contra hpos
        have hbyte := hu.bytes 0 ⟨Nat.pos_of_ne_zero hpos, by simp [hmem]⟩
        simp [byteAt, hmem, takeOver] at hbyte
      · intro hzero
        refine ⟨fun i hi => ?_, hsize, rfl, rfl, by simpa [objectsAt, hmem] using href⟩
        have hi := hi.1
        omega
    | some mem =>
      simp only [hown, if_true]
      rw [← objectsAt_eq_nil_iff hmem]
      constructor
      · intro hu
        simpa [href] using hu.references
      · intro hobj
        exact ⟨hbytes mem hmem, hsize, rfl, rfl, by simpa [hobj] using href⟩
  | first _ hown hnone =>
    simp only [hnone, hown, forall_const]
    constructor
    · intro hu
      exact ⟨hu.size.symm, hu.pos.symm⟩
    · intro hzero
      refine ⟨fun i hi => ?_, hzero.1.symm, hzero.2.symm, rfl, rfl⟩
      have hi := hi.1
      omega
  | moved mem _ hown hmem =>
    simp only [hmem, hown, Bool.false_eq_true, if_false]
    refine iff_of_true ⟨hbytes mem hmem, rfl, rfl, rfl, ?_⟩ (by omega)
    rw [references_log, references_moveStores, nil_append]
    rfl
  | clamped hown hdata _ hcap =>
    obtain ⟨mem, hmem⟩ := Option.isSome_iff_exists.mp hdata
    simp only [hmem, hown, Bool.false_eq_true, if_false, hcap, forall_const]
    constructor
    · intro hu
      exact min_eq_left_iff.mp hu.pos
    · intro hle
      exact ⟨fun i _ => by simp only [byteAt, hmem], rfl, min_eq_left hle, rfl, rfl⟩

/-- There is room for `n` bytes behind the position, or making it shows only in the block. -/
def Settled (n : ℕ) (p : Parcel) : Prop := (p.mDataPos + n) % 2 ^ 64 ≤ p.mDataCapacity ∨ Quiet n p

theorem withRoom_unchanged_iff (h : withRoom env n p = (.ok, r)) : Unchanged p r ↔ Settled n p := by
  rcases withRoom_ok h with ⟨hfits, rfl⟩ | ⟨hfits, hr⟩
  · exact iff_of_true (.refl _) (.inl hfits)
  · rw [hr.unchanged_iff, Settled, or_iff_right hfits]

theorem withRoom_bytes (h : withRoom env n p = (.ok, r)) (hmem : p.mData = some mem)
    (hi : InData i p) : byteAt i r = byteAt i p := by
  rcases withRoom_ok h with ⟨-, rfl⟩ | ⟨-, hr⟩
  · rfl
  · exact hr.bytes hmem hi

theorem growData_unchanged (h : growData env n p = (st, q)) (hst : st ≠ .ok) : Unchanged p q := by
  have hgrew := growData_grew env n p
  rw [h] at hgrew
  cases hgrew with
  | refused => exact .refl _
  | failed => exact .failed p .noMemory
  | enlarged => exact absurd rfl hst

theorem withRoom_unchanged (h : withRoom env n p = (st, q)) (hst : st ≠ .ok) : Unchanged p q := by
  unfold withRoom at h
  split_ifs at h with hfits
  · exact absurd (Prod.mk.inj h).1.symm hst
  · exact growData_unchanged h hst

/-! ### Plain data -/

theorem withRoom_then_ok {f : Parcel → Status × Parcel} (hf : ∀ r, (f r).1 = .ok)
    (h : (match withRoom env n p with | (.ok, r) => f r | r => r).1 ≠ .ok) :
    Unchanged p (match withRoom env n p with | (.ok, r) => f r | r => r).2 := by
  cases hr : withRoom env n p with
  | mk st r =>
    rw [hr] at h
    cases st with
    | ok => exact absurd (hf r) h
    | _ => exact withRoom_unchanged hr (by simp)

theorem finishWrite_ok (hn : n ≤ int32Max) (p : Parcel) : (finishWrite n p).1 = .ok := by
  unfold finishWrite
  rw [if_neg (not_lt.mpr hn)]

theorem writeAligned_unchanged {val : List UInt8} (hval : val.length ≤ 8) (h : (writeAligned env val p).1 ≠ .ok) :
    Unchanged p (writeAligned env val p).2 :=
  withRoom_then_ok (fun _ => finishWrite_ok (hval.trans (by decide)) _) h

theorem writeUnpadded_unchanged {data : Memory} {len : ℕ} (h : (writeUnpadded env data len p).1 ≠ .ok) :
    Unchanged p (writeUnpadded env data len p).2 := by
  unfold writeUnpadded at h ⊢
  split_ifs at h ⊢ with hmax hwrap
  · exact .refl p
  · exact .refl p
  · exact withRoom_then_ok (fun _ => finishWrite_ok (not_lt.mp hmax) _) h

/-! ### Objects -/

/-- The table has room for the entry of one more object, or gets it. -/
def TableTakes (env : Env) (p : Parcel) : Prop := p.mObjects.length < p.mObjectsCapacity ∨ ObjectsGrow env 2 p
deriving Decidable

/-- The bytes of the data where the object would stand are those of the object. -/
def Covered (val : FlatBinderObject) (p : Parcel) : Prop :=
  ∀ mem, p.mData = some mem → ∀ i < sizeofFlatBinderObject, InData (p.mDataPos + i) p →
    mem (p.mDataPos + i) = val.bytes.getD i 0

/-- `writeObject` fails only before it has changed anything that shows. -/
def ObjectEarly (env : Env) (val : FlatBinderObject) (p : Parcel) : Prop :=
  RoomFor env sizeofFlatBinderObject p → (¬ TableTakes env p → Settled sizeofFlatBinderObject p) ∧
    (TableTakes env p → val.type = binderTypeFd → p.mAllowFds = false →
      Settled sizeofFlatBinderObject p ∧ Covered val p)

theorem objectsGrow_roomed (h : Roomed env n p st r) : ObjectsGrow env 2 r ↔ ObjectsGrow env 2 p := by
  unfold ObjectsGrow
  rw [h.objects]

section

variable (val : FlatBinderObject)
include val

theorem writeObject_of_no_room (nullMetaData : Bool)
    (hr : withRoom env sizeofFlatBinderObject p = (st, r)) (hst : st ≠ .ok) :
    writeObject env val nullMetaData p = (st, r) := by
  unfold writeObject
  rw [hr]
  cases st <;> first | rfl | exact absurd rfl hst

theorem writeObject_of_takes (nullMetaData : Bool)
    (hr : withRoom env sizeofFlatBinderObject p = (.ok, r)) (htable : TableTakes env p) :
    ∃ capacity, writeObject env val nullMetaData p =
      putObject val nullMetaData { r with mObjectsCapacity := capacity } := by
  have hroomed := withRoom_cases env sizeofFlatBinderObject p
  rw [hr] at hroomed
  unfold writeObject
  simp only [hr, growObjects_eq]
  by_cases henough : p.mObjects.length < p.mObjectsCapacity
  · rw [if_pos henough]
    exact ⟨r.mObjectsCapacity, rfl⟩
  · rw [if_neg henough, if_pos ((objectsGrow_roomed hroomed).mpr (htable.resolve_left henough))]
    exact ⟨_, rfl⟩

theorem writeObject_of_full (nullMetaData : Bool)
    (hr : withRoom env sizeofFlatBinderObject p = (.ok, r)) (htable : ¬ TableTakes env p) :
    writeObject env val nullMetaData p = (.noMemory, r) := by
  have hroomed := withRoom_cases env sizeofFlatBinderObject p
  rw [hr] at hroomed
  obtain ⟨henough, hgrow⟩ := not_or.mp htable
  unfold writeObject
  simp only [hr, growObjects_eq]
  rw [if_neg henough, if_neg (mt (objectsGrow_roomed hroomed).mp hgrow)]

/-- An object that is stored and then refused shows where it covers other bytes. -/
theorem unchanged_store_iff (capacity : ℕ) (hr : withRoom env sizeofFlatBinderObject p = (.ok, r)) :
    Unchanged p ({ r with mObjectsCapacity := capacity }.store r.mDataPos (.ofBytes val.bytes) sizeofFlatBinderObject) ↔
      Settled sizeofFlatBinderObject p ∧ Covered val p := by
  rw [← withRoom_unchanged_iff hr]
  constructor
  · intro hu
    have hpos : r.mDataPos = p.mDataPos := hu.pos
    refine ⟨⟨fun i hi => ?_, hu.size, hu.pos, hu.objects, hu.references⟩, fun mem hmem i hi hin => ?_⟩
    · cases hmem : p.mData with
      | none => simpa [byteAt, hmem] using hu.bytes i hi
      | some => exact withRoom_bytes hr hmem hi
    · have hbyte := withRoom_bytes hr hmem hin
      have hstored := hu.bytes _ hin
      cases hrmem : r.mData with
      | none => simp [byteAt, hmem, hrmem] at hbyte
      | some =>
        simp only [byteAt, store_mData, hmem, hrmem, Option.map_some, Option.some.injEq, hpos] at hstored
        rw [← hstored]
        simp [Memory.memcpy, Memory.ofBytes, hi]
  · rintro ⟨hu, hcov⟩
    have hpos : r.mDataPos = p.mDataPos := hu.pos
    refine ⟨fun i hi => ?_, hu.size, hu.pos, hu.objects, hu.references⟩
    have hbyte := hu.bytes i hi
    by_cases hin : p.mDataPos ≤ i ∧ i < p.mDataPos + sizeofFlatBinderObject
    · obtain ⟨k, rfl⟩ := Nat.exists_eq_add_of_le hin.1
      cases hmem : p.mData with
      | none => simp_all [byteAt]
      | some mem =>
        have hk := hcov mem hmem k (by omega) hi
        cases hrmem : r.mData with
        | none => simp [byteAt, hmem, hrmem] at hbyte
        | some => simp [byteAt, hmem, hpos, Memory.memcpy, Memory.ofBytes, hin, hk]
    · rw [← hbyte]
      simp [byteAt, Memory.memcpy, hpos, hin, Function.comp_def]

theorem writeObject_unchanged_iff (nullMetaData : Bool) :
    ((writeObject env val nullMetaData p).1 ≠ .ok → Unchanged p (writeObject env val nullMetaData p).2) ↔
      ObjectEarly env val p := by
  have hroom : _ ↔ RoomFor env sizeofFlatBinderObject p := withRoom_ok_iff
  have hroomed := withRoom_cases env sizeofFlatBinderObject p
  unfold ObjectEarly
  cases hr : withRoom env sizeofFlatBinderObject p with
  | mk st r =>
    rw [hr] at hroom hroomed
    by_cases hst : st = .ok
    · subst hst
      rw [forall_prop_of_true (hroom.mp rfl)]
      by_cases htable : TableTakes env p
      · obtain ⟨capacity, hput⟩ := writeObject_of_takes val nullMetaData hr htable
        have hallow : r.mAllowFds = p.mAllowFds := hroomed.mAllowFds
        rw [hput]
        rcases putObject_cases val nullMetaData { r with mObjectsCapacity := capacity } with ⟨hfd, hban, heq⟩ | ⟨hban, heq⟩
        · have hstore := unchanged_store_iff val capacity hr
          simpa [heq, htable, hfd, hallow.symm.trans hban] using hstore
        · rw [heq]
          refine iff_of_true (fun hne => absurd rfl hne) ⟨fun hno => absurd htable hno, fun _ hfd hno => ?_⟩
          exact absurd ⟨hfd, hallow.trans hno⟩ hban
      · simp [writeObject_of_full val nullMetaData hr htable, htable, withRoom_unchanged_iff hr]
    · refine iff_of_true (fun _ => ?_) (fun hgranted => absurd (hroom.mpr hgranted) hst)
      rw [writeObject_of_no_room val nullMetaData hr hst]
      exact withRoom_unchanged hr hst

end

/-! ### Appending -/

def FdAt (mem : Memory) (off : ℕ) : Prop := (FlatBinderObject.load mem off).type = binderTypeFd
deriving Decidable

/-- The data of a parcel, with zeros in place of a null pointer. -/
def memory (p : Parcel) : Memory := p.mData.getD fun _ => 0

theorem adoptObject_of_not_fd (env : Env) (h : ¬ FdAt p.memory off) : adoptObject env off p =
    (.ok, { p with mObjects := p.mObjects ++ [off] }.log [.acquire (FlatBinderObject.load p.memory off)]) := by
  exact if_neg h

theorem adoptObject_of_fd (env : Env) (h : FdAt p.memory off) :
    (adoptObject env off p).1 = (if p.mAllowFds then .ok else .fdsNotAllowed) := by
  have hfd : (FlatBinderObject.load (p.mData.getD fun _ => 0) off).type = binderTypeFd := h
  unfold adoptObject
  rw [if_pos hfd]
  rfl

theorem adoptObject_mAllowFds (env : Env) (off : ℕ) (p : Parcel) :
    (adoptObject env off p).2.mAllowFds = p.mAllowFds := by
  unfold adoptObject
  dsimp only
  split_ifs <;> rfl

theorem adoptObjects_ok_of_allowed (env : Env) (offs : List ℕ) (h : p.mAllowFds = true) :
    (adoptObjects env offs p).1 = .ok := by
  induction offs generalizing p with
  | nil => rfl
  | cons off offs ih =>
    have hrest := ih ((adoptObject_mAllowFds env off p).trans h)
    unfold adoptObjects
    dsimp only
    rw [hrest, if_pos rfl]
    by_cases hfd : FdAt p.memory off
    · rw [adoptObject_of_fd env hfd, if_pos h]
    · rw [adoptObject_of_not_fd env hfd]

/-- Only a file descriptor changes the data, so the first one is seen as it was copied. -/
theorem adoptObjects_ok_iff (env : Env) (offs : List ℕ) (p : Parcel) :
    (adoptObjects env offs p).1 = .ok ↔ p.mAllowFds = true ∨ ∀ off ∈ offs, ¬ FdAt p.memory off := by
  cases hallow : p.mAllowFds with
  | true => exact iff_of_true (adoptObjects_ok_of_allowed env offs hallow) (.inl rfl)
  | false =>
    simp only [Bool.false_eq_true, false_or]
    induction offs generalizing p with
    | nil => simp [adoptObjects]
    | cons off offs ih =>
      have hrest := ih (adoptObject env off p).2 ((adoptObject_mAllowFds env off p).trans hallow)
      unfold adoptObjects
      dsimp only
      rw [forall_mem_cons]
      by_cases hfd : FdAt p.memory off
      · rw [adoptObject_of_fd env hfd, hallow]
        refine iff_of_false ?_ (fun h => h.1 hfd)
        by_cases hok : (adoptObjects env offs (adoptObject env off p).2).1 = .ok
        · simp [hok]
        · rwa [if_neg hok]
      · have hsame : (adoptObject env off p).2.memory = p.memory := by
          rw [adoptObject_of_not_fd env hfd]
          rfl
        rw [hsame] at hrest
        rw [← hrest, adoptObject_of_not_fd env hfd, and_iff_right hfd]
        simp

/-- Room for `len` bytes at the end of the data. -/
def roomToAppend (env : Env) (len : ℕ) (p : Parcel) : Status × Parcel :=
  if p.mDataSize + len > p.mDataCapacity then growData env len p else (.ok, p)

/-- `appendFrom` comes to copy the data into `r`. -/
structure Copies (env : Env) (src : Parcel) (offset len : ℕ) (p r : Parcel) : Prop where
  session : p.mSession = src.mSession
  pos : 0 < len
  max : len ≤ int32Max
  range : offset + len ≤ src.mDataSize
  room : roomToAppend env len p = (.ok, r)

/-- `appendFrom` fails only before it has copied the data: the table takes the objects of the range, and file
descriptors are allowed unless there are none among them. -/
def AppendEarly (env : Env) (src : Parcel) (offset len : ℕ) (p : Parcel) : Prop :=
  ∀ r, Copies env src offset len p r → let moved := movedObjects src offset len p.mDataPos
    moved = [] ∨ (p.mObjects.length + moved.length ≤ r.mObjectsCapacity ∨ ObjectsGrow env moved.length p) ∧
      (p.mAllowFds = true ∨ ∀ off ∈ moved, ¬ FdAt (copied src offset len 0 r).memory off)

theorem roomToAppend_unchanged {len : ℕ} (h : roomToAppend env len p = (st, q)) (hst : st ≠ .ok) :
    Unchanged p q := by
  unfold roomToAppend at h
  split_ifs at h with hgrow
  · exact growData_unchanged h hst
  · exact absurd (Prod.mk.inj h).1.symm hst

/-- Once the data is copied the difference shows, in the size if not in the data. -/
theorem not_unchanged_of_copied {len : ℕ} (hr : roomToAppend env len p = (.ok, r)) (hlen : 0 < len)
    (hsize : q.mDataSize = r.mDataSize + len) (hdata : q.mData.isSome = r.mData.isSome) : ¬ Unchanged p q := by
  intro hu
  have hsame := hu.size
  unfold roomToAppend at hr
  split_ifs at hr with hgrow
  · have henl := enlarged_of_growData hr
    have hwanted := p.le_wanted len
    cases henl with
    | taken data =>
      have htaken : (takeOver data (p.wanted len) p.mObjects p).mDataSize = p.mDataSize := by
        simp only [takeOver, log_mDataSize]
        split_ifs <;> omega
      have hgrown : q.mDataSize = p.mDataSize + len := hsize.trans (congrArg (· + len) htaken)
      omega
    | first data _ hnone =>
      -- null data has no byte to compare with
      have hbyte := hu.bytes 0 ⟨by simp at hsize; omega, by simp [hnone]⟩
      simp only [byteAt, hnone, Option.map_none, Option.map_eq_none_iff] at hbyte
      simp [hbyte] at hdata
    | moved | clamped =>
      have hgrown : q.mDataSize = p.mDataSize + len := hsize
      omega
  · obtain rfl : p = r := (Prod.mk.inj hr).2
    omega

theorem adoptObjects_isSome (env : Env) (offs : List ℕ) (p : Parcel) :
    (adoptObjects env offs p).2.mData.isSome = p.mData.isSome := by
  induction offs generalizing p with
  | nil => rfl
  | cons off offs ih =>
    refine (ih (adoptObject env off p).2).trans ?_
    unfold adoptObject
    dsimp only
    split_ifs <;> simp

section AppendData

variable (src : Parcel) (offset len startPos : ℕ) (r : Parcel)

theorem appendData_eq_ite : appendData env src offset len startPos r =
    let moved := movedObjects src offset len startPos
    if moved = [] then (.ok, copied src offset len r.mObjectsCapacity r)
    else if r.mObjects.length + moved.length ≤ r.mObjectsCapacity then
      adoptObjects env moved (copied src offset len r.mObjectsCapacity r)
    else if ObjectsGrow env moved.length r then
      adoptObjects env moved (copied src offset len ((r.mObjects.length + moved.length) * 3 / 2) r)
    else (.noMemory, copied src offset len r.mObjectsCapacity r) := by
  unfold appendData
  simp only [growObjects_eq]
  change (if movedObjects src offset len startPos = [] then _ else _) = _
  by_cases hnil : movedObjects src offset len startPos = []
  · rw [if_pos hnil, if_pos hnil]
    rfl
  · rw [if_neg hnil, if_neg hnil]
    by_cases hroom : r.mObjects.length + (movedObjects src offset len startPos).length ≤ r.mObjectsCapacity
    · rw [if_pos hroom]
      exact if_neg (not_lt.mpr hroom)
    · rw [if_neg hroom]
      refine (if_pos (not_le.mp hroom)).trans ?_
      by_cases hgrow : ObjectsGrow env (movedObjects src offset len startPos).length r
      · rw [if_pos hgrow]
        erw [if_pos hgrow]
        rfl
      · rw [if_neg hgrow]
        erw [if_neg hgrow]
        rfl

theorem appendData_counters : (appendData env src offset len startPos r).2.mDataSize = r.mDataSize + len ∧
    (appendData env src offset len startPos r).2.mData.isSome = r.mData.isSome := by
  have hadopt (offs : List ℕ) (capacity : ℕ) :
      (adoptObjects env offs (copied src offset len capacity r)).2.mDataSize = r.mDataSize + len ∧
        (adoptObjects env offs (copied src offset len capacity r)).2.mData.isSome = r.mData.isSome := by
    rw [adoptObjects_isSome, (adoptObjects_counters env offs _).2]
    exact ⟨rfl, by simp [copied]⟩
  rw [appendData_eq_ite]
  dsimp only
  split_ifs
  · exact hadopt [] r.mObjectsCapacity
  · exact hadopt _ _
  · exact hadopt _ _
  · exact hadopt [] r.mObjectsCapacity

theorem appendData_ok_iff : (appendData env src offset len startPos r).1 = .ok ↔
    movedObjects src offset len startPos = [] ∨
      (r.mObjects.length + (movedObjects src offset len startPos).length ≤ r.mObjectsCapacity ∨
        ObjectsGrow env (movedObjects src offset len startPos).length r) ∧
      (r.mAllowFds = true ∨
        ∀ off ∈ movedObjects src offset len startPos, ¬ FdAt (copied src offset len 0 r).memory off) := by
  have hadopt (capacity : ℕ) : (adoptObjects env (movedObjects src offset len startPos)
      (copied src offset len capacity r)).1 = .ok ↔ r.mAllowFds = true ∨
        ∀ off ∈ movedObjects src offset len startPos, ¬ FdAt (copied src offset len 0 r).memory off :=
    adoptObjects_ok_iff env _ _
  rw [appendData_eq_ite]
  dsimp only
  split_ifs with hnil hroom hgrow
  · simp [hnil]
  · simp [hadopt, hnil, hroom]
  · simp [hadopt, hnil, hgrow]
  · simp [hnil, hroom, hgrow]

end AppendData

theorem appendFrom_eq {src : Parcel} {offset len : ℕ} (hsession : p.mSession = src.mSession) (hpos : 0 < len)
    (hmax : len ≤ int32Max) (hrange : offset + len ≤ src.mDataSize) : appendFrom env src offset len p =
      match roomToAppend env len p with
      | (.ok, r) => appendData env src offset len p.mDataPos r
      | r => r := by
  unfold appendFrom
  rw [if_neg (not_not.mpr hsession), if_neg hpos.ne', if_neg (not_lt.mpr hmax), if_neg (by omega)]
  rfl

theorem Copies.eq {src : Parcel} {offset len : ℕ} (h : Copies env src offset len p r) :
    appendFrom env src offset len p = appendData env src offset len p.mDataPos r := by
  rw [appendFrom_eq h.session h.pos h.max h.range, h.room]

theorem appendFrom_rejected {src : Parcel} {offset len : ℕ}
    (hpre : ¬ (p.mSession = src.mSession ∧ 0 < len ∧ len ≤ int32Max ∧ offset + len ≤ src.mDataSize)) :
    (appendFrom env src offset len p).2 = p := by
  unfold appendFrom
  by_cases hsession : p.mSession ≠ src.mSession
  · rw [if_pos hsession]
  · rw [if_neg hsession]
    by_cases hzero : len = 0
    · rw [if_pos hzero]
    · rw [if_neg hzero]
      by_cases hmax : len > int32Max
      · rw [if_pos hmax]
      · have hrange : offset > src.mDataSize ∨ len > src.mDataSize ∨ offset + len > src.mDataSize := by
          by_contra hin
          exact hpre ⟨not_not.mp hsession, Nat.pos_of_ne_zero hzero, not_lt.mp hmax, by omega⟩
        rw [if_neg hmax, if_pos hrange]

theorem copies_or_unchanged (env : Env) (src : Parcel) (offset len : ℕ) (p : Parcel) :
    (∃ r, Copies env src offset len p r) ∨ Unchanged p (appendFrom env src offset len p).2 := by
  by_cases hpre : p.mSession = src.mSession ∧ 0 < len ∧ len ≤ int32Max ∧ offset + len ≤ src.mDataSize
  · obtain ⟨hsession, hpos, hmax, hrange⟩ := hpre
    cases hr : roomToAppend env len p with
    | mk st r =>
      rw [appendFrom_eq hsession hpos hmax hrange, hr]
      cases st with
      | ok => exact .inl ⟨r, hsession, hpos, hmax, hrange, hr⟩
      | _ => exact .inr (roomToAppend_unchanged hr (by simp))
  · rw [appendFrom_rejected hpre]
    exact .inr (.refl p)

theorem roomToAppend_fields {len : ℕ} (h : roomToAppend env len p = (st, r)) :
    r.mObjects = p.mObjects ∧ r.mAllowFds = p.mAllowFds := by
  unfold roomToAppend at h
  split_ifs at h
  · have hroomed := (growData_cases env len p).1
    rw [h] at hroomed
    exact ⟨hroomed.objects, hroomed.mAllowFds⟩
  · obtain rfl : p = r := (Prod.mk.inj h).2
    exact ⟨rfl, rfl⟩

theorem appendFrom_unchanged_iff (src : Parcel) (offset len : ℕ) :
    ((appendFrom env src offset len p).1 ≠ .ok → Unchanged p (appendFrom env src offset len p).2) ↔
      AppendEarly env src offset len p := by
  by_cases hcopies : ∃ r, Copies env src offset len p r
  · obtain ⟨r, hc⟩ := hcopies
    obtain ⟨hobj, hallow⟩ := roomToAppend_fields hc.room
    obtain ⟨hsize, hdata⟩ : (appendData env src offset len p.mDataPos r).2.mDataSize = r.mDataSize + len ∧ _ :=
      appendData_counters src offset len p.mDataPos r
    have hchanged := not_unchanged_of_copied hc.room hc.pos hsize hdata
    have hok : (appendData env src offset len p.mDataPos r).1 = .ok ↔ _ :=
      appendData_ok_iff src offset len p.mDataPos r
    have hgrow : ObjectsGrow env (movedObjects src offset len p.mDataPos).length r ↔
        ObjectsGrow env (movedObjects src offset len p.mDataPos).length p := by
      unfold ObjectsGrow
      rw [hobj]
    rw [hobj, hallow, hgrow] at hok
    rw [hc.eq]
    constructor
    · intro h r' hc'
      obtain rfl : r = r' := (Prod.mk.inj (hc.room.symm.trans hc'.room)).2
      exact hok.mp (not_not.mp fun hne => hchanged (h hne))
    · intro hearly hne
      exact absurd (hok.mpr (hearly r hc)) hne
  · have hu := (copies_or_unchanged env src offset len p).resolve_left hcopies
    exact iff_of_true (fun _ => hu) (fun r hc => absurd ⟨r, hc⟩ hcopies)

/-! ### Summary -/

inductive Writing
  | writeAligned (val : List UInt8) (hval : val.length ≤ 8)
  | writeUnpadded (data : Memory) (len : ℕ)
  | writeObject (val : FlatBinderObject) (nullMetaData : Bool)
  | appendFrom (src : Parcel) (offset len : ℕ)

namespace Writing

def perform (env : Env) : Writing → Parcel → Status × Parcel
  | writeAligned val _ => Parcel.writeAligned env val
  | writeUnpadded data len => Parcel.writeUnpadded env data len
  | writeObject val nullMetaData => Parcel.writeObject env val nullMetaData
  | appendFrom src offset len => Parcel.appendFrom env src offset len

/-- Every failure comes before the write has changed anything that shows. -/
def FailsEarly (env : Env) (p : Parcel) : Writing → Prop
  | writeAligned .. | writeUnpadded .. => True
  | writeObject val _ => ObjectEarly env val p
  | appendFrom src offset len => AppendEarly env src offset len p

end Writing

theorem failed_write_unchanged_iff (env : Env) (w : Writing) (p : Parcel) :
    ((w.perform env p).1 ≠ .ok → Unchanged p (w.perform env p).2) ↔ w.FailsEarly env p := by
  cases w with
  | writeAligned _ hval => exact iff_of_true (writeAligned_unchanged hval) trivial
  | writeUnpadded => exact iff_of_true writeUnpadded_unchanged trivial
  | writeObject val nullMetaData => exact writeObject_unchanged_iff val nullMetaData
  | appendFrom src offset len => exact appendFrom_unchanged_iff src offset len

/-- A descriptor that is not allowed is in the data and in the table all the same. -/
theorem refused_fd_is_appended : let src := (writeObject zeroEnv ⟨binderTypeFd, 0, 5, 0⟩ true {}).2
    let p : Parcel := { mAllowFds := false }
    let q := ((Writing.appendFrom src 0 24).perform zeroEnv p).2
    ((Writing.appendFrom src 0 24).perform zeroEnv p).1 = .fdsNotAllowed ∧ q.mDataSize = 24 ∧ q.mObjects = [0] ∧
      ¬ Unchanged p q := by
  refine ⟨by decide, by decide, by decide, fun hu => ?_⟩
  exact absurd hu.size (by decide)

end Binder.Parcel
