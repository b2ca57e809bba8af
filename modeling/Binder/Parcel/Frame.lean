import Binder.Parcel.Honest
import Binder.Parcel.Integrity
import Binder.Parcel.Splice

/-! Which bytes of the data an operation leaves alone, and which entries it adds to the table. -/
namespace Binder.Parcel
open Binder.Lib List

variable {p q r : Parcel} {env : Env} {n i : ℕ} {b : UInt8}

/-! ### Outcomes with their conditions -/

/-- What `writeObject` leaves, once there is room in the data and the table and before. -/
inductive ObjectOutcome (env : Env) (val : FlatBinderObject) (nullMetaData : Bool) (p : Parcel) : Parcel → Prop
  | stayed {st : Status} {r : Parcel} : Roomed env sizeofFlatBinderObject p st r →
      ObjectOutcome env val nullMetaData p r
  | banned {r : Parcel} (capacity : ℕ) : RoomFor env sizeofFlatBinderObject p → TableTakes env p →
      withRoom env sizeofFlatBinderObject p = (.ok, r) → val.type = binderTypeFd ∧ p.mAllowFds = false →
      ObjectOutcome env val nullMetaData p
        ({ r with mObjectsCapacity := capacity }.store r.mDataPos (.ofBytes val.bytes) sizeofFlatBinderObject)
  | placed {r : Parcel} (capacity : ℕ) : RoomFor env sizeofFlatBinderObject p → TableTakes env p →
      withRoom env sizeofFlatBinderObject p = (.ok, r) → ¬ (val.type = binderTypeFd ∧ p.mAllowFds = false) →
      ObjectOutcome env val nullMetaData p (placeObject val nullMetaData capacity r)

theorem writeObject_outcome (env : Env) (val : FlatBinderObject) (nullMetaData : Bool) (p : Parcel) :
    ObjectOutcome env val nullMetaData p (writeObject env val nullMetaData p).2 := by
  have hroom : _ ↔ RoomFor env sizeofFlatBinderObject p := withRoom_ok_iff
  have hroomed := withRoom_cases env sizeofFlatBinderObject p
  cases hr : withRoom env sizeofFlatBinderObject p with
  | mk st r =>
    rw [hr] at hroom hroomed
    by_cases hst : st = .ok
    · subst hst
      by_cases htable : TableTakes env p
      · obtain ⟨capacity, hput⟩ := writeObject_of_takes val nullMetaData hr htable
        rw [hput]
        rcases putObject_cases val nullMetaData { r with mObjectsCapacity := capacity } with
          ⟨hfd, hban, heq⟩ | ⟨hnot, heq⟩
        · rw [heq]
          exact .banned capacity (hroom.mp rfl) htable hr ⟨hfd, by rw [← hroomed.mAllowFds]; exact hban⟩
        · rw [heq]
          have hallowed : ¬ (val.type = binderTypeFd ∧ p.mAllowFds = false) := by
            rw [← hroomed.mAllowFds]
            exact hnot
          exact ObjectOutcome.placed (r := r) capacity (hroom.mp rfl) htable hr hallowed
      · rw [writeObject_of_full val nullMetaData hr htable]
        exact .stayed hroomed
    · rw [writeObject_of_no_room val nullMetaData hr hst]
      exact .stayed hroomed

/-- The table gets entries for the objects in the range. -/
def Adopts (env : Env) (moved : List ℕ) (p r : Parcel) : Prop :=
  moved ≠ [] ∧ (p.mObjects.length + moved.length ≤ r.mObjectsCapacity ∨ ObjectsGrow env moved.length p)

/-- What `appendFrom` leaves, once the data is copied and before. -/
inductive AppendOutcome (env : Env) (src : Parcel) (offset len : ℕ) (p : Parcel) : Parcel → Prop
  | rejected : AppendOutcome env src offset len p p
  | stayed {st : Status} {r : Parcel} : roomToAppend env len p = (st, r) → AppendOutcome env src offset len p r
  | copied {r : Parcel} : Copies env src offset len p r →
      ¬ Adopts env (movedObjects src offset len p.mDataPos) p r →
      AppendOutcome env src offset len p (copied src offset len r.mObjectsCapacity r)
  | adopted {r : Parcel} (capacity : ℕ) : Copies env src offset len p r →
      Adopts env (movedObjects src offset len p.mDataPos) p r → AppendOutcome env src offset len p
        (adoptObjects env (movedObjects src offset len p.mDataPos) (copied src offset len capacity r)).2

theorem appendFrom_outcome (env : Env) (src : Parcel) (offset len : ℕ) (p : Parcel) :
    AppendOutcome env src offset len p (appendFrom env src offset len p).2 := by
  by_cases hpre : p.mSession = src.mSession ∧ 0 < len ∧ len ≤ int32Max ∧ offset + len ≤ src.mDataSize
  · obtain ⟨hsession, hpos, hmax, hrange⟩ := hpre
    rw [appendFrom_eq hsession hpos hmax hrange]
    cases hr : roomToAppend env len p with
    | mk st r =>
      obtain ⟨hobj, -⟩ := roomToAppend_fields hr
      cases st with
      | ok =>
        have hc : Copies env src offset len p r := ⟨hsession, hpos, hmax, hrange, hr⟩
        have hgrow (k : ℕ) : ObjectsGrow env k r ↔ ObjectsGrow env k p := by
          unfold ObjectsGrow
          rw [hobj]
        dsimp only
        rw [appendData_eq_ite, hobj]
        dsimp only
        split_ifs with hnil hfits hgrows
        · exact .copied hc fun hadopts => hadopts.1 hnil
        · exact .adopted _ hc ⟨hnil, .inl hfits⟩
        · exact .adopted _ hc ⟨hnil, .inr ((hgrow _).mp hgrows)⟩
        · exact .copied hc fun hadopts => hadopts.2.elim hfits fun hin => hgrows ((hgrow _).mpr hin)
      | _ => exact .stayed hr
  · rw [appendFrom_rejected hpre]
    exact .rejected

/-! ### Footprints -/

/-- Entry `off` of the table is for an object that covers offset `i`. -/
def Covers (off i : ℕ) : Prop := off ≤ i ∧ i < off + sizeofFlatBinderObject
deriving Decidable

/-- Offset `i` is one of the `n` bytes at the position. -/
def Ahead (n : ℕ) (p : Parcel) (i : ℕ) : Prop := p.mDataPos ≤ i ∧ i < p.mDataPos + n
deriving Decidable

/-- `setDataSize` cannot allocate the block that is to replace one of another owner. -/
def SizeFails (env : Env) (size : ℕ) (p : Parcel) : Prop :=
  p.mOwner = true ∧ size ≠ 0 ∧ ((env.malloc size).isNone ∨ p.keptObjects size ≠ [] ∧ env.callocObjects = false)
deriving Decidable

/-- `appendFrom` copies its range to the position, and adopts the objects of the range if the table takes them. -/
def AppendTouches (env : Env) (src : Parcel) (offset len : ℕ) (p : Parcel) (i : ℕ) : Prop :=
  let moved := movedObjects src offset len p.mDataPos
  p.mSession = src.mSession ∧ 0 < len ∧ len ≤ int32Max ∧ offset + len ≤ src.mDataSize ∧
    (roomToAppend env len p).1 = .ok ∧ (Ahead len p i ∨
      (p.mObjects.length + moved.length ≤ (roomToAppend env len p).2.mObjectsCapacity ∨
        ObjectsGrow env moved.length p) ∧ ∃ off ∈ moved, Covers off i)

instance (env : Env) (src : Parcel) (offset len : ℕ) (p : Parcel) (i : ℕ) :
    Decidable (AppendTouches env src offset len p i) := inferInstanceAs (Decidable (_ ∧ _))

/-- The operation takes the byte at offset `i` out of the data or may change it. -/
def Op.Touches (p : Parcel) (i : ℕ) : Op → Prop
  | .setDataPosition _ | .setDataCapacity .. | .markSensitive => False
  | .setDataSize env size => size ≤ int32Max ∧ size ≤ i ∧ ¬ SizeFails env size p
  | .setData env _ len =>
    len ≤ int32Max ∧ ¬ (p.mOwner = false ∧ (env.malloc len).isNone ∧ p.mDataCapacity < len)
  | .appendFrom env src offset len => AppendTouches env src offset len p i
  | .write env _ len | .writeInplace env len =>
    len ≤ int32Max ∧ RoomFor env (padSize len) p ∧ Ahead (padSize len) p i
  | .writeUnpadded env _ len => len ≤ int32Max ∧ RoomFor env len p ∧ Ahead len p i
  | .writeAligned env val => RoomFor env val.length p ∧ Ahead val.length p i
  | .writeObject env _ _ => RoomFor env sizeofFlatBinderObject p ∧ TableTakes env p ∧ Ahead sizeofFlatBinderObject p i

instance (p : Parcel) (i : ℕ) : (op : Op) → Decidable (op.Touches p i)
  | .setDataPosition _ | .setDataCapacity .. | .markSensitive => .isFalse id
  | .setDataSize .. | .setData .. | .write .. | .writeInplace .. | .writeUnpadded .. | .writeAligned ..
  | .writeObject .. => inferInstanceAs (Decidable (_ ∧ _))
  | .appendFrom env src offset len => inferInstanceAs (Decidable (AppendTouches env src offset len p i))

def Action.Touches (p : Parcel) (i : ℕ) : Action → Prop
  | .op o => o.Touches p i
  | .freeData => True
  | .read _ | .readObject _ | .pushAllowFds _ | .restoreAllowFds _ => False

instance (p : Parcel) (i : ℕ) : (a : Action) → Decidable (a.Touches p i)
  | .op o => inferInstanceAs (Decidable (o.Touches p i))
  | .freeData => .isTrue trivial
  | .read _ | .readObject _ | .pushAllowFds _ | .restoreAllowFds _ => .isFalse id

/-! ### Bytes of the data -/

/-- Offset `i` of the data has the byte `b`. -/
structure ByteIn (i : ℕ) (b : UInt8) (p : Parcel) : Prop where
  byte : byteAt i p = some b
  inData : InData i p

variable {st : Status} {len desired size offset off : ℕ} {val : FlatBinderObject} {nullMetaData : Bool} {src : Parcel}
    {op : Op} {a : Action} {touches : ℕ → Prop}

namespace ByteIn

theorem isSome (h : ByteIn i b p) : p.mData.isSome := by
  obtain ⟨mem, hmem, -⟩ := Option.map_eq_some_iff.mp h.byte
  simp [hmem]

theorem lt_capacity (h : ByteIn i b p) : i < p.mDataCapacity := h.inData.2 h.isSome

theorem roomed (h : ByteIn i b p) (hr : Roomed env n p st r) : ByteIn i b r := by
  obtain ⟨hbyte, hin, -⟩ := hr.spared h.byte h.inData
  exact ⟨hbyte, hin⟩

/-- Making room does not bring the `n` bytes at the position closer to a byte of the data. -/
theorem not_ahead_roomed (h : ByteIn i b p) (hr : Roomed env n p st r) (hi : ¬ Ahead n p i) : ¬ Ahead n r i := by
  have hspared := (hr.spared h.byte h.inData).2.2
  have hle : r.mDataPos ≤ p.mDataPos := by
    cases hr with
    | enlarged henl =>
      cases henl with
      | first => exact Nat.zero_le _
      | clamped => exact min_le_left _ _
      | _ => exact le_rfl
    | _ => exact le_rfl
  intro hahead
  refine hi ⟨?_, by have := hahead.2; omega⟩
  by_contra hlt
  exact absurd (hspared (not_le.mp hlt)) (not_lt.mpr hahead.1)

theorem stored {adv : Bool} (h : ByteIn i b r) (hs : Stored r n adv q) (hi : ¬ Ahead n r i) : ByteIn i b q := by
  obtain ⟨f, es, rfl, hf, -⟩ := hs.eq
  obtain ⟨mem, hmem, rfl⟩ := Option.map_eq_some_iff.mp h.byte
  have hout : i < r.mDataPos ∨ r.mDataPos + n ≤ i := by
    unfold Ahead at hi
    omega
  have hsize := h.inData.1
  refine ⟨by simp [byteAt, hmem, hf mem i hout], ?_, fun _ => h.lt_capacity⟩
  dsimp only
  split_ifs <;> omega

theorem written (h : ByteIn i b p) (hw : PlainWritten env n p q) (hi : ¬ Ahead n p i) : ByteIn i b q := by
  cases hw with
  | rejected => exact h
  | stayed hr => exact h.roomed hr
  | stored _ _ hr hs => exact (h.roomed hr).stored hs (h.not_ahead_roomed hr hi)

theorem perused (h : ByteIn i b p) (hq : Perused p q) : ByteIn i b q := by
  obtain ⟨pos, objs, hint, flag, es, rfl, -, -, -⟩ := hq.eq
  exact ⟨h.byte, h.inData⟩

/-! ### Plain writes -/

section

variable (h : ByteIn i b p)
include h

theorem withRoom (env : Env) (n : ℕ) : ByteIn i b (withRoom env n p).2 :=
  h.roomed (withRoom_cases env n p)

theorem writeAligned {val : List UInt8} (hval : val.length ≤ int32Max)
    (hi : ¬ (RoomFor env val.length p ∧ Ahead val.length p i)) : ByteIn i b (writeAligned env val p).2 := by
  by_cases hahead : Ahead val.length p i
  · have hfull : (Parcel.withRoom env val.length p).1 ≠ .ok := mt withRoom_ok_iff.mp fun hroom => hi ⟨hroom, hahead⟩
    rw [writeAligned_of_full rfl hfull]
    exact h.withRoom env _
  · exact h.written (writeAligned_written env hval p) hahead

theorem writeUnpadded {data : Memory} (hi : ¬ (len ≤ int32Max ∧ RoomFor env len p ∧ Ahead len p i)) : ByteIn i b (writeUnpadded env data len p).2 := by
  by_cases hahead : Ahead len p i
  · unfold Parcel.writeUnpadded
    split_ifs with hmax hwrap
    · exact h
    · exact h
    · have hfull : (Parcel.withRoom env len p).1 ≠ .ok :=
        mt withRoom_ok_iff.mp fun hroom => hi ⟨not_lt.mp hmax, hroom, hahead⟩
      have hroomed := h.withRoom env len
      cases hr : Parcel.withRoom env len p with
      | mk st =>
        rw [hr] at hfull hroomed
        cases st with
        | ok => exact absurd rfl hfull
        | _ => exact hroomed
  · exact h.written (writeUnpadded_written env data len p) hahead

/-- Where the block would cover the byte there is none. -/
theorem writeInplace_none (hahead : Ahead (padSize len) p i)
    (hi : ¬ (len ≤ int32Max ∧ RoomFor env (padSize len) p ∧ Ahead (padSize len) p i)) :
    (writeInplace env len p).1 = none ∧ ByteIn i b (writeInplace env len p).2 := by
  by_cases hlong : int32Max < len
  · have heq : writeInplace env len p = (none, p) := if_pos hlong
    rw [heq]
    exact ⟨rfl, h⟩
  by_cases hwrap : Wraps (padSize len) p
  · have heq : writeInplace env len p = (none, p) := (if_neg hlong).trans (if_pos hwrap)
    rw [heq]
    exact ⟨rfl, h⟩
  have hfull : (Parcel.withRoom env (padSize len) p).1 ≠ .ok :=
    mt withRoom_ok_iff.mp fun hroom => hi ⟨not_lt.mp hlong, hroom, hahead⟩
  rw [writeInplace_of_full (not_lt.mp hlong) hwrap rfl hfull]
  exact ⟨rfl, h.withRoom env _⟩

theorem writeInplace (hi : ¬ (len ≤ int32Max ∧ RoomFor env (padSize len) p ∧ Ahead (padSize len) p i)) :
    ByteIn i b (writeInplace env len p).2 := by
  by_cases hahead : Ahead (padSize len) p i
  · exact (h.writeInplace_none hahead hi).2
  · exact h.written (writeInplace_spec env len p).1 hahead

theorem write {data : Option Memory} (hi : ¬ (len ≤ int32Max ∧ RoomFor env (padSize len) p ∧ Ahead (padSize len) p i)) :
    ByteIn i b (write env data len p).2 := by
  by_cases hahead : Ahead (padSize len) p i
  · obtain ⟨hnone, hplain⟩ := h.writeInplace_none hahead hi
    unfold Parcel.write
    split_ifs
    · exact h
    · cases hw : Parcel.writeInplace env len p with
      | mk =>
        rw [hw] at hnone hplain
        cases hnone
        exact hplain
  · exact h.written (write_written env data len p) hahead

end

/-! ### Objects -/

theorem congr (h : ByteIn i b p) (hdata : q.mData = p.mData) (hsize : q.mDataSize = p.mDataSize)
    (hcap : q.mDataCapacity = p.mDataCapacity) : ByteIn i b q := by
  refine ⟨?_, ?_⟩
  · rw [byteAt, hdata]
    exact h.byte
  · rw [InData, hdata, hsize, hcap]
    exact h.inData

variable {capacity : ℕ}

theorem placeObject (h : ByteIn i b r)
    (hi : ¬ Ahead sizeofFlatBinderObject r i) : ByteIn i b (placeObject val nullMetaData capacity r) := by
  have hstored := (Stored.refl r sizeofFlatBinderObject).store (.ofBytes val.bytes) le_rfl le_rfl
  have hplain := h.stored hstored hi
  have hsize := h.inData.1
  refine ⟨hplain.byte, ?_, fun _ => h.lt_capacity⟩
  dsimp only [Parcel.placeObject]
  omega

theorem objectOutcome (h : ByteIn i b p) (ho : ObjectOutcome env val nullMetaData p q)
    (hi : ¬ (RoomFor env sizeofFlatBinderObject p ∧ TableTakes env p ∧ Ahead sizeofFlatBinderObject p i)) :
    ByteIn i b q := by
  have hclear {r : Parcel} (hroom : RoomFor env sizeofFlatBinderObject p) (htable : TableTakes env p)
      (hr : Parcel.withRoom env sizeofFlatBinderObject p = (.ok, r)) :
      ByteIn i b r ∧ ¬ Ahead sizeofFlatBinderObject r i := by
    have hroomed := withRoom_cases env sizeofFlatBinderObject p
    rw [hr] at hroomed
    exact ⟨h.roomed hroomed, h.not_ahead_roomed hroomed fun hahead => hi ⟨hroom, htable, hahead⟩⟩
  cases ho with
  | stayed hr => exact h.roomed hr
  | @banned r capacity hroom htable hr =>
    obtain ⟨hin, hahead⟩ := hclear hroom htable hr
    have hsame : ByteIn i b { r with mObjectsCapacity := capacity } := hin.congr rfl rfl rfl
    exact hsame.stored ((Stored.refl _ _).store (.ofBytes val.bytes) le_rfl le_rfl) hahead
  | placed _ hroom htable hr =>
    obtain ⟨hin, hahead⟩ := hclear hroom htable hr
    exact hin.placeObject hahead

/-! ### Size and data -/

theorem of_eq (h : ByteIn i b p) (hbyte : byteAt i q = byteAt i p) (hsize : i < q.mDataSize)
    (hcap : i < q.mDataCapacity) : ByteIn i b q := ⟨hbyte.trans h.byte, hsize, fun _ => hcap⟩

theorem continued (h : ByteIn i b p) (hc : Continued env desired p st q)
    (hi : st = .ok → i < desired) : ByteIn i b q := by
  have hsize := h.inData.1
  have hcap := h.lt_capacity
  cases hc with
  | refused => exact h
  | failed => exact h.congr rfl rfl rfl
  | emptied =>
    have hlt := hi rfl
    omega
  | taken =>
    have hlt := hi rfl
    obtain ⟨mem, hmem, -⟩ := Option.map_eq_some_iff.mp h.byte
    have hcopied : i < if p.mDataSize < desired then p.mDataSize else desired := by split_ifs <;> assumption
    refine h.of_eq ?_ hcopied hlt
    simp [byteAt, takeOver, hmem, Memory.memcpy, hcopied]
  | first _ _ _ hnone => simpa [hnone] using h.isSome
  | own _ _ _ hres =>
    have hdropped : ByteIn i b (p.dropObjects env (p.keptObjects desired)) := by
      refine h.of_eq ?_ (by simpa using hsize) (by simpa using hcap)
      rw [byteAt, dropObjects_mData]
      rfl
    cases hres with
    | failed => exact hdropped.congr rfl rfl rfl
    | moved _ _ hmem hlt =>
      have hin := hdropped.lt_capacity
      refine hdropped.of_eq ?_ hdropped.inData.1 (hin.trans hlt)
      rw [byteAt, byteAt, hmem]
      exact congrArg some (if_pos ⟨Nat.zero_le _, by omega⟩)
    | clamped =>
      exact hdropped.of_eq rfl (lt_min hdropped.inData.1 (hi rfl)) hdropped.lt_capacity

theorem continueWrite_of_sizeFails (hmax : size ≤ int32Max) (h : SizeFails env size p) :
    continueWrite env size p = (.noMemory, { p with mError := .noMemory }) := by
  obtain ⟨hown, hzero, hfail⟩ := h
  unfold continueWrite
  rw [if_neg (not_lt.mpr hmax)]
  rw [if_pos hown, if_neg hzero]
  cases hdata : env.malloc size with
  | none => rfl
  | some =>
    have hcalloc := hfail.resolve_left (by simp [hdata])
    exact if_pos ⟨hcalloc.1, by simp [hcalloc.2]⟩

theorem sizeSet (h : ByteIn i b p) (hs : SizeSet env size p q) (hi : i < size) : ByteIn i b q := by
  cases hs with
  | rejected => exact h
  | stayed hc hst => exact h.continued hc fun hok => absurd hok hst
  | set hc =>
    have hplain := h.continued hc fun _ => hi
    exact hplain.of_eq rfl hi hplain.lt_capacity

theorem capacitySet (h : ByteIn i b p) (hs : CapacitySet env size p q) : ByteIn i b q := by
  have hcap := h.lt_capacity
  cases hs with
  | stayed => exact h
  | continued hlt hc => exact h.continued hc fun _ => hcap.trans hlt

theorem setDataSize (h : ByteIn i b p) (hi : ¬ (size ≤ int32Max ∧ size ≤ i ∧ ¬ SizeFails env size p)) :
    ByteIn i b (setDataSize env size p).2 := by
  by_cases hmax : size ≤ int32Max
  · by_cases hlt : i < size
    · exact h.sizeSet (setDataSize_cases env size p) hlt
    · have hfails : SizeFails env size p := by
        by_contra hfails
        exact hi ⟨hmax, not_lt.mp hlt, hfails⟩
      unfold Parcel.setDataSize
      rw [if_neg (not_lt.mpr hmax), continueWrite_of_sizeFails hmax hfails]
      exact h.congr rfl rfl rfl
  · have heq : Parcel.setDataSize env size p = (.badValue, p) := if_pos (not_le.mp hmax)
    rw [heq]
    exact h

theorem setData {buffer : Memory} (h : ByteIn i b p)
    (hi : ¬ (len ≤ int32Max ∧ ¬ (p.mOwner = false ∧ (env.malloc len).isNone ∧ p.mDataCapacity < len))) :
    ByteIn i b (setData env buffer len p).2 := by
  by_cases hmax : len ≤ int32Max
  · obtain ⟨hown, hnone, hcap⟩ := not_not.mp fun hfail => hi ⟨hmax, hfail⟩
    rw [setData_eq env buffer len hown, if_neg (not_lt.mpr hmax), Option.isNone_iff_eq_none.mp hnone]
    rw [if_pos hcap]
    exact h.congr rfl rfl rfl
  · have heq : Parcel.setData env buffer len p = (.badValue, p) := if_pos (not_le.mp hmax)
    rw [heq]
    exact h

/-! ### Appending -/

theorem roomToAppend (h : ByteIn i b p) (env : Env) (len : ℕ) : ByteIn i b (roomToAppend env len p).2 := by
  unfold Parcel.roomToAppend
  split_ifs
  · exact h.roomed (growData_cases env len p).1
  · exact h

theorem not_ahead_roomToAppend (h : ByteIn i b p) (env : Env) (hi : ¬ Ahead len p i) :
    ¬ Ahead len (Parcel.roomToAppend env len p).2 i := by
  unfold Parcel.roomToAppend
  split_ifs
  · exact h.not_ahead_roomed (growData_cases env len p).1 hi
  · exact hi

theorem copied (h : ByteIn i b r) (hi : ¬ Ahead len r i) : ByteIn i b (copied src offset len capacity r) := by
  have hplain := h.stored ((Stored.refl r len).store (dataFrom src offset) le_rfl le_rfl) hi
  have hsize := h.inData.1
  exact hplain.of_eq rfl (hsize.trans_le (Nat.le_add_right _ _)) h.lt_capacity

theorem store {src : Memory} (h : ByteIn i b p) (hi : i < off ∨ off + len ≤ i) :
    ByteIn i b (p.store off src len) := by
  obtain ⟨mem, hmem, rfl⟩ := Option.map_eq_some_iff.mp h.byte
  refine h.of_eq ?_ h.inData.1 h.lt_capacity
  rw [byteAt, byteAt, store_mData, hmem]
  exact congrArg some (if_neg (by omega))

/-- A file descriptor is duplicated in its own bytes. -/
theorem adoptObject (h : ByteIn i b p) (env : Env) (hi : ¬ Covers off i) :
    ByteIn i b (adoptObject env off p).2 := by
  have hlisted (es : List Event) : ByteIn i b ({ p with mObjects := p.mObjects ++ [off] }.log es) :=
    h.congr rfl rfl rfl
  have hsizeof : sizeofFlatBinderObject = 24 := rfl
  unfold Covers at hi
  unfold Parcel.adoptObject
  dsimp only
  split_ifs
  all_goals first
    | exact (((hlisted _).store (by omega)).store (by omega)).congr rfl rfl rfl
    | exact hlisted _

theorem adoptObjects (h : ByteIn i b p) (env : Env) {offs : List ℕ} (hi : ∀ off ∈ offs, ¬ Covers off i) :
    ByteIn i b (adoptObjects env offs p).2 := by
  induction offs generalizing p with
  | nil => exact h
  | cons off offs ih =>
    obtain ⟨hfirst, hrest⟩ := forall_mem_cons.mp hi
    exact ih (h.adoptObject env hfirst) hrest

theorem appendOutcome (h : ByteIn i b p) (ho : AppendOutcome env src offset len p q)
    (hi : ¬ AppendTouches env src offset len p i) : ByteIn i b q := by
  have hcopied {r : Parcel} (capacity : ℕ) (hc : Copies env src offset len p r) :
      ByteIn i b (Parcel.copied src offset len capacity r) := by
    have hin := h.roomToAppend env len
    have hclear : ¬ Ahead len p i → _ := h.not_ahead_roomToAppend env
    have hok : (Parcel.roomToAppend env len p).1 = .ok := by rw [hc.room]
    have hahead : ¬ Ahead len p i := fun hahead =>
      hi ⟨hc.session, hc.pos, hc.max, hc.range, hok, .inl hahead⟩
    rw [hc.room] at hin hclear
    exact hin.copied (hclear hahead)
  cases ho with
  | rejected => exact h
  | stayed hr =>
    have hin := h.roomToAppend env len
    rwa [hr] at hin
  | copied hc => exact hcopied _ hc
  | adopted capacity hc hadopts =>
    refine (hcopied capacity hc).adoptObjects env fun off hoff hcov => hi ?_
    refine ⟨hc.session, hc.pos, hc.max, hc.range, by rw [hc.room], .inr ⟨?_, off, hoff, hcov⟩⟩
    rw [hc.room]
    exact hadopts.2

/-! ### Every operation -/

theorem runOp (h : ByteIn i b p) (hi : ¬ op.Touches p i) (hrun : p.run op = some q) : ByteIn i b q := by
  cases op with
  | setDataPosition =>
    simp only [run, Parcel.setDataPosition] at hrun
    split_ifs at hrun
    cases hrun
    exact h.congr rfl rfl rfl
  | setDataSize =>
    cases hrun
    exact h.setDataSize hi
  | setDataCapacity env size =>
    cases hrun
    exact h.capacitySet (setDataCapacity_cases env size p)
  | setData =>
    cases hrun
    exact h.setData hi
  | appendFrom env src offset len =>
    cases hrun
    exact h.appendOutcome (appendFrom_outcome env src offset len p) hi
  | write =>
    cases hrun
    exact h.write hi
  | writeInplace =>
    cases hrun
    exact h.writeInplace hi
  | writeUnpadded =>
    cases hrun
    exact h.writeUnpadded hi
  | writeAligned =>
    simp only [run] at hrun
    split_ifs at hrun with hval
    cases hrun
    exact h.writeAligned (by unfold int32Max; omega) hi
  | writeObject env val nullMetaData =>
    cases hrun
    exact h.objectOutcome (writeObject_outcome env val nullMetaData p) hi
  | markSensitive =>
    cases hrun
    exact h.congr rfl rfl rfl

theorem runAction (h : ByteIn i b p) (hi : ¬ a.Touches p i) (hrun : a.run p = some q) : ByteIn i b q := by
  cases a with
  | op => exact h.runOp hi hrun
  | read r => exact h.perused (r.perused hrun)
  | readObject nullMetaData => exact h.perused (readObject_perused nullMetaData hrun)
  | pushAllowFds =>
    cases hrun
    unfold Parcel.pushAllowFds
    split_ifs
    · exact h.congr rfl rfl rfl
    · exact h
  | restoreAllowFds =>
    cases hrun
    exact h.congr rfl rfl rfl
  | freeData => exact absurd trivial hi

end ByteIn

/-! ### Entries of the table -/

theorem PlainWritten.mObjects (h : PlainWritten env n p q) : q.mObjects = p.mObjects := by
  cases h with
  | rejected => rfl
  | stayed hr => exact hr.objects
  | stored _ _ hr hs =>
    obtain ⟨f, es, rfl, -, -⟩ := hs.eq
    exact hr.objects

theorem Roomed.session (h : Roomed env n p st q) : q.mSession = p.mSession := by
  cases h with
  | enlarged h => cases h <;> rfl
  | _ => rfl

theorem PlainWritten.session (h : PlainWritten env n p q) : q.mSession = p.mSession := by
  cases h with
  | rejected => rfl
  | stayed hr => exact hr.session
  | stored _ _ hr hs =>
    obtain ⟨f, es, rfl, -, -⟩ := hs.eq
    exact hr.session

theorem Perused.mem_mObjects (h : Perused p q) : off ∈ q.mObjects ↔ off ∈ p.mObjects := by
  obtain ⟨pos, objs, hint, flag, es, rfl, hperm, -, -⟩ := h.eq
  exact hperm.mem_iff

theorem Continued.mObjects_subset (h : Continued env desired p st q) : q.mObjects ⊆ p.mObjects := by
  have hkept := (keptObjects_isPrefix p desired).subset
  have hdropped : (p.dropObjects env (p.keptObjects desired)).mObjects ⊆ p.mObjects := by
    rw [dropObjects_mObjects (keptObjects_isPrefix p desired)]
    exact hkept
  cases h with
  | refused | failed => exact List.Subset.refl _
  | emptied => exact nil_subset _
  | taken => exact hkept
  | first => exact List.Subset.refl _
  | own _ _ _ hres =>
    cases hres with
    | failed | moved | clamped => exact hdropped

theorem SizeSet.mObjects_subset (h : SizeSet env size p q) : q.mObjects ⊆ p.mObjects := by
  cases h with
  | rejected => exact List.Subset.refl _
  | stayed hc | set hc => exact hc.mObjects_subset

theorem CapacitySet.mObjects_subset (h : CapacitySet env size p q) : q.mObjects ⊆ p.mObjects := by
  cases h with
  | stayed => exact List.Subset.refl _
  | continued _ hc => exact hc.mObjects_subset

/-- An entry that joins the table is for an object whose bytes are touched. -/
def Joins (touches : ℕ → Prop) (p q : Parcel) : Prop :=
  ∀ off ∈ q.mObjects, off ∈ p.mObjects ∨ ∀ i b, ByteIn i b p → Covers off i → touches i

theorem Joins.of_subset (h : q.mObjects ⊆ p.mObjects) : Joins touches p q :=
  fun _ hoff => .inl (h hoff)

theorem Joins.of_eq (h : q.mObjects = p.mObjects) : Joins touches p q :=
  .of_subset (h ▸ List.Subset.refl _)

theorem joins_writeObject (ho : ObjectOutcome env val nullMetaData p q) :
    Joins (Op.Touches p · (.writeObject env val nullMetaData)) p q := by
  have hroomed := withRoom_cases env sizeofFlatBinderObject p
  cases ho with
  | stayed hr => exact .of_eq hr.objects
  | banned _ _ _ hr =>
    rw [hr] at hroomed
    exact .of_eq hroomed.objects
  | placed _ hroom htable hr =>
    rw [hr] at hroomed
    intro off hoff
    dsimp only [placeObject] at hoff
    rw [hroomed.objects] at hoff
    split_ifs at hoff
    · rcases mem_append.mp hoff with hold | hnew
      · exact .inl hold
      · rw [mem_singleton.mp hnew]
        refine .inr fun i b hb hcov => ⟨hroom, htable, ?_⟩
        by_contra hahead
        exact hb.not_ahead_roomed hroomed hahead hcov
    · exact .inl hoff

theorem joins_setData (env : Env) (buffer : Memory) (len : ℕ) (p : Parcel) :
    Joins (Op.Touches p · (.setData env buffer len)) p (setData env buffer len p).2 := by
  by_cases htouches : len ≤ int32Max ∧ ¬ (p.mOwner = false ∧ (env.malloc len).isNone ∧ p.mDataCapacity < len)
  · exact fun _ _ => .inr fun _ _ _ _ => htouches
  · refine .of_eq ?_
    by_cases hmax : len ≤ int32Max
    · obtain ⟨hown, hnone, hcap⟩ := not_not.mp fun hfail => htouches ⟨hmax, hfail⟩
      rw [setData_eq env buffer len hown, if_neg (not_lt.mpr hmax), Option.isNone_iff_eq_none.mp hnone]
      rw [if_pos hcap]
    · have heq : setData env buffer len p = (.badValue, p) := if_pos (not_le.mp hmax)
      rw [heq]

theorem joins_appendFrom (ho : AppendOutcome env src offset len p q) :
    Joins (AppendTouches env src offset len p) p q := by
  cases ho with
  | rejected => exact .of_eq rfl
  | stayed hr => exact .of_eq (roomToAppend_fields hr).1
  | copied hc => exact .of_eq (roomToAppend_fields hc.room).1
  | adopted _ hc hadopts =>
    intro off hoff
    rw [(adoptObjects_fields env _ _).2] at hoff
    rcases mem_append.mp hoff with hold | hnew
    · exact .inl ((roomToAppend_fields hc.room).1 ▸ hold)
    · refine .inr fun i b hb hcov => ⟨hc.session, hc.pos, hc.max, hc.range, by rw [hc.room], .inr ⟨?_, off, hnew, hcov⟩⟩
      rw [hc.room]
      exact hadopts.2

theorem joins_run (hrun : p.run op = some q) : Joins (op.Touches p) p q := by
  cases op with
  | setDataPosition =>
    simp only [run, setDataPosition] at hrun
    split_ifs at hrun
    cases hrun
    exact .of_eq rfl
  | setDataSize env size =>
    cases hrun
    exact .of_subset (setDataSize_cases env size p).mObjects_subset
  | setDataCapacity env size =>
    cases hrun
    exact .of_subset (setDataCapacity_cases env size p).mObjects_subset
  | setData env buffer len =>
    cases hrun
    exact joins_setData env buffer len p
  | appendFrom env src offset len =>
    cases hrun
    exact joins_appendFrom (appendFrom_outcome env src offset len p)
  | write | writeInplace | writeUnpadded | writeAligned =>
    exact .of_eq (run_written rfl hrun).mObjects
  | writeObject env val nullMetaData =>
    cases hrun
    exact joins_writeObject (writeObject_outcome env val nullMetaData p)
  | markSensitive =>
    cases hrun
    exact .of_eq rfl

theorem joins_runAction (hrun : a.run p = some q) : Joins (a.Touches p) p q := by
  cases a with
  | op => exact joins_run hrun
  | read r => exact .of_subset fun _ hoff => (r.perused hrun).mem_mObjects.mp hoff
  | readObject nullMetaData => exact .of_subset fun _ hoff => (readObject_perused nullMetaData hrun).mem_mObjects.mp hoff
  | pushAllowFds =>
    cases hrun
    refine .of_eq ?_
    unfold pushAllowFds
    split_ifs <;> rfl
  | restoreAllowFds =>
    cases hrun
    exact .of_eq rfl
  | freeData => exact fun _ _ => .inr fun _ _ _ _ => trivial

/-! ### Bytes that are not part of an object -/

/-- Offset `i` of the data has the byte `b`, and no entry of the table covers it. -/
structure PlainByte (i : ℕ) (b : UInt8) (p : Parcel) : Prop extends ByteIn i b p where
  apart : ∀ off ∈ p.mObjects, ¬ Covers off i

namespace PlainByte

theorem of_subset (h : PlainByte i b p) (hb : ByteIn i b q) (hobj : q.mObjects ⊆ p.mObjects) : PlainByte i b q :=
  ⟨hb, fun off hoff => h.apart off (hobj hoff)⟩

/-- What an operation does not touch stays as it is. -/
theorem runAction (h : PlainByte i b p) (hi : ¬ a.Touches p i) (hrun : a.run p = some q) : PlainByte i b q := by
  refine ⟨h.toByteIn.runAction hi hrun, fun off hoff hcov => ?_⟩
  rcases joins_runAction hrun off hoff with hold | hnew
  · exact h.apart off hold hcov
  · exact hi (hnew i b h.toByteIn hcov)

end PlainByte

end Binder.Parcel
