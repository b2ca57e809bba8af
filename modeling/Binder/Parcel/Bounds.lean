import Binder.Lib.Transition
import Binder.Parcel.Steps

/-! Which stores of the write operations stay inside the data block. -/
namespace Binder.Parcel
open Binder.Lib List

def Event.InBounds : Event → Prop
  | .store offset length block => offset + length ≤ block
  | _ => True

/-- What every operation keeps up as long as it has room. -/
structure InBounds (p : Parcel) : Prop where
  own : p.mOwner = false
  size : p.mDataSize ≤ p.mDataCapacity
  pos : p.mDataPos ≤ p.mDataCapacity
  capacity : p.mDataCapacity ≤ int32Max
  null : p.mData = none → p.mDataCapacity = 0
  stores : ∀ e ∈ p.events, e.InBounds

/-- What `appendFrom` needs: room for the data, and the copied objects inside it. -/
def AppendRoom (src : Parcel) (offset len : ℕ) (p : Parcel) : Prop :=
  let capacity := if p.mDataSize + len > p.mDataCapacity then p.wanted len else p.mDataCapacity
  int32Max < capacity ∨ p.mDataPos + len ≤ capacity ∧ ∀ off ∈ objectsBetween src.mObjects offset len,
      movedTo offset p.mDataPos off + sizeofFlatBinderObject ≤ capacity
deriving Decidable

/-- The position stays within the capacity, and a write past it finds its room. -/
def HasRoom (p : Parcel) : Op → Prop
  | .setDataPosition pos => pos ≤ p.mDataCapacity
  | .appendFrom _ src offset len => AppendRoom src offset len p
  | .write _ _ len | .writeInplace _ len => p.Room (padSize len)
  | .writeUnpadded _ _ len => p.Room len
  | .writeAligned _ val => p.Room val.length
  | .writeObject .. => p.Room sizeofFlatBinderObject
  | _ => True

instance (p : Parcel) (op : Op) : Decidable (p.HasRoom op) := by
  induction op using Op.casesOn <;> dsimp only [HasRoom] <;> infer_instance

variable {p q r : Parcel} {env : Env} {n desired : ℕ} {st : Status}

theorem releases_inBounds (objs : List FlatBinderObject) : ∀ e ∈ objs.map Event.release, e.InBounds := by
  intro e he
  obtain ⟨o, _, rfl⟩ := mem_map.mp he
  trivial

theorem moveStores_inBounds (zero : Bool) (old new : ℕ) : ∀ e ∈ moveStores zero old new, e.InBounds := by
  cases zero <;> simp [moveStores, Event.InBounds]

namespace InBounds

theorem init : InBounds {} := by constructor <;> simp

theorem log {es : List Event} (h : InBounds p) (hes : ∀ e ∈ es, e.InBounds) : InBounds (p.log es) :=
  { h with
    stores := by
      intro e he
      rcases mem_append.mp he with he | he
      · exact hes e he
      · exact h.stores e he }

variable {off len size capacity offset : ℕ} {src : Parcel}

theorem store {m : Memory} (h : InBounds p) (hb : off + len ≤ p.mDataCapacity) : InBounds (p.store off m len) := by
  refine { h with null := ?_, stores := ?_ }
  · intro hn
    exact h.null (by simpa [Parcel.store] using hn)
  · intro e he
    rcases mem_cons.mp he with rfl | he
    · exact hb
    · exact h.stores e he

/-! ### Room -/

theorem roomed (h : InBounds p) (hr : Roomed env n p st r) : InBounds r := by
  have hsize := h.size
  have hpos := h.pos
  cases hr with
  | fits | refused => exact h
  | failed => exact { h with }
  | enlarged henl =>
    cases henl with
    | taken _ hown => simp [h.own] at hown
    | first _ _ _ hle => exact { h with size := by simp, pos := by simp, capacity := hle, null := by simp }
    | moved _ _ _ _ hle hlt =>
      exact log { h with size := hsize.trans hlt.le, pos := hpos.trans hlt.le, capacity := hle, null := by simp }
        (moveStores_inBounds _ _ _)
    | clamped => exact { h with pos := (Nat.min_le_left _ _).trans hpos }

theorem room_fits (h : InBounds p) (hn : n ≤ int32Max + 3) (hroom : p.Room n) (hr : Roomed env n p .ok r) :
    r.mDataPos + n ≤ r.mDataCapacity := by
  have hpos := h.pos
  have hcap := h.capacity
  have hmax : int32Max = 2 ^ 31 - 1 := rfl
  have hwant := p.le_wanted n
  unfold Room at hroom
  cases hr with
  | fits hfits => rwa [Nat.mod_eq_of_lt (by omega)] at hfits
  | refused hne => exact absurd rfl hne
  | enlarged henl =>
    cases henl with
    | taken _ hown => simp [h.own] at hown
    | first =>
      dsimp only
      omega
    | moved =>
      dsimp only [Parcel.log]
      omega
    | clamped =>
      dsimp only
      omega

theorem stored {adv : Bool} (h : InBounds r) (hfits : r.mDataPos + n ≤ r.mDataCapacity) (hs : Stored r n adv q) :
    InBounds q := by
  obtain ⟨f, es, rfl, -, hes⟩ := hs
  have hsize := h.size
  refine { h with size := ?_, pos := ?_, null := ?_, stores := ?_ }
  · dsimp only
    split_ifs <;> omega
  · dsimp only
    split_ifs <;> omega
  · intro hnone
    exact h.null (by simpa using hnone)
  · intro e he
    rcases mem_append.mp he with he | he
    · obtain ⟨off, len, rfl, -, hle⟩ := hes e he
      exact hle.trans hfits
    · exact h.stores e he

theorem written (h : InBounds p) (hroom : p.Room n) (hw : PlainWritten env n p q) : InBounds q := by
  cases hw with
  | rejected => exact h
  | stayed hr => exact h.roomed hr
  | stored _ hn hr hs => exact (h.roomed hr).stored (h.room_fits hn hroom hr) hs

theorem objectWritten {val : FlatBinderObject} {nullMetaData : Bool} (h : InBounds p)
    (hroom : p.Room sizeofFlatBinderObject) (hw : ObjectWritten env val nullMetaData p st q) : InBounds q := by
  cases hw with
  | stayed hr | noTable hr => exact h.roomed hr
  | banned _ hr => exact { (h.roomed hr).store (h.room_fits (by decide) hroom hr) with }
  | placed _ hr =>
    have hr' := h.roomed hr
    have hfits := h.room_fits (by decide) hroom hr
    have hstored := hr'.store (m := .ofBytes val.bytes) hfits
    refine { hstored with size := max_le hr'.size hfits, pos := hfits, stores := ?_ }
    intro e he
    rcases mem_append.mp he with he | he
    · split_ifs at he
      · obtain rfl := mem_singleton.mp he
        trivial
      · cases he
    · exact hstored.stores e he

/-! ### Size and data -/

theorem dropObjects (env : Env) (kept : List ℕ) (h : InBounds p) : InBounds (p.dropObjects env kept) := by
  unfold Parcel.dropObjects
  split
  · refine InBounds.log ?_ (releases_inBounds _)
    exact { h with }
  · exact h

theorem continued (h : InBounds p) (hc : Continued env desired p st q) :
    InBounds q ∧ (st = .ok → desired ≤ q.mDataCapacity) := by
  cases hc with
  | refused => exact ⟨h, by simp⟩
  | failed => exact ⟨{ h with }, by simp⟩
  | emptied hown | taken _ _ hown => simp [h.own] at hown
  | first _ hle =>
    exact ⟨{ h with size := by simp, pos := by simp, capacity := hle, null := by simp }, fun _ => le_rfl⟩
  | own hle _ _ hres =>
    have hd := h.dropObjects env (p.keptObjects desired)
    cases hres with
    | failed => exact ⟨{ hd with }, by simp⟩
    | moved _ _ _ hlt =>
      refine ⟨log ?_ (moveStores_inBounds _ _ _), fun _ => le_rfl⟩
      exact { hd with size := hd.size.trans hlt.le, pos := hd.pos.trans hlt.le, capacity := hle, null := by simp }
    | clamped hge =>
      exact ⟨{ hd with
        size := (Nat.min_le_left _ _).trans hd.size
        pos := (Nat.min_le_left _ _).trans hd.pos }, fun _ => hge⟩

theorem sizeSet (h : InBounds p) (hs : SizeSet env size p q) : InBounds q := by
  cases hs with
  | rejected => exact h
  | stayed hc => exact (h.continued hc).1
  | set hc =>
    obtain ⟨hin, hle⟩ := h.continued hc
    exact { hin with size := hle rfl }

theorem capacitySet (h : InBounds p) (hs : CapacitySet env size p q) : InBounds q := by
  cases hs with
  | stayed => exact h
  | continued _ hc => exact (h.continued hc).1

theorem renewed {data : Option Memory} {stores : List Event} (h : InBounds p) (buffer : Memory)
    (hlen : len ≤ capacity) (hcap : capacity ≤ int32Max) (hnull : data = none → capacity = 0)
    (hstores : ∀ e ∈ stores, e.InBounds) : InBounds (renewed buffer len data capacity stores p) := by
  refine ⟨rfl, hlen, Nat.zero_le _, hcap, fun hnone => hnull (by simpa [Parcel.renewed] using hnone), ?_⟩
  have hlen : 0 + len ≤ capacity := by omega
  have hreleases := releases_inBounds (p.objectsAt p.mObjects)
  have hold := h.stores
  simp only [Parcel.renewed, forall_mem_append, forall_mem_cons, cons_append]
  exact ⟨hlen, ⟨hreleases, hstores⟩, hold⟩

theorem dataSet {buffer : Memory} (h : InBounds p) (hs : DataSet env buffer len p q) : InBounds q := by
  cases hs with
  | rejected => exact h
  | failed => exact { h with }
  | moved _ hle => exact h.renewed buffer le_rfl hle (by simp) (moveStores_inBounds _ _ _)
  | vanished hzero => exact h.renewed buffer hzero.le (Nat.zero_le _) (fun _ => rfl) (by simp)
  | kept _ hle => exact h.renewed buffer hle h.capacity h.null (by simp)

/-! ### Appending -/

/-- One object is adopted: its descriptor and its cookie are stored inside it. -/
theorem adoptObject (env : Env) (h : InBounds p) (hb : off + sizeofFlatBinderObject ≤ p.mDataCapacity) :
    InBounds (adoptObject env off p).2 ∧ (adoptObject env off p).2.mDataCapacity = p.mDataCapacity := by
  unfold sizeofFlatBinderObject at hb
  unfold Parcel.adoptObject
  dsimp only
  generalize FlatBinderObject.load (p.mData.getD fun _ => 0) off = flat
  have hev : ∀ e ∈ [Event.acquire flat], e.InBounds := by simp [Event.InBounds]
  have hq : InBounds (Parcel.log { p with mObjects := p.mObjects ++ [off] } [.acquire flat]) := by
    refine InBounds.log ?_ hev
    exact { h with }
  split
  · refine ⟨?_, rfl⟩
    have h1 : off + 8 + 4 ≤ p.mDataCapacity := by omega
    have h2 : off + 16 + 8 ≤ p.mDataCapacity := by omega
    exact { (hq.store h1).store h2 with }
  · exact ⟨hq, rfl⟩

theorem adoptObjects (env : Env) {offs : List ℕ} (h : InBounds p)
    (hb : ∀ off ∈ offs, off + sizeofFlatBinderObject ≤ p.mDataCapacity) :
    InBounds (adoptObjects env offs p).2 := by
  induction offs generalizing p with
  | nil => exact h
  | cons off offs ih =>
    obtain ⟨hin, hc⟩ := h.adoptObject env (hb off mem_cons_self)
    exact ih hin fun x hx => hc ▸ hb x (mem_cons_of_mem _ hx)

theorem copied (h : InBounds r) (hsize : r.mDataSize + len ≤ r.mDataCapacity)
    (hpos : r.mDataPos + len ≤ r.mDataCapacity) : InBounds (copied src offset len capacity r) :=
  { h.store (m := dataFrom src offset) hpos with size := hsize, pos := hpos }

theorem spaced (h : InBounds p) (hroom : AppendRoom src offset len p)
    (hr : Spaced env len p r) : InBounds r ∧ r.mDataSize + len ≤ r.mDataCapacity ∧
      r.mDataPos + len ≤ r.mDataCapacity ∧ ∀ off ∈ objectsBetween src.mObjects offset len,
        movedTo offset p.mDataPos off + sizeofFlatBinderObject ≤ r.mDataCapacity := by
  cases hr with
  | fits hfits =>
    have hroom := (by simpa only [AppendRoom, not_lt.mpr hfits, if_false] using hroom : _ ∨ _).resolve_left
      (not_lt.mpr h.capacity)
    exact ⟨h, hfits, hroom⟩
  | grown hgrow hr hle =>
    have hin := h.roomed hr
    obtain ⟨hpos, hsize⟩ := hr.counters_le
    have hcap := hin.capacity
    have hwant := p.le_wanted len
    have hroom := (by simpa only [AppendRoom, gt_iff_lt, hgrow, if_true] using hroom : _ ∨ _).resolve_left
      (not_lt.mpr (hle.trans hcap))
    exact ⟨hin, by omega, by omega, fun off hoff => (hroom.2 off hoff).trans hle⟩

theorem appended (h : InBounds p) (hroom : AppendRoom src offset len p)
    (ha : Appended env src offset len p q) : InBounds q := by
  cases ha with
  | rejected => exact h
  | stayed hr => exact h.roomed hr
  | plain _ _ _ hs =>
    obtain ⟨hin, hsize, hpos, -⟩ := h.spaced hroom hs
    exact hin.copied hsize hpos
  | adopted _ _ _ _ hs =>
    obtain ⟨hin, hsize, hpos, hobjects⟩ := h.spaced hroom hs
    apply (hin.copied hsize hpos).adoptObjects env
    intro off hoff
    obtain ⟨x, hx, rfl⟩ := mem_map.mp hoff
    exact hobjects x hx

end InBounds

/-! ### Runs -/

theorem InBounds.run (h : InBounds p) (op : Op) (hr : p.HasRoom op) (hs : p.run op = some q) : InBounds q := by
  cases op with
  | setDataPosition pos =>
    simp only [Parcel.run, Parcel.setDataPosition] at hs
    split at hs
    · simp at hs
    · cases hs
      exact { h with pos := hr }
  | setDataSize env size =>
    cases hs
    exact h.sizeSet (setDataSize_cases env size p)
  | setDataCapacity env size =>
    cases hs
    exact h.capacitySet (setDataCapacity_cases env size p)
  | setData env buffer len =>
    cases hs
    exact h.dataSet (setData_cases env buffer len h.own)
  | appendFrom env src offset len =>
    cases hs
    exact h.appended hr (appendFrom_cases env src offset len p)
  | write | writeInplace | writeUnpadded | writeAligned =>
    exact h.written hr (run_written rfl hs)
  | writeObject env val nullMetaData =>
    cases hs
    exact h.objectWritten hr (writeObject_cases env val nullMetaData p)
  | markSensitive =>
    cases hs
    exact { h with }

/-- In every run whose operations have room, every store lies inside the data block, and what is
handed to the driver does not exceed it. -/
theorem stores_inBounds (p : Parcel) (h : Reachable run HasRoom {} p) :
    (∀ offset length block, .store offset length block ∈ p.events → offset + length ≤ block) ∧
      p.dataSize ≤ p.mDataCapacity ∧ p.ipcDataSize ≤ p.mDataCapacity := by
  have hb : InBounds p := h.invariant InBounds .init fun p op q hp hr hs => hp.run op hr hs
  have hs := hb.size
  have hp := hb.pos
  refine ⟨fun offset length block he => hb.stores _ he, ?_, ?_⟩
  · unfold dataSize
    split <;> omega
  · unfold ipcDataSize
    split <;> omega

theorem stores_inBounds_example : ∃ p : Parcel, p.mDataPos = 24 ∧ p.mDataCapacity = 128 ∧
    p.dataSize ≤ p.mDataCapacity := by
  obtain ⟨p, hp, hpos, hcap⟩ := exists_reachable run HasRoom {}
    [.writeAligned zeroEnv [1, 2, 3, 4], .setDataPosition 20, .writeAligned zeroEnv [5, 6, 7, 8]]
    (fun p => p.mDataPos = 24 ∧ p.mDataCapacity = 128) (by decide)
  exact ⟨p, hpos, hcap, (stores_inBounds p hp).2.1⟩

/-- After a move past the capacity the next write grows by the size alone and stores behind the
block. -/
theorem position_past_capacity : ∃ p : Parcel, Reachable run Free {} p ∧
    .store 128 4 128 ∈ p.events ∧ p.mDataCapacity < p.dataSize :=
  exists_reachable run Free {}
    [.writeAligned zeroEnv [1, 2, 3, 4], .setDataPosition 1000, .writeAligned zeroEnv [5, 6, 7, 8]] _ (by decide)

end Binder.Parcel
