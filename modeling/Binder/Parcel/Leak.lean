import Binder.Parcel.Bounds
import Binder.Parcel.Table

/-! Two runs of the same operations on memory with other contents. -/
namespace Binder.Parcel
open Binder.Lib List

variable {p p' q q' : Parcel} {env : Env} {contents : ℕ → Memory} {S T : ℕ → Prop} {n w len : ℕ}

/-- The same answers, with other contents in the new blocks. -/
def Env.refill (contents : ℕ → Memory) (env : Env) : Env :=
  { env with malloc := fun size => (env.malloc size).map fun _ => contents size }

/-- Two blocks that agree on the bytes in `S`, or none in both runs. -/
inductive Agree (S : ℕ → Prop) : Option Memory → Option Memory → Prop
  | null : Agree S none none
  | both {mem mem' : Memory} : (∀ i, S i → mem' i = mem i) → Agree S (some mem) (some mem')

/-- The two parcels differ in what they found in their data outside `S`. What they remember of file
descriptors depends on that. -/
structure Alike (S : ℕ → Prop) (p p' : Parcel) : Prop where
  eq : ∃ data known has events, p' = { p with
      mData := data, mFdsKnown := known, mHasFds := has, events := events } ∧ Agree S p.mData data

namespace Agree

variable {d d' : Option Memory}

theorem mono (h : Agree S d d') (hT : ∀ i, T i → S i) : Agree T d d' := by
  cases h with
  | null => exact .null
  | both heq => exact .both fun i hi => heq i (hT i hi)

theorem store (h : Agree S d d') (off len : ℕ) (src : Memory) :
    Agree (fun i => S i ∨ off ≤ i ∧ i < off + len) (d.map fun mem => Memory.memcpy mem off src len)
      (d'.map fun mem => Memory.memcpy mem off src len) := by
  cases h with
  | null => exact .null
  | both heq =>
    apply Agree.both
    intro i hi
    dsimp only [Memory.memcpy]
    split_ifs with hin
    · rfl
    · exact heq i (hi.resolve_right hin)

theorem isSome (h : Agree S d d') : d'.isSome = d.isSome := by
  cases h <;> rfl

/-- Both runs copy the first `len` bytes to a new block. -/
theorem moved (h : Agree S d d') (fresh fresh' : Memory) (len : ℕ) (hT : ∀ i, T i → S i ∧ i < len ∧ d.isSome) :
    Agree T (some (d.elim fresh fun mem => Memory.memcpy fresh 0 mem len))
      (some (d'.elim fresh' fun mem => Memory.memcpy fresh' 0 mem len)) := by
  apply Agree.both
  intro i hi
  obtain ⟨hS, hlen, hsome⟩ := hT i hi
  have hin : 0 ≤ i ∧ i < 0 + len := by omega
  cases h with
  | null => cases hsome
  | both heq =>
    simp only [Option.elim_some, Memory.memcpy, if_pos hin]
    exact heq i hS

end Agree

namespace Alike

theorem refl (p : Parcel) : Alike S p p := by
  refine ⟨p.mData, p.mFdsKnown, p.mHasFds, p.events, rfl, ?_⟩
  cases p.mData with
  | none => exact .null
  | some => exact .both fun _ _ => rfl

theorem mono (h : Alike S p p') (hT : ∀ i, T i → S i) : Alike T p p' := by
  obtain ⟨data, known, has, events, heq, hagree⟩ := h
  exact ⟨data, known, has, events, heq, hagree.mono hT⟩

section Fields

variable (h : Alike S p p')
include h

theorem mOwner : p'.mOwner = p.mOwner := by
  obtain ⟨data, known, has, events, rfl, -⟩ := h
  rfl

theorem mDataSize : p'.mDataSize = p.mDataSize := by
  obtain ⟨data, known, has, events, rfl, -⟩ := h
  rfl

theorem mDataPos : p'.mDataPos = p.mDataPos := by
  obtain ⟨data, known, has, events, rfl, -⟩ := h
  rfl

theorem mDataCapacity : p'.mDataCapacity = p.mDataCapacity := by
  obtain ⟨data, known, has, events, rfl, -⟩ := h
  rfl

theorem mObjects : p'.mObjects = p.mObjects := by
  obtain ⟨data, known, has, events, rfl, -⟩ := h
  rfl

theorem mObjectsCapacity : p'.mObjectsCapacity = p.mObjectsCapacity := by
  obtain ⟨data, known, has, events, rfl, -⟩ := h
  rfl

theorem agree : Agree S p.mData p'.mData := by
  obtain ⟨data, known, has, events, rfl, hagree⟩ := h
  exact hagree

theorem isSome : p'.mData.isSome = p.mData.isSome := h.agree.isSome

end Fields

theorem store (h : Alike S p p') (off len : ℕ) (src : Memory) :
    Alike (fun i => S i ∨ off ≤ i ∧ i < off + len) (p.store off src len) (p'.store off src len) := by
  obtain ⟨data, known, has, events, rfl, hagree⟩ := h
  exact ⟨_, _, _, _, rfl, hagree.store off len src⟩

theorem finishWrite (h : Alike S p p') (n : ℕ) :
    (finishWrite n p').1 = (finishWrite n p).1 ∧ Alike S (finishWrite n p).2 (finishWrite n p').2 := by
  obtain ⟨data, known, has, events, rfl, hagree⟩ := h
  unfold Parcel.finishWrite
  split_ifs
  · exact ⟨rfl, _, _, _, _, rfl, hagree⟩
  · exact ⟨rfl, _, _, _, _, rfl, hagree⟩

end Alike

/-! ### Room -/

theorem Alike.dropObjects (h : Alike S p p') (kept : List ℕ) :
    Alike S (p.dropObjects env kept) (p'.dropObjects (env.refill contents) kept) := by
  obtain ⟨data, known, has, events, rfl, hagree⟩ := h
  unfold Parcel.dropObjects Env.refill
  by_cases hlen : kept.length < p.mObjects.length
  · rw [if_pos hlen, if_pos hlen]
    exact ⟨_, _, _, _, rfl, hagree⟩
  · rw [if_neg hlen, if_neg hlen]
    exact ⟨_, _, _, _, rfl, hagree⟩

theorem Alike.resizeOwn (h : Alike S p p') (hS : ∀ i, S i → i < p.mDataCapacity) (hsome : p.mData.isSome)
    (desired : ℕ) : (resizeOwn (env.refill contents) desired p').1 = (resizeOwn env desired p).1 ∧
      Alike S (resizeOwn env desired p).2 (resizeOwn (env.refill contents) desired p').2 := by
  obtain ⟨data, known, has, events, rfl, hagree⟩ := h
  unfold Parcel.resizeOwn
  by_cases hcap : desired > p.mDataCapacity
  · rw [if_pos hcap, if_pos hcap]
    unfold reallocZeroFree Env.refill
    dsimp only
    cases env.malloc desired with
    | none => exact ⟨rfl, _, _, _, _, rfl, hagree⟩
    | some fresh =>
      refine ⟨rfl, _, _, _, _, rfl, hagree.moved fresh _ _ fun i hi => ⟨hi, ?_, hsome⟩⟩
      have := hS i hi
      exact lt_min this (this.trans hcap)
  · rw [if_neg hcap, if_neg hcap]
    exact ⟨rfl, _, _, _, _, rfl, hagree⟩

theorem Alike.continueWrite (env : Env) (contents : ℕ → Memory) (h : Alike S p p') (hb : InBounds p)
    (hS : ∀ i, S i → i < p.mDataCapacity) (desired : ℕ) :
    (continueWrite (env.refill contents) desired p').1 = (continueWrite env desired p).1 ∧
      Alike S (continueWrite env desired p).2 (continueWrite (env.refill contents) desired p').2 := by
  have hkept : p'.keptObjects desired = p.keptObjects desired := by
    obtain ⟨data, known, has, events, rfl, -⟩ := h
    rfl
  have hown : p'.mOwner = false := h.mOwner.trans hb.own
  unfold Parcel.continueWrite
  simp only [hb.own, hown, Bool.false_eq_true, if_false, h.isSome, hkept]
  split_ifs with hmax hdata
  · exact ⟨rfl, h⟩
  · have hdrop : Alike S (p.dropObjects env (p.keptObjects desired))
        (p'.dropObjects (env.refill contents) (p.keptObjects desired)) := h.dropObjects _
    exact hdrop.resizeOwn (by simpa using hS) (by simpa using hdata) desired
  · have hnone : p.mData = none := by simpa using hdata
    have hcap := hb.null hnone
    obtain ⟨data, known, has, events, rfl, hagree⟩ := h
    unfold Env.refill
    dsimp only
    cases env.malloc desired with
    | none => exact ⟨rfl, _, _, _, _, rfl, hagree⟩
    | some =>
      refine ⟨rfl, _, _, _, _, rfl, .both fun i hi => ?_⟩
      have := hS i hi
      omega

theorem Alike.growData (env : Env) (contents : ℕ → Memory) (h : Alike S p p') (hb : InBounds p)
    (hS : ∀ i, S i → i < p.mDataCapacity) (n : ℕ) :
    (growData (env.refill contents) n p').1 = (growData env n p).1 ∧
      Alike S (growData env n p).2 (growData (env.refill contents) n p').2 := by
  unfold Parcel.growData
  rw [h.mDataSize]
  dsimp only
  split_ifs
  · exact ⟨rfl, h⟩
  · exact ⟨rfl, h⟩
  · exact ⟨rfl, h⟩
  · exact ⟨rfl, h⟩
  · exact h.continueWrite env contents hb hS _

theorem Alike.withRoom (env : Env) (contents : ℕ → Memory) (h : Alike S p p') (hb : InBounds p)
    (hS : ∀ i, S i → i < p.mDataCapacity) (n : ℕ) :
    (withRoom (env.refill contents) n p').1 = (withRoom env n p).1 ∧
      Alike S (withRoom env n p).2 (withRoom (env.refill contents) n p').2 := by
  unfold Parcel.withRoom
  rw [h.mDataPos, h.mDataCapacity]
  split_ifs
  · exact ⟨rfl, h⟩
  · exact h.growData env contents hb hS n

/-! ### Writes -/

@[simp] theorem finishWrite_mData (n : ℕ) (p : Parcel) : (finishWrite n p).2.mData = p.mData := by
  unfold finishWrite
  split_ifs <;> rfl

theorem finishWrite_mDataPos_le (n : ℕ) (p : Parcel) : (finishWrite n p).2.mDataPos ≤ p.mDataPos + n := by
  unfold finishWrite
  split_ifs
  · exact Nat.le_add_right _ _
  · exact le_rfl

@[simp] theorem applyPadMask_mDataPos (len padded : ℕ) (p : Parcel) :
    (applyPadMask len padded p).mDataPos = p.mDataPos := by
  unfold applyPadMask
  split <;> rfl

/-- Both runs end the same way, and agree on the `w` known bytes and on those before the position. -/
def Matched (w : ℕ) (r r' : Status × Parcel) : Prop :=
  r'.1 = r.1 ∧ Alike (fun i => i < w ∨ i < r.2.mDataPos) r.2 r'.2

theorem Alike.known (h : Alike (· < w) p p') (hpos : p.mDataPos ≤ w) :
    Alike (fun i => i < w ∨ i < p.mDataPos) p p' := by
  refine h.mono fun i hi => ?_
  omega

theorem Matched.known {r r' : Status × Parcel} (hst : r'.1 = r.1) (h : Alike (· < w) r.2 r'.2)
    (hpos : r.2.mDataPos ≤ w) : Matched w r r' :=
  ⟨hst, h.known hpos⟩

variable {f f' : Parcel → Status × Parcel} {offs : List ℕ} {src : Parcel} {offset : ℕ} {st : Status}

/-- Both runs go on if they came to the same good status. -/
theorem match_alike {x x' : Status × Parcel}
    {R : Status × Parcel → Status × Parcel → Prop} :
    x'.1 = x.1 → (x.1 = .ok → R (f x.2) (f' x'.2)) → (x.1 ≠ .ok → R x x') →
      R (match x with | (.ok, r) => f r | r => r) (match x' with | (.ok, r) => f' r | r => r) := by
  intro hst hok hstay
  obtain ⟨st, r⟩ := x
  obtain ⟨st', r'⟩ := x'
  obtain rfl : st' = st := hst
  cases st' with
  | ok => exact hok rfl
  | _ => exact hstay (by simp)

section Write

variable (h : Alike (· < w) p p') (hb : InBounds p) (hw : w ≤ p.mDataCapacity) (hpos : p.mDataPos ≤ w)
include h hb hw hpos

theorem Matched.ofRoom (hf : ∀ r r', r.mDataPos ≤ w → Alike (· < w) r r' → Matched w (f r) (f' r')) :
    Matched w (match withRoom env n p with | (.ok, r) => f r | r => r)
      (match withRoom (env.refill contents) n p' with | (.ok, r) => f' r | r => r) := by
  have hle := (withRoom_cases env n p).counters_le.1.trans hpos
  obtain ⟨hst, hroom⟩ := h.withRoom env contents hb (fun i hi => lt_of_lt_of_le hi hw) n
  exact match_alike hst (fun _ => hf _ _ hle hroom) fun _ => .known hst hroom hle

omit hb hw in
/-- `n` bytes stored at the position, and the position moved behind them. -/
theorem Alike.stored (src : Memory) (n : ℕ) :
    Matched w (Parcel.finishWrite n (p.store p.mDataPos src n)) (Parcel.finishWrite n (p'.store p'.mDataPos src n)) := by
  have hstore := h.store p.mDataPos n src
  obtain ⟨hst, hfin⟩ := hstore.finishWrite n
  rw [h.mDataPos]
  refine ⟨hst, hfin.mono fun i hi => ?_⟩
  have hle := finishWrite_mDataPos_le n (p.store p.mDataPos src n)
  rw [store_mDataPos] at hle
  omega

theorem Alike.writeUnpadded (data : Memory) (len : ℕ) :
    Matched w (writeUnpadded env data len p) (writeUnpadded (env.refill contents) data len p') := by
  unfold Parcel.writeUnpadded
  rw [h.mDataPos]
  split_ifs
  · exact .known rfl h hpos
  · exact .known rfl h hpos
  · exact .ofRoom h hb hw hpos fun r r' hr hroom => hroom.stored hr data len

theorem Alike.writeAligned (val : List UInt8) :
    Matched w (writeAligned env val p) (writeAligned (env.refill contents) val p') := by
  exact .ofRoom h hb hw hpos fun r r' hr hroom => hroom.stored hr (.ofBytes val) val.length

end Write

/-- The padding is known afterwards. -/
theorem Alike.applyPadMask (h : Alike S p p') (len : ℕ) :
    Alike (fun i => S i ∨ p.mDataPos + len ≤ i ∧ i < p.mDataPos + padSize len) (applyPadMask len (padSize len) p)
      (applyPadMask len (padSize len) p') := by
  obtain ⟨data, known, has, events, rfl, hagree⟩ := h
  unfold Parcel.applyPadMask
  by_cases hpad : padSize len ≠ len
  · rw [if_pos hpad, if_pos hpad]
    refine ⟨_, _, _, _, rfl, ?_⟩
    have hfour : 4 ≤ padSize len ∧ padSize len < len + 4 := by
      unfold padSize at hpad ⊢
      omega
    generalize padSize len = padded at *
    cases hd : p.mData with
    | none =>
      rw [hd] at hagree
      cases hagree
      simpa [Parcel.store, hd] using Agree.null
    | some =>
      rw [hd] at hagree
      cases hagree with
      | both heq =>
        simp only [store_mData, hd, Option.map_some, Option.elim_some]
        apply Agree.both
        intro i hi
        dsimp only [Memory.memcpy]
        split_ifs with hin hlow
        · rw [show p.mDataPos + padded - 4 + (i - (p.mDataPos + padded - 4)) = i by omega]
          exact heq i (hi.resolve_right (by omega))
        · rfl
        · exact heq i (hi.resolve_right (by omega))
  · rw [if_neg hpad, if_neg hpad]
    refine ⟨_, _, _, _, rfl, hagree.mono fun i hi => hi.resolve_right ?_⟩
    omega

theorem Alike.of_null (h : Alike S p p') (hnull : p.mData = none) : Alike T p p' := by
  obtain ⟨data, known, has, events, rfl, hagree⟩ := h
  refine ⟨data, known, has, events, rfl, ?_⟩
  rw [hnull] at hagree ⊢
  cases hagree
  exact .null

/-- What `writeInplace` leaves to its caller: the `len` bytes from where the pointer points are unknown. -/
inductive Reserved (w len : ℕ) (p : Parcel) : Option ℕ × Parcel → Option ℕ × Parcel → Prop
  | null {q q' : Parcel} : Alike (fun i => i < w ∨ i < q.mDataPos) q q' → Reserved w len p (none, q) (none, q')
  | data {t : ℕ} {q q' : Parcel} : t ≤ p.mDataPos → q.mDataPos ≤ t + padSize len →
      Alike (fun i => i < w ∨ t + len ≤ i ∧ i < t + padSize len) q q' → Reserved w len p (some t, q) (some t, q')

theorem Alike.writeInplace (h : Alike (· < w) p p') (hb : InBounds p) (hw : w ≤ p.mDataCapacity)
    (hpos : p.mDataPos ≤ w) (len : ℕ) :
    Reserved w len p (writeInplace env len p) (writeInplace (env.refill contents) len p') := by
  have hknown {q q' : Parcel} (hq : Alike (· < w) q q') (hle : q.mDataPos ≤ p.mDataPos) :
      Reserved w len p (none, q) (none, q') :=
    .null (hq.known (hle.trans hpos))
  unfold Parcel.writeInplace
  rw [h.mDataPos]
  dsimp only
  split_ifs
  · exact hknown h le_rfl
  · exact hknown h le_rfl
  · have hle := (withRoom_cases env (padSize len) p).counters_le.1
    obtain ⟨hst, hroom⟩ := h.withRoom env contents hb (fun i hi => lt_of_lt_of_le hi hw) (padSize len)
    cases hr : Parcel.withRoom env (padSize len) p with
    | mk st r =>
      cases hr' : Parcel.withRoom (env.refill contents) (padSize len) p' with
      | mk st' r' =>
        rw [hr, hr'] at hst hroom
        rw [hr] at hle
        obtain rfl : st' = st := hst
        cases st' with
        | ok =>
          have hdone := ((hroom.applyPadMask len).finishWrite (padSize len)).2
          have hsome := hroom.isSome
          have hat := hroom.mDataPos
          dsimp only
          cases hd : r.mData with
          | none =>
            have hd' : r'.mData = none := by simpa [hd] using hsome
            rw [hd', Option.map_none]
            exact .null (hdone.of_null (by simp [Parcel.applyPadMask]; split <;> simp [hd]))
          | some =>
            obtain ⟨mem', hd'⟩ := Option.isSome_iff_exists.mp (hsome.trans (by rw [hd]; rfl))
            rw [hd', Option.map_some, Option.map_some, hat]
            refine .data hle ?_ hdone
            have := finishWrite_mDataPos_le (padSize len) (Parcel.applyPadMask len (padSize len) r)
            rwa [applyPadMask_mDataPos] at this
        | _ => exact hknown hroom hle

/-- The `len` bytes at the position are known, or nothing is written. -/
def Filled (w len : ℕ) (p : Parcel) : Prop := len = 0 ∨ int32Max < len ∨ p.mDataPos + len ≤ w
deriving Decidable

/-- Reserved bytes that were known before they are reserved. -/
theorem Reserved.filled {r r' : Option ℕ × Parcel} (h : Reserved w len p r r') (hpos : p.mDataPos ≤ w)
    (hfill : Filled w len p) (hlen : len ≤ int32Max) : Alike (fun i => i < w ∨ i < r.2.mDataPos) r.2 r'.2 := by
  unfold Filled at hfill
  cases h with
  | null hq => exact hq
  | data _ _ hq =>
    refine hq.mono fun i hi => ?_
    dsimp only at hi
    omega

theorem Alike.write (h : Alike (· < w) p p') (hb : InBounds p) (hw : w ≤ p.mDataCapacity) (hpos : p.mDataPos ≤ w)
    (data : Option Memory) (len : ℕ) (hdata : data.isSome ∨ Filled w len p) :
    Alike (fun i => i < w ∨ i < (write env data len p).2.mDataPos) (write env data len p).2
      (write (env.refill contents) data len p').2 := by
  have hres : Reserved w len p (Parcel.writeInplace env len p) (Parcel.writeInplace (env.refill contents) len p') :=
    h.writeInplace hb hw hpos len
  unfold Parcel.write
  split_ifs with hlen
  · exact h.known hpos
  · cases hi : Parcel.writeInplace env len p with
    | mk =>
      cases hi' : Parcel.writeInplace (env.refill contents) len p' with
      | mk =>
        rw [hi, hi'] at hres
        cases hres with
        | null hq => exact hq
        | data ht hle hq =>
          cases data with
          | some src =>
            refine (hq.store _ len src).mono fun i hi => ?_
            simp only [store_mDataPos] at hi
            omega
          | none => exact (Reserved.data ht hle hq).filled hpos (hdata.resolve_left (by simp)) (not_lt.mp hlen)

/-! ### Objects -/

theorem Alike.putObject (h : Alike (· < w) p p') (hpos : p.mDataPos ≤ w) (val : FlatBinderObject)
    (nullMetaData : Bool) : Matched w (putObject val nullMetaData p) (putObject val nullMetaData p') := by
  obtain ⟨data, known, has, events, rfl, hagree⟩ := h
  have hstored := hagree.store p.mDataPos sizeofFlatBinderObject (.ofBytes val.bytes)
  have hcases := putObject_cases val nullMetaData
    { p with mData := data, mFdsKnown := known, mHasFds := has, events := events }
  rcases putObject_cases val nullMetaData p with ⟨hfd, hban, heq⟩ | ⟨hfree, heq⟩
  · obtain ⟨-, -, heq'⟩ := hcases.resolve_right fun hfree => hfree.1 ⟨hfd, hban⟩
    rw [heq, heq']
    exact .known rfl ⟨_, _, _, _, rfl, hstored.mono fun _ => .inl⟩ hpos
  · obtain ⟨-, heq'⟩ := hcases.resolve_left fun hban => hfree ⟨hban.1, hban.2.1⟩
    rw [heq, heq']
    refine ⟨rfl, _, _, _, _, rfl, hstored.mono fun i hi => ?_⟩
    dsimp only [placeObject] at hi
    omega

theorem Alike.growObjects (env : Env) (contents : ℕ → Memory) (h : Alike S p p') (n : ℕ) :
    growObjects env n p = none ∧ growObjects (env.refill contents) n p' = none ∨
      ∃ capacity, growObjects env n p = some { p with mObjectsCapacity := capacity } ∧
        growObjects (env.refill contents) n p' = some { p' with mObjectsCapacity := capacity } := by
  obtain ⟨data, known, has, events, rfl, -⟩ := h
  unfold Parcel.growObjects Env.refill
  dsimp only
  split_ifs
  · exact .inl ⟨rfl, rfl⟩
  · exact .inr ⟨_, rfl, rfl⟩

theorem Alike.withTable (h : Alike S p p') (capacity : ℕ) :
    Alike S { p with mObjectsCapacity := capacity } { p' with mObjectsCapacity := capacity } := by
  obtain ⟨data, known, has, events, rfl, hagree⟩ := h
  exact ⟨_, _, _, _, rfl, hagree⟩

theorem Alike.writeObject (h : Alike (· < w) p p') (hb : InBounds p) (hw : w ≤ p.mDataCapacity)
    (hpos : p.mDataPos ≤ w) (val : FlatBinderObject) (nullMetaData : Bool) :
    Matched w (writeObject env val nullMetaData p) (writeObject (env.refill contents) val nullMetaData p') := by
  unfold Parcel.writeObject
  rw [h.mObjects, h.mObjectsCapacity]
  apply Matched.ofRoom h hb hw hpos
  intro r r' hr hroom
  split_ifs
  · exact hroom.putObject hr val nullMetaData
  · rcases hroom.growObjects env contents 2 with ⟨hg, hg'⟩ | ⟨capacity, hg, hg'⟩
    · rw [hg, hg']
      exact .known rfl hroom hr
    · rw [hg, hg']
      exact (hroom.withTable capacity).putObject hr val nullMetaData

/-! ### Appending -/

/-- An object that both runs see alike. -/
theorem Alike.adoptObject (h : Alike S p p') {off : ℕ}
    (hoff : ∀ i, off ≤ i → i < off + sizeofFlatBinderObject → S i) :
    Alike S (adoptObject env off p).2 (adoptObject (env.refill contents) off p').2 := by
  have hflat : FlatBinderObject.load (p'.mData.getD fun _ => 0) off =
      FlatBinderObject.load (p.mData.getD fun _ => 0) off := by
    obtain ⟨data, known, has, events, rfl, hagree⟩ := h
    apply FlatBinderObject.load_congr
    apply Memory.load_congr
    intro i hi
    cases hd : p.mData with
    | none =>
      rw [hd] at hagree
      cases hagree
      rfl
    | some =>
      rw [hd] at hagree
      cases hagree with
      | both heq => exact heq (off + i) (hoff (off + i) (Nat.le_add_right _ _) (by omega))
  unfold Parcel.adoptObject
  rw [hflat]
  obtain ⟨data, known, has, events, rfl, hagree⟩ := h
  by_cases hfd : (FlatBinderObject.load (p.mData.getD fun _ => 0) off).type = binderTypeFd
  · rw [if_pos hfd, if_pos hfd]
    refine ⟨_, _, _, _, rfl, ?_⟩
    exact ((hagree.store (off + 8) 4 _).store (off + 16) 8 _).mono fun i hi => .inl (.inl hi)
  · rw [if_neg hfd, if_neg hfd]
    exact ⟨_, _, _, _, rfl, hagree⟩

theorem Alike.adoptObjects (h : Alike S p p')
    (hoffs : ∀ off ∈ offs, ∀ i, off ≤ i → i < off + sizeofFlatBinderObject → S i) :
    Alike S (adoptObjects env offs p).2 (adoptObjects (env.refill contents) offs p').2 := by
  induction offs generalizing p p' with
  | nil => exact h
  | cons off offs ih =>
    have hfirst : Alike S (Parcel.adoptObject env off p).2 (Parcel.adoptObject (env.refill contents) off p').2 :=
      h.adoptObject (hoffs off (mem_cons_self ..))
    exact ih hfirst fun o ho => hoffs o (mem_cons_of_mem _ ho)

/-- The part of `appendData` behind the copy. -/
def adoptAll (env : Env) (moved : List ℕ) (r : Parcel) : Status × Parcel :=
  if moved = [] then (.ok, r)
  else if r.mObjectsCapacity < r.mObjects.length + moved.length then
    match growObjects env moved.length r with
    | none => (.noMemory, r)
    | some r => adoptObjects env moved r
  else adoptObjects env moved r

theorem appendData_eq (src : Parcel) (offset len startPos : ℕ) (p : Parcel) : appendData env src offset len startPos p =
    adoptAll env (movedObjects src offset len startPos) (copied src offset len p.mObjectsCapacity p) := rfl

theorem adoptAll_counters (env : Env) (moved : List ℕ) (r : Parcel) :
    (adoptAll env moved r).2.mDataPos = r.mDataPos ∧ (adoptAll env moved r).2.mDataSize = r.mDataSize := by
  unfold adoptAll growObjects
  dsimp only
  split_ifs
  · exact ⟨rfl, rfl⟩
  · exact ⟨rfl, rfl⟩
  · exact adoptObjects_counters env moved _
  · exact adoptObjects_counters env moved r

theorem Alike.adoptAll (h : Alike S p p')
    (hoffs : ∀ off ∈ offs, ∀ i, off ≤ i → i < off + sizeofFlatBinderObject → S i) :
    Alike S (adoptAll env offs p).2 (adoptAll (env.refill contents) offs p').2 := by
  unfold Parcel.adoptAll
  rw [h.mObjects, h.mObjectsCapacity]
  split_ifs
  · exact h
  · rcases h.growObjects env contents offs.length with ⟨hg, hg'⟩ | ⟨capacity, hg, hg'⟩
    · rw [hg, hg']
      exact h
    · rw [hg, hg']
      exact (h.withTable capacity).adoptObjects hoffs
  · exact h.adoptObjects hoffs

theorem Alike.appendData {len startPos : ℕ} (h : Alike (· < w) p p')
    (hmoved : ∀ off ∈ movedObjects src offset len startPos, off + sizeofFlatBinderObject ≤ max w (p.mDataPos + len))
    (hpos : p.mDataPos ≤ w) :
    Alike (fun i => i < w ∨ i < p.mDataPos + len) (appendData env src offset len startPos p).2
      (appendData (env.refill contents) src offset len startPos p').2 := by
  have hcopy : Alike (fun i => i < w ∨ i < p.mDataPos + len) (copied src offset len p.mObjectsCapacity p)
      (copied src offset len p'.mObjectsCapacity p') := by
    obtain ⟨data, known, has, events, rfl, hagree⟩ := h
    refine ⟨_, _, _, _, rfl, (hagree.store p.mDataPos len (dataFrom src offset)).mono fun i hi => ?_⟩
    omega
  refine hcopy.adoptAll fun off hoff i _ hi => ?_
  have := hmoved off hoff
  omega

/-- What is appended ends the data, or the bytes between are known, and the objects lie in what is known. -/
def AppendFills (w : ℕ) (src : Parcel) (offset len : ℕ) (p : Parcel) : Prop :=
  len = 0 ∨ src.mDataSize < offset + len ∨ p.mDataSize + len ≤ max w (p.mDataPos + len) ∧
    ∀ off ∈ objectsBetween src.mObjects offset len,
      movedTo offset p.mDataPos off + sizeofFlatBinderObject ≤ max w (p.mDataPos + len)
deriving Decidable

theorem Roomed.mDataPos_eq (h : Roomed env n p .ok q) (hb : InBounds p) (hgrow : p.mDataCapacity < p.mDataSize + n) :
    q.mDataPos = p.mDataPos := by
  have hge : p.mDataSize + n ≤ p.wanted n := by
    unfold wanted
    omega
  cases h with
  | refused hne => exact absurd rfl hne
  | enlarged henl =>
    cases henl with
    | taken _ hown => simp [hb.own] at hown
    | first _ _ hnull =>
      have hcap := hb.null hnull
      have hpos := hb.pos
      exact (Nat.le_zero.mp (hcap ▸ hpos)).symm
    | clamped => omega
    | _ => rfl
  | _ => rfl

theorem Alike.appendFrom {len : ℕ} (h : Alike (· < w) p p') (hb : InBounds p)
    (hw : w ≤ p.mDataCapacity) (hpos : p.mDataPos ≤ w) (hsize : p.mDataSize ≤ w) (hfill : AppendFills w src offset len p) :
    Alike (fun i => i < w ∨ i < (appendFrom env src offset len p).2.mDataPos ∨
        i < (appendFrom env src offset len p).2.mDataSize) (appendFrom env src offset len p).2
      (appendFrom (env.refill contents) src offset len p').2 := by
  have hstay : Alike (fun i => i < w ∨ i < p.mDataPos ∨ i < p.mDataSize) p p' := h.mono fun i hi => by omega
  have hsession : p'.mSession = p.mSession := by
    obtain ⟨data, known, has, events, rfl, -⟩ := h
    rfl
  have hdata {r r' : Parcel} (hr : Alike (· < w) r r') (hrpos : r.mDataPos = p.mDataPos) (hrsize : r.mDataSize ≤ p.mDataSize)
      (hlen : len ≠ 0) (hsrc : offset + len ≤ src.mDataSize) :
      Alike (fun i => i < w ∨ i < (Parcel.appendData env src offset len p.mDataPos r).2.mDataPos ∨
          i < (Parcel.appendData env src offset len p.mDataPos r).2.mDataSize)
        (Parcel.appendData env src offset len p.mDataPos r).2
        (Parcel.appendData (env.refill contents) src offset len p.mDataPos r').2 := by
    obtain ⟨hend, hobjs⟩ := (hfill.resolve_left hlen).resolve_left (not_lt.mpr hsrc)
    have hmoved : ∀ off ∈ movedObjects src offset len p.mDataPos,
        off + sizeofFlatBinderObject ≤ max w (r.mDataPos + len) := by
      intro off hoff
      obtain ⟨o, ho, rfl⟩ := mem_map.mp hoff
      rw [hrpos]
      exact hobjs o ho
    have hall : Alike (fun i => i < w ∨ i < r.mDataPos + len) (Parcel.appendData env src offset len p.mDataPos r).2
        (Parcel.appendData (env.refill contents) src offset len p.mDataPos r').2 :=
      hr.appendData hmoved (hrpos.trans_le hpos)
    obtain ⟨hqpos, hqsize⟩ := adoptAll_counters env (movedObjects src offset len p.mDataPos)
      (copied src offset len r.mObjectsCapacity r)
    rw [← appendData_eq] at hqpos hqsize
    refine hall.mono fun i hi => ?_
    rw [hqpos, hqsize] at hi
    dsimp only [copied] at hi
    omega
  unfold Parcel.appendFrom
  rw [hsession, h.mDataSize, h.mDataCapacity, h.mDataPos]
  split_ifs with hses hzero hmax hsrc hgrow
  · exact hstay
  · exact hstay
  · exact hstay
  · exact hstay
  · have hcases := (growData_cases env len p).1
    obtain ⟨hst, hroom⟩ := h.growData env contents hb (fun i hi => lt_of_lt_of_le hi hw) len
    obtain ⟨hrpos, hrsize⟩ := hcases.counters_le
    apply match_alike (R := fun x x' => Alike (fun i => i < w ∨ i < x.2.mDataPos ∨ i < x.2.mDataSize) x.2 x'.2) hst
    · intro hok
      rw [hok] at hcases
      exact hdata hroom (hcases.mDataPos_eq hb hgrow) hrsize hzero (by omega)
    · intro _
      exact hroom.mono fun i hi => by omega
  · exact hdata h rfl le_rfl hzero (by omega)

/-! ### Size and new data -/

theorem Continued.counters_le {desired : ℕ} (h : Continued env desired p st q) :
    q.mDataPos ≤ p.mDataPos ∧ q.mDataSize ≤ p.mDataSize := by
  cases h with
  | refused | failed => exact ⟨le_rfl, le_rfl⟩
  | emptied => exact ⟨Nat.zero_le _, Nat.zero_le _⟩
  | taken =>
    refine ⟨le_rfl, ?_⟩
    dsimp only [takeOver, log]
    split_ifs <;> omega
  | first => exact ⟨Nat.zero_le _, Nat.zero_le _⟩
  | own _ _ _ hres =>
    cases hres with
    | failed | moved | clamped => simp

theorem Alike.setDataSize (h : Alike (· < w) p p') (hb : InBounds p) (hw : w ≤ p.mDataCapacity) (size : ℕ) :
    Alike (· < w) (setDataSize env size p).2 (setDataSize (env.refill contents) size p').2 := by
  unfold Parcel.setDataSize
  split_ifs
  · exact h
  · obtain ⟨hst, hcont⟩ := h.continueWrite env contents hb (fun i hi => lt_of_lt_of_le hi hw) size
    apply match_alike (R := fun x x' => Alike (· < w) x.2 x'.2) hst
    · intro _
      obtain ⟨data, known, has, events, heq, hagree⟩ := hcont
      rw [heq]
      exact ⟨_, _, _, _, rfl, hagree⟩
    · exact fun _ => hcont

theorem Alike.setDataCapacity (h : Alike (· < w) p p') (hb : InBounds p) (hw : w ≤ p.mDataCapacity) (size : ℕ) :
    Alike (· < w) (setDataCapacity env size p).2 (setDataCapacity (env.refill contents) size p').2 := by
  unfold Parcel.setDataCapacity
  rw [h.mDataCapacity]
  split_ifs
  · exact h
  · exact (h.continueWrite env contents hb (fun i hi => lt_of_lt_of_le hi hw) size).2
  · exact h

theorem Agree.renewed {d d' : Option Memory} (h : Agree S d d') (buffer : Memory) (len capacity : ℕ)
    (stores stores' : List Event) {K : ℕ → Prop} (hp : Alike K p p') (hT : ∀ i, T i → i < len ∨ S i) :
    Alike T (renewed buffer len d capacity stores p) (renewed buffer len d' capacity stores' p') := by
  obtain ⟨data, known, has, events, rfl, -⟩ := hp
  refine ⟨_, _, _, _, rfl, (h.store 0 len buffer).mono fun i hi => ?_⟩
  rcases hT i hi with hlen | hS
  · exact .inr (by omega)
  · exact .inl hS

theorem Alike.setData (h : Alike (· < w) p p') (hb : InBounds p) (hsize : p.mDataSize ≤ w) (buffer : Memory)
    (len : ℕ) :
    Alike (fun i => i < w ∧ i < (setData env buffer len p).2.mDataCapacity ∨ i < (setData env buffer len p).2.mDataSize)
      (setData env buffer len p).2 (setData (env.refill contents) buffer len p').2 := by
  have hnull : p.mDataCapacity ≠ 0 → p.mData.isSome := by
    intro hne
    cases hd : p.mData with
    | none => exact absurd (hb.null hd) hne
    | some => rfl
  have hagree := h.agree
  have hstay : Alike (fun i => i < w ∧ i < p.mDataCapacity ∨ i < p.mDataSize) p p' := h.mono fun i hi => by omega
  rw [setData_eq env buffer len hb.own, setData_eq (env.refill contents) buffer len (h.mOwner.trans hb.own)]
  rw [h.mDataCapacity]
  by_cases hmax : len > int32Max
  · rw [if_pos hmax, if_pos hmax]
    exact hstay
  · rw [if_neg hmax, if_neg hmax]
    unfold Env.refill
    dsimp only
    cases env.malloc len with
    | some fresh =>
      have hmoved := hagree.moved fresh (contents len) (min p.mDataCapacity len)
        (T := fun i => i < w ∧ i < p.mDataCapacity ∧ i < len) fun i hi => ⟨hi.1, by omega, hnull (by omega)⟩
      exact hmoved.renewed buffer len len _ _ h fun i hi => .inl (hi.elim And.right id)
    | none =>
      split_ifs with hcap hzero
      · obtain ⟨data, known, has, events, rfl, hsame⟩ := hstay
        exact ⟨_, _, _, _, rfl, hsame⟩
      · exact Agree.null.renewed (S := fun _ => True) buffer len 0 [] [] h fun _ _ => .inr trivial
      · exact hagree.renewed buffer len p.mDataCapacity [] [] h fun i hi => hi.elim (fun hi => .inr hi.1) .inl

/-! ### Two runs -/

theorem PlainWritten.size_le (h : PlainWritten env n p q) : q.mDataSize ≤ max p.mDataSize q.mDataPos := by
  cases h with
  | rejected => exact le_max_left _ _
  | stayed hroom => exact le_max_of_le_left hroom.counters_le.2
  | stored adv _ hroom hstored =>
    have hle := hroom.counters_le.2
    obtain ⟨f, es, rfl, -, -⟩ := hstored
    cases adv with
    | false => exact le_max_of_le_left hle
    | true =>
      dsimp only
      rw [if_pos rfl, if_pos rfl]
      omega

theorem ObjectWritten.size_le {val : FlatBinderObject} {nullMetaData : Bool}
    (h : ObjectWritten env val nullMetaData p st q) : q.mDataSize ≤ max p.mDataSize q.mDataPos := by
  cases h with
  | stayed hroom | noTable hroom | banned _ hroom => exact le_max_of_le_left hroom.counters_le.2
  | placed _ hroom => exact max_le_max hroom.counters_le.2 le_rfl

theorem SizeSet.counters_le {size : ℕ} (h : SizeSet env size p q) :
    q.mDataPos ≤ p.mDataPos ∧ q.mDataSize ≤ max p.mDataSize size := by
  cases h with
  | rejected => exact ⟨le_rfl, le_max_left _ _⟩
  | stayed hcont => exact ⟨hcont.counters_le.1, le_max_of_le_left hcont.counters_le.2⟩
  | set hcont => exact ⟨hcont.counters_le.1, le_max_right _ _⟩

/-- The same operation with other contents in the blocks it allocates. -/
def Op.refill (contents : ℕ → Memory) : Op → Op
  | .setDataPosition pos => .setDataPosition pos
  | .setDataSize env size => .setDataSize (env.refill contents) size
  | .setDataCapacity env size => .setDataCapacity (env.refill contents) size
  | .setData env buffer len => .setData (env.refill contents) buffer len
  | .appendFrom env src offset len => .appendFrom (env.refill contents) src offset len
  | .write env data len => .write (env.refill contents) data len
  | .writeInplace env len => .writeInplace (env.refill contents) len
  | .writeUnpadded env data len => .writeUnpadded (env.refill contents) data len
  | .writeAligned env val => .writeAligned (env.refill contents) val
  | .writeObject env val nullMetaData => .writeObject (env.refill contents) val nullMetaData
  | .markSensitive => .markSensitive

/-- Two parcels after the same operations. `extent` is the largest `ipcDataSize` so far, as far as the
block reaches. -/
structure Twin where
  left : Parcel := {}
  right : Parcel := {}
  extent : ℕ := 0

namespace Twin

/-- The second run finds `contents` in its new blocks. -/
def step (s : Twin) (a : Op × (ℕ → Memory)) : Option Twin :=
  (s.left.run a.1).bind fun left => (s.right.run (a.1.refill a.2)).map fun right =>
    { left, right, extent := max (min s.extent left.mDataCapacity) left.ipcDataSize }

/-- The data ends inside the extent, or the operation stores what is behind it. -/
def Fills (s : Twin) : Op → Prop
  | .setDataPosition pos => pos ≤ s.extent
  | .setDataSize _ size => size ≤ s.extent ∨ int32Max < size
  | .write _ data len => data.isSome ∨ Filled s.extent len s.left
  | .writeInplace _ len => Filled s.extent len s.left
  | .appendFrom _ src offset len => AppendFills s.extent src offset len s.left
  | _ => True

instance (s : Twin) (op : Op) : Decidable (s.Fills op) := by
  induction op using Op.casesOn <;> dsimp only [Fills] <;> infer_instance

def Keeps (s : Twin) (a : Op × (ℕ → Memory)) : Prop := s.left.HasRoom a.1 ∧ s.Fills a.1
deriving Decidable

/-- The bytes that both runs hand to the driver are known. -/
structure Ok (s : Twin) : Prop where
  inBounds : InBounds s.left
  alike : Alike (· < s.extent) s.left s.right
  pos : s.left.mDataPos ≤ s.extent
  size : s.left.mDataSize ≤ s.extent
  capacity : s.extent ≤ s.left.mDataCapacity

variable {s : Twin}

theorem Ok.run {op : Op} {contents : ℕ → Memory} (h : s.Ok) (hfill : s.Fills op)
    (hq : s.left.run op = some q) (hq' : s.right.run (op.refill contents) = some q') :
    Alike (fun i => i < s.extent ∧ i < q.mDataCapacity ∨ i < q.mDataPos ∨ i < q.mDataSize) q q' := by
  obtain ⟨hb, halike, hpos, hsize, hcap⟩ := h
  -- the bytes up to a size that no write leaves behind
  have hwritten {q q' : Parcel} (hw : Alike (fun i => i < s.extent ∨ i < q.mDataPos) q q')
      (hle : q.mDataSize ≤ max s.left.mDataSize q.mDataPos) :
      Alike (fun i => i < s.extent ∧ i < q.mDataCapacity ∨ i < q.mDataPos ∨ i < q.mDataSize) q q' :=
    hw.mono fun i hi => by omega
  cases op with
  | setDataPosition pos =>
    have hle : pos ≤ s.extent := hfill
    simp only [Parcel.run, Op.refill, Parcel.setDataPosition] at hq hq'
    split_ifs at hq hq' with hmax
    cases hq
    cases hq'
    obtain ⟨data, known, has, events, heq, hagree⟩ := halike
    rw [heq]
    refine ⟨_, _, _, _, rfl, hagree.mono fun i hi => ?_⟩
    dsimp only at hi
    omega
  | setDataSize env size =>
    cases hq
    cases hq'
    have hle : (Parcel.setDataSize env size s.left).2.mDataPos ≤ s.extent ∧
        (Parcel.setDataSize env size s.left).2.mDataSize ≤ s.extent := by
      rcases hfill with hle | hmax
      · obtain ⟨hqpos, hqsize⟩ := (setDataSize_cases env size s.left).counters_le
        omega
      · rw [Parcel.setDataSize, if_pos hmax]
        exact ⟨hpos, hsize⟩
    refine (halike.setDataSize hb hcap size).mono fun i hi => ?_
    omega
  | setDataCapacity env size =>
    cases hq
    cases hq'
    have hle : (Parcel.setDataCapacity env size s.left).2.mDataPos ≤ s.extent ∧
        (Parcel.setDataCapacity env size s.left).2.mDataSize ≤ s.extent := by
      have hset := setDataCapacity_cases env size s.left
      generalize (Parcel.setDataCapacity env size s.left).2 = q at hset ⊢
      cases hset with
      | stayed => exact ⟨hpos, hsize⟩
      | continued _ hcont => exact ⟨hcont.counters_le.1.trans hpos, hcont.counters_le.2.trans hsize⟩
    refine (halike.setDataCapacity hb hcap size).mono fun i hi => ?_
    omega
  | setData env buffer len =>
    cases hq
    cases hq'
    have hqpos : (Parcel.setData env buffer len s.left).2.mDataPos ≤ s.left.mDataPos := by
      have hset := setData_cases env buffer len hb.own
      generalize (Parcel.setData env buffer len s.left).2 = q at hset ⊢
      cases hset with
      | rejected | failed => exact le_rfl
      | _ => exact Nat.zero_le _
    have hqcap := (hb.dataSet (setData_cases env buffer len hb.own)).pos
    refine (halike.setData hb hsize buffer len).mono fun i hi => ?_
    omega
  | appendFrom =>
    cases hq
    cases hq'
    refine (halike.appendFrom hb hcap hpos hsize hfill).mono fun i hi => ?_
    omega
  | write env data len =>
    cases hq
    cases hq'
    exact hwritten (halike.write hb hcap hpos data len hfill) (write_written env data len s.left).size_le
  | writeInplace env len =>
    cases hq
    cases hq'
    have hres : Reserved s.extent len s.left (Parcel.writeInplace env len s.left)
        (Parcel.writeInplace (env.refill contents) len s.right) := halike.writeInplace hb hcap hpos len
    have hle := (writeInplace_spec env len s.left).1.size_le
    by_cases hmax : int32Max < len
    · rw [Parcel.writeInplace, if_pos hmax, Parcel.writeInplace, if_pos hmax]
      exact hwritten (halike.known hpos) (le_max_left _ _)
    · exact hwritten (hres.filled hpos hfill (not_lt.mp hmax)) hle
  | writeUnpadded env data len =>
    cases hq
    cases hq'
    exact hwritten (halike.writeUnpadded hb hcap hpos data len).2 (writeUnpadded_written env data len s.left).size_le
  | writeAligned env val =>
    simp only [Parcel.run, Op.refill] at hq hq'
    split_ifs at hq hq' with hlen
    cases hq
    cases hq'
    exact hwritten (halike.writeAligned hb hcap hpos val).2
      (writeAligned_written env (by unfold int32Max; omega) s.left).size_le
  | writeObject env val nullMetaData =>
    cases hq
    cases hq'
    exact hwritten (halike.writeObject hb hcap hpos val nullMetaData).2
      (writeObject_cases env val nullMetaData s.left).size_le
  | markSensitive =>
    cases hq
    cases hq'
    obtain ⟨data, known, has, events, heq, hagree⟩ := halike
    rw [heq]
    refine ⟨_, _, _, _, rfl, hagree.mono fun i hi => ?_⟩
    dsimp only [Parcel.markSensitive] at hi
    omega

theorem Ok.step {s' : Twin} {a : Op × (ℕ → Memory)} (h : s.Ok) (hk : s.Keeps a) (hs : s.step a = some s') : s'.Ok := by
  obtain ⟨q, hq, hs⟩ := Option.bind_eq_some_iff.mp hs
  obtain ⟨q', hq', rfl⟩ := Option.map_eq_some_iff.mp hs
  have hb := h.inBounds.run a.1 hk.1 hq
  have hipc : q.ipcDataSize = max q.mDataPos q.mDataSize := by
    unfold ipcDataSize
    split_ifs <;> omega
  have hbpos := hb.pos
  have hbsize := hb.size
  constructor
  · exact hb
  · refine (h.run hk.2 hq hq').mono fun i hi => ?_
    dsimp only at hi
    omega
  · dsimp only
    omega
  · dsimp only
    omega
  · dsimp only
    omega

end Twin

/-- In two runs whose operations have room and fill what they expose, the bytes handed to the driver do
not depend on what was in the memory. -/
theorem driver_bytes_alike (s : Twin) (h : Reachable Twin.step Twin.Keeps {} s) :
    s.left.ipcDataSize = s.right.ipcDataSize ∧
      s.left.bytesAt 0 s.left.ipcDataSize = s.right.bytesAt 0 s.right.ipcDataSize := by
  have hok : s.Ok := by
    refine h.invariant Twin.Ok ?_ fun s a s' hs hk hstep => hs.step hk hstep
    exact ⟨.init, .refl _, le_rfl, le_rfl, le_rfl⟩
  have hsize : s.left.ipcDataSize = s.right.ipcDataSize := by
    unfold ipcDataSize
    rw [hok.alike.mDataPos, hok.alike.mDataSize]
  have hle : s.left.ipcDataSize ≤ s.extent := by
    have hpos := hok.pos
    have := hok.size
    unfold ipcDataSize
    split_ifs <;> omega
  refine ⟨hsize, ?_⟩
  obtain ⟨data, known, has, events, heq, hagree⟩ := hok.alike
  rw [heq]
  unfold bytesAt
  cases hd : s.left.mData with
  | none =>
    rw [hd] at hagree
    cases hagree
    rfl
  | some =>
    rw [hd] at hagree
    cases hagree with
    | both hsame =>
      apply Memory.load_congr
      intro i hi
      rw [Nat.zero_add]
      exact (hsame i (lt_of_lt_of_le hi hle)).symm

/-- Both runs write a string of three bytes, move back and write over it. -/
theorem driver_bytes_alike_example : ∃ s : Twin, s.left.ipcDataSize = 12 ∧ s.extent = 12 ∧
    s.left.bytesAt 0 s.left.ipcDataSize = s.right.bytesAt 0 s.right.ipcDataSize := by
  obtain ⟨s, hs, hsize, hextent⟩ := exists_reachable Twin.step Twin.Keeps {}
    [(.writeAligned zeroEnv [1, 2, 3, 4], fun _ _ => 7), (.write zeroEnv (some (.ofBytes [5, 6, 7])) 3, fun _ _ => 7),
      (.setDataPosition 4, fun _ _ => 7), (.writeAligned zeroEnv [8, 9, 10, 11, 12, 13, 14, 15], fun _ _ => 7)]
    (fun s => s.left.ipcDataSize = 12 ∧ s.extent = 12) (by decide)
  exact ⟨s, hsize, hextent, (driver_bytes_alike s hs).2⟩

/-- A size that is only set exposes what was in the memory. -/
theorem size_exposes_memory : ∃ s : Twin, Reachable Twin.step Free {} s ∧
    s.left.ipcDataSize = 4 ∧ s.right.ipcDataSize = 4 ∧ s.left.bytesAt 0 4 ≠ s.right.bytesAt 0 4 :=
  exists_reachable Twin.step Free {} [(.setDataSize zeroEnv 4, fun _ _ => 7)] _ (by decide)

end Binder.Parcel
