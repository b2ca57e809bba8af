import Binder.Parcel.Encode
import Binder.Parcel.Failure

/-! Which writes report every part that they do not store. -/
namespace Binder.Parcel
open Binder.Lib List

variable {p q r : Parcel} {env : Env} {n len : ℕ} {bs cs : List UInt8}

/-! ### Stored bytes -/

/-- From `p` to `q` the bytes came to stand at the position, inside the block, and the position moved behind them. -/
structure Placed (bs : List UInt8) (p q : Parcel) : Prop where
  pos : q.mDataPos = p.mDataPos + bs.length
  bytes : ∀ i (h : i < bs.length), byteAt (p.mDataPos + i) q = some bs[i] ∧ InData (p.mDataPos + i) q

/-- The data before the position stays. -/
def Spared (p q : Parcel) : Prop :=
  ∀ i < p.mDataPos, ∀ b, byteAt i p = some b → InData i p → byteAt i q = some b ∧ InData i q

theorem Spared.refl (p : Parcel) : Spared p p := fun _ _ _ hb hi => ⟨hb, hi⟩

theorem Spared.trans (h₁ : Spared p q) (h₂ : Spared q r) (hpos : p.mDataPos ≤ q.mDataPos) : Spared p r := by
  intro i hi b hb hin
  obtain ⟨hb', hin'⟩ := h₁ i hi b hb hin
  exact h₂ i (hi.trans_le hpos) b hb' hin'

theorem Placed.nil (h : q.mDataPos = p.mDataPos) : Placed [] p q := ⟨h, nofun⟩

theorem Placed.append (h₁ : Placed bs p q) (h₂ : Placed cs q r) (hk : Spared q r) : Placed (bs ++ cs) p r := by
  have hpos := h₁.pos
  refine ⟨by rw [h₂.pos, hpos, length_append, Nat.add_assoc], fun i hi => ?_⟩
  by_cases hlt : i < bs.length
  · obtain ⟨hbyte, hin⟩ := h₁.bytes i hlt
    rw [getElem_append_left hlt]
    exact hk _ (by omega) _ hbyte hin
  · obtain ⟨k, rfl⟩ := Nat.exists_eq_add_of_le (not_lt.mp hlt)
    have hk : k < cs.length := by
      rw [length_append] at hi
      omega
    have hbytes := h₂.bytes k hk
    rw [hpos, Nat.add_assoc] at hbytes
    rw [getElem_append_right (Nat.le_add_right _ _)]
    simpa only [Nat.add_sub_cancel_left] using hbytes

/-! ### Room at the position -/

/-- The room for `n` bytes is at the position: no growth that starts over, moves the position back or stays short
of it. -/
def Reaches (n : ℕ) (p : Parcel) : Prop :=
  if (p.mDataPos + n) % 2 ^ 64 ≤ p.mDataCapacity then n = 0 ∨ p.mDataPos + n ≤ p.mDataCapacity ∧ p.mData.isSome
  else if p.mOwner = false ∧ p.mData.isNone then p.mDataPos = 0
  else p.mDataPos + n ≤ p.wanted n ∨ n = 0 ∧ (p.mOwner = true ∨ p.mDataCapacity < p.wanted n)
deriving Decidable

/-- `r` has room for `n` bytes where `p` has its position. -/
def HasPlace (n : ℕ) (p r : Parcel) : Prop :=
  r.mDataPos = p.mDataPos ∧ (n = 0 ∨ p.mDataPos + n ≤ r.mDataCapacity ∧ r.mData.isSome)

theorem Enlarged.hasPlace_iff (h : Enlarged env n p r) (hfull : ¬ (p.mDataPos + n) % 2 ^ 64 ≤ p.mDataCapacity) :
    HasPlace n p r ↔ Reaches n p := by
  have hwanted := p.le_wanted n
  unfold Reaches HasPlace
  rw [if_neg hfull]
  cases h with
  | taken _ hown =>
    simp only [hown, Bool.true_eq_false, false_and, if_false, takeOver, log_mData, log_mDataPos, log_mDataCapacity,
      Option.isSome_some, and_true, true_and, true_or]
    exact or_comm
  | first _ hown hnone =>
    simp only [hown, hnone, Option.isNone_none, and_self, if_true, Option.isSome_some, and_true]
    constructor
    · intro h
      exact h.1.symm
    · intro h
      exact ⟨h.symm, .inr (by omega)⟩
  | moved _ _ hown hmem _ hcap =>
    simp only [hown, hmem, Option.isNone_some, Bool.false_eq_true, and_false, if_false, log_mData, log_mDataPos,
      log_mDataCapacity, Option.isSome_some, and_true, true_and, hcap, or_true]
    exact or_comm
  | clamped hown hdata =>
    have hsome : p.mData.isNone = false := by simpa using hdata
    simp only [hown, hsome, Bool.false_eq_true, and_false, if_false, false_or]
    constructor
    · rintro ⟨hpos, rfl | ⟨hplace, -⟩⟩
      · omega
      · omega
    · intro h
      omega

theorem withRoom_hasPlace_iff (h : withRoom env n p = (.ok, r)) : HasPlace n p r ↔ Reaches n p := by
  rcases withRoom_ok h with ⟨hfits, rfl⟩ | ⟨hfits, hr⟩
  · unfold HasPlace Reaches
    rw [if_pos hfits, and_iff_right rfl]
  · exact hr.hasPlace_iff hfits

/-- `q` is `r` with `bs` put at the position. -/
structure Put (bs : List UInt8) (r q : Parcel) : Prop where
  data : ∃ f : Memory → Memory, q.mData = r.mData.map f ∧ ∀ mem, (f mem).load r.mDataPos bs.length = bs
  pos : q.mDataPos = r.mDataPos + bs.length
  size : q.mDataSize = max r.mDataSize q.mDataPos
  capacity : q.mDataCapacity = r.mDataCapacity
  objects : q.mObjects = r.mObjects
  owner : q.mOwner = r.mOwner

variable {i x : ℕ} {b : UInt8} {st : Status} {w v : BitVec 32}

theorem isSome_of_byteAt (h : byteAt i p = some b) : p.mData.isSome := by
  obtain ⟨mem, hmem, -⟩ := Option.map_eq_some_iff.mp h
  rw [hmem]
  rfl

theorem eq_of_load {mem : Memory} {off : ℕ} (h : mem.load off bs.length = bs) (hi : i < bs.length) :
    mem (off + i) = bs[i] := by
  have hget : (mem.load off bs.length)[i]? = bs[i]? := by rw [h]
  simpa [Memory.load, hi] using hget

theorem Put.placed_iff (h : Put bs r q) : Placed bs p q ↔ HasPlace bs.length p r := by
  obtain ⟨f, hdata, hload⟩ := h.data
  have hqpos := h.pos
  have hsize := h.size
  have hcap := h.capacity
  constructor
  · intro hp
    have hpos := hp.pos
    refine ⟨by omega, ?_⟩
    by_cases hnil : bs.length = 0
    · exact .inl hnil
    · obtain ⟨hbyte, -, hblock⟩ := hp.bytes (bs.length - 1) (by omega)
      have hsome := isSome_of_byteAt hbyte
      have hin := hblock hsome
      refine .inr ⟨by omega, ?_⟩
      simpa [hdata] using hsome
  · rintro ⟨hpos, hplace⟩
    refine ⟨by omega, fun i hi => ?_⟩
    obtain ⟨hroom, hsome⟩ := hplace.resolve_left (by omega)
    obtain ⟨mem, hmem⟩ := Option.isSome_iff_exists.mp hsome
    refine ⟨?_, by omega, fun _ => by omega⟩
    rw [byteAt, hdata, hmem, ← hpos]
    exact congrArg some (eq_of_load (hload mem) hi)

/-! ### Spared data -/

/-- Making room keeps the data, and the position behind what it was behind of. -/
theorem Roomed.spared (h : Roomed env n p st r) (hb : byteAt i p = some b)
    (hi : InData i p) : byteAt i r = some b ∧ InData i r ∧ (i < p.mDataPos → i < r.mDataPos) := by
  obtain ⟨mem, hmem, -⟩ := Option.map_eq_some_iff.mp hb
  have hwanted := p.le_wanted n
  have hsize := hi.1
  cases h with
  | fits | refused | failed => exact ⟨hb, hi, id⟩
  | enlarged henl =>
    cases henl with
    | taken data hown hmax hdata =>
      refine ⟨((Enlarged.taken data hown hmax hdata).bytes hmem hi).trans hb, ⟨?_, fun _ => ?_⟩, id⟩
      · simp only [takeOver, log_mDataSize]
        split_ifs <;> omega
      · simp only [takeOver, log_mDataCapacity]
        omega
    | first _ _ hnone => simp [hnone] at hmem
    | moved mem' fresh hown hmem' hmax hcap hfresh =>
      refine ⟨((Enlarged.moved mem' fresh hown hmem' hmax hcap hfresh).bytes hmem hi).trans hb, ⟨hsize, fun _ => ?_⟩, id⟩
      simp only [log_mDataCapacity]
      omega
    | clamped => exact ⟨hb, hi, fun hlt => lt_min hlt (by omega)⟩

theorem PlainWritten.spared (h : PlainWritten env n p q) : Spared p q := by
  intro i hlt b hb hi
  cases h with
  | rejected => exact ⟨hb, hi⟩
  | stayed hr =>
    obtain ⟨hb', hi', -⟩ := hr.spared hb hi
    exact ⟨hb', hi'⟩
  | stored _ _ hr hs =>
    obtain ⟨hb', hi', hpos⟩ := hr.spared hb hi
    obtain ⟨f, es, rfl, hf, -⟩ := hs.eq
    obtain ⟨mem, hmem, rfl⟩ := Option.map_eq_some_iff.mp hb'
    refine ⟨?_, ?_, ?_⟩
    · simp [byteAt, hmem, hf mem i (.inl (hpos hlt))]
    · have hsize := hi'.1
      dsimp only
      split_ifs <;> omega
    · intro _
      exact hi'.2 (by simp [hmem])

/-! ### Aligned words -/

theorem put_store (r : Parcel) (bs : List UInt8) (hlen : bs.length ≤ int32Max) :
    (finishWrite bs.length (r.store r.mDataPos (.ofBytes bs) bs.length)).1 = .ok ∧
      Put bs r (finishWrite bs.length (r.store r.mDataPos (.ofBytes bs) bs.length)).2 := by
  unfold finishWrite
  rw [if_neg (not_lt.mpr hlen)]
  refine ⟨rfl, ⟨_, rfl, fun mem => ?_⟩, rfl, ?_, rfl, rfl, rfl⟩
  · rw [Memory.load_memcpy, Memory.load_ofBytes]
  · exact (max_def_lt _ _).symm

theorem writeAligned_of_room (hr : withRoom env bs.length p = (.ok, r)) (hlen : bs.length ≤ int32Max) :
    (writeAligned env bs p).1 = .ok ∧ Put bs r (writeAligned env bs p).2 := by
  unfold writeAligned
  rw [hr]
  exact put_store r bs hlen

theorem writeAligned_of_full (hr : withRoom env bs.length p = (st, r)) (hst : st ≠ .ok) :
    writeAligned env bs p = (st, r) := by
  unfold writeAligned
  rw [hr]
  cases st <;> first | rfl | exact absurd rfl hst

theorem not_placed_of_unchanged (h : Unchanged p q) (hbs : bs ≠ []) : ¬ Placed bs p q := by
  intro hp
  have hpos := hp.pos
  have hlen := length_pos_iff.mpr hbs
  rw [h.pos] at hpos
  omega

/-- If there is room for a word, it is at the position. -/
def AlignedHonest (env : Env) (bs : List UInt8) (p : Parcel) : Prop :=
  bs.length ≤ int32Max → RoomFor env bs.length p → Reaches bs.length p

theorem writeAligned_honest_iff (env : Env) (bs : List UInt8) (p : Parcel) :
    ((writeAligned env bs p).1 = .ok → Placed bs p (writeAligned env bs p).2) ↔ AlignedHonest env bs p := by
  have hroom : _ ↔ RoomFor env bs.length p := withRoom_ok_iff
  unfold AlignedHonest
  cases hr : withRoom env bs.length p with
  | mk st =>
    rw [hr] at hroom
    by_cases hst : st = .ok
    · subst hst
      by_cases hlen : bs.length ≤ int32Max
      · obtain ⟨hok, hput⟩ := writeAligned_of_room hr hlen
        rw [hput.placed_iff, withRoom_hasPlace_iff hr]
        simp [hok, hlen, hroom.mp rfl]
      · refine iff_of_true (fun hok => ?_) (fun h => absurd h hlen)
        unfold writeAligned finishWrite at hok
        rw [hr] at hok
        simp [not_le.mp hlen] at hok
    · rw [writeAligned_of_full hr hst]
      exact iff_of_true (fun hok => absurd hok hst) (fun _ h => absurd (hroom.mpr h) hst)

theorem dropped_honest_iff (env : Env) (v : BitVec 32) (p : Parcel) :
    Placed (wordBytes v) p (writeInt32 env v p).2 ↔ RoomFor env 4 p ∧ Reaches 4 p := by
  have hlen := length_wordBytes v
  have hroom : _ ↔ RoomFor env (wordBytes v).length p := withRoom_ok_iff
  rw [← hlen]
  change Placed (wordBytes v) p (writeAligned env (wordBytes v) p).2 ↔ _
  cases hr : withRoom env (wordBytes v).length p with
  | mk st =>
    rw [hr] at hroom
    by_cases hst : st = .ok
    · subst hst
      obtain ⟨-, hput⟩ := writeAligned_of_room hr (by rw [hlen]; decide)
      rw [hput.placed_iff, withRoom_hasPlace_iff hr, and_iff_right (hroom.mp rfl)]
    · rw [writeAligned_of_full hr hst]
      refine iff_of_false (not_placed_of_unchanged (withRoom_unchanged hr hst) ?_) (fun h => hst (hroom.mpr h.1))
      exact ne_nil_of_length_pos (by omega)

/-! ### Inplaced blocks -/

def Wraps (n : ℕ) (p : Parcel) : Prop := (p.mDataPos + n) % 2 ^ 64 < p.mDataPos
deriving Decidable

def Fits (n : ℕ) (p : Parcel) : Prop := (p.mDataPos + n) % 2 ^ 64 ≤ p.mDataCapacity
deriving Decidable

def ReservesNone (env : Env) (len : ℕ) (p : Parcel) : Prop :=
  int32Max < len ∨ Wraps (padSize len) p ∨ ¬ RoomFor env (padSize len) p ∨ Fits (padSize len) p ∧ p.mData = none
deriving Decidable

def stickyError (len : ℕ) (p : Parcel) : Status :=
  if len ≤ int32Max ∧ ¬ Wraps (padSize len) p ∧ ¬ Fits (padSize len) p ∧
      p.mDataSize < (p.mDataSize + padSize len) * 3 / 2 ∧ p.wanted (padSize len) ≤ int32Max then .noMemory
  else p.mError

inductive Inplaced (env : Env) (len : ℕ) (p : Parcel) : Option ℕ → Parcel → Prop
  | refused {r : Parcel} : ReservesNone env len p → Unchanged p r → r.mError = stickyError len p →
      Inplaced env len p none r
  | null : len ≤ int32Max → ReservesNone env len p → p.mData = none → stickyError len p = p.mError →
      Inplaced env len p none (finishWrite (padSize len) (applyPadMask len (padSize len) p)).2
  | reserved {r : Parcel} : len ≤ int32Max → ¬ ReservesNone env len p → withRoom env (padSize len) p = (.ok, r) →
      Inplaced env len p (some r.mDataPos) (finishWrite (padSize len) (applyPadMask len (padSize len) r)).2

theorem continueWrite_mError {desired : ℕ} (hmax : desired ≤ int32Max) (h : (continueWrite env desired p).1 ≠ .ok) :
    (continueWrite env desired p).2.mError = .noMemory := by
  have hcases := continueWrite_cases env desired p
  revert h hcases
  generalize (continueWrite env desired p).1 = st
  generalize (continueWrite env desired p).2 = q
  intro h hcases
  cases hcases with
  | refused hlong => exact absurd hmax (not_le.mpr hlong)
  | failed => rfl
  | emptied | taken | first => exact absurd rfl h
  | own _ _ _ hown =>
    cases hown with
    | failed => rfl
    | moved | clamped => exact absurd rfl h

/-- Only a failed allocation is remembered, not a size over the limit. -/
theorem growData_mError (h : ¬ Grants env n p) : (growData env n p).2.mError =
    if p.mDataSize < (p.mDataSize + n) * 3 / 2 ∧ p.wanted n ≤ int32Max then .noMemory else p.mError := by
  have hwanted : p.wanted n = max ((p.mDataSize + n) * 3 / 2) 128 := rfl
  have hmax : int32Max = 2 ^ 31 - 1 := rfl
  have hword : sizeMax = 2 ^ 64 - 1 := rfl
  rw [← growData_ok_iff] at h
  unfold growData at h ⊢
  dsimp only at h ⊢
  by_cases hlimits : p.mDataSize < (p.mDataSize + n) * 3 / 2 ∧ p.wanted n ≤ int32Max
  · rw [if_pos hlimits]
    split_ifs at h ⊢ with h₁ h₂ h₃ h₄
    · omega
    · omega
    · omega
    · omega
    · exact continueWrite_mError hlimits.2 h
  · rw [if_neg hlimits]
    split_ifs at h ⊢ with h₁ h₂ h₃ h₄
    · rfl
    · rfl
    · rfl
    · rfl
    · unfold continueWrite
      rw [if_pos (by omega)]

theorem withRoom_mError (h : ¬ RoomFor env n p) : (withRoom env n p).2.mError =
    if p.mDataSize < (p.mDataSize + n) * 3 / 2 ∧ p.wanted n ≤ int32Max then .noMemory else p.mError := by
  obtain ⟨hfull, hgrants⟩ := not_or.mp h
  unfold withRoom
  rw [if_neg hfull, growData_mError hgrants]

theorem Enlarged.isSome (h : Enlarged env n p r) : r.mData.isSome := by
  cases h with
  | taken | first | moved => rfl
  | clamped _ hdata => exact hdata

theorem withRoom_null (h : withRoom env n p = (.ok, r)) (hnull : r.mData = none) : Fits n p ∧ r = p := by
  rcases withRoom_ok h with ⟨hfits, heq⟩ | ⟨-, hr⟩
  · exact ⟨hfits, heq.symm⟩
  · simpa [hnull] using hr.isSome

theorem withRoom_fits (h : Fits n p) : withRoom env n p = (.ok, p) := if_pos h

theorem writeInplace_of_room (hlen : len ≤ int32Max) (hwrap : ¬ Wraps (padSize len) p)
    (hr : withRoom env (padSize len) p = (.ok, r)) : writeInplace env len p =
      (r.mData.map fun _ => r.mDataPos, (finishWrite (padSize len) (applyPadMask len (padSize len) r)).2) := by
  unfold writeInplace
  rw [if_neg (not_lt.mpr hlen)]
  refine (if_neg hwrap).trans ?_
  rw [hr]

theorem writeInplace_of_full (hlen : len ≤ int32Max) (hwrap : ¬ Wraps (padSize len) p)
    (hr : withRoom env (padSize len) p = (st, r)) (hst : st ≠ .ok) : writeInplace env len p = (none, r) := by
  unfold writeInplace
  rw [if_neg (not_lt.mpr hlen)]
  refine (if_neg hwrap).trans ?_
  rw [hr]
  cases st <;> first | rfl | exact absurd rfl hst

theorem writeInplace_inplaced (env : Env) (len : ℕ) (p : Parcel) :
    Inplaced env len p (writeInplace env len p).1 (writeInplace env len p).2 := by
  by_cases hlong : int32Max < len
  · have heq : writeInplace env len p = (none, p) := if_pos hlong
    rw [heq]
    refine .refused (.inl hlong) (.refl p) (if_neg ?_).symm
    exact fun h => absurd h.1 (not_le.mpr hlong)
  by_cases hwrap : Wraps (padSize len) p
  · have heq : writeInplace env len p = (none, p) := (if_neg hlong).trans (if_pos hwrap)
    rw [heq]
    exact .refused (.inr (.inl hwrap)) (.refl p) (if_neg fun h => h.2.1 hwrap).symm
  have hlen : len ≤ int32Max := not_lt.mp hlong
  have hroom : _ ↔ RoomFor env (padSize len) p := withRoom_ok_iff
  cases hr : withRoom env (padSize len) p with
  | mk st r =>
    rw [hr] at hroom
    by_cases hst : st = .ok
    · subst hst
      rw [writeInplace_of_room hlen hwrap hr]
      cases hdata : r.mData with
      | none =>
        obtain ⟨hfits, rfl⟩ := withRoom_null hr hdata
        exact .null hlen (.inr (.inr (.inr ⟨hfits, hdata⟩))) hdata (if_neg fun h => h.2.2.1 hfits)
      | some =>
        refine .reserved hlen ?_ hr
        rintro (h | h | h | ⟨hfits, hnull⟩)
        · exact hlong h
        · exact hwrap h
        · exact h (hroom.mp rfl)
        · obtain rfl : p = r := (Prod.mk.inj ((withRoom_fits hfits).symm.trans hr)).2
          simp [hnull] at hdata
    · have hfull : ¬ RoomFor env (padSize len) p := mt hroom.mpr hst
      have hfits : ¬ Fits (padSize len) p := fun h => hfull (.inl h)
      have herror := withRoom_mError hfull
      rw [hr] at herror
      rw [writeInplace_of_full hlen hwrap hr hst]
      refine .refused (.inr (.inr (.inl hfull))) (withRoom_unchanged hr hst) ?_
      rw [herror, stickyError]
      simp only [hlen, hwrap, hfits, not_false_eq_true, true_and]

/-- What a null pointer from `writeInplace` is reported as. -/
inductive OnNull
  | sticky
  | badValue
  | noMemory

def OnNull.status (mError : Status) : OnNull → Status
  | .sticky => mError
  | .badValue => .badValue
  | .noMemory => .noMemory

def storeAll : ℕ → List (List UInt8) → Parcel → Parcel
  | _, [], p => p
  | d, bs :: pieces, p => storeAll (d + bs.length) pieces (p.store d (.ofBytes bs) bs.length)

def fill (env : Env) (pieces : List (List UInt8)) (onNull : OnNull) (p : Parcel) : Status × Parcel :=
  match writeInplace env pieces.flatten.length p with
  | (some d, q) => (.ok, storeAll d pieces q)
  | (none, q) => (onNull.status q.mError, q)

theorem storeAll_eq (d : ℕ) (pieces : List (List UInt8)) (p : Parcel) : ∃ es, storeAll d pieces p = { p with
    mData := p.mData.map fun mem => Memory.memcpy mem d (.ofBytes pieces.flatten) pieces.flatten.length
    events := es } := by
  induction pieces generalizing d p with
  | nil => exact ⟨p.events, by simp [storeAll]⟩
  | cons bs pieces ih =>
    obtain ⟨es, h⟩ := ih (d + bs.length) (p.store d (.ofBytes bs) bs.length)
    refine ⟨es, ?_⟩
    rw [storeAll, h]
    simp only [store, log, Option.map_map, Function.comp_def, Memory.memcpy_append, flatten_cons]

theorem storeAll_mDataPos (d : ℕ) (pieces : List (List UInt8)) (p : Parcel) :
    (storeAll d pieces p).mDataPos = p.mDataPos := by
  obtain ⟨es, h⟩ := storeAll_eq d pieces p
  rw [h]

theorem put_storeAll (pieces : List (List UInt8)) (hlen : padSize pieces.flatten.length ≤ int32Max) (r : Parcel) :
    Put (padded pieces.flatten) r (storeAll r.mDataPos pieces (finishWrite (padSize pieces.flatten.length)
      (applyPadMask pieces.flatten.length (padSize pieces.flatten.length) r)).2) := by
  generalize hbs : pieces.flatten = bs at hlen ⊢
  obtain ⟨es, hmask⟩ := applyPadMask_eq bs.length (padSize bs.length) r
  obtain ⟨es', hstore⟩ := storeAll_eq r.mDataPos pieces
    (finishWrite (padSize bs.length) (applyPadMask bs.length (padSize bs.length) r)).2
  rw [hstore, hmask, finishWrite, if_neg (not_lt.mpr hlen), hbs]
  refine ⟨⟨_, Option.map_map .., fun mem => ?_⟩, by rw [length_padded], ?_, rfl, rfl, rfl⟩
  · rw [length_padded]
    exact load_padMask mem r.mDataPos bs
  · exact (max_def_lt _ _).symm

theorem Stored.storeAll {adv : Bool} {d : ℕ} (pieces : List (List UInt8)) (h : Stored r n adv q) (hd : r.mDataPos ≤ d)
    (hlen : d + pieces.flatten.length ≤ r.mDataPos + n) : Stored r n adv (storeAll d pieces q) := by
  induction pieces generalizing d q with
  | nil => exact h
  | cons bs pieces ih =>
    rw [flatten_cons, length_append] at hlen
    exact ih (h.store (.ofBytes bs) hd (by omega)) (by omega) (by omega)

theorem fill_written (env : Env) (pieces : List (List UInt8)) (onNull : OnNull) (p : Parcel) :
    PlainWritten env (padSize pieces.flatten.length) p (fill env pieces onNull p).2 := by
  obtain ⟨hwritten, hspec⟩ := writeInplace_spec env pieces.flatten.length p
  have hle := le_padSize pieces.flatten.length
  unfold fill
  cases hw : writeInplace env pieces.flatten.length p with
  | mk d =>
    rw [hw] at hwritten hspec
    cases d with
    | none => exact hwritten
    | some d =>
      have hlen : ¬ int32Max < pieces.flatten.length := by
        intro hlong
        have hnone : writeInplace env pieces.flatten.length p = (none, p) := if_pos hlong
        rw [hw] at hnone
        cases (Prod.mk.inj hnone).1
      have hpad : padSize pieces.flatten.length ≤ int32Max + 3 := by
        unfold padSize
        omega
      obtain ⟨r, adv, rfl, hroom, hstored⟩ := hspec d rfl
      exact .stored adv hpad hroom (hstored.storeAll pieces le_rfl (by omega))

/-- A null pointer is reported, unless nothing was asked for; a block that is handed out is at the position, which
moves behind it. -/
def InplaceHonest (env : Env) (len : ℕ) (onNull : OnNull) (p : Parcel) : Prop :=
  (ReservesNone env len p → len = 0 ∨ onNull.status (stickyError len p) ≠ .ok) ∧
    (¬ ReservesNone env len p → padSize len ≤ int32Max ∧ Reaches (padSize len) p)
deriving Decidable

theorem withRoom_pos_ne (h : withRoom env n p = (.ok, r)) (hn : int32Max < n) : r.mDataPos ≠ p.mDataPos + n := by
  have hwanted := p.le_wanted n
  unfold withRoom at h
  split_ifs at h with hfits
  · obtain rfl : p = r := (Prod.mk.inj h).2
    omega
  · have hgranted := growData_ok_iff.mp (congrArg Prod.fst h)
    have hlimit := hgranted.2.1
    omega

theorem padded_ne_nil (h : bs.length ≠ 0) : padded bs ≠ [] := by
  have hle := le_padSize bs.length
  exact ne_nil_of_length_pos (by rw [length_padded]; omega)

theorem not_placed_of_null (h : q.mData = none) (hbs : bs ≠ []) : ¬ Placed bs p q := by
  intro hp
  have hbyte := (hp.bytes 0 (length_pos_iff.mpr hbs)).1
  simp [byteAt, h] at hbyte

theorem applyPadMask_finish (len : ℕ) (p : Parcel) : let q := (finishWrite (padSize len) (applyPadMask len (padSize len) p)).2
    (p.mData = none → q.mData = none) ∧ q.mError = p.mError ∧
      (q.mDataPos = if int32Max < padSize len then p.mDataPos else p.mDataPos + padSize len) := by
  obtain ⟨es, hmask⟩ := applyPadMask_eq len (padSize len) p
  rw [hmask, finishWrite]
  split_ifs
  · exact ⟨fun h => by simp [h], rfl, rfl⟩
  · exact ⟨fun h => by simp [h], rfl, rfl⟩

/-- A null pointer that is reported as `st` in a parcel without the bytes. -/
theorem null_honest_iff (hnil : bs.length = 0 → q.mDataPos = p.mDataPos)
    (hnot : bs.length ≠ 0 → ¬ Placed (padded bs) p q) :
    (st = .ok → Placed (padded bs) p q) ↔ bs.length = 0 ∨ st ≠ .ok := by
  by_cases hlen : bs.length = 0
  · have hplaced : Placed (padded bs) p q := by
      rw [length_eq_zero_iff.mp hlen]
      exact .nil (hnil hlen)
    exact iff_of_true (fun _ => hplaced) (.inl hlen)
  · simp only [hlen, false_or, ne_eq, hnot hlen, imp_false]

theorem fill_honest_iff (env : Env) (pieces : List (List UInt8)) (onNull : OnNull) (p : Parcel) :
    ((fill env pieces onNull p).1 = .ok → Placed (padded pieces.flatten) p (fill env pieces onNull p).2) ↔
      InplaceHonest env pieces.flatten.length onNull p := by
  have hreserved := writeInplace_inplaced env pieces.flatten.length p
  unfold fill InplaceHonest
  cases hw : writeInplace env pieces.flatten.length p with
  | mk =>
    rw [hw] at hreserved
    cases hreserved with
    | refused hnone hun herr =>
      simp only [hnone, forall_const, not_true_eq_false, false_implies, and_true]
      rw [← herr]
      exact null_honest_iff (fun _ => hun.pos) fun hlen => not_placed_of_unchanged hun (padded_ne_nil hlen)
    | null hlen hnone hdata hsticky =>
      obtain ⟨hnull, herr, hpos⟩ := applyPadMask_finish pieces.flatten.length p
      simp only [hnone, forall_const, not_true_eq_false, false_implies, and_true]
      rw [hsticky, ← herr]
      refine null_honest_iff (fun hlen => ?_) fun hlen => not_placed_of_null (hnull hdata) (padded_ne_nil hlen)
      rw [hpos, hlen]
      rfl
    | @reserved r _ hsome hr =>
      simp only [hsome, false_implies, not_false_eq_true, forall_const, true_and]
      by_cases hpad : padSize pieces.flatten.length ≤ int32Max
      · rw [(put_storeAll pieces hpad _).placed_iff, length_padded, withRoom_hasPlace_iff hr, and_iff_right hpad]
      · refine iff_of_false (fun hp => ?_) fun h => hpad h.1
        have hpos := hp.pos
        rw [storeAll_mDataPos, (applyPadMask_finish _ r).2.2, if_pos (not_le.mp hpad), length_padded] at hpos
        exact withRoom_pos_ne hr (not_le.mp hpad) hpos

/-! ### `write` -/

/-- `write` reserves a block for the bytes; `none` is a null pointer with nothing behind it. -/
def WriteHonest (env : Env) (data : Option (List UInt8)) (p : Parcel) : Prop :=
  (data.getD []).length ≤ int32Max → match data with
    | none => p.mError = .ok → ¬ Wraps 0 p → RoomFor env 0 p → Reaches 0 p
    | some bs => InplaceHonest env bs.length .sticky p

instance (env : Env) (bs : List UInt8) (p : Parcel) : Decidable (WriteHonest env (some bs) p) :=
  inferInstanceAs (Decidable (_ → InplaceHonest ..))

theorem write_eq_fill (hlen : bs.length ≤ int32Max) :
    write env (some (.ofBytes bs)) bs.length p = fill env [bs] .sticky p := by
  unfold write fill
  rw [if_neg (not_lt.mpr hlen), flatten_singleton]
  cases hw : writeInplace env bs.length p with
  | mk d => cases d <;> rfl

theorem write_of_lt {data : Option Memory} (h : int32Max < len) : write env data len p = (.badValue, p) := if_pos h

theorem write_null (env : Env) (p : Parcel) :
    write env none 0 p = ((writeInplace env 0 p).2.mError, (writeInplace env 0 p).2) := by
  unfold write
  cases hw : writeInplace env 0 p with
  | mk d => cases d <;> rfl

theorem withRoom_mError_of_ok (h : withRoom env n p = (.ok, r)) : r.mError = p.mError := by
  rcases withRoom_ok h with ⟨-, rfl⟩ | ⟨-, hr⟩
  · rfl
  · cases hr <;> rfl

/-- A null pointer asks for no room, so that only the position can be lost. -/
theorem Inplaced.null_iff {d : Option ℕ} (h : Inplaced env len p d q) (hpad : padSize len = 0) :
    (q.mError = .ok → q.mDataPos = p.mDataPos) ↔
      (p.mError = .ok → ¬ Wraps (padSize len) p → RoomFor env (padSize len) p → Reaches (padSize len) p) := by
  have hreaches (hnone : ReservesNone env len p) (hwrap : ¬ Wraps (padSize len) p)
      (hroom : RoomFor env (padSize len) p) : Reaches (padSize len) p := by
    have hle := le_padSize len
    obtain hlong | h | h | ⟨hfits, -⟩ := hnone
    · omega
    · exact absurd h hwrap
    · exact absurd hroom h
    · exact (if_pos hfits : Reaches _ _ = _).mpr (.inl hpad)
  cases h with
  | refused hnone hun => exact iff_of_true (fun _ => hun.pos) fun _ => hreaches hnone
  | null _ hnone =>
    refine iff_of_true (fun _ => ?_) fun _ => hreaches hnone
    rw [(applyPadMask_finish len p).2.2, hpad]
    rfl
  | @reserved r _ hsome hr =>
    obtain ⟨-, herr, hpos⟩ := applyPadMask_finish len r
    obtain ⟨-, hwrap, hroom, -⟩ : _ ∧ _ ∧ _ ∧ _ := by simpa only [ReservesNone, not_or] using hsome
    have hplace : r.mDataPos = p.mDataPos ↔ Reaches (padSize len) p := by
      rw [← withRoom_hasPlace_iff hr]
      exact ⟨fun h => ⟨h, .inl hpad⟩, fun h => h.1⟩
    have hstay : (if int32Max < padSize len then r.mDataPos else r.mDataPos + padSize len) = r.mDataPos := by
      rw [hpad]
      rfl
    simp only [herr, withRoom_mError_of_ok hr, hpos, hwrap, not_not.mp hroom, not_false_eq_true, forall_const, hstay,
      hplace]

theorem write_honest_iff (env : Env) (data : Option (List UInt8)) (p : Parcel) :
    ((write env (data.map .ofBytes) (data.getD []).length p).1 = .ok →
      Placed (padded (data.getD [])) p (write env (data.map .ofBytes) (data.getD []).length p).2) ↔
      WriteHonest env data p := by
  unfold WriteHonest
  by_cases hlen : (data.getD []).length ≤ int32Max
  · rw [forall_prop_of_true hlen]
    cases data with
    | none =>
      have hnull := (writeInplace_inplaced env 0 p).null_iff rfl
      have hplaced : Placed [] p (writeInplace env 0 p).2 ↔ (writeInplace env 0 p).2.mDataPos = p.mDataPos :=
        ⟨fun h => h.pos, .nil⟩
      rw [← hplaced] at hnull
      change ((write env none 0 p).1 = .ok → Placed [] p (write env none 0 p).2) ↔ _
      rw [write_null]
      exact hnull
    | some bs =>
      have hfill := fill_honest_iff env [bs] .sticky p
      have heq : write env (some (.ofBytes bs)) bs.length p = fill env [bs] .sticky p := write_eq_fill hlen
      rw [flatten_singleton, ← heq] at hfill
      exact hfill
  · rw [write_of_lt (not_le.mp hlen)]
    simp [hlen]

/-! ### A word over data -/

/-- Exactly the four bytes at `h` differ. -/
structure Reworded (h : ℕ) (uid : BitVec 32) (p q : Parcel) : Prop where
  source : q.bytesAt h 4 = wordBytes uid
  kept : ∀ i, i < h ∨ h + 4 ≤ i → byteAt i q = byteAt i p
  size : q.mDataSize = p.mDataSize
  capacity : q.mDataCapacity = p.mDataCapacity
  pos : q.mDataPos = p.mDataPos
  objects : q.mObjects = p.mObjects
  owner : q.mOwner = p.mOwner

theorem finishWrite_inside (hn : n ≤ int32Max) (hsize : p.mDataPos + n ≤ p.mDataSize) :
    finishWrite n p = (.ok, { p with mDataPos := p.mDataPos + n }) := by
  unfold finishWrite
  rw [if_neg (not_lt.mpr hn)]
  dsimp only
  rw [if_neg (not_lt.mpr hsize)]

theorem writeInt32_inside (hsize : p.mDataPos + 4 ≤ p.mDataSize)
    (hcap : p.mDataPos + 4 ≤ p.mDataCapacity) : writeInt32 env w p =
      (.ok, { p.store p.mDataPos (.ofBytes (wordBytes w)) 4 with mDataPos := p.mDataPos + 4 }) := by
  have hlen : (wordBytes w).length = 4 := by simp [wordBytes]
  have hmod := Nat.mod_le (p.mDataPos + 4) (2 ^ 64)
  have hfits : Fits 4 p := hmod.trans hcap
  change writeAligned env (wordBytes w) p = _
  unfold writeAligned
  rw [hlen, withRoom_fits hfits]
  exact finishWrite_inside (by decide) hsize

/-- Where there is data already, a word goes over it and the position comes back. -/
theorem reworded (hdata : p.mData.isSome) (hsize : x + 4 ≤ p.mDataSize)
    (hcap : x + 4 ≤ p.mDataCapacity) (hr : setDataPosition x p = some r) : (writeInt32 env w r).1 = .ok ∧
      ∀ q, setDataPosition p.mDataPos (writeInt32 env w r).2 = some q → Reworded x w p q := by
  obtain ⟨mem, hmem⟩ := Option.isSome_iff_exists.mp hdata
  obtain ⟨-, rfl⟩ := setDataPosition_eq_some.mp hr
  have hlen : (wordBytes w).length = 4 := by simp [wordBytes]
  rw [writeInt32_inside hsize hcap]
  refine ⟨rfl, fun q hq => ?_⟩
  obtain ⟨-, rfl⟩ := setDataPosition_eq_some.mp hq
  refine ⟨?_, fun i hi => ?_, rfl, rfl, rfl, rfl, rfl⟩
  · simp only [bytesAt, store_mData, hmem, Option.map_some, Option.elim_some]
    rw [Memory.load_memcpy, ← hlen, Memory.load_ofBytes]
  · simp only [byteAt, store_mData, hmem, Option.map_some]
    exact congrArg some (if_neg (by omega))

theorem Reworded.isSome (h : Reworded x w p q) : q.mData.isSome := by
  have hsource := h.source
  cases hq : q.mData with
  | none => simp [bytesAt, hq, wordBytes, leBytes] at hsource
  | some => rfl

theorem Reworded.inData (h : Reworded x w p q) (hdata : p.mData.isSome) (hi : InData i p) : InData i q := by
  refine ⟨h.size ▸ hi.1, fun _ => ?_⟩
  rw [h.capacity]
  exact hi.2 hdata

theorem Placed.reworded (h : Placed (wordBytes v ++ bs) p r) (hr : Reworded p.mDataPos w r q) :
    Placed (wordBytes w ++ bs) p q := by
  have hlen (u : BitVec 32) : (wordBytes u).length = 4 := by simp [wordBytes]
  have hpos := h.pos
  rw [length_append, hlen] at hpos
  obtain ⟨mem, hmem⟩ := Option.isSome_iff_exists.mp hr.isSome
  refine ⟨by rw [hr.pos, length_append, hlen, hpos], fun i hi => ?_⟩
  rw [length_append, hlen] at hi
  obtain ⟨hbyte, hin⟩ := h.bytes i (by rw [length_append, hlen]; exact hi)
  refine ⟨?_, hr.inData (isSome_of_byteAt hbyte) hin⟩
  by_cases hlt : i < 4
  · have hload : mem.load p.mDataPos (wordBytes w).length = wordBytes w := by
      rw [hlen]
      simpa [bytesAt, hmem] using hr.source
    rw [getElem_append_left (by rwa [hlen]), byteAt, hmem, Option.map_some]
    exact congrArg some (eq_of_load hload (by rwa [hlen]))
  · rw [hr.kept _ (.inr (by omega)), hbyte, getElem_append_right (by rw [hlen]; omega),
      getElem_append_right (by rw [hlen]; omega)]
    simp only [hlen]

theorem Spared.reworded (h : Spared p r) (hr : Reworded p.mDataPos w r q) : Spared p q := by
  intro i hi b hb hin
  obtain ⟨hb', hin'⟩ := h i hi b hb hin
  exact ⟨by rw [hr.kept i (.inl hi), hb'], hr.inData (isSome_of_byteAt hb') hin'⟩

end Binder.Parcel
