import Binder.Lib.Buffer
import Binder.Parcel.Honest

/-! Writes inside the data, as blocks that a growing buffer accepts or leaves out. -/
namespace Binder.Parcel
open Binder.Lib List

variable {p q r : Parcel} {env : Env} {e : Bool} {n : ℕ} {bs : List UInt8} {cs ds : List (List UInt8)}

def growth : Growth where
  want n := max (n * 3 / 2) 128
  limit := int32Max
  le_want n := by omega

/-- No allocation fails. -/
structure Env.Allocates (env : Env) : Prop where
  malloc : ∀ n, (env.malloc n).isSome
  callocObjects : env.callocObjects = true

/-- The position is in the data, and with `e` at its end; the data is in the block. -/
structure Within (e : Bool) (p : Parcel) : Prop where
  pos : p.mDataPos ≤ p.mDataSize
  atEnd : e = true → p.mDataPos = p.mDataSize
  size : p.mDataSize ≤ p.mDataCapacity
  capacity : p.mDataCapacity ≤ int32Max
  null : p.mData = none → p.mDataCapacity = 0

/-- The next write is at the end of the data. -/
abbrev AtEnd (p : Parcel) : Prop := Within true p

def extent (p : Parcel) : Buffer := ⟨p.mDataPos, p.mDataSize, p.mDataCapacity⟩

/-- A block of `n` bytes can be allocated, and the table of objects, where both are taken over from an owner. -/
def allocates (env : Env) (p : Parcel) (n : ℕ) : Bool :=
  (env.malloc n).isSome && (!p.mOwner || p.mObjects.isEmpty || env.callocObjects)

/-- None of the blocks is left out when they are written one after the other. -/
def Takes (env : Env) (cs : List (List UInt8)) (p : Parcel) : Prop :=
  p.extent.Fits growth (allocates env p) (cs.map length)
deriving Decidable

/-- `q` is what all the blocks make of `p`. -/
structure Stands (env : Env) (cs : List (List UInt8)) (p q : Parcel) : Prop where
  placed : Placed cs.flatten p q
  extent : q.extent = p.extent.puts growth (cs.map length)
  allocates : allocates env q = allocates env p

/-- From `p` to `q` the blocks were written, as far as there was room: a block that was left out is missed at the
position. -/
structure Tracks (e : Bool) (env : Env) (cs : List (List UInt8)) (p q : Parcel) : Prop where
  within : Within e q
  objects : q.mObjects = p.mObjects
  spared : Spared p q
  size : p.mDataSize ≤ q.mDataSize
  ge : p.mDataPos ≤ q.mDataPos
  le : q.mDataPos ≤ p.mDataPos + cs.flatten.length
  takes : q.mDataPos = p.mDataPos + cs.flatten.length → Takes env cs p
  stands : Takes env cs p → Stands env cs p q

theorem takes_append (h : Stands env cs p q) : Takes env (cs ++ ds) p ↔ Takes env cs p ∧ Takes env ds q := by
  unfold Takes
  rw [map_append, Buffer.fits_append, h.extent, h.allocates]

theorem Takes.left (h : Takes env (cs ++ ds) p) : Takes env cs p := by
  rw [Takes, map_append, Buffer.fits_append] at h
  exact h.1

namespace Tracks

theorem refl (h : Within e p) : Tracks e env [] p p :=
  ⟨h, rfl, .refl p, le_rfl, le_rfl, le_rfl, fun _ => trivial, fun _ => ⟨.nil rfl, rfl, rfl⟩⟩

theorem trans (h₁ : Tracks e env cs p q) (h₂ : Tracks e env ds q r) : Tracks e env (cs ++ ds) p r where
  within := h₂.within
  objects := h₂.objects.trans h₁.objects
  spared := h₁.spared.trans h₂.spared h₁.ge
  size := h₁.size.trans h₂.size
  ge := h₁.ge.trans h₂.ge
  le := by
    have hle₁ := h₁.le
    have hle₂ := h₂.le
    rw [flatten_append, length_append]
    omega
  takes hpos := by
    have hle₁ := h₁.le
    have hle₂ := h₂.le
    rw [flatten_append, length_append] at hpos
    have hfirst := h₁.takes (by omega)
    exact (takes_append (h₁.stands hfirst)).mpr ⟨hfirst, h₂.takes (by omega)⟩
  stands htakes := by
    have hfirst := h₁.stands htakes.left
    have hsecond := h₂.stands ((takes_append hfirst).mp htakes).2
    refine ⟨?_, ?_, hsecond.allocates.trans hfirst.allocates⟩
    · rw [flatten_append]
      exact hfirst.placed.append hsecond.placed h₂.spared
    · rw [hsecond.extent, hfirst.extent, map_append, Buffer.puts_append]

/-- What is written without an error is stored if and only if no block is left out. -/
theorem placed_iff (h : Tracks e env cs p q) : Placed cs.flatten p q ↔ Takes env cs p :=
  ⟨fun hp => h.takes hp.pos, fun ht => (h.stands ht).placed⟩

end Tracks

/-! ### Room -/

theorem Within.of_extent (h : Within e p) (hq : q.extent = p.extent) (hnull : q.mData = none → p.mData = none) :
    Within e q := by
  obtain ⟨hpos, hsize, hcap⟩ := Buffer.mk.inj hq
  constructor
  · rw [hpos, hsize]
    exact h.pos
  · rw [hpos, hsize]
    exact h.atEnd
  · rw [hsize, hcap]
    exact h.size
  · rw [hcap]
    exact h.capacity
  · rw [hcap]
    exact fun hn => h.null (hnull hn)

theorem Within.mod_eq (h : Within e p) (hn : n < 2 ^ 63) : (p.mDataPos + n) % 2 ^ 64 = p.mDataPos + n := by
  have hpos := h.pos
  have hsize := h.size
  have hcap := h.capacity
  have hmax : int32Max = 2 ^ 31 - 1 := rfl
  exact Nat.mod_eq_of_lt (by omega)

theorem allocates_iff : allocates env p n = true ↔
    (env.malloc n).isSome ∧ (p.mOwner = true → p.mObjects = [] ∨ env.callocObjects = true) := by
  unfold allocates
  cases p.mOwner <;> simp

/-- Where the position is in the data, there is room exactly for what the buffer accepts. -/
theorem Within.roomFor_iff (h : Within e p) (hn : n < 2 ^ 63) :
    RoomFor env n p ↔ p.extent.Accepts growth (allocates env p) n := by
  have hpos := h.pos
  have hsize := h.size
  have hwanted := p.le_wanted n
  have hlt : p.mDataSize < (p.mDataSize + n) * 3 / 2 ↔ 0 < n + p.mDataSize / 2 := by omega
  unfold RoomFor Grants Buffer.Accepts
  rw [h.mod_eq hn, allocates_iff]
  change _ ↔ p.mDataPos + n ≤ p.mDataCapacity ∨ p.wanted n ≤ int32Max ∧ _
  refine or_congr_right' fun hfull => ?_
  have hfull : ¬ p.mDataPos + n ≤ p.mDataCapacity := hfull
  have hnone : ¬ (p.mOwner = false ∧ p.mData.isSome ∧ p.wanted n ≤ p.mDataCapacity) := by omega
  rw [or_iff_right hnone, and_iff_right (hlt.mpr (by omega))]
  rfl

/-- The parcel that a block is put into: the data and the position stay, and the block is as large as the buffer's. -/
structure Opened (env : Env) (n : ℕ) (p r : Parcel) : Prop where
  hasPlace : HasPlace n p r
  size : r.mDataSize = p.mDataSize
  capacity : r.mDataCapacity = (p.extent.put growth n).capacity
  objects : r.mObjects = p.mObjects
  allocates : allocates env r = allocates env p
  null : r.mData = none → r.mDataCapacity = 0

theorem Within.opened (h : Within e p) (hn : n < 2 ^ 63) (hr : withRoom env n p = (.ok, r)) : Opened env n p r := by
  have hpos := h.pos
  have hsize := h.size
  have hwanted := p.le_wanted n
  have hroom : RoomFor env n p := withRoom_ok_iff.mp (congrArg Prod.fst hr)
  unfold RoomFor at hroom
  rw [h.mod_eq hn] at hroom
  rcases withRoom_ok hr with ⟨hfits, rfl⟩ | ⟨hfull, hr⟩
  · rw [h.mod_eq hn] at hfits
    refine ⟨⟨rfl, ?_⟩, rfl, (if_pos hfits).symm, rfl, rfl, h.null⟩
    cases hdata : p.mData with
    | none =>
      have hzero := h.null hdata
      exact .inl (by omega)
    | some => exact .inr ⟨hfits, rfl⟩
  · rw [h.mod_eq hn] at hfull
    have hcap : (p.extent.put growth n).capacity = p.wanted n := if_neg hfull
    have hplace : p.mDataPos + n ≤ p.wanted n := by omega
    have hsome (m : Memory) (hnull : some m = none) : p.wanted n = 0 := absurd hnull (Option.some_ne_none m)
    cases hr with
    | taken data hown =>
      obtain ⟨-, -, hgrant⟩ := hroom.resolve_left hfull
      have htable := (hgrant.resolve_left (by simp [hown])).2 hown
      have hkept : (if p.mDataSize < p.wanted n then p.mDataSize else p.wanted n) = p.mDataSize := by
        split_ifs <;> omega
      refine ⟨⟨rfl, .inr ⟨hplace, rfl⟩⟩, hkept, hcap.symm, rfl, ?_, hsome _⟩
      funext m
      unfold allocates
      rcases htable with htable | htable <;> simp [takeOver, log, htable]
    | first data _ hnone =>
      have hzero := h.null hnone
      refine ⟨⟨?_, .inr ⟨?_, rfl⟩⟩, ?_, hcap.symm, rfl, rfl, hsome _⟩
      · exact (show 0 = p.mDataPos by omega)
      · exact hplace
      · exact (show 0 = p.mDataSize by omega)
    | moved => exact ⟨⟨rfl, .inr ⟨hplace, rfl⟩⟩, rfl, hcap.symm, rfl, rfl, hsome _⟩
    | clamped _ _ _ hle => omega

/-! ### One block -/

theorem Within.tracks_put (h : Within e p) (ho : Opened env bs.length p r) (hput : Put bs r q) (hspared : Spared p q)
    (haccepts : p.extent.Accepts growth (allocates env p) bs.length) : Tracks e env [bs] p q := by
  have hplaced : Placed [bs].flatten p q := by
    rw [flatten_singleton]
    exact hput.placed_iff.mpr ho.hasPlace
  have hqpos : q.mDataPos = p.mDataPos + bs.length := by
    rw [hplaced.pos, flatten_singleton]
  have hsize : q.mDataSize = max p.mDataSize (p.mDataPos + bs.length) := by
    rw [hput.size, ho.size, hqpos]
  have hcap : q.mDataCapacity = (p.extent.put growth bs.length).capacity := hput.capacity.trans ho.capacity
  have halloc : allocates env q = allocates env p := by
    rw [← ho.allocates]
    unfold allocates
    rw [hput.owner, hput.objects]
  have htakes : Takes env [bs] p := ⟨haccepts, trivial⟩
  refine ⟨?_, hput.objects.trans ho.objects, hspared, hsize ▸ Nat.le_max_left _ _, hqpos ▸ Nat.le_add_right _ _,
    hplaced.pos.le, fun _ => htakes, fun _ => ?_⟩
  · have hwant := growth.le_want (p.mDataSize + bs.length)
    have hend := h.atEnd
    have hpsize := h.size
    have hpcap := h.capacity
    have hroom : p.mDataSize ≤ q.mDataCapacity ∧ p.mDataPos + bs.length ≤ q.mDataCapacity ∧
        q.mDataCapacity ≤ int32Max := by
      have hpos := h.pos
      rw [hcap]
      unfold Buffer.put
      split_ifs with hfits
      · exact ⟨h.size, hfits, h.capacity⟩
      · exact ⟨by dsimp only [extent]; omega, by dsimp only [extent]; omega, (haccepts.resolve_left hfits).1⟩
    refine ⟨?_, fun he => ?_, ?_, hroom.2.2, fun hnull => ?_⟩
    · omega
    · have := h.atEnd he
      omega
    · omega
    · obtain ⟨f, hdata, -⟩ := hput.data
      rw [hput.capacity]
      exact ho.null (by simpa [hdata] using hnull)
  · refine ⟨hplaced, ?_, halloc⟩
    unfold extent
    rw [hsize, hcap, hqpos]
    rfl

/-- Nothing but the error and the events differs. -/
structure Idle (p q : Parcel) : Prop where
  extent : q.extent = p.extent
  objects : q.mObjects = p.mObjects
  data : q.mData = p.mData

theorem withRoom_idle {st : Status} (hr : withRoom env n p = (st, r)) (hst : st ≠ .ok) : Idle p r := by
  unfold withRoom at hr
  split_ifs at hr with hfits
  · exact absurd (Prod.mk.inj hr).1.symm hst
  · have hgrew := growData_grew env n p
    rw [hr] at hgrew
    cases hgrew with
    | refused | failed => exact ⟨rfl, rfl, rfl⟩
    | enlarged => exact absurd rfl hst

theorem Within.tracks_idle (h : Within e p) (hi : Idle p q)
    (hn : ¬ p.extent.Accepts growth (allocates env p) bs.length) : Tracks e env [bs] p q := by
  obtain ⟨hpos, hsize, hcap⟩ := Buffer.mk.inj hi.extent
  have htakes : ¬ Takes env [bs] p := fun ht => hn ht.1
  have hnil : bs.length ≠ 0 := by
    intro h0
    have hp := h.pos
    have hs := h.size
    exact hn (.inl (by rw [h0]; exact hp.trans hs))
  refine ⟨h.of_extent hi.extent hi.data.symm.trans, hi.objects, fun i _ b hb hin => ?_, hsize.ge, hpos.ge, ?_,
    fun hreached => ?_, fun ht => absurd ht htakes⟩
  · rw [byteAt, InData, hi.data, hsize, hcap]
    exact ⟨hb, hin⟩
  · omega
  · rw [flatten_singleton] at hreached
    omega

/-- Room is made exactly for what the buffer accepts. -/
theorem Within.withRoom_cases (h : Within e p) (env : Env) (hn : n < 2 ^ 63) :
    (∃ r, withRoom env n p = (.ok, r) ∧ Opened env n p r ∧ p.extent.Accepts growth (allocates env p) n) ∨
      ∃ st r, withRoom env n p = (st, r) ∧ st ≠ .ok ∧ Idle p r ∧ ¬ p.extent.Accepts growth (allocates env p) n := by
  have hroom : _ ↔ RoomFor env n p := withRoom_ok_iff
  rw [h.roomFor_iff hn] at hroom
  cases hr : withRoom env n p with
  | mk st r =>
    rw [hr] at hroom
    by_cases hst : st = .ok
    · subst hst
      exact .inl ⟨r, rfl, h.opened hn hr, hroom.mp rfl⟩
    · exact .inr ⟨st, r, rfl, hst, withRoom_idle hr hst, mt hroom.mpr hst⟩

theorem writeAligned_tracks (h : Within e p) (hlen : bs.length ≤ int32Max) :
    Tracks e env [bs] p (writeAligned env bs p).2 := by
  have hmax : int32Max = 2 ^ 31 - 1 := rfl
  have hn : bs.length < 2 ^ 63 := by omega
  rcases h.withRoom_cases env hn with ⟨r, hr, hopened, haccepts⟩ | ⟨st, r, hr, hst, hidle, hrefused⟩
  · exact h.tracks_put hopened (writeAligned_of_room hr hlen).2 (writeAligned_written env hlen p).spared haccepts
  · rw [writeAligned_of_full hr hst]
    exact h.tracks_idle hidle hrefused

theorem writeInt32_tracks (v : BitVec 32) (h : Within e p) : Tracks e env [wordBytes v] p (writeInt32 env v p).2 :=
  writeAligned_tracks h (by rw [length_wordBytes]; decide)

theorem put_null (bs : List UInt8) (hlen : padSize bs.length ≤ int32Max) (hnull : r.mData = none) :
    Put (padded bs) r (finishWrite (padSize bs.length) (applyPadMask bs.length (padSize bs.length) r)).2 := by
  have hput := put_storeAll [bs] (by rwa [flatten_singleton]) r
  rw [flatten_singleton] at hput
  obtain ⟨es, hstore⟩ := storeAll_eq r.mDataPos [bs]
    (finishWrite (padSize bs.length) (applyPadMask bs.length (padSize bs.length) r)).2
  obtain ⟨hdata, -, -⟩ := applyPadMask_finish bs.length r
  rw [hstore, hdata hnull] at hput
  obtain ⟨f, hf, hload⟩ := hput.data
  exact ⟨⟨f, (hdata hnull).trans hf, hload⟩, hput.pos, hput.size, hput.capacity, hput.objects, hput.owner⟩

/-- A word that is left out is reported. -/
theorem writeInt32_takes {v : BitVec 32} (h : Within e p) (hw : writeInt32 env v p = (.ok, q)) :
    Takes env [wordBytes v] p := by
  have hn : (wordBytes v).length < 2 ^ 63 := by rw [length_wordBytes]; decide
  rcases h.withRoom_cases env hn with ⟨r, -, -, haccepts⟩ | ⟨st, r, hr, hst, -⟩
  · exact ⟨haccepts, trivial⟩
  · have hfull : writeInt32 env v p = _ := writeAligned_of_full hr hst
    rw [hw] at hfull
    exact absurd (Prod.mk.inj hfull).1.symm hst

/-- A block of bytes, whatever is reported where there is none. -/
theorem fill_tracks (pieces : List (List UInt8)) (onNull : OnNull) (h : Within e p) :
    Tracks e env [padded pieces.flatten] p (fill env pieces onNull p).2 := by
  have hpos := h.pos
  have hcap := h.capacity
  have hmax : int32Max = 2 ^ 31 - 1 := rfl
  have hlimit : growth.limit = int32Max := rfl
  have hle := le_padSize pieces.flatten.length
  have hspared := (fill_written env pieces onNull p).spared
  unfold fill at hspared ⊢
  by_cases hlong : int32Max < pieces.flatten.length
  · have heq : writeInplace env pieces.flatten.length p = (none, p) := if_pos hlong
    rw [heq]
    refine h.tracks_idle ⟨rfl, rfl, rfl⟩ fun haccepts => ?_
    have := haccepts.le_limit hcap hpos
    rw [length_padded] at this
    omega
  · have hlen : pieces.flatten.length ≤ int32Max := not_lt.mp hlong
    have hn : padSize pieces.flatten.length < 2 ^ 63 := by
      unfold padSize
      omega
    have hwrap : ¬ Wraps (padSize pieces.flatten.length) p := by
      unfold Wraps
      rw [h.mod_eq hn]
      omega
    rcases h.withRoom_cases env hn with ⟨r, hr, hopened, haccepts⟩ | ⟨st, r, hr, hst, hidle, hrefused⟩
    · have hpad := haccepts.le_limit hcap hpos
      have hpad : padSize pieces.flatten.length ≤ int32Max := by omega
      rw [← length_padded] at hopened haccepts
      rw [writeInplace_of_room hlen hwrap hr] at hspared ⊢
      cases hdata : r.mData with
      | none =>
        rw [hdata] at hspared
        exact h.tracks_put hopened (put_null _ hpad hdata) hspared haccepts
      | some =>
        rw [hdata] at hspared
        exact h.tracks_put hopened (put_storeAll pieces hpad r) hspared haccepts
    · rw [writeInplace_of_full hlen hwrap hr hst]
      exact h.tracks_idle hidle (by rwa [length_padded])

theorem write_tracks (data : Option (List UInt8)) (h : Within e p) :
    Tracks e env [padded (data.getD [])] p (write env (data.map .ofBytes) (data.getD []).length p).2 := by
  by_cases hlen : (data.getD []).length ≤ int32Max
  · cases data with
    | none =>
      have hfill : Tracks e env _ p _ := fill_tracks [] .sticky h
      have heq : (fill env [] .sticky p).2 = (write env none 0 p).2 := by
        rw [write_null]
        unfold fill
        cases hw : writeInplace env 0 p with
        | mk d => cases d <;> simp [hw, storeAll]
      rw [heq] at hfill
      exact hfill
    | some bs =>
      have hfill : Tracks e env _ p _ := fill_tracks [bs] .sticky h
      have heq : write env (some (.ofBytes bs)) bs.length p = fill env [bs] .sticky p := write_eq_fill hlen
      rw [flatten_singleton, ← heq] at hfill
      exact hfill
  · rw [write_of_lt (not_le.mp hlen)]
    refine h.tracks_idle ⟨rfl, rfl, rfl⟩ fun haccepts => ?_
    have hlimit : _ ≤ int32Max := haccepts.le_limit h.capacity h.pos
    have hle := le_padSize (data.getD []).length
    rw [length_padded] at hlimit
    omega

/-- The word in front of what was written can be replaced afterwards. -/
theorem Tracks.reworded {u v w : BitVec 32} (h : Tracks e env (wordBytes v :: cs) p r)
    (hre : Reworded p.mDataPos u r q) (hu : Takes env (wordBytes v :: cs) p → u = w) :
    Tracks e env (wordBytes w :: cs) p q := by
  have hlen : (wordBytes w :: cs).flatten.length = (wordBytes v :: cs).flatten.length := by
    simp only [flatten_cons, length_append, length_wordBytes]
  have hmap : (wordBytes w :: cs).map length = (wordBytes v :: cs).map length := by
    simp only [map_cons, length_wordBytes]
  have hsame : Takes env (wordBytes w :: cs) p ↔ Takes env (wordBytes v :: cs) p := by
    unfold Takes
    rw [hmap]
  have hextent : q.extent = r.extent := by
    unfold extent
    rw [hre.pos, hre.size, hre.capacity]
  have hwithin : Within e q := by
    refine h.within.of_extent hextent fun hnull => ?_
    simpa [hnull] using hre.isSome
  refine ⟨hwithin, hre.objects.trans h.objects, h.spared.reworded hre, hre.size ▸ h.size, hre.pos ▸ h.ge, ?_, ?_, ?_⟩
  · rw [hre.pos, hlen]
    exact h.le
  · rw [hre.pos, hlen, hsame]
    exact h.takes
  · intro ht
    rw [hsame] at ht
    have hstands := h.stands ht
    refine ⟨hu ht ▸ hstands.placed.reworded hre, ?_, ?_⟩
    · rw [hextent, hmap, hstands.extent]
    · rw [← hstands.allocates]
      unfold allocates
      rw [hre.owner, hre.objects]

end Binder.Parcel
