import Binder.Parcel.Honest

/-! Reading back what was written at the end of a parcel. -/
namespace Binder.Parcel
open Binder.Lib Binder.Lib.Fallible List

variable {ι : Type} {U : Utf} {P : ι → Parcelable} {p q r : Parcel} {n : ℕ}

def Holds (p : Parcel) (bs : List UInt8) : Prop :=
  ∃ mem, p.mData = some mem ∧ p.mDataPos + bs.length ≤ p.mDataSize ∧ mem.load p.mDataPos bs.length = bs

structure Readable (p : Parcel) : Prop extends Guarded p where
  size : p.mDataSize ≤ int32Max

theorem Readable.after (h : Readable p) (hp : Passed p n q) : Readable q :=
  ⟨hp.guarded, hp.size ▸ h.size⟩

variable {bs cs : List UInt8} {m len : ℕ} {α β : Type} {x : Read α} {b : β} {v : BitVec 32} {vs : List α}
    {mem str : Memory} {c : Codec α} {units : List (BitVec 16)} {a : α} {enc : α → List UInt8}

namespace Holds

theorem left (h : Holds p (bs ++ cs)) : Holds p bs := by
  obtain ⟨mem, hmem, hsize, hload⟩ := h
  rw [length_append] at hsize
  exact ⟨mem, hmem, by omega, (Memory.load_eq_append.mp hload).1⟩

theorem right (h : Holds p (bs ++ cs)) (hp : Passed p bs.length q) : Holds q cs := by
  obtain ⟨mem, hmem, hsize, hload⟩ := h
  rw [length_append] at hsize
  refine ⟨mem, hp.data ▸ hmem, ?_, ?_⟩
  · rw [hp.pos, hp.size]
    omega
  · rw [hp.pos]
    exact (Memory.load_eq_append.mp hload).2

theorem bytesAt (h : Holds p bs) : p.bytesAt p.mDataPos bs.length = bs := by
  obtain ⟨mem, hmem, -, hload⟩ := h
  simp [Parcel.bytesAt, hmem, hload]

theorem le_size (h : Holds p bs) : p.mDataPos + bs.length ≤ p.mDataSize := by
  obtain ⟨mem, -, hsize, -⟩ := h
  exact hsize

end Holds

/-- `r` stands where `p` did, and has what was written up to the position of `q`. Anything may follow. -/
structure Follows (p q r : Parcel) : Prop where
  pos : r.mDataPos = p.mDataPos
  bytes : ∀ i, p.mDataPos ≤ i → i < q.mDataPos → byteAt i r = byteAt i q
  size : q.mDataPos ≤ r.mDataSize

/-- What was placed is found by going back to where it starts. -/
theorem Placed.holds (h : Placed bs p q) (hbs : bs ≠ []) (hr : Follows p q r) : Holds r bs := by
  have hlen := length_pos_iff.mpr hbs
  have hend := h.pos
  have hsize := hr.size
  have hbyte (i : ℕ) (hi : i < bs.length) : byteAt (p.mDataPos + i) r = some bs[i] := by
    rw [hr.bytes _ (Nat.le_add_right _ _) (by omega)]
    exact (h.bytes i hi).1
  cases hmem : r.mData with
  | none => simpa [byteAt, hmem] using hbyte 0 hlen
  | some mem =>
    refine ⟨mem, hmem, ?_, ext_getElem (by simp) fun i hi hi' => ?_⟩
    · rw [hr.pos]
      omega
    · have hval := hbyte i hi'
      rw [byteAt, hmem] at hval
      simpa [Memory.load, hr.pos] using hval

theorem Placed.le_size (h : Placed bs p q) (hbs : bs ≠ []) : q.mDataPos ≤ q.mDataSize := by
  have hlen := length_pos_iff.mpr hbs
  have hend := h.pos
  have hlast := (h.bytes (bs.length - 1) (by omega)).2.1
  omega

theorem Placed.follows (h : Placed bs p q) (hbs : bs ≠ [])
    (hr : setDataPosition p.mDataPos q = some r) : Follows p q r := by
  obtain ⟨-, rfl⟩ := setDataPosition_eq_some.mp hr
  exact ⟨rfl, fun _ _ _ => rfl, h.le_size hbs⟩

namespace Clear

theorem left (h : p.Clear (m + n)) : p.Clear m := by
  intro o ho
  have := h o ho
  omega

theorem right (h : p.Clear (m + n)) (hp : Passed p m q) : q.Clear n := by
  intro o ho
  have := h o (hp.objects.mem_iff.mp ho)
  have := hp.pos
  omega

theorem add (h₁ : p.Clear m) (hp : Passed p m q) (h₂ : q.Clear n) : p.Clear (m + n) := by
  intro o ho
  have h₁ := h₁ o ho
  have h₂ := h₂ o (hp.objects.mem_iff.mpr ho)
  have := hp.pos
  have : 0 < sizeofFlatBinderObject := by decide
  omega

theorem zero (h : p.Clear n) (hp : Passed p n q) : q.Clear 0 := by
  intro o ho
  have := h o (hp.objects.mem_iff.mp ho)
  have := hp.pos
  omega

end Clear

/-! ### Scalars and blocks -/

theorem readAligned_holds (hg : Guarded p) (hh : Holds p bs) (hc : p.Clear bs.length) :
    ∃ q, Returns (readAligned bs.length) p bs q ∧ Passed p bs.length q := by
  obtain ⟨r, hr, hp⟩ := passOver_cases (n := bs.length) hg
  refine ⟨r.log [.load p.mDataPos bs.length], ?_, hp.log⟩
  rw [returns_readAligned hg]
  exact ⟨hh.le_size, hc, hh.bytesAt.symm, by rw [hr]⟩

theorem readAligned_passed (hg : Guarded p) (hr : Returns (readAligned n) p bs q) : Passed p n q ∧ p.Clear n := by
  obtain ⟨r, hr', hp⟩ := passOver_cases (n := n) hg
  obtain ⟨-, hc, -, rfl⟩ := (returns_readAligned hg).mp hr
  rw [hr']
  exact ⟨hp.log, hc⟩

theorem returns_map {f : α → β} : Returns (do return f (← x)) p b q ↔ ∃ a, Returns x p a q ∧ f a = b := by
  simp only [returns_bind, returns_pure]
  constructor
  · rintro ⟨a, r, hx, rfl, rfl⟩
    exact ⟨a, hx, rfl⟩
  · rintro ⟨a, hx, rfl⟩
    exact ⟨a, q, hx, rfl, rfl⟩

theorem returns_readInt32 : Returns readInt32 p v q ↔
    ∃ bs, Returns (readAligned 4) p bs q ∧ BitVec.ofNat 32 (leNat bs) = v := returns_map

theorem returns_map_readInt32 {f : BitVec 32 → α} {v : α} : Returns (do return f (← readInt32)) p v q ↔
      ∃ bs, Returns (readAligned 4) p bs q ∧ f (.ofNat 32 (leNat bs)) = v := by
  rw [returns_map]
  constructor
  · rintro ⟨w, hw, rfl⟩
    obtain ⟨bs, hbs, rfl⟩ := returns_readInt32.mp hw
    exact ⟨bs, hbs, rfl⟩
  · rintro ⟨bs, hbs, rfl⟩
    exact ⟨_, returns_readInt32.mpr ⟨bs, hbs, rfl⟩, rfl⟩

theorem Integral.returns_read (u : Integral) (v : u.Val) :
    Returns u.read p v q ↔ ∃ bs, Returns (readAligned u.wire.size) p bs q ∧ u.wire.decode bs = v := by
  cases u with
  | bool | int8 | uint8 | char16 => exact returns_map_readInt32
  | int32 | uint32 | int64 | uint64 => exact returns_map

theorem Scalar.returns_read (s : Scalar) (v : s.Val) :
    Returns s.read p v q ↔ ∃ bs, Returns (readAligned s.wire.size) p bs q ∧ s.wire.decode bs = v := by
  cases s with
  | integral u | enum u => exact u.returns_read v
  | float | double => exact returns_map

theorem Scalar.read_holds (s : Scalar) (v : s.Val) (hg : Guarded p) (hh : Holds p (s.wire.encode v))
    (hc : p.Clear s.wire.size) : ∃ q, Returns s.read p v q ∧ Passed p s.wire.size q := by
  have hlen := s.wire.length_encode v
  obtain ⟨q, hq, hp⟩ := readAligned_holds hg hh (by rwa [hlen])
  rw [hlen] at hq hp
  exact ⟨q, (s.returns_read v).mpr ⟨_, hq, s.wire.decode_encode v⟩, hp⟩

theorem Scalar.read_passed (s : Scalar) {v : s.Val} (hg : Guarded p) (hr : Returns s.read p v q) :
    Passed p s.wire.size q ∧ p.Clear s.wire.size := by
  obtain ⟨bs, hbs, -⟩ := (s.returns_read v).mp hr
  exact readAligned_passed hg hbs

theorem readInt32_holds (hg : Guarded p) (hh : Holds p (wordBytes v)) (hc : p.Clear 4) :
    ∃ q, Returns readInt32 p v q ∧ Passed p 4 q :=
  Scalar.read_holds (.integral .int32) v hg hh hc

theorem readInt32_passed (hg : Guarded p) (hr : Returns readInt32 p v q) : Passed p 4 q ∧ p.Clear 4 :=
  Scalar.read_passed (.integral .int32) hg hr

theorem elementsAt_succ (c : Codec α) (mem : Memory) (n : ℕ) :
    elementsAt c mem (n + 1) = c.decode (mem.load 0 c.size) :: elementsAt c (mem.shift c.size) n := by
  unfold elementsAt
  rw [range_succ_eq_map, map_cons, map_map, Nat.zero_mul]
  congr 1
  refine map_congr_left fun i _ => ?_
  simp only [Function.comp, Memory.load_shift]
  rw [Nat.succ_mul, Nat.add_comm]

theorem elementsAt_eq (c : Codec α)
    (h : mem.load 0 (vs.flatMap c.encode).length = vs.flatMap c.encode) : elementsAt c mem vs.length = vs := by
  induction vs generalizing mem with
  | nil => rfl
  | cons v vs ih =>
    rw [flatMap_cons] at h
    obtain ⟨hfirst, hrest⟩ := Memory.load_eq_append.mp h
    rw [c.length_encode] at hfirst hrest
    rw [length_cons, elementsAt_succ, hfirst, c.decode_encode]
    congr 1
    apply ih
    simpa using hrest

theorem readInplace_holds (hr : Readable p) (hh : Holds p (padded bs))
    (hc : p.Clear (padded bs).length) : ∃ mem q, Returns (readInplace bs.length) p (some mem) q ∧
      Passed p (padded bs).length q ∧ mem.load 0 bs.length = bs := by
  rw [length_padded] at hc
  obtain ⟨r, hpass, hp⟩ := passOver_cases (n := padSize bs.length) hr.toGuarded
  obtain ⟨mem, hmem, hsize, hload⟩ := id hh
  rw [length_padded] at hsize
  have hle := le_padSize bs.length
  have hmax := hr.size
  refine ⟨mem.shift p.mDataPos, r.log [.load p.mDataPos bs.length], ?_, ?_, ?_⟩
  · rw [returns_readInplace hr.toGuarded]
    exact ⟨by omega, hsize, hc, ⟨mem, hmem, rfl⟩, by rw [hpass]⟩
  · rw [length_padded]
    exact hp.log
  · rw [Memory.load_shift]
    exact (Memory.load_eq_append.mp hload).1

theorem readInplace_passed (hg : Guarded p)
    (hr : Returns (readInplace len) p (some mem) q) : Passed p (padSize len) q ∧ p.Clear (padSize len) := by
  obtain ⟨r, hpass, hp⟩ := passOver_cases (n := padSize len) hg
  obtain ⟨-, -, hc, -, rfl⟩ := (returns_readInplace hg).mp hr
  rw [hpass]
  exact ⟨hp.log, hc⟩

theorem readBlock_holds (hr : Readable p)
    (hh : Holds p (padded (vs.flatMap c.encode))) (hc : p.Clear (padded (vs.flatMap c.encode)).length) :
    ∃ q, Returns (readBlock c vs.length) p ⟨vs, rfl⟩ q ∧ Passed p (padded (vs.flatMap c.encode)).length q := by
  obtain ⟨mem, q, hq, hp, hload⟩ := readInplace_holds hr hh hc
  rw [c.length_flatMap_encode] at hq
  refine ⟨q, ?_, hp⟩
  unfold readBlock
  rw [returns_bind]
  refine ⟨some mem, q, hq, ?_⟩
  rw [returns_pure]
  exact ⟨Subtype.ext (elementsAt_eq c hload), rfl⟩

theorem readBlock_passed {vs : { vs : List α // vs.length = n }} (hg : Guarded p)
    (hr : Returns (readBlock c n) p vs q) : Passed p (padded (vs.val.flatMap c.encode)).length q ∧
      p.Clear (padded (vs.val.flatMap c.encode)).length := by
  unfold readBlock at hr
  rw [returns_bind] at hr
  obtain ⟨_ | mem, r, hread, hrest⟩ := hr
  · simp at hrest
  · obtain ⟨-, rfl⟩ := returns_pure.mp hrest
    rw [length_padded, c.length_flatMap_encode, vs.property]
    exact readInplace_passed hg hread

/-! ### Strings -/

def ClearFrom (p : Parcel) (m n : ℕ) : Prop :=
  ∀ o ∈ p.mObjects, o + sizeofFlatBinderObject ≤ p.mDataPos + m ∨ p.mDataPos + n ≤ o

theorem Clear.clearFrom (h : p.Clear n) : p.ClearFrom m n := fun o ho => by
  have := h o ho
  omega

theorem ClearFrom.clear (h : p.ClearFrom m n) (h₀ : p.Clear 0) (hm : m < sizeofFlatBinderObject) :
    p.Clear n := fun o ho => by
  have := h o ho
  have := h₀ o ho
  omega

theorem fails_readInt32 (hg : Guarded p) {e : Status} : Fails readInt32 p e q ↔
    p.mDataSize < p.mDataPos + 4 ∧ e = .notEnoughData ∧ q = p ∨
      p.mDataPos + 4 ≤ p.mDataSize ∧ ¬ p.Clear 4 ∧ e = .permissionDenied ∧ q = (passOver 4 p).2 := by
  obtain ⟨r, hr, -⟩ := passOver_cases (n := 4) hg
  have hfun : Fails readInt32 p e q ↔ Fails (readAligned 4) p e q := by
    simp only [readInt32, fails_bind, not_fails_pure, and_false, exists_false, or_false]
  rw [hfun, readAligned, fails_ofFun]
  by_cases hn : p.mDataPos + 4 ≤ p.mDataSize
  · by_cases hc : p.Clear 4
    · simp [hn, hr, hc]
    · simp [hn, hr, hc, eq_comm]
  · simp [hn, eq_comm]
    omega

theorem returns_readInt32OrZero : Returns readInt32OrZero p v q ↔
    Returns readInt32 p v q ∨ v = 0 ∧ ∃ e, Fails readInt32 p e q := by
  rw [readInt32OrZero, returns_tryCatch]
  simp only [returns_pure]
  constructor
  · rintro (h | ⟨e, r, h, rfl, rfl⟩)
    · exact .inl h
    · exact .inr ⟨rfl, e, h⟩
  · rintro (h | ⟨rfl, e, h⟩)
    · exact .inl h
    · exact .inr ⟨e, q, h, rfl, rfl⟩

/-- A length of 0 is found also where an object lies. -/
theorem readInt32OrZero_holds (hg : Guarded p) (hh : Holds p (wordBytes v))
    (hc : p.Clear 4 ∨ v = 0) : ∃ q, Returns readInt32OrZero p v q ∧ Passed p 4 q := by
  simp only [returns_readInt32OrZero]
  by_cases hc' : p.Clear 4
  · obtain ⟨q, hq, hp⟩ := readInt32_holds hg hh hc'
    exact ⟨q, .inl hq, hp⟩
  · obtain ⟨r, hr, hp⟩ := passOver_cases (n := 4) hg
    have hsize : p.mDataPos + 4 ≤ p.mDataSize := by simpa [wordBytes] using hh.le_size
    have hfail : Fails readInt32 p .permissionDenied r := by
      rw [fails_readInt32 hg]
      exact .inr ⟨hsize, hc', rfl, by rw [hr]⟩
    exact ⟨r, .inr ⟨hc.resolve_left hc', .permissionDenied, hfail⟩, hp⟩

theorem toNat_ofNat_of_le (h : len ≤ int32Max) : (BitVec.ofNat 32 len).toNat = len := by
  have hmax : int32Max = 2 ^ 31 - 1 := rfl
  exact Nat.mod_eq_of_lt (by omega)

theorem toInt_ofNat_of_le (h : len ≤ int32Max) : (BitVec.ofNat 32 len).toInt = len := by
  have hmax : int32Max = 2 ^ 31 - 1 := rfl
  have hlen := toNat_ofNat_of_le h
  rw [BitVec.toInt_eq_toNat_of_lt (by omega), hlen]

def stringBytes (units : List (BitVec 16)) : List UInt8 := (stringChunks units).flatten

theorem stringBytes_eq (units : List (BitVec 16)) : stringBytes units =
    wordBytes (.ofNat 32 units.length) ++ padded (char16Bytes units ++ [0, 0]) := by
  simp [stringBytes, stringChunks]

theorem length_stringBytes (units : List (BitVec 16)) :
    (stringBytes units).length = 4 + padSize ((units.length + 1) * 2) := by
  have hlen : (char16Bytes units ++ [0, 0]).length = (units.length + 1) * 2 := by
    simp
    ring
  rw [stringBytes_eq, length_append, length_padded, hlen]
  simp [wordBytes]

theorem leBytes_charAt (mem : Memory) (n : ℕ) : leBytes 2 (charAt mem n).toNat = mem.load (n * 2) 2 := by
  have hlt := leNat_lt (mem.load (n * 2) 2)
  have hbytes := leBytes_leNat (mem.load (n * 2) 2)
  rw [Memory.length_load] at hlt
  rwa [Memory.length_load, ← Nat.mod_eq_of_lt hlt, show 256 ^ 2 = 2 ^ 16 from rfl, ← BitVec.toNat_ofNat] at hbytes

theorem load_chars (mem : Memory) (n : ℕ) : mem.load 0 (n * 2) = char16Bytes ((List.range n).map (charAt mem)) := by
  induction n with
  | zero => rfl
  | succ n ih =>
    rw [Nat.succ_mul, Memory.load_add, ih, range_succ, map_append, Nat.zero_add]
    simp [char16Bytes, leBytes_charAt]

/-- What `readString16Inplace` does with the length word. -/
theorem returns_readString16Inplace :
    Returns readString16Inplace p (some (mem, len)) q ↔ ∃ v r, Returns readInt32OrZero p v r ∧ v.toNat = len ∧
      len < int32Max ∧ Returns (readInplace ((len + 1) * 2)) r (some mem) q ∧ charAt mem len = 0 := by
  have hbounds (v : BitVec 32) : 0 ≤ v.toInt ∧ v.toInt < int32Max ↔ v.toNat < int32Max := by
    unfold int32Max
    rw [BitVec.toInt_eq_toNat_cond]
    split_ifs <;> omega
  unfold readString16Inplace
  simp only [returns_bind, hbounds]
  constructor
  · rintro ⟨v, r, hword, hrest⟩
    split_ifs at hrest with hlt
    · obtain ⟨_ | mem', r', hread, hrest⟩ := returns_bind.mp hrest
      · simp at hrest
      · dsimp only at hrest
        split_ifs at hrest with hnull
        · obtain ⟨heq, rfl⟩ := returns_pure.mp hrest
          obtain ⟨rfl, rfl⟩ : mem' = mem ∧ v.toNat = len := by simpa using heq
          exact ⟨v, r, hword, rfl, hlt, hread, hnull⟩
        · simp at hrest
    · simp at hrest
  · rintro ⟨v, r, hword, rfl, hlt, hread, hnull⟩
    refine ⟨v, r, hword, ?_⟩
    rw [if_pos hlt, returns_bind]
    exact ⟨some mem, q, hread, by simp [hnull]⟩

theorem load_terminated {str : List (BitVec 16)} {n : ℕ} : mem.load 0 ((n + 1) * 2) = char16Bytes str ++ [0, 0] ∧ str.length = n ↔
    (List.range n).map (charAt mem) = str ∧ charAt mem n = 0 := by
  have hsplit : mem.load 0 ((n + 1) * 2) = mem.load 0 (n * 2) ++ mem.load (n * 2) 2 := by
    rw [Nat.succ_mul, Memory.load_add, Nat.zero_add]
  have hnull : charAt mem n = 0 ↔ mem.load (n * 2) 2 = [0, 0] := by
    constructor
    · intro h
      rw [← leBytes_charAt, h]
      rfl
    · intro h
      simp [charAt, h, leNat]
  rw [hsplit]
  constructor
  · rintro ⟨h, rfl⟩
    obtain ⟨hchars, hlast⟩ := append_inj h (by simp [Nat.mul_comm])
    refine ⟨?_, hnull.mpr hlast⟩
    have hlen : (char16Bytes str).length = str.length * 2 := by simp [Nat.mul_comm]
    exact elementsAt_eq (Codec.word 16 2 (by decide)) (hlen ▸ hchars)
  · rintro ⟨rfl, h⟩
    rw [load_chars, hnull.mp h]
    exact ⟨rfl, by simp⟩

/-- The bytes in front of which an object may end when a string is read. -/
def leeway (units : List (BitVec 16)) : ℕ := if units = [] then 4 else 0

theorem readString16Inplace_holds (hr : Readable p) (hh : Holds p (stringBytes units))
    (hc : p.ClearFrom (leeway units) (stringBytes units).length) :
    ∃ str q, Returns readString16Inplace p (some (str, units.length)) q ∧
      Passed p (stringBytes units).length q ∧ (List.range units.length).map (charAt str) = units := by
  have hlen : (char16Bytes units ++ [0, 0]).length = (units.length + 1) * 2 := by
    simp
    ring
  have hsize := hh.le_size
  have hmax := hr.size
  have hpad := le_padSize ((units.length + 1) * 2)
  rw [length_stringBytes] at hc hsize ⊢
  have hunits : units.length < int32Max := by omega
  rw [stringBytes_eq] at hh
  have hword : (wordBytes (.ofNat 32 units.length)).length = 4 := by simp [wordBytes]
  have hfirst : p.Clear 4 ∨ BitVec.ofNat 32 units.length = 0 := by
    by_cases hnil : units = []
    · exact .inr (by simp [hnil])
    · left
      intro o ho
      have := hc o ho
      rw [leeway, if_neg hnil] at this
      omega
  obtain ⟨r, hread, hp⟩ := readInt32OrZero_holds hr.toGuarded hh.left hfirst
  have hhr : Holds r (padded (char16Bytes units ++ [0, 0])) := hh.right (by rwa [hword])
  have hcr : r.Clear (padded (char16Bytes units ++ [0, 0])).length := by
    intro o ho
    have := hc o (hp.objects.mem_iff.mp ho)
    have hle : leeway units ≤ 4 := by
      unfold leeway
      split <;> omega
    rw [hp.pos, length_padded, hlen]
    omega
  obtain ⟨str, q, hq, hpq, hload⟩ := readInplace_holds (hr.after hp) hhr hcr
  rw [length_padded, hlen] at hpq
  rw [hlen] at hq
  obtain ⟨hchars, hnull⟩ := load_terminated.mp ⟨hlen ▸ hload, rfl⟩
  refine ⟨str, q, returns_readString16Inplace.mpr ⟨_, r, hread, ?_, hunits, hq, hnull⟩, hp.trans hpq, hchars⟩
  exact toNat_ofNat_of_le hunits.le

/-- The `len` bytes behind a length word. The word itself can be an object only if it reads as 0. -/
theorem readInplace_sized {size : BitVec 32} (hg : Guarded p)
    (hsize : Returns readInt32OrZero p size r) (hread : Returns (readInplace len) r (some mem) q) (hlen : 0 < len) :
    Passed p (4 + padSize len) q ∧ p.ClearFrom (if size = 0 then 4 else 0) (4 + padSize len) := by
  rcases returns_readInt32OrZero.mp hsize with hint | ⟨rfl, e, hfail⟩
  · obtain ⟨hp, hc⟩ := readInt32_passed hg hint
    obtain ⟨hp', hc'⟩ := readInplace_passed hp.guarded hread
    exact ⟨hp.trans hp', (hc.add hp hc').clearFrom⟩
  · rcases (fails_readInt32 hg).mp hfail with ⟨hshort, -, rfl⟩ | ⟨-, -, -, rfl⟩
    · -- where the length is missing, so are the bytes
      obtain ⟨-, hroom, -⟩ := (returns_readInplace hg).mp hread
      have hpad : 4 ≤ padSize len := by
        unfold padSize
        omega
      omega
    · obtain ⟨r, hr, hp⟩ := passOver_cases (n := 4) hg
      rw [hr] at hread
      obtain ⟨hp', hc'⟩ := readInplace_passed hp.guarded hread
      refine ⟨hp.trans hp', fun o ho => ?_⟩
      have hno := hc' o (hp.objects.mem_iff.mpr ho)
      rw [hp.pos] at hno
      rw [← Nat.add_assoc]
      exact hno

theorem readString16Inplace_passed (hg : Guarded p) (hr : Returns readString16Inplace p (some (str, len)) q) :
    Passed p (4 + padSize ((len + 1) * 2)) q ∧
      p.ClearFrom (if len = 0 then 4 else 0) (4 + padSize ((len + 1) * 2)) := by
  obtain ⟨size, r, hsize, rfl, -, hread, -⟩ := returns_readString16Inplace.mp hr
  have hzero : size.toNat = 0 ↔ size = 0 := ⟨fun h => BitVec.eq_of_toNat_eq h, fun h => by rw [h]; rfl⟩
  simp only [hzero]
  exact readInplace_sized hg hsize hread (by omega)

theorem readString8Inplace_passed (hg : Guarded p) (hr : Returns readString8Inplace p (some (str, len)) q) :
    Passed p (4 + padSize (len + 1)) q ∧ p.ClearFrom (if len = 0 then 4 else 0) (4 + padSize (len + 1)) := by
  unfold readString8Inplace at hr
  rw [returns_bind] at hr
  obtain ⟨size, r, hsize, hrest⟩ := hr
  split_ifs at hrest with hbounds
  · rw [returns_bind] at hrest
    obtain ⟨_ | mem, r', hread, hrest⟩ := hrest
    · simp at hrest
    dsimp only at hrest
    split_ifs at hrest with hnull
    · obtain ⟨heq, rfl⟩ := returns_pure.mp hrest
      obtain ⟨rfl, rfl⟩ : mem = str ∧ size.toNat = len := by simpa using heq
      have hzero : size.toNat = 0 ↔ size = 0 := ⟨fun h => BitVec.eq_of_toNat_eq h, fun h => by rw [h]; rfl⟩
      simp only [hzero]
      exact readInplace_sized hg hsize hread (by omega)
    · simp at hrest
  · simp at hrest

theorem readString16_holds (hr : Readable p) (hh : Holds p (stringBytes units))
    (hc : p.ClearFrom (leeway units) (stringBytes units).length) :
    ∃ q, Returns readString16 p units q ∧ Passed p (stringBytes units).length q := by
  obtain ⟨str, q, hq, hp, hchars⟩ := readString16Inplace_holds hr hh hc
  refine ⟨q, ?_, hp⟩
  unfold readString16
  rw [returns_bind]
  exact ⟨_, q, hq, returns_pure.mpr ⟨hchars, rfl⟩⟩

theorem readString16_passed (hg : Guarded p) (hr : Returns readString16 p units q) :
    Passed p (stringBytes units).length q ∧ p.ClearFrom (leeway units) (stringBytes units).length := by
  unfold readString16 at hr
  rw [returns_bind] at hr
  obtain ⟨_ | ⟨str, len⟩, r, hread, hrest⟩ := hr
  · simp at hrest
  · obtain ⟨rfl, rfl⟩ := returns_pure.mp hrest
    have hleeway : leeway ((List.range len).map (charAt str)) = if len = 0 then 4 else 0 := by
      simp [leeway]
    rw [length_stringBytes, hleeway, length_map, length_range]
    exact readString16Inplace_passed hg hread

/-! ### The reader -/

/-- Where the bytes stand and are clear of objects, `x` gives the value and passes over them. -/
def Reads {α : Type} (x : Read α) (bs : List UInt8) (v : α) : Prop := ∀ p, Readable p → Holds p bs →
  p.Clear bs.length → ∃ q, Returns x p v q ∧ Passed p bs.length q

theorem reads_pure (a : α) : Reads (pure a) [] a :=
  fun p hr _ _ => ⟨p, returns_pure.mpr ⟨rfl, rfl⟩, .refl hr.toGuarded⟩

theorem Reads.bind {f : α → Read β} (h : Reads x bs a) (hf : Reads (f a) cs b) : Reads (x >>= f) (bs ++ cs) b := by
  intro p hr hh hc
  rw [length_append] at hc ⊢
  obtain ⟨r, hread, hp⟩ := h p hr hh.left hc.left
  obtain ⟨q, hrest, hp'⟩ := hf r (hr.after hp) (hh.right hp) (hc.right hp)
  exact ⟨q, returns_bind.mpr ⟨a, r, hread, hrest⟩, hp.trans hp'⟩

theorem Reads.map (h : Reads x bs a) (f : α → β) : Reads (do return f (← x)) bs (f a) := by
  have hbind := h.bind (f := fun a => (pure (f a) : Read β)) (reads_pure (f a))
  rwa [append_nil] at hbind

theorem reads_readInt32 (v : BitVec 32) : Reads readInt32 (wordBytes v) v := fun p hr hh hc => by
  have hlen := length_wordBytes v
  rw [hlen] at hc ⊢
  exact readInt32_holds hr.toGuarded hh hc

theorem reads_readInt32OrZero (v : BitVec 32) : Reads readInt32OrZero (wordBytes v) v := fun p hr hh hc => by
  have hlen := length_wordBytes v
  rw [hlen] at hc ⊢
  exact readInt32OrZero_holds hr.toGuarded hh (.inl hc)

theorem reads_readString16 (units : List (BitVec 16)) : Reads readString16 (stringBytes units) units :=
  fun _ hr hh hc => readString16_holds hr hh hc.clearFrom

theorem times_holds (hx : ∀ v p, Readable p → Holds p (enc v) → p.Clear (enc v).length →
      ∃ q, Returns x p v q ∧ Passed p (enc v).length q)
    (vs : List α) (hr : Readable p) (hh : Holds p (vs.flatMap enc)) (hc : p.Clear (vs.flatMap enc).length) :
    ∃ q, Returns (times x vs.length) p ⟨vs, rfl⟩ q ∧ Passed p (vs.flatMap enc).length q := by
  induction vs generalizing p with
  | nil => exact ⟨p, returns_times_zero.mpr rfl, .refl hr.toGuarded⟩
  | cons v vs ih =>
    rw [flatMap_cons, length_append] at hc ⊢
    obtain ⟨r, hread, hp⟩ := hx v p hr hh.left hc.left
    obtain ⟨q, hrest, hp'⟩ := ih (hr.after hp) (hh.right hp) (hc.right hp)
    exact ⟨q, returns_times_succ.mpr ⟨v, r, ⟨vs, rfl⟩, rfl, hread, hrest⟩, hp.trans hp'⟩

theorem times_passed
    (hx : ∀ v p q, Readable p → p.Clear 0 → Returns x p v q → Passed p (enc v).length q ∧ p.Clear (enc v).length)
    {vs : { vs : List α // vs.length = n }} (hg : Readable p) (hc : p.Clear 0) (hr : Returns (times x n) p vs q) :
    Passed p (vs.val.flatMap enc).length q ∧ p.Clear (vs.val.flatMap enc).length := by
  induction n generalizing p with
  | zero =>
    obtain ⟨vs, hvs⟩ := vs
    cases eq_nil_of_length_eq_zero hvs
    cases returns_times_zero.mp hr
    exact ⟨.refl hg.toGuarded, hc⟩
  | succ n ih =>
    obtain ⟨v, r, rest, heq, hread, hrest⟩ := returns_times_succ.mp hr
    obtain ⟨hp, hc₁⟩ := hx v p r hg hc hread
    obtain ⟨hp', hc₂⟩ := ih (hg.after hp) (hc₁.zero hp) hrest
    rw [heq, flatMap_cons, length_append]
    exact ⟨hp.trans hp', hc₁.add hp hc₂⟩

end Binder.Parcel
