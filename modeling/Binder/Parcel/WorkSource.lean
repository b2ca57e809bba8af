import Binder.Parcel.Composite
import Binder.Parcel.Frame
import Binder.Parcel.Protect

/-! The header of a request, and the user id in it on whose behalf the work is done. -/
namespace Binder.Parcel
open Binder.Lib Fallible List

/-- `B_PACK_CHARS('S', 'Y', 'S', 'T')`. -/
def kHeader : BitVec 32 := 0x53595354

def strictModePenaltyGather : BitVec 32 := 0x80000000

def kUnsetWorkSource : BitVec 32 := -1

/-- The value that `readInt32()` returns; `none` where the process aborts. -/
def readWord (p : Parcel) : Option (BitVec 32 × Parcel) :=
  match readInt32OrZero.run.run p with
  | some (.ok v, q) => some (v, q)
  | some (.error _, _) | none => none

/-- A parcel with the fields for the header of a request. `headers` are the offsets of the work source in the headers
that were written or read since the data was reset, and that no other operation has touched. -/
structure Headed where
  parcel : Parcel := {}
  mRequestHeaderPresent : Bool := false
  mWorkSourceRequestHeaderPosition : ℕ := 0
  headers : List ℕ := []

namespace Headed

def updateWorkSourceRequestHeaderPosition (s : Headed) : Headed :=
  if !s.mRequestHeaderPresent then
    { s with mWorkSourceRequestHeaderPosition := s.parcel.mDataPos, mRequestHeaderPresent := true }
  else s

/-- The policy and the work source are those of the calling thread. -/
def writeInterfaceToken (env : Env) (policy workSource : BitVec 32) (str : List (BitVec 16)) (s : Headed) :
    Status × Headed :=
  let s :=
    if s.parcel.mSession.isNone then
      -- the statuses of these writes are dropped
      let s := { s with parcel := (writeInt32 env (policy ||| strictModePenaltyGather) s.parcel).2 }
      let s := s.updateWorkSourceRequestHeaderPosition
      let s := { s with parcel := (writeInt32 env workSource s.parcel).2 }
      { s with parcel := (writeInt32 env kHeader s.parcel).2 }
    else s
  let r := writeString16 env str s.parcel
  (r.1, { s with parcel := r.2 })

def replaceCallingWorkSourceUid (env : Env) (uid : BitVec 32) (s : Headed) : Option (Bool × Headed) :=
  if !s.mRequestHeaderPresent then some (false, s)
  else
    let initialPosition := s.parcel.mDataPos
    (setDataPosition s.mWorkSourceRequestHeaderPosition s.parcel).bind fun p =>
      let r := writeInt32 env uid p
      (setDataPosition initialPosition r.2).map fun p => (r.1 = .ok, { s with parcel := p })

def readCallingWorkSourceUid (s : Headed) : Option (BitVec 32 × Headed) :=
  if !s.mRequestHeaderPresent then some (kUnsetWorkSource, s)
  else
    let initialPosition := s.parcel.mDataPos
    (setDataPosition s.mWorkSourceRequestHeaderPosition s.parcel).bind fun p =>
      (readWord p).bind fun (uid, p) =>
        (setDataPosition initialPosition p).map fun p => (uid, { s with parcel := p })

/-- Whether the descriptor at the position is `interface`. -/
def checkDescriptor (interface : List (BitVec 16)) (s : Headed) : Option (Bool × Headed) :=
  match readString16Inplace.run.run s.parcel with
  | some (.ok none, p) => some (interface = [], { s with parcel := p })
  | some (.ok (some (str, len)), p) => some ((List.range len).map (charAt str) = interface, { s with parcel := p })
  | some (.error _, _) | none => none

/-- `none` where the process aborts. What the thread learns from the header is left out. -/
def enforceInterface (interface : List (BitVec 16)) (s : Headed) : Option (Bool × Headed) :=
  if s.parcel.mSession.isNone then
    (readWord s.parcel).bind fun (_, p) =>
      let s := { s with parcel := p }.updateWorkSourceRequestHeaderPosition
      (readWord p).bind fun (_, p) => (readWord p).bind fun (header, p) =>
        if header ≠ kHeader then some (false, { s with parcel := p })
        else checkDescriptor interface { s with parcel := p }
  else checkDescriptor interface s

end Headed

/-! ### Headers in the data -/

/-- None of the twelve bytes of the header whose work source is at `h` is touched. -/
def Misses (touches : ℕ → Prop) (h : ℕ) : Prop := ∀ k < 12, ¬ touches (h - 4 + k)

instance (touches : ℕ → Prop) [DecidablePred touches] (h : ℕ) : Decidable (Misses touches h) :=
  inferInstanceAs (Decidable (∀ k < 12, _))

/-- A header with its work source at `h` is in the data, and no object lies over it. -/
def Whole (h : ℕ) (p : Parcel) : Prop :=
  4 ≤ h ∧ h + 8 ≤ p.mDataSize ∧ h + 8 ≤ p.mDataCapacity ∧ p.bytesAt (h + 4) 4 = wordBytes kHeader ∧
    ∀ off ∈ p.mObjects, Misses (Covers off) h
deriving Decidable

def WordTouches (env : Env) (p : Parcel) (i : ℕ) : Prop := RoomFor env 4 p ∧ Ahead 4 p i
deriving Decidable

def StringTouches (env : Env) (str : List (BitVec 16)) (p : Parcel) (i : ℕ) : Prop :=
  WordTouches env p i ∨ (writeInt32 env (.ofNat 32 str.length) p).1 = .ok ∧
    Op.Touches (writeInt32 env (.ofNat 32 str.length) p).2 i (.writeInplace env (str.length * 2 + 2))
deriving Decidable

section Token

variable (env : Env) (policy workSource : BitVec 32) (str : List (BitVec 16)) (p : Parcel)

/-- The parcel between the writes of `writeInterfaceToken`; a term that unfolds into all of them is too large. -/
@[irreducible] def afterPolicy : Parcel := (writeInt32 env (policy ||| strictModePenaltyGather) p).2

@[irreducible] def afterSource : Parcel := (writeInt32 env workSource (afterPolicy env policy p)).2

@[irreducible] def afterHeader : Parcel := (writeInt32 env kHeader (afterSource env policy workSource p)).2

def TokenTouches (i : ℕ) : Prop :=
  if p.mSession.isNone then
    WordTouches env p i ∨ WordTouches env (afterPolicy env policy p) i ∨
      WordTouches env (afterSource env policy workSource p) i ∨
      StringTouches env str (afterHeader env policy workSource p) i
  else StringTouches env str p i
deriving Decidable

/-- The three words of a header come to stand one behind the other in the data, apart from the objects. -/
def Lands : Prop :=
  p.mSession.isNone ∧ RoomFor env 4 p ∧ (Reaches 4 p ∨ p.mOwner = false ∧ p.mData.isNone ∧ ¬ Fits 4 p) ∧
    RoomFor env 4 (afterPolicy env policy p) ∧ Reaches 4 (afterPolicy env policy p) ∧
    RoomFor env 4 (afterSource env policy workSource p) ∧ Reaches 4 (afterSource env policy workSource p) ∧
    ∀ off ∈ p.mObjects, Misses (Covers off) (afterPolicy env policy p).mDataPos
deriving Decidable

end Token

namespace Headed

/-! ### Runs -/

inductive Act
  | action (a : Action)
  | ipcSetDataReference (data : Memory) (dataSize : ℕ) (objects : List ℕ)
  | writeInterfaceToken (env : Env) (policy workSource : BitVec 32) (str : List (BitVec 16))
  | enforceInterface (interface : List (BitVec 16))
  | replaceCallingWorkSourceUid (env : Env) (uid : BitVec 32)
  | readCallingWorkSourceUid

/-- The operation calls `initState`, which resets the fields for the header. -/
def resets (p : Parcel) : Action → Bool
  | .op (.setDataSize _ size) => p.mOwner && size = 0
  | .op (.setData _ _ len) => p.mOwner && len ≤ int32Max
  | .freeData => true
  | _ => false

/-- The header at the position, if `enforceInterface` finds one. -/
def found (p : Parcel) : List ℕ := if p.mSession.isNone ∧ Whole (p.mDataPos + 4) p then [p.mDataPos + 4] else []

def written (env : Env) (policy workSource : BitVec 32) (p : Parcel) : List ℕ :=
  if Lands env policy workSource p then [(afterPolicy env policy p).mDataPos] else []

def ReplaceTouches (s : Headed) (i : ℕ) : Prop :=
  s.mWorkSourceRequestHeaderPosition ≤ i ∧ i < s.mWorkSourceRequestHeaderPosition + 4
deriving Decidable

def step (s : Headed) : Act → Option Headed
  | .action a => (a.run s.parcel).map fun q =>
    { parcel := q
      mRequestHeaderPresent := !resets s.parcel a && s.mRequestHeaderPresent
      mWorkSourceRequestHeaderPosition := if resets s.parcel a then 0 else s.mWorkSourceRequestHeaderPosition
      headers := s.headers.filter fun h => Misses (fun i => a.Touches s.parcel i) h }
  | .ipcSetDataReference data dataSize objects => some { parcel := s.parcel.ipcSetDataReference data dataSize objects }
  | .writeInterfaceToken env policy workSource str =>
    some { (s.writeInterfaceToken env policy workSource str).2 with
      headers := written env policy workSource s.parcel ++
        s.headers.filter fun h => Misses (TokenTouches env policy workSource str s.parcel) h }
  | .enforceInterface interface =>
    (s.enforceInterface interface).map fun r => { r.2 with headers := found s.parcel ++ s.headers }
  | .replaceCallingWorkSourceUid env uid => (s.replaceCallingWorkSourceUid env uid).map fun r =>
    { r.2 with
      headers := s.headers.filter fun h => h = s.mWorkSourceRequestHeaderPosition ∨ Misses s.ReplaceTouches h }
  | .readCallingWorkSourceUid => s.readCallingWorkSourceUid.map Prod.snd

/-- A header that is pointed at is left alone or written anew, and where none is pointed at a new one is found or
written whole. -/
def Keeps (s : Headed) : Act → Prop
  | .action a => s.mRequestHeaderPresent = true → resets s.parcel a = true ∨
    Misses (fun i => a.Touches s.parcel i) s.mWorkSourceRequestHeaderPosition
  | .writeInterfaceToken env policy workSource str =>
    if s.mRequestHeaderPresent then
      Misses (TokenTouches env policy workSource str s.parcel) s.mWorkSourceRequestHeaderPosition ∨
        s.mWorkSourceRequestHeaderPosition ∈ written env policy workSource s.parcel
    else s.parcel.mSession.isNone → Lands env policy workSource s.parcel
  | .enforceInterface _ => s.mRequestHeaderPresent = false → s.parcel.mSession.isNone →
    Whole (s.parcel.mDataPos + 4) s.parcel
  | .ipcSetDataReference .. | .replaceCallingWorkSourceUid .. | .readCallingWorkSourceUid => True

instance (s : Headed) : (a : Act) → Decidable (s.Keeps a)
  | .action _ => inferInstanceAs (Decidable (_ → _ ∨ _))
  | .writeInterfaceToken .. => inferInstanceAs (Decidable (@ite _ _ _ _ _))
  | .enforceInterface _ => inferInstanceAs (Decidable (_ → _ → _))
  | .ipcSetDataReference .. | .replaceCallingWorkSourceUid .. | .readCallingWorkSourceUid =>
    .isTrue trivial

/-- The header that is pointed at is one of those in the data. -/
structure Sound (s : Headed) : Prop where
  whole : ∀ h ∈ s.headers, Whole h s.parcel
  present : s.mRequestHeaderPresent = true → s.mWorkSourceRequestHeaderPosition ∈ s.headers

end Headed

/-! ### Headers that are left alone -/

variable {p q r : Parcel} {env : Env} {x i : ℕ} {b : UInt8}

theorem Whole.plain {k : ℕ} (h : Whole x p) (hk : k < 12) : ∃ b, PlainByte (x - 4 + k) b p := by
  obtain ⟨hfour, hsize, hcap, hbytes, hapart⟩ := h
  cases hmem : p.mData with
  | none => simp [bytesAt, hmem, wordBytes, leBytes] at hbytes
  | some mem =>
    have hin : InData (x - 4 + k) p := ⟨by omega, fun _ => by omega⟩
    exact ⟨mem (x - 4 + k), ⟨by simp [byteAt, hmem], hin⟩, fun off hoff => hapart off hoff k hk⟩

variable {n : ℕ} {I : Parcel → Prop} {v : BitVec 32}

theorem bytesAt_eq_of_byteAt {off : ℕ} (hsome : p.mData.isSome) (h : ∀ j < n, byteAt (off + j) q = byteAt (off + j) p)
    (hq : q.mData.isSome) : q.bytesAt off n = p.bytesAt off n := by
  obtain ⟨mem, hmem⟩ := Option.isSome_iff_exists.mp hsome
  obtain ⟨mem', hmem'⟩ := Option.isSome_iff_exists.mp hq
  simp only [bytesAt, hmem, hmem', Option.elim_some]
  refine Memory.load_congr fun j hj => ?_
  simpa [byteAt, hmem, hmem'] using h j hj

theorem Whole.kept (h : Whole x p) (hkept : ∀ k < 12, ∀ b, PlainByte (x - 4 + k) b p → PlainByte (x - 4 + k) b q) :
    Whole x q := by
  have hplain {k : ℕ} (hk : k < 12) : ∃ b, PlainByte (x - 4 + k) b p ∧ PlainByte (x - 4 + k) b q := by
    obtain ⟨b, hb⟩ := h.plain hk
    exact ⟨b, hb, hkept k hk b hb⟩
  obtain ⟨b, hlast, hlast'⟩ := hplain (show 11 < 12 by decide)
  have hsize := hlast'.inData.1
  have hcap := hlast'.lt_capacity
  obtain ⟨hfour, -, -, hbytes, -⟩ := h
  refine ⟨hfour, by omega, by omega, ?_, fun off hoff k hk => ?_⟩
  · rw [← hbytes]
    refine bytesAt_eq_of_byteAt hlast.isSome (fun j hj => ?_) hlast'.isSome
    obtain ⟨c, hc, hc'⟩ := hplain (show 8 + j < 12 by omega)
    rw [show x + 4 + j = x - 4 + (8 + j) by omega, hc.byte, hc'.byte]
  · obtain ⟨c, -, hc'⟩ := hplain hk
    exact hc'.apart off hoff

theorem ByteIn.writeInt32 (h : ByteIn i b p) (v : BitVec 32) (hi : ¬ WordTouches env p i) :
    ByteIn i b (writeInt32 env v p).2 := by
  have hlen : (leBytes 4 v.toNat).length = 4 := by simp
  refine h.writeAligned (by rw [hlen]; decide) ?_
  exact hi

theorem ByteIn.fill {pieces : List (List UInt8)} {onNull : OnNull} (h : ByteIn i b p)
    (hi : ¬ Op.Touches p i (.writeInplace env pieces.flatten.length)) : ByteIn i b (fill env pieces onNull p).2 := by
  by_cases hahead : Ahead (padSize pieces.flatten.length) p i
  · obtain ⟨hnone, hplain⟩ := h.writeInplace_none hahead hi
    unfold Parcel.fill
    cases hw : Parcel.writeInplace env pieces.flatten.length p with
    | mk =>
      rw [hw] at hnone hplain
      cases hnone
      exact hplain
  · exact h.written (fill_written env pieces onNull p) hahead

/-- A string is written by two plain writes. -/
theorem writeString16_parts (env : Env) (str : List (BitVec 16)) (p : Parcel) :
    (writeString16 env str p).2 = (writeInt32 env (.ofNat 32 str.length) p).2 ∨
      (writeInt32 env (.ofNat 32 str.length) p).1 = .ok ∧ (writeString16 env str p).2 =
        (fill env [char16Bytes str, [0, 0]] .sticky (writeInt32 env (.ofNat 32 str.length) p).2).2 := by
  rw [← Request.run_string16, Request.string16]
  cases hw : writeInt32 env (.ofNat 32 str.length) p with
  | mk st q =>
    by_cases hst : st = .ok
    · subst hst
      rw [Request.run_seq_of_ok hw]
      exact .inr ⟨rfl, rfl⟩
    · rw [Request.run_seq_of_ne hw hst]
      exact .inl rfl

theorem ByteIn.writeString16 {str : List (BitVec 16)} (h : ByteIn i b p) (hi : ¬ StringTouches env str p i) :
    ByteIn i b (writeString16 env str p).2 := by
  obtain ⟨hword, hblock⟩ := not_or.mp hi
  have hlen : [char16Bytes str, [0, 0]].flatten.length = str.length * 2 + 2 := by simp
  have hfirst := h.writeInt32 (.ofNat 32 str.length) hword
  rw [← hlen] at hblock
  rcases writeString16_parts env str p with heq | ⟨hok, heq⟩ <;> rw [heq]
  · exact hfirst
  · exact hfirst.fill fun htouches => hblock ⟨hok, htouches⟩

/-! ### Headers that are written -/

theorem writeInt32_written (env : Env) (v : BitVec 32) (p : Parcel) :
    PlainWritten env (wordBytes v).length p (writeInt32 env v p).2 :=
  writeAligned_written env (Request.length_wordBytes_le v) p

theorem writeString16_keeps (hI : ∀ {n p q}, PlainWritten env n p q → I p → I q)
    (str : List (BitVec 16)) (h : I p) : I (writeString16 env str p).2 := by
  have hfirst := hI (writeInt32_written env (.ofNat 32 str.length) p) h
  rcases writeString16_parts env str p with heq | ⟨-, heq⟩ <;> rw [heq]
  · exact hfirst
  · exact hI (fill_written env _ .sticky _) hfirst

theorem mObjects_writeString16 (env : Env) (str : List (BitVec 16)) (p : Parcel) :
    (writeString16 env str p).2.mObjects = p.mObjects :=
  writeString16_keeps (I := fun q => q.mObjects = p.mObjects) (fun hw h => hw.mObjects.trans h) str rfl

theorem placed_writeInt32 (hroom : RoomFor env 4 p) (hreach : Reaches 4 p) :
    Placed (wordBytes v) p (writeInt32 env v p).2 := (dropped_honest_iff env v p).mpr ⟨hroom, hreach⟩

/-- A first word stands where the room for it was made. -/
theorem placed_first_word (hroom : RoomFor env 4 p)
    (hreach : Reaches 4 p ∨ p.mOwner = false ∧ p.mData.isNone ∧ ¬ Fits 4 p) :
    ∃ r, r.mObjects = p.mObjects ∧ Placed (wordBytes v) r (writeInt32 env v p).2 := by
  have hlen := length_wordBytes v
  have hroomed := withRoom_cases env 4 p
  obtain ⟨r, hr⟩ : ∃ r, withRoom env 4 p = (.ok, r) := ⟨_, Prod.ext (withRoom_ok_iff.mpr hroom) rfl⟩
  rw [hr] at hroomed
  refine ⟨r, hroomed.objects, ?_⟩
  have hput := (writeAligned_of_room hr (Request.length_wordBytes_le v)).2
  refine hput.placed_iff.mpr ⟨rfl, .inr ?_⟩
  rcases hreach with hreach | ⟨hown, hnone, hfits⟩
  · rw [← hlen] at hreach
    obtain ⟨hpos, hplace⟩ := (withRoom_hasPlace_iff hr).mpr hreach
    rw [hpos]
    exact hplace.resolve_left (by omega)
  · have hwanted := p.le_wanted 4
    cases hroomed with
    | fits hin => exact absurd hin hfits
    | refused hst => exact absurd rfl hst
    | enlarged henl =>
      cases henl with
      | taken _ hown' => simp [hown] at hown'
      | first => exact ⟨by dsimp only; omega, rfl⟩
      | moved _ _ _ hmem => simp [hmem] at hnone
      | clamped _ hsome =>
        rw [Option.isNone_iff_eq_none.mp hnone] at hsome
        simp at hsome

/-- Bytes behind the position stay there. -/
theorem ByteIn.behind (h : ByteIn i b p) (hw : PlainWritten env n p q) (hi : i < p.mDataPos) :
    ByteIn i b q ∧ i < q.mDataPos := by
  have hahead : ¬ Ahead n p i := fun hahead => absurd hahead.1 (not_le.mpr hi)
  refine ⟨h.written hw hahead, ?_⟩
  cases hw with
  | rejected => exact hi
  | stayed hr => exact (hr.spared h.byte h.inData).2.2 hi
  | stored _ _ hr hs =>
    have hlt := (hr.spared h.byte h.inData).2.2 hi
    obtain ⟨f, es, rfl, -, -⟩ := hs.eq
    dsimp only
    split_ifs <;> omega

theorem ByteIn.behind_string {str : List (BitVec 16)} (h : ByteIn i b p) (hi : i < p.mDataPos) :
    ByteIn i b (Parcel.writeString16 env str p).2 := by
  obtain ⟨hfirst, hlt⟩ := h.behind (writeInt32_written env (.ofNat 32 str.length) p) hi
  rcases writeString16_parts env str p with heq | ⟨-, heq⟩ <;> rw [heq]
  · exact hfirst
  · exact (hfirst.behind (fill_written env _ .sticky _) hlt).1

section Token

variable {policy workSource : BitVec 32} {str : List (BitVec 16)}

theorem Lands.placed (h : Lands env policy workSource p) : ∃ r, r.mObjects = p.mObjects ∧
    (afterPolicy env policy p).mDataPos = r.mDataPos + 4 ∧
    Placed (wordBytes (policy ||| strictModePenaltyGather) ++ wordBytes workSource ++ wordBytes kHeader) r
      (afterHeader env policy workSource p) := by
  obtain ⟨-, hroom, hreach, hroom₁, hreach₁, hroom₂, hreach₂, -⟩ := h
  obtain ⟨r, hobj, hfirst⟩ := placed_first_word hroom hreach (v := policy ||| strictModePenaltyGather)
  have hsecond := placed_writeInt32 hroom₁ hreach₁ (v := workSource)
  have hthird := placed_writeInt32 hroom₂ hreach₂ (v := kHeader)
  have hspared := (writeInt32_written env workSource (afterPolicy env policy p)).spared
  have hspared' := (writeInt32_written env kHeader (afterSource env policy workSource p)).spared
  rw [← afterPolicy] at hfirst
  rw [← afterSource] at hsecond hspared
  rw [← afterHeader] at hthird hspared'
  have hpos := hfirst.pos
  exact ⟨r, hobj, hpos, (hfirst.append hsecond hspared).append hthird hspared'⟩

theorem afterHeader_keeps (hI : ∀ {n p q}, PlainWritten env n p q → I p → I q) (h : I p) :
    I (afterHeader env policy workSource p) := by
  unfold afterHeader afterSource afterPolicy
  have hfirst := hI (writeInt32_written env (policy ||| strictModePenaltyGather) p) h
  have hsecond := hI (writeInt32_written env workSource _) hfirst
  exact hI (writeInt32_written env kHeader _) hsecond

theorem mObjects_afterHeader : (afterHeader env policy workSource p).mObjects = p.mObjects :=
  afterHeader_keeps (I := fun q => q.mObjects = p.mObjects) (fun hw h => hw.mObjects.trans h) rfl

theorem whole_of_plain {bs : List UInt8} (hfour : 4 ≤ x) (hlen : bs.length = 12) (htail : bs.drop 8 = wordBytes kHeader)
    (hplain : ∀ k (hk : k < bs.length), PlainByte (x - 4 + k) bs[k] p) : Whole x p := by
  have hlast := hplain 11 (by omega)
  have hsize := hlast.inData.1
  have hcap := hlast.lt_capacity
  obtain ⟨mem, hmem⟩ := Option.isSome_iff_exists.mp hlast.isSome
  refine ⟨hfour, by omega, by omega, ?_, fun off hoff k hk => (hplain k (by omega)).apart off hoff⟩
  rw [← htail, bytesAt, hmem]
  refine ext_getElem (by simp [Memory.load, hlen]) fun j hj hj' => ?_
  have hj'' : 8 + j < bs.length := by
    rw [length_drop] at hj'
    omega
  have hbyte := (hplain (8 + j) hj'').byte
  rw [show x - 4 + (8 + j) = x + 4 + j by omega, byteAt, hmem] at hbyte
  simpa [Memory.load] using hbyte

theorem Lands.whole (h : Lands env policy workSource p) :
    Whole (afterPolicy env policy p).mDataPos (Parcel.writeString16 env str (afterHeader env policy workSource p)).2 := by
  obtain ⟨r, hobj, hpos, hplaced⟩ := h.placed
  have hapart := h.2.2.2.2.2.2.2
  generalize hq : (Parcel.writeString16 env str (afterHeader env policy workSource p)).2 = q
  generalize hw : (afterPolicy env policy p).mDataPos = w at hapart hpos ⊢
  set bs := wordBytes (policy ||| strictModePenaltyGather) ++ wordBytes workSource ++ wordBytes kHeader with hbs
  have hlen : bs.length = 12 := by simp [hbs, wordBytes]
  have hend := hplaced.pos
  have hplain (k : ℕ) (hk : k < bs.length) : PlainByte (w - 4 + k) bs[k] q := by
    obtain ⟨hbyte, hin⟩ := hplaced.bytes k hk
    have hoff : w - 4 + k = r.mDataPos + k := by omega
    have hthird : ByteIn (w - 4 + k) bs[k] (afterHeader env policy workSource p) := by
      rw [hoff]
      exact ⟨hbyte, hin⟩
    rw [← hq]
    refine ⟨hthird.behind_string (by omega), fun off hmem => ?_⟩
    rw [mObjects_writeString16, mObjects_afterHeader] at hmem
    exact hapart off hmem k (by omega)
  refine whole_of_plain (by omega) hlen ?_ hplain
  rw [hbs, drop_left' (by simp [wordBytes])]

end Token

namespace Headed

variable {s s' : Headed}

section Token

variable {policy workSource : BitVec 32} {str : List (BitVec 16)}

@[simp] theorem update_present (s : Headed) : s.updateWorkSourceRequestHeaderPosition.mRequestHeaderPresent = true := by
  unfold updateWorkSourceRequestHeaderPosition
  split_ifs with h
  · rfl
  · simpa using h

theorem update_position (s : Headed) : s.updateWorkSourceRequestHeaderPosition.mWorkSourceRequestHeaderPosition =
    if s.mRequestHeaderPresent then s.mWorkSourceRequestHeaderPosition else s.parcel.mDataPos := by
  unfold updateWorkSourceRequestHeaderPosition
  cases s.mRequestHeaderPresent <;> rfl

/-- Only a parcel that is not for RPC gets a header. -/
theorem writeInterfaceToken_eq (s : Headed) : (s.writeInterfaceToken env policy workSource str).2 =
    if s.parcel.mSession.isNone then
      { s with
        parcel := (writeString16 env str (afterHeader env policy workSource s.parcel)).2
        mRequestHeaderPresent := true
        mWorkSourceRequestHeaderPosition :=
          if s.mRequestHeaderPresent then s.mWorkSourceRequestHeaderPosition
          else (afterPolicy env policy s.parcel).mDataPos }
    else { s with parcel := (writeString16 env str s.parcel).2 } := by
  unfold writeInterfaceToken updateWorkSourceRequestHeaderPosition afterHeader afterSource afterPolicy
  cases s.parcel.mSession.isNone with
  | false => simp only [Bool.false_eq_true, if_false]
  | true => cases s.mRequestHeaderPresent <;> simp

theorem status_writeInterfaceToken (s : Headed) : (s.writeInterfaceToken env policy workSource str).1 =
    (writeString16 env str
      (if s.parcel.mSession.isNone then afterHeader env policy workSource s.parcel else s.parcel)).1 := by
  unfold writeInterfaceToken updateWorkSourceRequestHeaderPosition afterHeader afterSource afterPolicy
  cases s.parcel.mSession.isNone with
  | false => simp only [Bool.false_eq_true, if_false]
  | true => cases s.mRequestHeaderPresent <;> simp

theorem parcel_writeInterfaceToken (s : Headed) : (s.writeInterfaceToken env policy workSource str).2.parcel =
    (writeString16 env str
      (if s.parcel.mSession.isNone then afterHeader env policy workSource s.parcel else s.parcel)).2 := by
  rw [writeInterfaceToken_eq]
  split_ifs <;> rfl

theorem whole_writeInterfaceToken (h : Whole x s.parcel)
    (hmiss : Misses (TokenTouches env policy workSource str s.parcel) x) :
    Whole x (s.writeInterfaceToken env policy workSource str).2.parcel := by
  have hobj : (s.writeInterfaceToken env policy workSource str).2.parcel.mObjects = s.parcel.mObjects := by
    rw [parcel_writeInterfaceToken, mObjects_writeString16]
    split_ifs
    · exact mObjects_afterHeader
    · rfl
  refine h.kept fun k hk b hb => hb.of_subset ?_ (hobj ▸ List.Subset.refl _)
  have hin := hb.toByteIn
  have htouches := hmiss k hk
  unfold TokenTouches at htouches
  rw [parcel_writeInterfaceToken]
  split_ifs at htouches ⊢
  · obtain ⟨h₁, htouches⟩ := not_or.mp htouches
    obtain ⟨h₂, htouches⟩ := not_or.mp htouches
    obtain ⟨h₃, h₄⟩ := not_or.mp htouches
    have hpolicy := hin.writeInt32 (policy ||| strictModePenaltyGather) h₁
    rw [← afterPolicy] at hpolicy
    have hsource := hpolicy.writeInt32 workSource h₂
    rw [← afterSource] at hsource
    have hheader := hsource.writeInt32 kHeader h₃
    rw [← afterHeader] at hheader
    exact hheader.writeString16 h₄
  · exact hin.writeString16 htouches

theorem whole_written (hx : x ∈ written env policy workSource s.parcel) :
    Whole x (s.writeInterfaceToken env policy workSource str).2.parcel := by
  unfold written at hx
  split_ifs at hx with hlands
  · rw [mem_singleton.mp hx, parcel_writeInterfaceToken, if_pos hlands.1]
    exact hlands.whole
  · simp at hx

theorem Sound.writeInterfaceToken (h : Sound s) (hk : s.Keeps (.writeInterfaceToken env policy workSource str))
    (hs : s.step (.writeInterfaceToken env policy workSource str) = some s') : Sound s' := by
  cases hs
  refine ⟨fun x hx => ?_, fun hpresent => ?_⟩
  · rcases mem_append.mp hx with hnew | hold
    · exact whole_written hnew
    · obtain ⟨hmem, hmiss⟩ := mem_filter.mp hold
      exact whole_writeInterfaceToken (h.whole x hmem) (of_decide_eq_true hmiss)
  · have hold (hpresent : s.mRequestHeaderPresent = true) : s.mWorkSourceRequestHeaderPosition ∈
        written env policy workSource s.parcel ++ s.headers.filter fun h =>
          Misses (TokenTouches env policy workSource str s.parcel) h := by
      rcases (if_pos hpresent).mp hk with hmiss | hnew
      · exact mem_append_right _ (mem_filter.mpr ⟨h.present hpresent, decide_eq_true hmiss⟩)
      · exact mem_append_left _ hnew
    simp only [writeInterfaceToken_eq] at hpresent ⊢
    split_ifs at hpresent ⊢ with hrpc hwas
    · exact hold hwas
    · have hlands : Lands env policy workSource s.parcel := (if_neg hwas).mp hk hrpc
      refine mem_append_left _ ?_
      unfold written
      rw [if_pos hlands]
      exact mem_singleton.mpr rfl
    · exact hold hpresent

end Token

theorem Sound.action {a : Action} (h : Sound s) (hk : s.Keeps (.action a)) (hs : s.step (.action a) = some s') :
    Sound s' := by
  obtain ⟨q, hq, rfl⟩ := Option.map_eq_some_iff.mp hs
  refine ⟨fun x hx => ?_, fun hpresent => ?_⟩
  · obtain ⟨hmem, hmiss⟩ := mem_filter.mp hx
    refine (h.whole x hmem).kept fun k hlt b hb => ?_
    exact hb.runAction (of_decide_eq_true hmiss k hlt) hq
  · obtain ⟨hkept, hwas⟩ : resets s.parcel a = false ∧ s.mRequestHeaderPresent = true := by simpa using hpresent
    have hmiss := (hk hwas).resolve_left (by simp [hkept])
    simp only [hkept, Bool.false_eq_true, if_false]
    exact mem_filter.mpr ⟨h.present hwas, decide_eq_true hmiss⟩

/-! ### Headers that are read -/

theorem readWord_eq_some : readWord p = some (v, q) ↔ Returns readInt32OrZero p v q := by
  unfold readWord Returns
  split <;> simp_all

theorem perused_readWord (h : readWord p = some (v, q)) : Perused p q := by
  have hafter : after readInt32OrZero p = some q := by
    unfold after
    rw [readWord_eq_some.mp h]
    rfl
  exact invariant_after (readInvariant_perused p).triple_readInt32OrZero (.refl p) hafter

theorem readAligned_mDataPos {res : Except Status (List UInt8)} (h : (readAligned n).run.run p = some (res, q))
    (hn : p.mDataPos + n ≤ p.mDataSize) : q.mDataPos = p.mDataPos + n := by
  obtain ⟨st, objs, hint, flag, -, hpass⟩ := passOver_eq n p
  have hrun := Option.some.inj h
  dsimp only at hrun
  rw [if_pos hn, hpass] at hrun
  cases st <;> cases hrun <;> rfl

theorem readWord_mDataPos (h : readWord p = some (v, q)) (hn : p.mDataPos + 4 ≤ p.mDataSize) :
    q.mDataPos = p.mDataPos + 4 := by
  rcases returns_readInt32OrZero.mp (readWord_eq_some.mp h) with hret | ⟨-, e, hfail⟩
  · simp only [readInt32, returns_bind, returns_pure] at hret
    obtain ⟨bs, r, hr, -, rfl⟩ := hret
    exact readAligned_mDataPos hr hn
  · simp only [readInt32, fails_bind, not_fails_pure, and_false, exists_false, or_false] at hfail
    exact readAligned_mDataPos hfail hn

theorem whole_perused (h : Whole x p) (hq : Perused p q) : Whole x q :=
  h.kept fun _ _ _ hb => hb.of_subset (hb.toByteIn.perused hq) fun _ hoff => hq.mem_mObjects.mp hoff

variable {interface : List (BitVec 16)} {ok : Bool} {uid : BitVec 32}

theorem checkDescriptor_spec (h : s.checkDescriptor interface = some (ok, s')) :
    ∃ q, Perused s.parcel q ∧ s' = { s with parcel := q } := by
  have hperused {res : Except Status (Option (Memory × ℕ))} {q : Parcel}
      (hrun : readString16Inplace.run.run s.parcel = some (res, q)) : Perused s.parcel q := by
    have hafter : after readString16Inplace s.parcel = some q := by
      unfold after
      rw [hrun]
      rfl
    exact invariant_after (readInvariant_perused s.parcel).triple_readString16Inplace (.refl _) hafter
  unfold checkDescriptor at h
  split at h
  · rename_i q hrun
    cases h
    exact ⟨q, hperused hrun, rfl⟩
  · rename_i str len q hrun
    cases h
    exact ⟨q, hperused hrun, rfl⟩
  · cases h
  · cases h

/-- `enforceInterface` reads; it remembers the position behind the first word if none is remembered. -/
theorem enforceInterface_spec (h : s.enforceInterface interface = some (ok, s')) :
    (∀ x, Whole x s.parcel → Whole x s'.parcel) ∧
      if s.parcel.mSession.isNone then ∃ v p, readWord s.parcel = some (v, p) ∧ s'.mRequestHeaderPresent = true ∧
        s'.mWorkSourceRequestHeaderPosition =
          if s.mRequestHeaderPresent then s.mWorkSourceRequestHeaderPosition else p.mDataPos
      else s'.mRequestHeaderPresent = s.mRequestHeaderPresent ∧
        s'.mWorkSourceRequestHeaderPosition = s.mWorkSourceRequestHeaderPosition := by
  unfold enforceInterface at h
  by_cases hrpc : s.parcel.mSession.isNone
  · rw [if_pos hrpc] at h ⊢
    obtain ⟨⟨v, p₁⟩, h₁, h⟩ := Option.bind_eq_some_iff.mp h
    obtain ⟨⟨v₂, p₂⟩, h₂, h⟩ := Option.bind_eq_some_iff.mp h
    obtain ⟨⟨header, p₃⟩, h₃, h⟩ := Option.bind_eq_some_iff.mp h
    have hwhole (x : ℕ) (hx : Whole x s.parcel) : Whole x p₃ :=
      whole_perused (whole_perused (whole_perused hx (perused_readWord h₁)) (perused_readWord h₂)) (perused_readWord h₃)
    have hpresent := update_present { s with parcel := p₁ }
    have hposition := update_position { s with parcel := p₁ }
    dsimp only at h
    split_ifs at h
    · cases h
      exact ⟨hwhole, v, p₁, h₁, hpresent, hposition⟩
    · obtain ⟨q, hq, rfl⟩ := checkDescriptor_spec h
      exact ⟨fun x hx => whole_perused (hwhole x hx) hq, v, p₁, h₁, hpresent, hposition⟩
  · rw [if_neg hrpc] at h ⊢
    obtain ⟨q, hq, rfl⟩ := checkDescriptor_spec h
    exact ⟨fun x hx => whole_perused hx hq, rfl, rfl⟩

theorem Sound.enforceInterface (h : Sound s) (hk : s.Keeps (.enforceInterface interface))
    (hs : s.step (.enforceInterface interface) = some s') : Sound s' := by
  obtain ⟨⟨ok, t⟩, ht, rfl⟩ := Option.map_eq_some_iff.mp hs
  obtain ⟨hwhole, hfields⟩ := enforceInterface_spec ht
  refine ⟨fun x hx => ?_, fun hpresent => ?_⟩
  · refine hwhole x ?_
    rcases mem_append.mp hx with hnew | hold
    · unfold found at hnew
      split_ifs at hnew with hfound
      · rw [mem_singleton.mp hnew]
        exact hfound.2
      · simp at hnew
    · exact h.whole x hold
  · dsimp only at hpresent ⊢
    by_cases hrpc : s.parcel.mSession.isNone
    · rw [if_pos hrpc] at hfields
      obtain ⟨v, p, hread, -, hposition⟩ := hfields
      rw [hposition]
      split_ifs with hwas
      · exact mem_append_right _ (h.present hwas)
      · have hhere := hk (by simpa using hwas) hrpc
        have hsize := hhere.2.1
        refine mem_append_left _ ?_
        unfold found
        rw [if_pos ⟨hrpc, hhere⟩, readWord_mDataPos hread (by omega)]
        exact mem_singleton.mpr rfl
    · rw [if_neg hrpc] at hfields
      rw [hfields.2]
      exact mem_append_right _ (h.present (hfields.1 ▸ hpresent))

/-! ### The work source -/

theorem replaceCallingWorkSourceUid_of_whole (hpresent : s.mRequestHeaderPresent = true)
    (h : Whole s.mWorkSourceRequestHeaderPosition s.parcel)
    (hs : s.replaceCallingWorkSourceUid env uid = some (ok, s')) :
    ok = true ∧ s.mWorkSourceRequestHeaderPosition ≤ int32Max ∧ s.parcel.mDataPos ≤ int32Max ∧
      ∃ q, s' = { s with parcel := q } ∧ Reworded s.mWorkSourceRequestHeaderPosition uid s.parcel q := by
  unfold replaceCallingWorkSourceUid at hs
  rw [if_neg (by simp [hpresent])] at hs
  obtain ⟨p, hp, hs⟩ := Option.bind_eq_some_iff.mp hs
  obtain ⟨q, hq, hs⟩ := Option.map_eq_some_iff.mp hs
  obtain ⟨b, hb⟩ := h.plain (show 0 < 12 by decide)
  obtain ⟨-, hsize, hcap, -, -⟩ := h
  -- where a header is whole there is room for its work source
  obtain ⟨hok, hreworded⟩ : (writeInt32 env uid p).1 = .ok ∧ _ := reworded hb.isSome (by omega) (by omega) hp
  have hmax := (setDataPosition_eq_some.mp hp).1
  have hmax' := (setDataPosition_eq_some.mp hq).1
  cases hs
  exact ⟨decide_eq_true hok, hmax, hmax', q, rfl, hreworded q hq⟩

theorem whole_reworded (h : Reworded x uid p q) (hx : Whole x p) : Whole x q := by
  obtain ⟨b, hb⟩ := hx.plain (show 11 < 12 by decide)
  obtain ⟨hfour, hsize, hcap, hbytes, hapart⟩ := hx
  have hlast := h.kept (x - 4 + 11) (by omega)
  have hsome : q.mData.isSome := by
    rw [hb.byte] at hlast
    obtain ⟨mem, hmem, -⟩ := Option.map_eq_some_iff.mp hlast
    simp [hmem]
  refine ⟨hfour, by rw [h.size]; exact hsize, by rw [h.capacity]; exact hcap, ?_, by rw [h.objects]; exact hapart⟩
  rw [← hbytes]
  exact bytesAt_eq_of_byteAt hb.isSome (fun j _ => h.kept _ (by omega)) hsome

theorem readCallingWorkSourceUid_of_whole (hpresent : s.mRequestHeaderPresent = true)
    (h : Whole s.mWorkSourceRequestHeaderPosition s.parcel) (hmax : s.mWorkSourceRequestHeaderPosition ≤ int32Max)
    (hpos : s.parcel.mDataPos ≤ int32Max) (huid : s.parcel.bytesAt s.mWorkSourceRequestHeaderPosition 4 = wordBytes uid) :
    ∃ t, s.readCallingWorkSourceUid = some (uid, t) := by
  obtain ⟨hfour, hsize, hcap, -, hapart⟩ := h
  set p : Parcel := { s.parcel with
    mDataPos := s.mWorkSourceRequestHeaderPosition, mNextObjectHint := 0, mObjectsSorted := false } with hp
  have hguarded : Guarded p := ⟨by simp [hp], by simp [hp]⟩
  have hclear : p.Clear 4 := by
    intro off hoff
    have hsizeof : sizeofFlatBinderObject = 24 := rfl
    have hpos' : p.mDataPos = s.mWorkSourceRequestHeaderPosition := rfl
    have hfirst := hapart off hoff 4 (by decide)
    have hlast := hapart off hoff 7 (by decide)
    unfold Covers at hfirst hlast
    omega
  have hholds : Holds p (wordBytes uid) := by
    have hlen : (wordBytes uid).length = 4 := by simp [wordBytes]
    cases hmem : s.parcel.mData with
    | none => simp [bytesAt, hmem, wordBytes, leBytes] at huid
    | some mem =>
      refine ⟨mem, hmem, ?_, ?_⟩
      · rw [hlen]
        change s.mWorkSourceRequestHeaderPosition + 4 ≤ s.parcel.mDataSize
        omega
      · rw [hlen]
        simpa only [bytesAt, hmem, Option.elim_some] using huid
  obtain ⟨q, hq, -⟩ := readInt32OrZero_holds hguarded hholds (.inl hclear)
  refine ⟨{ s with parcel := { q with mDataPos := s.parcel.mDataPos, mNextObjectHint := 0, mObjectsSorted := false } }, ?_⟩
  unfold readCallingWorkSourceUid
  rw [if_neg (by simp [hpresent])]
  refine Option.bind_eq_some_iff.mpr ⟨p, setDataPosition_eq_some.mpr ⟨hmax, rfl⟩, ?_⟩
  refine Option.bind_eq_some_iff.mpr ⟨(uid, q), readWord_eq_some.mpr hq, ?_⟩
  exact Option.map_eq_some_iff.mpr ⟨_, setDataPosition_eq_some.mpr ⟨hpos, rfl⟩, rfl⟩

/-- `replaceCallingWorkSourceUid` keeps the header that it changes, and what does not overlap its work source. -/
theorem Sound.replaceCallingWorkSourceUid (h : Sound s)
    (hs : s.step (.replaceCallingWorkSourceUid env uid) = some s') : Sound s' := by
  obtain ⟨⟨ok, t⟩, ht, rfl⟩ := Option.map_eq_some_iff.mp hs
  cases hpresent : s.mRequestHeaderPresent with
  | false =>
    have hsame : t = s := by
      unfold Headed.replaceCallingWorkSourceUid at ht
      rw [if_pos (by simp [hpresent])] at ht
      cases ht
      rfl
    subst hsame
    refine ⟨fun x hx => h.whole x (mem_filter.mp hx).1, fun hwas => ?_⟩
    simp [hpresent] at hwas
  | true =>
    obtain ⟨-, -, -, q, rfl, hre⟩ := replaceCallingWorkSourceUid_of_whole hpresent (h.whole _ (h.present hpresent)) ht
    refine ⟨fun x hx => ?_, fun _ => ?_⟩
    · obtain ⟨hmem, hkept⟩ := mem_filter.mp hx
      rcases of_decide_eq_true hkept with rfl | hmiss
      · exact whole_reworded hre (h.whole _ hmem)
      · refine (h.whole x hmem).kept fun k hk b hb => ?_
        have hout := hmiss k hk
        unfold ReplaceTouches at hout
        have hbyte := hre.kept (x - 4 + k) (by omega)
        refine hb.of_subset (hb.toByteIn.of_eq hbyte ?_ ?_) (hre.objects ▸ List.Subset.refl _)
        · rw [hre.size]
          exact hb.inData.1
        · rw [hre.capacity]
          exact hb.lt_capacity
    · exact mem_filter.mpr ⟨h.present hpresent, by simp⟩

theorem Sound.readCallingWorkSourceUid (h : Sound s) (hs : s.step .readCallingWorkSourceUid = some s') : Sound s' := by
  obtain ⟨⟨uid, t⟩, ht, rfl⟩ := Option.map_eq_some_iff.mp hs
  unfold Headed.readCallingWorkSourceUid at ht
  split_ifs at ht
  · cases ht
    exact h
  · obtain ⟨p, hp, ht⟩ := Option.bind_eq_some_iff.mp ht
    obtain ⟨⟨v, q⟩, hq, ht⟩ := Option.bind_eq_some_iff.mp ht
    obtain ⟨r, hr, ht⟩ := Option.map_eq_some_iff.mp ht
    obtain ⟨-, rfl⟩ := setDataPosition_eq_some.mp hp
    obtain ⟨-, rfl⟩ := setDataPosition_eq_some.mp hr
    cases ht
    refine ⟨fun x hx => ?_, h.present⟩
    have hmoved : Whole x { s.parcel with
        mDataPos := s.mWorkSourceRequestHeaderPosition, mNextObjectHint := 0, mObjectsSorted := false } := h.whole x hx
    have hread : Whole x q := whole_perused hmoved (perused_readWord hq)
    exact hread

theorem Sound.step {a : Act} (h : Sound s) (hk : s.Keeps a) (hs : s.step a = some s') : Sound s' := by
  cases a with
  | action => exact h.action hk hs
  | ipcSetDataReference =>
    cases hs
    exact ⟨by simp, by simp⟩
  | writeInterfaceToken => exact h.writeInterfaceToken hk hs
  | enforceInterface => exact h.enforceInterface hk hs
  | replaceCallingWorkSourceUid => exact h.replaceCallingWorkSourceUid hs
  | readCallingWorkSourceUid => exact h.readCallingWorkSourceUid hs

/-- `replaceCallingWorkSourceUid` does nothing, or it changes the work source of a header that was written or read, and
nothing else. -/
def ReplacesSourceOnly (s : Headed) : Prop :=
  ∀ env uid ok s', s.replaceCallingWorkSourceUid env uid = some (ok, s') → ok = false ∧ s' = s ∨
    ok = true ∧ ∃ h ∈ s.headers, Whole h s.parcel ∧ Reworded h uid s.parcel s'.parcel ∧
      ∃ t, s'.readCallingWorkSourceUid = some (uid, t)

theorem Sound.replacesSourceOnly (h : Sound s) : s.ReplacesSourceOnly := by
  intro env uid ok s' hs
  cases hpresent : s.mRequestHeaderPresent with
  | false =>
    unfold Headed.replaceCallingWorkSourceUid at hs
    rw [if_pos (by simp [hpresent])] at hs
    cases hs
    exact .inl ⟨rfl, rfl⟩
  | true =>
    have hmem := h.present hpresent
    have hwhole := h.whole _ hmem
    obtain ⟨rfl, hmax, hpos, q, rfl, hre⟩ := replaceCallingWorkSourceUid_of_whole hpresent hwhole hs
    refine .inr ⟨rfl, _, hmem, hwhole, hre, ?_⟩
    have hpos' : q.mDataPos ≤ int32Max := hre.pos ▸ hpos
    exact readCallingWorkSourceUid_of_whole hpresent (whole_reworded hre hwhole) hmax hpos' hre.source

/-- In every run that keeps the header that is pointed at. -/
theorem replace_changes_source_only {session : Option ℕ}
    (hs : Reachable step Keeps { parcel := { mSession := session } } s) : s.ReplacesSourceOnly :=
  (hs.invariant Sound ⟨by simp, by simp⟩ fun _ _ _ h hk hstep => h.step hk hstep).replacesSourceOnly

/-- A request with an argument. -/
theorem replace_changes_source_only_token : ∃ s : Headed, s.mRequestHeaderPresent = true ∧ s.parcel.mDataSize = 24 ∧
    (s.replaceCallingWorkSourceUid zeroEnv 5).isSome ∧ s.ReplacesSourceOnly := by
  obtain ⟨s, hs, hpresent, hsize, hreplace⟩ := exists_reachable step Keeps { parcel := { mSession := none } }
    [.writeInterfaceToken zeroEnv 0 1000 [0x41], .action (.op (.writeAligned zeroEnv [7, 0, 0, 0]))]
    (fun s => s.mRequestHeaderPresent ∧ s.parcel.mDataSize = 24 ∧ (s.replaceCallingWorkSourceUid zeroEnv 5).isSome)
    (by decide +kernel)
  exact ⟨s, hpresent, hsize, hreplace, replace_changes_source_only hs⟩

/-- The header is cut off, but its position is still there. -/
theorem replace_extends_emptied : ∃ s, Reachable step Free {} s ∧ s.parcel.mDataSize = 0 ∧
    (∃ s', s.replaceCallingWorkSourceUid zeroEnv 5 = some (true, s') ∧ s'.parcel.mDataSize = 8) ∧
    ¬ s.ReplacesSourceOnly := by
  obtain ⟨s, hs, hsize, hnone, ⟨_, s'⟩, hrun, rfl, hgrown⟩ := exists_reachable step Free {}
    [.writeInterfaceToken zeroEnv 0 1000 [0x41], .action (.op (.setDataSize zeroEnv 0))]
    (fun s => s.parcel.mDataSize = 0 ∧ s.headers = [] ∧
      ∃ r ∈ s.replaceCallingWorkSourceUid zeroEnv 5, r.1 = true ∧ r.2.parcel.mDataSize = 8)
    (by decide +kernel)
  refine ⟨s, hs, hsize, ⟨s', hrun, hgrown⟩, fun honly => ?_⟩
  obtain ⟨hfalse, -⟩ | ⟨-, h, hmem, -⟩ := honly zeroEnv 5 true s' hrun
  · simp at hfalse
  · simp [hnone] at hmem

end Headed

end Binder.Parcel
