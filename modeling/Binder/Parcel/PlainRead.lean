import Binder.Lib.Triple
import Binder.Parcel.Types

/-! The reads that are not of objects. -/
namespace Binder.Parcel
open Binder.Lib Binder.Lib.Fallible

variable {p q : Parcel} {n : ℕ}

/-- `readScalar` is the family of `readAligned`. -/
inductive PlainRead
  | read (len : ℕ)
  | readInplace (len : ℕ)
  | readScalar (s : Scalar)
  | readCString
  | readString8Inplace
  | readString16Inplace

def after {α : Type} (x : Read α) (p : Parcel) : Option Parcel := (x.run.run p).map Prod.snd

def returned {α : Type} (x : Read α) (p : Parcel) : Option α :=
  match x.run.run p with
  | some (.ok a, _) => some a
  | _ => none

theorem returned_eq_some {α : Type} {x : Read α} {a : α} : returned x p = some a ↔ ∃ q, Returns x p a q := by
  unfold returned
  constructor
  · intro h
    split at h
    · rename_i b q hx
      cases h
      exact ⟨q, hx⟩
    · cases h
  · rintro ⟨q, hq⟩
    have hx : x.run.run p = some (.ok a, q) := hq
    rw [hx]

namespace PlainRead

def run (p : Parcel) : PlainRead → Option Parcel
  | .read len => after (Parcel.read len) p
  | .readInplace len => after (Parcel.readInplace len) p
  | .readScalar s => after s.read p
  | .readCString => after Parcel.readCString p
  | .readString8Inplace => after Parcel.readString8Inplace p
  | .readString16Inplace => after Parcel.readString16Inplace p

/-- Offset and length of the bytes that a successful read returns. -/
def yields (p : Parcel) : PlainRead → Option (ℕ × ℕ)
  | .read len => (returned (Parcel.read len) p).map fun _ => (p.mDataPos, len)
  | .readInplace len => (returned (Parcel.readInplace len) p).bind fun ptr => ptr.map fun _ => (p.mDataPos, len)
  | .readScalar s => (returned s.read p).map fun _ => (p.mDataPos, s.wire.size)
  | .readCString => (returned Parcel.readCString p).bind fun ptr => ptr.map fun str => (p.mDataPos, str.length + 1)
  | .readString8Inplace =>
    (returned Parcel.readString8Inplace p).bind fun ptr => ptr.map fun str => (p.mDataPos + 4, str.2 + 1)
  | .readString16Inplace =>
    (returned Parcel.readString16Inplace p).bind fun ptr => ptr.map fun str => (p.mDataPos + 4, (str.2 + 1) * 2)

end PlainRead

theorem lt_of_findIdx {off len : ℕ} {f : UInt8 → Bool} (h : (p.bytesAt off n).findIdx? f = some len) : len < n := by
  obtain ⟨hlt, -⟩ := List.findIdx?_eq_some_iff_getElem.mp h
  refine hlt.trans_le ?_
  unfold bytesAt
  cases p.mData <;> simp

theorem invariant_after {α : Type} {I : Parcel → Prop} {x : Read α} (hx : Triple I x (fun _ => I) I) (hp : I p)
    (hq : after x p = some q) : I q := by
  obtain ⟨r, s, hrun, hs⟩ := hx.run hp
  unfold after at hq
  rw [hrun] at hq
  cases hq
  exact hs

/-! ### What every read keeps -/

/-- `I` is kept by the steps that the plain reads other than `readCString` are made of. -/
structure PassInvariant (I : Parcel → Prop) : Prop where
  passOver : ∀ p n, I p → p.mDataPos + n ≤ p.mDataSize → I (passOver n p).2
  log : ∀ p off len, I p → off + len ≤ p.mDataSize → I (p.log [.load off len])

/-- `I` is kept by the steps that the plain reads are made of. The position can pass the end of the data
by the padding of a `readCString`. -/
structure ReadInvariant (I : Parcel → Prop) : Prop extends PassInvariant I where
  skip : ∀ p n, I p → p.mDataPos + n ≤ p.mDataSize + 3 → I { p with mDataPos := p.mDataPos + n }

namespace PassInvariant

variable {I : Parcel → Prop} (hI : PassInvariant I)

include hI

theorem load {len padded : ℕ} {st : Status} (hp : I p) (hn : p.mDataPos + padded ≤ p.mDataSize) (hlen : len ≤ padded)
    (hq : Parcel.passOver padded p = (st, q)) : I q ∧ I (q.log [.load p.mDataPos len]) := by
  have hpass := hI.passOver p padded hp hn
  rw [hq] at hpass
  have hsize : q.mDataSize = p.mDataSize := by
    obtain ⟨st, objs, hint, flag, -, heq⟩ := passOver_eq padded p
    rw [heq] at hq
    cases hq
    rfl
  exact ⟨hpass, hI.log q _ _ hpass (by omega)⟩

theorem triple_readAligned : Triple I (readAligned n) (fun _ => I) I := by
  refine .ofFun fun p hp => ?_
  split_ifs with hn
  · split
    · rename_i q hq
      exact (hI.load hp hn le_rfl hq).2
    · rename_i err q _ hq
      exact (hI.load hp hn le_rfl hq).1
  · exact hp

theorem triple_read (len : ℕ) : Triple I (read len) (fun _ => I) I := by
  refine .mk fun p hp => ?_
  split_ifs with hlen
  · exact ⟨_, _, rfl, hp⟩
  · rw [padSize?_eq (not_lt.mp hlen), Option.map_some]
    split_ifs with hn
    · split
      · rename_i q hq
        exact ⟨_, _, rfl, (hI.load hp hn (le_padSize len) hq).2⟩
      · rename_i err q _ hq
        exact ⟨_, _, rfl, (hI.load hp hn (le_padSize len) hq).1⟩
    · exact ⟨_, _, rfl, hp⟩

theorem triple_readInplace (len : ℕ) : Triple I (readInplace len) (fun _ => I) I := by
  refine .mk fun p hp => ?_
  split_ifs with hlen
  · exact ⟨_, _, rfl, hp⟩
  · rw [padSize?_eq (not_lt.mp hlen), Option.map_some]
    split_ifs with hn
    · split
      · rename_i q hq
        exact ⟨_, _, rfl, (hI.load hp hn (le_padSize len) hq).2⟩
      · rename_i err q _ hq
        exact ⟨_, _, rfl, (hI.load hp hn (le_padSize len) hq).1⟩
    · exact ⟨_, _, rfl, hp⟩

theorem triple_readInt32 : Triple I readInt32 (fun _ => I) I :=
  hI.triple_readAligned.bind_pure

theorem triple_readInt64 : Triple I readInt64 (fun _ => I) I :=
  hI.triple_readAligned.bind_pure

theorem triple_readIntegral (u : Integral) : Triple I u.read (fun _ => I) I := by
  cases u with
  | bool | int8 | uint8 | char16 => exact hI.triple_readInt32.bind_pure
  | int32 | uint32 => exact hI.triple_readInt32
  | int64 | uint64 => exact hI.triple_readInt64

theorem triple_readScalar (s : Scalar) : Triple I s.read (fun _ => I) I := by
  cases s with
  | integral u | enum u => exact hI.triple_readIntegral u
  | float => exact hI.triple_readInt32
  | double => exact hI.triple_readInt64

theorem triple_readInt32OrZero : Triple I readInt32OrZero (fun _ => I) I :=
  hI.triple_readInt32.tryCatch fun _ => .pure fun _ hp => hp

theorem triple_readString8Inplace : Triple I readString8Inplace (fun _ => I) I := by
  refine hI.triple_readInt32OrZero.bind fun size => .ite (fun _ => ?_) fun _ => .pure fun _ hp => hp
  refine (hI.triple_readInplace _).bind fun ptr => ?_
  cases ptr with
  | none => exact .pure fun _ hp => hp
  | some => exact .ite (fun _ => .pure fun _ hp => hp) fun _ => .pure fun _ hp => hp

theorem triple_readString16Inplace : Triple I readString16Inplace (fun _ => I) I := by
  refine hI.triple_readInt32OrZero.bind fun size => .ite (fun _ => ?_) fun _ => .pure fun _ hp => hp
  refine (hI.triple_readInplace _).bind fun ptr => ?_
  cases ptr with
  | none => exact .pure fun _ hp => hp
  | some => exact .ite (fun _ => .pure fun _ hp => hp) fun _ => .pure fun _ hp => hp

theorem run {r : PlainRead} (hr : r ≠ .readCString) (hp : I p) (hq : r.run p = some q) : I q := by
  cases r with
  | read len => exact invariant_after (hI.triple_read len) hp hq
  | readInplace len => exact invariant_after (hI.triple_readInplace len) hp hq
  | readScalar s => exact invariant_after (hI.triple_readScalar s) hp hq
  | readCString => exact absurd rfl hr
  | readString8Inplace => exact invariant_after hI.triple_readString8Inplace hp hq
  | readString16Inplace => exact invariant_after hI.triple_readString16Inplace hp hq

end PassInvariant

namespace ReadInvariant

variable {I : Parcel → Prop} (hI : ReadInvariant I)

include hI

theorem readCString (hp : I p) (hq : after readCString p = some q) : I q := by
  obtain ⟨⟨res, r⟩, hr, rfl⟩ := Option.map_eq_some_iff.mp hq
  change (if p.mDataPos < p.mDataSize then _ else _) = _ at hr
  split_ifs at hr with hpos
  · split at hr
    · rename_i len hlen
      obtain ⟨padded, hpad, heq⟩ := Option.map_eq_some_iff.mp hr
      cases heq
      have hlt := lt_of_findIdx hlen
      refine hI.log _ _ _ (hI.skip p padded hp ?_) ?_
      · unfold padSize? at hpad
        split_ifs at hpad
        cases hpad
        unfold padSize
        omega
      · dsimp only
        omega
    · cases hr
      exact hI.log p _ _ hp (by omega)
  · cases hr
    exact hp

theorem run (r : PlainRead) (hp : I p) (hq : r.run p = some q) : I q := by
  by_cases hr : r = .readCString
  · subst hr
    exact hI.readCString hp hq
  · exact hI.toPassInvariant.run hr hp hq

end ReadInvariant

/-! ### What a read can change -/

/-- A read moves the position, sorts the table and sets the hint. -/
structure Perused (p q : Parcel) : Prop where
  eq : ∃ pos objs hint flag es, q = { p with
      mDataPos := pos, mObjects := objs, mNextObjectHint := hint, mObjectsSorted := flag, events := es ++ p.events } ∧
    objs.Perm p.mObjects ∧ (pos = p.mDataPos ∨ pos ≤ p.mDataSize + 3) ∧ ∀ e ∈ es, ∃ off len, e = .load off len

theorem Perused.refl (p : Parcel) : Perused p p :=
  ⟨p.mDataPos, p.mObjects, p.mNextObjectHint, p.mObjectsSorted, [], rfl, .refl _, .inl rfl, by simp⟩

theorem readInvariant_perused (p : Parcel) : ReadInvariant (Perused p) where
  passOver q n hq hn := by
    obtain ⟨pos, objs, hint, flag, es, rfl, hperm, -, hes⟩ := hq
    obtain ⟨st, objs', hint', flag', hperm', heq⟩ := passOver_eq n
      { p with mDataPos := pos, mObjects := objs, mNextObjectHint := hint, mObjectsSorted := flag, events := es ++ p.events }
    rw [heq]
    dsimp only at hn
    exact ⟨pos + n, objs', hint', flag', es, rfl, hperm'.trans hperm, .inr (by omega), hes⟩
  skip q n hq hn := by
    obtain ⟨pos, objs, hint, flag, es, rfl, hperm, -, hes⟩ := hq
    exact ⟨pos + n, objs, hint, flag, es, rfl, hperm, .inr hn, hes⟩
  log q off len hq _ := by
    obtain ⟨pos, objs, hint, flag, es, rfl, hperm, hpos, hes⟩ := hq
    refine ⟨pos, objs, hint, flag, .load off len :: es, rfl, hperm, hpos, fun e he => ?_⟩
    rcases List.mem_cons.mp he with rfl | he
    · exact ⟨off, len, rfl⟩
    · exact hes e he

theorem PlainRead.perused (r : PlainRead) (hq : r.run p = some q) : Perused p q :=
  (readInvariant_perused p).run r (.refl p) hq

theorem readObject_perused (nullMetaData : Bool) (hq : after (readObject nullMetaData) p = some q) : Perused p q := by
  have hload : ∀ e ∈ [Event.load p.mDataPos sizeofFlatBinderObject], ∃ off len, e = .load off len := by
    intro e he
    exact ⟨_, _, List.mem_singleton.mp he⟩
  have htriple : Triple (fun s => s = p) (readObject nullMetaData) (fun _ => Perused p) (Perused p) := by
    refine .ofFun fun s hs => ?_
    subst hs
    by_cases hn : s.mDataPos + sizeofFlatBinderObject ≤ s.mDataSize
    · have hpos : s.mDataPos + sizeofFlatBinderObject ≤ s.mDataSize + 3 := by omega
      dsimp only
      split_ifs
      · exact ⟨_, _, _, _, _, rfl, .refl _, .inr hpos, hload⟩
      · split
        · exact ⟨_, _, _, _, _, rfl, .refl _, .inr hpos, hload⟩
        · exact ⟨_, _, _, _, _, rfl, .refl _, .inr hpos, hload⟩
    · rw [if_neg hn]
      exact .refl s
  obtain ⟨res, s, hrun, hs⟩ := htriple.run rfl
  unfold after at hq
  rw [hrun] at hq
  cases hq
  exact hs

end Binder.Parcel
