import Binder.Lib.Transition
import Binder.Parcel.Incoming
import Binder.Parcel.PlainRead

/-! Reads of received data stay inside it. -/
namespace Binder.Parcel
open Binder.Lib Binder.Lib.Fallible List

variable {N m n : ℕ} {p q : Parcel}

/-- The data has `N` bytes, the position is at least `m`, and everything looked at so far is data. -/
structure At (N m : ℕ) (p : Parcel) : Prop where
  size : p.mDataSize = N
  lower : m ≤ p.mDataPos
  upper : p.mDataPos ≤ int32Max
  loads : ∀ off len, .load off len ∈ p.events → off + len ≤ N

def Inside (N m : ℕ) (p : Parcel) : Prop := At N m p ∧ p.mDataPos ≤ N

variable {off len : ℕ} {α : Type} {x : Read α} {Q : α → Parcel → Prop} {data : Memory} {objects : List ℕ}

namespace At

theorem mono {m' : ℕ} (h : At N m p) (hm : m' ≤ m) : At N m' p := ⟨h.size, hm.trans h.lower, h.upper, h.loads⟩

theorem log (h : At N m p) (hload : off + len ≤ N) : At N m (p.log [.load off len]) where
  size := h.size
  lower := h.lower
  upper := h.upper
  loads := by
    intro off' len' hmem
    rcases mem_cons.mp hmem with heq | hmem
    · cases heq
      exact hload
    · exact h.loads off' len' hmem

theorem dataAvail (h : At N m p) (hN : N ≤ int32Max) :
    ∃ avail, p.dataAvail = some avail ∧ p.mDataPos + avail ≤ int32Max := by
  have hsize := h.size
  have hupper := h.upper
  have hmax : p.dataSize ≤ int32Max ∧ p.mDataPos ≤ p.dataSize := by
    unfold dataSize
    split <;> omega
  refine ⟨p.dataSize - p.mDataPos, ?_, by omega⟩
  unfold Parcel.dataAvail
  rw [if_neg (by omega)]

end At

theorem triple_failed {P : Parcel → Prop} (h : Triple P x Q (At N m)) : Triple P x Q (At N 0) :=
  h.mono (fun _ hp => hp) (fun _ _ hq => hq) fun _ hq => hq.mono (Nat.zero_le _)

theorem triple_error {e : Status} : Triple (At N m) (throw e : Read α) Q (At N 0) :=
  .throw fun _ hq => hq.mono (Nat.zero_le _)

section Reads

variable (hN : N ≤ int32Max - 8)

include hN

theorem At.passOver (h : At N m p) (hn : p.mDataPos + n ≤ N) : Inside N (m + n) (passOver n p).2 := by
  obtain ⟨st, objs, hint, flag, -, heq⟩ := passOver_eq n p
  have hlower := h.lower
  rw [heq]
  refine ⟨⟨h.size, ?_, ?_, h.loads⟩, hn⟩
  · dsimp only
    omega
  · dsimp only
    omega

theorem triple_readAligned : Triple (At N m) (readAligned n) (fun _ => Inside N (m + n)) (At N m) := by
  refine .ofFun fun p hp => ?_
  by_cases hn : p.mDataPos + n ≤ p.mDataSize
  · have hpass := hp.passOver hN (hp.size ▸ hn)
    rw [if_pos hn]
    split
    · rename_i q hq
      rw [hq] at hpass
      exact ⟨hpass.1.log (hp.size ▸ hn), hpass.2⟩
    · rename_i err q _ hq
      rw [hq] at hpass
      exact hpass.1.mono (Nat.le_add_right _ _)
  · rw [if_neg hn]
    exact hp

theorem passInvariant_at : PassInvariant (At N m) where
  passOver _ _ hp hn := (hp.passOver hN (hp.size ▸ hn)).1.mono (Nat.le_add_right _ _)
  log _ _ _ hp hload := hp.log (hp.size ▸ hload)

theorem triple_read (len : ℕ) : Triple (At N m) (read len) (fun _ => At N m) (At N 0) :=
  triple_failed ((passInvariant_at hN).triple_read len)

theorem triple_readInplace (len : ℕ) : Triple (At N m) (readInplace len) (fun _ => At N m) (At N 0) :=
  triple_failed ((passInvariant_at hN).triple_readInplace len)

theorem triple_readCString : Triple (At N m) readCString (fun _ => At N m) (At N 0) := by
  refine .mk fun p hp => ?_
  have hsize := hp.size
  have hlower := hp.lower
  split_ifs with hpos
  · dsimp only
    split
    · rename_i len hlen
      have hlt := lt_of_findIdx hlen
      have hpad : padSize (len + 1) ≤ len + 4 := by
        unfold padSize
        omega
      rw [padSize?_eq (by omega), Option.map_some]
      refine ⟨_, _, rfl, ?_⟩
      refine At.log ⟨hsize, ?_, ?_, hp.loads⟩ ?_
      · dsimp only
        omega
      · dsimp only
        omega
      · omega
    · exact ⟨_, _, rfl, hp.log (by omega)⟩
  · exact ⟨_, _, rfl, hp⟩

theorem triple_readObject (nullMetaData : Bool) :
    Triple (At N m) (readObject nullMetaData) (fun _ => At N m) (At N 0) := by
  refine .ofFun fun p hp => ?_
  have hsize := hp.size
  have hlower := hp.lower
  split_ifs with hpos
  · have hq : At N m ({ p with mDataPos := p.mDataPos + sizeofFlatBinderObject }.log
        [.load p.mDataPos sizeofFlatBinderObject]) := by
      refine At.log ⟨hsize, ?_, ?_, hp.loads⟩ ?_
      · dsimp only
        omega
      · dsimp only
        omega
      · omega
    dsimp only
    split_ifs
    · exact hq
    · split
      · exact ⟨hq.size, hq.lower, hq.upper, hq.loads⟩
      · exact hq
  · exact hp

theorem triple_readInt32 : Triple (At N m) readInt32 (fun _ => Inside N (m + 4)) (At N m) :=
  (triple_readAligned hN).bind_pure

/-! ### Strings and containers -/

theorem triple_readString8Inplace : Triple (At N m) readString8Inplace (fun _ => At N m) (At N 0) :=
  triple_failed (passInvariant_at hN).triple_readString8Inplace

theorem triple_readString16Inplace : Triple (At N m) readString16Inplace (fun _ => At N m) (At N 0) :=
  triple_failed (passInvariant_at hN).triple_readString16Inplace

theorem triple_readString16 : Triple (At N m) readString16 (fun _ => At N m) (At N 0) := by
  refine (triple_readString16Inplace hN).bind fun str => ?_
  cases str with
  | none => exact triple_error
  | some => exact .pure fun q hq => hq

theorem triple_readBlock (c : Codec α) (size : ℕ) :
    Triple (At N m) (readBlock c size) (fun _ => At N m) (At N 0) := by
  refine (triple_readInplace hN _).bind fun data => ?_
  cases data with
  | none => exact triple_error
  | some => exact .pure fun q hq => hq

variable {C : Parcel → Prop} {k : Kind}

theorem triple_readAvail : Triple (fun p => At N m p ∧ C p) readAvail
    (fun avail q => At N m q ∧ C q ∧ q.mDataPos + avail ≤ int32Max) (At N 0) := by
  refine .mk fun p ⟨hp, hC⟩ => ?_
  obtain ⟨avail, havail, hle⟩ := hp.dataAvail (by omega)
  rw [havail]
  exact ⟨_, _, rfl, hp, hC, hle⟩

omit hN in
theorem triple_dataPosition : Triple (fun p => At N m p ∧ C p) dataPosition
    (fun pos q => At N m q ∧ C q ∧ q.mDataPos = pos) (At N 0) :=
  .ofFun fun _ hp => ⟨hp.1, hp.2, rfl⟩

omit hN in
theorem triple_rewind {pos : ℕ} (hpos : pos ≤ int32Max) :
    Triple (At N m) (rewind pos) (fun _ => At N pos) (At N 0) := by
  refine .mk fun p hp => ?_
  unfold setDataPosition
  rw [if_neg (by omega)]
  exact ⟨_, _, rfl, hp.size, le_rfl, hpos, hp.loads⟩

theorem triple_value (s : Scalar) : Triple (At N m) s.read (fun _ => At N m) (At N 0) :=
  triple_failed ((passInvariant_at hN).triple_readScalar s)

theorem triple_word : Triple (At N m) readInt32 (fun _ => At N m) (At N 0) := triple_value hN (.integral .int32)

/-- A read moves forward; the position that a nullable value goes back to is the one it started from. -/
theorem triple_readData {ι : Type} {U : Utf} {P : ι → Parcelable} (t : Ty ι k)
    (hP : ∀ i m, Triple (At N m) (P i).readFromParcel (fun _ => At N m) (At N 0)) :
    Triple (At N m) (readData U P t) (fun _ => At N m) (At N 0) := by
  induction t generalizing m with
  | scalar s => exact triple_value hN s
  | string16 => exact triple_readString16 hN
  | utf8 =>
    refine (triple_readString16Inplace hN).bind fun str => ?_
    rcases str with _ | ⟨src, size⟩
    · exact triple_error
    · refine .ite (fun _ => .pure fun q hq => hq) fun _ => ?_
      cases U.toUtf8 ((List.range size).map (charAt src)) with
      | none => exact triple_error
      | some => exact .pure fun q hq => hq
  | parcelable i => exact (triple_word hN).bind fun w => .ite (fun _ => triple_error) fun _ => hP i m
  | vector t ih =>
    refine (triple_word hN).bind fun size => .ite (fun _ => triple_error) fun _ => ?_
    refine .bind (R := fun _ => At N m) ((triple_readAvail hN (C := fun _ => True)).mono
      (fun _ hp => ⟨hp, trivial⟩) (fun _ _ hq => hq.1) fun _ hq => hq) fun avail =>
        .ite (fun _ => triple_error) fun _ => ?_
    cases t.packed? P with
    | some c => exact (triple_readBlock hN c _).bind_pure
    | none =>
      cases t.widened? P with
      | some c => exact (triple_readBlock hN c _).bind_pure
      | none => exact (Triple.times ih _).bind_pure
  | array t n hn ih =>
    refine (triple_word hN).bind fun size => .ite (fun _ => triple_error) fun _ => .ite (fun _ => triple_error) fun _ => ?_
    cases t.packed? P with
    | some c => exact triple_readBlock hN c n
    | none => exact Triple.times ih n
  | nullable t ih =>
    refine (triple_dataPosition.weaken fun p hp => ⟨hp, trivial⟩).bind
      (R := fun pos q => At N m q ∧ True ∧ q.mDataPos = pos) fun startPos => ?_
    have hbounds (p : Parcel) (hp : At N m p ∧ True ∧ p.mDataPos = startPos) : m ≤ startPos ∧ startPos ≤ int32Max :=
      ⟨hp.2.2 ▸ hp.1.lower, hp.2.2 ▸ hp.1.upper⟩
    refine .assume hbounds fun ⟨hm, hmax⟩ => ?_
    refine .bind (R := fun _ => At N m) ((triple_word hN).weaken fun p hp => hp.1)
      fun peek => .ite (fun _ => .pure fun q hq => hq) fun _ => ?_
    refine (triple_rewind hmax).bind fun _ => ?_
    have hread : Triple (At N startPos) (readData U P t) (fun _ => At N m) (At N 0) :=
      ih.mono (fun _ hp => hp) (fun _ _ hq => hq.mono hm) fun _ hq => hq
    exact hread.bind_pure

/-! ### Status and bundles -/

theorem triple_readPlain (t : Ty Empty k) : Triple (At N m) (readPlain t) (fun _ => At N m) (At N 0) :=
  triple_readData hN t fun i => i.elim

namespace BinderStatus

theorem triple_skipHeader : Triple (At N m) skipHeader (fun _ => At N 0) (At N 0) := by
  refine (triple_dataPosition.weaken fun p hp => ⟨hp, trivial⟩).bind
    (R := fun pos q => At N m q ∧ True ∧ q.mDataPos = pos) fun headerStart => ?_
  refine (triple_readAvail hN).bind fun headerAvail => ?_
  have hbound (p : Parcel) (hp : At N m p ∧ (True ∧ p.mDataPos = headerStart) ∧ p.mDataPos + headerAvail ≤ int32Max) :
      headerStart + headerAvail ≤ int32Max := hp.2.1.2 ▸ hp.2.2
  refine .assume hbound fun hmax => ?_
  refine .bind (R := fun _ => At N m) ((triple_word hN).weaken fun p hp => hp.1)
    fun headerSize => .ite (fun _ => triple_error) fun hsize => ?_
  have hpos : headerStart + headerSize.toNat ≤ int32Max := by
    omega
  exact (triple_rewind hpos).mono (fun _ hp => hp) (fun _ _ hq => hq.mono (Nat.zero_le _)) fun _ hq => hq

theorem triple_skipStackTrace : Triple (At N m) skipStackTrace (fun _ => At N 0) (At N 0) := by
  refine (triple_word hN).bind fun size => .ite (fun _ => triple_error) fun _ => ?_
  refine ((triple_readAvail hN).weaken fun p hp => ⟨hp, trivial⟩).bind
    (R := fun avail q => At N m q ∧ True ∧ q.mDataPos + avail ≤ int32Max) fun avail => ?_
  refine .ite (fun _ => .throw fun q hq => hq.1.mono (Nat.zero_le _)) fun hsize => ?_
  refine triple_dataPosition.bind fun pos => ?_
  have hbound (p : Parcel) (hp : At N m p ∧ (True ∧ p.mDataPos + avail ≤ int32Max) ∧ p.mDataPos = pos) :
      pos + avail ≤ int32Max := hp.2.2 ▸ hp.2.1.2
  refine .assume hbound fun hmax => ?_
  exact (triple_rewind (by omega)).mono (fun _ hp => hp.1) (fun _ _ hq => hq.mono (Nat.zero_le _)) fun _ hq => hq

theorem triple_readException (mException : BitVec 32) (s : BinderStatus) :
    Triple (At N m) (readException mException s) (fun _ => At N 0) (At N 0) := by
  refine (triple_readPlain hN _).bind fun message => (triple_skipStackTrace hN).bind fun _ => ?_
  refine .ite (fun _ => ?_) fun _ => .ite (fun _ => ?_) fun _ => .pure fun q hq => hq
  · exact (triple_word hN).bind_pure
  · exact (triple_skipHeader hN).bind_pure

theorem triple_readFromParcel (s : BinderStatus) : Triple (At N m) s.readFromParcel (fun _ => At N 0) (At N 0) := by
  have hfields : Triple (At N m) (readFields s) (fun _ => At N 0) (At N 0) := by
    refine (triple_word hN).bind fun mException => .ite (fun _ => ?_) fun _ => .ite (fun _ => ?_) fun _ => ?_
    · exact (triple_skipHeader hN).bind_pure
    · exact .pure fun q hq => hq.mono (Nat.zero_le _)
    · exact triple_readException hN mException s
  exact .tryCatch hfields.bind_pure fun status => .pure fun q hq => hq

end BinderStatus

namespace PersistableBundle

variable {nested : PersistableBundle → Read PersistableBundle}

/-- The bundle in an entry is only read after the type of the entry. -/
theorem triple_readEntry (hnested : ∀ b, Triple (Inside N (m + 4)) (nested b) (fun _ => At N m) (At N 0))
    (b : PersistableBundle) : Triple (At N m) (readEntry nested b) (fun _ => At N m) (At N 0) := by
  have hweak {α : Type} {x : Read α} (h : Triple (At N m) x (fun _ => At N m) (At N 0)) :
      Triple (Inside N (m + 4)) x (fun _ => At N m) (At N 0) :=
    h.weaken fun _ hp => hp.1.mono (Nat.le_add_right _ _)
  refine (triple_readString16 hN).bind fun key => (triple_failed (triple_readInt32 hN)).bind fun valueType => ?_
  split
  · exact (hweak (triple_readString16 hN)).bind_pure
  · exact (hweak (triple_word hN)).bind_pure
  · exact (hweak (triple_value hN (.integral .int64))).bind_pure
  · exact (hweak (triple_value hN .double)).bind_pure
  · exact (hweak (triple_value hN (.integral .bool))).bind_pure
  · exact (hweak (triple_readPlain hN _)).bind_pure
  · exact (hweak (triple_readPlain hN _)).bind_pure
  · exact (hweak (triple_readPlain hN _)).bind_pure
  · exact (hweak (triple_readPlain hN _)).bind_pure
  · exact (hnested _).bind_pure
  · exact (hweak (triple_readPlain hN _)).bind_pure
  · exact hweak triple_error

theorem triple_readInner (hnested : ∀ b, Triple (Inside N (m + 4)) (nested b) (fun _ => At N m) (At N 0))
    (length : ℕ) (b : PersistableBundle) :
    Triple (At N m) (readFromParcelInner nested length b) (fun _ => At N m) (At N 0) := by
  have hentries (n : ℕ) (b : PersistableBundle) :
      Triple (At N m) (readEntries nested n b) (fun _ => At N m) (At N 0) := by
    induction n generalizing b with
    | zero => exact .pure fun q hq => hq
    | succ n ih => exact (triple_readEntry hN hnested b).bind fun b => ih b
  refine .ite (fun _ => .pure fun q hq => hq) fun _ => ?_
  refine (triple_word hN).bind fun magic => .ite (fun _ => triple_error) fun _ => ?_
  exact (triple_word hN).bind fun numEntries => hentries _ b

variable {fuel : ℕ}

theorem triple_readNested_succ
    (hnested : ∀ b, Triple (Inside N (m + 4)) (readNested fuel b) (fun _ => At N m) (At N 0)) (b : PersistableBundle) :
    Triple (At N m) (readNested (fuel + 1) b) (fun _ => At N m) (At N 0) :=
  .bind (triple_failed (passInvariant_at hN).triple_readInt32OrZero) fun _ =>
    .ite (fun _ => triple_error) fun _ => triple_readInner hN hnested _ b

/-- Every level takes at least the four bytes of a type, so the fuel lasts. -/
theorem triple_readNested (hfuel : N < m + fuel) (b : PersistableBundle) :
    Triple (Inside N m) (readNested fuel b) (fun _ => At N m) (At N 0) := by
  induction fuel generalizing m b with
  | zero =>
    intro p hp
    have hlower := hp.1.lower
    have hupper := hp.2
    omega
  | succ fuel ih =>
    have hnested (b : PersistableBundle) :
        Triple (Inside N (m + 4)) (readNested fuel b) (fun _ => At N m) (At N 0) :=
      (ih (m := m + 4) (by omega) b).mono (fun _ hp => hp) (fun _ _ hq => hq.mono (Nat.le_add_right _ _))
        fun _ hq => hq
    exact (triple_readNested_succ hN hnested b).weaken fun _ hp => hp.1

theorem triple_readFromParcel (b : PersistableBundle) :
    Triple (At N m) b.readFromParcel (fun _ => At N m) (At N 0) := by
  intro p hp
  have hsize := hp.size
  subst hsize
  have hnested (b : PersistableBundle) :
      Triple (Inside p.mDataSize (m + 4)) (readNested p.mDataSize b) (fun _ => At p.mDataSize m)
        (At p.mDataSize 0) :=
    (triple_readNested hN (by omega) b).mono (fun _ hp => hp) (fun _ _ hq => hq.mono (Nat.le_add_right _ _))
      fun _ hq => hq
  rcases triple_readNested_succ hN hnested b p hp with ⟨a, q, ha, hq⟩ | ⟨e, q, he, hq⟩
  · exact .inl ⟨a, q, returns_mk.mpr ha, hq⟩
  · exact .inr ⟨e, q, fails_mk.mpr he, hq⟩

end PersistableBundle

end Reads

/-! ### Sequences of reads -/

inductive ReadOp
  | read (len : ℕ)
  | readInplace (len : ℕ)
  | readScalar (s : Scalar)
  | readCString
  | readString8Inplace
  | readString16Inplace
  | readObject (nullMetaData : Bool)
  | readStatus (s : BinderStatus)
  | readBundle (b : PersistableBundle)
  | setDataPosition (pos : ℕ)

def ReadOp.run (p : Parcel) : ReadOp → Option Parcel
  | .read len => after (Parcel.read len) p
  | .readInplace len => after (Parcel.readInplace len) p
  | .readScalar s => after s.read p
  | .readCString => after Parcel.readCString p
  | .readString8Inplace => after Parcel.readString8Inplace p
  | .readString16Inplace => after Parcel.readString16Inplace p
  | .readObject nullMetaData => after (Parcel.readObject nullMetaData) p
  | .readStatus s => after s.readFromParcel p
  | .readBundle b => after b.readFromParcel p
  | .setDataPosition pos => Parcel.setDataPosition pos p

def ReadOp.Allowed (_ : Parcel) : ReadOp → Prop
  | .setDataPosition pos => pos ≤ int32Max
  | _ => True

instance (p : Parcel) : (op : ReadOp) → Decidable (op.Allowed p)
  | .setDataPosition pos => inferInstanceAs (Decidable (pos ≤ int32Max))
  | .read _ | .readInplace _ | .readScalar _ | .readCString | .readString8Inplace | .readString16Inplace
  | .readObject _ | .readStatus _ | .readBundle _ => .isTrue trivial

theorem after_of_triple (hx : Triple (At N 0) x (fun _ => At N 0) (At N 0)) (hp : At N 0 p) :
    ∃ q, after x p = some q ∧ At N 0 q := by
  obtain ⟨r, q, hrun, hq⟩ := hx.run hp
  exact ⟨q, by rw [after, hrun]; rfl, hq⟩

theorem At.run (hN : N ≤ int32Max - 8) (hp : At N 0 p) (op : ReadOp) (hop : op.Allowed p) :
    ∃ q, op.run p = some q ∧ At N 0 q := by
  cases op with
  | read len => exact after_of_triple (triple_read hN len) hp
  | readInplace len => exact after_of_triple (triple_readInplace hN len) hp
  | readScalar s => exact after_of_triple (triple_value hN s) hp
  | readCString => exact after_of_triple (triple_readCString hN) hp
  | readString8Inplace => exact after_of_triple (triple_readString8Inplace hN) hp
  | readString16Inplace => exact after_of_triple (triple_readString16Inplace hN) hp
  | readObject nullMetaData => exact after_of_triple (triple_readObject hN nullMetaData) hp
  | readStatus s => exact after_of_triple (BinderStatus.triple_readFromParcel hN s) hp
  | readBundle b => exact after_of_triple (PersistableBundle.triple_readFromParcel hN b) hp
  | setDataPosition pos =>
    have hpos : pos ≤ int32Max := hop
    refine ⟨{ p with mDataPos := pos, mNextObjectHint := 0, mObjectsSorted := false }, ?_, ?_⟩
    · exact if_neg (by omega)
    · exact ⟨hp.size, Nat.zero_le _, hpos, hp.loads⟩

theorem checkObjects_loads {minOffset : ℕ} (hobjects : ∀ o ∈ objects, o + sizeofFlatBinderObject ≤ N)
    (h : .load off len ∈ (checkObjects data minOffset objects).1) : off + len ≤ N := by
  induction objects generalizing minOffset with
  | nil => simp [checkObjects] at h
  | cons o objects ih =>
    rw [forall_mem_cons] at hobjects
    have hfirst : sizeofFlatBinderObject = 24 := rfl
    unfold checkObjects at h
    dsimp only at h
    split_ifs at h
    · simp at h
    · rcases mem_append.mp h with h | h
      · exact ih hobjects.2 h
      · cases mem_singleton.mp h
        omega
    · cases mem_singleton.mp h
      omega

theorem scanRange_loads {sorted : Bool} {offset size : ℕ} (hobjects : ∀ o ∈ objects, o + sizeofFlatBinderObject ≤ N)
    (h : .load off len ∈ (scanRange data sorted offset size objects).1) : off + len ≤ N := by
  induction objects with
  | nil => simp [scanRange] at h
  | cons o objects ih =>
    rw [forall_mem_cons] at hobjects
    have hfirst : sizeofFlatBinderObject = 24 := rfl
    unfold scanRange at h
    split_ifs at h
    · exact ih hobjects.2 h
    · simp at h
    · exact ih hobjects.2 h
    · cases mem_singleton.mp h
      omega
    · rcases mem_append.mp h with h | h
      · exact ih hobjects.2 h
      · cases mem_singleton.mp h
        omega

theorem freeData_loads (h : .load off len ∈ p.freeData.events) : .load off len ∈ p.events := by
  have hrelease {q : Parcel} (hq : .load off len ∈ q.releaseObjects.events) : .load off len ∈ q.events := by
    rcases mem_append.mp hq with hq | hq
    · obtain ⟨obj, -, hobj⟩ := mem_map.mp hq
      cases hobj
    · exact hq
  have h : .load off len ∈ p.freeDataNoInit.events := h
  unfold freeDataNoInit at h
  dsimp only at h
  split_ifs at h
  · rcases mem_cons.mp h with h | h
    · cases h
    · exact h
  · rcases mem_cons.mp h with h | h
    · cases h
    · exact hrelease h
  · exact hrelease h

theorem At.logs {es : List Event} (h : At N m p) (hes : ∀ off len, .load off len ∈ es → off + len ≤ N) :
    At N m (p.log es) where
  size := h.size
  lower := h.lower
  upper := h.upper
  loads := by
    intro off len hmem
    rcases mem_append.mp hmem with hmem | hmem
    · exact hes off len hmem
    · exact h.loads off len hmem

theorem triple_hasFileDescriptorsInRange (offset len : ℕ) :
    Triple (fun p => At N m p ∧ ∀ o ∈ p.mObjects, o + sizeofFlatBinderObject ≤ N)
      (hasFileDescriptorsInRange offset len) (fun _ => At N m) (At N m) := by
  refine .ofFun fun p ⟨hp, hobjects⟩ => ?_
  split_ifs
  · exact hp
  · exact hp
  · exact hp.logs fun off len h => scanRange_loads hobjects h

theorem At.scanForFds (h : At N m p) (hobjects : ∀ o ∈ p.mObjects, o + sizeofFlatBinderObject ≤ N) :
    At N m p.scanForFds := by
  obtain ⟨r, q, hrun, hq⟩ := (triple_hasFileDescriptorsInRange 0 p.dataSize).run ⟨h, hobjects⟩
  unfold Parcel.scanForFds
  rw [hrun]
  cases r with
  | ok | error => exact ⟨hq.size, hq.lower, hq.upper, hq.loads⟩

theorem at_ipcSetDataReference
    (hobjects : ∀ o ∈ objects, o + sizeofFlatBinderObject ≤ N) (hp : ∀ off len, .load off len ∉ p.events) :
    At N 0 (ipcSetDataReference data N objects p) := by
  apply At.scanForFds
  · refine ⟨rfl, Nat.zero_le _, Nat.zero_le _, fun off len h => ?_⟩
    rcases mem_append.mp h with h | h
    · exact checkObjects_loads hobjects h
    · exact absurd (freeData_loads h) (hp off len)
  · dsimp only
    split_ifs
    · exact hobjects
    · simp

/-- Reads of received data of at most `INT32_MAX - 8` bytes look at nothing outside it and never abort. -/
theorem reads_inBounds {data : Memory} {size : ℕ} {objects : List ℕ} {p₀ : Parcel} (hsize : size ≤ int32Max - 8)
    (hobjects : ∀ o ∈ objects, o + sizeofFlatBinderObject ≤ size) (hp₀ : ∀ off len, .load off len ∉ p₀.events)
    (hp : Reachable ReadOp.run ReadOp.Allowed (ipcSetDataReference data size objects p₀) p) :
    p.mDataSize = size ∧ (∀ off len, .load off len ∈ p.events → off + len ≤ p.mDataSize) ∧
      ∀ op, ReadOp.Allowed p op → (op.run p).isSome := by
  have hat : At size 0 p := by
    refine hp.invariant (At size 0) (at_ipcSetDataReference hobjects hp₀) fun s op s' hs hop hrun => ?_
    obtain ⟨q, hq, hatq⟩ := hs.run hsize op hop
    rw [hrun] at hq
    cases hq
    exact hatq
  refine ⟨hat.size, fun off len h => hat.size ▸ hat.loads off len h, fun op hop => ?_⟩
  obtain ⟨q, hq, -⟩ := hat.run hsize op hop
  rw [hq]
  rfl

/-- A string that claims more units than there are bytes, and what is read behind it. -/
theorem reads_inBounds_example : ∃ p : Parcel, p.mDataPos = 8 ∧ .load 4 4 ∈ p.events ∧
    ∀ off len, .load off len ∈ p.events → off + len ≤ p.mDataSize := by
  obtain ⟨p, hp, hpos, hload⟩ := exists_reachable ReadOp.run ReadOp.Allowed
    (ipcSetDataReference (.ofBytes [255, 255, 255, 126, 1, 2, 3, 0]) 8 [] {})
    [.readString16Inplace, .readScalar (.integral .int32), .readCString]
    (fun p => p.mDataPos = 8 ∧ .load 4 4 ∈ p.events) (by decide)
  exact ⟨p, hpos, hload, (reads_inBounds (by decide) (by simp) (by simp) hp).2.1⟩

end Binder.Parcel
