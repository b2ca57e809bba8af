import Binder.Parcel.Tracks

/-! Writes that are made of other writes, and when they report every part that they do not store. -/
namespace Binder.Parcel
open Binder.Lib List

variable {p q r : Parcel} {env : Env}

/-- A write with the bytes it is to store, and a condition under which it stores them unless it reports an error. -/
structure Request where
  run : Env → Parcel → Status × Parcel
  bytes : List UInt8
  Honest : Env → Parcel → Prop
  sound : ∀ {env p q}, run env p = (.ok, q) → Honest env p → Placed bytes p q ∧ Spared p q

namespace Request

def aligned (bs : List UInt8) (hlen : bs.length ≤ int32Max) : Request where
  run env p := writeAligned env bs p
  bytes := bs
  Honest env p := AlignedHonest env bs p
  sound {env p q} hrun hhonest := by
    have hplaced := (writeAligned_honest_iff env bs p).mpr hhonest
    have hspared := (writeAligned_written env hlen p).spared
    rw [hrun] at hplaced hspared
    exact ⟨hplaced rfl, hspared⟩

theorem length_wordBytes_le (v : BitVec 32) : (wordBytes v).length ≤ int32Max := by
  have hlen := length_wordBytes v
  rw [hlen]
  decide

def word (v : BitVec 32) : Request := aligned (wordBytes v) (length_wordBytes_le v)

/-- A word whose status is not looked at. -/
def dropped (v : BitVec 32) : Request where
  run env p := (.ok, (writeInt32 env v p).2)
  bytes := wordBytes v
  Honest env p := RoomFor env 4 p ∧ Reaches 4 p
  sound {env p q} hrun hhonest := by
    have hplaced := (dropped_honest_iff env v p).mpr hhonest
    have hspared := (writeAligned_written env (length_wordBytes_le v) p).spared
    obtain rfl := (Prod.mk.inj hrun).2
    exact ⟨hplaced, hspared⟩

def block (pieces : List (List UInt8)) (onNull : OnNull) : Request where
  run env p := fill env pieces onNull p
  bytes := padded pieces.flatten
  Honest env p := InplaceHonest env pieces.flatten.length onNull p
  sound {env p q} hrun hhonest := by
    have hplaced := (fill_honest_iff env pieces onNull p).mpr hhonest
    have hspared := (fill_written env pieces onNull p).spared
    rw [hrun] at hplaced hspared
    exact ⟨hplaced rfl, hspared⟩

def nothing : Request where
  run _ p := (.ok, p)
  bytes := []
  Honest _ _ := True
  sound hrun _ := by
    obtain rfl := (Prod.mk.inj hrun).2
    exact ⟨.nil rfl, .refl _⟩

/-- One write after the other, up to the first error. -/
def seq (r s : Request) : Request where
  run env p := match r.run env p with
    | (.ok, q) => s.run env q
    | result => result
  bytes := r.bytes ++ s.bytes
  Honest env p := ∀ q, r.run env p = (.ok, q) → (s.run env q).1 = .ok → r.Honest env p ∧ s.Honest env q
  sound {env p q'} hrun hhonest := by
    cases hr : r.run env p with
    | mk st q =>
      rw [hr] at hrun
      by_cases hst : st = .ok
      · subst hst
        obtain ⟨hfirst, hsecond⟩ := hhonest q hr (congrArg Prod.fst hrun)
        obtain ⟨hplaced, hspared⟩ := r.sound hr hfirst
        obtain ⟨hplaced', hspared'⟩ := s.sound hrun hsecond
        exact ⟨hplaced.append hplaced' hspared', hspared.trans hspared' (Nat.le.intro hplaced.pos.symm)⟩
      · have hfail : (st, q) = (.ok, q') := by cases st <;> first | exact hrun | exact absurd rfl hst
        exact absurd (Prod.mk.inj hfail).1 hst

theorem run_seq_of_ok {r : Request} (h : r.run env p = (.ok, q)) (s : Request) :
    (r.seq s).run env p = s.run env q := by
  simp only [seq, h]

theorem run_seq_of_ne {r : Request} {st : Status} (h : r.run env p = (st, q)) (hst : st ≠ .ok) (s : Request) :
    (r.seq s).run env p = (st, q) := by
  simp only [seq, h]
  cases st <;> first | rfl | exact absurd rfl hst

theorem honest_word {v : BitVec 32} (h : Reaches 4 p) : (word v).Honest env p := by
  intro _ _
  have hlen := length_wordBytes v
  rwa [hlen]

theorem honest_block {pieces : List (List UInt8)} {onNull : OnNull}
    (h : InplaceHonest env pieces.flatten.length onNull p) : (block pieces onNull).Honest env p := h

theorem Honest.seq {r s : Request} (hr : r.Honest env p) (hs : s.Honest env (r.run env p).2) :
    (r.seq s).Honest env p := by
  intro q hq _
  rw [hq] at hs
  exact ⟨hr, hs⟩

/-- A write that reports no error has stored its bytes. -/
theorem placed (r : Request) (hhonest : r.Honest env p) (hok : (r.run env p).1 = .ok) :
    Placed r.bytes p (r.run env p).2 :=
  (r.sound (Prod.ext hok rfl) hhonest).1

/-! ### Strings -/

def string16 (str : List (BitVec 16)) : Request :=
  (word (.ofNat 32 str.length)).seq (block [char16Bytes str, [0, 0]] .sticky)

theorem bytes_string16 (str : List (BitVec 16)) : (string16 str).bytes = (stringChunks str).flatten := by
  change wordBytes _ ++ padded (char16Bytes str ++ ([0, 0] ++ [])) = _
  simp [stringChunks]

theorem run_word_seq (env : Env) (v : BitVec 32) (s : Request) {f : Parcel → Status × Parcel}
    (h : ∀ q, s.run env q = f q) (p : Parcel) : ((word v).seq s).run env p = match writeInt32 env v p with
      | (.ok, q) => f q
      | result => result := by
  change (match writeInt32 env v p with
    | (.ok, q) => s.run env q
    | result => result) = _
  cases writeInt32 env v p with
  | mk st q => cases st <;> first | exact h q | rfl

end Request

theorem fill_terminated (env : Env) (bs : List UInt8) (n : ℕ) (p : Parcel) :
    fill env [bs, List.replicate n 0] .sticky p = match writeInplace env (bs.length + n) p with
      | (some d, q) => (.ok, (q.store d (.ofBytes bs) bs.length).store (d + bs.length) (fun _ => 0) n)
      | (none, q) => (q.mError, q) := by
  have hlen : [bs, List.replicate n 0].flatten.length = bs.length + n := by simp
  unfold fill
  rw [hlen]
  cases writeInplace env (bs.length + n) p with
  | mk d =>
    cases d with
    | none => rfl
    | some => simp only [storeAll, ofBytes_replicate, length_replicate]

theorem Request.run_string16 (env : Env) (str : List (BitVec 16)) (p : Parcel) :
    (string16 str).run env p = writeString16 env str p := by
  have hterm := fill_terminated env (char16Bytes str) 2
  rw [length_char16Bytes] at hterm
  exact run_word_seq env _ _ hterm p

/-! ### Writes inside the data -/

/-- Inside the data, `f` writes the blocks `cs`, as far as there is room, if it reports no error. -/
def Writes (e : Bool) (env : Env) (f : Parcel → Status × Parcel) (cs : List (List UInt8)) : Prop :=
  ∀ p q, Within e p → f p = (.ok, q) → Tracks e env cs p q

section Writes

variable {e : Bool} {cs : List (List UInt8)} {f : Parcel → Status × Parcel} {α : Type}

theorem Writes.of_tracks (h : ∀ p, Within e p → Tracks e env cs p (f p).2) : Writes e env f cs := by
  intro p q hp hrun
  have htracks := h p hp
  rwa [hrun] at htracks

/-- Of what is reported as written, all is stored if and only if no block is left out. -/
theorem Writes.placed_iff (h : Writes e env f cs) (hp : Within e p) (hok : (f p).1 = .ok) :
    Placed cs.flatten p (f p).2 ↔ Takes env cs p :=
  (h p _ hp (Prod.ext hok rfl)).placed_iff

theorem writes_word (v : BitVec 32) : Writes e env (writeInt32 env v) [wordBytes v] :=
  .of_tracks fun _ hp => writeInt32_tracks v hp

/-- A word and what comes behind it. -/
theorem Writes.behind (h : Writes e env f cs) (v : BitVec 32) : Writes e env (fun p => match writeInt32 env v p with
    | (.ok, q) => f q
    | result => result) (wordBytes v :: cs) := by
  intro p q hp hrun
  dsimp only at hrun
  split at hrun
  · rename_i r hr
    have hfirst := writes_word v p r hp hr
    exact hfirst.trans (h r q hfirst.within hrun)
  · rename_i hne
    exact absurd hrun (hne q)

theorem writes_fill (pieces : List (List UInt8)) (onNull : OnNull) :
    Writes e env (fill env pieces onNull) [padded pieces.flatten] :=
  .of_tracks fun _ hp => fill_tracks pieces onNull hp

theorem writes_terminated (bs : List UInt8) (n : ℕ) : Writes e env (fun p =>
    match writeInplace env (bs.length + n) p with
      | (some d, q) => (.ok, (q.store d (.ofBytes bs) bs.length).store (d + bs.length) (fun _ => 0) n)
      | (none, q) => (q.mError, q)) [padded (bs ++ List.replicate n 0)] := by
  have hfill : Writes e env (fill env [bs, List.replicate n 0] .sticky) _ := writes_fill _ _
  rw [funext (fill_terminated env bs n)] at hfill
  simpa using hfill

def string8Chunks (str : Option (List UInt8)) : List (List UInt8) :=
  str.elim [wordBytes (-1)] fun str => [wordBytes (.ofNat 32 str.length), padded (str ++ [0])]

theorem writes_string8 (str : Option (List UInt8)) : Writes e env (writeString8 env str) (string8Chunks str) := by
  cases str with
  | none => exact writes_word (-1)
  | some str => exact (writes_terminated str 1).behind _

theorem writes_string16 (str : List (BitVec 16)) : Writes e env (writeString16 env str) (stringChunks str) := by
  have hblock : Writes e env _ _ := writes_terminated (char16Bytes str) 2
  rw [length_char16Bytes] at hblock
  exact hblock.behind _

theorem writes_utf8 (U : Utf) (str : List UInt8) :
    Writes e env (writeUtf8AsUtf16 U env str) ((U.toUtf16 str).elim [] stringChunks) := by
  unfold writeUtf8AsUtf16
  cases U.toUtf16 str with
  | none =>
    intro p q _ hrun
    cases hrun
  | some units =>
    have hlen : (char16Bytes units ++ [0, 0]).length = (units.length + 1) * 2 := by
      simp
      ring
    have hfill : Writes e env (fill env [char16Bytes units ++ [0, 0]] .noMemory) _ := writes_fill _ _
    have heq (p : Parcel) : fill env [char16Bytes units ++ [0, 0]] .noMemory p =
        match writeInplace env ((units.length + 1) * 2) p with
        | (some dst, p) => (.ok, p.store dst (.ofBytes (char16Bytes units ++ [0, 0])) ((units.length + 1) * 2))
        | (none, p) => (.noMemory, p) := by
      unfold fill
      rw [flatten_singleton, hlen]
      cases writeInplace env ((units.length + 1) * 2) p with
      | mk d => cases d <;> simp only [storeAll, hlen, OnNull.status]
    rw [funext heq, flatten_singleton] at hfill
    intro p q hp hrun
    dsimp only at hrun
    split_ifs at hrun
    · cases hrun
    · exact hfill.behind _ p q hp hrun

theorem writes_scalar (s : Scalar) (v : s.Val) : Writes e env (s.write env v) [s.wire.encode v] := by
  have hlen : (s.wire.encode v).length ≤ int32Max := by
    have hsize := s.wire_size
    have hmax : int32Max = 2 ^ 31 - 1 := rfl
    rw [s.wire.length_encode]
    omega
  rw [s.write_eq]
  exact .of_tracks fun p hp => writeAligned_tracks hp hlen

theorem writes_packed (c : Codec α) (vs : List α) :
    Writes e env (writePacked env c vs) [padded (vs.flatMap c.encode)] := by
  refine .of_tracks fun p hp => ?_
  have htracks : Tracks e env _ p _ := write_tracks (dataPtr env p.mDataPos (vs.flatMap c.encode)) hp
  rwa [getD_dataPtr] at htracks

theorem writes_widened (c : Codec α) (vs : List α) :
    Writes e env (writeWidened env c vs) [padded (vs.flatMap c.encode)] := by
  have hfill : Writes e env (fill env [vs.flatMap c.encode] .badValue) _ := writes_fill _ _
  have heq (p : Parcel) : fill env [vs.flatMap c.encode] .badValue p = writeWidened env c vs p := by
    unfold fill writeWidened
    rw [flatten_singleton]
    dsimp only
    cases writeInplace env (vs.flatMap c.encode).length p with
    | mk d => cases d <;> rfl
  rwa [funext heq, flatten_singleton] at hfill

theorem writes_each {f : α → Parcel → Status × Parcel} {cs : α → List (List UInt8)} (h : ∀ a, Writes e env (f a) (cs a))
    (as : List α) : Writes e env (writeEach f as) (as.flatMap cs) := by
  induction as with
  | nil =>
    intro p q hp hrun
    cases hrun
    exact .refl hp
  | cons a as ih =>
    intro p q hp hrun
    unfold writeEach at hrun
    split at hrun
    · rename_i r hr
      have hfirst := h a p r hp hr
      exact hfirst.trans (ih r q hfirst.within hrun)
    · rename_i hne
      exact absurd hrun (hne q)

/-- `writeData` writes the blocks of the value, if a parcelable writes those that `B` gives for it. -/
theorem writes_data {ι : Type} {P : ι → Parcelable} (U : Utf) {B : ∀ i, (P i).Val → List (List UInt8)}
    (hB : ∀ i v, Writes e env ((P i).writeToParcel env v) (B i v)) {k : Kind} (t : Ty ι k) (v : t.Val P) :
    Writes e env (writeData U P env t v) (chunks U B t v) := by
  induction t with
  | scalar s => exact writes_scalar s v
  | string16 => exact writes_string16 v
  | utf8 => exact writes_utf8 U v
  | parcelable i => exact (hB i v).behind _
  | vector t ih =>
    intro p q hp hrun
    simp only [writeData] at hrun
    rw [if_neg (by intro hlong; rw [if_pos hlong] at hrun; cases hrun)] at hrun
    have hsize : Tracks e env _ p _ := writeInt32_tracks (.ofNat 32 v.length) hp
    refine hsize.trans ?_
    cases hpacked : t.packed? P with
    | some c =>
      simp only [hpacked] at hrun
      exact writes_packed c v _ q hsize.within hrun
    | none =>
      simp only [hpacked] at hrun
      cases hwidened : t.widened? P with
      | some c =>
        simp only [hwidened] at hrun
        exact writes_widened c v _ q hsize.within hrun
      | none =>
        simp only [hwidened] at hrun
        exact writes_each ih v _ q hsize.within hrun
  | array t n hn ih =>
    intro p q hp hrun
    simp only [writeData] at hrun
    unfold chunks
    cases hpacked : t.packed? P with
    | some c =>
      simp only [hpacked] at hrun
      exact (writes_packed c v.val).behind _ p q hp hrun
    | none =>
      simp only [hpacked] at hrun
      exact (writes_each ih v.val).behind _ p q hp hrun
  | nullable t ih =>
    cases v with
    | none => exact writes_word t.nullWord
    | some v => exact ih v

end Writes

section Encoded

variable {ι : Type} (U : Utf) (P : ι → Parcelable)

end Encoded

end Binder.Parcel
