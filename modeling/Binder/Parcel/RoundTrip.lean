import Mathlib.Algebra.BigOperators.Ring.List
import Binder.Parcel.Composite
import Binder.Parcel.ReadBack

/-! Values that are written at the end of a parcel and read back. -/
namespace Binder.Parcel
open Binder.Lib Binder.Lib.Fallible List

variable {ι : Type} {U : Utf} {P : ι → Parcelable} {B : ∀ i, (P i).Val → List (List UInt8)} {env : Env}
  {p q r : Parcel} {k : Kind}

/-- No `std::string` in the type. -/
def Ty.Plain : {k : Kind} → Ty ι k → Prop
  | _, .scalar _ | _, .string16 | _, .parcelable _ => True
  | _, .utf8 => False
  | _, .vector t | _, .array t _ _ | _, .nullable t => t.Plain

/-- What a parcelable writes behind its flag when it reports no error. -/
def Parcelable.Offers (P : Parcelable) (blocks : P.Val → List (List UInt8)) : Prop :=
  ∀ env v p q, env.Allocates → AtEnd p → P.writeToParcel env v p = (.ok, q) → Tracks true env (blocks v) p q

/-- The read of a parcelable inverts its write. -/
structure Parcelable.Inverts (P : Parcelable) (blocks : P.Val → List (List UInt8)) : Prop where
  offers : P.Offers blocks
  aligned : ∀ v, ∀ c ∈ blocks v, 4 ∣ c.length
  reads : ∀ v p, Readable p → Holds p (blocks v).flatten → p.Clear (blocks v).flatten.length →
    ∃ q, Returns P.readFromParcel p v q ∧ Passed p (blocks v).flatten.length q

/-- A value is only read from as many bytes as it is written to. -/
def Parcelable.Exact (P : Parcelable) (blocks : P.Val → List (List UInt8)) : Prop :=
  ∀ v p q, Readable p → p.Clear 0 → Returns P.readFromParcel p v q →
    Passed p (blocks v).flatten.length q ∧ p.Clear (blocks v).flatten.length

variable {n pos m : ℕ} {α : Type} {t : Ty ι k} {c : Codec (t.Val P)} {vs : List (t.Val P)} {units : List (BitVec 16)}

section Encode

variable (U B)

def encode (t : Ty ι k) (v : t.Val P) : List UInt8 := (chunks U B t v).flatten

def encodeElements (t : Ty ι k) (vs : List (t.Val P)) : List UInt8 :=
  match t.packed? P with
  | some c => padded (vs.flatMap c.encode)
  | none => match t.widened? P with
    | some c => padded (vs.flatMap c.encode)
    | none => vs.flatMap (encode U B t)

def encodeFixed (t : Ty ι k) (vs : List (t.Val P)) : List UInt8 :=
  match t.packed? P with
  | some c => padded (vs.flatMap c.encode)
  | none => vs.flatMap (encode U B t)

/-- How far an object may reach into the bytes of a value without being noticed. -/
def grace : {k : Kind} → (t : Ty ι k) → t.Val P → ℕ
  | _, .string16, units => leeway units
  | _, .scalar _, _ | _, .utf8, _ | _, .parcelable _, _ | _, .vector _, _ | _, .array .., _ | _, .nullable _, _ => 0

variable {U B}

theorem flatten_flatMap_chunks (t : Ty ι k) (vs : List (t.Val P)) :
    (vs.flatMap (chunks U B t)).flatten = vs.flatMap (encode U B t) := by
  induction vs with
  | nil => rfl
  | cons v vs ih => rw [flatMap_cons, flatten_append, ih, flatMap_cons, encode]

theorem encode_scalar (s : Scalar) (v : (Ty.scalar s).Val P) : encode U B (.scalar s) v = s.wire.encode v := by
  simp only [encode, chunks, flatten_singleton]

theorem encode_parcelable (i : ι) (v : (Ty.parcelable i).Val P) :
    encode U B (.parcelable i) v = wordBytes kNonNullParcelableFlag ++ (B i v).flatten := rfl

theorem encode_vector (t : Ty ι k) (vs : (Ty.vector t).Val P) : encode U B (.vector t) vs =
    wordBytes (.ofNat 32 vs.length) ++ encodeElements U B t vs := by
  rw [encode, chunks, flatten_cons]
  unfold encodeElements
  cases t.packed? P with
  | some => simp
  | none =>
    cases t.widened? P with
    | some => simp
    | none => exact congrArg _ (flatten_flatMap_chunks t vs)

theorem encode_array (t : Ty ι k) (hn : n ≤ int32Max) (vs : (Ty.array t n hn).Val P) :
    encode U B (.array t n hn) vs = wordBytes (.ofNat 32 n) ++ encodeFixed U B t vs.val := by
  rw [encode, chunks, flatten_cons]
  unfold encodeFixed
  cases t.packed? P with
  | some => simp
  | none => exact congrArg _ (flatten_flatMap_chunks t vs.val)

end Encode

/-! ### Sizes -/

theorem four_le_length_encode (t : Ty ι k) (ht : t.Plain) (v : t.Val P) : 4 ≤ (encode U B t v).length := by
  have hword (w : BitVec 32) (bs : List UInt8) : 4 ≤ (wordBytes w ++ bs).length := by
    rw [length_append, length_wordBytes]
    omega
  induction t with
  | scalar s =>
    have hsize := s.wire_size
    have hlen : (encode U B (.scalar s) v).length = s.wire.size := by
      rw [encode_scalar]
      exact s.wire.length_encode v
    omega
  | string16 => exact hword _ _
  | utf8 => exact ht.elim
  | parcelable i => exact hword _ _
  | vector t _ =>
    exact hword _ _
  | array t n hn _ =>
    exact hword _ _
  | nullable t ih =>
    cases v with
    | none => exact hword _ _
    | some v => exact ih ht v

theorem length_le_length_flatMap {enc : α → List UInt8} (h : ∀ a, 1 ≤ (enc a).length)
    (as : List α) : as.length ≤ (as.flatMap enc).length := by
  induction as with
  | nil => simp
  | cons a as ih =>
    have := h a
    rw [flatMap_cons, length_append, length_cons]
    omega

theorem Scalar.object_size_pos (s : Scalar) : 0 < s.object.size := by
  rcases s with u | _ | _ | u
  · cases u <;> decide
  · decide
  · decide
  · cases u <;> decide

theorem Ty.packed?_size (h : t.packed? P = some c) : 0 < c.size := by
  cases t with
  | scalar s =>
    simp only [Ty.packed?] at h
    split_ifs at h
    cases h
    exact s.object_size_pos
  | _ => cases h

theorem Ty.widened?_size (h : t.widened? P = some c) : 0 < c.size := by
  cases t with
  | scalar s =>
    simp only [Ty.widened?] at h
    split_ifs at h
    cases h
    have := s.wire_size
    omega
  | _ => cases h

/-- The bound against the available bytes lets every written vector through. -/
theorem length_le_length_encodeElements (t : Ty ι k) (ht : t.Plain) (vs : List (t.Val P)) :
    vs.length ≤ (encodeElements U B t vs).length := by
  have hblock {c : Codec (t.Val P)} (hsize : 0 < c.size) : vs.length ≤ (padded (vs.flatMap c.encode)).length := by
    rw [length_padded]
    refine le_trans ?_ (le_padSize _)
    apply length_le_length_flatMap
    intro v
    rw [c.length_encode]
    exact hsize
  unfold encodeElements
  cases hpacked : t.packed? P with
  | some => exact hblock (Ty.packed?_size hpacked)
  | none =>
    cases hwidened : t.widened? P with
    | some => exact hblock (Ty.widened?_size hwidened)
    | none =>
      apply length_le_length_flatMap
      intro v
      have := four_le_length_encode (U := U) (B := B) t ht v
      omega

/-! ### The reader -/

theorem returns_readAvail : Returns readAvail p n q ↔ p.dataAvail = some n ∧ q = p := by
  unfold readAvail
  rw [returns_mk]
  cases p.dataAvail <;> simp [eq_comm]

theorem Readable.dataAvail (h : Readable p) (hpos : p.mDataPos ≤ p.mDataSize) :
    p.dataAvail = some (p.mDataSize - p.mDataPos) := by
  have hsize := h.size
  have hdata : p.dataSize = p.mDataSize := by
    unfold dataSize
    split <;> omega
  unfold Parcel.dataAvail
  rw [hdata, if_neg (by omega)]

theorem returns_rewind {u : Unit} : Returns (rewind pos) p u q ↔ setDataPosition pos p = some q := by
  unfold rewind
  rw [returns_mk]
  cases setDataPosition pos p <;> simp

theorem Readable.rewind (h : p.mDataSize ≤ int32Max) (hq : setDataPosition pos p = some q) :
    Readable q ∧ q.mDataPos = pos ∧ q.mDataSize = p.mDataSize ∧ q.mData = p.mData ∧ q.mObjects = p.mObjects := by
  obtain ⟨-, rfl⟩ := setDataPosition_eq_some.mp hq
  exact ⟨⟨⟨by simp, by simp⟩, h⟩, rfl, rfl, rfl, rfl⟩

def ReadsBack (U : Utf) (B : ∀ i, (P i).Val → List (List UInt8)) (t : Ty ι k) : Prop :=
  ∀ v p, Readable p → Holds p (encode U B t v) → p.Clear (encode U B t v).length →
    ∃ q, Returns (readData U P t) p v q ∧ Passed p (encode U B t v).length q

theorem returns_val {x : Read { vs : List α // vs.length = m }} {vs : List α}
    {h : vs.length = m} (hx : Returns x p ⟨vs, h⟩ q) : Returns (do return (← x).val) p vs q :=
  returns_map.mpr ⟨⟨vs, h⟩, hx, rfl⟩

theorem readElements_holds (ht : ReadsBack U B t) (hr : Readable p)
    (hh : Holds p (encodeElements U B t vs)) (hc : p.Clear (encodeElements U B t vs).length) :
    ∃ q, Passed p (encodeElements U B t vs).length q ∧ Returns
      (match t.packed? P with
        | some c => do return (← readBlock c vs.length).val
        | none => match t.widened? P with
          | some c => do return (← readBlock c vs.length).val
          | none => do return (← times (readData U P t) vs.length).val) p vs q := by
  unfold encodeElements at hh hc ⊢
  cases hpacked : t.packed? P with
  | some =>
    simp only [hpacked] at hh hc
    obtain ⟨q, hq, hp⟩ := readBlock_holds hr hh hc
    exact ⟨q, hp, returns_val hq⟩
  | none =>
    cases hwidened : t.widened? P with
    | some =>
      simp only [hpacked, hwidened] at hh hc
      obtain ⟨q, hq, hp⟩ := readBlock_holds hr hh hc
      exact ⟨q, hp, returns_val hq⟩
    | none =>
      simp only [hpacked, hwidened] at hh hc
      obtain ⟨q, hq, hp⟩ := times_holds ht vs hr hh hc
      exact ⟨q, hp, returns_val hq⟩

theorem readFixed_holds (ht : ReadsBack U B t) (hr : Readable p)
    (hh : Holds p (encodeFixed U B t vs)) (hc : p.Clear (encodeFixed U B t vs).length) :
    ∃ q, Passed p (encodeFixed U B t vs).length q ∧ Returns
      (match t.packed? P with
        | some c => readBlock c vs.length
        | none => times (readData U P t) vs.length) p ⟨vs, rfl⟩ q := by
  unfold encodeFixed at hh hc ⊢
  cases hpacked : t.packed? P with
  | some =>
    simp only [hpacked] at hh hc
    obtain ⟨q, hq, hp⟩ := readBlock_holds hr hh hc
    exact ⟨q, hp, hq⟩
  | none =>
    simp only [hpacked] at hh hc
    obtain ⟨q, hq, hp⟩ := times_holds ht vs hr hh hc
    exact ⟨q, hp, hq⟩

/-- The first word of a value that is not null. -/
theorem encode_object (t : Ty ι .object) (ht : t.Plain) (v : t.Val P) (hlen : (encode U B t v).length ≤ int32Max) :
    ∃ w rest, w ≠ t.nullWord ∧ encode U B t v = wordBytes w ++ rest := by
  have hne {len : ℕ} (h : len ≤ int32Max) : BitVec.ofNat 32 len ≠ -1 := by
    intro heq
    have hint := toInt_ofNat_of_le h
    rw [heq] at hint
    have hneg : (-1 : BitVec 32).toInt = -1 := by decide
    omega
  cases t with
  | string16 =>
    refine ⟨_, _, hne ?_, stringBytes_eq v⟩
    have hlen : 4 + padSize ((List.length v + 1) * 2) ≤ int32Max := (length_stringBytes v).symm.trans_le hlen
    have := le_padSize ((List.length v + 1) * 2)
    omega
  | utf8 => exact ht.elim
  | parcelable i => exact ⟨_, _, by simp [kNonNullParcelableFlag, Ty.nullWord], encode_parcelable i v⟩
  | vector t =>
    have hcount := length_le_length_encodeElements (U := U) (B := B) t ht v
    rw [encode_vector, length_append, length_wordBytes] at hlen
    exact ⟨_, _, hne (by omega), encode_vector t v⟩
  | array t n hn => exact ⟨_, _, hne hn, encode_array t hn v⟩

theorem returns_dataPosition : Returns dataPosition p pos q ↔ pos = p.mDataPos ∧ q = p := by
  rw [dataPosition, returns_ofFun]
  simp [eq_comm]

/-- A nullable value is null, or is read again from the position of the word that was looked at. -/
theorem returns_readNullable (t : Ty ι .object) (v : Option (t.Val P)) :
    Returns (readData U P (.nullable t)) p v q ↔ ∃ peek r, Returns readInt32 p peek r ∧
      (peek = t.nullWord ∧ v = none ∧ q = r ∨ peek ≠ t.nullWord ∧ ∃ r' w,
        setDataPosition p.mDataPos r = some r' ∧ Returns (readData U P t) r' w q ∧ v = some w) := by
  constructor
  · intro h
    obtain ⟨pos, r₀, hpos, h⟩ := returns_bind.mp h
    obtain ⟨rfl, rfl⟩ := returns_dataPosition.mp hpos
    obtain ⟨peek, r, hpeek, h⟩ := returns_bind.mp h
    refine ⟨peek, r, hpeek, ?_⟩
    rcases returns_ite.mp h with ⟨hnull, h⟩ | ⟨hnull, h⟩
    · obtain ⟨hv, hq⟩ := returns_pure.mp h
      exact .inl ⟨hnull, hv.symm, hq.symm⟩
    · obtain ⟨u, r', hrewind, h⟩ := returns_bind.mp h
      obtain ⟨w, r'', hread, h⟩ := returns_bind.mp h
      obtain ⟨hv, rfl⟩ := returns_pure.mp h
      exact .inr ⟨hnull, r', w, returns_rewind.mp hrewind, hread, hv.symm⟩
  · rintro ⟨peek, r, hpeek, hrest⟩
    refine returns_bind.mpr ⟨_, p, returns_dataPosition.mpr ⟨rfl, rfl⟩, ?_⟩
    refine returns_bind.mpr ⟨peek, r, hpeek, returns_ite.mpr ?_⟩
    rcases hrest with ⟨hnull, rfl, rfl⟩ | ⟨hnull, r', w, hrewind, hread, rfl⟩
    · exact .inl ⟨hnull, returns_pure.mpr ⟨rfl, rfl⟩⟩
    · refine .inr ⟨hnull, returns_bind.mpr ⟨(), r', returns_rewind.mpr hrewind, ?_⟩⟩
      exact returns_bind.mpr ⟨w, q, hread, returns_pure.mpr ⟨rfl, rfl⟩⟩

/-- Moving elsewhere behind the start loses no object. -/
theorem Passed.placed (hp : Passed p n r) (hq : setDataPosition (p.mDataPos + m) r = some q) : Passed p m q := by
  obtain ⟨-, rfl⟩ := setDataPosition_eq_some.mp hq
  exact ⟨rfl, hp.size, hp.data, hp.objects, by simp, by simp⟩

/-- Looking at a word and going back changes nothing that a read sees. -/
theorem Passed.rewound (hr : Readable p) (hp : Passed p n r) (hq : setDataPosition p.mDataPos r = some q) :
    Readable q ∧ Passed p 0 q := by
  have hback : Passed p 0 q := hp.placed hq
  exact ⟨hr.after hback, hback⟩

theorem readData_holds (hB : ∀ i, (P i).Inverts (B i)) (t : Ty ι k) (ht : t.Plain) (v : t.Val P)
    (hr : Readable p) (hh : Holds p (encode U B t v)) (hc : p.ClearFrom (grace t v) (encode U B t v).length) :
    ∃ q, Returns (readData U P t) p v q ∧ Passed p (encode U B t v).length q := by
  induction t generalizing p with
  | scalar s =>
    rw [encode_scalar] at hh hc ⊢
    have hlen : (s.wire.encode v).length = s.wire.size := s.wire.length_encode v
    rw [hlen] at hc ⊢
    exact s.read_holds v hr.toGuarded hh hc
  | string16 => exact readString16_holds hr hh hc
  | utf8 => exact ht.elim
  | parcelable i =>
    have hc : p.Clear (encode U B (.parcelable i) v).length := hc
    rw [encode_parcelable] at hh hc ⊢
    rw [length_append, length_wordBytes] at hc ⊢
    obtain ⟨r, hflag, hp⟩ := readInt32_holds hr.toGuarded hh.left hc.left
    obtain ⟨q, hread, hp'⟩ := (hB i).reads v r (hr.after hp) (hh.right (by rwa [length_wordBytes])) (hc.right hp)
    refine ⟨q, ?_, hp.trans hp'⟩
    refine returns_bind.mpr ⟨_, r, hflag, ?_⟩
    exact returns_ite.mpr (.inr ⟨by simp, hread⟩)
  | vector t ih =>
    have hc : p.Clear (encode U B (.vector t) v).length := hc
    have hsize := hh.le_size
    have hmax := hr.size
    have hcount := length_le_length_encodeElements (U := U) (B := B) t ht v
    rw [encode_vector] at hh hc hsize ⊢
    rw [length_append, length_wordBytes] at hc hsize ⊢
    obtain ⟨r, hword, hp⟩ := readInt32_holds hr.toGuarded hh.left hc.left
    have hrr := hr.after hp
    have hback : ReadsBack U B t := fun a _ h₁ h₂ h₃ => ih ht a h₁ h₂ h₃.clearFrom
    obtain ⟨q, hp', hread⟩ := readElements_holds hback hrr (hh.right (by rwa [length_wordBytes])) (hc.right hp)
    have hpos := hp.pos
    have hsz := hp.size
    have hv : List.length v ≤ int32Max := by omega
    have havail := hrr.dataAvail (by omega)
    refine ⟨q, ?_, hp.trans hp'⟩
    refine returns_bind.mpr ⟨_, r, hword, ?_⟩
    refine returns_ite.mpr (.inr ⟨by rw [toInt_ofNat_of_le hv]; omega, ?_⟩)
    refine returns_bind.mpr ⟨_, r, returns_readAvail.mpr ⟨havail, rfl⟩, ?_⟩
    refine returns_ite.mpr (.inr ⟨by rw [toNat_ofNat_of_le hv]; omega, ?_⟩)
    rw [toNat_ofNat_of_le hv]
    exact hread
  | array t n hn ih =>
    have hc : p.Clear (encode U B (.array t n hn) v).length := hc
    rw [encode_array] at hh hc ⊢
    rw [length_append, length_wordBytes] at hc ⊢
    obtain ⟨r, hword, hp⟩ := readInt32_holds hr.toGuarded hh.left hc.left
    have hback : ReadsBack U B t := fun a _ h₁ h₂ h₃ => ih ht a h₁ h₂ h₃.clearFrom
    obtain ⟨q, hp', hread⟩ :=
      readFixed_holds hback (hr.after hp) (hh.right (by rwa [length_wordBytes])) (hc.right hp)
    obtain ⟨vs, rfl⟩ := v
    refine ⟨q, ?_, hp.trans hp'⟩
    refine returns_bind.mpr ⟨_, r, hword, ?_⟩
    refine returns_ite.mpr (.inr ⟨by rw [toInt_ofNat_of_le hn]; omega, ?_⟩)
    exact returns_ite.mpr (.inr ⟨by simp, hread⟩)
  | nullable t ih =>
    have hsize := hh.le_size
    have hmax := hr.size
    cases v with
    | none =>
      obtain ⟨q, hread, hp⟩ := readInt32_holds hr.toGuarded hh hc
      exact ⟨q, (returns_readNullable t none).mpr ⟨_, q, hread, .inl ⟨rfl, rfl, rfl⟩⟩, hp⟩
    | some v =>
      have hc : p.Clear (encode U B t v).length := hc
      have hsize : p.mDataPos + (encode U B t v).length ≤ p.mDataSize := hsize
      have hlen : (encode U B t v).length ≤ int32Max := by omega
      obtain ⟨w, rest, hw, henc⟩ := encode_object t ht v hlen
      have hc₄ : p.Clear 4 := by
        rw [henc, length_append, length_wordBytes] at hc
        exact hc.left
      obtain ⟨r, hpeek, hp⟩ := readInt32_holds hr.toGuarded (henc ▸ hh).left hc₄
      obtain ⟨r', hr'⟩ : ∃ r', setDataPosition p.mDataPos r = some r' := by
        unfold setDataPosition
        rw [if_neg (by omega)]
        exact ⟨_, rfl⟩
      obtain ⟨hread', hp'⟩ := hp.rewound hr hr'
      have hc' : r'.Clear (encode U B t v).length := Clear.right (by rwa [Nat.zero_add]) hp'
      have hh₀ : Holds p ([] ++ encode U B t v) := hh
      obtain ⟨q, hq, hpq⟩ := ih ht v hread' (hh₀.right hp') hc'.clearFrom
      refine ⟨q, (returns_readNullable t (some v)).mpr ⟨w, r, hpeek, .inr ⟨hw, r', v, hr', hq, rfl⟩⟩, ?_⟩
      have := hp'.trans hpq
      rwa [Nat.zero_add] at this

def ReadsExactly (U : Utf) (B : ∀ i, (P i).Val → List (List UInt8)) (t : Ty ι k) : Prop :=
  ∀ v p q, Readable p → p.Clear 0 → Returns (readData U P t) p v q →
    Passed p (encode U B t v).length q ∧ p.Clear (encode U B t v).length

theorem of_returns_val {x : Read { vs : List α // vs.length = m }} {vs : List α}
    (hx : Returns (do return (← x).val) p vs q) : ∃ h : vs.length = m, Returns x p ⟨vs, h⟩ q := by
  obtain ⟨ws, hws, rfl⟩ := returns_map.mp hx
  exact ⟨ws.property, hws⟩

theorem readElements_passed (ht : ReadsExactly U B t) (hg : Readable p) (hc : p.Clear 0) (hr : Returns
      (match t.packed? P with
        | some c => do return (← readBlock c n).val
        | none => match t.widened? P with
          | some c => do return (← readBlock c n).val
          | none => do return (← times (readData U P t) n).val) p vs q) :
    vs.length = n ∧ Passed p (encodeElements U B t vs).length q ∧ p.Clear (encodeElements U B t vs).length := by
  unfold encodeElements
  cases hpacked : t.packed? P with
  | some =>
    simp only [hpacked] at hr
    obtain ⟨hlen, hr⟩ := of_returns_val hr
    exact ⟨hlen, readBlock_passed hg.toGuarded hr⟩
  | none =>
    cases hwidened : t.widened? P with
    | some =>
      simp only [hpacked, hwidened] at hr
      obtain ⟨hlen, hr⟩ := of_returns_val hr
      exact ⟨hlen, readBlock_passed hg.toGuarded hr⟩
    | none =>
      simp only [hpacked, hwidened] at hr
      obtain ⟨hlen, hr⟩ := of_returns_val hr
      exact ⟨hlen, times_passed ht hg hc hr⟩

theorem readFixed_passed (ht : ReadsExactly U B t)
    {vs : { vs : List (t.Val P) // vs.length = n }} (hg : Readable p) (hc : p.Clear 0) (hr : Returns
      (match t.packed? P with
        | some c => readBlock c n
        | none => times (readData U P t) n) p vs q) :
    Passed p (encodeFixed U B t vs.val).length q ∧ p.Clear (encodeFixed U B t vs.val).length := by
  unfold encodeFixed
  cases hpacked : t.packed? P with
  | some =>
    simp only [hpacked] at hr
    exact readBlock_passed hg.toGuarded hr
  | none =>
    simp only [hpacked] at hr
    exact times_passed ht hg hc hr

theorem grace_lt (t : Ty ι k) (v : t.Val P) : grace t v < sizeofFlatBinderObject := by
  have hleeway (units : List (BitVec 16)) : leeway units < sizeofFlatBinderObject := by
    unfold leeway
    split <;> decide
  cases t with
  | string16 => exact hleeway v
  | _ => exact (by decide : 0 < sizeofFlatBinderObject)

theorem readData_passed (hB : ∀ i, (P i).Exact (B i)) (t : Ty ι k) (ht : t.Plain) (v : t.Val P)
    (hg : Readable p) (hr : Returns (readData U P t) p v q) :
    Passed p (encode U B t v).length q ∧ p.ClearFrom (grace t v) (encode U B t v).length := by
  induction t generalizing p q with
  | scalar s =>
    rw [encode_scalar, show (s.wire.encode v).length = s.wire.size from s.wire.length_encode v]
    exact s.read_passed hg.toGuarded hr
  | string16 => exact readString16_passed hg.toGuarded hr
  | utf8 => exact ht.elim
  | parcelable i =>
    obtain ⟨w, r, hflag, hr⟩ := returns_bind.mp hr
    have hr := (returns_unless.mp hr).2
    obtain ⟨hp, hc⟩ := readInt32_passed hg.toGuarded hflag
    obtain ⟨hp', hc'⟩ := hB i v r q (hg.after hp) (hc.zero hp) hr
    rw [encode_parcelable, length_append, length_wordBytes]
    exact ⟨hp.trans hp', (hc.add hp hc').clearFrom⟩
  | vector t ih =>
    obtain ⟨size, r, hsize, hr⟩ := returns_bind.mp hr
    have hr := (returns_unless.mp hr).2
    obtain ⟨n, r', havail, hread⟩ := returns_bind.mp hr
    obtain ⟨-, rfl⟩ := returns_readAvail.mp havail
    have hread := (returns_unless.mp hread).2
    obtain ⟨hp, hc⟩ := readInt32_passed hg.toGuarded hsize
    have hexact : ReadsExactly U B t := fun a p₁ q₁ h₁ h₂ h₃ =>
      ⟨(ih ht a h₁ h₃).1, (ih ht a h₁ h₃).2.clear h₂ (grace_lt t a)⟩
    obtain ⟨-, hp', hc'⟩ := readElements_passed hexact (hg.after hp) (hc.zero hp) hread
    rw [encode_vector, length_append, length_wordBytes]
    exact ⟨hp.trans hp', (hc.add hp hc').clearFrom⟩
  | array t n hn ih =>
    obtain ⟨size, r, hsize, hr⟩ := returns_bind.mp hr
    have hr := (returns_unless.mp hr).2
    have hr := (returns_unless.mp hr).2
    obtain ⟨hp, hc⟩ := readInt32_passed hg.toGuarded hsize
    have hexact : ReadsExactly U B t := fun a p₁ q₁ h₁ h₂ h₃ =>
      ⟨(ih ht a h₁ h₃).1, (ih ht a h₁ h₃).2.clear h₂ (grace_lt t a)⟩
    obtain ⟨hp', hc'⟩ := readFixed_passed hexact (hg.after hp) (hc.zero hp) hr
    rw [encode_array, length_append, length_wordBytes]
    exact ⟨hp.trans hp', (hc.add hp hc').clearFrom⟩
  | nullable t ih =>
    obtain ⟨peek, r, hpeek, hrest⟩ := (returns_readNullable t v).mp hr
    obtain ⟨hp, hc⟩ := readInt32_passed hg.toGuarded hpeek
    rcases hrest with ⟨-, rfl, rfl⟩ | ⟨-, r', w, hrewind, hread, rfl⟩
    · exact ⟨hp, hc.clearFrom⟩
    · obtain ⟨hg', hp'⟩ := hp.rewound hg hrewind
      obtain ⟨hpq, hcq⟩ := ih ht w hg' hread
      have hc₀ : p.Clear 0 := Clear.left (m := 0) (n := 4) hc
      have hcr : r'.Clear (encode U B t w).length := hcq.clear (hc₀.zero hp') (grace_lt t w)
      have hpass := hp'.trans hpq
      have hclear := hc₀.add hp' hcr
      rw [Nat.zero_add] at hpass hclear
      exact ⟨hpass, hclear.clearFrom⟩

/-! ### Sequences of values -/

structure Item (P : ι → Parcelable) where
  kind : Kind
  type : Ty ι kind
  val : type.Val P

/-- A value with its kind and type, as the reader gets it. -/
def readItem (U : Utf) (P : ι → Parcelable) (t : Σ k, Ty ι k) : Read (Item P) := do
  return ⟨t.1, t.2, ← readData U P t.2⟩

def Item.shape (a : Item P) : Σ k, Ty ι k := ⟨a.kind, a.type⟩

section Items

variable (U B)

def writeItems (env : Env) : List (Item P) → Parcel → Status × Parcel :=
  writeEach fun a => writeData U P env a.type a.val

def readItems (U : Utf) (P : ι → Parcelable) : List (Σ k, Ty ι k) → Read (List (Item P)) := each (readItem U P)

def Item.chunks (a : Item P) : List (List UInt8) := Parcel.chunks U B a.type a.val

def Item.encode (a : Item P) : List UInt8 := Parcel.encode U B a.type a.val

/-- No object of the parcel overlaps the bytes of the values. -/
def Unobstructed (items : List (Item P)) (p : Parcel) : Prop :=
  match items with
  | [] => True
  | a :: _ => p.ClearFrom (grace a.type a.val) (items.flatMap (Item.encode U B)).length

/-- Every write ends on a multiple of 4, and the values are read back up to the end of the last one. -/
def RoundTrips (env : Env) (items : List (Item P)) (p : Parcel) : Prop :=
  (∀ n, 4 ∣ (writeItems U env (items.take n) p).2.mDataPos - p.mDataPos) ∧
  ∃ r s, setDataPosition p.mDataPos (writeItems U env items p).2 = some r ∧
    Returns (readItems U P (items.map Item.shape)) r items s ∧ s.mDataPos = (writeItems U env items p).2.mDataPos

end Items

theorem returns_readItem {a : Item P} : Returns (readItem U P a.shape) p a q ↔
    Returns (readData U P a.type) p a.val q := by
  obtain ⟨kind, type, val⟩ := a
  unfold readItem
  rw [returns_map]
  constructor
  · rintro ⟨v, hv, heq⟩
    cases heq
    exact hv
  · intro h
    exact ⟨val, h, rfl⟩

theorem dvd_length_chunks (hB : ∀ i, (P i).Inverts (B i)) (t : Ty ι k) (v : t.Val P) :
    ∀ c ∈ chunks U B t v, 4 ∣ c.length := by
  have hword (w : BitVec 32) : 4 ∣ (wordBytes w).length := by rw [length_wordBytes]
  have hpad (bs : List UInt8) : 4 ∣ (padded bs).length := by
    rw [length_padded]
    exact Nat.dvd_mul_left 4 _
  have hstring (units : List (BitVec 16)) : ∀ c ∈ stringChunks units, 4 ∣ c.length := by
    simp only [stringChunks, forall_mem_cons]
    exact ⟨hword _, hpad _, by simp⟩
  induction t with
  | scalar s =>
    have hsize : 4 ∣ s.wire.size := by
      rcases s.wire_size with h | h
      · rw [h]
      · rw [h]
        decide
    simp only [chunks, forall_mem_cons]
    exact ⟨(s.wire.length_encode v).symm ▸ hsize, by simp⟩
  | string16 => exact hstring v
  | utf8 =>
    simp only [chunks]
    cases U.toUtf16 v with
    | none => simp
    | some units => exact hstring units
  | parcelable i =>
    simp only [chunks, forall_mem_cons]
    exact ⟨hword _, (hB i).aligned v⟩
  | vector t ih =>
    simp only [chunks, forall_mem_cons]
    refine ⟨hword _, ?_⟩
    cases t.packed? P with
    | some => exact forall_mem_singleton.mpr (hpad _)
    | none =>
      cases t.widened? P with
      | some => exact forall_mem_singleton.mpr (hpad _)
      | none =>
        intro c hc
        obtain ⟨a, -, hc⟩ := mem_flatMap.mp hc
        exact ih a c hc
  | array t n hn ih =>
    simp only [chunks, forall_mem_cons]
    refine ⟨hword _, ?_⟩
    cases t.packed? P with
    | some => exact forall_mem_singleton.mpr (hpad _)
    | none =>
      intro c hc
      obtain ⟨a, -, hc⟩ := mem_flatMap.mp hc
      exact ih a c hc
  | nullable t ih =>
    cases v with
    | none =>
      simp only [chunks, forall_mem_cons]
      exact ⟨hword _, by simp⟩
    | some v => exact ih v

theorem writeEach_take {f : α → Parcel → Status × Parcel} {as : List α} (n : ℕ)
    (h : writeEach f as p = (.ok, q)) : ∃ r, writeEach f (as.take n) p = (.ok, r) := by
  induction as generalizing p n with
  | nil => exact ⟨p, by simp [writeEach]⟩
  | cons a as ih =>
    cases n with
    | zero => exact ⟨p, rfl⟩
    | succ n =>
      rw [take_succ_cons]
      unfold writeEach at h ⊢
      split at h
      · exact ih n h
      · rename_i hne
        exact absurd h (hne q)

theorem writeItems_tracks (hB : ∀ i, (P i).Inverts (B i)) (henv : env.Allocates) {items : List (Item P)}
    (h : AtEnd p) (hw : writeItems U env items p = (.ok, q)) :
    Tracks true env (items.flatMap (Item.chunks U B)) p q := by
  have hP (i : ι) (v : (P i).Val) : Writes true env ((P i).writeToParcel env v) (B i v) :=
    fun p q => (hB i).offers env v p q henv
  have hitem (a : Item P) := writes_data U hP a.type a.val
  exact writes_each hitem items p q h hw

theorem flatten_flatMap_itemChunks (items : List (Item P)) :
    (items.flatMap (Item.chunks U B)).flatten = items.flatMap (Item.encode U B) := by
  induction items with
  | nil => rfl
  | cons a items ih => rw [flatMap_cons, flatten_append, ih, flatMap_cons]; rfl

theorem writeItems_aligned (hB : ∀ i, (P i).Inverts (B i)) (henv : env.Allocates) {items : List (Item P)}
    (h : AtEnd p) (hw : writeItems U env items p = (.ok, q)) (htakes : Takes env (items.flatMap (Item.chunks U B)) p)
    (n : ℕ) : 4 ∣ (writeItems U env (items.take n) p).2.mDataPos - p.mDataPos := by
  obtain ⟨r, hr⟩ := writeEach_take n hw
  have hr : writeItems U env (items.take n) p = (.ok, r) := hr
  rw [← take_append_drop n items, flatMap_append] at htakes
  have hstands := (writeItems_tracks hB henv h hr).stands htakes.left
  rw [hr, hstands.placed.pos, Nat.add_sub_cancel_left, length_flatten]
  apply dvd_sum
  intro l hl
  obtain ⟨c, hc, rfl⟩ := mem_map.mp hl
  obtain ⟨a, -, hc⟩ := mem_flatMap.mp hc
  exact dvd_length_chunks hB a.type a.val c hc

theorem grace_le (t : Ty ι k) (ht : t.Plain) (v : t.Val P) : grace t v ≤ (encode U B t v).length := by
  have hlen := four_le_length_encode (U := U) (B := B) t ht v
  have hgrace : grace t v ≤ 4 := by
    have hleeway (units : List (BitVec 16)) : leeway units ≤ 4 := by
      unfold leeway
      split <;> omega
    cases t with
    | string16 => exact hleeway v
    | _ => exact Nat.zero_le 4
  omega

theorem Clear.unobstructed {items : List (Item P)} (h : p.Clear (items.flatMap (Item.encode U B)).length) :
    Unobstructed U B items p := by
  cases items with
  | nil => trivial
  | cons => exact h.clearFrom

theorem Unobstructed.clear {items : List (Item P)} (h : Unobstructed U B items p) (h₀ : p.Clear 0) :
    p.Clear (items.flatMap (Item.encode U B)).length := by
  cases items with
  | nil => exact h₀
  | cons a => exact ClearFrom.clear h h₀ (grace_lt a.type a.val)

theorem readItems_holds (hB : ∀ i, (P i).Inverts (B i)) {items : List (Item P)} (hplain : ∀ a ∈ items, a.type.Plain)
    (hr : Readable p) (hh : Holds p (items.flatMap (Item.encode U B))) (hc : Unobstructed U B items p) :
    ∃ q, Returns (readItems U P (items.map Item.shape)) p items q ∧
      Passed p (items.flatMap (Item.encode U B)).length q := by
  induction items generalizing p with
  | nil => exact ⟨p, returns_each_nil.mpr ⟨rfl, rfl⟩, .refl hr.toGuarded⟩
  | cons a items ih =>
    rw [forall_mem_cons] at hplain
    have hc : p.ClearFrom (grace a.type a.val) (a.encode U B ++ items.flatMap (Item.encode U B)).length := hc
    rw [flatMap_cons] at hh ⊢
    rw [length_append] at hc ⊢
    have hgrace : grace a.type a.val ≤ (a.encode U B).length := grace_le a.type hplain.1 a.val
    have hfirst : p.ClearFrom (grace a.type a.val) (a.encode U B).length := by
      intro o ho
      have := hc o ho
      omega
    obtain ⟨r, hread, hp⟩ := readData_holds hB a.type hplain.1 a.val hr hh.left hfirst
    have hrest : r.Clear (items.flatMap (Item.encode U B)).length := by
      intro o ho
      have := hc o (hp.objects.mem_iff.mp ho)
      have hpos : r.mDataPos = p.mDataPos + (a.encode U B).length := hp.pos
      omega
    obtain ⟨q, hq, hp'⟩ := ih hplain.2 (hr.after hp) (hh.right hp) hrest.unobstructed
    refine ⟨q, ?_, hp.trans hp'⟩
    exact returns_each_cons.mpr ⟨a, r, items, rfl, returns_readItem.mpr hread, hq⟩

theorem readItems_passed (hB : ∀ i, (P i).Exact (B i)) {items : List (Item P)} (hplain : ∀ a ∈ items, a.type.Plain)
    (hg : Readable p) (hr : Returns (readItems U P (items.map Item.shape)) p items q) :
    q.mDataPos = p.mDataPos + (items.flatMap (Item.encode U B)).length ∧ Unobstructed U B items p := by
  induction items generalizing p with
  | nil =>
    obtain ⟨-, rfl⟩ := returns_each_nil.mp hr
    exact ⟨rfl, trivial⟩
  | cons a items ih =>
    rw [forall_mem_cons] at hplain
    obtain ⟨b, r, rest, heq, hread, hrest⟩ := returns_each_cons.mp hr
    obtain ⟨rfl, rfl⟩ := List.cons.inj heq
    obtain ⟨hp, hc⟩ := readData_passed hB a.type hplain.1 a.val hg (returns_readItem.mp hread)
    have hpos : r.mDataPos = p.mDataPos + (a.encode U B).length := hp.pos
    have hc : p.ClearFrom (grace a.type a.val) (a.encode U B).length := hc
    have hgrace : grace a.type a.val ≤ (a.encode U B).length := grace_le a.type hplain.1 a.val
    obtain ⟨hend, hrest'⟩ := ih hplain.2 (hg.after hp) hrest
    have hr₀ : r.Clear 0 := by
      intro o ho
      have := hc o (hp.objects.mem_iff.mp ho)
      omega
    have hclear := hrest'.clear hr₀
    refine ⟨?_, fun o ho => ?_⟩
    · rw [flatMap_cons, length_append]
      omega
    · have h₁ := hc o ho
      have h₂ := hclear o (hp.objects.mem_iff.mpr ho)
      have : 0 < sizeofFlatBinderObject := by decide
      rw [flatMap_cons, length_append]
      omega

theorem Unobstructed.congr {items : List (Item P)} (hpos : q.mDataPos = p.mDataPos) (hobj : q.mObjects = p.mObjects)
    (h : Unobstructed U B items p) : Unobstructed U B items q := by
  cases items with
  | nil => trivial
  | cons =>
    intro o ho
    rw [hpos]
    exact h o (hobj ▸ ho)

section RoundTrips

variable (hB : ∀ i, (P i).Inverts (B i)) (henv : env.Allocates) {items : List (Item P)}
  (hplain : ∀ a ∈ items, a.type.Plain) (h : AtEnd p) (hw : writeItems U env items p = (.ok, q))

include hB henv hplain h hw

theorem roundTrips_of_takes (htakes : Takes env (items.flatMap (Item.chunks U B)) p)
    (hclear : Unobstructed U B items p) : RoundTrips U env items p := by
  have htracks := writeItems_tracks hB henv h hw
  have hplaced := (htracks.stands htakes).placed
  rw [flatten_flatMap_itemChunks] at hplaced
  have hpos := hplaced.pos
  have hmax : q.mDataSize ≤ int32Max := htracks.within.size.trans htracks.within.capacity
  have hqpos := htracks.within.pos
  obtain ⟨r, hr⟩ : ∃ r, setDataPosition p.mDataPos q = some r := by
    unfold setDataPosition
    rw [if_neg (by omega)]
    exact ⟨_, rfl⟩
  obtain ⟨hread, hrpos, -, -, hrobj⟩ := Readable.rewind hmax hr
  refine ⟨writeItems_aligned hB henv h hw htakes, r, ?_⟩
  rw [hw]
  cases items with
  | nil => exact ⟨r, hr, returns_each_nil.mpr ⟨rfl, rfl⟩, by cases hw; exact hrpos⟩
  | cons a items =>
    have hfour : 4 ≤ (a.encode U B).length := four_le_length_encode a.type (hplain a mem_cons_self) a.val
    have hne : (a :: items).flatMap (Item.encode U B) ≠ [] := by
      rw [flatMap_cons]
      exact append_ne_nil_of_left_ne_nil (ne_nil_of_length_pos (by omega)) _
    have hholds := hplaced.holds hne (hplaced.follows hne hr)
    have hclear' := hclear.congr hrpos (hrobj.trans htracks.objects)
    obtain ⟨s, hs, hp⟩ := readItems_holds hB hplain hread hholds hclear'
    refine ⟨s, hr, hs, ?_⟩
    rw [hp.pos, hrpos, hpos]

theorem takes_of_roundTrips (hexact : ∀ i, (P i).Exact (B i)) (hrt : RoundTrips U env items p) :
    Takes env (items.flatMap (Item.chunks U B)) p ∧ Unobstructed U B items p := by
  have htracks := writeItems_tracks hB henv h hw
  have hmax : q.mDataSize ≤ int32Max := htracks.within.size.trans htracks.within.capacity
  obtain ⟨-, r, s, hr, hs, hend⟩ := hrt
  have hend : s.mDataPos = q.mDataPos := by rw [hend, hw]
  rw [hw] at hr
  obtain ⟨hread, hrpos, -, -, hrobj⟩ := Readable.rewind hmax hr
  obtain ⟨hspos, hclear⟩ := readItems_passed hexact hplain hread hs
  refine ⟨htracks.takes ?_, hclear.congr hrpos.symm (hrobj.trans htracks.objects).symm⟩
  -- a block that was left out would be missing at the end
  rw [flatten_flatMap_itemChunks]
  omega

end RoundTrips

/-- Values that are written without an error are read back when no block of theirs was silently left out
and no object of the parcel reaches into them; and only then, if a parcelable is read from as many bytes
as it is written to. -/
theorem writeItems_readItems (hB : ∀ i, (P i).Inverts (B i)) (henv : env.Allocates) (items : List (Item P))
    (hplain : ∀ a ∈ items, a.type.Plain) (h : AtEnd p) (hw : (writeItems U env items p).1 = .ok) :
    (Takes env (items.flatMap (Item.chunks U B)) p ∧ Unobstructed U B items p → RoundTrips U env items p) ∧
    ((∀ i, (P i).Exact (B i)) → RoundTrips U env items p →
      Takes env (items.flatMap (Item.chunks U B)) p ∧ Unobstructed U B items p) := by
  have hq : writeItems U env items p = (.ok, (writeItems U env items p).2) := Prod.ext hw rfl
  constructor
  · rintro ⟨htakes, hclear⟩
    exact roundTrips_of_takes hB henv hplain h hq htakes hclear
  · intro hexact hrt
    exact takes_of_roundTrips hB henv hplain h hq hexact hrt

theorem zeroEnv_allocates : zeroEnv.Allocates := ⟨fun _ => rfl, rfl⟩

theorem atEnd_empty : AtEnd {} := ⟨le_rfl, fun _ => rfl, le_rfl, Nat.zero_le _, fun _ => rfl⟩

def intParcelable : Parcelable := ⟨BitVec 32, writeInt32, readInt32⟩

theorem intParcelable_inverts : intParcelable.Inverts fun v => [wordBytes v] where
  offers env v p q _ h hw := by
    have htracks : Tracks true env _ p _ := writeInt32_tracks v h
    rwa [show writeInt32 env v p = (.ok, q) from hw] at htracks
  aligned v c hc := by
    rw [mem_singleton.mp hc]
    exact ⟨1, rfl⟩
  reads v p hr hh hc := by
    exact readInt32_holds hr.toGuarded hh hc

theorem intParcelable_exact : intParcelable.Exact fun v => [wordBytes v] := by
  intro v p q hr _ hread
  exact readInt32_passed hr.toGuarded hread

/-- An integer, a nullable vector of characters, an empty string and a nullable parcelable. -/
def sampleItems : List (Item fun _ : Unit => intParcelable) :=
  [⟨_, .scalar (.integral .int32), (7 : BitVec 32)⟩,
    ⟨_, .nullable (.vector (.scalar (.integral .char16))), some [(97 : BitVec 16), (98 : BitVec 16)]⟩,
    ⟨_, .string16, []⟩,
    ⟨_, .nullable (.parcelable ()), some (5 : BitVec 32)⟩]

/-- A conversion that rejects every string. -/
def noUtf : Utf := ⟨fun _ => none, fun _ => none⟩

theorem writeItems_readItems_sample : RoundTrips noUtf zeroEnv sampleItems {} := by
  refine (writeItems_readItems (fun _ => intParcelable_inverts) zeroEnv_allocates sampleItems ?_
    atEnd_empty (by decide)).1 ⟨by decide, ?_⟩
  · simp [sampleItems, Ty.Plain]
  · intro o ho
    cases ho

/-- What is left of `writeString16` where there can be no block for the units. -/
def writeLength (env : Env) (len : ℕ) (p : Parcel) : Status × Parcel :=
  match writeInt32 env (.ofNat 32 len) p with
  | (.ok, q) => (q.mError, q)
  | result => result

theorem writeString16_too_long (h : int32Max < units.length * 2 + 2) :
    writeString16 env units = writeLength env units.length := by
  have hnull (q : Parcel) : writeInplace env (units.length * 2 + 2) q = (none, q) := by
    unfold writeInplace
    rw [if_pos h]
  funext p
  unfold writeString16
  simp only [hnull]
  rfl

/-- The length of a string of `2 ^ 30` units is written, the string is not, and no error is reported. -/
theorem not_roundTrips_long_string : ∃ item : Item fun _ : Unit => intParcelable, zeroEnv.Allocates ∧ AtEnd {} ∧
    item.type.Plain ∧ (writeItems noUtf zeroEnv [item] {}).1 = .ok ∧ ¬ RoundTrips noUtf zeroEnv [item] {} := by
  obtain ⟨units, hlen⟩ : ∃ units : List (BitVec 16), units.length = 2 ^ 30 :=
    ⟨List.replicate (2 ^ 30) 97, length_replicate⟩
  have hmax : int32Max = 2 ^ 31 - 1 := rfl
  let item : Item fun _ : Unit => intParcelable := ⟨_, .string16, units⟩
  have hplain : ∀ a ∈ [item], a.type.Plain := by
    intro a ha
    rw [mem_singleton.mp ha]
    trivial
  obtain ⟨q, hq⟩ : ∃ q, writeString16 zeroEnv units {} = (.ok, q) := by
    refine ⟨_, Prod.ext ?_ rfl⟩
    rw [writeString16_too_long (by rw [hlen]; decide), hlen]
    decide +kernel
  have hw : writeItems noUtf zeroEnv [item] {} = (.ok, q) := by
    simp only [writeItems, writeEach, writeData, item, hq]
  refine ⟨item, zeroEnv_allocates, atEnd_empty, trivial, by rw [hw], fun hrt => ?_⟩
  obtain ⟨htakes, -⟩ := takes_of_roundTrips (fun _ => intParcelable_inverts) zeroEnv_allocates hplain atEnd_empty
    hw (fun _ => intParcelable_exact) hrt
  -- the second block asks for more than any parcel can hold
  have hblock : (padded (char16Bytes units ++ [0, 0])).length = 2 ^ 31 + 4 := by
    rw [length_padded, length_append, length_char16Bytes, hlen]
    rfl
  have hfits : Buffer.Fits growth _ (extent {}) [4, (padded (char16Bytes units ++ [0, 0])).length] := htakes
  have hle : _ ≤ int32Max := hfits.2.1.le_limit (by decide) (by decide)
  omega

end Binder.Parcel
