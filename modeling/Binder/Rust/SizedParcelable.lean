import Binder.Lib.Bytes

/-! Sized parcelables whose writer and reader know other fields. -/
namespace Binder.Rust

open Lib List

/-- At each position is a byte or a part of an object, which is given by a number. -/
structure BorrowedParcel where
  data : ℕ → UInt8 ⊕ ℕ
  size : ℕ
  pos : ℕ

/-- The parcel behind what is written; `none` is an error. -/
abbrev Serialize := BorrowedParcel → Option BorrowedParcel

abbrev Deserialize (α : Type) := BorrowedParcel → Option (α × BorrowedParcel)

/-- A field with the value that is written. -/
structure Field (V : Type) where
  write : Serialize
  read : Deserialize V
  value : V
  default : V

namespace BorrowedParcel

variable {α V : Type} {p q r : BorrowedParcel} {W R : List (Field V)} {n : ℕ}

/-- `write` of an `i32` that is not negative. -/
def writeInt (n : ℕ) : Serialize := fun p =>
  if p.pos + 4 < 2 ^ 31 then
    some { data := fun i => if i < p.pos ∨ p.pos + 4 ≤ i then p.data i else .inl ((leBytes 4 n).getD (i - p.pos) 0)
           size := max p.size (p.pos + 4)
           pos := p.pos + 4 }
  else none

/-- An object is not read as data. -/
def readInt : Deserialize (BitVec 32) := fun p =>
  if p.pos + 4 ≤ p.size then do
    let bytes ← (List.range 4).mapM fun j => (p.data (p.pos + j)).getLeft?
    some (BitVec.ofNat 32 (leNat bytes), { p with pos := p.pos + 4 })
  else none

def sizedWrite (f : Serialize) : Serialize := fun p => do
  let q ← writeInt 0 p
  let r ← f q
  -- `assert!(end >= start)`
  if r.pos < p.pos then none
  else
    let s ← writeInt (r.pos - p.pos) { r with pos := p.pos }
    some { s with pos := r.pos }

/-- `f` is given the end of the sub-parcel. -/
def sizedRead (f : ℕ → Deserialize α) : Deserialize α := fun p => do
  let x ← readInt p
  if x.1.toInt < 4 then none
  else if p.pos + x.1.toNat < 2 ^ 31 ∧ p.pos + x.1.toNat ≤ p.size then do
    let y ← f (p.pos + x.1.toNat) x.2
    some (y.1, { y.2 with pos := p.pos + x.1.toNat })
  else none

def writeFields : List (Field V) → Serialize
  | [], p => some p
  | f :: fields, p => do writeFields fields (← f.write p)

/-- A field is read where `has_more_data`, and keeps its default otherwise. -/
def readFields : List (Field V) → ℕ → Deserialize (List V)
  | [], _, p => some ([], p)
  | f :: fields, stop, p => do
    let x ← if p.pos < stop then f.read p else some (f.default, p)
    let y ← readFields fields stop x.2
    some (x.1 :: y.1, y.2)

/-- What the reader of `R` makes of the fields `W`. -/
def skewed (W R : List (Field V)) : List V := (W.take R.length).map (·.value) ++ (R.drop W.length).map (·.default)

/-- `q` is `p` with data from its position on. -/
def Appends (p q : BorrowedParcel) : Prop := p.pos ≤ q.pos ∧ q.pos < 2 ^ 31 ∧ ∀ i < p.pos, q.data i = p.data i

/-- `r` has what `q` has from `p` on, whatever follows it. -/
structure Holds (p q r : BorrowedParcel) : Prop where
  pos : r.pos = p.pos
  size : q.pos ≤ r.size
  data : ∀ i, p.pos ≤ i → i < q.pos → r.data i = q.data i

/-- What `f` writes is not empty, and `g` reads it as `v`. -/
def Inverts (f : Serialize) (g : Deserialize α) (v : α) : Prop :=
  ∀ p q, f p = some q → Appends p q ∧ p.pos < q.pos ∧ ∀ r, Holds p q r → g r = some (v, { r with pos := q.pos })

/-- A sized parcelable as a field, which `make` builds from the values of its fields. -/
def sized (W R : List (Field V)) (make : List V → V) (default : V) : Field V where
  write := sizedWrite (writeFields W)
  read p := (sizedRead (readFields R) p).map fun x => (make x.1, x.2)
  value := make (skewed W R)
  default := default

/-- Fields whose read inverts their write, and sized parcelables of such fields, to any depth. -/
inductive Nests : Field V → Prop
  | plain {f : Field V} (h : Inverts f.write f.read f.value) : Nests f
  | sized {W R : List (Field V)} (make : List V → V) (default : V) (hskew : W <+: R ∨ R <+: W)
      (hW : ∀ f ∈ W, Nests f) : Nests (sized W R make default)

theorem Appends.trans (h : Appends p q) (h' : Appends q r) : Appends p r := by
  obtain ⟨hle, -, hdata⟩ := h
  obtain ⟨hle', hlt, hdata'⟩ := h'
  refine ⟨hle.trans hle', hlt, fun i hi => ?_⟩
  rw [hdata' i (hi.trans_le hle), hdata i hi]

theorem writeInt_some (h : writeInt n p = some q) : q.pos = p.pos + 4 ∧ q.pos < 2 ^ 31 ∧
    (∀ i, i < p.pos ∨ p.pos + 4 ≤ i → q.data i = p.data i) ∧
    ∀ j < 4, q.data (p.pos + j) = .inl ((leBytes 4 n).getD j 0) := by
  unfold writeInt at h
  split_ifs at h with hlt
  have hq := Option.some.inj h
  subst q
  refine ⟨rfl, hlt, fun i hi => if_pos hi, fun j hj => ?_⟩
  have hin : ¬ (p.pos + j < p.pos ∨ p.pos + 4 ≤ p.pos + j) := by omega
  simp only [if_neg hin, Nat.add_sub_cancel_left]

theorem inverts_int (n : ℕ) : Inverts (writeInt n) readInt (BitVec.ofNat 32 n) := by
  intro p q h
  obtain ⟨hpos, hlt, hdata, hword⟩ := writeInt_some h
  refine ⟨⟨by omega, hlt, fun i hi => hdata i (Or.inl hi)⟩, by omega, fun r ⟨hr, hsize, hsame⟩ => ?_⟩
  have hr' (j : ℕ) (hj : j < 4) : r.data (p.pos + j) = .inl ((leBytes 4 n).getD j 0) := by
    rw [hsame _ (by omega) (by omega), hword j hj]
  have hbytes : ((List.range 4).mapM fun j => (r.data (r.pos + j)).getLeft?) = some (leBytes 4 n) := by
    have hzero := hr' 0 (by decide)
    rw [Nat.add_zero] at hzero
    simp [range_succ, hr, hr', hzero, leBytes]
  have hint : BitVec.ofNat 32 (leNat (leBytes 4 n)) = BitVec.ofNat 32 n := by
    apply BitVec.eq_of_toNat_eq
    simp
  rw [readInt, if_pos (by omega), hbytes, ← hint, hpos, ← hr]
  rfl

theorem readFields_of_le (h : n ≤ r.pos) : readFields R n r = some (R.map (·.default), r) := by
  induction R with
  | nil => rfl
  | cons f R ih => simp [readFields, if_neg (Nat.not_lt.mpr h), ih]

theorem readFields_writeFields (hskew : W <+: R ∨ R <+: W) (hW : ∀ f ∈ W, Inverts f.write f.read f.value)
    (hp : p.pos < 2 ^ 31) (h : writeFields W p = some q) : Appends p q ∧
      ∀ r, Holds p q r → ∃ m, readFields R q.pos r = some (skewed W R, { r with pos := m }) := by
  induction W generalizing p R with
  | nil =>
    have hq := Option.some.inj h
    subst q
    refine ⟨⟨le_rfl, hp, fun _ _ => rfl⟩, fun r hr => ⟨r.pos, ?_⟩⟩
    simp [readFields_of_le hr.pos.ge, skewed]
  | cons f W ih =>
    obtain ⟨p', hp', hrest⟩ := Option.bind_eq_some_iff.mp h
    obtain ⟨hf, hlt, hread⟩ := hW f mem_cons_self p p' hp'
    have hW' := fun g hg => hW g (mem_cons_of_mem f hg)
    have happ := (ih (Or.inl (prefix_refl W)) hW' hf.2.1 hrest).1
    refine ⟨hf.trans happ, fun r hr => ?_⟩
    cases R with
    | nil => exact ⟨r.pos, rfl⟩
    | cons g R =>
      have hskew' : f = g ∧ (W <+: R ∨ R <+: W) := by
        simpa only [cons_prefix_cons, eq_comm, ← and_or_left] using hskew
      obtain ⟨rfl, hskew'⟩ := hskew'
      have hle := happ.1
      -- the later fields leave what the first has written
      have hfirst : Holds p p' r := by
        refine ⟨hr.pos, hle.trans hr.size, fun i hi hi' => ?_⟩
        rw [hr.data i hi (by omega), happ.2.2 i hi']
      have hlater : Holds p' q { r with pos := p'.pos } :=
        ⟨rfl, hr.size, fun i hi hi' => hr.data i (by omega) hi'⟩
      obtain ⟨m, hm⟩ := (ih hskew' hW' hf.2.1 hrest).2 _ hlater
      have hmore : r.pos < q.pos := by
        rw [hr.pos]
        omega
      exact ⟨m, by simp [readFields, if_pos hmore, hread r hfirst, hm, skewed]⟩

theorem inverts_sized (hskew : W <+: R ∨ R <+: W) (hW : ∀ f ∈ W, Inverts f.write f.read f.value) :
    Inverts (sizedWrite (writeFields W)) (sizedRead (readFields R)) (skewed W R) := by
  intro p q h
  obtain ⟨p₁, h₁, h⟩ := Option.bind_eq_some_iff.mp h
  obtain ⟨p₂, h₂, h⟩ := Option.bind_eq_some_iff.mp h
  split_ifs at h
  obtain ⟨s, h₃, h⟩ := Option.bind_eq_some_iff.mp h
  have hq := Option.some.inj h
  subst q
  obtain ⟨hzero, -, -⟩ := inverts_int 0 p p₁ h₁
  obtain ⟨hpos₁, -⟩ := writeInt_some h₁
  obtain ⟨⟨hle, hend, hbefore⟩, hread⟩ := readFields_writeFields hskew hW hzero.2.1 h₂
  obtain ⟨hpos, -, hdata, -⟩ := writeInt_some h₃
  dsimp only at hpos hdata
  have hlt : p.pos < p₂.pos := by omega
  refine ⟨⟨hlt.le, hend, fun i hi => ?_⟩, hlt, fun r ⟨hr, hsize, hsame⟩ => ?_⟩
  · rw [hdata i (Or.inl hi), hbefore i (by omega), hzero.2.2 i hi]
  dsimp only at hsize hsame
  have hint := (inverts_int _ _ _ h₃).2.2 r ⟨hr, by omega, fun i hi hi' => hsame i hi (by omega)⟩
  have hfields : Holds p₁ p₂ { r with pos := s.pos } := by
    refine ⟨by rw [hpos, hpos₁], hsize, fun i hi hi' => ?_⟩
    rw [hsame i (by omega) hi', hdata i (Or.inr (by omega))]
  obtain ⟨m, hm⟩ := hread _ hfields
  have hnat : (BitVec.ofNat 32 (p₂.pos - p.pos)).toNat = p₂.pos - p.pos := by
    rw [BitVec.toNat_ofNat]
    omega
  have hfour : ¬ (BitVec.ofNat 32 (p₂.pos - p.pos)).toInt < 4 := by
    rw [BitVec.toInt_eq_toNat_of_lt (by omega), hnat]
    omega
  have hstop : r.pos + (BitVec.ofNat 32 (p₂.pos - p.pos)).toNat = p₂.pos := by omega
  have hfits : p₂.pos < 2 ^ 31 ∧ p₂.pos ≤ r.size := ⟨hend, hsize⟩
  simp only [sizedRead, hint, Option.bind_eq_bind, Option.bind_some, if_neg hfour, hstop, if_pos hfits, hm]

theorem Nests.inverts {f : Field V} (h : Nests f) : Inverts f.write f.read f.value := by
  induction h with
  | plain h => exact h
  | sized make default hskew _ ih =>
    intro p q hwrite
    obtain ⟨happ, hlt, hread⟩ := inverts_sized hskew ih p q hwrite
    exact ⟨happ, hlt, fun r hr => by simp only [BorrowedParcel.sized, hread r hr, Option.map_some]⟩

/-- The reader has the values of the fields that both know and the defaults of the others. -/
theorem sizedRead_sizedWrite (hskew : W <+: R ∨ R <+: W) (hW : ∀ f ∈ W, Nests f)
    (h : sizedWrite (writeFields W) p = some q) (hr : Holds p q r) :
    sizedRead (readFields R) r = some (skewed W R, { r with pos := q.pos }) :=
  (inverts_sized hskew (fun f hf => (hW f hf).inverts) p q h).2.2 r hr

def int (n : ℕ) (default : BitVec 32) : Field (BitVec 32) := ⟨writeInt n, readInt, BitVec.ofNat 32 n, default⟩

/-- The reader of the inner parcelable lacks its last field, the writer of the outer one that of its reader. -/
theorem sizedRead_sizedWrite_nested :
    let inner := sized [int 2 0, int 3 0] [int 2 0] (·.headD 0) 0
    ∃ q, sizedWrite (writeFields [int 1 0, inner]) ⟨fun _ => .inl 0, 0, 0⟩ = some q ∧
      sizedRead (readFields [int 1 0, inner, int 5 7]) { q with pos := 0, size := q.pos + 4 } =
        some ([1, 2, 7], { q with size := q.pos + 4 }) := by
  intro inner
  have hplain (n : ℕ) (d : BitVec 32) : Nests (int n d) := .plain (inverts_int n)
  have hinner : Nests inner := .sized _ _ (Or.inr ⟨[int 3 0], rfl⟩) (by simp [hplain])
  have hfields : ∀ f ∈ [int 1 0, inner], Nests f := by simp [hplain, hinner]
  obtain ⟨q, hq⟩ := Option.isSome_iff_exists.mp
    (by rfl : (sizedWrite (writeFields [int 1 0, inner]) ⟨fun _ => .inl 0, 0, 0⟩).isSome = true)
  have hr := sizedRead_sizedWrite (Or.inl ⟨[int 5 7], rfl⟩) hfields hq
    (r := { q with pos := 0, size := q.pos + 4 }) ⟨rfl, Nat.le_add_right _ _, fun _ _ _ => rfl⟩
  exact ⟨q, hq, hr⟩

end BorrowedParcel

end Binder.Rust
