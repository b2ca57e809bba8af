import Binder.Lib.Triple
import Binder.Parcel.BundleFill

/-! What reading a bundle allocates, and how deep it nests. -/
namespace Binder.Parcel
open Binder.Lib Fallible

variable {α β : Type} {p q : Parcel} {a m n : ℕ}

/-! ### Bytes that are left -/

def left (p : Parcel) : ℕ := p.mDataSize - p.mDataPos

/-- Of `a` bytes at least `m` were passed. -/
def Spent (a m : ℕ) (p : Parcel) : Prop := p.left + m ≤ a

theorem left_passOver (n : ℕ) (p : Parcel) : (passOver n p).2.left = p.left - n := by
  obtain ⟨st, objs, hint, flag, -, h⟩ := passOver_eq n p
  rw [h]
  exact Nat.sub_add_eq ..

theorem Spent.passOver (h : Spent a m p) (hn : p.mDataPos + n ≤ p.mDataSize) : Spent a (m + n) (passOver n p).2 := by
  unfold Spent at h ⊢
  rw [left_passOver]
  unfold left at h ⊢
  omega

theorem triple_spent_readAligned : Triple (Spent a m) (readAligned n) (fun _ => Spent a (m + n)) (Spent a m) := by
  refine .ofFun fun p hp => ?_
  by_cases hn : p.mDataPos + n ≤ p.mDataSize
  · have hpass := hp.passOver hn
    rw [if_pos hn]
    split
    · rename_i q hq
      rw [hq] at hpass
      exact hpass
    · rename_i err q _ hq
      rw [hq] at hpass
      exact (Nat.add_le_add_left (Nat.le_add_right m n) _).trans hpass
  · rw [if_neg hn]
    exact hp

theorem triple_spent_readInt32 : Triple (Spent a m) readInt32 (fun _ => Spent a (m + 4)) (Spent a m) :=
  triple_spent_readAligned.bind_pure

/-- Where the word is missing, less than four bytes are left. -/
theorem triple_spent_readInt32OrZero : Triple (Spent a m) readInt32OrZero
    (fun _ q => Spent a (m + 4) q ∨ Spent a m q ∧ q.left < 4) (Spent a m) := by
  have hread : Triple (Spent a m) readInt32 (fun _ q => Spent a (m + 4) q ∨ Spent a m q ∧ q.left < 4)
      (fun q => Spent a (m + 4) q ∨ Spent a m q ∧ q.left < 4) := by
    refine .bind (R := fun _ => Spent a (m + 4)) ?_ fun _ => .pure fun _ hq => .inl hq
    refine .ofFun fun p hp => ?_
    by_cases hn : p.mDataPos + 4 ≤ p.mDataSize
    · have hpass := hp.passOver hn
      rw [if_pos hn]
      split
      · rename_i q hq
        rw [hq] at hpass
        exact hpass
      · rename_i err q _ hq
        rw [hq] at hpass
        exact .inl hpass
    · rw [if_neg hn]
      have hleft : p.left < 4 := by
        unfold left
        omega
      exact .inr ⟨hp, hleft⟩
  exact hread.tryCatch fun _ => .pure fun _ hq => hq

theorem triple_spent_readInplace (len : ℕ) : Triple (Spent a m) (readInplace len)
    (fun mem q => Spent a m q ∧ (mem.isSome → Spent a (m + padSize len) q)) (Spent a m) := by
  refine .mk fun p hp => ?_
  split_ifs with hlen
  · exact ⟨_, _, rfl, hp, nofun⟩
  rw [padSize?_eq (not_lt.mp hlen), Option.map_some]
  by_cases hn : p.mDataPos + padSize len ≤ p.mDataSize
  · have hpass := hp.passOver hn
    have hless (q : Parcel) (hq : Spent a (m + padSize len) q) : Spent a m q := by
      unfold Spent at hq ⊢
      omega
    simp only [hn, if_true]
    split
    · rename_i q hq
      rw [hq] at hpass
      exact ⟨_, _, rfl, hless q hpass, fun _ => hpass⟩
    · rename_i err q _ hq
      rw [hq] at hpass
      exact ⟨_, _, rfl, hless q hpass, nofun⟩
  · simp only [hn, if_false]
    exact ⟨_, _, rfl, hp, nofun⟩

/-- The length of a string and its terminator take eight bytes. -/
theorem triple_spent_readString16 : Triple (Spent a m) readString16 (fun _ => Spent a (m + 8)) (Spent a m) := by
  have hinplace (size : ℕ) : Triple (fun q => Spent a (m + 4) q ∨ Spent a m q ∧ q.left < 4)
      (readInplace ((size + 1) * 2)) (fun mem q => Spent a m q ∧ (mem.isSome → Spent a (m + 8) q)) (Spent a m) := by
    have hpad : 4 ≤ padSize ((size + 1) * 2) := by
      unfold padSize
      omega
    rintro p (hp | ⟨hp, hlt⟩)
    · refine (triple_spent_readInplace _).mono (fun _ h => h) (fun mem q hq => ?_) (fun q hq => ?_) p hp
      · refine ⟨?_, fun hsome => ?_⟩
        · have := hq.1
          unfold Spent at this ⊢
          omega
        · have := hq.2 hsome
          unfold Spent at this ⊢
          omega
      · unfold Spent at hq ⊢
        omega
    · have hleft : Spent p.left 0 p := le_rfl
      refine (triple_spent_readInplace _).mono (fun _ h => h) (fun mem q hq => ?_) (fun q hq => ?_) p hleft
      · refine ⟨?_, fun hsome => ?_⟩
        · have := hq.1
          unfold Spent at this hp ⊢
          omega
        · have := hq.2 hsome
          unfold Spent at this
          omega
      · unfold Spent at hq hp ⊢
        omega
  refine .bind (R := fun str q => Spent a m q ∧ (str.isSome → Spent a (m + 8) q)) ?_ fun str => ?_
  · refine triple_spent_readInt32OrZero.bind fun size => .ite (fun _ => (hinplace _).bind fun mem => ?_) fun _ =>
      .pure fun q hq => ⟨?_, nofun⟩
    · cases mem with
      | none => exact .pure fun q hq => ⟨hq.1, nofun⟩
      | some =>
        exact .ite (fun _ => .pure fun q hq => ⟨hq.1, fun _ => hq.2 rfl⟩) fun _ => .pure fun q hq => ⟨hq.1, nofun⟩
    · rcases hq with hq | hq
      · unfold Spent at hq ⊢
        omega
      · exact hq.1
  · cases str with
    | none => exact .throw fun q hq => hq.1
    | some => exact .pure fun q hq => hq.2 rfl

theorem triple_spent_readBlock (c : Codec α) (size : ℕ) :
    Triple (Spent a m) (readBlock c size) (fun _ => Spent a (m + size * c.size)) (Spent a m) := by
  refine (triple_spent_readInplace _).bind fun mem => ?_
  cases mem with
  | none => exact .throw fun q hq => hq.1
  | some =>
    refine .pure fun q hq => ?_
    have hspent := hq.2 rfl
    have hle := le_padSize (size * c.size)
    unfold Spent at hspent ⊢
    omega

namespace Fill

/-! ### The budget -/

/-- Of `n` bytes, at least `c` and then one for each entry and element were passed, up to `k` elements that are still
to be read; and at least `d` and twenty for each level. -/
structure Budget (n c d k ℓ : ℕ) (s : Fill α) : Prop where
  cost : s.parcel.left + c + (s.entries + s.elements) ≤ n + k
  made : s.entries + s.elements ≤ n
  here : s.level = ℓ
  level : s.parcel.left + d + 20 * ℓ ≤ n + 20
  depth : 20 * s.depth ≤ n + 20

/-- What holds also after a failure. -/
def Bounded (n : ℕ) (s : Fill α) : Prop := s.entries + s.elements ≤ n ∧ 20 * s.depth ≤ n + 20

variable {n c d k ℓ : ℕ} {s : Fill α}

theorem Budget.bounded (h : Budget n c d k ℓ s) : Bounded n s := ⟨h.made, h.depth⟩

theorem Budget.mono {c' d' k' : ℕ} (h : Budget n c d k ℓ s) (hc : c' + k ≤ c + k') (hd : d' ≤ d) : Budget n c' d' k' ℓ s := by
  have hcost := h.cost
  have hlevel := h.level
  exact ⟨by omega, h.made, h.here, by omega, h.depth⟩

theorem triple_onParcel {x : Read β} (h : ∀ a, Triple (Spent a 0) x (fun _ => Spent a m) (Spent a 0)) :
    Triple (Budget n c d k ℓ) (onParcel x : Fallible (Fill α) Status β) (fun _ => Budget n (c + m) (d + m) k ℓ)
      (Bounded n) := by
  refine .zoom fun s hs => ?_
  have hcost := hs.cost
  have hlevel := hs.level
  refine (h s.parcel.left).mono (fun p hp => ?_) (fun b p hp => ?_) fun p hp => ⟨hs.made, hs.depth⟩
  · rw [hp]
    exact le_rfl
  · have hp : p.left + m ≤ s.parcel.left := hp
    exact ⟨by dsimp only; omega, hs.made, hs.here, by dsimp only; omega, hs.depth⟩

theorem triple_store (v : α) : Triple (Budget n c d k ℓ) (store v) (fun _ => Budget n c d k ℓ) (Bounded n) :=
  .ofFun fun _ hs => ⟨hs.cost, hs.made, hs.here, hs.level, hs.depth⟩

/-! ### Values -/

theorem triple_fill {x : Read α} (h : ∀ a, Triple (Spent a 0) x (fun _ => Spent a m) (Spent a 0)) :
    Triple (Budget n c d 0 ℓ) (fill x) (fun _ => Budget n c d 0 ℓ) (Bounded n) := by
  refine (triple_onParcel h).bind fun v => (triple_store v).weaken fun s hs => ?_
  exact hs.mono (by omega) (by omega)

theorem triple_fillOr {x : Read α} {v : α} (h : ∀ a, Triple (Spent a 0) x (fun _ => Spent a m) (Spent a 0)) :
    Triple (Budget n c d 0 ℓ) (fillOr x v) (fun _ => Budget n c d 0 ℓ) (Bounded n) := by
  have hstore : Triple (Bounded n) (store v) (fun _ => Bounded n) (Bounded n) := .ofFun fun s hs => hs
  exact (triple_fill h).tryCatch fun e => hstore.bind fun _ => .throw fun s hs => hs

theorem dataAvail_eq_some {p : Parcel} {n : ℕ} : p.dataAvail = some n ↔ n = p.left ∧ n ≤ int32Max := by
  have hleft : p.dataSize - p.mDataPos = p.left := by
    unfold dataSize left
    split <;> omega
  unfold dataAvail
  rw [hleft]
  dsimp only
  split_ifs with hmax
  · refine iff_of_false nofun ?_
    rintro ⟨rfl, hle⟩
    omega
  · constructor
    · intro h
      cases h
      exact ⟨rfl, not_lt.mp hmax⟩
    · rintro ⟨rfl, -⟩
      rfl

section Vectors

variable (hn : n ≤ int32Max)

include hn

theorem triple_clearedSize : Triple (Budget n c d 0 ℓ) (clearedSize : Fallible (Fill (List α)) Status ℕ)
    (fun size s => Budget n c d 0 ℓ s ∧ size ≤ s.parcel.left) (Bounded n) := by
  have hword : Triple (Budget n c d 0 ℓ) (onParcel readInt32 : Fallible (Fill (List α)) Status (BitVec 32))
      (fun _ => Budget n c d 0 ℓ) (Bounded n) :=
    (triple_onParcel fun a => triple_spent_readInt32).mono (fun _ hs => hs)
      (fun _ s hs => hs.mono (by omega) (by omega)) fun _ hs => hs
  have havail : Triple (Budget n c d 0 ℓ) (onParcel readAvail : Fallible (Fill (List α)) Status ℕ)
      (fun avail s => Budget n c d 0 ℓ s ∧ avail = s.parcel.left) (Bounded n) := by
    refine .zoom fun s hs => .mk fun p hp => ?_
    have hcost := hs.cost
    rw [hp, dataAvail_eq_some.mpr ⟨rfl, by omega⟩]
    exact ⟨_, _, rfl, hs, rfl⟩
  refine hword.bind fun size => .ite (fun _ => .throw fun s hs => hs.bounded) fun _ => ?_
  refine havail.bind fun avail => .ite (fun _ => .throw fun s hs => hs.1.bounded) fun hle => ?_
  refine .bind (R := fun _ s => Budget n c d 0 ℓ s ∧ avail = s.parcel.left) ?_ fun _ => .pure fun s hs => ?_
  · exact .ofFun fun s hs => ⟨⟨hs.1.cost, hs.1.made, hs.1.here, hs.1.level, hs.1.depth⟩, hs.2⟩
  · exact ⟨hs.1, by omega⟩

omit hn in
theorem triple_makeRoom (size : ℕ) : Triple (fun s => Budget n c d 0 ℓ s ∧ size ≤ s.parcel.left)
    (makeRoom size : Fallible (Fill α) Status Unit) (fun _ => Budget n c d size ℓ) (Bounded n) := by
  refine .ofFun fun s ⟨hs, hle⟩ => ?_
  have hcost := hs.cost
  exact ⟨by dsimp only; omega, by dsimp only; omega, hs.here, hs.level, hs.depth⟩

theorem triple_fillWidened {co : Codec α} (hco : 0 < co.size) :
    Triple (Budget n c d 0 ℓ) (fillWidened co) (fun _ => Budget n c d 0 ℓ) (Bounded n) := by
  refine (triple_clearedSize hn).bind fun size => (triple_makeRoom size).bind fun _ => ?_
  refine (triple_onParcel fun a => triple_spent_readBlock co size).bind fun vs => ?_
  refine (triple_store vs.val).weaken fun s hs => ?_
  have hle := Nat.le_mul_of_pos_right size hco
  exact hs.mono (by omega) (by omega)

theorem triple_fillPacked {co : Codec α} (hco : 0 < co.size) :
    Triple (Budget n c d 0 ℓ) (fillPacked co) (fun _ => Budget n c d 0 ℓ) (Bounded n) := by
  refine (triple_clearedSize hn).bind fun size => ?_
  have hle := Nat.le_mul_of_pos_right size hco
  refine .bind (R := fun _ => Budget n (c + size) d 0 ℓ) ?_ fun vs => .bind (R := fun _ => Budget n c d 0 ℓ) ?_ fun _ =>
    triple_store vs.val
  · refine (triple_onParcel fun a => triple_spent_readBlock co size).mono (fun _ hs => hs.1) (fun _ s hs => ?_)
      fun _ hs => hs
    exact hs.mono (by omega) (by omega)
  · refine .ofFun fun s hs => ?_
    have hcost := hs.cost
    exact ⟨by dsimp only; omega, by dsimp only; omega, hs.here, hs.level, hs.depth⟩

omit hn in
theorem triple_fillStrings (k : ℕ) (done : List String16) :
    Triple (Budget n c d k ℓ) (fillStrings k done) (fun _ => Budget n c d 0 ℓ) (Bounded n) := by
  induction k generalizing done with
  | zero => exact .pure fun s hs => hs
  | succ k ih =>
    refine (triple_onParcel fun a => triple_spent_readString16).bind fun str => ?_
    refine .bind (R := fun _ => Budget n c d k ℓ) ?_ fun _ => ih _
    refine (triple_store _).weaken fun s hs => ?_
    exact hs.mono (by omega) (by omega)

theorem triple_fillValue (t : PlainType) :
    Triple (Budget n c d 0 ℓ) (fillValue t) (fun _ => Budget n c d 0 ℓ) (Bounded n) := by
  have hlong (f : List UInt8 → BitVec 64) (a : ℕ) :
      Triple (Spent a 0) (do return f (← readAligned 8)) (fun _ => Spent a (0 + 8)) (Spent a 0) :=
    triple_spent_readAligned.bind_pure
  cases t with
  | boolean => exact triple_fillOr fun a => triple_spent_readInt32.bind_pure
  | integer => exact triple_fill fun a => triple_spent_readInt32
  | long | double => exact triple_fill (hlong _)
  | string => exact triple_fillOr fun a => triple_spent_readString16
  | booleanArray => exact triple_fillWidened hn (by decide)
  | intArray | longArray | doubleArray => exact triple_fillPacked hn (by decide)
  | stringArray =>
    refine (triple_clearedSize hn).bind fun size => (triple_makeRoom size).bind fun _ => ?_
    exact (triple_store _).bind fun _ => triple_fillStrings size []

end Vectors

/-! ### Bundles -/

/-- An entry that is new is one of the bytes that were passed before it. -/
theorem triple_fillEntry {t : ValType} {x : Fallible (Fill t.Val) Status Unit} {d' d'' ℓ' : ℕ} (key : String16)
    (hd : d'' + 20 * ℓ ≤ d' + 20 * ℓ') (hx : Triple (Budget n c d 0 ℓ) x (fun _ => Budget n c d' 0 ℓ') (Bounded n)) :
    Triple (Budget n (c + 1) d 0 ℓ) (fillEntry t key x) (fun _ => Budget n c d'' 0 ℓ) (Bounded n) := by
  refine .zoom fun s hs => hx.mono (fun e he => ?_) (fun _ e he => ?_) fun e he => he
  · have hcost := hs.cost
    have hentries : (entry t key s).entries ≤ s.entries + 1 := by
      dsimp only [entry]
      split <;> omega
    rw [he]
    exact ⟨by dsimp only [entry] at hentries ⊢; omega, by dsimp only [entry] at hentries ⊢; omega, hs.here, hs.level,
      hs.depth⟩
  · have hlevel := he.level
    exact ⟨he.cost, he.made, hs.here, by dsimp only [withEntry]; omega, he.depth⟩

section Nested

variable {x : Fallible (Fill PersistableBundle) Status Unit} (hn : n ≤ int32Max)
  (hx : Triple (Budget n c 20 0 ℓ) x (fun _ => Budget n c 0 0 (ℓ + 1)) (Bounded n))

include hn hx

theorem triple_readEntry : Triple (Budget n c 8 0 ℓ) (readEntry x) (fun _ => Budget n c 8 0 ℓ) (Bounded n) := by
  refine (triple_onParcel fun a => triple_spent_readString16).bind fun key => ?_
  refine (triple_onParcel fun a => triple_spent_readInt32).bind fun valueType => ?_
  have hpaid {α : Type} {s : Fill α} (hs : Budget n (c + (0 + 8) + (0 + 4)) (8 + (0 + 8) + (0 + 4)) 0 ℓ s) :
      Budget n (c + 1) 20 0 ℓ s := hs.mono (by omega) (by omega)
  cases typeOf valueType.toInt with
  | none => exact .throw fun s hs => hs.bounded
  | some t =>
    cases t with
    | plain t =>
      have hfill := triple_fillEntry (t := .plain t) (d := 20) key (by omega : 8 + 20 * ℓ ≤ 20 + 20 * ℓ)
        (triple_fillValue (c := c) hn t)
      exact hfill.weaken fun _ hs => hpaid hs
    | persistableBundle =>
      have hfill := triple_fillEntry (t := .persistableBundle) key (by omega : 8 + 20 * ℓ ≤ 0 + 20 * (ℓ + 1)) hx
      exact hfill.weaken fun _ hs => hpaid hs

theorem triple_readFromParcelInner (length : ℕ) :
    Triple (Budget n c 0 0 ℓ) (readFromParcelInner x length) (fun _ => Budget n c 0 0 ℓ) (Bounded n) := by
  have hentries (m : ℕ) : Triple (Budget n c 8 0 ℓ) (readEntries x m) (fun _ => Budget n c 8 0 ℓ) (Bounded n) := by
    induction m with
    | zero => exact .pure fun s hs => hs
    | succ m ih => exact (triple_readEntry hn hx).bind fun _ => ih
  refine .ite (fun _ => .pure fun s hs => hs) fun _ => ?_
  refine (triple_onParcel fun a => triple_spent_readInt32).bind fun magic => ?_
  refine .ite (fun _ => .throw fun s hs => hs.bounded) fun _ => ?_
  refine (triple_onParcel fun a => triple_spent_readInt32).bind fun numEntries => ?_
  exact (hentries _).mono (fun s hs => hs.mono (by omega) (by omega)) (fun _ s hs => hs.mono (by omega) (by omega))
    fun _ hs => hs

end Nested

/-- A level takes eight bytes before its entries, and an entry twelve before the bundle in it. -/
theorem triple_readNested {fuel : ℕ} (hn : n ≤ int32Max) (hfuel : n < 20 * (ℓ + fuel)) :
    Triple (Budget n c 20 0 ℓ) (readNested fuel) (fun _ => Budget n c 0 0 (ℓ + 1)) (Bounded n) := by
  induction fuel generalizing ℓ with
  | zero =>
    intro s hs
    have hlevel := hs.level
    omega
  | succ fuel ih =>
    refine .bind (R := fun _ => Budget n c 0 0 (ℓ + 1)) (.ofFun fun s hs => ?_) fun _ => ?_
    · have hlevel := hs.level
      have hdepth := hs.depth
      have hhere := hs.here
      exact ⟨hs.cost, hs.made, congrArg (· + 1) hhere, by dsimp only; omega, by dsimp only; omega⟩
    · have hlength : Triple (Budget n c 0 0 (ℓ + 1))
          (onParcel readInt32OrZero : Fallible (Fill PersistableBundle) Status (BitVec 32))
          (fun _ => Budget n c 0 0 (ℓ + 1)) (Bounded n) := by
        refine triple_onParcel (m := 0) fun a => triple_spent_readInt32OrZero.mono (fun _ hp => hp)
          (fun _ p hp => ?_) fun _ hp => hp
        rcases hp with hp | hp
        · unfold Spent at hp ⊢
          omega
        · exact hp.1
      refine hlength.bind fun length => .ite (fun _ => .throw fun s hs => hs.bounded) fun _ => ?_
      exact triple_readFromParcelInner hn (ih (by omega)) _

/-- `readFromParcel` comes to an end. It makes at most two entries and elements for each byte that is available, and
nests at most one level for twelve bytes, whatever the data claims. -/
theorem readFromParcel_linear (b : PersistableBundle) (p : Parcel) (n : ℕ) (h : p.dataAvail = some n) : ∃ r s,
    readFromParcel.run.run { parcel := p, val := b } = some (r, s) ∧ s.entries + s.elements ≤ 2 * n ∧
      s.depth ≤ n / 12 + 1 ∧ b.readFromParcel.run.run p = some (forget (r, s)) := by
  obtain ⟨hleft, hmax⟩ := dataAvail_eq_some.mp h
  have hstart : Budget n 0 20 0 0 ({ parcel := p, val := b } : Fill PersistableBundle) :=
    ⟨by dsimp only; omega, Nat.zero_le _, rfl, by dsimp only; omega, by dsimp only; omega⟩
  have hfuel : n < 20 * (0 + (p.mDataSize + 1)) := by
    unfold left at hleft
    omega
  have hread := (triple_readNested (c := 0) hmax hfuel).mono (fun _ hs => hs) (fun _ s hs => hs.bounded) fun _ hs => hs
  obtain ⟨r, s, hrun, hmade, hdepth⟩ := hread.run hstart
  have hsame := implements_readFromParcel ({ parcel := p, val := b } : Fill PersistableBundle)
  rw [readFromParcel, run_mk] at hsame ⊢
  refine ⟨r, s, hrun, by omega, by omega, ?_⟩
  rw [hsame, hrun]
  rfl

/-- A bundle with one integer. -/
theorem readFromParcel_linear_integer :
    let p : Parcel := { mData := some (.ofBytes ([24, bundleMagicNative, 1, 0, 0, 1, 7].flatMap wordBytes)),
                        mDataSize := 28, mDataCapacity := 28 }
    ∃ r s, readFromParcel.run.run { parcel := p, val := {} } = some (r, s) ∧ s.entries + s.elements ≤ 56 ∧
      s.depth ≤ 3 := by
  intro p
  obtain ⟨r, s, hrun, hmade, hdepth, -⟩ := readFromParcel_linear {} p 28 (by decide)
  exact ⟨r, s, hrun, hmade, hdepth⟩

end Fill

end Binder.Parcel
