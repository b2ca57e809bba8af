import Binder.Parcel.Bundle
import Binder.Parcel.RoundTrip

/-! How `readFromParcel` fills the maps of a bundle, what it leaves there when it fails, and what it allocates. -/
namespace Binder.Parcel
open Binder.Lib Fallible List

/-- The target of a read, with what was allocated for it. -/
structure Fill (α : Type) where
  parcel : Parcel
  val : α
  /-- the entries that `operator[]` has made in maps -/
  entries : ℕ := 0
  /-- the elements that vectors have made room for -/
  elements : ℕ := 0
  /-- how many bundles the target is nested in, and the deepest that was read -/
  level : ℕ := 0
  depth : ℕ := 0

namespace Fill

variable {α β : Type}

/-! ### Values -/

def onParcel (x : Read α) : Fallible (Fill β) Status α := zoom Fill.parcel (fun p s => { s with parcel := p }) x

def store (v : α) : Fallible (Fill α) Status Unit := .ofFun fun s => (.ok (), { s with val := v })

def makeRoom (n : ℕ) : Fallible (Fill α) Status Unit := .ofFun fun s => (.ok (), { s with elements := s.elements + n })

/-- A read that only stores a result. -/
def fill (x : Read α) : Fallible (Fill α) Status Unit := do store (← onParcel x)

/-- A read that stores `v` when it fails. -/
def fillOr (x : Read α) (v : α) : Fallible (Fill α) Status Unit :=
  tryCatch (fill x) fun e => do
    store v
    throw e

/-- The size of a vector, which is then cleared. -/
def clearedSize : Fallible (Fill (List α)) Status ℕ := do
  let size ← onParcel readInt32
  if size.toInt < 0 then throw .unexpectedNull
  else
    let availableBytes ← onParcel readAvail
    if size.toNat > availableBytes then throw .badValue
    else
      store []
      return size.toNat

/-- `insert` makes room when the elements are there. -/
def fillPacked (c : Codec α) : Fallible (Fill (List α)) Status Unit := do
  let size ← clearedSize
  let vs ← onParcel (readBlock c size)
  makeRoom size
  store vs.val

/-- `reserve` makes room before the elements are looked for. -/
def fillWidened (c : Codec α) : Fallible (Fill (List α)) Status Unit := do
  let size ← clearedSize
  makeRoom size
  let vs ← onParcel (readBlock c size)
  store vs.val

/-- The loop over the elements behind `done`, which are empty strings at first. -/
def fillStrings : ℕ → List String16 → Fallible (Fill (List String16)) Status Unit
  | 0, _ => pure ()
  | n + 1, done => do
    let str ← onParcel readString16
    store (done ++ str :: List.replicate n [])
    fillStrings n (done ++ [str])

/-- `resize` makes the elements before they are read. -/
def fillStringVector : Fallible (Fill (List String16)) Status Unit := do
  let size ← clearedSize
  makeRoom size
  store (List.replicate size [])
  fillStrings size []

def fillValue : (t : PlainType) → Fallible (Fill t.Val) Status Unit
  | .boolean => fillOr readBool false
  | .integer => fill readInt32
  | .long => fill readInt64
  | .double => fill readDouble
  | .string => fillOr readString16 []
  | .booleanArray => fillWidened (Scalar.integral .bool).wire
  | .intArray => fillPacked (Scalar.integral .int32).object
  | .longArray => fillPacked (Scalar.integral .int64).object
  | .doubleArray => fillPacked Scalar.double.object
  | .stringArray => fillStringVector

/-! ### Bundles -/

/-- What `operator[]` puts in an entry that is not there yet. -/
def fresh : (t : ValType) → t.Val
  | .plain .boolean => false
  | .plain .integer => (0 : BitVec 32)
  | .plain .long => (0 : BitVec 64)
  | .plain .double => (0 : BitVec 64)
  | .plain .string => ([] : String16)
  | .plain .booleanArray => ([] : List Bool)
  | .plain .intArray => ([] : List (BitVec 32))
  | .plain .longArray => ([] : List (BitVec 64))
  | .plain .doubleArray => ([] : List (BitVec 64))
  | .plain .stringArray => ([] : List String16)
  | .persistableBundle => ({} : PersistableBundle)

def entry (t : ValType) (key : String16) (s : Fill PersistableBundle) : Fill t.Val where
  parcel := s.parcel
  val := (s.val.get t key).getD (fresh t)
  entries := if key ∈ s.val.keys t then s.entries else s.entries + 1
  elements := s.elements
  level := s.level
  depth := s.depth

def withEntry (t : ValType) (key : String16) (e : Fill t.Val) (s : Fill PersistableBundle) : Fill PersistableBundle where
  parcel := e.parcel
  val := s.val.withEntries t (PersistableBundle.assign (s.val.entries t) key e.val)
  entries := e.entries
  elements := e.elements
  level := s.level
  depth := e.depth

def fillEntry (t : ValType) (key : String16) (x : Fallible (Fill t.Val) Status Unit) :
    Fallible (Fill PersistableBundle) Status Unit := zoom (entry t key) (withEntry t key) x

def typeOf (code : ℤ) : Option ValType := ValType.all.find? (·.code = code)

def readEntry (nested : Fallible (Fill PersistableBundle) Status Unit) :
    Fallible (Fill PersistableBundle) Status Unit := do
  let key ← onParcel readString16
  let valueType ← onParcel readInt32
  match typeOf valueType.toInt with
  | some (.plain t) => fillEntry (.plain t) key (fillValue t)
  | some .persistableBundle => fillEntry .persistableBundle key nested
  | none => throw .badType

def readEntries (nested : Fallible (Fill PersistableBundle) Status Unit) :
    ℕ → Fallible (Fill PersistableBundle) Status Unit
  | 0 => pure ()
  | n + 1 => do
    readEntry nested
    readEntries nested n

def readFromParcelInner (nested : Fallible (Fill PersistableBundle) Status Unit) (length : ℕ) :
    Fallible (Fill PersistableBundle) Status Unit := do
  if length = 0 then pure ()
  else
    let magic ← onParcel readInt32
    if magic ≠ bundleMagic ∧ magic ≠ bundleMagicNative then throw .badValue
    else
      let numEntries ← onParcel readInt32
      readEntries nested numEntries.toInt.toNat

def enter : Fallible (Fill PersistableBundle) Status Unit := .ofFun fun s =>
  (.ok (), { s with level := s.level + 1, depth := max s.depth (s.level + 1) })

/-- Bundles nested to a depth below `fuel`. -/
def readNested : ℕ → Fallible (Fill PersistableBundle) Status Unit
  | 0 => ExceptT.mk fun _ => none
  | fuel + 1 => do
    enter
    let length ← onParcel readInt32OrZero
    if length.toInt < 0 then throw .unexpectedNull
    else readFromParcelInner (readNested fuel) length.toNat

def readFromParcel : Fallible (Fill PersistableBundle) Status Unit := ExceptT.mk fun s =>
  (readNested (s.parcel.mDataSize + 1)).run.run s

theorem typeOf_eq_some {code : ℤ} {t : ValType} : typeOf code = some t ↔ t.code = code := by
  constructor
  · intro h
    simpa using List.find?_some h
  · intro h
    cases hfound : typeOf code with
    | none =>
      have hnone := List.find?_eq_none.mp hfound t (ValType.mem_all t)
      exact absurd (decide_eq_true h) hnone
    | some t' =>
      have hcode : t'.code = code := by simpa using List.find?_some hfound
      rw [ValType.code_injective (h.trans hcode.symm)]

end Fill

namespace PersistableBundle

/-- The cases of `readEntry` by the type that the code stands for. -/
theorem readEntry_eq (nested : PersistableBundle → Read PersistableBundle) (b : PersistableBundle) :
    readEntry nested b = (do
      let key ← readString16
      let valueType ← readInt32
      match Fill.typeOf valueType.toInt with
      | some (.plain t) => do
        let v ← readPlain t.ty
        return b.withEntries (.plain t) (assign (b.entries (.plain t)) key v)
      | some .persistableBundle => do
        let v ← nested ((b.get .persistableBundle key).getD {})
        return b.withEntries .persistableBundle (assign (b.entries .persistableBundle) key v)
      | none => throw .badType) := by
  refine bind_congr fun key => bind_congr fun valueType => ?_
  cases htype : Fill.typeOf valueType.toInt with
  | none =>
    have hno : ∀ t ∈ ValType.all, valueType.toInt ≠ t.code := fun t _ h => by
      rw [Fill.typeOf_eq_some.mpr h.symm] at htype
      cases htype
    simp only [ValType.all, List.forall_mem_cons, ValType.code] at hno
    split <;> first | omega | rfl
  | some t =>
    rw [← Fill.typeOf_eq_some.mp htype]
    cases t with
    | plain t => cases t <;> rfl
    | persistableBundle => rfl

end PersistableBundle

namespace Fill

variable {α β : Type}

/-! ### The results that `readFromParcel` keeps -/

/-- The result without what a failure leaves behind. -/
def forget (r : Except Status Unit × Fill α) : Except Status α × Parcel := (r.1.map fun _ => r.2.val, r.2.parcel)

/-- `x` does on its target what `y` does with the target as an argument. -/
def Implements (x : Fallible (Fill α) Status Unit) (y : α → Read α) : Prop :=
  ∀ s, (y s.val).run.run s.parcel = (x.run.run s).map forget

theorem run_onParcel (x : Read α) (s : Fill β) :
    (onParcel x).run.run s = (x.run.run s.parcel).map fun r => (r.1, { s with parcel := r.2 }) := rfl

/-- A read of the parcel, and what is done with its result. -/
theorem run_onParcel_bind {x : Read α} {f : α → Fallible (Fill β) Status Unit} {g : α → Read β} {s : Fill β}
    (h : ∀ a p, (g a).run.run p = ((f a).run.run { s with parcel := p }).map forget) :
    (x >>= g).run.run s.parcel = ((onParcel x >>= f).run.run s).map forget := by
  rw [run_bind, run_bind, run_onParcel]
  cases x.run.run s.parcel with
  | none => rfl
  | some r =>
    obtain ⟨_ | a, p⟩ := r
    · rfl
    · exact h a p

theorem implements_fill (x : Read α) : Implements (fill x) fun _ => x := by
  intro s
  have h := run_onParcel_bind (x := x) (f := store) (g := pure) (s := s) fun a p => rfl
  rwa [bind_pure] at h

theorem implements_fillOr (x : Read α) (v : α) : Implements (fillOr x v) fun _ => x := by
  intro s
  have h := implements_fill x s
  unfold fillOr
  rw [run_tryCatch, h]
  cases (fill x).run.run s with
  | none => rfl
  | some r =>
    obtain ⟨_ | a, p⟩ := r
    · rfl
    · rfl

/-- What all vectors begin with. -/
theorem run_clearedSize_bind {f : ℕ → Fallible (Fill (List α)) Status Unit} {g : ℕ → Read (List α)}
    (h : ∀ n s, s.val = [] → (g n).run.run s.parcel = ((f n).run.run s).map forget) (s : Fill (List α)) :
    (do
      let size ← readInt32
      if size.toInt < 0 then throw .unexpectedNull
      else
        let availableBytes ← readAvail
        if size.toNat > availableBytes then throw .badValue else g size.toNat : Read (List α)).run.run s.parcel =
      ((clearedSize >>= f).run.run s).map forget := by
  unfold clearedSize
  rw [bind_assoc]
  refine run_onParcel_bind fun size p => ?_
  split_ifs
  · rfl
  · rw [bind_assoc]
    refine run_onParcel_bind (s := { s with parcel := p }) fun avail q => ?_
    split_ifs
    · rfl
    · exact h size.toNat { s with parcel := q, val := [] } rfl

theorem run_fillStrings (n : ℕ) (done : List String16) (s : Fill (List String16))
    (hs : s.val = done ++ List.replicate n []) :
    (do return done ++ (← times readString16 n).val : Read (List String16)).run.run s.parcel =
      ((fillStrings n done).run.run s).map forget := by
  induction n generalizing done s with
  | zero =>
    have hval : s.val = done := by simpa using hs
    exact congrArg (fun v => some (Except.ok v, s.parcel)) (by rw [hval]; exact append_nil done)
  | succ n ih =>
    have hsplit : (do return done ++ (← times readString16 (n + 1)).val : Read (List String16)) = (do
        let str ← readString16
        return (done ++ [str]) ++ (← times readString16 n).val) := by
      simp only [times, bind_assoc, pure_bind, append_assoc, singleton_append]
    rw [hsplit]
    refine run_onParcel_bind fun str p => ?_
    exact ih (done ++ [str]) { s with parcel := p, val := done ++ str :: List.replicate n [] } (by simp)

theorem implements_fillValue (t : PlainType) : Implements (fillValue t) fun _ => readPlain t.ty := by
  cases t with
  | boolean => exact implements_fillOr readBool false
  | integer => exact implements_fill readInt32
  | long => exact implements_fill readInt64
  | double => exact implements_fill readDouble
  | string => exact implements_fillOr readString16 []
  | booleanArray =>
    intro s
    refine run_clearedSize_bind (g := fun n => do return (← readBlock (Scalar.integral .bool).wire n).val) ?_ s
    intro n s _
    exact run_onParcel_bind (s := { s with elements := s.elements + n }) fun vs p => rfl
  | intArray =>
    intro s
    refine run_clearedSize_bind (g := fun n => do return (← readBlock (Scalar.integral .int32).object n).val) ?_ s
    intro n s _
    exact run_onParcel_bind fun vs p => rfl
  | longArray =>
    intro s
    refine run_clearedSize_bind (g := fun n => do return (← readBlock (Scalar.integral .int64).object n).val) ?_ s
    intro n s _
    exact run_onParcel_bind fun vs p => rfl
  | doubleArray =>
    intro s
    refine run_clearedSize_bind (g := fun n => do return (← readBlock Scalar.double.object n).val) ?_ s
    intro n s _
    exact run_onParcel_bind fun vs p => rfl
  | stringArray =>
    intro s
    refine run_clearedSize_bind (g := fun n => do return (← times readString16 n).val) ?_ s
    intro n s _
    exact run_fillStrings n [] { s with elements := s.elements + n, val := List.replicate n [] } rfl

theorem implements_fillEntry {t : ValType} {x : Fallible (Fill t.Val) Status Unit} {y : t.Val → Read t.Val}
    (h : Implements x y) (key : String16) : Implements (fillEntry t key x) fun b => do
      let v ← y ((b.get t key).getD (fresh t))
      return b.withEntries t (PersistableBundle.assign (b.entries t) key v) := by
  intro s
  have hentry := h (entry t key s)
  unfold fillEntry
  rw [run_bind, run_zoom]
  change ((y (entry t key s).val).run.run (entry t key s).parcel).bind _ = _
  rw [hentry]
  cases x.run.run (entry t key s) with
  | none => rfl
  | some r =>
    obtain ⟨_ | a, p⟩ := r
    · rfl
    · rfl

section Nested

variable {x : Fallible (Fill PersistableBundle) Status Unit} {y : PersistableBundle → Read PersistableBundle}
  (h : Implements x y)

include h

theorem implements_readEntry : Implements (readEntry x) (PersistableBundle.readEntry y) := by
  intro s
  rw [PersistableBundle.readEntry_eq]
  refine run_onParcel_bind fun key p => run_onParcel_bind (s := { s with parcel := p }) fun valueType q => ?_
  cases typeOf valueType.toInt with
  | none => rfl
  | some t =>
    cases t with
    | plain t => exact implements_fillEntry (t := .plain t) (implements_fillValue t) key { s with parcel := q }
    | persistableBundle => exact implements_fillEntry h key { s with parcel := q }

theorem implements_readEntries (n : ℕ) : Implements (readEntries x n) (PersistableBundle.readEntries y n) := by
  induction n with
  | zero =>
    intro s
    rfl
  | succ n ih =>
    intro s
    have hfirst := implements_readEntry h s
    unfold readEntries PersistableBundle.readEntries
    rw [run_bind, run_bind, hfirst]
    cases (readEntry x).run.run s with
    | none => rfl
    | some r =>
      obtain ⟨_ | a, s'⟩ := r
      · rfl
      · exact ih s'

theorem implements_readFromParcelInner (length : ℕ) :
    Implements (readFromParcelInner x length) (PersistableBundle.readFromParcelInner y length) := by
  intro s
  unfold readFromParcelInner PersistableBundle.readFromParcelInner
  split_ifs
  · rfl
  · refine run_onParcel_bind fun magic p => ?_
    split_ifs
    · rfl
    · refine run_onParcel_bind (s := { s with parcel := p }) fun numEntries q => ?_
      exact implements_readEntries h _ { s with parcel := q }

end Nested

theorem implements_readNested (fuel : ℕ) : Implements (readNested fuel) (PersistableBundle.readNested fuel) := by
  induction fuel with
  | zero =>
    intro s
    rfl
  | succ fuel ih =>
    intro s
    let s' : Fill PersistableBundle := { s with level := s.level + 1, depth := max s.depth (s.level + 1) }
    refine run_onParcel_bind (s := s') fun length p => ?_
    split_ifs
    · rfl
    · exact implements_readFromParcelInner ih _ { s' with parcel := p }

/-- The status, the parcel and a bundle that was read without an error are those of `readFromParcel`. -/
theorem implements_readFromParcel : Implements readFromParcel PersistableBundle.readFromParcel := by
  intro s
  unfold readFromParcel PersistableBundle.readFromParcel
  rw [run_mk, run_mk]
  exact implements_readNested (s.parcel.mDataSize + 1) s

end Fill

end Binder.Parcel
