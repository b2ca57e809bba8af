import Binder.Lib.Transition
import Binder.Parcel.Incoming
import Binder.Parcel.PlainRead
import Binder.Parcel.ReadBack
import Binder.Parcel.Steps

/-! Which plain reads are kept away from the objects. -/
namespace Binder.Parcel
open Binder.Lib Binder.Lib.Fallible List

variable {p q r : Parcel} {env : Env} {n m : ℕ}

/-! ### The hint -/

/-- The hint and the flag `mObjectsSorted` would also be right for the position `m`. -/
structure GuardedAt (p : Parcel) (m : ℕ) : Prop where
  passed : ∀ o ∈ p.mObjects.take p.mNextObjectHint, o + sizeofFlatBinderObject ≤ m
  ordered : p.mObjectsSorted = true → Ordered m p.mObjects

instance (p : Parcel) (m : ℕ) : Decidable (p.GuardedAt m) :=
  decidable_of_iff (_ ∧ _) ⟨fun h => ⟨h.1, h.2⟩, fun h => ⟨h.passed, h.ordered⟩⟩

variable {m' size dpos opos len : ℕ} {st : Status} {objs : List ℕ}

theorem GuardedAt.mono (h : p.GuardedAt m) (hm : m ≤ m') : p.GuardedAt m' := by
  have hg : Guarded { p with mDataPos := m } := ⟨h.passed, h.ordered⟩
  have hg' : Guarded { p with mDataPos := m' } := hg.forward hm
  exact ⟨hg'.passed, hg'.ordered⟩

theorem GuardedAt.congr (h : p.GuardedAt m) (hm : m ≤ m') (hobj : q.mObjects = p.mObjects)
    (hhint : q.mNextObjectHint = p.mNextObjectHint) (hsorted : q.mObjectsSorted = p.mObjectsSorted) :
    q.GuardedAt m' where
  passed := by
    rw [hobj, hhint]
    exact (h.mono hm).passed
  ordered := by
    rw [hobj, hsorted]
    exact (h.mono hm).ordered

theorem guardedAt_reset (hhint : p.mNextObjectHint = 0) (hsorted : p.mObjectsSorted = false) : p.GuardedAt m := by
  refine ⟨?_, ?_⟩
  · intro o ho
    simp [hhint] at ho
  · intro hflag
    simp [hsorted] at hflag

theorem guardedAt_of_empty (hobj : p.mObjects = []) : p.GuardedAt m := by
  refine ⟨?_, ?_⟩
  · intro o ho
    simp [hobj] at ho
  · intro _
    refine ⟨[], [], ?_, .nil, by simp⟩
    simp [hobj]

/-- An object that ends before the position can be added. -/
theorem GuardedAt.push {o : ℕ} (h : p.GuardedAt m) (hm : m ≤ m') (ho : o + sizeofFlatBinderObject ≤ m')
    (hobj : q.mObjects = p.mObjects ++ [o]) (hhint : q.mNextObjectHint = p.mNextObjectHint)
    (hsorted : q.mObjectsSorted = p.mObjectsSorted) : q.GuardedAt m' where
  passed := by
    intro x hx
    rw [hobj, hhint, take_append, mem_append] at hx
    rcases hx with hx | hx
    · exact (h.passed x hx).trans hm
    · rw [mem_singleton.mp (mem_of_mem_take hx)]
      exact ho
  ordered := by
    intro hflag
    obtain ⟨sorted, passed, heq, hpair, hpassed⟩ := h.ordered (hsorted ▸ hflag)
    refine ⟨sorted, passed ++ [o], ?_, hpair, fun x hx => ?_⟩
    · rw [hobj, heq, append_assoc]
    · rcases mem_append.mp hx with hx | hx
      · exact (hpassed x hx).trans hm
      · rw [mem_singleton.mp hx]
        exact ho

/-- A parcel that was never given data is empty. Where the position is past the data, the hint is right
already for the end of the data, up to the padding of a string. -/
structure Tracked (p : Parcel) : Prop where
  guarded : p.GuardedAt (min p.mDataPos (p.mDataSize + 3))
  null : p.mData = none → p.mObjects = [] ∧ p.mDataCapacity = 0 ∧ p.mDataSize = 0 ∧ p.mDataPos ≤ int32Max

theorem Tracked.toGuarded (h : Tracked p) : Guarded p :=
  have hg := h.guarded.mono (Nat.min_le_left _ _)
  ⟨hg.passed, hg.ordered⟩

theorem Tracked.init : Tracked {} :=
  ⟨guardedAt_of_empty rfl, fun _ => ⟨rfl, rfl, rfl, Nat.zero_le _⟩⟩

/-! ### Writes -/

theorem Tracked.roomed (h : Tracked p) (hr : Roomed env n p st q) : Tracked q := by
  have hwant : p.mDataSize + 3 ≤ p.wanted n := by
    unfold wanted
    omega
  cases hr with
  | fits | refused => exact h
  | failed => exact ⟨h.guarded.congr le_rfl rfl rfl rfl, h.null⟩
  | enlarged henl =>
    cases henl with
    | taken => exact ⟨guardedAt_reset rfl rfl, by simp [takeOver, log]⟩
    | first _ _ hnone =>
      obtain ⟨hobj, -⟩ := h.null hnone
      exact ⟨guardedAt_of_empty hobj, by simp⟩
    | moved => exact ⟨h.guarded.congr le_rfl rfl rfl rfl, by simp [log]⟩
    | clamped _ hdata =>
      refine ⟨?_, fun hn => ?_⟩
      · refine h.guarded.congr ?_ rfl rfl rfl
        dsimp only
        omega
      · rw [Option.isSome_iff_ne_none] at hdata
        exact absurd hn hdata

theorem Tracked.stored {adv : Bool} (h : Tracked p) (hn : n ≤ int32Max + 3)
    (hfit : p.mData = none → (p.mDataPos + n) % 2 ^ 64 ≤ p.mDataCapacity) (hs : Stored p n adv q) : Tracked q := by
  obtain ⟨f, es, rfl, -, -⟩ := hs
  refine ⟨?_, fun hnone => ?_⟩
  · refine h.guarded.congr ?_ rfl rfl rfl
    dsimp only
    split <;> omega
  · have hnone : p.mData = none := by simpa using hnone
    obtain ⟨hobj, hcap, hsize, hpos⟩ := h.null hnone
    have hzero := hfit hnone
    have hmax : int32Max = 2 ^ 31 - 1 := rfl
    refine ⟨hobj, hcap, ?_, ?_⟩
    · dsimp only
      split <;> omega
    · dsimp only
      split <;> omega

/-- A write without a block of data is only one of no bytes. -/
theorem Roomed.fits_of_null (hr : Roomed env n p .ok q) (hnone : q.mData = none) :
    (q.mDataPos + n) % 2 ^ 64 ≤ q.mDataCapacity := by
  cases hr with
  | fits h => exact h
  | refused h => exact absurd rfl h
  | enlarged henl =>
    cases henl with
    | taken => simp [takeOver, log] at hnone
    | first => simp at hnone
    | moved => simp [log] at hnone
    | clamped _ hdata =>
      rw [Option.isSome_iff_ne_none] at hdata
      exact absurd hnone hdata

theorem Tracked.written (h : Tracked p) (hw : PlainWritten env n p q) : Tracked q := by
  cases hw with
  | rejected => exact h
  | stayed hr => exact h.roomed hr
  | stored _ hn hr hs => exact (h.roomed hr).stored hn hr.fits_of_null hs

theorem Tracked.objectWritten {val : FlatBinderObject} {nullMetaData : Bool} (h : Tracked p)
    (hw : ObjectWritten env val nullMetaData p st q) : Tracked q := by
  cases hw with
  | stayed hr | noTable hr => exact h.roomed hr
  | banned _ hr =>
    have hr' := h.roomed hr
    refine ⟨hr'.guarded.congr le_rfl rfl rfl rfl, fun hnone => hr'.null (by simpa using hnone)⟩
  | placed capacity hr =>
    rename_i r
    have hr' := h.roomed hr
    have hpos : min (r.mDataPos + sizeofFlatBinderObject)
        (max r.mDataSize (r.mDataPos + sizeofFlatBinderObject) + 3) = r.mDataPos + sizeofFlatBinderObject := by
      omega
    have hle : min r.mDataPos (r.mDataSize + 3) ≤ r.mDataPos + sizeofFlatBinderObject := by omega
    refine ⟨?_, fun hnone => ?_⟩
    · change GuardedAt _ (min (r.mDataPos + _) (max r.mDataSize (r.mDataPos + _) + 3))
      rw [hpos]
      by_cases hlisted : nullMetaData = true ∨ val.binder ≠ 0
      · exact hr'.guarded.push hle le_rfl (if_pos hlisted) rfl rfl
      · exact hr'.guarded.congr hle (if_neg hlisted) rfl rfl
    · have hnone : r.mData = none := by simpa [placeObject] using hnone
      obtain ⟨-, hcap, -, hsmall⟩ := hr'.null hnone
      have hfit := hr.fits_of_null hnone
      have hmax : int32Max = 2 ^ 31 - 1 := rfl
      have hfour : sizeofFlatBinderObject = 24 := rfl
      omega

/-! ### Size and position -/

/-- What `setDataSize` needs: the position does not move back, objects are dropped, or the hint is right
also for the new size. -/
def SizeKeeps (p : Parcel) (size : ℕ) : Prop :=
  p.mDataPos ≤ size ∨ (p.keptObjects size).length < p.mObjects.length ∨ p.GuardedAt size
deriving Decidable

theorem Tracked.dropObjects (h : Tracked p) (env : Env) (hsize : p.SizeKeeps size) :
    GuardedAt (p.dropObjects env (p.keptObjects size)) (min p.mDataPos (p.mDataSize + 3)) ∧
      GuardedAt (p.dropObjects env (p.keptObjects size)) (min p.mDataPos size) := by
  by_cases hlen : (p.keptObjects size).length < p.mObjects.length
  · unfold Parcel.dropObjects
    rw [if_pos hlen]
    exact ⟨guardedAt_reset rfl rfl, guardedAt_reset rfl rfl⟩
  · unfold Parcel.dropObjects
    rw [if_neg hlen]
    refine ⟨h.guarded, ?_⟩
    by_cases hpos : p.mDataPos ≤ size
    · exact h.guarded.mono (by omega)
    · rcases hsize with hle | hdrop | hg
      · exact absurd hle hpos
      · exact absurd hdrop hlen
      · exact hg.mono (by omega)

theorem Tracked.sizeSet (h : Tracked p) (hsize : p.SizeKeeps size) (hs : SizeSet env size p q) : Tracked q := by
  cases hs with
  | rejected => exact h
  | stayed hc hst =>
    cases hc with
    | refused => exact h
    | failed => exact ⟨h.guarded.congr le_rfl rfl rfl rfl, h.null⟩
    | emptied | taken | first => exact absurd rfl hst
    | own _ _ hdata hres =>
      obtain ⟨hg, -⟩ := h.dropObjects env hsize
      rw [Option.isSome_iff_ne_none] at hdata
      cases hres with
      | failed => exact ⟨hg.congr (by simp) rfl rfl rfl, fun hnone => absurd (by simpa using hnone) hdata⟩
      | moved | clamped => exact absurd rfl hst
  | set hc =>
    cases hc with
    | emptied _ hzero => exact ⟨guardedAt_of_empty rfl, fun _ => ⟨rfl, rfl, hzero, Nat.zero_le _⟩⟩
    | taken => exact ⟨guardedAt_reset rfl rfl, by simp [takeOver, log]⟩
    | first _ _ _ hnone =>
      obtain ⟨hobj, -⟩ := h.null hnone
      exact ⟨guardedAt_of_empty hobj, by simp⟩
    | own _ _ hdata hres =>
      obtain ⟨-, hg⟩ := h.dropObjects env hsize
      rw [Option.isSome_iff_ne_none] at hdata
      cases hres with
      | moved =>
        refine ⟨hg.congr ?_ rfl rfl rfl, by simp [log]⟩
        simp only [log_mDataPos, dropObjects_mDataPos]
        omega
      | clamped =>
        refine ⟨hg.congr ?_ rfl rfl rfl, fun hnone => absurd (by simpa using hnone) hdata⟩
        simp only [dropObjects_mDataPos]
        omega

theorem Tracked.setDataPosition {pos : ℕ} (h : Tracked p) (hs : setDataPosition pos p = some q) : Tracked q := by
  unfold Parcel.setDataPosition at hs
  split_ifs at hs with hmax
  cases hs
  refine ⟨guardedAt_reset rfl rfl, fun hnone => ?_⟩
  obtain ⟨hobj, hcap, hsize, -⟩ := h.null hnone
  exact ⟨hobj, hcap, hsize, not_lt.mp hmax⟩

/-! ### Reads -/

theorem readInvariant_tracked : ReadInvariant Tracked where
  passOver p n h hn := by
    obtain ⟨q, hq, hp⟩ := passOver_cases (n := n) h.toGuarded
    obtain ⟨st, objs, hint, flag, -, heq⟩ := passOver_eq n p
    have hcap : q.mDataCapacity = p.mDataCapacity := by
      rw [heq] at hq
      exact congrArg (·.2.mDataCapacity) hq.symm
    have hpos := hp.pos
    have hsize := hp.size
    rw [hq]
    have hle : q.mDataPos ≤ min q.mDataPos (q.mDataSize + 3) := by omega
    have hg : q.GuardedAt q.mDataPos := ⟨hp.guarded.passed, hp.guarded.ordered⟩
    refine ⟨hg.mono hle, fun hnone => ?_⟩
    obtain ⟨hobj, hcap₀, hsize₀, hpos₀⟩ := h.null (hp.data ▸ hnone)
    have hsmall : q.mDataPos ≤ int32Max := by omega
    refine ⟨?_, hcap.trans hcap₀, hsize.trans hsize₀, hsmall⟩
    have hperm := hp.objects
    rw [hobj] at hperm
    exact hperm.eq_nil
  skip p n h hn := by
    refine ⟨h.guarded.congr ?_ rfl rfl rfl, fun hnone => ?_⟩
    · dsimp only
      omega
    · obtain ⟨hobj, hcap, hsize, hpos⟩ := h.null hnone
      have hmax : int32Max = 2 ^ 31 - 1 := rfl
      exact ⟨hobj, hcap, hsize, by dsimp only; omega⟩
  log p off len h _ := ⟨h.guarded.congr le_rfl rfl rfl rfl, h.null⟩

theorem seekForward_spec (fuel opos : ℕ) : opos ≤ seekForward objs dpos fuel opos ∧
    ∀ i, opos ≤ i → i < seekForward objs dpos fuel opos → objs.getD i 0 < dpos := by
  induction fuel generalizing opos with
  | zero => exact ⟨le_rfl, fun i h₁ h₂ => absurd h₂ (not_lt.mpr h₁)⟩
  | succ fuel ih =>
    unfold seekForward
    split_ifs with h
    · obtain ⟨hle, hall⟩ := ih (opos + 1)
      refine ⟨by omega, fun i h₁ h₂ => ?_⟩
      rcases h₁.eq_or_lt with rfl | h₁
      · exact h.2
      · exact hall i h₁ h₂
    · exact ⟨le_rfl, fun i h₁ h₂ => absurd h₂ (not_lt.mpr h₁)⟩

theorem seekBackward_le (objs : List ℕ) (dpos opos : ℕ) : seekBackward objs dpos opos ≤ opos := by
  induction opos with
  | zero => exact le_rfl
  | succ opos ih =>
    unfold seekBackward
    split_ifs
    · omega
    · exact le_rfl

/-- The entries from the hint up to the one found start before it. -/
theorem seekObject_spec {hint : ℕ} (h : seekObject objs dpos hint = some opos) :
    objs.getD opos 0 = dpos ∧ ∀ i, hint ≤ i → i < opos → objs.getD i 0 < dpos := by
  unfold seekObject at h
  dsimp only at h
  have hforward (i : ℕ) (h₁ : hint ≤ i)
      (h₂ : i < if hint < objs.length then seekForward objs dpos objs.length hint else objs.length - 1) :
      objs.getD i 0 < dpos := by
    split_ifs at h₂
    · exact (seekForward_spec objs.length hint).2 i h₁ h₂
    · omega
  generalize (if hint < objs.length then seekForward objs dpos objs.length hint else objs.length - 1) = far at h hforward
  have hback := seekBackward_le objs dpos far
  split_ifs at h with _ hfar hnear
  · cases h
    exact ⟨hfar, hforward⟩
  · cases h
    exact ⟨hnear, fun i h₁ h₂ => hforward i h₁ (by omega)⟩

/-- The hint behind an entry that was found at the position. -/
theorem GuardedAt.found (h : p.GuardedAt p.mDataPos)
    (hseek : seekObject p.mObjects p.mDataPos p.mNextObjectHint = some opos)
    (hobj : q.mObjects = p.mObjects) (hhint : q.mNextObjectHint = opos + 1)
    (hsorted : q.mObjectsSorted = p.mObjectsSorted) : q.GuardedAt (p.mDataPos + sizeofFlatBinderObject) where
  passed := by
    obtain ⟨hfound, hbefore⟩ := seekObject_spec hseek
    intro o ho
    rw [hobj, hhint] at ho
    obtain ⟨i, hi, rfl⟩ := mem_take_iff_getElem.mp ho
    have hget : p.mObjects.getD i 0 = p.mObjects[i] := by
      rw [getD_eq_getElem?_getD, List.getElem?_eq_getElem, Option.getD_some]
    rcases lt_or_ge i p.mNextObjectHint with hlt | hge
    · have hpassed := h.passed _ (mem_take_iff_getElem.mpr ⟨i, by omega, rfl⟩)
      omega
    · rcases lt_or_eq_of_le (show i ≤ opos by omega) with hlt | rfl
      · have hstart := hbefore i hge hlt
        omega
      · omega
  ordered := by
    rw [hobj, hsorted]
    exact (h.mono (Nat.le_add_right _ _)).ordered

theorem triple_readObject_tracked (nullMetaData : Bool) :
    Triple Tracked (readObject nullMetaData) (fun _ => Tracked) Tracked := by
  refine .ofFun fun p h => ?_
  have hg : p.GuardedAt p.mDataPos := h.guarded.mono (Nat.min_le_left _ _)
  by_cases hn : p.mDataPos + sizeofFlatBinderObject ≤ p.mDataSize
  · have hmoved {q : Parcel} (hq : q.GuardedAt (p.mDataPos + sizeofFlatBinderObject)) (hdata : q.mData = p.mData)
        (hpos : q.mDataPos = p.mDataPos + sizeofFlatBinderObject) (hsize : q.mDataSize = p.mDataSize) : Tracked q := by
      refine ⟨hq.mono (by omega), fun hnone => ?_⟩
      obtain ⟨-, -, hzero, -⟩ := h.null (hdata ▸ hnone)
      have hpositive : 0 < sizeofFlatBinderObject := by decide
      omega
    have hstay : p.GuardedAt (p.mDataPos + sizeofFlatBinderObject) := hg.mono (Nat.le_add_right _ _)
    dsimp only
    split_ifs
    · exact hmoved (hstay.congr le_rfl rfl rfl rfl) rfl rfl rfl
    · split
      · rename_i opos hseek
        exact hmoved (hg.found hseek rfl rfl rfl) rfl rfl rfl
      · exact hmoved (hstay.congr le_rfl rfl rfl rfl) rfl rfl rfl
  · rw [if_neg hn]
    exact h

/-! ### What the reads return -/

theorem clear_of_returns_read {bs : List UInt8} (h : Guarded p) (hr : Returns (read len) p bs q) :
    p.Clear (padSize len) := by
  obtain ⟨r, hpass, -⟩ := passOver_cases (n := padSize len) h
  rw [Parcel.read, returns_mk] at hr
  by_cases hlen : len > int32Max
  · simp [hlen] at hr
  · rw [if_neg hlen, padSize?_eq (not_lt.mp hlen)] at hr
    by_contra hc
    by_cases hn : p.mDataPos + padSize len ≤ p.mDataSize
    · simp [hn, hpass, hc] at hr
    · simp [hn] at hr

/-- What a read needs: `readCString` does not look at the table, so no object may lie in the rest of the data. -/
def ReadKeeps (p : Parcel) : PlainRead → Prop
  | .readCString => ∀ o ∈ p.mObjects, o + sizeofFlatBinderObject ≤ p.mDataPos ∨ p.mDataSize ≤ o
  | .read _ | .readInplace _ | .readScalar _ | .readString8Inplace | .readString16Inplace => True

theorem readCString_le {str : List UInt8} (h : returned readCString p = some (some str)) :
    p.mDataPos + (str.length + 1) ≤ p.mDataSize := by
  obtain ⟨q, hq⟩ := returned_eq_some.mp h
  rw [readCString, returns_mk] at hq
  split_ifs at hq with hpos
  · dsimp only at hq
    split at hq
    · rename_i len hlen
      obtain ⟨padded, -, heq⟩ := Option.map_eq_some_iff.mp hq
      cases heq
      have hlt := (List.findIdx?_eq_some_iff_getElem.mp hlen).1
      have hle : (p.bytesAt p.mDataPos (p.mDataSize - p.mDataPos)).length ≤ p.mDataSize - p.mDataPos := by
        unfold bytesAt
        cases p.mData <;> simp
      rw [length_take]
      omega
    · cases hq
  · cases hq

theorem Tracked.yields_clear {r : PlainRead} {off : ℕ} (h : Tracked p) (hr : p.ReadKeeps r)
    (hyield : r.yields p = some (off, len)) :
    ∀ o ∈ p.mObjects, o + sizeofFlatBinderObject ≤ off ∨ off + len ≤ o := by
  have hg := h.toGuarded
  intro o ho
  cases r with
  | read =>
    obtain ⟨bs, hbs, heq⟩ := Option.map_eq_some_iff.mp hyield
    cases heq
    obtain ⟨q, hq⟩ := returned_eq_some.mp hbs
    have hclear := clear_of_returns_read hg hq o ho
    have hpad := le_padSize len
    omega
  | readInplace =>
    obtain ⟨ptr, hptr, hmap⟩ := Option.bind_eq_some_iff.mp hyield
    obtain ⟨mem, rfl, heq⟩ := Option.map_eq_some_iff.mp hmap
    cases heq
    obtain ⟨q, hq⟩ := returned_eq_some.mp hptr
    have hclear := (readInplace_passed hg hq).2 o ho
    have hpad := le_padSize len
    omega
  | readScalar s =>
    obtain ⟨v, hv, heq⟩ := Option.map_eq_some_iff.mp hyield
    cases heq
    obtain ⟨q, hq⟩ := returned_eq_some.mp hv
    exact (s.read_passed hg hq).2 o ho
  | readCString =>
    obtain ⟨ptr, hptr, hmap⟩ := Option.bind_eq_some_iff.mp hyield
    obtain ⟨str, rfl, heq⟩ := Option.map_eq_some_iff.mp hmap
    cases heq
    have hle := readCString_le hptr
    exact (hr o ho).imp_right (by omega)
  | readString8Inplace =>
    obtain ⟨ptr, hptr, hmap⟩ := Option.bind_eq_some_iff.mp hyield
    obtain ⟨⟨mem, n⟩, rfl, heq⟩ := Option.map_eq_some_iff.mp hmap
    cases heq
    obtain ⟨q, hq⟩ := returned_eq_some.mp hptr
    have hclear := (readString8Inplace_passed hg hq).2 o ho
    have hpad := le_padSize (n + 1)
    split_ifs at hclear <;> omega
  | readString16Inplace =>
    obtain ⟨ptr, hptr, hmap⟩ := Option.bind_eq_some_iff.mp hyield
    obtain ⟨⟨mem, n⟩, rfl, heq⟩ := Option.map_eq_some_iff.mp hmap
    cases heq
    obtain ⟨q, hq⟩ := returned_eq_some.mp hptr
    have hclear := (readString16Inplace_passed hg hq).2 o ho
    have hpad := le_padSize ((n + 1) * 2)
    split_ifs at hclear <;> omega

/-! ### Runs -/

inductive Access
  | write (op : Op)
  | writeObject (env : Env) (val : FlatBinderObject) (nullMetaData : Bool)
  | setDataPosition (pos : ℕ)
  | setDataSize (env : Env) (size : ℕ)
  | read (r : PlainRead)
  | readObject (nullMetaData : Bool)

/-- `none` where the process aborts, and for a `write` that is not one of plain data. -/
def Access.run (p : Parcel) : Access → Option Parcel
  | .write op => op.plain?.bind fun _ => p.run op
  | .writeObject env val nullMetaData => some (Parcel.writeObject env val nullMetaData p).2
  | .setDataPosition pos => Parcel.setDataPosition pos p
  | .setDataSize env size => some (Parcel.setDataSize env size p).2
  | .read r => r.run p
  | .readObject nullMetaData => after (Parcel.readObject nullMetaData) p

/-- The operations that keep the objects protected. -/
def Access.Keeps (p : Parcel) : Access → Prop
  | .setDataSize _ size => p.SizeKeeps size
  | .write _ | .writeObject .. | .setDataPosition _ | .read _ | .readObject _ => True

instance (p : Parcel) : (r : PlainRead) → Decidable (p.ReadKeeps r)
  | .readCString => inferInstanceAs (Decidable (∀ o ∈ _, _))
  | .read _ | .readInplace _ | .readScalar _ | .readString8Inplace | .readString16Inplace =>
    .isTrue trivial

instance (p : Parcel) : (a : Access) → Decidable (a.Keeps p)
  | .setDataSize _ size => inferInstanceAs (Decidable (p.SizeKeeps size))
  | .write _ | .writeObject .. | .setDataPosition _ | .read _ | .readObject _ => .isTrue trivial

theorem Tracked.run {a : Access} (h : Tracked p) (ha : a.Keeps p) (hq : a.run p = some q) : Tracked q := by
  cases a with
  | write =>
    obtain ⟨⟨env, n⟩, hop, hrun⟩ := Option.bind_eq_some_iff.mp hq
    exact h.written (run_written hop hrun)
  | writeObject env val nullMetaData =>
    cases hq
    exact h.objectWritten (writeObject_cases env val nullMetaData p)
  | setDataPosition => exact h.setDataPosition hq
  | setDataSize env size =>
    cases hq
    exact h.sizeSet ha (setDataSize_cases env size p)
  | read r => exact readInvariant_tracked.run r h hq
  | readObject nullMetaData => exact invariant_after (triple_readObject_tracked nullMetaData) h hq

/-- A new parcel or one that refers to received data. -/
inductive Initial : Parcel → Prop
  | empty : Initial {}
  | received (data : Memory) (size : ℕ) (objects : List ℕ) (p : Parcel) :
      Initial (ipcSetDataReference data size objects p)

theorem scanForFds_eq (p : Parcel) : ∃ has known es, p.scanForFds =
    { p with mHasFds := has, mFdsKnown := known, events := es } := by
  have hrun : (hasFileDescriptorsInRange 0 p.dataSize).run.run p =
      some (if p.dataSize > int32Max ∨ 0 > int32Max then (.error .badValue, p)
        else if 0 + p.dataSize > p.mDataSize then (.error .badValue, p)
        else
          let found := scanRange (p.mData.getD fun _ => 0) p.mObjectsSorted 0 p.dataSize p.mObjects
          (.ok found.2, p.log found.1)) := rfl
  unfold scanForFds
  rw [hrun]
  split_ifs
  · exact ⟨_, _, _, rfl⟩
  · exact ⟨_, _, _, rfl⟩
  · exact ⟨_, _, _, rfl⟩

theorem Initial.tracked (h : Initial p) : Tracked p := by
  cases h with
  | empty => exact .init
  | received =>
    unfold ipcSetDataReference
    obtain ⟨has, known, es, heq⟩ := scanForFds_eq _
    rw [heq]
    exact ⟨guardedAt_reset rfl rfl, by simp⟩

/-- A read of plain data returns no byte of an object that is in the table. -/
theorem reads_spare_objects {p₀ : Parcel} (h₀ : Initial p₀) (hp : Reachable Access.run (fun p a => a.Keeps p) p₀ p)
    {r : PlainRead} (hr : p.ReadKeeps r) {off len : ℕ} (hyield : r.yields p = some (off, len)) :
    ∀ o ∈ p.mObjects, o + sizeofFlatBinderObject ≤ off ∨ off + len ≤ o := by
  have htracked : Tracked p := hp.invariant Tracked h₀.tracked fun _ _ _ hs ha hrun => hs.run ha hrun
  exact htracked.yields_clear hr hyield

/-- A string behind an object. -/
theorem reads_spare_objects_behind : ∃ p : Parcel, PlainRead.readCString.yields p = some (24, 3) ∧ 0 ∈ p.mObjects ∧
    ∀ o ∈ p.mObjects, o + sizeofFlatBinderObject ≤ 24 ∨ 24 + 3 ≤ o := by
  obtain ⟨p, hp, hyields, hmem, hkeeps⟩ := exists_reachable Access.run (fun p a => a.Keeps p) {}
    [.writeObject zeroEnv ⟨binderTypeBinder, 0, 7, 8⟩ false, .write (.writeAligned zeroEnv [104, 105, 0, 0]),
      .setDataSize zeroEnv 32, .setDataPosition 24]
    (fun p => PlainRead.readCString.yields p = some (24, 3) ∧ 0 ∈ p.mObjects ∧ p.ReadKeeps .readCString) (by decide)
  exact ⟨p, hyields, hmem, reads_spare_objects .empty hp hkeeps hyields⟩

/-- A read behind an object moves the hint past it. When `setDataSize` then moves the position back into the
object, the hint stays. -/
theorem not_spared_after_setDataSize : ∃ p, Reachable Access.run Free {} p ∧
    PlainRead.yields p (.readScalar (.integral .int32)) = some (4, 4) ∧ 0 ∈ p.mObjects :=
  exists_reachable Access.run Free {}
    [.writeObject zeroEnv ⟨binderTypeBinder, 0, 7, 8⟩ false, .write (.writeAligned zeroEnv [1, 2, 3, 4]),
      .setDataPosition 24, .read (.readScalar (.integral .int32)), .setDataSize zeroEnv 4, .setDataSize zeroEnv 64]
    _ (by decide)

-- `readCString` does not look at the table: here it returns the type of the object at 0
example : (exec Access.run Free {}
    [.writeObject zeroEnv ⟨binderTypeBinder, 0, 7, 8⟩ false, .setDataPosition 0]).any fun p =>
      PlainRead.readCString.yields p = some (0, 5) && 0 ∈ p.mObjects := by
  decide

end Binder.Parcel
