import Binder.Parcel.Protect

/-! The hint against the whole table: which plain reads are turned down, and which objects are found. -/
namespace Binder.Parcel
open Binder.Lib Binder.Lib.Fallible List

variable {p q : Parcel} {n : ℕ}

/-! ### Plain reads -/

def Overlaps (objects : List ℕ) (pos n : ℕ) : Prop :=
  ∃ o ∈ objects, o < pos + n ∧ pos < o + sizeofFlatBinderObject

theorem clear_iff_not_overlaps : p.Clear n ↔ ¬ Overlaps p.mObjects p.mDataPos n := by
  unfold Clear Overlaps
  push Not
  refine forall₂_congr fun o _ => ?_
  constructor
  · intro h hlt
    exact h.resolve_right (by omega)
  · intro h
    by_cases hlt : o < p.mDataPos + n
    · exact .inl (h hlt)
    · exact .inr (not_lt.mp hlt)

theorem Overlaps.perm {objects objects' : List ℕ} {pos : ℕ} (hperm : objects.Perm objects') :
    Overlaps objects pos n ↔ Overlaps objects' pos n := by
  constructor
  · rintro ⟨o, ho, h⟩
    exact ⟨o, hperm.mem_iff.mp ho, h⟩
  · rintro ⟨o, ho, h⟩
    exact ⟨o, hperm.mem_iff.mpr ho, h⟩

/-- `x` is turned down because of the objects. -/
def Denied {α : Type} (x : Read α) (p : Parcel) : Prop := ∃ q, Fails x p .permissionDenied q

theorem denied_readAligned (h : Guarded p) (hn : p.mDataPos + n ≤ p.mDataSize) :
    Denied (readAligned n) p ↔ ¬ p.Clear n := by
  obtain ⟨r, hr, -⟩ := passOver_cases (n := n) h
  unfold Denied readAligned
  simp only [fails_ofFun, if_pos hn, hr]
  by_cases hc : p.Clear n
  · simp [hc]
  · simp [hc]

theorem denied_read {len : ℕ} (h : Guarded p) (hlen : len ≤ int32Max)
    (hn : p.mDataPos + padSize len ≤ p.mDataSize) : Denied (read len) p ↔ ¬ p.Clear (padSize len) := by
  obtain ⟨r, hr, -⟩ := passOver_cases (n := padSize len) h
  unfold Denied Parcel.read
  simp only [fails_mk, if_neg (not_lt.mpr hlen), padSize?_eq hlen, Option.map_some, if_pos hn, hr]
  by_cases hc : p.Clear (padSize len)
  · simp [hc]
  · simp [hc]

/-- The null pointer stands for the refusal. -/
theorem null_readInplace {len : ℕ} (h : Guarded p) (hdata : p.mData.isSome) (hlen : len ≤ int32Max)
    (hn : p.mDataPos + padSize len ≤ p.mDataSize) :
    returned (readInplace len) p = some none ↔ ¬ p.Clear (padSize len) := by
  obtain ⟨r, hr, -⟩ := passOver_cases (n := padSize len) h
  obtain ⟨mem, hmem⟩ := Option.isSome_iff_exists.mp hdata
  rw [returned_eq_some, Parcel.readInplace]
  simp only [returns_mk, if_neg (not_lt.mpr hlen), padSize?_eq hlen, Option.map_some, if_pos hn, hr, hmem]
  by_cases hc : p.Clear (padSize len)
  · simp [hc]
  · simp [hc]

theorem denied_validateReadData (h : Guarded p) :
    (validateReadData (p.mDataPos + n) p).1 = .permissionDenied ↔ ¬ p.Clear n := by
  obtain ⟨r, hr, -⟩ := validateReadData_cases (n := n) h
  rw [hr]
  by_cases hc : p.Clear n
  · simp [hc]
  · simp [hc]

def Access.Reads : Access → Prop
  | .read _ | .readObject _ | .setDataPosition _ => True
  | .write _ | .writeObject .. | .setDataSize .. => False

instance : (a : Access) → Decidable a.Reads
  | .read _ | .readObject _ | .setDataPosition _ => .isTrue trivial
  | .write _ | .writeObject .. | .setDataSize .. => .isFalse id

/-- What a reader does not change. -/
structure Perusal (p₀ p : Parcel) : Prop where
  tracked : Tracked p
  data : p.mData = p₀.mData
  size : p.mDataSize = p₀.mDataSize
  objects : p.mObjects.Perm p₀.mObjects

theorem Perusal.step {p₀ : Parcel} {a : Access} (h : Perusal p₀ p) (ha : a.Reads) (hq : a.run p = some q) :
    Perusal p₀ q := by
  have hperused (hpq : Perused p q) : q.mData = p.mData ∧ q.mDataSize = p.mDataSize ∧ q.mObjects.Perm p.mObjects := by
    obtain ⟨pos, objs, hint, flag, es, rfl, hperm, -⟩ := hpq
    exact ⟨rfl, rfl, hperm⟩
  cases a with
  | write | writeObject | setDataSize => cases ha
  | setDataPosition =>
    have hkept : q.mData = p.mData ∧ q.mDataSize = p.mDataSize ∧ q.mObjects = p.mObjects := by
      simp only [Access.run, setDataPosition] at hq
      split_ifs at hq
      cases hq
      exact ⟨rfl, rfl, rfl⟩
    obtain ⟨hdata, hsize, hobj⟩ := hkept
    exact ⟨h.tracked.setDataPosition hq, hdata.trans h.data, hsize.trans h.size, hobj ▸ h.objects⟩
  | read r =>
    obtain ⟨hdata, hsize, hobj⟩ := hperused (r.perused hq)
    exact ⟨readInvariant_tracked.run r h.tracked hq, hdata.trans h.data, hsize.trans h.size, hobj.trans h.objects⟩
  | readObject nullMetaData =>
    obtain ⟨hdata, hsize, hobj⟩ := hperused (readObject_perused nullMetaData hq)
    exact ⟨invariant_after (triple_readObject_tracked nullMetaData) h.tracked hq, hdata.trans h.data,
      hsize.trans h.size, hobj.trans h.objects⟩

theorem mData_ipcSetDataReference (data : Memory) (size : ℕ) (objects : List ℕ) (p : Parcel) :
    (ipcSetDataReference data size objects p).mData = some data := by
  unfold ipcSetDataReference
  obtain ⟨has, known, es, heq⟩ := scanForFds_eq _
  rw [heq]
  rfl

/-- A plain read of received data is turned down exactly if its range overlaps an object, whatever was read
before. -/
theorem reads_denied_iff {data : Memory} {size : ℕ} {objects : List ℕ} {p₁ p₀ p : Parcel}
    (hp₀ : p₀ = ipcSetDataReference data size objects p₁) (hp : Reachable Access.run (fun _ a => a.Reads) p₀ p) :
    (∀ n, 1 ≤ n → p.mDataPos + n ≤ p.mDataSize →
      ((validateReadData (p.mDataPos + n) p).1 = .permissionDenied ↔ Overlaps p₀.mObjects p.mDataPos n)) ∧
    (∀ len, 1 ≤ len → len ≤ int32Max → p.mDataPos + padSize len ≤ p.mDataSize →
      ((Denied (read len) p ↔ Overlaps p₀.mObjects p.mDataPos (padSize len)) ∧
        (returned (readInplace len) p = some none ↔ Overlaps p₀.mObjects p.mDataPos (padSize len)))) ∧
    ∀ n, 1 ≤ n → p.mDataPos + n ≤ p.mDataSize → (Denied (readAligned n) p ↔ Overlaps p₀.mObjects p.mDataPos n) := by
  have hper : Perusal p₀ p := by
    refine hp.invariant (Perusal p₀) ?_ fun _ _ _ hs ha hrun => hs.step ha hrun
    refine ⟨?_, rfl, rfl, .refl _⟩
    rw [hp₀]
    exact (Initial.received data size objects p₁).tracked
  have hg := hper.tracked.toGuarded
  have hdata : p.mData.isSome := by
    rw [hper.data, hp₀, mData_ipcSetDataReference]
    rfl
  have hoverlaps (n : ℕ) : ¬ p.Clear n ↔ Overlaps p₀.mObjects p.mDataPos n := by
    rw [clear_iff_not_overlaps, not_not]
    exact Overlaps.perm hper.objects
  refine ⟨fun n _ _ => ?_, fun len _ hlen hn => ⟨?_, ?_⟩, fun n _ hn => ?_⟩
  · rw [← hoverlaps]
    exact denied_validateReadData hg
  · rw [← hoverlaps]
    exact denied_read hg hlen hn
  · rw [← hoverlaps]
    exact null_readInplace hg hdata hlen hn
  · rw [← hoverlaps]
    exact denied_readAligned hg hn

/-- A reader that went past an object and came back into it. -/
theorem reads_denied_inside : ∃ p : Parcel, p.mDataPos = 8 ∧ Denied (read 3) p := by
  obtain ⟨p, hp, hpos, hsize⟩ := exists_reachable Access.run (fun _ a => a.Reads)
    (ipcSetDataReference (.ofBytes (⟨binderTypeBinder, 0, 7, 8⟩ : FlatBinderObject).bytes) 64 [0] {})
    [.readObject false, .read (.read 4), .setDataPosition 8]
    (fun p => p.mDataPos = 8 ∧ p.mDataSize = 64) (by decide)
  refine ⟨p, hpos, (((reads_denied_iff rfl hp).2.1 3 (by decide) (by decide) ?_).1).mpr ?_⟩
  · rw [hpos, hsize]
    decide
  · rw [hpos]
    exact ⟨0, by decide, by decide, by decide⟩

/-! ### Objects -/

/-- The search for an entry at `dpos` that starts at the hint comes to one: the entries before it on the way
forward are smaller, or those on the way back are greater. -/
def InSight (objs : List ℕ) (dpos hint : ℕ) : Prop :=
  ∃ k < objs.length, objs.getD k 0 = dpos ∧ (hint ≤ k ∧ (∀ i < k, hint ≤ i → objs.getD i 0 < dpos) ∨
      k < hint ∧ ∀ i < objs.length, k < i → i ≤ hint → dpos < objs.getD i 0)

section Search

variable {objs : List ℕ} {dpos hint : ℕ}

theorem seekForward_eq {k : ℕ} (fuel : ℕ) (hk : hint ≤ k) (hfuel : k - hint < fuel) (hlen : k < objs.length)
    (hstop : ¬ objs.getD k 0 < dpos ∨ k = objs.length - 1)
    (hbefore : ∀ i < k, hint ≤ i → objs.getD i 0 < dpos) : seekForward objs dpos fuel hint = k := by
  induction fuel generalizing hint with
  | zero => omega
  | succ fuel ih =>
    unfold seekForward
    rcases hk.eq_or_lt with rfl | hlt
    · rw [if_neg]
      rintro ⟨hinside, hless⟩
      rcases hstop with hstop | hstop
      · exact hstop hless
      · omega
    · rw [if_pos ⟨by omega, hbefore hint hlt le_rfl⟩]
      exact ih (by omega) (by omega) fun i hi hle => hbefore i hi (by omega)

theorem seekBackward_eq {k far : ℕ} (hk : k ≤ far) (hstop : ¬ objs.getD k 0 > dpos)
    (hafter : ∀ i, k < i → i ≤ far → objs.getD i 0 > dpos) : seekBackward objs dpos far = k := by
  induction far with
  | zero =>
    unfold seekBackward
    omega
  | succ far ih =>
    unfold seekBackward
    rcases hk.eq_or_lt with rfl | hlt
    · rw [if_neg hstop]
    · rw [if_pos (hafter _ hlt le_rfl)]
      exact ih (by omega) fun i hi hle => hafter i hi (by omega)

theorem seekBackward_after (far : ℕ) : ∀ i, seekBackward objs dpos far < i → i ≤ far → objs.getD i 0 > dpos := by
  induction far with
  | zero =>
    intro i hi hle
    omega
  | succ far ih =>
    intro i hi hle
    unfold seekBackward at hi
    split_ifs at hi with hgreater
    · rcases hle.eq_or_lt with rfl | hlt
      · exact hgreater
      · exact ih i hi (by omega)
    · omega

theorem seekForward_lt (fuel : ℕ) (hhint : hint < objs.length) : seekForward objs dpos fuel hint < objs.length := by
  induction fuel generalizing hint with
  | zero => exact hhint
  | succ fuel ih =>
    unfold seekForward
    split_ifs with h
    · exact ih (by omega)
    · exact hhint

theorem seekObject_of_inSight (h : InSight objs dpos hint) : (seekObject objs dpos hint).isSome := by
  obtain ⟨k, hk, hfound, hway⟩ := h
  have hne : objs ≠ [] := ne_nil_of_length_pos (Nat.zero_lt_of_lt hk)
  unfold seekObject
  rw [if_neg hne]
  dsimp only
  rcases hway with ⟨hhint, hbefore⟩ | ⟨hhint, hafter⟩
  · have hforward : seekForward objs dpos objs.length hint = k :=
      seekForward_eq objs.length hhint (by omega) hk (.inl (by omega)) hbefore
    have hinside : hint < objs.length := by omega
    rw [if_pos hinside, hforward, if_pos hfound]
    rfl
  · -- the search goes back from the hint, or from the last entry
    obtain ⟨far, hfar, hlast, hle⟩ : ∃ far,
        (if hint < objs.length then seekForward objs dpos objs.length hint else objs.length - 1) = far ∧
          far < objs.length ∧ k ≤ far ∧ far ≤ hint := by
      by_cases hinside : hint < objs.length
      · have hgreater := hafter hint hinside hhint le_rfl
        have hstay : seekForward objs dpos objs.length hint = hint :=
          seekForward_eq objs.length le_rfl (by omega) hinside (.inl (by omega)) fun i hi hge => by omega
        rw [if_pos hinside, hstay]
        exact ⟨hint, rfl, hinside, hhint.le, le_rfl⟩
      · rw [if_neg hinside]
        exact ⟨_, rfl, by omega, by omega, by omega⟩
    rw [hfar]
    have hback : seekBackward objs dpos far = k :=
      seekBackward_eq hle.1 (by omega) fun i hi hif => hafter i (by omega) hi (by omega)
    rw [hback]
    split_ifs
    · rfl
    · rfl

theorem inSight_of_seekObject {opos : ℕ} (h : seekObject objs dpos hint = some opos) : InSight objs dpos hint := by
  have hbefore := (seekObject_spec h).2
  unfold seekObject at h
  dsimp only at h
  split_ifs at h with hnil hinside hfound hback hfound hback
  · -- found on the way forward
    obtain rfl := Option.some.inj h
    have hle : hint ≤ seekForward objs dpos objs.length hint := (seekForward_spec objs.length hint).1
    have hlt : seekForward objs dpos objs.length hint < objs.length := seekForward_lt objs.length hinside
    exact ⟨_, hlt, hfound, .inl ⟨hle, fun i hi hge => hbefore i hge hi⟩⟩
  · -- found on the way back, so before the hint
    obtain ⟨hle, hless⟩ : _ ∧ ∀ i, hint ≤ i → i < seekForward objs dpos objs.length hint → objs.getD i 0 < dpos :=
      seekForward_spec objs.length hint
    have hafter : ∀ i, seekBackward objs dpos (seekForward objs dpos objs.length hint) < i →
        i ≤ seekForward objs dpos objs.length hint → objs.getD i 0 > dpos := seekBackward_after _
    have hback_le := seekBackward_le objs dpos (seekForward objs dpos objs.length hint)
    generalize seekForward objs dpos objs.length hint = far at *
    generalize seekBackward objs dpos far = k at *
    have hkfar : k ≠ far := by
      rintro rfl
      exact hfound hback
    have hkhint : k < hint := by
      by_contra hge
      have := hless k (by omega) (by omega)
      omega
    exact ⟨k, by omega, hback, .inr ⟨hkhint, fun i _ hi hih => hafter i hi (by omega)⟩⟩
  · obtain rfl := Option.some.inj h
    have hpos := length_pos_iff.mpr hnil
    exact ⟨_, by omega, hfound, .inr ⟨by omega, fun i hi hlast => by omega⟩⟩
  · obtain rfl := Option.some.inj h
    have hpos := length_pos_iff.mpr hnil
    have hafter : ∀ i, seekBackward objs dpos (objs.length - 1) < i → i ≤ objs.length - 1 → objs.getD i 0 > dpos :=
      seekBackward_after _
    have hback_le := seekBackward_le objs dpos (objs.length - 1)
    exact ⟨_, by omega, hback, .inr ⟨by omega, fun i hi hlt _ => hafter i hlt (by omega)⟩⟩

theorem seekObject_isSome_iff : (seekObject objs dpos hint).isSome ↔ InSight objs dpos hint := by
  constructor
  · intro h
    obtain ⟨opos, hopos⟩ := Option.isSome_iff_exists.mp h
    exact inSight_of_seekObject hopos
  · exact seekObject_of_inSight

theorem InSight.mem (h : InSight objs dpos hint) : dpos ∈ objs := by
  obtain ⟨k, hk, rfl, -⟩ := h
  rw [getD_eq_getElem _ _ hk]
  exact getElem_mem hk

/-- In a table that is in order every entry is found, from any hint. -/
theorem inSight_of_sorted (hsorted : objs.Pairwise (· ≤ ·)) (hmem : dpos ∈ objs) : InSight objs dpos hint := by
  have hle (i j : ℕ) (hij : i < j) (hj : j < objs.length) : objs.getD i 0 ≤ objs.getD j 0 := by
    rw [getD_eq_getElem _ _ (by omega), getD_eq_getElem _ _ hj]
    exact pairwise_iff_getElem.mp hsorted i j _ hj hij
  obtain ⟨m, hm, hget⟩ := getElem_of_mem hmem
  have hat : objs.getD m 0 = dpos := by
    rw [getD_eq_getElem _ _ hm, hget]
  by_cases hahead : ∃ k, hint ≤ k ∧ k < objs.length ∧ objs.getD k 0 = dpos
  · -- the first entry for it from the hint on
    obtain ⟨hge, hlt, hfound⟩ := Nat.find_spec hahead
    refine ⟨Nat.find hahead, hlt, hfound, .inl ⟨hge, fun i hi hhint => ?_⟩⟩
    have hnot : objs.getD i 0 ≠ dpos := fun heq => Nat.find_min hahead hi ⟨hhint, by omega, heq⟩
    have := hle i (Nat.find hahead) hi hlt
    omega
  · -- the last entry for it, which is before the hint
    have hlast := Nat.findGreatest_spec (P := fun k => k < objs.length ∧ objs.getD k 0 = dpos) hm.le ⟨hm, hat⟩
    generalize hk : Nat.findGreatest (fun k => k < objs.length ∧ objs.getD k 0 = dpos) objs.length = k at hlast
    refine ⟨k, hlast.1, hlast.2, .inr ⟨?_, fun i hi hki _ => ?_⟩⟩
    · by_contra hge
      exact hahead ⟨k, not_lt.mp hge, hlast⟩
    · have hnot : objs.getD i 0 ≠ dpos := by
        intro heq
        have := Nat.le_findGreatest (P := fun k => k < objs.length ∧ objs.getD k 0 = dpos) hi.le ⟨hi, heq⟩
        omega
      have := hle k i hki hi
      omega

end Search

def objectHere (p : Parcel) : FlatBinderObject := p.mData.elim ⟨0, 0, 0, 0⟩ fun mem => .load mem p.mDataPos

theorem returned_readObject {nullMetaData : Bool} (hin : p.mDataPos + sizeofFlatBinderObject ≤ p.mDataSize)
    (hlisted : nullMetaData = true ∨ ¬ (p.objectHere.cookie = 0 ∧ p.objectHere.binder = 0)) :
    returned (readObject nullMetaData) p = some (some p.objectHere) ↔
      InSight p.mObjects p.mDataPos p.mNextObjectHint := by
  have hnull : ¬ ((!nullMetaData) = true ∧ p.objectHere.cookie = 0 ∧ p.objectHere.binder = 0) := by
    rintro ⟨hno, hzero⟩
    rcases hlisted with hmeta | hlisted
    · simp [hmeta] at hno
    · exact hlisted hzero
  unfold objectHere at hnull ⊢
  rw [returned_eq_some, ← seekObject_isSome_iff]
  unfold readObject
  simp only [returns_ofFun, if_pos hin, if_neg hnull]
  cases seekObject p.mObjects p.mDataPos p.mNextObjectHint with
  | none | some => simp

/-- Where the table has an entry for the position, `readObject` finds it exactly if it is in sight of the hint,
and without an entry it finds none. It always does in a table that is in order. -/
theorem readObject_exact_iff (p : Parcel) (nullMetaData : Bool)
    (hin : p.mDataPos + sizeofFlatBinderObject ≤ p.mDataSize)
    (hlisted : nullMetaData = true ∨ ¬ (p.objectHere.cookie = 0 ∧ p.objectHere.binder = 0)) :
    ((returned (readObject nullMetaData) p = some (some p.objectHere) ↔ p.mDataPos ∈ p.mObjects) ↔
      (p.mDataPos ∈ p.mObjects → InSight p.mObjects p.mDataPos p.mNextObjectHint)) ∧
    (p.mObjects.Pairwise (· ≤ ·) → p.mDataPos ∈ p.mObjects → InSight p.mObjects p.mDataPos p.mNextObjectHint) := by
  refine ⟨?_, fun hsorted hmem => inSight_of_sorted hsorted hmem⟩
  rw [returned_readObject hin hlisted]
  constructor
  · intro h
    exact h.mpr
  · intro h
    exact ⟨InSight.mem, h⟩

/-- Two objects in order, read from the second one. -/
theorem readObject_exact_second : ∃ p : Parcel, p.mDataPos = 24 ∧
    returned (readObject false) p = some (some p.objectHere) := by
  obtain ⟨p, -, hpos, hsize, hcookie, hobj⟩ := exists_reachable Access.run Free {}
    [.writeObject zeroEnv ⟨binderTypeBinder, 0, 7, 8⟩ false, .writeObject zeroEnv ⟨binderTypeBinder, 0, 9, 8⟩ false,
      .setDataPosition 24]
    (fun p => p.mDataPos = 24 ∧ p.mDataSize = 48 ∧ p.objectHere.cookie = 8 ∧ p.mObjects = [0, 24]) (by decide)
  have hsight := readObject_exact_iff p false (by rw [hpos, hsize]; decide) (.inr (by simp [hcookie]))
  refine ⟨p, hpos, (hsight.1.mpr (hsight.2 ?_)).mpr ?_⟩
  · rw [hobj]
    decide
  · rw [hpos, hobj]
    decide

/-- Two objects written in the other order: the one at 0 has an entry and is not found. -/
theorem readObject_misses_entry : ∃ p, Reachable Access.run Free {} p ∧
    p.mDataPos + sizeofFlatBinderObject ≤ p.mDataSize ∧ p.objectHere.cookie ≠ 0 ∧ p.mDataPos ∈ p.mObjects ∧
    returned (readObject false) p = some none :=
  exists_reachable Access.run Free {}
    [.write (.writeUnpadded zeroEnv (fun _ => 0) 24), .writeObject zeroEnv ⟨binderTypeBinder, 0, 7, 8⟩ false,
      .setDataPosition 0, .writeObject zeroEnv ⟨binderTypeBinder, 0, 9, 8⟩ false, .setDataPosition 0] _ (by decide)

end Binder.Parcel
