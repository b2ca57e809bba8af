import Mathlib.Algebra.Group.Nat.Defs
import Mathlib.Data.List.Count
import Binder.Lib.Transition

/-! The number of proxies that a process holds for each user id, and the limit on it. -/
namespace Binder.BpBinder
open Binder.Lib List Function

def limitReachedMask : BitVec 32 := 0x80000000
def countingValueMask : BitVec 32 := 0x7FFFFFFF

/-- `sBinderProxyThrottleCreate`, the watermarks, and whether `sLimitCallback` is set. -/
structure Limits where
  sBinderProxyThrottleCreate : Bool
  sBinderProxyCountHighWatermark : BitVec 32
  sBinderProxyCountLowWatermark : BitVec 32
  sLimitCallback : Bool

/-- The maps, with the tracked user ids of the live proxies and the calls of the callback. -/
structure Tracking where
  sTrackingMap : BitVec 32 → Option (BitVec 32) := fun _ => none
  sLastLimitCallbackMap : BitVec 32 → Option (BitVec 32) := fun _ => none
  live : List (BitVec 32) := []
  callbacks : List (BitVec 32) := []

namespace Tracking

def word (s : Tracking) (uid : BitVec 32) : BitVec 32 := (s.sTrackingMap uid).getD 0

def setWord (uid value : BitVec 32) (s : Tracking) : Tracking :=
  { s with sTrackingMap := update s.sTrackingMap uid (some value) }

def lastLimitCallbackAt (s : Tracking) (uid : BitVec 32) : BitVec 32 := (s.sLastLimitCallbackMap uid).getD 0

def callback (c : Limits) (uid trackedValue : BitVec 32) (s : Tracking) : Tracking :=
  { s with
    callbacks := if c.sLimitCallback then uid :: s.callbacks else s.callbacks
    sLastLimitCallbackMap := update s.sLastLimitCallbackMap uid (some trackedValue) }

def track (uid : BitVec 32) (s : Tracking) : Tracking :=
  { s.setWord uid (s.word uid + 1) with live := uid :: s.live }

/-- A proxy for a handle that `uid` sent; `false` where none is made. The tracked user id is the caller's as an
`int32_t`. -/
def create (c : Limits) (uid : BitVec 32) (s : Tracking) : Bool × Tracking :=
  let trackedValue := s.word uid
  if trackedValue &&& limitReachedMask ≠ 0 then
    if c.sBinderProxyThrottleCreate then (false, s)
    else
      let trackedValue := trackedValue &&& countingValueMask
      let last := s.lastLimitCallbackAt uid
      let s := { s with sLastLimitCallbackMap := update s.sLastLimitCallbackMap uid (some last) }
      if trackedValue > last ∧ trackedValue - last > c.sBinderProxyCountHighWatermark then
        (true, (s.callback c uid trackedValue).track uid)
      else (true, s.track uid)
  else
    let s := s.setWord uid trackedValue
    if trackedValue &&& countingValueMask ≥ c.sBinderProxyCountHighWatermark then
      let s := (s.setWord uid (s.word uid ||| limitReachedMask)).callback c uid (trackedValue &&& countingValueMask)
      if c.sBinderProxyThrottleCreate then (false, s) else (true, s.track uid)
    else (true, s.track uid)

/-- The bit goes where the count is no longer above the low watermark. -/
def resetLimit (c : Limits) (uid : BitVec 32) (s : Tracking) : Tracking :=
  if s.word uid &&& limitReachedMask ≠ 0 ∧ s.word uid &&& countingValueMask ≤ c.sBinderProxyCountLowWatermark then
    { s.setWord uid (s.word uid &&& ~~~limitReachedMask) with
      sLastLimitCallbackMap := update s.sLastLimitCallbackMap uid none }
  else s

def untrack (uid : BitVec 32) (s : Tracking) : Tracking :=
  let s := s.setWord uid (s.word uid - 1)
  if s.word uid = 0 then { s with sTrackingMap := update s.sTrackingMap uid none } else s

def destroy (c : Limits) (uid : BitVec 32) (s : Tracking) : Tracking :=
  let s := { s with live := s.live.erase uid }
  if 0 ≤ uid.toInt then
    let s := s.setWord uid (s.word uid)
    if s.word uid &&& countingValueMask = 0 then s else (s.resetLimit c uid).untrack uid
  else s

def getBinderProxyCount (uid : BitVec 32) (s : Tracking) : BitVec 32 := s.word uid &&& countingValueMask

inductive Op
  | create (uid : BitVec 32)
  | destroy (uid : BitVec 32)
  deriving DecidableEq, Repr

def step (c : Limits) (s : Tracking) : Op → Option Tracking
  | .create uid => some (s.create c uid).2
  | .destroy uid => if uid ∈ s.live then some (s.destroy c uid) else none

end Tracking

/-! ### A count and a bit in one word -/

section Word

variable {w : BitVec 32}

def count (w : BitVec 32) : ℕ := (w &&& countingValueMask).toNat

def limited (w : BitVec 32) : Prop := w &&& limitReachedMask ≠ 0
deriving Decidable

theorem count_eq (w : BitVec 32) : count w = w.toNat % 2 ^ 31 := by
  exact Nat.and_two_pow_sub_one_eq_mod w.toNat 31

theorem limited_iff : limited w ↔ 2 ^ 31 ≤ w.toNat := by
  have hmask : limitReachedMask = BitVec.twoPow 32 31 := by decide
  have hmsb : w.getLsbD 31 = w.msb := rfl
  unfold limited
  rw [hmask, BitVec.and_twoPow, hmsb, BitVec.msb_eq_decide]
  by_cases h : 2 ^ 31 ≤ w.toNat
  · simp only [h, decide_true, if_true, iff_true]
    decide
  · simp

theorem count_add_one (h : count w + 1 < 2 ^ 31) : count (w + 1) = count w + 1 := by
  have hadd : (w + 1).toNat = (w.toNat + 1) % 2 ^ 32 := BitVec.toNat_add w 1
  rw [count_eq] at h ⊢
  rw [count_eq, hadd]
  omega

theorem limited_add_one (h : count w + 1 < 2 ^ 31) : limited (w + 1) ↔ limited w := by
  have hadd : (w + 1).toNat = (w.toNat + 1) % 2 ^ 32 := BitVec.toNat_add w 1
  rw [count_eq] at h
  rw [limited_iff, limited_iff, hadd]
  omega

/-- With the last number of its bits the count runs over. -/
theorem count_add_one_of_full (h : count w + 1 = 2 ^ 31) : count (w + 1) = 0 := by
  have hadd : (w + 1).toNat = (w.toNat + 1) % 2 ^ 32 := BitVec.toNat_add w 1
  rw [count_eq] at h ⊢
  omega

theorem toNat_sub_one (h : count w ≠ 0) : (w - 1).toNat = w.toNat - 1 := by
  have hsub : (w - 1).toNat = (2 ^ 32 - 1 + w.toNat) % 2 ^ 32 := BitVec.toNat_sub w 1
  rw [count_eq] at h
  omega

theorem count_sub_one (h : count w ≠ 0) : count (w - 1) = count w - 1 := by
  rw [count_eq, toNat_sub_one h]
  rw [count_eq] at h ⊢
  omega

theorem limited_sub_one (h : count w ≠ 0) : limited (w - 1) ↔ limited w := by
  rw [limited_iff, limited_iff, toNat_sub_one h]
  rw [count_eq] at h
  omega

theorem toNat_or_limit (h : ¬ limited w) : (w ||| limitReachedMask).toNat = w.toNat + 2 ^ 31 := by
  have hlt := limited_iff.not.mp h
  have hadd : w + limitReachedMask = w ||| limitReachedMask :=
    BitVec.add_eq_or_of_and_eq_zero w limitReachedMask (not_not.mp h)
  have hmask : limitReachedMask.toNat = 2 ^ 31 := by decide
  rw [← hadd, BitVec.toNat_add, hmask]
  omega

theorem count_or_limit (h : ¬ limited w) : count (w ||| limitReachedMask) = count w := by
  rw [count_eq, count_eq, toNat_or_limit h]
  omega

theorem limited_or_limit (h : ¬ limited w) : limited (w ||| limitReachedMask) := by
  rw [limited_iff, toNat_or_limit h]
  omega

theorem toNat_and_not_limit (w : BitVec 32) : (w &&& ~~~limitReachedMask).toNat = count w := rfl

theorem count_and_not_limit (w : BitVec 32) : count (w &&& ~~~limitReachedMask) = count w := by
  rw [count_eq, toNat_and_not_limit, count_eq, Nat.mod_mod]

theorem not_limited_and_not_limit (w : BitVec 32) : ¬ limited (w &&& ~~~limitReachedMask) := by
  rw [limited_iff, toNat_and_not_limit, count_eq]
  omega

end Word

namespace Tracking

variable {c : Limits} {s s' : Tracking} {uid uid' : BitVec 32}

@[simp] theorem word_setWord (s : Tracking) (uid value : BitVec 32) : (s.setWord uid value).word uid = value := by
  simp [word, setWord]

theorem word_setWord_ne (h : uid' ≠ uid) (value : BitVec 32) : (s.setWord uid value).word uid' = s.word uid' := by
  simp [word, setWord, h]

@[simp] theorem word_callback (v : BitVec 32) : (s.callback c uid v).word uid' = s.word uid' := rfl

theorem le_countingValue {w v : BitVec 32} : w &&& countingValueMask ≥ v ↔ v.toNat ≤ count w := BitVec.le_def

/-- `t` is `s` but for the word of `uid`, which is `w`. -/
structure Reworded (uid w : BitVec 32) (s t : Tracking) : Prop where
  word : t.word uid = w
  others : ∀ uid' ≠ uid, t.word uid' = s.word uid'
  live : t.live = s.live

/-- `create` sets the bit at the high watermark and then counts, but for a proxy that it refuses. -/
theorem create_spec (c : Limits) (uid : BitVec 32) (s : Tracking) : ∃ w t, Reworded uid w s t ∧
    count w = count (s.word uid) ∧
    (limited w ↔ limited (s.word uid) ∨ c.sBinderProxyCountHighWatermark.toNat ≤ count (s.word uid)) ∧
    s.create c uid = if c.sBinderProxyThrottleCreate = true ∧ limited w then (false, t) else (true, t.track uid) := by
  have hset (w : BitVec 32) : Reworded uid w s (s.setWord uid w) :=
    ⟨word_setWord .., fun _ h => word_setWord_ne h w, rfl⟩
  unfold create
  by_cases hlim : limited (s.word uid)
  · have hbit : s.word uid &&& limitReachedMask ≠ 0 := hlim
    rw [if_pos hbit]
    by_cases hthrottle : c.sBinderProxyThrottleCreate = true
    · refine ⟨s.word uid, s, ⟨rfl, fun _ _ => rfl, rfl⟩, rfl, by simp [hlim], ?_⟩
      rw [if_pos hthrottle, if_pos ⟨hthrottle, hlim⟩]
    · simp only [hthrottle, Bool.false_eq_true, if_false, false_and]
      split_ifs
      · refine ⟨s.word uid, _, ?_, rfl, by simp [hlim], rfl⟩
        exact ⟨rfl, fun _ _ => rfl, rfl⟩
      · refine ⟨s.word uid, _, ?_, rfl, by simp [hlim], rfl⟩
        exact ⟨rfl, fun _ _ => rfl, rfl⟩
  · have hbit : ¬ s.word uid &&& limitReachedMask ≠ 0 := hlim
    rw [if_neg hbit]
    by_cases hhigh : c.sBinderProxyCountHighWatermark.toNat ≤ count (s.word uid)
    · refine ⟨s.word uid ||| limitReachedMask, ((s.setWord uid (s.word uid)).setWord uid _).callback c uid
        (s.word uid &&& countingValueMask), ⟨word_setWord .., fun uid' h => ?_, rfl⟩, count_or_limit hlim, ?_, ?_⟩
      · rw [word_callback, word_setWord_ne h, word_setWord_ne h]
      · simp [limited_or_limit hlim, hhigh]
      · rw [if_pos (le_countingValue.mpr hhigh), word_setWord]
        simp only [limited_or_limit hlim, and_true]
    · refine ⟨s.word uid, s.setWord uid (s.word uid), hset _, rfl, by simp [hhigh], ?_⟩
      rw [if_neg (le_countingValue.not.mpr hhigh), if_neg (by simp [hlim])]

theorem Reworded.trans {w w' : BitVec 32} {t u : Tracking} (h : Reworded uid w s t) (h' : Reworded uid w' t u) :
    Reworded uid w' s u :=
  ⟨h'.word, fun uid' hne => (h'.others uid' hne).trans (h.others uid' hne), h'.live.trans h.live⟩

theorem resetLimit_spec (c : Limits) (uid : BitVec 32) (s : Tracking) : ∃ w, count w = count (s.word uid) ∧
    (limited w ↔ limited (s.word uid) ∧ c.sBinderProxyCountLowWatermark.toNat < count (s.word uid)) ∧
    Reworded uid w s (s.resetLimit c uid) := by
  have hle : s.word uid &&& countingValueMask ≤ c.sBinderProxyCountLowWatermark ↔
      count (s.word uid) ≤ c.sBinderProxyCountLowWatermark.toNat := BitVec.le_def
  unfold resetLimit
  split_ifs with hreset
  · refine ⟨s.word uid &&& ~~~limitReachedMask, count_and_not_limit _, ?_, ?_⟩
    · have hlow := hle.mp hreset.2
      simp [not_limited_and_not_limit, hlow]
    · exact ⟨word_setWord .., fun _ h => word_setWord_ne h _, rfl⟩
  · refine ⟨s.word uid, rfl, ?_, ⟨rfl, fun _ _ => rfl, rfl⟩⟩
    constructor
    · intro hlim
      exact ⟨hlim, Nat.not_le.mp fun h => hreset ⟨hlim, h⟩⟩
    · exact And.left

theorem untrack_reworded (uid : BitVec 32) (s : Tracking) : Reworded uid (s.word uid - 1) s (s.untrack uid) := by
  unfold untrack
  dsimp only
  rw [word_setWord]
  split_ifs with hzero
  · refine ⟨?_, fun uid' hne => ?_, rfl⟩
    · rw [hzero]
      simp [word]
    · simp [word, setWord, hne]
  · exact ⟨word_setWord .., fun _ h => word_setWord_ne h _, rfl⟩

/-- The destructor takes one from the count, and up to the low watermark takes away the bit. -/
theorem destroy_spec (huid : 0 ≤ uid.toInt) (hcount : count (s.word uid) ≠ 0) : ∃ w,
    count w = count (s.word uid) - 1 ∧
    (limited w ↔ limited (s.word uid) ∧ c.sBinderProxyCountLowWatermark.toNat < count (s.word uid)) ∧
    Reworded uid w { s with live := s.live.erase uid } (s.destroy c uid) := by
  let t : Tracking := { s with live := s.live.erase uid }
  have hset : Reworded uid (s.word uid) t (t.setWord uid (s.word uid)) :=
    ⟨word_setWord .., fun _ h => word_setWord_ne h _, rfl⟩
  have hnonzero : ¬ s.word uid &&& countingValueMask = 0 := by
    intro h
    refine hcount ?_
    unfold count
    rw [h]
    rfl
  obtain ⟨w, hw, hlim, hreset⟩ := resetLimit_spec c uid (t.setWord uid (s.word uid))
  have hdown := untrack_reworded uid ((t.setWord uid (s.word uid)).resetLimit c uid)
  rw [word_setWord] at hw hlim
  rw [hreset.word] at hdown
  refine ⟨w - 1, ?_, ?_, ?_⟩
  · rw [count_sub_one (by rwa [hw]), hw]
  · rw [limited_sub_one (by rwa [hw]), hlim]
  · have hdestroy : s.destroy c uid = ((t.setWord uid (s.word uid)).resetLimit c uid).untrack uid := by
      unfold destroy
      dsimp only
      rw [if_pos huid, word_setWord]
      exact if_neg hnonzero
    rw [hdestroy]
    exact (hset.trans hreset).trans hdown

theorem destroy_negative (huid : ¬ 0 ≤ uid.toInt) : s.destroy c uid = { s with live := s.live.erase uid } :=
  if_neg huid

/-! ### Runs -/

variable (c) in
/-- The counts are those of the live proxies, and none with the bit is below the low watermark or zero. -/
def Accounted (s : Tracking) : Prop := ∀ uid, count (s.word uid) = s.live.count uid ∧
  (limited (s.word uid) → max c.sBinderProxyCountLowWatermark.toNat 1 ≤ count (s.word uid))

variable (c) in
/-- A proxy is made where the count has room for it. A proxy is destroyed that is tracked under a user id which is not
negative as an `int32_t`, and that is not the last one of a limited user id where the low watermark is zero. -/
def OpOk (s : Tracking) : Op → Prop
  | .create uid => c.sBinderProxyThrottleCreate = true ∨ s.live.count uid + 1 < 2 ^ 31
  | .destroy uid => 0 ≤ uid.toInt ∧
    ¬ (c.sBinderProxyCountLowWatermark = 0 ∧ limited (s.word uid) ∧ s.live.count uid = 1)

instance (s : Tracking) : (op : Op) → Decidable (OpOk c s op)
  | .create _ => inferInstanceAs (Decidable (_ ∨ _))
  | .destroy _ => inferInstanceAs (Decidable (_ ∧ _))

/-- The low watermark is below the high one, which leaves the bit free. -/
structure Watermarked (c : Limits) : Prop where
  low : c.sBinderProxyCountLowWatermark.toNat < c.sBinderProxyCountHighWatermark.toNat
  high : c.sBinderProxyCountHighWatermark.toNat < 2 ^ 31

/-- `t` is `s` but for `uid`, which has the word `w` and `n` live proxies. -/
structure Changed (uid w : BitVec 32) (n : ℕ) (s t : Tracking) : Prop where
  word : t.word uid = w
  live : t.live.count uid = n
  others : ∀ uid' ≠ uid, t.word uid' = s.word uid' ∧ t.live.count uid' = s.live.count uid'

theorem Changed.accounted_iff {w : BitVec 32} {n : ℕ} {t : Tracking} (ht : Changed uid w n s t) (h : Accounted c s) :
    Accounted c t ↔ count w = n ∧ (limited w → max c.sBinderProxyCountLowWatermark.toNat 1 ≤ n) := by
  constructor
  · intro haccounted
    obtain ⟨hcount, hbit⟩ := haccounted uid
    rw [ht.word, ht.live] at hcount
    rw [ht.word, hcount] at hbit
    exact ⟨hcount, hbit⟩
  · rintro ⟨hcount, hbit⟩ uid'
    by_cases hne : uid' = uid
    · rw [hne, ht.word, ht.live, hcount]
      exact ⟨rfl, hbit⟩
    · obtain ⟨hword, hlive⟩ := ht.others uid' hne
      rw [hword, hlive]
      exact h uid'

theorem Reworded.changed {w : BitVec 32} {t : Tracking} (h : Reworded uid w s t) :
    Changed uid w (s.live.count uid) s t :=
  ⟨h.word, by rw [h.live], fun uid' hne => ⟨h.others uid' hne, by rw [h.live]⟩⟩

theorem Reworded.track {w : BitVec 32} {t : Tracking} (h : Reworded uid w s t) :
    Changed uid (w + 1) (s.live.count uid + 1) s (t.track uid) := by
  refine ⟨?_, ?_, fun uid' hne => ⟨?_, ?_⟩⟩
  · rw [← h.word]
    exact word_setWord ..
  · change (uid :: t.live).count uid = _
    rw [count_cons_self, h.live]
  · rw [← h.others uid' hne]
    exact word_setWord_ne hne _
  · change (uid :: t.live).count uid' = _
    rw [count_cons_of_ne (Ne.symm hne), h.live]

theorem Reworded.erase {w : BitVec 32} {t : Tracking} (h : Reworded uid w { s with live := s.live.erase uid } t) :
    Changed uid w (s.live.count uid - 1) s t := by
  refine ⟨h.word, ?_, fun uid' hne => ⟨h.others uid' hne, ?_⟩⟩
  · rw [h.live]
    exact count_erase_self
  · rw [h.live]
    exact count_erase_of_ne hne

theorem accounted_create (hc : Watermarked c) (h : Accounted c s) :
    Accounted c (s.create c uid).2 ↔ OpOk c s (.create uid) := by
  obtain ⟨hlow, hhigh⟩ := hc
  obtain ⟨w, t, hw, hcount, hlim, hcreate⟩ := create_spec c uid s
  obtain ⟨hlive, hbit⟩ := h uid
  rw [hlive] at hcount hlim hbit
  have hbit' : limited w → max c.sBinderProxyCountLowWatermark.toNat 1 ≤ s.live.count uid := by
    intro hl
    rcases hlim.mp hl with hl | hl
    · exact hbit hl
    · omega
  have hmax : s.live.count uid < 2 ^ 31 := by
    rw [← hcount, count_eq]
    omega
  rw [hcreate]
  split_ifs with hrefused
  · rw [hw.changed.accounted_iff h]
    exact iff_of_true ⟨hcount, hbit'⟩ (.inl hrefused.1)
  · rw [hw.track.accounted_iff h]
    by_cases hroom : s.live.count uid + 1 < 2 ^ 31
    · have hroom' : count w + 1 < 2 ^ 31 := by rwa [hcount]
      refine iff_of_true ⟨by rw [count_add_one hroom', hcount], fun hl => ?_⟩ (.inr hroom)
      have := hbit' ((limited_add_one hroom').mp hl)
      omega
    · -- here the count runs over; a throttled user id would have been refused
      have hfull : count w + 1 = 2 ^ 31 := by omega
      refine iff_of_false (fun hacc => ?_) fun hok => ?_
      · have hover := count_add_one_of_full hfull
        omega
      · have hthrottle := hok.resolve_right hroom
        exact hrefused ⟨hthrottle, hlim.mpr (.inr (by omega))⟩

theorem accounted_destroy (h : Accounted c s) (hmem : uid ∈ s.live) :
    Accounted c (s.destroy c uid) ↔ OpOk c s (.destroy uid) := by
  obtain ⟨hlive, hbit⟩ := h uid
  have hpos : 0 < s.live.count uid := count_pos_iff.mpr hmem
  by_cases huid : 0 ≤ uid.toInt
  · obtain ⟨w, hw, hlim, hreworded⟩ : ∃ w, count w = count (s.word uid) - 1 ∧ _ :=
      destroy_spec (c := c) huid (by omega)
    rw [hreworded.erase.accounted_iff h, hlim]
    have hzero : c.sBinderProxyCountLowWatermark = 0 ↔ c.sBinderProxyCountLowWatermark.toNat = 0 :=
      ⟨fun hz => congrArg BitVec.toNat hz, fun hz => BitVec.eq_of_toNat_eq hz⟩
    unfold OpOk
    rw [hzero]
    rw [hlive] at hw hbit
    simp only [hw, huid, true_and]
    constructor
    · rintro hacc ⟨hlow, hl, hone⟩
      have := hacc ⟨hl, by omega⟩
      omega
    · rintro hok ⟨hl, hlt⟩
      by_contra hlt'
      exact hok ⟨by omega, hl, by omega⟩
  · have hreworded : Reworded uid (s.word uid) { s with live := s.live.erase uid } (s.destroy c uid) := by
      rw [destroy_negative huid]
      exact ⟨rfl, fun _ _ => rfl, rfl⟩
    rw [hreworded.erase.accounted_iff h]
    exact iff_of_false (fun hacc => by omega) fun hok => huid hok.1

theorem step_destroy : step c s (.destroy uid) = some s' ↔ uid ∈ s.live ∧ s' = s.destroy c uid := by
  simp [step, eq_comm]

theorem accounted_step {op : Op} (hc : Watermarked c) (h : Accounted c s) (hs : step c s op = some s') :
    Accounted c s' ↔ OpOk c s op := by
  cases op with
  | create =>
    cases hs
    exact accounted_create hc h
  | destroy =>
    obtain ⟨hmem, rfl⟩ := step_destroy.mp hs
    exact accounted_destroy h hmem

/-- A step sets the bit only at the high watermark. -/
theorem limited_of_step {op : Op} (hc : Watermarked c) (h : Accounted c s) (hop : OpOk c s op)
    (hs : step c s op = some s') (hl : limited (s'.word uid)) :
    limited (s.word uid) ∨ c.sBinderProxyCountHighWatermark.toNat ≤ count (s.word uid) := by
  cases op with
  | create uid₀ =>
    cases hs
    obtain ⟨w, t, hw, hcount, hlim, hcreate⟩ := create_spec c uid₀ s
    rw [hcreate] at hl
    split_ifs at hl with hrefused
    · by_cases hne : uid = uid₀
      · subst hne
        rw [hw.word] at hl
        exact hlim.mp hl
      · rw [hw.others uid hne] at hl
        exact .inl hl
    · by_cases hne : uid = uid₀
      · subst hne
        have hhigh := hc.high
        by_cases hroom : count w + 1 < 2 ^ 31
        · rw [hw.track.word, limited_add_one hroom] at hl
          exact hlim.mp hl
        · exact .inr (by omega)
      · rw [(hw.track.others uid hne).1] at hl
        exact .inl hl
  | destroy uid₀ =>
    obtain ⟨hmem, rfl⟩ := step_destroy.mp hs
    have hpos : 0 < s.live.count uid₀ := count_pos_iff.mpr hmem
    have hcount := (h uid₀).1
    obtain ⟨w, -, hlim, hw⟩ := destroy_spec (c := c) hop.1 (show count (s.word uid₀) ≠ 0 by omega)
    by_cases hne : uid = uid₀
    · subst hne
      rw [hw.word] at hl
      exact .inl (hlim.mp hl).1
    · rw [hw.others uid hne] at hl
      exact .inl hl

theorem refused_of_limited (h : (s.create c uid).1 = false) : c.sBinderProxyThrottleCreate = true ∧
    (limited (s.word uid) ∨ c.sBinderProxyCountHighWatermark.toNat ≤ count (s.word uid)) := by
  obtain ⟨w, t, -, -, hlim, hcreate⟩ := create_spec c uid s
  rw [hcreate] at h
  split_ifs at h with hrefused
  exact ⟨hrefused.1, hlim.mp hrefused.2⟩

/-- In every run whose steps all meet the condition the counts are exact, the bit is set only at the high watermark and
gone below the low one, and a proxy is only refused above it; and the condition is the weakest for that. -/
theorem proxies_accounted (c : Limits) (hc : Watermarked c) (s : Tracking) (h : Reachable (step c) (OpOk c) {} s)
    (uid : BitVec 32) : (s.getBinderProxyCount uid).toNat = s.live.count uid ∧
      (s.live.count uid < max c.sBinderProxyCountLowWatermark.toNat 1 → ¬ limited (s.word uid)) ∧
      (∀ op s', OpOk c s op → step c s op = some s' → limited (s'.word uid) →
        limited (s.word uid) ∨ c.sBinderProxyCountHighWatermark.toNat ≤ s.live.count uid) ∧
      ((s.create c uid).1 = false → c.sBinderProxyThrottleCreate = true ∧
        max c.sBinderProxyCountLowWatermark.toNat 1 ≤ s.live.count uid) ∧
      ∀ op s', step c s op = some s' → (Accounted c s' ↔ OpOk c s op) := by
  have hempty : Accounted c {} := by
    intro uid
    refine ⟨?_, fun hl => absurd hl ?_⟩
    · rw [count_eq]
      rfl
    · rw [limited_iff]
      exact Nat.not_le.mpr (Nat.two_pow_pos 31)
  have hacc : Accounted c s := h.invariant (Accounted c) hempty fun _ _ _ hs hop hstep =>
    (accounted_step hc hs hstep).mpr hop
  obtain ⟨hcount, hbit⟩ := hacc uid
  have hlow := hc.low
  refine ⟨hcount, fun hlt hl => ?_, fun op s' hop hs hl => ?_, fun hrefused => ?_, fun op s' hs =>
    accounted_step hc hacc hs⟩
  · have := hbit hl
    omega
  · rw [← hcount]
    exact limited_of_step hc hacc hop hs hl
  · obtain ⟨hthrottle, hl⟩ := refused_of_limited hrefused
    refine ⟨hthrottle, ?_⟩
    rw [← hcount]
    rcases hl with hl | hl
    · exact hbit hl
    · omega

/-- Two proxies for a user id, and the limit behind them. -/
theorem proxies_accounted_limited : ∃ s, Reachable (step ⟨true, 2, 1, true⟩) (OpOk ⟨true, 2, 1, true⟩) {} s ∧
    (s.getBinderProxyCount 1000).toNat = 2 ∧ limited (s.word 1000) := by
  obtain ⟨s, hs, hlive, hlimited⟩ := exists_reachable (step ⟨true, 2, 1, true⟩) (OpOk ⟨true, 2, 1, true⟩) {}
    [.create 1000, .create 1000, .create 1000] (fun s => s.live.count 1000 = 2 ∧ limited (s.word 1000))
    (by decide +kernel)
  have hcount := (proxies_accounted _ ⟨by decide, by decide⟩ s hs 1000).1
  exact ⟨s, hs, hcount.trans hlive, hlimited⟩

/-- With the low watermark zero the bit stays when the last proxy is destroyed, and no proxy is made again. The count of
a user id that is negative as an `int32_t` is never taken back. -/
theorem proxies_not_accounted :
    (∃ s, Reachable (step ⟨true, 1, 0, true⟩) Free {} s ∧ s.live = [] ∧ limited (s.word 1000) ∧
      (s.create ⟨true, 1, 0, true⟩ 1000).1 = false) ∧
    ∃ s, Reachable (step ⟨true, 2, 1, true⟩) Free {} s ∧ s.live = [] ∧ (s.getBinderProxyCount (-1)).toNat = 1 := by
  constructor
  · exact exists_reachable (step ⟨true, 1, 0, true⟩) Free {} [.create 1000, .create 1000, .destroy 1000] _
      (by decide +kernel)
  · exact exists_reachable (step ⟨true, 2, 1, true⟩) Free {} [.create (-1), .destroy (-1)] _ (by decide +kernel)

end Tracking

end Binder.BpBinder
