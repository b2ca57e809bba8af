import Mathlib.Tactic.Common

/-! The identity of the caller and the work source of a thread, and the tokens that they are put back from. -/
namespace Binder.IPCThreadState

/-- What a thread knows of the transaction that it serves. `pid_t` and `mWorkSource` are signed, `uid_t` is not. -/
structure Caller where
  mCallingPid : BitVec 32
  mCallingSid : Option String := none
  mCallingUid : BitVec 32
  mWorkSource : BitVec 32
  mPropagateWorkSource : Bool
  deriving DecidableEq, Repr

structure Process where
  getpid : BitVec 32
  getuid : BitVec 32

def kUnsetWorkSource : BitVec 32 := -1

def kWorkSourcePropagatedBitIndex : ℕ := 32

namespace Caller

def clearCaller (self : Process) (s : Caller) : Caller :=
  { s with mCallingPid := self.getpid, mCallingSid := none, mCallingUid := self.getuid }

/-- The process id is an `int` and is sign extended. -/
def clearCallingIdentity (self : Process) (s : Caller) : BitVec 64 × Caller :=
  ((s.mCallingUid.setWidth 64 <<< 32) ||| s.mCallingPid.signExtend 64, s.clearCaller self)

def restoreCallingIdentity (token : BitVec 64) (s : Caller) : Caller :=
  { s with
    mCallingUid := (token.sshiftRight 32).setWidth 32
    mCallingSid := none
    mCallingPid := token.setWidth 32 }

/-- The work source is an `int32_t` and is sign extended. -/
def setCallingWorkSourceUidWithoutPropagation (uid : BitVec 32) (s : Caller) : BitVec 64 × Caller :=
  let propagatedBit := (BitVec.ofBool s.mPropagateWorkSource).setWidth 64 <<< kWorkSourcePropagatedBitIndex
  (propagatedBit ||| s.mWorkSource.signExtend 64, { s with mWorkSource := uid })

def setCallingWorkSourceUid (uid : BitVec 32) (s : Caller) : BitVec 64 × Caller :=
  let (token, s) := s.setCallingWorkSourceUidWithoutPropagation uid
  (token, { s with mPropagateWorkSource := true })

def clearCallingWorkSource (s : Caller) : BitVec 64 × Caller := s.setCallingWorkSourceUid kUnsetWorkSource

def restoreCallingWorkSource (token : BitVec 64) (s : Caller) : Caller :=
  let (_, s) := s.setCallingWorkSourceUidWithoutPropagation (token.setWidth 32)
  { s with mPropagateWorkSource := (token.sshiftRight kWorkSourcePropagatedBitIndex &&& 1) == 1 }

end Caller

/-! ### Well-nested calls -/

inductive WorkSourceCall
  | set (uid : BitVec 32)
  | setWithoutPropagation (uid : BitVec 32)
  | clear
  deriving DecidableEq, Repr

def WorkSourceCall.run : WorkSourceCall → Caller → BitVec 64 × Caller
  | .set uid => Caller.setCallingWorkSourceUid uid
  | .setWithoutPropagation uid => Caller.setCallingWorkSourceUidWithoutPropagation uid
  | .clear => Caller.clearCallingWorkSource

/-- A call, what is done before the restore with its token, and what is done behind that. -/
inductive Nesting
  | done
  | identity (inner rest : Nesting)
  | workSource (call : WorkSourceCall) (inner rest : Nesting)
  deriving DecidableEq, Repr

namespace Nesting

def run (self : Process) : Nesting → Caller → Caller
  | .done, s => s
  | .identity inner rest, s =>
    let (token, cleared) := s.clearCallingIdentity self
    rest.run self ((inner.run self cleared).restoreCallingIdentity token)
  | .workSource call inner rest, s =>
    let (token, changed) := call.run s
    rest.run self ((inner.run self changed).restoreCallingWorkSource token)

def usesWorkSource : Nesting → Bool
  | .done => false
  | .identity inner rest => inner.usesWorkSource || rest.usesWorkSource
  | .workSource .. => true

end Nesting

/-! ### The tokens -/

section Token

variable {uid pid workSource : BitVec 32} {propagate : Bool}

/-- The bits of a token: the lower half is the signed part, and its sign is in all bits of the upper half. -/
theorem getLsbD_token (high : BitVec 64) (low : BitVec 32) (i : ℕ) (hi : i < 64) :
    ((high <<< 32) ||| low.signExtend 64).getLsbD i =
      if i < 32 then low.getLsbD i else (high.getLsbD (i - 32) || low.msb) := by
  rw [BitVec.getLsbD_or, BitVec.getLsbD_shiftLeft, BitVec.getLsbD_signExtend]
  by_cases hlow : i < 32
  · simp [hi, hlow]
  · simp [hi, hlow]

theorem setWidth_token (high : BitVec 64) (low : BitVec 32) :
    ((high <<< 32) ||| low.signExtend 64).setWidth 32 = low := by
  apply BitVec.eq_of_getLsbD_eq
  intro i hi
  rw [BitVec.getLsbD_setWidth, getLsbD_token high low i (by omega), if_pos hi]
  simp [hi]

theorem getLsbD_sshiftRight_token (high : BitVec 64) (low : BitVec 32) (i : ℕ) (hi : i < 32) :
    (((high <<< 32) ||| low.signExtend 64).sshiftRight 32).getLsbD i = (high.getLsbD i || low.msb) := by
  have hlt : 32 + i < 64 := by omega
  rw [BitVec.getLsbD_sshiftRight]
  simp only [show ¬ 64 ≤ i by omega, hlt, if_true, decide_false, Bool.not_false, Bool.true_and]
  rw [getLsbD_token high low _ hlt, if_neg (by omega), Nat.add_sub_cancel_left]

theorem uid_of_token (hpid : 0 ≤ pid.toInt) :
    (((uid.setWidth 64 <<< 32) ||| pid.signExtend 64).sshiftRight 32).setWidth 32 = uid := by
  have hmsb : pid.msb = false := by
    simpa [BitVec.msb_eq_toInt] using hpid
  apply BitVec.eq_of_getLsbD_eq
  intro i hi
  rw [BitVec.getLsbD_setWidth, getLsbD_sshiftRight_token _ _ i hi, hmsb, BitVec.getLsbD_setWidth]
  simp [hi, show i < 64 by omega]

/-- The sign of the work source is taken for the flag. -/
theorem propagate_of_token : (((((BitVec.ofBool propagate).setWidth 64 <<< 32) |||
    workSource.signExtend 64).sshiftRight 32 &&& 1) == 1) = (propagate || workSource.msb) := by
  have hbit (x : BitVec 64) : (x &&& 1 == 1) = x.getLsbD 0 := by
    change (x &&& 1#64 == 1#64) = _
    rw [BitVec.and_one_eq_setWidth_ofBool_getLsbD]
    cases x.getLsbD 0 <;> rfl
  rw [hbit, getLsbD_sshiftRight_token _ _ 0 (by decide), BitVec.getLsbD_setWidth]
  simp

end Token

/-! ### What the restores put back -/

variable {self : Process} {s x : Caller}

theorem restoreCallingIdentity_eq (hpid : 0 ≤ s.mCallingPid.toInt) :
    x.restoreCallingIdentity (s.clearCallingIdentity self).1 =
      { x with mCallingPid := s.mCallingPid, mCallingSid := none, mCallingUid := s.mCallingUid } := by
  unfold Caller.restoreCallingIdentity Caller.clearCallingIdentity
  rw [uid_of_token hpid, setWidth_token]

theorem fst_run (call : WorkSourceCall) :
    (call.run s).1 = (s.setCallingWorkSourceUidWithoutPropagation kUnsetWorkSource).1 := by
  cases call <;> rfl

theorem restoreCallingWorkSource_eq (call : WorkSourceCall) : x.restoreCallingWorkSource (call.run s).1 =
    { x with mWorkSource := s.mWorkSource, mPropagateWorkSource := s.mPropagateWorkSource || s.mWorkSource.msb } := by
  rw [fst_run]
  unfold Caller.restoreCallingWorkSource Caller.setCallingWorkSourceUidWithoutPropagation kWorkSourcePropagatedBitIndex
  rw [setWidth_token, propagate_of_token]

def Restored (s x : Caller) : Prop := x.mCallingPid = s.mCallingPid ∧ x.mCallingUid = s.mCallingUid ∧
  x.mWorkSource = s.mWorkSource ∧ x.mPropagateWorkSource = s.mPropagateWorkSource

theorem pid_run (call : WorkSourceCall) : (call.run s).2.mCallingPid = s.mCallingPid := by
  cases call <;> rfl

theorem uid_run (call : WorkSourceCall) : (call.run s).2.mCallingUid = s.mCallingUid := by
  cases call <;> rfl

/-- Behind well-nested calls all is as before, but the flag is set where the sign of a work source was taken for it. -/
theorem run_fields (hself : 0 ≤ self.getpid.toInt) (t : Nesting) (s : Caller) (hpid : 0 ≤ s.mCallingPid.toInt) :
    (t.run self s).mCallingPid = s.mCallingPid ∧ (t.run self s).mCallingUid = s.mCallingUid ∧
      (t.run self s).mWorkSource = s.mWorkSource ∧ (t.run self s).mPropagateWorkSource =
        (s.mPropagateWorkSource || (t.usesWorkSource && s.mWorkSource.msb)) := by
  induction t generalizing s with
  | done => simp [Nesting.run, Nesting.usesWorkSource]
  | identity inner rest hinner hrest =>
    obtain ⟨-, -, hsource, hflag⟩ := hinner (s.clearCaller self) hself
    unfold Nesting.run
    dsimp only
    rw [restoreCallingIdentity_eq hpid]
    obtain ⟨hpid', huid', hsource', hflag'⟩ := hrest { inner.run self (s.clearCaller self) with
      mCallingPid := s.mCallingPid, mCallingSid := none, mCallingUid := s.mCallingUid } hpid
    refine ⟨hpid', huid', hsource'.trans hsource, hflag'.trans ?_⟩
    rw [hflag, hsource]
    rw [Bool.or_assoc, ← Bool.and_or_distrib_right]
    rfl
  | workSource call inner rest hinner hrest =>
    obtain ⟨hpid₁, huid₁, -, -⟩ := hinner (call.run s).2 (by rwa [pid_run])
    unfold Nesting.run
    dsimp only
    rw [restoreCallingWorkSource_eq]
    obtain ⟨hpid', huid', hsource', hflag'⟩ := hrest { inner.run self (call.run s).2 with
      mWorkSource := s.mWorkSource, mPropagateWorkSource := s.mPropagateWorkSource || s.mWorkSource.msb }
      (by rwa [hpid₁, pid_run])
    refine ⟨hpid'.trans (hpid₁.trans (pid_run call)), huid'.trans (huid₁.trans (uid_run call)), hsource',
      hflag'.trans ?_⟩
    cases s.mWorkSource.msb with
    | false => simp
    | true => simp [Nesting.usesWorkSource]

/-- Well-nested calls put back the identity and the work source exactly if none of them takes the sign of the work source
for the flag. -/
theorem run_restores (self : Process) (hself : 0 ≤ self.getpid.toInt) (t : Nesting) (s : Caller)
    (hpid : 0 ≤ s.mCallingPid.toInt) : Restored s (t.run self s) ↔
      (t.usesWorkSource = true → 0 ≤ s.mWorkSource.toInt ∨ s.mPropagateWorkSource = true) := by
  obtain ⟨hpid', huid', hsource', hflag'⟩ := run_fields hself t s hpid
  have hsign : 0 ≤ s.mWorkSource.toInt ↔ s.mWorkSource.msb = false := by
    simp [BitVec.msb_eq_toInt]
  unfold Restored
  rw [hflag', hsign]
  simp only [hpid', huid', hsource', true_and]
  cases t.usesWorkSource <;> cases s.mPropagateWorkSource <;> simp

/-- A service with user id `2 ^ 32 - 1` and a propagated work source. -/
theorem run_restores_nested : let s : Caller := ⟨100, none, -1, 10001, true⟩
    let t : Nesting := .identity (.workSource .clear (.identity .done .done) .done) .done
    Restored s (t.run ⟨7, 0⟩ s) := by
  intro s t
  have hrestored := run_restores ⟨7, 0⟩ (by decide) t s (by decide)
  exact hrestored.mpr fun _ => .inr rfl

/-- Where no work source is set and none is propagated, clearing and restoring it sets the flag. -/
theorem restore_sets_flag : let s : Caller := ⟨100, none, 1000, kUnsetWorkSource, false⟩
    ¬ Restored s ((Nesting.workSource .clear .done .done).run ⟨7, 0⟩ s) := by
  intro s h
  have hflag := h.2.2.2
  revert hflag
  decide

end Binder.IPCThreadState
