import Binder.Parcel.StatusRead

/-! `binder::Status` as it is written, and what is read back. -/
namespace Binder.Parcel
open Binder.Lib Fallible List

/-- The constructors of `String16` from a `String8`, and of `String8` from a `String16`: a text that is not valid
becomes the empty one. -/
def Utf.string16 (U : Utf) (str : List UInt8) : String16 := (U.toUtf16 str).getD []

def Utf.string8 (U : Utf) (str : String16) : List UInt8 := (U.toUtf8 str).getD []

/-- The `int32_t`; `statusT` gives the numbers of the status codes. -/
def ErrorCode.toInt32 (statusT : Status → BitVec 32) : ErrorCode → BitVec 32
  | .status st => statusT st
  | .serviceSpecific code => code

/-- `binder::Status` with its message as a `String8`. -/
structure NativeStatus where
  mException : BitVec 32 := exNone
  mErrorCode : ErrorCode := .status .ok
  mMessage : List UInt8 := []

namespace NativeStatus

section Definitions

variable (U : Utf) (statusT : Status → BitVec 32)

/-- A message is only taken over with an exception, and is lost with an error. -/
def readFromParcel (s : NativeStatus) : Read (Status × NativeStatus) := do
  let (status, t) ← BinderStatus.readFromParcel { mException := s.mException, mErrorCode := s.mErrorCode }
  let mMessage := if status ≠ .ok then [] else if t.mException = exNone then s.mMessage else U.string8 t.mMessage
  return (status, { mException := t.mException, mErrorCode := t.mErrorCode, mMessage })

def writeToParcel (env : Env) (s : NativeStatus) (p : Parcel) : ErrorCode × Parcel :=
  if s.mException = exTransactionFailed then (s.mErrorCode, p)
  else match writeInt32 env s.mException p with
  | (.ok, p) =>
    if s.mException = exNone then (.status .ok, p)
    else match writeString16 env (U.string16 s.mMessage) p with
    | (.ok, p) =>
      -- an empty remote stack trace
      match writeInt32 env 0 p with
      | (.ok, p) =>
        if s.mException = exServiceSpecific then
          let r := writeInt32 env (s.mErrorCode.toInt32 statusT) p
          (.status r.1, r.2)
        else if s.mException = exParcelable then
          let r := writeInt32 env 0 p
          (.status r.1, r.2)
        else (.status .ok, p)
      | (err, p) => (.status err, p)
    | (err, p) => (.status err, p)
  | (err, p) => (.status err, p)

/-- What follows the stack trace. -/
def lastRequest (s : NativeStatus) : Request :=
  if s.mException = exServiceSpecific then .word (s.mErrorCode.toInt32 statusT)
  else if s.mException = exParcelable then .word 0
  else .nothing

def request (s : NativeStatus) : Request :=
  (Request.word s.mException).seq <| if s.mException = exNone then .nothing
    else (Request.string16 (U.string16 s.mMessage)).seq ((Request.word 0).seq (s.lastRequest statusT))

end Definitions

variable {U : Utf} {statusT : Status → BitVec 32} {s t : NativeStatus} {env : Env} {p q r : Parcel}

theorem run_lastRequest (s : NativeStatus) (p : Parcel) : (s.lastRequest statusT).run env p =
    if s.mException = exServiceSpecific then writeInt32 env (s.mErrorCode.toInt32 statusT) p
    else if s.mException = exParcelable then writeInt32 env 0 p else (.ok, p) := by
  unfold lastRequest
  split_ifs
  · rfl
  · rfl
  · rfl

theorem run_string16_seq (env : Env) (str : String16) (s : Request) (p : Parcel) :
    ((Request.string16 str).seq s).run env p = match writeString16 env str p with
      | (.ok, q) => s.run env q
      | result => result := by
  change (match (Request.string16 str).run env p with
    | (.ok, q) => s.run env q
    | result => result) = _
  rw [Request.run_string16]

theorem writeToParcel_eq (hs : s.mException ≠ exTransactionFailed) (env : Env) (p : Parcel) :
    s.writeToParcel U statusT env p =
      (.status ((s.request U statusT).run env p).1, ((s.request U statusT).run env p).2) := by
  unfold writeToParcel request
  rw [if_neg hs, Request.run_word_seq env _ _ (fun _ => rfl)]
  cases writeInt32 env s.mException p with
  | mk st p =>
    cases st with
    | ok =>
      dsimp only
      by_cases hnone : s.mException = exNone
      · rw [if_pos hnone, if_pos hnone]
        rfl
      · rw [if_neg hnone, if_neg hnone, run_string16_seq]
        cases writeString16 env (U.string16 s.mMessage) p with
        | mk st p =>
          cases st with
          | ok =>
            dsimp only
            have hlast (q : Parcel) : (s.lastRequest statusT).run env q = _ := s.run_lastRequest q
            rw [Request.run_word_seq env _ _ hlast]
            cases writeInt32 env 0 p with
            | mk st =>
              cases st with
              | ok =>
                split_ifs
                · rfl
                · rfl
                · rfl
              | _ => rfl
          | _ => rfl
    | _ => rfl

/-! ### Reading back -/

theorem readMessage_holds {str : String16} (hr : Readable p) (hh : Holds p (stringBytes str))
    (hc : p.Clear (stringBytes str).length) : ∃ q, Returns (readPlain (.nullable .string16)) p (some str) q ∧
      Passed p (stringBytes str).length q :=
  readData_holds (B := fun i => i.elim) (fun i => i.elim) (.nullable .string16 : Ty Empty .nullable) trivial (some str)
    hr hh hc.clearFrom

theorem returns_readFromParcel {u : NativeStatus} : Returns (t.readFromParcel U) p (.ok, u) q ↔
    ∃ b : BinderStatus, Returns (BinderStatus.readFields { mException := t.mException, mErrorCode := t.mErrorCode }) p b q ∧
      u = { mException := b.mException, mErrorCode := b.mErrorCode,
            mMessage := if b.mException = exNone then t.mMessage else U.string8 b.mMessage } := by
  unfold readFromParcel
  rw [returns_bind]
  constructor
  · rintro ⟨⟨st, b⟩, r, hread, hrest⟩
    obtain ⟨heq, rfl⟩ := returns_pure.mp hrest
    obtain ⟨rfl, rfl⟩ := Prod.mk.inj heq
    exact ⟨b, BinderStatus.returns_readFromParcel.mp hread, rfl⟩
  · rintro ⟨b, hread, rfl⟩
    exact ⟨(.ok, b), q, BinderStatus.returns_readFromParcel.mpr hread, returns_pure.mpr ⟨rfl, rfl⟩⟩

/-- The reader comes behind the message and the empty stack trace. -/
theorem readException_holds {code : BitVec 32} {str : String16} {last : List UInt8} (hr : Readable p)
    (hh : Holds p (wordBytes code ++ (stringBytes str ++ (wordBytes 0 ++ last))))
    (hc : p.Clear (wordBytes code ++ (stringBytes str ++ (wordBytes 0 ++ last))).length) : ∃ p₁ p₂ p₃,
      Returns readInt32 p code p₁ ∧ Returns (readPlain (.nullable .string16)) p₁ (some str) p₂ ∧
      Returns BinderStatus.skipStackTrace p₂ () p₃ ∧ Passed p (4 + (stringBytes str).length + 4) p₃ ∧
      Holds p₃ last ∧ p₃.Clear last.length := by
  have hword (v : BitVec 32) : (wordBytes v).length = 4 := length_wordBytes v
  rw [length_append, hword] at hc
  obtain ⟨p₁, hcode, hp₁⟩ := readInt32_holds hr.toGuarded hh.left hc.left
  have hh₁ := hh.right (by rwa [hword])
  have hc₁ := hc.right hp₁
  rw [length_append] at hc₁
  obtain ⟨p₂, hmessage, hp₂⟩ := readMessage_holds (hr.after hp₁) hh₁.left hc₁.left
  have hh₂ := hh₁.right hp₂
  have hc₂ := hc₁.right hp₂
  have hp₂ := hp₁.trans hp₂
  rw [length_append, hword] at hc₂
  have hr₂ := hr.after hp₂
  obtain ⟨p₃, htrace, hp₃⟩ := BinderStatus.returns_stackTrace (v := 0) hr₂ (wordAt_of_holds hh₂.left hc₂.left)
    (by decide) (by simpa [hword] using hh₂.left.le_size)
  have hp₃' : Passed p₂ 4 p₃ := hp₃
  refine ⟨p₁, p₂, p₃, hcode, hmessage, htrace, hp₂.trans hp₃', hh₂.right (by rwa [hword]), hc₂.right hp₃'⟩

theorem bytes_request_none (hs : s.mException = exNone) : (s.request U statusT).bytes = wordBytes s.mException := by
  unfold request
  rw [if_pos hs]
  exact append_nil _

theorem bytes_request (hs : s.mException ≠ exNone) : (s.request U statusT).bytes = wordBytes s.mException ++
    (stringBytes (U.string16 s.mMessage) ++ (wordBytes 0 ++ (s.lastRequest statusT).bytes)) := by
  unfold request
  rw [if_neg hs]
  change wordBytes _ ++ ((Request.string16 _).bytes ++ _) = _
  rw [Request.bytes_string16]
  rfl

/-- Reading into `t` gives `s` again and ends at `stop`. -/
def Restores (U : Utf) (statusT : Status → BitVec 32) (s t : NativeStatus) (p : Parcel) (stop : ℕ) : Prop :=
  ∃ u q, Returns (t.readFromParcel U) p (.ok, u) q ∧ u.mException = s.mException ∧
    (s.mException ≠ exNone → u.mMessage = s.mMessage) ∧
    (s.mException = exServiceSpecific → u.mErrorCode.toInt32 statusT = s.mErrorCode.toInt32 statusT) ∧
    q.mDataPos = stop

section Holds

variable (hr : Readable p) (hh : Holds p (s.request U statusT).bytes) (hc : p.Clear (s.request U statusT).bytes.length)

include hr hh hc

theorem restores_none (hs : s.mException = exNone) :
    Restores U statusT s t p (p.mDataPos + (s.request U statusT).bytes.length) := by
  rw [bytes_request_none hs] at hh hc ⊢
  obtain ⟨q, hcode, hp⟩ := readInt32_holds hr.toGuarded hh hc
  have hread : Returns (BinderStatus.readFields { mException := t.mException, mErrorCode := t.mErrorCode }) p
      { mException := exNone, mErrorCode := t.mErrorCode } q :=
    BinderStatus.returns_readFields.mpr ⟨_, q, hcode, .inr (.inl ⟨by rw [hs]; decide, hs, rfl, rfl⟩)⟩
  refine ⟨_, q, returns_readFromParcel.mpr ⟨_, hread, rfl⟩, hs.symm, absurd hs, fun h => ?_, hp.pos⟩
  rw [hs] at h
  exact absurd h (by decide)

/-- An exception is read up to what follows its stack trace. -/
theorem exists_readException (hs : s.mException ≠ exNone) : ∃ p₃,
    (∀ b q, s.mException ≠ exHasReplyHeader → (∀ p₁ p₂,
        Returns (readPlain (.nullable .string16)) p₁ (some (U.string16 s.mMessage)) p₂ →
        Returns BinderStatus.skipStackTrace p₂ () p₃ → Returns (BinderStatus.readException s.mException
          { mException := t.mException, mErrorCode := t.mErrorCode }) p₁ b q) →
      Returns (BinderStatus.readFields { mException := t.mException, mErrorCode := t.mErrorCode }) p b q) ∧
    p₃.mDataPos + (s.lastRequest statusT).bytes.length = p.mDataPos + (s.request U statusT).bytes.length ∧
    Readable p₃ ∧ Holds p₃ (s.lastRequest statusT).bytes ∧ p₃.Clear (s.lastRequest statusT).bytes.length := by
  rw [bytes_request hs] at hh hc ⊢
  obtain ⟨p₁, p₂, p₃, hcode, hmessage, htrace, hp, hh₃, hc₃⟩ := readException_holds hr hh hc
  refine ⟨p₃, fun b q hreply hrest => ?_, ?_, hr.after hp, hh₃, hc₃⟩
  · exact BinderStatus.returns_readFields.mpr ⟨_, p₁, hcode, .inr (.inr ⟨hreply, hs, hrest p₁ p₂ hmessage htrace⟩)⟩
  · rw [hp.pos]
    simp only [length_append, length_wordBytes]
    omega

theorem restores_service (hs : s.mException = exServiceSpecific) (hmsg : U.string8 (U.string16 s.mMessage) = s.mMessage) :
    Restores U statusT s t p (p.mDataPos + (s.request U statusT).bytes.length) := by
  have hnone : s.mException ≠ exNone := by
    rw [hs]
    decide
  obtain ⟨p₃, hrest, hpos, hr₃, hh₃, hc₃⟩ := exists_readException (t := t) hr hh hc hnone
  have hlast : (s.lastRequest statusT).bytes = wordBytes (s.mErrorCode.toInt32 statusT) := by
    unfold lastRequest
    rw [if_pos hs]
    rfl
  rw [hlast] at hpos hh₃ hc₃
  obtain ⟨q, hread, hp⟩ := readInt32_holds hr₃.toGuarded hh₃ hc₃
  have hfields := hrest _ q (by rw [hs]; decide) fun p₁ p₂ hmessage htrace =>
    BinderStatus.returns_readException.mpr ⟨_, p₂, p₃, hmessage, htrace, .inl ⟨hs, _, hread, rfl⟩⟩
  refine ⟨_, q, returns_readFromParcel.mpr ⟨_, hfields, rfl⟩, rfl, fun _ => ?_, fun _ => rfl, ?_⟩
  · dsimp only
    rw [if_neg hnone]
    exact hmsg
  · rw [hp.pos]
    exact hpos

theorem restores_plain (hnone : s.mException ≠ exNone) (hservice : s.mException ≠ exServiceSpecific)
    (hblob : s.mException ≠ exParcelable) (hreply : s.mException ≠ exHasReplyHeader)
    (hmsg : U.string8 (U.string16 s.mMessage) = s.mMessage) :
    Restores U statusT s t p (p.mDataPos + (s.request U statusT).bytes.length) := by
  obtain ⟨p₃, hrest, hpos, -⟩ := exists_readException (t := t) hr hh hc hnone
  have hlast : (s.lastRequest statusT).bytes = [] := by
    unfold lastRequest
    rw [if_neg hservice, if_neg hblob]
    rfl
  rw [hlast] at hpos
  have hfields := hrest _ p₃ hreply fun p₁ p₂ hmessage htrace =>
    BinderStatus.returns_readException.mpr ⟨_, p₂, p₃, hmessage, htrace, .inr (.inr ⟨hservice, hblob, rfl, rfl⟩)⟩
  refine ⟨_, p₃, returns_readFromParcel.mpr ⟨_, hfields, rfl⟩, rfl, fun _ => ?_, fun h => absurd h hservice, hpos⟩
  rw [if_neg hnone]
  exact hmsg

/-- The size 0 that is written for a parcelable leads back in front of it. -/
theorem not_restores_parcelable (hs : s.mException = exParcelable) :
    ¬ Restores U statusT s t p (p.mDataPos + (s.request U statusT).bytes.length) := by
  rintro ⟨u, q, hread, -, -, -, hstop⟩
  obtain ⟨b, hread, -⟩ := returns_readFromParcel.mp hread
  obtain ⟨p₃, hrest, hpos, hr₃, hh₃, hc₃⟩ := exists_readException (t := t) hr hh hc (by rw [hs]; decide)
  have hservice : s.mException ≠ exServiceSpecific := by
    rw [hs]
    decide
  have hlast : (s.lastRequest statusT).bytes = wordBytes 0 := by
    unfold lastRequest
    rw [if_neg hservice, if_pos hs]
    rfl
  rw [hlast] at hpos hh₃ hc₃
  rw [length_wordBytes] at hpos hc₃
  obtain ⟨q', hskip, hback⟩ := BinderStatus.returns_header (v := 0) hr₃ (wordAt_of_holds hh₃ hc₃) (by decide)
  have hfields := hrest _ q' (by rw [hs]; decide) fun p₁ p₂ hmessage htrace =>
    BinderStatus.returns_readException.mpr ⟨_, p₂, p₃, hmessage, htrace, .inr (.inl ⟨hservice, hs, hskip, rfl⟩)⟩
  obtain ⟨-, rfl⟩ := hread.unique hfields
  have hzero : (0 : BitVec 32).toNat = 0 := rfl
  omega

/-- `EX_HAS_REPLY_HEADER` is taken for a reply without an exception. -/
theorem not_restores_reply (hs : s.mException = exHasReplyHeader) (stop : ℕ) : ¬ Restores U statusT s t p stop := by
  rintro ⟨u, q, hret, hexception, -⟩
  obtain ⟨b, hread, rfl⟩ := returns_readFromParcel.mp hret
  rw [bytes_request (by rw [hs]; decide)] at hh hc
  obtain ⟨p₁, -, -, hcode, -⟩ := readException_holds hr hh hc
  obtain ⟨code, r, hcode', hrest⟩ := BinderStatus.returns_readFields.mp hread
  obtain ⟨rfl, rfl⟩ := hcode.unique hcode'
  rcases hrest with ⟨-, -, rfl⟩ | ⟨hreply, -⟩ | ⟨hreply, -⟩
  · dsimp only at hexception
    rw [hs] at hexception
    exact absurd hexception (by decide)
  · exact hreply hs
  · exact hreply hs

end Holds

/-- What `writeToParcel` has stored is read back, whatever follows it, for exactly the exceptions that are not the code
of a reply header or that of a parcelable. -/
theorem writeToParcel_readFromParcel (U : Utf) (statusT : Status → BitVec 32) (s : NativeStatus)
    (hs : s.mException ≠ exTransactionFailed) (hmsg : U.string8 (U.string16 s.mMessage) = s.mMessage) (env : Env)
    (p q : Parcel) (hhonest : (s.request U statusT).Honest env p)
    (hw : s.writeToParcel U statusT env p = (.status .ok, q)) (t : NativeStatus) (r : Parcel) (hr : Readable r)
    (hfollows : Follows p q r) (hclear : r.Clear (q.mDataPos - p.mDataPos)) :
    Restores U statusT s t r q.mDataPos ↔ s.mException ≠ exHasReplyHeader ∧ s.mException ≠ exParcelable := by
  rw [writeToParcel_eq hs] at hw
  obtain ⟨hok, rfl⟩ := Prod.mk.inj hw
  have hplaced := (s.request U statusT).placed hhonest (ErrorCode.status.inj hok)
  have hne : (s.request U statusT).bytes ≠ [] := by
    by_cases hnone : s.mException = exNone
    · rw [bytes_request_none hnone]
      exact ne_nil_of_length_pos (by rw [length_wordBytes]; decide)
    · rw [bytes_request hnone]
      simp [wordBytes, leBytes]
  have hh := hplaced.holds hne hfollows
  have hpos := hplaced.pos
  have hc : r.Clear (s.request U statusT).bytes.length := by
    rwa [hpos, Nat.add_sub_cancel_left] at hclear
  rw [hpos, ← hfollows.pos]
  constructor
  · intro h
    exact ⟨fun hreply => not_restores_reply hr hh hc hreply _ h, fun hblob => not_restores_parcelable hr hh hc hblob h⟩
  · rintro ⟨hreply, hblob⟩
    by_cases hnone : s.mException = exNone
    · exact restores_none hr hh hc hnone
    · by_cases hservice : s.mException = exServiceSpecific
      · exact restores_service hr hh hc hservice hmsg
      · exact restores_plain hr hh hc hnone hservice hblob hreply hmsg

/-- Characters of one byte. -/
def asciiUtf : Utf := ⟨fun str => some (str.map fun c => c.toBitVec.setWidth 16),
  fun str => some (str.map fun c => ⟨c.setWidth 8⟩)⟩

/-- An error of a service, with a message and a value behind it. -/
theorem writeToParcel_readFromParcel_service :
    let s : NativeStatus := { mException := exServiceSpecific, mErrorCode := .serviceSpecific 7, mMessage := [0x41] }
    let r := BinderStatus.ofWords [exServiceSpecific, 1, 0x41, 0, 7, 5]
    (s.writeToParcel asciiUtf (fun _ => 0) zeroEnv {}).2.mDataPos = 20 ∧
      Restores asciiUtf (fun _ => 0) s {} r 20 := by
  intro s r
  have hhonest : (s.request asciiUtf fun _ => 0).Honest zeroEnv {} := by
    refine (Request.honest_word (by decide)).seq (.seq (.seq (Request.honest_word ?_) (Request.honest_block ?_))
      ((Request.honest_word ?_).seq (Request.honest_word ?_)))
    · decide +kernel
    · decide +kernel
    · decide +kernel
    · decide +kernel
  have hpos : (s.writeToParcel asciiUtf (fun _ => 0) zeroEnv {}).2.mDataPos = 20 := by decide +kernel
  have hok : (s.writeToParcel asciiUtf (fun _ => 0) zeroEnv {}).1 = .status .ok := by decide +kernel
  have hbytes : ∀ i < 20, byteAt i r = byteAt i (s.writeToParcel asciiUtf (fun _ => 0) zeroEnv {}).2 := by
    decide +kernel
  have hfollows : Follows {} (s.writeToParcel asciiUtf (fun _ => 0) zeroEnv {}).2 r :=
    ⟨rfl, fun i _ hi => hbytes i (hpos ▸ hi), by rw [hpos]; decide⟩
  have hread := writeToParcel_readFromParcel asciiUtf (fun _ => 0) s (by decide) (by decide) zeroEnv {} _ hhonest
    (Prod.ext hok rfl) {} r ⟨⟨by simp [r, BinderStatus.ofWords], nofun⟩, by decide⟩ hfollows nofun
  rw [hpos] at hread
  exact ⟨hpos, hread.mpr ⟨by decide, by decide⟩⟩

/-- A status that is not read back. -/
theorem not_restores_of_test {stop : ℕ} (h : ∃ a q, Returns (t.readFromParcel U) p a q ∧
    (a.2.mException ≠ s.mException ∨ q.mDataPos ≠ stop)) : ¬ Restores U statusT s t p stop := by
  rintro ⟨u, q, hret, hexception, -, -, hstop⟩
  obtain ⟨a, q', hret', htest⟩ := h
  obtain ⟨rfl, rfl⟩ := hret.unique hret'
  rcases htest with h | h
  · exact h hexception
  · exact h hstop

/-- A status with the code of a reply header is read as no exception, and one with the code of a parcelable up to four
bytes before its end. -/
theorem writeToParcel_readFromParcel_lost :
    let reply := ({ mException := exHasReplyHeader } : NativeStatus).writeToParcel noUtf (fun _ => 0) zeroEnv {}
    let blob := ({ mException := exParcelable } : NativeStatus).writeToParcel noUtf (fun _ => 0) zeroEnv {}
    reply.1 = .status .ok ∧ blob.1 = .status .ok ∧ ∃ r r', setDataPosition 0 reply.2 = some r ∧
      setDataPosition 0 blob.2 = some r' ∧
      ¬ Restores noUtf (fun _ => 0) { mException := exHasReplyHeader } {} r reply.2.mDataPos ∧
      ¬ Restores noUtf (fun _ => 0) { mException := exParcelable } {} r' blob.2.mDataPos := by
  intro reply blob
  have hmax : 0 ≤ int32Max := by decide
  refine ⟨by decide +kernel, by decide +kernel, _, _, setDataPosition_eq_some.mpr ⟨hmax, rfl⟩,
    setDataPosition_eq_some.mpr ⟨hmax, rfl⟩, not_restores_of_test (exists_returns _ ?_),
    not_restores_of_test (exists_returns _ ?_)⟩
  · decide +kernel
  · decide +kernel

end NativeStatus

end Binder.Parcel
