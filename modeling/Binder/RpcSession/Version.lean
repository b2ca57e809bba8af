import Binder.Lib.Fallible
import Binder.RpcServer.State
import Binder.Status

/-! The protocol version that `setupClient` and an `RpcServer` settle on. -/
namespace Binder.RpcSession

open Lib Fallible RpcServer

/-- What a setup meets; `none` where an operation succeeds. -/
structure SetupEnv where
  initShutdownTrigger : Option Status
  /-- the first connection, `find` and `readNewSessionResponse` -/
  before : List (Option Status)
  version : UInt32
  /-- `getRemoteMaxThreads`, `readId` and the other connections -/
  after : List (Option Status)

/-- The version in the header of a connection. -/
def offer (s : RpcSession) : UInt32 := s.mProtocolVersion.getD RPC_WIRE_PROTOCOL_VERSION

/-- The first failure ends the setup. -/
def checks (statuses : List (Option Status)) : Fallible RpcSession Status Unit :=
  ofFun fun s => ((statuses.findSome? id).elim (.ok ()) .error, s)

def answered (version : UInt32) : Fallible RpcSession Status Unit := ofFun fun s =>
  (setProtocolVersion s version).elim (.error .badValue, s) fun s' => (.ok (), s')

def cleanup (oldProtocolVersion : Option UInt32) (s : RpcSession) : RpcSession :=
  { s with mId := [], mProtocolVersion := oldProtocolVersion, mOutgoing := [], mIncoming := [] }

def setupClient (env : SetupEnv) (oldProtocolVersion : Option UInt32) : Fallible RpcSession Status Unit := do
  checks [env.initShutdownTrigger]
  tryCatch (do
    checks env.before
    answered env.version
    checks env.after) fun e => ofFun fun s => (.error e, s.cleanup oldProtocolVersion)

/-- No operation of the client fails. -/
def SetupEnv.Smooth (env : SetupEnv) : Prop :=
  ∀ status ∈ env.initShutdownTrigger :: env.before ++ env.after, status = none

def Known (v : UInt32) : Prop :=
  ¬ (v ≥ RPC_WIRE_PROTOCOL_VERSION_NEXT ∧ v ≠ RPC_WIRE_PROTOCOL_VERSION_EXPERIMENTAL)

def Accepts (s : RpcSession) (v : UInt32) : Prop := Known v ∧ ∀ c, s.mProtocolVersion = some c → v ≤ c

variable {env : SetupEnv} {s s' : RpcSession} {old : Option UInt32} {v : UInt32} {e : Status} {u : Unit}
  {server : RpcServer} {senv : RpcServer.Env} {statuses : List (Option Status)}

theorem setProtocolVersion_eq_some : setProtocolVersion s v = some s' ↔
    s.Accepts v ∧ { s with mProtocolVersion := some v } = s' := by
  unfold setProtocolVersion
  split_ifs with hunknown hupgrade
  · exact iff_of_false nofun fun h => h.1.1 hunknown
  · obtain ⟨c, hc, hlt⟩ := (Option.any_eq_true _ _).mp hupgrade
    exact iff_of_false nofun fun h => absurd (h.1.2 c hc) (by simpa using hlt)
  · have haccepts : s.Accepts v := ⟨hunknown, fun c hc => by simpa [hc] using hupgrade⟩
    simp [haccepts]

theorem returns_checks : Returns (checks statuses) s u s' ↔ (∀ status ∈ statuses, status = none) ∧ s = s' := by
  unfold checks
  cases h : statuses.findSome? id with
  | none =>
    have hall : ∀ status ∈ statuses, status = none := List.findSome?_eq_none_iff.mp h
    simpa using fun _ => hall
  | some =>
    obtain ⟨status, hmem, he⟩ := List.exists_of_findSome?_eq_some h
    refine iff_of_false (by simp) fun hall => ?_
    cases (hall.1 status hmem).symm.trans he

theorem returns_answered : Returns (answered v) s u s' ↔ s.Accepts v ∧ { s with mProtocolVersion := some v } = s' := by
  rw [← setProtocolVersion_eq_some]
  unfold answered
  cases h : setProtocolVersion s v <;> simp [h]

/-- Exactly when the setup succeeds, and what it leaves. -/
theorem returns_setupClient : Returns (setupClient env old) s u s' ↔
    env.Smooth ∧ s.Accepts env.version ∧ { s with mProtocolVersion := some env.version } = s' := by
  simp [setupClient, returns_tryCatch, returns_checks, returns_answered, SetupEnv.Smooth, or_imp, forall_and]
  tauto

theorem fails_setupClient (h : Fails (setupClient env s.mProtocolVersion) s e s') :
    s'.mProtocolVersion = s.mProtocolVersion := by
  simp only [setupClient, fails_bind, fails_tryCatch, fails_ofFun, checks] at h
  rcases h with h | ⟨_, _, -, e', t, -, h⟩
  · rw [← (Prod.mk.inj h).2]
  · rw [← (Prod.mk.inj h).2, cleanup]

/-- The client as the server sees it. -/
def client (s : RpcSession) : Client := ⟨true, some ⟨s.offer, 0, 0⟩, none, true⟩

def lower (s : RpcSession) (server : RpcServer) : UInt32 :=
  min s.offer (server.mProtocolVersion.getD RPC_WIRE_PROTOCOL_VERSION)

theorem lower_le {c : UInt32} (hc : s.mProtocolVersion = some c) : s.lower server ≤ c := by
  unfold lower offer
  rw [hc]
  change (if c ≤ _ then c else _) ≤ c
  split_ifs with hle
  · exact UInt32.le_refl c
  · exact UInt32.le_of_lt (UInt32.not_le.mp hle)

/-- The server answers and makes a session. -/
structure Honest (env : SetupEnv) (s : RpcSession) (server : RpcServer) (senv : RpcServer.Env) : Prop where
  version : env.version = (server.exchange s.client).protocolVersion
  id : (server.newSessionId senv 6 0).isSome
  setForServer : senv.setForServer

theorem newSession_version (h : Honest env s server senv) (hknown : Known (s.lower server)) :
    (server.newSession senv (server.exchange s.client)).map (·.2.mProtocolVersion) = some (some (s.lower server)) := by
  obtain ⟨id, hid⟩ := Option.isSome_iff_exists.mp h.id
  have hset := (setProtocolVersion_eq_some (s := { mMaxIncomingThreads := server.mMaxThreads })).mpr
    ⟨⟨hknown, nofun⟩, rfl⟩
  have hx : server.exchange s.client = ⟨true, none, false, s.lower server⟩ := by
    simp [exchange, client, readSessionId, lower]
  simp [newSession, hx, hid, hset, h.setForServer]

/-- Both sides use the lower offer, the client no more than it sent, and a failure leaves its cap. -/
structure Negotiated (env : SetupEnv) (s : RpcSession) (server : RpcServer) (senv : RpcServer.Env) : Prop where
  both : env.Smooth → Honest env s server senv → (∃ s', Returns (setupClient env s.mProtocolVersion) s () s' ∧
    s'.mProtocolVersion = some (s.lower server)) ∧
    (server.newSession senv (server.exchange s.client)).map (·.2.mProtocolVersion) = some (some (s.lower server))
  bounded : ∀ s', Returns (setupClient env s.mProtocolVersion) s () s' → s'.offer ≤ s.offer
  restored : ∀ e s', Fails (setupClient env s.mProtocolVersion) s e s' → s'.mProtocolVersion = s.mProtocolVersion

theorem negotiated_iff (env : SetupEnv) (s : RpcSession) (server : RpcServer) (senv : RpcServer.Env) :
    Negotiated env s server senv ↔ (env.Smooth → (Honest env s server senv → Known (s.lower server)) ∧
      (s.mProtocolVersion = none → env.version ≠ RPC_WIRE_PROTOCOL_VERSION_EXPERIMENTAL)) := by
  constructor
  · intro h hsmooth
    refine ⟨fun hhonest => ?_, fun hnone hexp => ?_⟩
    · obtain ⟨⟨s', hr, hv⟩, -⟩ := h.both hsmooth hhonest
      obtain ⟨-, haccepts, rfl⟩ := returns_setupClient.mp hr
      exact Option.some.inj hv ▸ haccepts.1
    · have hle := h.bounded _ (returns_setupClient.mpr ⟨hsmooth, ⟨by simp [Known, hexp], by simp [hnone]⟩, rfl⟩)
      simp only [offer, hnone, hexp] at hle
      exact absurd hle (by decide)
  · intro h
    refine ⟨fun hsmooth hhonest => ?_, fun s' hr => ?_, fun e s' => fails_setupClient⟩
    · have hknown := (h hsmooth).1 hhonest
      have hv : env.version = s.lower server := by simp [hhonest.version, exchange, client, readSessionId, lower]
      have haccepts : s.Accepts env.version := ⟨hv ▸ hknown, fun c hc => hv ▸ lower_le hc⟩
      exact ⟨⟨_, returns_setupClient.mpr ⟨hsmooth, haccepts, rfl⟩, congrArg some hv⟩, newSession_version hhonest hknown⟩
    · obtain ⟨hsmooth, ⟨hknown, hle⟩, rfl⟩ := returns_setupClient.mp hr
      cases hcap : s.mProtocolVersion with
      | none =>
        have hlt : env.version < RPC_WIRE_PROTOCOL_VERSION_NEXT := by
          by_contra hge
          exact hknown ⟨UInt32.not_lt.mp hge, (h hsmooth).2 hcap⟩
        simp only [offer, hcap]
        exact UInt32.le_iff_toNat_le.mpr (Nat.le_of_lt_succ hlt)
      | some c => simpa [offer, hcap] using hle c hcap

theorem not_negotiated : ¬ ∀ env s server senv, Negotiated env s server senv := by
  intro h
  have hle := (h ⟨none, [], RPC_WIRE_PROTOCOL_VERSION_EXPERIMENTAL, []⟩ {}
    { mMaxThreads := 1, mProtocolVersion := none } ⟨fun _ => none, true⟩).bounded _
    (returns_setupClient.mpr ⟨by simp [SetupEnv.Smooth], ⟨by simp [Known], nofun⟩, rfl⟩)
  exact absurd hle (by decide)

end Binder.RpcSession
