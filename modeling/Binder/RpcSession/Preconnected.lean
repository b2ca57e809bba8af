import Binder.Status
import Mathlib.Data.List.Nodup
import Mathlib.Logic.Function.Iterate

/-! The descriptors that `setupPreconnectedClient` takes for its connections. -/
namespace Binder.RpcSession
open List

/-- The descriptor that the caller passes, or what a call of `request` returns. -/
inductive Fd
  | initial
  | requested (call : ℕ)
  deriving DecidableEq

/-- `connection n` is where `setNonBlocking` or `initAndAddConnection` fails for connection `n`, and whether the session
has the connection then. -/
structure Preconnection where
  valid : Bool
  request : ℕ → Bool
  initShutdownTrigger : Option Status
  connection : ℕ → Option (Status × Bool)
  /-- from `find` to `readId` -/
  handshake : Option Status
  numThreadsAvailable : ℕ
  mMaxOutgoingThreads : ℕ
  mMaxIncomingThreads : ℕ

/-- `used` are the descriptors of the connections, `held` those in the session. The first error ends the setup. -/
structure Descriptors where
  status : Option Status := none
  requests : ℕ := 0
  used : List Fd := []
  held : List Fd := []
  closed : List Fd := []

/-- The connections of the session are destroyed. -/
def Descriptors.release (s : Descriptors) : Descriptors := { s with held := [], closed := s.closed ++ s.held }

def Descriptors.check (status : Option Status) (s : Descriptors) : Descriptors :=
  if s.status.isSome then s else { s with status }

namespace Preconnection

variable (env : Preconnection) {s : Descriptors} {fd : Fd} {n : ℕ}

def connect (fd : Fd) (s : Descriptors) : Descriptors :=
  match env.connection s.used.length with
  | some (e, false) => { s with used := s.used ++ [fd], closed := s.closed ++ [fd], status := some e }
  | r => { s with used := s.used ++ [fd], held := s.held ++ [fd], status := r.map Prod.fst }

/-- `raw` is captured by value: every call of the function has it. -/
def connectAndInit (s : Descriptors) : Descriptors :=
  if s.status.isSome then s
  else if env.valid then env.connect .initial s
  else if env.request s.requests then env.connect (.requested s.requests) { s with requests := s.requests + 1 }
  else { s with requests := s.requests + 1, status := some .badValue }

/-- The connections that the two loops of `setupClient` make. -/
def more : ℕ := min env.numThreadsAvailable env.mMaxOutgoingThreads - 1 + env.mMaxIncomingThreads

def begun : Descriptors := (env.connectAndInit (Descriptors.check env.initShutdownTrigger {})).check env.handshake

def setupPreconnectedClient : Descriptors :=
  let s := env.connectAndInit^[env.more] env.begun
  if env.initShutdownTrigger.isNone ∧ s.status.isSome then s.release else s

/-- The descriptors that `request` returned. -/
def requested (s : Descriptors) : List Fd := ((List.range s.requests).filter env.request).map .requested

/-- The descriptors that connections are to take. -/
def sources (s : Descriptors) : List Fd := (if env.valid then [.initial] else []) ++ env.requested s

/-- What is expected once the session has ended. -/
def Sound (s : Descriptors) : Prop := s.used = env.sources s ∧ ∀ fd ∈ env.sources s, s.closed.count fd = 1

/-- Every descriptor of a connection has its owner. -/
structure Kept (s : Descriptors) : Prop where
  owned : (s.closed ++ s.held).Perm s.used
  used : s.used = if env.valid then List.replicate s.used.length .initial else env.requested s
  unasked : env.valid → s.requests = 0

variable {env}

theorem connect_used : (env.connect fd s).used = s.used ++ [fd] ∧ (env.connect fd s).requests = s.requests := by
  unfold connect
  split <;> exact ⟨rfl, rfl⟩

theorem connect_owned (h : (s.closed ++ s.held).Perm s.used) :
    ((env.connect fd s).closed ++ (env.connect fd s).held).Perm (env.connect fd s).used := by
  unfold connect
  split
  · rw [append_assoc, singleton_append]
    exact perm_middle.trans ((h.cons fd).trans (perm_append_singleton fd _).symm)
  · rw [← append_assoc]
    exact h.append_right [fd]

theorem Kept.connectAndInit (h : env.Kept s) : env.Kept (env.connectAndInit s) := by
  have hused := h.used
  unfold Preconnection.connectAndInit
  split_ifs with hst hvalid hr
  · exact h
  · rw [if_pos hvalid] at hused
    refine ⟨connect_owned h.owned, ?_, fun _ => connect_used.2.trans (h.unasked hvalid)⟩
    rw [if_pos hvalid, connect_used.1, length_append, length_singleton, replicate_succ', ← hused]
  · rw [if_neg hvalid] at hused
    refine ⟨connect_owned h.owned, ?_, fun hv => absurd hv hvalid⟩
    simp [hvalid, connect_used, hused, requested, range_succ, hr]
  · rw [if_neg hvalid] at hused
    refine ⟨h.owned, ?_, fun hv => absurd hv hvalid⟩
    simp [hvalid, hused, requested, range_succ, hr]

theorem Kept.check (h : env.Kept s) (status : Option Status) : env.Kept (s.check status) := by
  unfold Descriptors.check
  split_ifs
  · exact h
  · exact ⟨h.owned, h.used, h.unasked⟩

theorem kept_begun : env.Kept env.begun := by
  have hempty : env.Kept {} := ⟨.nil, by simp [requested], fun _ => rfl⟩
  exact (hempty.check _).connectAndInit.check _

theorem nodup_sources : (env.sources s).Nodup := by
  have hreq : (env.requested s).Nodup := (nodup_range.filter _).map fun _ _ => Fd.requested.inj
  unfold sources
  split_ifs
  · exact nodup_cons.mpr ⟨by simp [requested], hreq⟩
  · exact hreq

/-- Each owner closes its descriptor once. -/
theorem Kept.sound_iff (h : env.Kept s) : env.Sound s.release ↔ (env.valid → s.used.length = 1) := by
  have hused := h.used
  constructor
  · intro hs hvalid
    have hlen := congrArg List.length hs.1
    simpa [sources, hvalid, requested, Descriptors.release, h.unasked hvalid] using hlen
  · intro hone
    have hsources : s.used = env.sources s := by
      cases hvalid : env.valid with
      | true =>
        rw [hone hvalid] at hused
        simpa [sources, hvalid, requested, h.unasked hvalid] using hused
      | false => simpa [sources, hvalid] using hused
    refine ⟨hsources, fun fd hfd => ?_⟩
    have hcount : s.release.closed.count fd = s.used.count fd := h.owned.count_eq fd
    rw [hcount, hsources]
    exact count_eq_one_of_mem nodup_sources hfd

/-! ### How often the descriptor is taken -/

theorem length_connectAndInit (hvalid : env.valid) :
    (env.connectAndInit s).used.length = if s.status.isSome then s.used.length else s.used.length + 1 := by
  unfold connectAndInit
  rw [if_pos hvalid]
  split_ifs
  · rfl
  · simp [connect_used]

theorem iterate_of_failed (hst : s.status.isSome) : env.connectAndInit^[n] s = s :=
  Function.iterate_fixed (if_pos hst : env.connectAndInit s = s) n

theorem length_iterate (hvalid : env.valid) (hs : s.used.length = 1) :
    (env.connectAndInit^[n] s).used.length = 1 ↔ s.status.isSome ∨ n = 0 := by
  by_cases hst : s.status.isSome
  · rw [iterate_of_failed hst]
    simp [hs, hst]
  cases n with
  | zero => simpa using hs
  | succ n =>
    have hgrows : 2 ≤ (env.connectAndInit^[n] (env.connectAndInit s)).used.length := by
      refine Function.Iterate.rec (fun t : Descriptors => 2 ≤ t.used.length) ?_ (fun t ht => ?_) n
      · simp [length_connectAndInit hvalid, hst, hs]
      · rw [length_connectAndInit hvalid]
        split_ifs <;> omega
    rw [Function.iterate_succ_apply]
    simp [hst]
    omega

theorem release_setup :
    env.setupPreconnectedClient.release = (env.connectAndInit^[env.more] env.begun).release := by
  unfold setupPreconnectedClient
  dsimp only
  split_ifs <;> simp [Descriptors.release]

/-- The descriptors are right just where the one that was passed is not valid, or one connection was attempted. -/
theorem sound_setup_iff (env : Preconnection) : env.Sound env.setupPreconnectedClient.release ↔ (env.valid →
    env.initShutdownTrigger = none ∧ (env.connection 0 ≠ none ∨ env.handshake ≠ none ∨ env.more = 0)) := by
  have hkept := Function.Iterate.rec env.Kept kept_begun (fun _ => Kept.connectAndInit) env.more
  rw [release_setup, hkept.sound_iff]
  refine imp_congr_right fun hvalid => ?_
  cases htrig : env.initShutdownTrigger with
  | none =>
    have hlen : env.begun.used.length = 1 := by
      simp [begun, htrig, Descriptors.check, connectAndInit, hvalid, connect_used, apply_ite]
    have hst : env.begun.status = ((env.connection 0).map Prod.fst).or env.handshake := by
      simp [begun, htrig, Descriptors.check, connectAndInit, hvalid, connect, apply_ite]
      rcases env.connection 0 with _ | ⟨e, _ | _⟩ <;> simp
    rw [length_iterate hvalid hlen, hst]
    cases env.connection 0 <;> cases env.handshake <;> simp
  | some e =>
    have hstuck : env.begun = { status := some e } := by
      simp [begun, htrig, Descriptors.check, connectAndInit]
    rw [hstuck, iterate_of_failed rfl]
    simp

/-- A second connection takes the descriptor of the first. -/
theorem not_sound_two : ∃ env : Preconnection, env.setupPreconnectedClient.status = none ∧
    env.setupPreconnectedClient.used = [.initial, .initial] ∧ ¬ env.Sound env.setupPreconnectedClient.release := by
  refine ⟨⟨true, fun _ => true, none, fun _ => none, none, 2, 2, 0⟩, rfl, rfl, fun h => ?_⟩
  cases h.1

end Preconnection

end Binder.RpcSession
