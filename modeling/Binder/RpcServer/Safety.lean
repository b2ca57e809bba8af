import Binder.RpcServer.Lifecycle

/-! Sessions end once, and what a client can do while it connects. -/
namespace Binder.RpcServer

open Lib List

variable {s s' : RpcServer} {maxThreads : ℕ} {protocolVersion : Option UInt32}

/-- What can become of the registered sessions in a step. -/
inductive SessionsMove (s s' : RpcServer) : Prop
  | same : s'.mSessions = s.mSessions → SessionsMove s s'
  | register (id : List (Fin 256)) : s.mSessions.find? id = none →
      s'.mSessions = s.mSessions.insert id s.nextSession → SessionsMove s s'
  | erase (id : List (Fin 256)) : s'.mSessions = s.mSessions.erase id → SessionsMove s s'

/-- The session that a step shuts down. -/
def shutDown (s : RpcServer) : Action → Option ℕ
  | .shutdownSession i => some i
  | .beginJoin t .lost => match s.threads t with
    | .serving .assigned i (some _) => some i
    | _ => none
  | .command t .lost => match s.threads t with
    | .serving (.joining true) i _ => some i
    | _ => none
  | _ => none

/-- The server once the session is shut down. -/
def ended (s : RpcServer) (a : Action) : RpcServer := (s.shutDown a).elim s s.shutdownAndWait

/-- What every step does besides shutting a session down, except the end of `addOutgoingConnection`. -/
structure Effect (s s' : RpcServer) : Prop where
  sessions : SessionsMove s s'
  fatal : s'.fatal ≠ some .outgoingFailed
  clear : s'.clearFatal = s.clearFatal

section Effect

theorem Effect.keep (hfatal : s.fatal = none) (hsessions : s'.mSessions = s.mSessions)
    (h : s'.fatal = s.fatal) (hclear : s'.clearFatal = s.clearFatal) : Effect s s' := by
  refine ⟨.same hsessions, ?_, hclear⟩
  rw [h, hfatal]
  nofun

theorem Effect.abort {f : Fatal} (hsessions : s'.mSessions = s.mSessions)
    (h : s'.fatal = some f) (hf : f ≠ .outgoingFailed) (hclear : s'.clearFatal = s.clearFatal) : Effect s s' := by
  refine ⟨.same hsessions, ?_, hclear⟩
  rw [h]
  exact fun heq => hf (Option.some.inj heq)

theorem attach_keeps (s : RpcServer) (t : ℕ) (x : Exchange) (i : ℕ) : (s.attach t x i).mSessions = s.mSessions ∧
    (s.attach t x i).fatal = s.fatal ∧ (s.attach t x i).clearFatal = s.clearFatal := by
  unfold attach
  split_ifs <;> exact ⟨rfl, rfl, rfl⟩

/-- A new session gets an id that is not in use. -/
theorem findSession_sessions {env : Env} {x : Exchange} {i : ℕ}
    (h : s.findSession env x = some (i, s')) :
    SessionsMove s s' ∧ s'.fatal = s.fatal ∧ s'.clearFatal = s.clearFatal := by
  unfold findSession at h
  split at h
  · obtain ⟨⟨id, S⟩, hnew, hr⟩ := Option.map_eq_some_iff.mp h
    obtain ⟨-, rfl⟩ := Prod.mk.inj hr
    exact ⟨.register id.1 (newSession_some hnew).1 rfl, rfl, rfl⟩
  · obtain ⟨j, -, hr⟩ := Option.map_eq_some_iff.mp h
    obtain ⟨-, rfl⟩ := Prod.mk.inj hr
    exact ⟨.same rfl, rfl, rfl⟩

section

variable (hfatal : s.fatal = none)
include hfatal

theorem effect_establish (t : ℕ) (env : Env) (x : Exchange) : Effect s (s.establish t env x) := by
  unfold establish
  by_cases hmem : t ∉ s.mConnectingThreads
  · rw [if_pos hmem]
    exact .abort rfl rfl nofun rfl
  rw [if_neg hmem]
  dsimp only
  split_ifs
  · exact .keep hfatal rfl rfl rfl
  · split
    · exact .abort rfl rfl nofun rfl
    · exact .keep hfatal rfl rfl rfl
    · split
      · exact .keep hfatal rfl rfl rfl
      · next i s' hfind =>
        obtain ⟨hmap, habort, hclear⟩ := attach_keeps s' t x i
        obtain ⟨hmove, hs', hclear'⟩ := findSession_sessions hfind
        refine ⟨?_, ?_, hclear.trans hclear'⟩
        · cases hmove with
          | same heq => exact .same (hmap.trans heq)
          | register id hnone heq => exact .register id hnone (hmap.trans heq)
          | erase id heq => exact .erase id (hmap.trans heq)
        · rw [habort, hs', hfatal]
          nofun

theorem effect_assign (t i : ℕ) : Effect s (s.assign t i) := by
  unfold assign
  split <;> exact .keep hfatal rfl rfl rfl

theorem effect_leaveThreads (t i : ℕ) (connection : Option ℕ) : Effect s (s.leaveThreads t i connection) := by
  unfold leaveThreads
  split_ifs
  · exact .keep hfatal rfl rfl rfl
  · exact .abort rfl rfl nofun rfl

theorem effect_removeConnection (t i c : ℕ) (listener : Bool) : Effect s (s.removeConnection t i c listener) := by
  unfold removeConnection
  split
  · exact .abort rfl rfl nofun rfl
  · exact .keep hfatal rfl rfl rfl

theorem effect_allEnded (t i : ℕ) : Effect s (s.onSessionAllIncomingThreadsEnded t i) := by
  unfold onSessionAllIncomingThreadsEnded
  dsimp only
  split_ifs
  · exact .abort rfl rfl nofun rfl
  · split
    · exact .abort rfl rfl nofun rfl
    · split_ifs
      · exact .abort rfl rfl nofun rfl
      · refine ⟨.erase _ rfl, ?_, rfl⟩
        simp [setThread, log, hfatal]

end

theorem finishAdding_sessions (s : RpcServer) (t i c : ℕ) (written : Bool) :
    (s.finishAdding t i c written).mSessions = s.mSessions := by
  unfold finishAdding
  dsimp only
  split_ifs <;> rfl

theorem ended_fatal (s : RpcServer) (a : Action) : (s.ended a).fatal = s.fatal := by
  unfold ended
  cases s.shutDown a <;> rfl

theorem ended_beginJoin {t i : ℕ} {connection : Option ℕ} (init : Outcome)
    (ht : s.threads t = .serving .assigned i connection) :
    s.ended (.beginJoin t init) = s.handle i (if connection.isNone then .failed else init) := by
  cases connection <;> cases init <;> simp [ended, shutDown, handle, ht]

theorem ended_command {t i : ℕ} {connection : Option ℕ} (status : Outcome)
    (ht : s.threads t = .serving (.joining true) i connection) : s.ended (.command t status) = s.handle i status := by
  cases status <;> simp [ended, shutDown, handle, ht]

theorem Moves.effect {a : Action} (h : Moves s a s') (hfatal : s.fatal = none) :
    Effect (s.ended a) s' ∨ ∃ t i c written, a = .connectionInit t written ∧ s.threads t = .adding i c ∧
      s' = s.finishAdding t i c written := by
  have hended := (s.ended_fatal a).trans hfatal
  cases h with
  | connectionInit _ ht => exact .inr ⟨_, _, _, _, rfl, ht, rfl⟩
  | nullTrigger => exact .inl (.abort rfl rfl nofun rfl)
  | establish => exact .inl (effect_establish hfatal _ _ _)
  | assign => exact .inl (effect_assign hfatal _ _)
  | @beginJoin _ _ connection init ht =>
    left
    rw [ended_beginJoin init ht] at hended ⊢
    unfold RpcServer.beginJoin
    dsimp only
    generalize (if connection.isNone then Outcome.failed else init) = status at hended ⊢
    split_ifs
    · exact .abort rfl rfl nofun rfl
    · exact .keep hended rfl rfl rfl
  | command status ht =>
    left
    rw [ended_command status ht] at hended ⊢
    exact .keep hended rfl rfl rfl
  | leaveThreads => exact .inl (effect_leaveThreads hfatal _ _ _)
  | remove => exact .inl (effect_removeConnection hfatal _ _ _ _)
  | callback => exact .inl (effect_allEnded hfatal _ _)
  | _ => exact .inl (.keep hended rfl rfl rfl)

theorem SessionsMove.of_ended {a : Action} (h : SessionsMove (s.ended a) s') : SessionsMove s s' := by
  unfold ended at h
  cases hi : s.shutDown a with
  | none => rwa [hi] at h
  | some i =>
    rw [hi] at h
    cases h with
    | same heq => exact .same heq
    | register id hnone heq => exact .register id hnone heq
    | erase id heq => exact .erase id heq

end Effect

theorem step_sessions {a : Action} (h : s.step a = some s') : SessionsMove s s' := by
  obtain ⟨hfatal, -, hmoves⟩ := moves_of_step h
  rcases hmoves.effect hfatal with heffect | ⟨t, i, c, written, -, -, rfl⟩
  · exact heffect.sessions.of_ended
  · exact .same (finishAdding_sessions s t i c written)

/-- An id is not given to another session while one is registered under it. -/
theorem SessionsMove.kept (h : SessionsMove s s') {id : List (Fin 256)} {i : ℕ}
    (hi : s.mSessions.find? id = some i) :
    s'.mSessions.find? id = some i ∨ s'.mSessions.find? id = none := by
  cases h with
  | same heq => exact .inl (heq ▸ hi)
  | register _ hnone heq =>
    left
    rw [heq, OrdMap.find?_insert, if_neg, hi]
    rintro rfl
    simp [hi] at hnone
  | erase _ heq =>
    rw [heq, OrdMap.find?_erase]
    split_ifs
    · exact .inr rfl
    · exact .inl hi

theorem Lives.marks_pairwise (h : s.Lives) {R : Mark → Mark → Prop}
    (hR : ∀ i < s.nextSession, (s.life i).marks.Pairwise R) (i : ℕ) :
    s.history.Pairwise fun e e' => ∀ m ∈ e.mark i, ∀ m' ∈ e'.mark i, R m m' := by
  apply pairwise_filterMap.mp
  by_cases hi : i < s.nextSession
  · exact hR i hi
  · rw [h.events i (Nat.le_of_not_lt hi)]
    exact .nil

/-- Once a connection of a session has been removed no other one is accepted; the session ends at
most once, with no connection left and still registered; the checks on this never fail; and its id
is not given away while it is registered. -/
theorem session_ends_once (h : Reachable step Free (init maxThreads protocolVersion) s) :
    (s.history.Pairwise fun e e' => ∀ i c d, e = .removed i c → e' ≠ .accepted i d) ∧
      (s.history.Pairwise fun e e' =>
        ∀ i r n r' n', e = .allEnded i r n → e' ≠ .allEnded i r' n') ∧
      (∀ i r n, .allEnded i r n ∈ s.history → r = true ∧ n = 0) ∧
      (s.fatal = none ∨ s.fatal = some .outgoingFailed) ∧
      ∀ a s', s.step a = some s' → ∀ id i, s.mSessions.find? id = some i →
        s'.mSessions.find? id = some i ∨ s'.mSessions.find? id = none := by
  have hinv := inv_of_reachable h
  have hclosed := hinv.lives.marks_pairwise fun i hi => (hinv.lives.sound i hi).closed
  have honce := hinv.lives.marks_pairwise fun i hi => (hinv.lives.ends i hi).once
  refine ⟨?_, ?_, ?_, hinv.fatal, fun a s' hstep id i hi => (step_sessions hstep).kept hi⟩
  · rw [pairwise_iff_getElem]
    intro a b ha hb hab i c d he he'
    have hpair := pairwise_iff_getElem.mp (hclosed i) a b ha hb hab
    exact hpair (.removed c) (by simp [he, Event.mark]) (.accepted d) (by simp [he', Event.mark])
      c d rfl rfl
  · rw [pairwise_iff_getElem]
    intro a b ha hb hab i r n r' n' he he'
    have hpair := pairwise_iff_getElem.mp (honce i) a b ha hb hab
    exact hpair (.ended r n) (by simp [he, Event.mark]) (.ended r' n') (by simp [he', Event.mark])
      r n r' n' rfl rfl
  · intro i r n hmem
    have hmark : Mark.ended r n ∈ s.history.filterMap (Event.mark i) :=
      mem_filterMap.mpr ⟨_, hmem, if_pos rfl⟩
    have hi : i < s.nextSession := by
      by_contra hi
      rw [hinv.lives.events i (Nat.le_of_not_lt hi)] at hmark
      cases hmark
    exact (hinv.lives.ends i hi).ended r n hmark

/-- A session id, and clients that ask for a session and for a connection of it. -/
def zeroId : SessionId := ⟨List.replicate kSessionIdBytes ⟨0, Nat.zero_lt_succ 255⟩, length_replicate⟩

def sessionClient : Client := ⟨true, some ⟨0, 0, 0⟩, none, true⟩

def connectionClient (options : UInt8) : Client := ⟨true, some ⟨0, options, 32⟩, some zeroId, true⟩

def zeroEnv : Env := ⟨fun _ => some zeroId, true⟩

/-- The session ends while a second connection is being established, which is refused. -/
theorem session_ends_once_refused : ∃ s : RpcServer, Reachable step Free (init 2 none) s ∧
      s.history = [.accepted 0 0, .removed 0 0, .allEnded 0 true 0] ∧
      (s.fatal = none ∨ s.fatal = some .outgoingFailed) := by
  obtain ⟨s, hs, hhistory⟩ := exists_reachable step Free (init 2 none)
    [.join, .accept 1, .exchange 1 sessionClient, .establish 1 zeroEnv, .assign 1,
      .beginJoin 1 .ok, .accept 2, .exchange 2 (connectionClient 0), .establish 2 zeroEnv,
      .command 1 .lost, .leaveThreads 1, .remove 1 true, .assign 2, .beginJoin 2 .ok, .callback 1,
      .leaveThreads 2, .remove 2 true]
    (·.history = [.accepted 0 0, .removed 0 0, .allEnded 0 true 0]) (by decide)
  exact ⟨s, hs, hhistory, (session_ends_once hs).2.2.2.1⟩

/-- A client that was given a connection of its own, for calls to it, gets the init message: it has
not disconnected, and its session is not shutting down. -/
def Initialised (s : RpcServer) : Action → Prop
  | .connectionInit t written => match s.threads t with
    | .adding i _ => written = true ∧ (s.sessions i).mShutdownTriggered = false
    | _ => True
  | _ => True

instance (s : RpcServer) (a : Action) : Decidable (s.Initialised a) := by
  unfold Initialised
  split
  · split <;> infer_instance
  · infer_instance

/-- A step that no client aborts the process with: besides, a session that is shut down because a connection failed
has a strong reference left to every binder of its node table. -/
def Spared (s : RpcServer) (a : Action) : Prop := s.Initialised a ∧ ∀ i ∈ s.shutDown a, s.nodes i ≠ .unowned
deriving Decidable

theorem fatal_finishAdding (hfatal : s.fatal = none) (t i c : ℕ) (written : Bool) :
    (s.finishAdding t i c written).fatal = none ↔ written = true ∧ (s.sessions i).mShutdownTriggered = false := by
  unfold finishAdding
  dsimp only
  split_ifs with hstatus
  · simpa [setThread, setSession, hfatal] using hstatus
  · simpa [abort] using hstatus

theorem clearFatal_finishAdding (s : RpcServer) (t i c : ℕ) (written : Bool) :
    (s.finishAdding t i c written).clearFatal = s.clearFatal := by
  unfold finishAdding
  dsimp only
  split_ifs <;> rfl

theorem initialised_of_ne {a : Action} (h : ∀ t written, a ≠ .connectionInit t written) : s.Initialised a := by
  cases a with
  | connectionInit t written => exact absurd rfl (h t written)
  | _ => trivial

theorem ended_clearFatal (hclear : s.clearFatal = false) (a : Action) :
    (s.ended a).clearFatal = false ↔ ∀ i ∈ s.shutDown a, s.nodes i ≠ .unowned := by
  unfold ended
  cases s.shutDown a with
  | none => simp [hclear]
  | some i => simp [shutdownAndWait, setSession, RpcServer.clear, hclear]

theorem Inv.fatal_step (hinv : s.Inv) {a : Action} (h : s.step a = some s') :
    s'.fatal = none ∧ s'.clearFatal = false ↔ s.Spared a := by
  have hinv' := hinv.step h
  obtain ⟨hfatal, hclear, hmoves⟩ := moves_of_step h
  by_cases ha : ∃ t written, a = .connectionInit t written
  · obtain ⟨t, written, rfl⟩ := ha
    cases hmoves with
    | connectionInit _ ht =>
      rw [fatal_finishAdding hfatal, clearFatal_finishAdding]
      simp [Spared, Initialised, shutDown, ht, hclear]
  · have hother : ∀ t written, a ≠ .connectionInit t written := fun t w heq => ha ⟨t, w, heq⟩
    rcases hmoves.effect hfatal with heffect | ⟨t, i, c, written, heq, -⟩
    · rw [heffect.clear, ended_clearFatal hclear, Spared]
      exact and_congr_left fun _ =>
        iff_of_true (hinv'.fatal.resolve_right heffect.fatal) (initialised_of_ne hother)
    · exact absurd heq (hother t written)

/-- The process is aborted exactly if the init of a client's connection cannot be written, or if a session is shut
down while a binder of its node table has lost its last reference. -/
theorem connecting_not_fatal (h : Reachable step Spared (init maxThreads protocolVersion) s) :
    (s.fatal = none ∧ s.clearFatal = false) ∧
      ∀ a s', s.step a = some s' → (s'.fatal = none ∧ s'.clearFatal = false ↔ s.Spared a) := by
  have hinv := inv_of_reachable h
  refine ⟨?_, fun a s' hstep => hinv.fatal_step hstep⟩
  cases h with
  | init => exact ⟨rfl, rfl⟩
  | next hs hC hstep => exact ((inv_of_reachable hs).fatal_step hstep).mpr hC

/-- A client that asks for a connection to itself and receives the init message. -/
theorem connecting_not_fatal_written : ∃ s : RpcServer,
    Reachable step Spared (init 1 none) s ∧ (s.sessions 0).mOutgoing = [1] ∧ s.fatal = none ∧ s.clearFatal = false := by
  obtain ⟨s, hs, hout⟩ := exists_reachable step Spared (init 1 none)
    [.join, .accept 1, .exchange 1 sessionClient, .establish 1 zeroEnv, .assign 1,
      .beginJoin 1 .ok, .accept 2, .exchange 2 (connectionClient 1), .establish 2 zeroEnv,
      .connectionInit 2 true] (fun s => (s.sessions 0).mOutgoing = [1]) (by decide)
  exact ⟨s, hs, hout, (connecting_not_fatal hs).1⟩

/-- A client that disconnects before the init message is written. -/
theorem connecting_fatal : ∃ s : RpcServer,
    Reachable step Free (init 1 none) s ∧ s.fatal = some .outgoingFailed :=
  exists_reachable step Free (init 1 none)
    [.join, .accept 1, .exchange 1 sessionClient, .establish 1 zeroEnv, .assign 1,
      .beginJoin 1 .ok, .accept 2, .exchange 2 (connectionClient 1), .establish 2 zeroEnv,
      .connectionInit 2 false] _ (by decide)

/-- When `shutdown` returns no thread connects a client any more, and none is left in a session. -/
theorem shutdown_leaves_nothing (h : Reachable step Free (init maxThreads protocolVersion) s)
    (hs : s.step .shutdownEnds = some s') : (∀ t, (s'.threads t).isConnecting = false) ∧
      ∀ i < s'.nextSession, (s'.sessions i).mIncoming = [] ∧ ∀ t, ((s'.threads t).stage i).connection = none := by
  have hinv := inv_of_reachable h
  simp only [step, threadStep, ownerStep, Option.none_or] at hs
  split_ifs at hs with hfatal hguard
  obtain ⟨-, -, hconnecting, hsessions⟩ := hguard
  cases hs
  refine ⟨fun t => ?_, fun i hi => ?_⟩
  · by_contra hne
    have hmem := hinv.orderly.connecting t (Bool.not_eq_false _ ▸ hne)
    simp [hconnecting] at hmem
  · have hends := hinv.lives.ends i hi
    have hover : ∃ r n, .ended r n ∈ (s.life i).marks := by
      by_contra hnone
      push Not at hnone
      have hregistered := hends.registered.mpr hnone
      simp [life, OrdMap.find?, hsessions, OrdMap.lookup] at hregistered
    obtain ⟨hempty, -⟩ := hends.empty (.inl hover)
    refine ⟨hempty, fun t => Option.eq_none_iff_forall_ne_some.mpr fun c hc => ?_⟩
    simpa [hempty] using (hinv.lives.sound i hi).connection t c hc

theorem shutdown_leaves_nothing_session : ∃ s s' : RpcServer, s.step .shutdownEnds = some s' ∧ s.nextSession = 1 ∧
    ∀ i < s'.nextSession, (s'.sessions i).mIncoming = [] := by
  obtain ⟨s, hs, hends, hone⟩ := exists_reachable step Free (init 1 none)
    [.join, .accept 1, .exchange 1 sessionClient, .establish 1 zeroEnv, .assign 1, .beginJoin 1 .ok, .shutdown,
      .command 1 .lost, .leaveThreads 1, .remove 1 true, .callback 1, .joinEnds]
    (fun s => (s.step .shutdownEnds).isSome ∧ s.nextSession = 1) (by decide)
  obtain ⟨s', hs'⟩ := Option.isSome_iff_exists.mp hends
  exact ⟨s, s', hs', hone, fun i hi => ((shutdown_leaves_nothing hs hs').2 i hi).1⟩

end Binder.RpcServer
