import Binder.RpcServer.Life
import Binder.RpcServer.State

/-! Every session of the server lives the life of one session. -/
namespace Binder.RpcServer

open Lib List Function

def Thread.stage (i : ℕ) : Thread → Stage
  | .owned j => if j = i then .owned else .away
  | .serving .assigned j c => if j = i then .joined c false else .away
  | .serving (.joining b) j c => if j = i then .joined c b else .away
  | .serving .detached j c => if j = i then .detached c else .away
  | .ending j => if j = i then .ending else .away
  | _ => .away

def Thread.session : Thread → Option ℕ
  | .adding j _ => some j
  | .owned j => some j
  | .serving _ j _ => some j
  | .ending j => some j
  | _ => none

def Thread.isConnecting : Thread → Bool
  | .connecting => true
  | .exchanged _ => true
  | _ => false

def Event.mark (i : ℕ) : Event → Option Mark
  | .accepted j c => if j = i then some (.accepted c) else none
  | .removed j c => if j = i then some (.removed c) else none
  | .allEnded j r n => if j = i then some (.ended r n) else none

def life (s : RpcServer) (i : ℕ) : Life where
  incoming := (s.sessions i).mIncoming
  high := (s.sessions i).mMaxIncoming
  fresh := (s.sessions i).fresh
  owners := (s.sessions i).mThreads
  stage t := (s.threads t).stage i
  registered := s.mSessions.find? (s.sessions i).mId == some i
  marks := s.history.filterMap (Event.mark i)

section Life

variable {s : RpcServer} {i j t : ℕ} {th : Thread} {e : Event}

theorem life_setThread (s : RpcServer) (i t : ℕ) (th : Thread) :
    (s.setThread t th).life i = (s.life i).put t (th.stage i) := by
  have hstage : (fun u => (update s.threads t th u).stage i) =
      update (fun u => (s.threads u).stage i) t (th.stage i) := by
    funext u
    by_cases hu : u = t
    · rw [hu, update_self, update_self]
    · rw [update_of_ne hu, update_of_ne hu]
  simp only [life, setThread, Life.put, hstage]

theorem put_of_stage_eq {l : Life} {x : Stage} (h : l.stage t = x) : l.put t x = l := by
  rw [Life.put, ← h, update_eq_self]

/-- A thread that stays where it is with respect to the session. -/
theorem life_setThread_of_stage_eq (h : th.stage i = (s.threads t).stage i) :
    (s.setThread t th).life i = s.life i := by
  rw [life_setThread, h]
  exact put_of_stage_eq rfl

theorem life_congr {s' : RpcServer} (hsession : s'.sessions i = s.sessions i)
    (hstage : ∀ t, (s'.threads t).stage i = (s.threads t).stage i)
    (hmap : s'.mSessions = s.mSessions)
    (hevents : s'.history.filterMap (Event.mark i) = s.history.filterMap (Event.mark i)) :
    s'.life i = s.life i := by
  simp only [life, hsession, hstage, hmap, hevents]

theorem life_log {m : Mark} (h : e.mark i = some m) : (s.log e).life i = (s.life i).mark m := by
  simp [life, log, h, Life.mark]

theorem Thread.session_ne (h : th.session = some j) : ∀ i, i ≠ j → th.session ≠ some i := by
  intro i hi heq
  exact hi (Option.some.inj (heq.symm.trans h))

theorem Thread.stage_of_ne (h : th.session ≠ some i) : th.stage i = .away := by
  cases th with
  | owned => exact if_neg fun hj => h (congrArg some hj)
  | serving phase => cases phase <;> exact if_neg fun hj => h (congrArg some hj)
  | ending => exact if_neg fun hj => h (congrArg some hj)
  | _ => rfl

end Life

/-- What the server's own records say. -/
structure Orderly (s : RpcServer) : Prop where
  connecting : ∀ t, (s.threads t).isConnecting = true → t ∈ s.mConnectingThreads
  trigger : s.mShutdownTrigger = none → s.mConnectingThreads = [] ∧ s.mJoinThreadRunning = false
  sessions : ∀ t i, (s.threads t).session = some i → i < s.nextSession
  ids : ∀ id i, s.mSessions.find? id = some i → i < s.nextSession ∧ (s.sessions i).mId = id
  nonempty : ∀ i < s.nextSession, (s.sessions i).mId ≠ []

structure Lives (s : RpcServer) : Prop where
  sound : ∀ i < s.nextSession, (s.life i).Sound
  ends : ∀ i < s.nextSession, (s.life i).Ends
  events : ∀ i, s.nextSession ≤ i → s.history.filterMap (Event.mark i) = []

theorem Lives.step {s s' : RpcServer} (h : s.Lives) (hnext : s'.nextSession = s.nextSession)
    (hlife : ∀ i < s.nextSession, s'.life i = s.life i ∨ Life.Step (s.life i) (s'.life i))
    (hevents : ∀ i, s.nextSession ≤ i →
      s'.history.filterMap (Event.mark i) = s.history.filterMap (Event.mark i)) : s'.Lives := by
  refine ⟨fun i hi => ?_, fun i hi => ?_, fun i hi => ?_⟩
  · rw [hnext] at hi
    rcases hlife i hi with heq | hstep
    · rw [heq]
      exact h.sound i hi
    · exact (h.sound i hi).step hstep
  · rw [hnext] at hi
    rcases hlife i hi with heq | hstep
    · rw [heq]
      exact h.ends i hi
    · exact (h.ends i hi).step (h.sound i hi) hstep
  · rw [hnext] at hi
    rw [hevents i hi]
    exact h.events i hi

structure Inv (s : RpcServer) : Prop where
  orderly : s.Orderly
  lives : s.Lives
  fatal : s.fatal = none ∨ s.fatal = some .outgoingFailed

/-- The sessions and the ids under which they are registered stay; `hlife` is what becomes of the
lives of the sessions. -/
theorem Inv.move {s s' : RpcServer} (h : s.Inv) (hnext : s'.nextSession = s.nextSession)
    (hmap : s'.mSessions = s.mSessions) (hid : ∀ i, (s'.sessions i).mId = (s.sessions i).mId)
    (hconnecting : ∀ t, (s'.threads t).isConnecting = true → t ∈ s'.mConnectingThreads)
    (htrigger : s'.mShutdownTrigger = none → s'.mConnectingThreads = [] ∧ s'.mJoinThreadRunning = false)
    (hsessions : ∀ t i, (s'.threads t).session = some i → i < s.nextSession)
    (hlife : ∀ i < s.nextSession, s'.life i = s.life i ∨ Life.Step (s.life i) (s'.life i))
    (hevents : ∀ i, s.nextSession ≤ i → s'.history.filterMap (Event.mark i) = s.history.filterMap (Event.mark i))
    (hfatal : s'.fatal = none ∨ s'.fatal = some .outgoingFailed) : s'.Inv := by
  refine ⟨⟨hconnecting, htrigger, ?_, ?_, ?_⟩, h.lives.step hnext hlife hevents, hfatal⟩
  · rw [hnext]
    exact hsessions
  · intro id i hi
    rw [hnext, hid]
    exact h.orderly.ids id i (hmap ▸ hi)
  · intro i hi
    rw [hid]
    exact h.orderly.nonempty i (hnext ▸ hi)

section Steps

variable {s s' : RpcServer} {i j t c : ℕ} {th : Thread} {x : Exchange} {env : Env}

theorem connecting_update (h : s.Orderly) (hth : th.isConnecting = false) :
    ∀ u, (update s.threads t th u).isConnecting = true → u ∈ s.mConnectingThreads.erase t := by
  intro u hu
  by_cases hut : u = t
  · rw [hut, update_self, hth] at hu
    cases hu
  · rw [update_of_ne hut] at hu
    exact (mem_erase_of_ne hut).mpr (h.connecting u hu)

theorem sessions_update (h : s.Orderly) (hth : ∀ i, th.session = some i → i < s.nextSession) :
    ∀ u i, (update s.threads t th u).session = some i → i < s.nextSession := by
  intro u i hu
  by_cases hut : u = t
  · rw [hut, update_self] at hu
    exact hth i hu
  · rw [update_of_ne hut] at hu
    exact h.sessions u i hu

/-- A thread that has to do with no other session than `j` moves on, and possibly `j` with it. -/
theorem Inv.act (h : s.Inv) (hj : j < s.nextSession) (hnext : s'.nextSession = s.nextSession)
    (hmap : s'.mSessions = s.mSessions) (hid : (s'.sessions j).mId = (s.sessions j).mId)
    (hsame : ∀ i, i ≠ j → s'.sessions i = s.sessions i)
    (hthreads : s'.threads = update s.threads t th)
    (hold : ∀ i, i ≠ j → (s.threads t).session ≠ some i)
    (hnew : ∀ i, i ≠ j → th.session ≠ some i) (hth : th.isConnecting = false)
    (hlist : s.mConnectingThreads.erase t ⊆ s'.mConnectingThreads)
    (hlist' : s'.mConnectingThreads ⊆ s.mConnectingThreads)
    (htrigger : s'.mShutdownTrigger = s.mShutdownTrigger)
    (hrunning : s'.mJoinThreadRunning = s.mJoinThreadRunning)
    (hevents : ∀ i, i ≠ j → s'.history.filterMap (Event.mark i) = s.history.filterMap (Event.mark i))
    (hlife : s'.life j = s.life j ∨ Life.Step (s.life j) (s'.life j))
    (hfatal : s'.fatal = none ∨ s'.fatal = some .outgoingFailed) : s'.Inv := by
  refine h.move hnext hmap ?_ ?_ ?_ ?_ ?_ ?_ hfatal
  · intro i
    by_cases hi : i = j
    · rw [hi, hid]
    · rw [hsame i hi]
  · intro u hu
    rw [hthreads] at hu
    exact hlist (connecting_update h.orderly hth u hu)
  · intro hnone
    obtain ⟨hempty, hstopped⟩ := h.orderly.trigger (htrigger ▸ hnone)
    rw [hempty] at hlist'
    exact ⟨subset_nil.mp hlist', hrunning.trans hstopped⟩
  · rw [hthreads]
    refine sessions_update h.orderly fun i hi => ?_
    by_cases hij : i = j
    · exact hij ▸ hj
    · exact absurd hi (hnew i hij)
  · intro i _
    by_cases hij : i = j
    · exact hij ▸ hlife
    · refine .inl (life_congr (hsame i hij) (fun u => ?_) hmap (hevents i hij))
      rw [hthreads]
      by_cases hu : u = t
      · rw [hu, update_self, Thread.stage_of_ne (hnew i hij), Thread.stage_of_ne (hold i hij)]
      · rw [update_of_ne hu]
  · exact fun i hi => hevents i (by omega)

variable {connection : Option ℕ} {id : SessionId} {S : RpcSession}

section

variable (h : s.Inv) (hfatal : s.fatal = none)
include h hfatal

theorem Inv.assign (ht : s.threads t = .owned j) : (s.assign t j).Inv := by
  have hj : j < s.nextSession := h.orderly.sessions t j (by rw [ht]; rfl)
  have hold : ∀ i, i ≠ j → (s.threads t).session ≠ some i :=
    Thread.session_ne (by rw [ht]; rfl)
  have hstage : (s.life j).stage t = .owned := by
    simp [life, ht, Thread.stage]
  unfold RpcServer.assign
  rcases hassign : (s.sessions j).assignIncomingConnectionToThisThread t with ⟨_ | c, S⟩
  · refine h.act hj rfl rfl rfl (fun _ _ => rfl) rfl hold (Thread.session_ne rfl) rfl
      (erase_subset ..) (fun _ => id) rfl rfl (fun _ _ => rfl) (.inr ?_) (.inl hfatal)
    rw [life_setThread]
    simpa [Thread.stage] using Life.Step.refuse t hstage
  · obtain ⟨rfl, -, hhigh, rfl⟩ := RpcSession.assignIncoming_some hassign
    refine h.act hj rfl rfl ?_ (fun i hi => update_of_ne hi ..) rfl hold
      (Thread.session_ne rfl) rfl (erase_subset ..) (fun _ => id) rfl rfl ?_ (.inr ?_)
      (.inl hfatal)
    · simp [log, setThread, setSession, RpcSession.make, RpcSession.setConnection]
    · intro i hi
      simp [log, setThread, setSession, Event.mark, hi.symm]
    · have hsession : (s.setSession j { (s.sessions j).make t with
          mIncoming := (s.sessions j).mIncoming ++ [(s.sessions j).fresh]
          mMaxIncoming := (s.sessions j).mIncoming.length + 1 }).life j =
          { s.life j with
            incoming := (s.life j).incoming ++ [(s.life j).fresh]
            high := (s.life j).incoming.length + 1
            fresh := (s.life j).fresh + 1 } := by
        simp [life, setSession, RpcSession.make, RpcSession.setConnection]
      have hmark : (Event.accepted j (s.sessions j).fresh).mark j = some (.accepted (s.life j).fresh) := if_pos rfl
      have hstage' : (Thread.serving .assigned j (some (s.sessions j).fresh)).stage j =
          .joined (some (s.life j).fresh) false := if_pos rfl
      rw [life_log hmark, life_setThread, hsession, hstage']
      exact .accept t hstage hhigh

/-- The thread of a connection moves on within `preJoinSetup` and `join`. -/
theorem Inv.progress {p q : Phase}
    {b b' : Bool} (ht : s.threads t = .serving p j connection)
    (hp : (Thread.serving p j connection).stage j = .joined connection b)
    (hq : (Thread.serving q j connection).stage j = .joined connection b')
    (hb : b' = true → connection ≠ none ∨ b = true) :
    (s.setThread t (.serving q j connection)).Inv := by
  refine h.act (h.orderly.sessions t j (by rw [ht]; rfl)) rfl rfl rfl (fun _ _ => rfl) rfl
    (Thread.session_ne (by rw [ht]; rfl)) (Thread.session_ne rfl) rfl (erase_subset ..)
    (fun _ => id) rfl rfl (fun _ _ => rfl) (.inr ?_) (.inl hfatal)
  rw [life_setThread, hq]
  exact .progress t connection b b' (by rw [← hp, ← ht]; rfl) hb

theorem Inv.leaveThreads (ht : s.threads t = .serving (.joining false) j connection) :
    (s.leaveThreads t j connection).Inv := by
  have hj : j < s.nextSession := h.orderly.sessions t j (by rw [ht]; rfl)
  have hstage : (s.life j).stage t = .joined connection false := by
    simp [life, ht, Thread.stage]
  have hmem : t ∈ (s.sessions j).mThreads := (h.lives.sound j hj).owner t (.inr ⟨_, _, hstage⟩)
  unfold RpcServer.leaveThreads
  rw [if_neg (not_not.mpr hmem)]
  refine h.act hj rfl rfl ?_ (fun i hi => update_of_ne hi ..) rfl
    (Thread.session_ne (by rw [ht]; rfl)) (Thread.session_ne rfl) rfl (erase_subset ..)
    (fun _ => id) rfl rfl (fun _ _ => rfl) (.inr ?_) (.inl hfatal)
  · simp [setThread, setSession]
  · have hsession : (s.setSession j { s.sessions j with
        mThreads := (s.sessions j).mThreads.erase t }).life j =
        { s.life j with owners := (s.life j).owners.erase t } := by
      simp [life, setSession]
    rw [life_setThread, hsession]
    simpa [Thread.stage] using Life.Step.detach t connection false hstage

theorem Inv.depart (ht : s.threads t = .serving .detached j none) : (s.setThread t .idle).Inv := by
  have hstage : (s.life j).stage t = .detached none := by
    simp [life, ht, Thread.stage]
  refine h.act (h.orderly.sessions t j (by rw [ht]; rfl)) rfl rfl rfl (fun _ _ => rfl) rfl
    (Thread.session_ne (by rw [ht]; rfl)) (fun _ _ => nofun) rfl (erase_subset ..)
    (fun _ => id) rfl rfl (fun _ _ => rfl) (.inr ?_) (.inl hfatal)
  rw [life_setThread]
  exact .depart t hstage

theorem Inv.removeConnection (ht : s.threads t = .serving .detached j (some c)) (listener : Bool) :
    (s.removeConnection t j c listener).Inv := by
  have hj : j < s.nextSession := h.orderly.sessions t j (by rw [ht]; rfl)
  have hstage : (s.life j).stage t = .detached (some c) := by
    simp [life, ht, Thread.stage]
  have hmem : c ∈ (s.sessions j).mIncoming :=
    (h.lives.sound j hj).connection t c (by rw [hstage]; rfl)
  have hmark : (Event.removed j c).mark j = some (.removed c) := if_pos rfl
  have hsession : (s.setSession j { s.sessions j with
      mIncoming := (s.sessions j).mIncoming.erase c }).life j =
      { s.life j with incoming := (s.life j).incoming.erase c } := by
    simp [life, setSession]
  -- the thread calls the listener, or is done
  obtain ⟨th, hth, hsession', hstage', hconnecting⟩ : ∃ th : Thread,
      (if (s.sessions j).mIncoming.erase c = [] ∧ listener then .ending j else .idle) = th ∧
      (∀ i, i ≠ j → th.session ≠ some i) ∧
      (th.stage j = .away ∨ th.stage j = .ending ∧ (s.life j).incoming.erase c = []) ∧
      th.isConnecting = false := by
    split_ifs with hlast
    · exact ⟨_, rfl, Thread.session_ne rfl, .inr ⟨if_pos rfl, hlast.1⟩, rfl⟩
    · exact ⟨_, rfl, fun _ _ => nofun, .inl rfl, rfl⟩
  unfold RpcServer.removeConnection
  rw [RpcSession.removeIncomingConnection, if_pos hmem]
  dsimp only
  rw [hth]
  refine h.act hj rfl rfl ?_ (fun i hi => update_of_ne hi ..) rfl
    (Thread.session_ne (by rw [ht]; rfl)) hsession' hconnecting (erase_subset ..)
    (fun _ => id) rfl rfl ?_ (.inr ?_) (.inl hfatal)
  · simp [log, setThread, setSession]
  · intro i hi
    simp [log, setThread, setSession, Event.mark, hi.symm]
  · rw [life_log hmark, life_setThread, hsession]
    exact .remove t c (th.stage j) hstage hstage'

theorem Inv.finishAdding (ht : s.threads t = .adding j c)
    (written : Bool) : (s.finishAdding t j c written).Inv := by
  have hj : j < s.nextSession := h.orderly.sessions t j (by rw [ht]; rfl)
  have hsession : ({ s.setSession j ((s.sessions j).finishOutgoingConnection c) with
      mLock := none } : RpcServer).life j = s.life j := by
    simp [life, setSession, RpcSession.finishOutgoingConnection, RpcSession.setExclusiveTid,
      RpcSession.setConnection]
  have hid : (update s.sessions j ((s.sessions j).finishOutgoingConnection c) j).mId =
      (s.sessions j).mId := by
    rw [update_self]
    rfl
  unfold RpcServer.finishAdding
  dsimp only
  split_ifs
  · refine h.act hj rfl rfl hid (fun i hi => update_of_ne hi ..) rfl
      (Thread.session_ne (by rw [ht]; rfl)) (fun _ _ => nofun) rfl (erase_subset ..)
      (fun _ => id) rfl rfl (fun _ _ => rfl) (.inl ?_) (.inl hfatal)
    rw [life_setThread, hsession]
    exact put_of_stage_eq (by simp [life, ht, Thread.stage])
  · have hthreads : s.threads = update s.threads t (.adding j c) := by
      rw [← ht, update_eq_self]
    exact h.act hj rfl rfl hid (fun i hi => update_of_ne hi ..) hthreads
      (Thread.session_ne (by rw [ht]; rfl)) (Thread.session_ne rfl) rfl (erase_subset ..)
      (fun _ => id) rfl rfl (fun _ _ => rfl) (.inl hsession) (.inr rfl)

/-- A connection that leads to no session. -/
theorem Inv.drop (ht : s.threads t = .exchanged x) :
    ({ s with mConnectingThreads := s.mConnectingThreads.erase t }.setThread t .idle).Inv := by
  refine h.move rfl rfl (fun _ => rfl) (connecting_update h.orderly rfl) ?_
    (sessions_update (s := s) h.orderly (by rintro i ⟨⟩)) ?_ (fun _ _ => rfl) (.inl hfatal)
  · intro hnone
    obtain ⟨hempty, hstopped⟩ := h.orderly.trigger hnone
    exact ⟨by simp [setThread, hempty], hstopped⟩
  · intro i _
    refine .inl (life_setThread_of_stage_eq ?_)
    rw [ht]
    rfl

/-- A connection of a registered session. -/
theorem Inv.attach (ht : s.threads t = .exchanged x)
    (hj : j < s.nextSession) (y : Exchange) :
    (attach { s with mConnectingThreads := s.mConnectingThreads.erase t } t y j).Inv := by
  have hstage : (s.life j).stage t = .away := by
    simp [life, ht, Thread.stage]
  have hold : ∀ i, i ≠ j → (s.threads t).session ≠ some i := by
    rw [ht]
    exact fun _ _ => nofun
  unfold RpcServer.attach
  split_ifs
  · refine h.act hj rfl rfl ?_ (fun i hi => update_of_ne hi ..) rfl hold
      (Thread.session_ne rfl) rfl (fun _ => id) erase_subset rfl rfl (fun _ _ => rfl) (.inr ?_)
      (.inl hfatal)
    · simp [setThread, setSession, RpcSession.addOutgoingConnection, RpcSession.make, RpcSession.setConnection]
    · have hsession : (setSession s j ((s.sessions j).addOutgoingConnection t).2).life j =
          { s.life j with fresh := (s.life j).fresh + 1 } := by
        simp [life, setSession, RpcSession.addOutgoingConnection, RpcSession.make, RpcSession.setConnection]
      change Life.Step _ (((setSession s j ((s.sessions j).addOutgoingConnection t).2).setThread t
        (.adding j (s.sessions j).fresh)).life j)
      rw [life_setThread, hsession, put_of_stage_eq]
      · exact .grow _ (Nat.le_succ _)
      · exact hstage
  · refine h.act hj rfl rfl ?_ (fun i hi => update_of_ne hi ..) rfl hold
      (Thread.session_ne rfl) rfl (fun _ => id) erase_subset rfl rfl (fun _ _ => rfl) (.inr ?_)
      (.inl hfatal)
    · simp [setThread, setSession, RpcSession.preJoinThreadOwnership]
    · have hsession : (setSession s j ((s.sessions j).preJoinThreadOwnership t)).life j =
          { s.life j with owners := (s.life j).owners.insert t } := by
        simp [life, setSession, RpcSession.preJoinThreadOwnership]
      change Life.Step _ (((setSession s j ((s.sessions j).preJoinThreadOwnership t)).setThread t
        (.owned j)).life j)
      rw [life_setThread, hsession]
      simpa [Thread.stage] using Life.Step.own t hstage

end

theorem newSessionId_unused {left tries : ℕ}
    (h : s.newSessionId env left tries = some id) : s.mSessions.find? id.1 = none := by
  induction left generalizing tries with
  | zero => cases h
  | succ left ih =>
    obtain ⟨id', -, h⟩ := Option.bind_eq_some_iff.mp h
    split_ifs at h with hused
    · exact ih h
    · obtain rfl := Option.some.inj h
      exact Option.not_isSome_iff_eq_none.mp hused

theorem newSession_some (h : s.newSession env x = some (id, S)) : s.mSessions.find? id.1 = none ∧
      S.mId = id.1 ∧ S.mIncoming = [] := by
  unfold newSession at h
  by_cases hincoming : x.incoming = true
  · rw [if_pos hincoming] at h
    cases h
  rw [if_neg hincoming] at h
  simp only [Option.bind_eq_bind, Option.bind_eq_some_iff] at h
  obtain ⟨id', hid, S', hversion, h⟩ := h
  split_ifs at h
  obtain ⟨rfl, rfl⟩ := Prod.mk.inj (Option.some.inj h)
  unfold setProtocolVersion at hversion
  split_ifs at hversion
  rw [← Option.some.inj hversion]
  exact ⟨newSessionId_unused hid, rfl, rfl⟩

section

variable (h : s.Inv)
include h

theorem Inv.register (hunused : s.mSessions.find? id.1 = none) (hid : S.mId = id.1) (hin : S.mIncoming = []) :
    (s.register id S).Inv := by
  have hold : ∀ i < s.nextSession, (s.register id S).sessions i = s.sessions i := fun i hi =>
    update_of_ne (Nat.ne_of_lt hi) ..
  have hself : (s.register id S).sessions s.nextSession = S := update_self ..
  have hfind : ∀ k, (s.register id S).mSessions.find? k =
      if k = id.1 then some s.nextSession else s.mSessions.find? k := by
    intro k
    rw [RpcServer.register, OrdMap.find?_insert]
    congr
  -- no session made before is registered under the new id
  have hlife : ∀ i < s.nextSession, (s.register id S).life i = s.life i := by
    intro i hi
    have hregistered : ((s.register id S).mSessions.find? (s.sessions i).mId == some i) =
        (s.mSessions.find? (s.sessions i).mId == some i) := by
      rw [hfind]
      split_ifs with heq
      · rw [heq, hunused]
        simp [Nat.ne_of_gt hi]
      · rfl
    unfold life
    rw [hold i hi, hregistered]
    rfl
  have hnew : ((s.register id S).life s.nextSession).New := by
    refine ⟨?_, fun t => ?_, ?_, h.lives.events _ le_rfl⟩
    · exact (congrArg RpcSession.mIncoming hself).trans hin
    · refine Thread.stage_of_ne fun heq => ?_
      exact Nat.lt_irrefl _ (h.orderly.sessions t _ heq)
    · simp [life, hself, hid, hfind]
  have hcases : ∀ i < s.nextSession + 1, i < s.nextSession ∨ i = s.nextSession := fun i hi =>
    Nat.lt_succ_iff_lt_or_eq.mp hi
  refine ⟨⟨h.orderly.connecting, h.orderly.trigger, ?_, ?_, ?_⟩, ⟨?_, ?_, ?_⟩, h.fatal⟩
  · exact fun t i hi => Nat.lt_succ_of_lt (h.orderly.sessions t i hi)
  · intro k i hi
    rw [hfind] at hi
    split_ifs at hi with heq
    · obtain rfl := Option.some.inj hi
      exact ⟨Nat.lt_succ_self _, by rw [hself, hid, heq]⟩
    · obtain ⟨hlt, hmId⟩ := h.orderly.ids k i hi
      exact ⟨Nat.lt_succ_of_lt hlt, by rw [hold i hlt, hmId]⟩
  · intro i hi
    rcases hcases i hi with hi | rfl
    · rw [hold i hi]
      exact h.orderly.nonempty i hi
    · rw [hself, hid]
      intro hnil
      have hlength := id.2
      simp [hnil, kSessionIdBytes] at hlength
  · intro i hi
    rcases hcases i hi with hi | rfl
    · rw [hlife i hi]
      exact h.lives.sound i hi
    · exact hnew.sound
  · intro i hi
    rcases hcases i hi with hi | rfl
    · rw [hlife i hi]
      exact h.lives.ends i hi
    · exact hnew.ends
  · exact fun i hi => h.lives.events i (Nat.le_of_succ_le hi)

theorem Inv.establish (hfatal : s.fatal = none) (ht : s.threads t = .exchanged x)
    (env : Env) : (s.establish t env x).Inv := by
  have hmem : t ∈ s.mConnectingThreads := h.orderly.connecting t (by rw [ht]; rfl)
  have hdrop := h.drop hfatal ht
  unfold RpcServer.establish
  dsimp only
  split_ifs
  · exact hdrop
  · split
    · next hnone =>
      have hempty := (h.orderly.trigger hnone).1
      simp [hempty] at hmem
    · exact hdrop
    · split
      · exact hdrop
      · next i s' hfind =>
        unfold findSession at hfind
        split at hfind
        · obtain ⟨⟨id, S⟩, hnew, hr⟩ := Option.map_eq_some_iff.mp hfind
          obtain ⟨rfl, rfl⟩ := Prod.mk.inj hr
          obtain ⟨hunused, hid, hin⟩ := newSession_some hnew
          exact (h.register hunused hid hin).attach hfatal ht (Nat.lt_succ_self _) x
        · obtain ⟨j, hj, hr⟩ := Option.map_eq_some_iff.mp hfind
          obtain ⟨rfl, rfl⟩ := Prod.mk.inj hr
          exact h.attach hfatal ht (h.orderly.ids _ _ hj).1 x

/-- The callback finds the session registered under its id. -/
theorem Inv.allEnded_eq (ht : s.threads t = .ending j) : s.mSessions.find? (s.sessions j).mId = some j ∧
    s.onSessionAllIncomingThreadsEnded t j =
      { s.log (.allEnded j true (s.sessions j).mIncoming.length) with
        mSessions := s.mSessions.erase (s.sessions j).mId }.setThread t .idle := by
  have hj : j < s.nextSession := h.orderly.sessions t j (by rw [ht]; rfl)
  have hstage : (s.life j).stage t = .ending := by
    simp [life, ht, Thread.stage]
  have hfind : s.mSessions.find? (s.sessions j).mId = some j :=
    beq_iff_eq.mp ((h.lives.ends j hj).pending t hstage)
  refine ⟨hfind, ?_⟩
  simp [onSessionAllIncomingThreadsEnded, hfind, h.orderly.nonempty j hj]
  rfl

section

variable (hfatal : s.fatal = none)
include hfatal

theorem Inv.allEnded (ht : s.threads t = .ending j) :
    (s.onSessionAllIncomingThreadsEnded t j).Inv := by
  have hj : j < s.nextSession := h.orderly.sessions t j (by rw [ht]; rfl)
  have hstage : (s.life j).stage t = .ending := by
    simp [life, ht, Thread.stage]
  obtain ⟨hfind, heq⟩ := h.allEnded_eq ht
  rw [heq]
  have herase : ∀ k, (s.mSessions.erase (s.sessions j).mId).find? k =
      if k = (s.sessions j).mId then none else s.mSessions.find? k := by
    intro k
    rw [OrdMap.find?_erase]
    congr
  refine ⟨⟨?_, h.orderly.trigger, sessions_update (s := s) h.orderly (by rintro i ⟨⟩), ?_,
    h.orderly.nonempty⟩, h.lives.step rfl ?_ ?_, .inl hfatal⟩
  · intro u hu
    exact mem_of_mem_erase (connecting_update h.orderly rfl u hu)
  · intro k i hi
    have hi' := herase k ▸ hi
    split_ifs at hi'
    exact h.orderly.ids k i hi'
  · intro i _
    by_cases hij : i = j
    · subst hij
      have hregistered : (s.life i).registered = true := beq_iff_eq.mpr hfind
      have hended : ({ s.log (.allEnded i true (s.sessions i).mIncoming.length) with
          mSessions := s.mSessions.erase (s.sessions i).mId } : RpcServer).life i =
          { s.life i with registered := false }.mark
            (.ended (s.life i).registered (s.life i).incoming.length) := by
        rw [hregistered]
        simp [life, log, Life.mark, Event.mark, herase]
      rw [life_setThread, hended]
      exact .inr (.finish t hstage)
    · -- another session under the same id was not registered
      have hregistered : ((s.mSessions.erase (s.sessions j).mId).find? (s.sessions i).mId ==
          some i) = (s.mSessions.find? (s.sessions i).mId == some i) := by
        rw [herase]
        split_ifs with hid
        · rw [hid, hfind]
          simp [Ne.symm hij]
        · rfl
      have hother : ({ s.log (.allEnded j true (s.sessions j).mIncoming.length) with
          mSessions := s.mSessions.erase (s.sessions j).mId } : RpcServer).life i = s.life i := by
        simp [life, log, Event.mark, Ne.symm hij, hregistered, -OrdMap.find?_erase]
      rw [life_setThread, hother, put_of_stage_eq]
      · exact .inl rfl
      · simp [life, ht, Thread.stage, Ne.symm hij]
  · intro i hi
    have hij : j ≠ i := by omega
    simp [log, setThread, Event.mark, hij]

theorem Inv.triggered (b : ℕ → Bool) :
    ({ s with sessions := fun i => { s.sessions i with mShutdownTriggered := b i } } : RpcServer).Inv :=
  h.move rfl rfl (fun _ => rfl) h.orderly.connecting h.orderly.trigger h.orderly.sessions
    (fun _ _ => .inl rfl) (fun _ _ => rfl) (.inl hfatal)

theorem Inv.shutdown : s.triggerAll.Inv := by
  have hsessions : s.triggerAll.sessions = fun i => { s.sessions i with
      mShutdownTriggered := if s.mSessions.find? (s.sessions i).mId = some i then true
        else (s.sessions i).mShutdownTriggered } := by
    funext i
    unfold triggerAll
    dsimp only
    split_ifs <;> rfl
  have htriggered := h.triggered hfatal fun i =>
    if s.mSessions.find? (s.sessions i).mId = some i then true
    else (s.sessions i).mShutdownTriggered
  rw [← hsessions] at htriggered
  exact htriggered.move rfl rfl (fun _ => rfl) h.orderly.connecting (by simp [triggerAll])
    h.orderly.sessions (fun _ _ => .inl rfl) (fun _ _ => rfl) (.inl hfatal)

theorem Inv.shutdownAndWait (i : ℕ) : (s.shutdownAndWait i).Inv := by
  have hsessions : update s.sessions i
      { s.sessions i with mShutdownTriggered := true } = fun j => { s.sessions j with
        mShutdownTriggered := if j = i then true else (s.sessions j).mShutdownTriggered } := by
    funext j
    by_cases hj : j = i
    · rw [hj, update_self, if_pos rfl]
    · rw [update_of_ne hj, if_neg hj]
  have htriggered := h.triggered hfatal fun j => if j = i then true else (s.sessions j).mShutdownTriggered
  rw [← hsessions] at htriggered
  exact htriggered.move rfl rfl (fun _ => rfl) h.orderly.connecting h.orderly.trigger h.orderly.sessions
    (fun _ _ => .inl rfl) (fun _ _ => rfl) (.inl hfatal)

theorem Inv.handle (i : ℕ) (x : Outcome) : (s.handle i x).Inv := by
  unfold RpcServer.handle
  split_ifs
  · exact h.shutdownAndWait hfatal i
  · exact h

theorem Inv.accept (hidle : s.threads t = .idle)
    (hrunning : s.mJoinThreadRunning = true) :
    ({ s.setThread t .connecting with
      mConnectingThreads := t :: s.mConnectingThreads } : RpcServer).Inv := by
  refine h.move rfl rfl (fun _ => rfl) ?_ ?_ (sessions_update h.orderly (by rintro i ⟨⟩)) ?_
    (fun _ _ => rfl) (.inl hfatal)
  · intro u hu
    by_cases hut : u = t
    · exact hut ▸ mem_cons_self
    · refine mem_cons_of_mem _ (h.orderly.connecting u ?_)
      simpa [setThread, update_of_ne hut] using hu
  · intro hnone
    have hstopped := (h.orderly.trigger hnone).2
    simp [hstopped] at hrunning
  · intro i _
    have hlife : (s.setThread t .connecting).life i = s.life i :=
      life_setThread_of_stage_eq (by rw [hidle]; rfl)
    exact .inl hlife

theorem Inv.exchange (ht : s.threads t = .connecting)
    (y : Exchange) : (s.setThread t (.exchanged y)).Inv := by
  refine h.move rfl rfl (fun _ => rfl) ?_ h.orderly.trigger
    (sessions_update h.orderly (by rintro i ⟨⟩)) ?_ (fun _ _ => rfl) (.inl hfatal)
  · intro u hu
    by_cases hut : u = t
    · exact h.orderly.connecting u (by rw [hut, ht]; rfl)
    · exact h.orderly.connecting u (by simpa [setThread, update_of_ne hut] using hu)
  · intro i _
    exact .inl (life_setThread_of_stage_eq (by rw [ht]; rfl))

/-- The thread of a connection moves on after a read. -/
theorem Inv.handled {p : Phase} {b b' : Bool} (x : Outcome) (ht : s.threads t = .serving p j connection)
    (hp : (Thread.serving p j connection).stage j = .joined connection b)
    (hb : b' = true → connection ≠ none ∨ b = true) :
    ((s.handle j x).setThread t (.serving (.joining b') j connection)).Inv :=
  (h.handle hfatal j x).progress (by rwa [handle_fatal]) (by rwa [handle_threads]) hp (if_pos rfl) hb

theorem Inv.beginJoin (ht : s.threads t = .serving .assigned j connection) (init : Outcome) :
    (s.beginJoin t j connection init).Inv := by
  cases connection with
  | none => exact h.handled hfatal .failed ht (if_pos rfl) nofun
  | some c =>
    have hjoin : s.beginJoin t j (some c) init =
        (s.handle j init).setThread t (.serving (.joining (init = .ok)) j (some c)) := by
      simp [RpcServer.beginJoin]
    rw [hjoin]
    exact h.handled hfatal init ht (if_pos rfl) fun _ => .inl nofun

end

theorem Inv.step {a : Action} (hstep : s.step a = some s') : s'.Inv := by
  obtain ⟨hfatal, -, hmoves⟩ := moves_of_step hstep
  cases hmoves with
  | nullTrigger _ ht hnone =>
    have hmem := h.orderly.connecting _ (by rw [ht]; rfl)
    simp [(h.orderly.trigger hnone).1] at hmem
  | exchange _ ht => exact h.exchange hfatal ht _
  | establish env ht => exact h.establish hfatal ht env
  | connectionInit written ht => exact h.finishAdding hfatal ht written
  | assign ht => exact h.assign hfatal ht
  | beginJoin init ht => exact h.beginJoin hfatal ht init
  | command status ht => exact h.handled hfatal status ht (if_pos rfl) fun _ => .inr rfl
  | leaveThreads ht => exact h.leaveThreads hfatal ht
  | depart _ ht => exact h.depart hfatal ht
  | remove listener ht => exact h.removeConnection hfatal ht listener
  | callback ht => exact h.allEnded hfatal ht
  | join =>
    exact h.move rfl rfl (fun _ => rfl) h.orderly.connecting (by simp) h.orderly.sessions
      (fun _ _ => .inl rfl) (fun _ _ => rfl) (.inl hfatal)
  | accept hidle hrunning => exact h.accept hfatal hidle hrunning
  | joinEnds =>
    exact h.move rfl rfl (fun _ => rfl) h.orderly.connecting
      (fun hnone => ⟨(h.orderly.trigger hnone).1, rfl⟩) h.orderly.sessions (fun _ _ => .inl rfl)
      (fun _ _ => rfl) (.inl hfatal)
  | shutdown => exact h.shutdown hfatal
  | shutdownEnds hstopped hempty =>
    exact h.move rfl rfl (fun _ => rfl) h.orderly.connecting (fun _ => ⟨hempty, hstopped⟩)
      h.orderly.sessions (fun _ _ => .inl rfl) (fun _ _ => rfl) (.inl hfatal)
  | shutdownSession i => exact h.shutdownAndWait hfatal i
  | references =>
    exact h.move rfl rfl (fun _ => rfl) h.orderly.connecting h.orderly.trigger h.orderly.sessions
      (fun _ _ => .inl rfl) (fun _ _ => rfl) (.inl hfatal)

end

end Steps

def init (maxThreads : ℕ) (protocolVersion : Option UInt32) : RpcServer :=
  { mMaxThreads := maxThreads, mProtocolVersion := protocolVersion }

theorem inv_init (maxThreads : ℕ) (protocolVersion : Option UInt32) : (init maxThreads protocolVersion).Inv := by
  refine ⟨⟨?_, ?_, ?_, ?_, ?_⟩, ⟨?_, ?_, ?_⟩, .inl rfl⟩
  · intro t ht
    cases ht
  · exact fun _ => ⟨rfl, rfl⟩
  · intro t i ht
    cases ht
  · intro id i hi
    cases hi
  · exact fun i hi => absurd hi (Nat.not_lt_zero i)
  · exact fun i hi => absurd hi (Nat.not_lt_zero i)
  · exact fun i hi => absurd hi (Nat.not_lt_zero i)
  · exact fun i _ => rfl

theorem inv_of_reachable {maxThreads : ℕ} {protocolVersion : Option UInt32} {s : RpcServer}
    {C : RpcServer → Action → Prop} (h : Reachable step C (init maxThreads protocolVersion) s) :
    s.Inv :=
  h.invariant Inv (inv_init maxThreads protocolVersion) fun _ _ _ hs _ hstep => hs.step hstep

end Binder.RpcServer
