import Binder.Lib.OrdMap
import Binder.Lib.Transition
import Binder.RpcSession.Connections
import Mathlib.Data.List.Lex
import Mathlib.Order.Fin.Basic

/-! `RpcServer` and the threads of its connections. A step is what a thread does in one section under
`mLock` or under a session's `mMutex`, or the outcome of an exchange with the client in between. -/
namespace Binder

open Lib

namespace RpcServer

def kSessionIdBytes : ℕ := 32

def RPC_CONNECTION_OPTION_INCOMING : UInt8 := 1

def RPC_WIRE_PROTOCOL_VERSION_NEXT : UInt32 := 1
def RPC_WIRE_PROTOCOL_VERSION_EXPERIMENTAL : UInt32 := 0xF0000000
def RPC_WIRE_PROTOCOL_VERSION : UInt32 := 0

abbrev SessionId := { id : List (Fin 256) // id.length = kSessionIdBytes }

/-- The reserved bytes are not read. -/
structure RpcConnectionHeader where
  version : UInt32
  options : UInt8
  sessionIdSize : UInt16

/-- What a client does during the exchange before its connection is assigned: `none` and `false`
where reading from it or writing to it fails. -/
structure Client where
  newTransport : Bool
  header : Option RpcConnectionHeader
  sessionId : Option SessionId
  response : Bool

/-- What `establishConnection` knows when it takes the lock; the id is `none` if it is empty. -/
structure Exchange where
  status : Bool := false
  sessionId : Option SessionId := none
  incoming : Bool := false
  protocolVersion : UInt32 := 0

inductive Phase
  /-- `preJoinSetup` after the assignment -/
  | assigned
  /-- the loop of `join`, or its end -/
  | joining (running : Bool)
  /-- `join` after the thread has left `mThreads` -/
  | detached
  deriving DecidableEq

inductive Thread
  | idle
  | connecting
  | exchanged (x : Exchange)
  /-- inside `addOutgoingConnection`, under `mLock` -/
  | adding (session c : ℕ)
  /-- after `preJoinThreadOwnership` -/
  | owned (session : ℕ)
  | serving (phase : Phase) (session : ℕ) (connection : Option ℕ)
  /-- before the callback, with no lock held -/
  | ending (session : ℕ)

inductive Fatal
  | nullTrigger
  | notOwned
  | outgoingFailed
  | noConnection
  | noThread
  | notInList
  | emptyId
  | unknownSession
  | idMismatch
  deriving DecidableEq

/-- What a read from a connection comes to: a status other than `OK` may come after the session was
shut down because the connection failed. -/
inductive Outcome
  | ok
  | failed
  | lost
  deriving DecidableEq

/-- The node table of a session: whether a strong reference is left to each of its binders, until `RpcState::clear`
empties the table for good. -/
inductive Nodes
  | owned
  | unowned
  | cleared
  deriving DecidableEq

inductive Event
  | accepted (session c : ℕ)
  | removed (session c : ℕ)
  /-- a call of `onSessionAllIncomingThreadsEnded`: whether the session was registered under its id,
  and how many incoming connections it had -/
  | allEnded (session : ℕ) (registered : Bool) (left : ℕ)
  deriving DecidableEq

end RpcServer

open RpcServer in
/-- Sessions are known by the number they were made with. `mLock` is held across steps only by
`addOutgoingConnection`. -/
structure RpcServer where
  mMaxThreads : ℕ
  mProtocolVersion : Option UInt32
  mLock : Option ℕ := none
  mJoinThreadRunning : Bool := false
  /-- whether it is triggered, if there is one -/
  mShutdownTrigger : Option Bool := none
  mConnectingThreads : List ℕ := []
  mSessions : OrdMap (List (Fin 256)) ℕ := .empty
  sessions : ℕ → RpcSession := fun _ => {}
  nodes : ℕ → Nodes := fun _ => .owned
  nextSession : ℕ := 0
  threads : ℕ → Thread := fun _ => .idle
  fatal : Option Fatal := none
  /-- the check of `RpcState::clear` -/
  clearFatal : Bool := false
  history : List Event := []

namespace RpcServer

def setThread (s : RpcServer) (tid : ℕ) (t : Thread) : RpcServer :=
  { s with threads := Function.update s.threads tid t }

def setSession (s : RpcServer) (i : ℕ) (session : RpcSession) : RpcServer :=
  { s with sessions := Function.update s.sessions i session }

def log (s : RpcServer) (e : Event) : RpcServer := { s with history := s.history ++ [e] }

def abort (s : RpcServer) (f : Fatal) : RpcServer := { s with fatal := some f }

/-- `RpcState::clear` promotes every binder of the table, once. -/
def clear (s : RpcServer) (i : ℕ) : RpcServer :=
  { s with
    nodes := Function.update s.nodes i .cleared
    clearFatal := s.clearFatal || s.nodes i = .unowned }

/-- `shutdownAndWait(false)` of a session. -/
def shutdownAndWait (s : RpcServer) (i : ℕ) : RpcServer :=
  (s.setSession i { s.sessions i with mShutdownTriggered := true }).clear i

/-- What a read of session `i` does besides its status. -/
def handle (s : RpcServer) (i : ℕ) (x : Outcome) : RpcServer := if x = .lost then s.shutdownAndWait i else s

/-- The session id that follows the header; the outer `none` is an error. -/
def readSessionId (client : Client) (header : RpcConnectionHeader) : Option (Option SessionId) :=
  if header.sessionIdSize > 0 then
    if header.sessionIdSize.toNat = kSessionIdBytes then client.sessionId.map some else none
  else some none

/-- `establishConnection` up to its lock. -/
def exchange (s : RpcServer) (client : Client) : Exchange :=
  if !client.newTransport then {}
  else match client.header with
    | none => {}
    | some header => match readSessionId client header with
      | none => {}
      | some sessionId =>
        let incoming := header.options &&& RPC_CONNECTION_OPTION_INCOMING ≠ 0
        let protocolVersion :=
          min header.version (s.mProtocolVersion.getD RPC_WIRE_PROTOCOL_VERSION)
        -- a client that asks for a new session gets a response
        ⟨sessionId.isSome || client.response, sessionId, incoming, protocolVersion⟩

/-- What the rest of the system answers when a session is made. -/
structure Env where
  urandom : ℕ → Option SessionId
  setForServer : Bool

/-- The loop that finds an unused id; the first argument counts the tries left. -/
def newSessionId (s : RpcServer) (env : Env) : ℕ → ℕ → Option SessionId
  | 0, _ => none
  | left + 1, tries => do
    let id ← env.urandom tries
    if (s.mSessions.find? id.1).isSome then s.newSessionId env left (tries + 1) else some id

def setProtocolVersion (session : RpcSession) (version : UInt32) : Option RpcSession :=
  if version ≥ RPC_WIRE_PROTOCOL_VERSION_NEXT ∧ version ≠ RPC_WIRE_PROTOCOL_VERSION_EXPERIMENTAL then
    none
  else if session.mProtocolVersion.any (version > ·) then none
  else some { session with mProtocolVersion := some version }

/-- The session made for a client, with the id under which it is registered. -/
def newSession (s : RpcServer) (env : Env) (x : Exchange) : Option (SessionId × RpcSession) :=
  if x.incoming then none
  else do
    let id ← s.newSessionId env 6 0
    let session : RpcSession := { mMaxIncomingThreads := s.mMaxThreads }
    let session ← setProtocolVersion session x.protocolVersion
    if env.setForServer then some (id, { session with mId := id.1 }) else none

def register (s : RpcServer) (id : SessionId) (session : RpcSession) : RpcServer :=
  { s.setSession s.nextSession session with
    mSessions := s.mSessions.insert id.1 s.nextSession
    nextSession := s.nextSession + 1 }

/-- The session of the connection; `none` where the connection is dropped. -/
def findSession (s : RpcServer) (env : Env) (x : Exchange) : Option (ℕ × RpcServer) :=
  match x.sessionId with
  | none => (s.newSession env x).map fun r => (s.nextSession, s.register r.1 r.2)
  | some id => (s.mSessions.find? id.1).map fun i => (i, s)

/-- The connection is handed to its session, as an outgoing or as an incoming one. -/
def attach (s : RpcServer) (tid : ℕ) (x : Exchange) (i : ℕ) : RpcServer :=
  if x.incoming then
    let r := (s.sessions i).addOutgoingConnection tid
    { (s.setSession i r.2).setThread tid (.adding i r.1) with mLock := some tid }
  else
    (s.setSession i ((s.sessions i).preJoinThreadOwnership tid)).setThread tid (.owned i)

/-- The locked part of `establishConnection`, up to the `sendConnectionInit`. -/
def establish (s : RpcServer) (tid : ℕ) (env : Env) (x : Exchange) : RpcServer :=
  if tid ∉ s.mConnectingThreads then s.abort .notOwned
  else
    let s := { s with mConnectingThreads := s.mConnectingThreads.erase tid }
    if !x.status then s.setThread tid .idle
    else match s.mShutdownTrigger with
      | none => s.abort .nullTrigger
      | some true => s.setThread tid .idle
      | some false => match s.findSession env x with
        | none => s.setThread tid .idle
        | some (i, s) => s.attach tid x i

/-- `addOutgoingConnection` from the `sendConnectionInit` on, and the check of its result, which ends the process
after a failed write also if `clear` does not. -/
def finishAdding (s : RpcServer) (tid i c : ℕ) (written : Bool) : RpcServer :=
  let status := written && !(s.sessions i).mShutdownTriggered
  let s := { s.setSession i ((s.sessions i).finishOutgoingConnection c) with mLock := none }
  if status then s.setThread tid .idle else s.abort .outgoingFailed

def assign (s : RpcServer) (tid i : ℕ) : RpcServer :=
  match (s.sessions i).assignIncomingConnectionToThisThread tid with
  | (none, _) => s.setThread tid (.serving .assigned i none)
  | (some c, session) =>
    ((s.setSession i session).setThread tid (.serving .assigned i (some c))).log (.accepted i c)

/-- The rest of `preJoinSetup`, and `join` up to its loop. -/
def beginJoin (s : RpcServer) (tid i : ℕ) (connection : Option ℕ) (init : Outcome) : RpcServer :=
  let status := if connection.isNone then .failed else init
  let s := s.handle i status
  if status = .ok ∧ connection.isNone then s.abort .noConnection
  else s.setThread tid (.serving (.joining (status = .ok)) i connection)

/-- One round of the loop of `join`. -/
def command (s : RpcServer) (tid i : ℕ) (connection : Option ℕ) (status : Outcome) : RpcServer :=
  (s.handle i status).setThread tid (.serving (.joining (status = .ok)) i connection)

/-- `join` after its loop, up to `removeIncomingConnection`. -/
def leaveThreads (s : RpcServer) (tid i : ℕ) (connection : Option ℕ) : RpcServer :=
  if tid ∉ (s.sessions i).mThreads then s.abort .noThread
  else
    let session := s.sessions i
    (s.setSession i { session with mThreads := session.mThreads.erase tid }).setThread tid
      (.serving .detached i connection)

/-- The locked part of `removeIncomingConnection`; `listener` is whether the listener still lives. -/
def removeConnection (s : RpcServer) (tid i c : ℕ) (listener : Bool) : RpcServer :=
  match (s.sessions i).removeIncomingConnection c with
  | none => s.abort .notInList
  | some session =>
    let next : Thread := if session.mIncoming = [] ∧ listener then .ending i else .idle
    ((s.setSession i session).setThread tid next).log (.removed i c)

def onSessionAllIncomingThreadsEnded (s : RpcServer) (tid i : ℕ) : RpcServer :=
  let session := s.sessions i
  let registered := s.mSessions.find? session.mId
  let s := s.log (.allEnded i (registered == some i) session.mIncoming.length)
  if session.mId = [] then s.abort .emptyId
  else match registered with
    | none => s.abort .unknownSession
    | some j =>
      if j ≠ i then s.abort .idMismatch
      else { s with mSessions := s.mSessions.erase session.mId }.setThread tid .idle

def triggerAll (s : RpcServer) : RpcServer :=
  { s with
    mShutdownTrigger := some true
    sessions := fun i =>
      if s.mSessions.find? (s.sessions i).mId = some i then
        { s.sessions i with mShutdownTriggered := true }
      else s.sessions i }

inductive Action
  /-- the owner of the server starts `join` -/
  | join
  | accept (tid : ℕ)
  | joinEnds
  /-- `shutdown` up to its wait, and from there on -/
  | shutdown
  | shutdownEnds
  /-- a session is shut down, by its owner or because one of its connections failed in another thread -/
  | shutdownSession (i : ℕ)
  /-- binders of a session lose their last strong reference, or are let go from the node table -/
  | references (i : ℕ) (owned : Bool)
  | exchange (tid : ℕ) (client : Client)
  | establish (tid : ℕ) (env : Env)
  | connectionInit (tid : ℕ) (written : Bool)
  | assign (tid : ℕ)
  | beginJoin (tid : ℕ) (init : Outcome)
  /-- `getAndExecuteCommand` in the loop of `join` -/
  | command (tid : ℕ) (status : Outcome)
  | leaveThreads (tid : ℕ)
  | remove (tid : ℕ) (listener : Bool)
  | callback (tid : ℕ)

def threadStep (s : RpcServer) : Action → Option RpcServer
  | .exchange tid client => match s.threads tid with
    | .connecting =>
      if s.mShutdownTrigger = none then some (s.abort .nullTrigger)
      else some (s.setThread tid (.exchanged (s.exchange client)))
    | _ => none
  | .establish tid env => match s.threads tid, s.mLock with
    | .exchanged x, none => some (s.establish tid env x)
    | _, _ => none
  | .connectionInit tid written => match s.threads tid with
    | .adding i c => some (s.finishAdding tid i c written)
    | _ => none
  | .assign tid => match s.threads tid with
    | .owned i => some (s.assign tid i)
    | _ => none
  | .beginJoin tid init => match s.threads tid with
    | .serving .assigned i connection => some (s.beginJoin tid i connection init)
    | _ => none
  | .command tid status => match s.threads tid with
    | .serving (.joining true) i connection => some (s.command tid i connection status)
    | _ => none
  | .leaveThreads tid => match s.threads tid with
    | .serving (.joining false) i connection => some (s.leaveThreads tid i connection)
    | _ => none
  | .remove tid listener => match s.threads tid with
    | .serving .detached _ none => some (s.setThread tid .idle)
    | .serving .detached i (some c) => some (s.removeConnection tid i c listener)
    | _ => none
  | .callback tid => match s.threads tid, s.mLock with
    | .ending i, none => some (s.onSessionAllIncomingThreadsEnded tid i)
    | _, _ => none
  | _ => none

/-- The calls of the owner of the server, and the thread that accepts connections. -/
def ownerStep (s : RpcServer) : Action → Option RpcServer
  | .join =>
    if s.mLock = none ∧ s.mShutdownTrigger = none then
      some { s with mJoinThreadRunning := true, mShutdownTrigger := some false }
    else none
  | .accept tid => match s.threads tid with
    | .idle =>
      if s.mLock = none ∧ s.mJoinThreadRunning then
        some { s.setThread tid .connecting with
          mConnectingThreads := tid :: s.mConnectingThreads }
      else none
    | _ => none
  | .joinEnds => if s.mLock = none then some { s with mJoinThreadRunning := false } else none
  | .shutdown =>
    if s.mLock = none ∧ s.mShutdownTrigger ≠ none then some s.triggerAll else none
  | .shutdownEnds =>
    if s.mLock = none ∧ s.mJoinThreadRunning = false ∧ s.mConnectingThreads = [] ∧ s.mSessions.entries = [] then
      some { s with mShutdownTrigger := none }
    else none
  | .shutdownSession i => some (s.shutdownAndWait i)
  | .references i owned =>
    if s.nodes i = .cleared then none
    else some { s with nodes := Function.update s.nodes i (if owned then .owned else .unowned) }
  | _ => none

def step (s : RpcServer) (a : Action) : Option RpcServer :=
  if s.fatal.isSome || s.clearFatal then none else (s.threadStep a).or (s.ownerStep a)

inductive Moves (s : RpcServer) : Action → RpcServer → Prop
  | nullTrigger {tid : ℕ} (client : Client) : s.threads tid = .connecting →
      s.mShutdownTrigger = none → Moves s (.exchange tid client) (s.abort .nullTrigger)
  | exchange {tid : ℕ} (client : Client) : s.threads tid = .connecting →
      s.mShutdownTrigger ≠ none →
      Moves s (.exchange tid client) (s.setThread tid (.exchanged (s.exchange client)))
  | establish {tid : ℕ} {x : Exchange} (env : Env) : s.threads tid = .exchanged x →
      Moves s (.establish tid env) (s.establish tid env x)
  | connectionInit {tid i c : ℕ} (written : Bool) : s.threads tid = .adding i c →
      Moves s (.connectionInit tid written) (s.finishAdding tid i c written)
  | assign {tid i : ℕ} : s.threads tid = .owned i → Moves s (.assign tid) (s.assign tid i)
  | beginJoin {tid i : ℕ} {connection : Option ℕ} (init : Outcome) :
      s.threads tid = .serving .assigned i connection →
      Moves s (.beginJoin tid init) (s.beginJoin tid i connection init)
  | command {tid i : ℕ} {connection : Option ℕ} (status : Outcome) :
      s.threads tid = .serving (.joining true) i connection →
      Moves s (.command tid status) (s.command tid i connection status)
  | leaveThreads {tid i : ℕ} {connection : Option ℕ} :
      s.threads tid = .serving (.joining false) i connection →
      Moves s (.leaveThreads tid) (s.leaveThreads tid i connection)
  | depart {tid i : ℕ} (listener : Bool) : s.threads tid = .serving .detached i none →
      Moves s (.remove tid listener) (s.setThread tid .idle)
  | remove {tid i c : ℕ} (listener : Bool) : s.threads tid = .serving .detached i (some c) →
      Moves s (.remove tid listener) (s.removeConnection tid i c listener)
  | callback {tid i : ℕ} : s.threads tid = .ending i →
      Moves s (.callback tid) (s.onSessionAllIncomingThreadsEnded tid i)
  | join : Moves s .join { s with mJoinThreadRunning := true, mShutdownTrigger := some false }
  | accept {tid : ℕ} : s.threads tid = .idle → s.mJoinThreadRunning = true →
      Moves s (.accept tid) { s.setThread tid .connecting with
        mConnectingThreads := tid :: s.mConnectingThreads }
  | joinEnds : Moves s .joinEnds { s with mJoinThreadRunning := false }
  | shutdown : Moves s .shutdown s.triggerAll
  | shutdownEnds : s.mJoinThreadRunning = false → s.mConnectingThreads = [] →
      Moves s .shutdownEnds { s with mShutdownTrigger := none }
  | shutdownSession (i : ℕ) : Moves s (.shutdownSession i) (s.shutdownAndWait i)
  | references (i : ℕ) (owned : Bool) : Moves s (.references i owned)
      { s with nodes := Function.update s.nodes i (if owned then .owned else .unowned) }

variable {s s' : RpcServer} {a : Action}

section

variable (s : RpcServer) (i : ℕ) (x : Outcome)

@[simp] theorem handle_fatal : (s.handle i x).fatal = s.fatal := by
  unfold handle
  split_ifs <;> rfl

@[simp] theorem handle_threads : (s.handle i x).threads = s.threads := by
  unfold handle
  split_ifs <;> rfl

end

theorem moves_of_threadStep (h : s.threadStep a = some s') : Moves s a s' := by
  cases a with
  | exchange _ client =>
    simp only [threadStep] at h
    split at h
    · next ht =>
      split_ifs at h with htrigger
      · exact Option.some.inj h ▸ .nullTrigger client ht htrigger
      · exact Option.some.inj h ▸ .exchange client ht htrigger
    · cases h
  | establish _ env =>
    simp only [threadStep] at h
    split at h
    · next x ht _ => exact Option.some.inj h ▸ .establish env ht
    · cases h
  | connectionInit _ written =>
    simp only [threadStep] at h
    split at h
    · next i c ht => exact Option.some.inj h ▸ .connectionInit written ht
    · cases h
  | assign =>
    simp only [threadStep] at h
    split at h
    · next i ht => exact Option.some.inj h ▸ .assign ht
    · cases h
  | beginJoin _ init =>
    simp only [threadStep] at h
    split at h
    · next i connection ht => exact Option.some.inj h ▸ .beginJoin init ht
    · cases h
  | command _ status =>
    simp only [threadStep] at h
    split at h
    · next i connection ht => exact Option.some.inj h ▸ .command status ht
    · cases h
  | leaveThreads =>
    simp only [threadStep] at h
    split at h
    · next i connection ht => exact Option.some.inj h ▸ .leaveThreads ht
    · cases h
  | remove _ listener =>
    simp only [threadStep] at h
    split at h
    · next i ht => exact Option.some.inj h ▸ .depart listener ht
    · next i c ht => exact Option.some.inj h ▸ .remove listener ht
    · cases h
  | callback =>
    simp only [threadStep] at h
    split at h
    · next i ht _ => exact Option.some.inj h ▸ .callback ht
    · cases h
  | _ => cases h

theorem moves_of_ownerStep (h : s.ownerStep a = some s') : Moves s a s' := by
  cases a with
  | join =>
    simp only [ownerStep] at h
    split_ifs at h
    exact Option.some.inj h ▸ .join
  | accept =>
    simp only [ownerStep] at h
    split at h
    · next ht =>
      split_ifs at h with hrunning
      exact Option.some.inj h ▸ .accept ht hrunning.2
    · cases h
  | joinEnds =>
    simp only [ownerStep] at h
    split_ifs at h
    exact Option.some.inj h ▸ .joinEnds
  | shutdown =>
    simp only [ownerStep] at h
    split_ifs at h
    exact Option.some.inj h ▸ .shutdown
  | shutdownEnds =>
    simp only [ownerStep] at h
    split_ifs at h with hdone
    exact Option.some.inj h ▸ .shutdownEnds hdone.2.1 hdone.2.2.1
  | shutdownSession i => exact Option.some.inj h ▸ .shutdownSession i
  | references i owned =>
    obtain ⟨-, h⟩ := Option.ite_none_left_eq_some.mp h
    exact Option.some.inj h ▸ .references i owned
  | _ => cases h

theorem moves_of_step (h : s.step a = some s') :
    s.fatal = none ∧ s.clearFatal = false ∧ Moves s a s' := by
  unfold step at h
  split_ifs at h with hfatal
  simp only [Bool.or_eq_true, not_or, Bool.not_eq_true, Option.isSome_eq_false_iff,
    Option.isNone_iff_eq_none] at hfatal
  refine ⟨hfatal.1, hfatal.2, ?_⟩
  rcases Option.or_eq_some_iff.mp h with hthread | ⟨-, howner⟩
  · exact moves_of_threadStep hthread
  · exact moves_of_ownerStep howner

end RpcServer

end Binder
