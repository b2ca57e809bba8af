import Mathlib.Data.List.Nodup

/-! The connections of an `RpcSession`. Every function here is one section under the session's
`mMutex`; connection objects are known by the number they were made with, threads by their id. -/
namespace Binder

structure RpcConnection where
  exclusiveTid : Option ℕ := none
  allowNested : Bool := false
  deriving DecidableEq

/-- The fields of `mConnections` stand in the session itself; `connection` and `fresh` are the
connection objects made so far. -/
structure RpcSession where
  mId : List (Fin 256) := []
  mShutdownTriggered : Bool := false
  mMaxIncomingThreads : ℕ := 0
  mProtocolVersion : Option UInt32 := none
  connection : ℕ → RpcConnection := fun _ => {}
  fresh : ℕ := 0
  mWaitingThreads : ℕ := 0
  mOutgoingOffset : ℕ := 0
  mOutgoing : List ℕ := []
  mMaxIncoming : ℕ := 0
  mIncoming : List ℕ := []
  mThreads : List ℕ := []

inductive ConnectionUse
  | client
  | clientAsync
  | clientRefcount
  deriving DecidableEq

/-- `mSession` is the session whose function is called. -/
structure ExclusiveConnection where
  mConnection : Option ℕ := none
  mReentrant : Bool := false
  deriving DecidableEq

namespace RpcSession

def setConnection (s : RpcSession) (c : ℕ) (v : RpcConnection) : RpcSession :=
  { s with connection := Function.update s.connection c v }

def setExclusiveTid (s : RpcSession) (c : ℕ) (tid : Option ℕ) : RpcSession :=
  s.setConnection c { s.connection c with exclusiveTid := tid }

def setAllowNested (s : RpcSession) (c : ℕ) (b : Bool) : RpcSession :=
  s.setConnection c { s.connection c with allowNested := b }

/-- `sp<RpcConnection>::make()` with the thread that is to use it. -/
def make (s : RpcSession) (tid : ℕ) : RpcSession :=
  { s.setConnection s.fresh { exclusiveTid := some tid } with fresh := s.fresh + 1 }

/-- `addOutgoingConnection` up to the `sendConnectionInit`. -/
def addOutgoingConnection (s : RpcSession) (tid : ℕ) : ℕ × RpcSession :=
  (s.fresh, { s.make tid with mOutgoing := s.mOutgoing ++ [s.fresh] })

/-- `addOutgoingConnection` after the `sendConnectionInit`. -/
def finishOutgoingConnection (s : RpcSession) (c : ℕ) : RpcSession :=
  s.setExclusiveTid c none

def preJoinThreadOwnership (s : RpcSession) (tid : ℕ) : RpcSession :=
  { s with mThreads := s.mThreads.insert tid }

def assignIncomingConnectionToThisThread (s : RpcSession) (tid : ℕ) : Option ℕ × RpcSession :=
  if s.mIncoming.length ≥ s.mMaxIncomingThreads then (none, s)
  -- some have shut down, so no more are accepted
  else if s.mIncoming.length < s.mMaxIncoming then (none, s)
  else
    let mIncoming := s.mIncoming ++ [s.fresh]
    (some s.fresh, { s.make tid with mIncoming := mIncoming, mMaxIncoming := mIncoming.length })

/-- A connection is accepted only while none has been removed. -/
theorem assignIncoming_some {s s' : RpcSession} {tid c : ℕ}
    (h : s.assignIncomingConnectionToThisThread tid = (some c, s')) :
    c = s.fresh ∧ s.mIncoming.length < s.mMaxIncomingThreads ∧ s.mMaxIncoming ≤ s.mIncoming.length ∧
      s' = { s.make tid with
        mIncoming := s.mIncoming ++ [s.fresh], mMaxIncoming := s.mIncoming.length + 1 } := by
  unfold assignIncomingConnectionToThisThread at h
  by_cases hfull : s.mIncoming.length ≥ s.mMaxIncomingThreads
  · rw [if_pos hfull] at h
    cases h
  · by_cases hended : s.mIncoming.length < s.mMaxIncoming
    · rw [if_neg hfull, if_pos hended] at h
      cases h
    · rw [if_neg hfull, if_neg hended] at h
      obtain ⟨hc, hs'⟩ := Prod.mk.inj h
      refine ⟨(Option.some.inj hc).symm, Nat.lt_of_not_ge hfull, Nat.le_of_not_lt hended, ?_⟩
      rw [← hs', List.length_append, List.length_singleton]

/-- The locked part of `removeIncomingConnection`; `none` if the connection is not in the list. -/
def removeIncomingConnection (s : RpcSession) (c : ℕ) : Option RpcSession :=
  if c ∈ s.mIncoming then some { s with mIncoming := s.mIncoming.erase c } else none

/-- The loop of `findConnection` over the sockets in the order it visits them; `available` is given
if the caller asks for one. The results are `exclusive` and `available`. -/
def findLoop (s : RpcSession) (tid : ℕ) (wantAvailable : Bool) : List ℕ → Option ℕ → Option ℕ × Option ℕ
  | [], available => (none, available)
  | c :: cs, available =>
    if wantAvailable && available.isNone && (s.connection c).exclusiveTid == none then
      s.findLoop tid wantAvailable cs (some c)
    else if (s.connection c).exclusiveTid = some tid then (some c, available)
    else s.findLoop tid wantAvailable cs available

/-- `none` is a fatal error. -/
def findConnection (s : RpcSession) (tid : ℕ) (wantAvailable : Bool) (sockets : List ℕ)
    (socketsIndexHint : ℕ) : Option (Option ℕ × Option ℕ) :=
  if sockets.length > 0 ∧ socketsIndexHint ≥ sockets.length then none
  else
    let visited := (List.range sockets.length).filterMap fun i =>
      sockets[(i + socketsIndexHint) % sockets.length]?
    some (s.findLoop tid wantAvailable visited none)

/-- `if (use == CLIENT_ASYNC && …) { mOutgoingOffset = … }` -/
def bumpOffset (s : RpcSession) (use : ConnectionUse) (exclusive available : Option ℕ) : RpcSession :=
  if use = .clientAsync ∧ (exclusive.isSome ∨ available.isSome) then
    { s with mOutgoingOffset := (s.mOutgoingOffset + 1) % s.mOutgoing.length }
  else s

/-- The connection preferred over `available`: one that the thread uses already. -/
def preferIncoming (s : RpcSession) (use : ConnectionUse)
    (exclusive available exclusiveIncoming : Option ℕ) : Option ℕ :=
  match exclusiveIncoming with
  | none => exclusive
  | some c =>
    if (s.connection c).allowNested then some c
    else if use = .clientRefcount ∧ available = none then some c
    else exclusive

/-- `// USE SERVING SOCKET`, if the use allows it. -/
def exclusiveIncoming (s : RpcSession) (tid : ℕ) (use : ConnectionUse) : Option (Option ℕ) :=
  if use ≠ .clientAsync then (s.findConnection tid false s.mIncoming 0).map Prod.fst
  else some none

inductive FindResult
  | found (connection : ExclusiveConnection)
  | wouldBlock
  | wait

/-- What an iteration of the loop of `find` ends with. -/
def takeConnection (s : RpcSession) (tid : ℕ) (exclusive available : Option ℕ) : FindResult × RpcSession :=
  match exclusive, available with
  | some c, _ => (.found ⟨some c, true⟩, s)
  | none, some c => (.found ⟨some c, false⟩, s.setExclusiveTid c (some tid))
  | none, none => if s.mOutgoing.length = 0 then (.wouldBlock, s) else (.wait, s)

/-- An iteration of the loop of `ExclusiveConnection::find`, between two waits. -/
def tryFind (s : RpcSession) (tid : ℕ) (use : ConnectionUse) : Option (FindResult × RpcSession) := do
  let outgoing ← s.findConnection tid true s.mOutgoing s.mOutgoingOffset
  let s := s.bumpOffset use outgoing.1 outgoing.2
  let incoming ← s.exclusiveIncoming tid use
  let exclusive := s.preferIncoming use outgoing.1 outgoing.2 incoming
  some (s.takeConnection tid exclusive outgoing.2)

def release (s : RpcSession) (connection : ExclusiveConnection) : RpcSession :=
  match connection with
  | ⟨some c, false⟩ => s.setExclusiveTid c none
  | _ => s

end RpcSession

end Binder
