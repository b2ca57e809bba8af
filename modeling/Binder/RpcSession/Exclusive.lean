import Binder.Lib.Reentrant
import Binder.Lib.Transition
import Binder.RpcSession.Connections

/-! Threads that use the connections of one session: what they hold is a stack of frames, and they
release it in stack order. -/
namespace Binder.RpcSession

open Lib List Function

inductive Frame
  | adding (c : ℕ)
  | serving (c : ℕ)
  | handle (connection : ExclusiveConnection)
  /-- a command that came on the connection, with the `origAllowNested` to put back -/
  | executing (c : ℕ) (origAllowNested : Bool)
  deriving DecidableEq

def Frame.uses : Frame → Option ℕ
  | .adding c => some c
  | .serving c => some c
  | .handle connection => connection.mConnection
  | .executing _ _ => none

/-- Frames that use a connection because a frame below them does. -/
def Frame.nested : Frame → Bool
  | .handle connection => connection.mReentrant
  | _ => false

/-- `waiting` is the use for which a thread waits inside `find`. -/
structure System where
  session : RpcSession
  stack : ℕ → List Frame := fun _ => []
  waiting : ℕ → Option ConnectionUse := fun _ => none

namespace System

inductive Op
  | addOutgoing
  | assignIncoming
  | find (use : ConnectionUse)
  /-- a notification or a spurious wakeup -/
  | wake
  /-- a command that came on a connection the thread uses -/
  | execute (c : ℕ) (oneway : Bool)
  /-- the end of whatever the thread is in the middle of -/
  | finish

structure Action where
  tid : ℕ
  op : Op

def push (s : System) (tid : ℕ) (f : Frame) (session : RpcSession) : System :=
  { s with session, stack := update s.stack tid (f :: s.stack tid) }

def pop (s : System) (tid : ℕ) (session : RpcSession) : System :=
  { s with session, stack := update s.stack tid (s.stack tid).tail }

def setWaiting (s : System) (tid : ℕ) (use : Option ConnectionUse) : System :=
  { s with waiting := update s.waiting tid use }

def addWaiting (s : System) : System :=
  { s with session := { s.session with mWaitingThreads := s.session.mWaitingThreads + 1 } }

/-- The rest of `find` after an iteration of its loop. -/
def resume (s : System) (tid : ℕ) (use : ConnectionUse) : FindResult × RpcSession → System
  | (.found connection, session) =>
    (s.setWaiting tid none).push tid (.handle connection)
      { session with mWaitingThreads := session.mWaitingThreads - 1 }
  -- `mWaitingThreads` is not decremented on this path
  | (.wouldBlock, session) => (s.setWaiting tid none).push tid (.handle {}) session
  | (.wait, session) => { s.setWaiting tid (some use) with session }

def finish (s : System) (tid : ℕ) : Frame → Option System
  | .adding c => some (s.pop tid (s.session.finishOutgoingConnection c))
  | .serving c => (s.session.removeIncomingConnection c).map (s.pop tid)
  | .handle connection => some (s.pop tid (s.session.release connection))
  | .executing c orig => some (s.pop tid (s.session.setAllowNested c orig))

/-- A thread that waits inside `find` can only wake up. -/
def step (s : System) (a : Action) : Option System :=
  match a.op, s.waiting a.tid with
  | .wake, some use => (s.session.tryFind a.tid use).map (s.resume a.tid use)
  | .addOutgoing, none =>
    let r := s.session.addOutgoingConnection a.tid
    some (s.push a.tid (.adding r.1) r.2)
  | .assignIncoming, none =>
    match s.session.assignIncomingConnectionToThisThread a.tid with
    | (some c, session) => some (s.push a.tid (.serving c) session)
    | (none, _) => some s
  | .find use, none =>
    let s := s.addWaiting
    (s.session.tryFind a.tid use).map (s.resume a.tid use)
  | .execute c oneway, none =>
    if ∃ f ∈ s.stack a.tid, f.uses = some c then
      some (s.push a.tid (.executing c (s.session.connection c).allowNested) (s.session.setAllowNested c (!oneway)))
    else none
  | .finish, none => (s.stack a.tid).head?.bind (s.finish a.tid)
  | _, _ => none

end System

/-- How frames use connections. -/
def holding : Holding Frame ℕ := ⟨Frame.uses, Frame.nested⟩

def Live (s : RpcSession) (c : ℕ) : Prop := c ∈ s.mOutgoing ∨ c ∈ s.mIncoming
deriving Decidable

/-- The thread that may use a connection of the session. -/
def owner (s : RpcSession) (c : ℕ) : Option ℕ :=
  if s.Live c then (s.connection c).exclusiveTid else none

structure WellFormed (s : RpcSession) : Prop where
  lt_fresh : ∀ c, s.Live c → c < s.fresh
  disjoint : ∀ c ∈ s.mIncoming, c ∉ s.mOutgoing
  nodup : s.mIncoming.Nodup
  offset : s.mOutgoingOffset = 0 ∨ s.mOutgoingOffset < s.mOutgoing.length

/-- Connections are opened by their own kind of frame. -/
def Frame.Opens (s : RpcSession) : Frame → Prop
  | .adding c => c ∈ s.mOutgoing
  | .serving c => c ∉ s.mOutgoing
  | .handle ⟨some c, false⟩ => c ∈ s.mOutgoing
  | _ => True

theorem Frame.Opens.congr {s s' : RpcSession} {f : Frame} (h : f.Opens s)
    (hout : s'.mOutgoing = s.mOutgoing) : f.Opens s' := by
  unfold Frame.Opens at h ⊢
  rw [hout]
  exact h

section Owner

variable {s s' : RpcSession} {c tid : ℕ}

theorem WellFormed.not_live_fresh (h : s.WellFormed) : ¬ s.Live s.fresh :=
  fun hlive => Nat.lt_irrefl _ (h.lt_fresh _ hlive)

theorem owner_of_live (h : s.Live c) : s.owner c = (s.connection c).exclusiveTid := if_pos h

theorem owner_of_not_live (h : ¬ s.Live c) : s.owner c = none := if_neg h

theorem live_of_owner (h : s.owner c = some tid) : s.Live c := by
  by_contra hlive
  simp [owner_of_not_live hlive] at h

theorem owner_congr (hlive : s'.Live c ↔ s.Live c)
    (htid : (s'.connection c).exclusiveTid = (s.connection c).exclusiveTid) :
    s'.owner c = s.owner c := by
  simp only [owner, hlive, htid]

theorem owner_setExclusiveTid (h : s.Live c) (tid : Option ℕ) :
    (s.setExclusiveTid c tid).owner = update s.owner c tid := by
  funext d
  by_cases hd : d = c
  · subst hd
    rw [update_self, owner_of_live (s := s.setExclusiveTid d tid) h]
    simp [setExclusiveTid, setConnection]
  · rw [update_of_ne hd]
    refine owner_congr Iff.rfl ?_
    simp [setExclusiveTid, setConnection, hd]

theorem owner_setAllowNested (s : RpcSession) (c : ℕ) (b : Bool) : (s.setAllowNested c b).owner = s.owner := by
  funext d
  refine owner_congr Iff.rfl ?_
  by_cases hd : d = c
  · subst hd
    simp [setAllowNested, setConnection]
  · simp [setAllowNested, setConnection, hd]

theorem owner_make (hlive : ∀ c, s'.Live c ↔ s.Live c ∨ c = s.fresh)
    (hconn : s'.connection = (s.make tid).connection) :
    s'.owner = update s.owner s.fresh (some tid) := by
  funext d
  by_cases hd : d = s.fresh
  · subst hd
    rw [update_self, owner_of_live ((hlive _).mpr (.inr rfl)), hconn]
    simp [make, setConnection]
  · rw [update_of_ne hd]
    apply owner_congr
    · simp [hlive, hd]
    · simp [hconn, make, setConnection, hd]

theorem owner_remove (h : s.WellFormed) (hc : c ∈ s.mIncoming) :
    ({ s with mIncoming := s.mIncoming.erase c } : RpcSession).owner = update s.owner c none := by
  funext d
  by_cases hd : d = c
  · subst hd
    rw [update_self, owner_of_not_live]
    rintro (hout | hin)
    · exact h.disjoint d hc hout
    · exact h.nodup.not_mem_erase hin
  · rw [update_of_ne hd]
    apply owner_congr
    · simp [Live, mem_erase_of_ne hd]
    · rfl

end Owner

variable {r : FindResult × RpcSession}

section Find

variable {s s' : RpcSession} {tid hint : ℕ} {w : Bool} {use : ConnectionUse} {sockets : List ℕ}

theorem findLoop_exclusive (s : RpcSession) (tid : ℕ) (w : Bool) (cs : List ℕ)
    (available : Option ℕ) : ∀ c ∈ (s.findLoop tid w cs available).1,
      c ∈ cs ∧ (s.connection c).exclusiveTid = some tid := by
  induction cs generalizing available with
  | nil =>
    intro c hc
    cases hc
  | cons d cs ih =>
    intro c hc
    unfold findLoop at hc
    split_ifs at hc with _ hexclusive
    · exact (ih _ c hc).imp_left (mem_cons_of_mem _)
    · obtain rfl := Option.mem_some.mp hc
      exact ⟨mem_cons_self, hexclusive⟩
    · exact (ih _ c hc).imp_left (mem_cons_of_mem _)

theorem findLoop_available (s : RpcSession) (tid : ℕ) (w : Bool) (cs : List ℕ)
    (available : Option ℕ) (h : ∀ c ∈ available, (s.connection c).exclusiveTid = none) :
    ∀ c ∈ (s.findLoop tid w cs available).2, (c ∈ cs ∨ c ∈ available) ∧ (s.connection c).exclusiveTid = none := by
  induction cs generalizing available with
  | nil => exact fun c hc => ⟨.inr hc, h c hc⟩
  | cons d cs ih =>
    intro c hc
    unfold findLoop at hc
    split_ifs at hc with havailable
    · have hfree : (s.connection d).exclusiveTid = none := by
        simp only [Bool.and_eq_true, beq_iff_eq] at havailable
        exact havailable.2
      have hd : ∀ e ∈ some d, (s.connection e).exclusiveTid = none := by
        intro e he
        rwa [← Option.mem_some.mp he]
      obtain ⟨hmem | hmem, hc'⟩ := ih (some d) hd c hc
      · exact ⟨.inl (mem_cons_of_mem _ hmem), hc'⟩
      · obtain rfl := Option.mem_some.mp hmem
        exact ⟨.inl mem_cons_self, hc'⟩
    · exact ⟨.inr hc, h c hc⟩
    · exact (ih available h c hc).imp_left (Or.imp_left (mem_cons_of_mem _))

/-- `exclusive` is in use by the thread, `available` by nobody. -/
theorem findConnection_sound {r : Option ℕ × Option ℕ} (h : s.findConnection tid w sockets hint = some r) :
    (∀ c ∈ r.1, c ∈ sockets ∧ (s.connection c).exclusiveTid = some tid) ∧
      ∀ c ∈ r.2, c ∈ sockets ∧ (s.connection c).exclusiveTid = none := by
  unfold findConnection at h
  split_ifs at h
  rw [← Option.some.inj h]
  have hvisited : ∀ c ∈ (List.range sockets.length).filterMap
      (fun i => sockets[(i + hint) % sockets.length]?), c ∈ sockets := by
    intro c hc
    obtain ⟨i, -, hi⟩ := mem_filterMap.mp hc
    exact mem_of_getElem? hi
  constructor
  · intro c hc
    exact (findLoop_exclusive s tid w _ none c hc).imp_left (hvisited c)
  · intro c hc
    obtain ⟨hmem, hfree⟩ := findLoop_available s tid w _ none (by simp) c hc
    exact ⟨hvisited c (hmem.resolve_right (by simp)), hfree⟩

variable {incoming exclusive available : Option ℕ}

theorem exclusiveIncoming_sound (h : s.exclusiveIncoming tid use = some incoming) :
    ∀ c ∈ incoming, c ∈ s.mIncoming ∧ (s.connection c).exclusiveTid = some tid := by
  unfold exclusiveIncoming at h
  split_ifs at h
  · obtain ⟨r, hr, rfl⟩ := Option.map_eq_some_iff.mp h
    exact (findConnection_sound hr).1
  · cases h
    simp

theorem mem_preferIncoming {c : ℕ}
    (h : c ∈ s.preferIncoming use exclusive available incoming) : c ∈ exclusive ∨ c ∈ incoming := by
  cases incoming with
  | none => exact .inl h
  | some =>
    simp only [preferIncoming] at h
    split_ifs at h
    · exact .inr h
    · exact .inr h
    · exact .inl h

structure Kept (s s' : RpcSession) : Prop where
  outgoing : s'.mOutgoing = s.mOutgoing
  incoming : s'.mIncoming = s.mIncoming
  fresh : s'.fresh = s.fresh
  offset : s'.mOutgoingOffset = s.mOutgoingOffset ∨ s'.mOutgoingOffset < s.mOutgoing.length

theorem Kept.refl (s : RpcSession) : Kept s s := ⟨rfl, rfl, rfl, .inl rfl⟩

theorem kept_setConnection (s : RpcSession) (c : ℕ) (v : RpcConnection) : Kept s (s.setConnection c v) :=
  ⟨rfl, rfl, rfl, .inl rfl⟩

theorem Kept.live (h : Kept s s') (c : ℕ) : s'.Live c ↔ s.Live c := by
  rw [Live, h.outgoing, h.incoming, Live]

theorem Kept.wellFormed (h : Kept s s') (hs : s.WellFormed) : s'.WellFormed where
  lt_fresh c hc := by
    rw [h.fresh]
    exact hs.lt_fresh c ((h.live c).mp hc)
  disjoint := by
    rw [h.incoming, h.outgoing]
    exact hs.disjoint
  nodup := by
    rw [h.incoming]
    exact hs.nodup
  offset := by
    rw [h.outgoing]
    rcases h.offset with heq | hlt
    · rw [heq]
      exact hs.offset
    · exact .inr hlt

theorem kept_bumpOffset (use : ConnectionUse) (h : ∀ c, c ∈ exclusive ∨ c ∈ available → c ∈ s.mOutgoing) :
    Kept s (s.bumpOffset use exclusive available) := by
  unfold bumpOffset
  split_ifs with hasync
  · have hsome : ∃ c, c ∈ exclusive ∨ c ∈ available := by
      simpa [Option.isSome_iff_exists, exists_or] using hasync.2
    obtain ⟨c, hc⟩ := hsome
    exact ⟨rfl, rfl, rfl, .inr (Nat.mod_lt _ (length_pos_of_mem (h c hc)))⟩
  · exact .refl s

theorem owner_bumpOffset (s : RpcSession) (use : ConnectionUse) (exclusive available : Option ℕ) :
    (s.bumpOffset use exclusive available).owner = s.owner := by
  unfold bumpOffset
  split_ifs <;> rfl

inductive Found (s : RpcSession) (tid : ℕ) : FindResult → RpcSession → Prop
  | reentrant {s' : RpcSession} {c : ℕ} : s.owner c = some tid → s'.owner = s.owner →
      Found s tid (.found ⟨some c, true⟩) s'
  | available {s' : RpcSession} {c : ℕ} : c ∈ s.mOutgoing → s.owner c = none →
      s'.owner = update s.owner c (some tid) → Found s tid (.found ⟨some c, false⟩) s'
  | wouldBlock {s' : RpcSession} : s'.owner = s.owner → Found s tid .wouldBlock s'
  | wait {s' : RpcSession} : s'.owner = s.owner → Found s tid .wait s'

theorem tryFind_found (h : s.tryFind tid use = some r) : Kept s r.2 ∧ Found s tid r.1 r.2 := by
  simp only [tryFind, Option.bind_eq_bind, Option.bind_eq_some_iff] at h
  obtain ⟨outgoing, hout, incoming, hin, hr⟩ := h
  obtain ⟨hexclusive, havailable⟩ := findConnection_sound hout
  have hmem : ∀ c, c ∈ outgoing.1 ∨ c ∈ outgoing.2 → c ∈ s.mOutgoing := fun c hc =>
    hc.elim (fun hc => (hexclusive c hc).1) fun hc => (havailable c hc).1
  have hkept := kept_bumpOffset use hmem
  have howner := owner_bumpOffset s use outgoing.1 outgoing.2
  have hincoming := exclusiveIncoming_sound hin
  generalize s.bumpOffset use outgoing.1 outgoing.2 = s₁ at *
  rw [← Option.some.inj hr]
  have hpreferred : ∀ c ∈ s₁.preferIncoming use outgoing.1 outgoing.2 incoming, s.owner c = some tid := by
    intro c hc
    rcases mem_preferIncoming hc with hmem | hmem
    · obtain ⟨hc', htid⟩ := hexclusive c hmem
      rw [owner_of_live (.inl hc'), htid]
    · obtain ⟨hc', htid⟩ := hincoming c hmem
      rw [← howner, owner_of_live (.inr hc'), htid]
  generalize s₁.preferIncoming use outgoing.1 outgoing.2 incoming = exclusive at hpreferred
  cases exclusive with
  | some c => exact ⟨hkept, .reentrant (hpreferred c rfl) howner⟩
  | none =>
    cases havail : outgoing.2 with
    | none =>
      simp only [takeConnection]
      split_ifs
      · exact ⟨hkept, .wouldBlock howner⟩
      · exact ⟨hkept, .wait howner⟩
    | some c =>
      obtain ⟨hc, hfree⟩ := havailable c havail
      have hlive : s₁.Live c := .inl (hkept.outgoing ▸ hc)
      refine ⟨⟨hkept.outgoing, hkept.incoming, hkept.fresh, hkept.offset⟩, .available hc ?_ ?_⟩
      · rw [owner_of_live (.inl hc), hfree]
      · exact (owner_setExclusiveTid hlive _).trans (by rw [howner])

theorem WellFormed.tryFind_isSome (h : s.WellFormed) (tid : ℕ) (use : ConnectionUse) :
    (s.tryFind tid use).isSome := by
  have hout : (s.findConnection tid true s.mOutgoing s.mOutgoingOffset).isSome := by
    have hoffset := h.offset
    rw [findConnection, if_neg (by omega)]
    rfl
  have hin : ∀ s' : RpcSession, (s'.exclusiveIncoming tid use).isSome := by
    intro s'
    unfold exclusiveIncoming findConnection
    split_ifs with _ hhint
    · omega
    · rfl
    · rfl
  obtain ⟨r, hr⟩ := Option.isSome_iff_exists.mp hout
  obtain ⟨incoming, hincoming⟩ := Option.isSome_iff_exists.mp (hin (s.bumpOffset use r.1 r.2))
  simp [tryFind, hr, hincoming]

end Find

namespace System

/-- The frames of the threads agree with the owners of the connections. -/
structure Exclusive (s : System) : Prop where
  held : holding.Held s.session.owner s.stack
  wellFormed : s.session.WellFormed
  opens : ∀ t, ∀ f ∈ s.stack t, f.Opens s.session

section Steps

variable {s s' : System} {t c : ℕ} {f : Frame} {fs : List Frame} {S : RpcSession}

theorem opens_update (h : ∀ u, ∀ g ∈ s.stack u, g.Opens S) (hfs : ∀ g ∈ fs, g.Opens S) (u : ℕ) :
    ∀ g ∈ update s.stack t fs u, g.Opens S := by
  by_cases hu : u = t
  · rwa [hu, update_self]
  · rw [update_of_ne hu]
    exact h u

section

variable (h : s.Exclusive)
include h

theorem Exclusive.live (hf : f ∈ s.stack t) (hc : f.uses = some c) : s.session.Live c :=
  live_of_owner ((h.held.uses c t).mp ⟨f, hf, hc⟩)

/-- The session changes without a change to its connections or their owners. -/
theorem Exclusive.quiet (hkept : Kept s.session S)
    (howner : S.owner = s.session.owner) (hsession : s'.session = S) (hstack : s'.stack = s.stack) :
    s'.Exclusive := by
  subst hsession
  refine ⟨?_, hkept.wellFormed h.wellFormed, ?_⟩
  · rw [howner, hstack]
    exact h.held
  · rw [hstack]
    exact fun t f hf => (h.opens t f hf).congr hkept.outgoing

theorem Exclusive.reenter (hkept : Kept s.session S)
    (howner : S.owner = s.session.owner) (hopens : f.Opens s.session)
    (huses : ∀ c, f.uses = some c → s.session.owner c = some t ∧ f.nested = true) :
    (s.push t f S).Exclusive := by
  have hold : ∀ u, ∀ g ∈ s.stack u, g.Opens S := fun u g hg =>
    (h.opens u g hg).congr hkept.outgoing
  refine ⟨?_, hkept.wellFormed h.wellFormed, opens_update hold ?_⟩
  · rw [push, howner]
    exact h.held.reenter huses
  · exact forall_mem_cons.mpr ⟨hopens.congr hkept.outgoing, hold t⟩

theorem Exclusive.enter (hS : S.WellFormed) (hc : s.session.owner c = none)
    (howner : S.owner = update s.session.owner c (some t))
    (hold : ∀ u, ∀ g ∈ s.stack u, g.Opens S) (hopens : f.Opens S) (huses : f.uses = some c)
    (hnested : f.nested = false) : (s.push t f S).Exclusive := by
  refine ⟨?_, hS, opens_update hold (forall_mem_cons.mpr ⟨hopens, hold t⟩)⟩
  rw [push, howner]
  exact h.held.enter hc huses hnested

theorem Exclusive.pop (htop : s.stack t = f :: fs) (hkept : Kept s.session S)
    (howner : S.owner = s.session.owner) (huses : ∀ c, f.uses = some c → f.nested = true) :
    (s.pop t S).Exclusive := by
  have hold : ∀ u, ∀ g ∈ s.stack u, g.Opens S := fun u g hg =>
    (h.opens u g hg).congr hkept.outgoing
  refine ⟨?_, hkept.wellFormed h.wellFormed, opens_update hold ?_⟩
  · rw [System.pop, howner, htop, tail_cons]
    exact h.held.pop htop huses
  · exact fun g hg => hold t g (mem_of_mem_tail hg)

theorem Exclusive.leave (htop : s.stack t = f :: fs) (hS : S.WellFormed) (hout : S.mOutgoing = s.session.mOutgoing)
    (howner : S.owner = update s.session.owner c none) (huses : f.uses = some c)
    (hnested : f.nested = false) : (s.pop t S).Exclusive := by
  have hold : ∀ u, ∀ g ∈ s.stack u, g.Opens S := fun u g hg => (h.opens u g hg).congr hout
  refine ⟨?_, hS, opens_update hold ?_⟩
  · rw [System.pop, howner, htop, tail_cons]
    exact h.held.leave htop huses hnested
  · exact fun g hg => hold t g (mem_of_mem_tail hg)

theorem Exclusive.addOutgoing (t : ℕ) : (s.push t (.adding (s.session.addOutgoingConnection t).1)
      (s.session.addOutgoingConnection t).2).Exclusive := by
  have hwf := h.wellFormed
  have hlive : ∀ c, (s.session.addOutgoingConnection t).2.Live c ↔ s.session.Live c ∨ c = s.session.fresh := by
    intro c
    simp only [addOutgoingConnection, Live, make, setConnection, mem_append, mem_singleton]
    tauto
  refine h.enter ⟨?_, ?_, hwf.nodup, ?_⟩ (owner_of_not_live hwf.not_live_fresh)
    (owner_make hlive rfl) ?_ ?_ rfl rfl
  · intro c hc
    rcases (hlive c).mp hc with hc | hc
    · exact Nat.lt_succ_of_lt (hwf.lt_fresh c hc)
    · exact hc ▸ Nat.lt_succ_self _
  · intro c hc hout
    rcases mem_append.mp hout with hout | hout
    · exact hwf.disjoint c hc hout
    · exact hwf.not_live_fresh (mem_singleton.mp hout ▸ .inr hc)
  · rcases hwf.offset with h0 | hlt
    · exact .inl h0
    · refine .inr (Nat.lt_of_lt_of_le hlt ?_)
      simp [addOutgoingConnection]
  · intro u g hg
    have hopens := h.opens u g hg
    match g, hopens with
    | .adding c, hopens => exact mem_append_left _ hopens
    | .serving c, hopens =>
      have hc : s.session.Live c := h.live hg rfl
      intro hout
      rcases mem_append.mp hout with hout | hout
      · exact hopens hout
      · exact hwf.not_live_fresh (mem_singleton.mp hout ▸ hc)
    | .handle ⟨some c, false⟩, hopens => exact mem_append_left _ hopens
    | .handle ⟨some c, true⟩, _ | .handle ⟨none, _⟩, _ | .executing c b, _ => trivial
  · exact mem_append_right _ (mem_singleton_self _)

theorem Exclusive.assignIncoming {c : ℕ}
    (hassign : s.session.assignIncomingConnectionToThisThread t = (some c, S)) :
    (s.push t (.serving c) S).Exclusive := by
  have hwf := h.wellFormed
  obtain ⟨rfl, -, -, rfl⟩ := assignIncoming_some hassign
  refine h.enter ⟨?_, ?_, ?_, hwf.offset⟩ (owner_of_not_live hwf.not_live_fresh)
    (owner_make ?_ rfl) (fun u g hg => (h.opens u g hg).congr rfl)
    (fun hmem => hwf.not_live_fresh (.inl hmem)) rfl rfl
  · rintro c (hc | hc)
    · exact Nat.lt_succ_of_lt (hwf.lt_fresh c (.inl hc))
    · rcases mem_append.mp hc with hc | hc
      · exact Nat.lt_succ_of_lt (hwf.lt_fresh c (.inr hc))
      · rw [mem_singleton.mp hc]
        exact Nat.lt_succ_self _
  · intro c hc
    rcases mem_append.mp hc with hc | hc
    · exact hwf.disjoint c hc
    · exact fun hmem => hwf.not_live_fresh (mem_singleton.mp hc ▸ .inl hmem)
  · refine nodup_append.mpr ⟨hwf.nodup, nodup_singleton _, ?_⟩
    rintro c hc _ hd rfl
    exact hwf.not_live_fresh (mem_singleton.mp hd ▸ .inr hc)
  · intro c
    simp [Live, make, setConnection, or_assoc]

/-- The result of `find` is entered as a handle. -/
theorem Exclusive.resume {use : ConnectionUse} (hkept : Kept s.session r.2) (hfound : Found s.session t r.1 r.2) :
    (s.resume t use r).Exclusive := by
  obtain ⟨r, S⟩ := r
  have hkept' : Kept s.session { S with mWaitingThreads := S.mWaitingThreads - 1 } :=
    ⟨hkept.outgoing, hkept.incoming, hkept.fresh, hkept.offset⟩
  have hwaiting : ∀ w, (s.setWaiting t w).Exclusive := fun w => ⟨h.held, h.wellFormed, h.opens⟩
  cases hfound with
  | reentrant hc howner =>
    refine (hwaiting none).reenter hkept' howner trivial ?_
    intro d hd
    exact ⟨Option.some.inj hd ▸ hc, rfl⟩
  | available hc hnone howner =>
    refine (hwaiting none).enter (hkept'.wellFormed h.wellFormed) hnone howner ?_ ?_ rfl rfl
    · exact fun u g hg => (h.opens u g hg).congr hkept.outgoing
    · exact hkept.outgoing ▸ hc
  | wouldBlock howner => exact (hwaiting none).reenter hkept howner trivial (by rintro d ⟨⟩)
  | wait howner => exact h.quiet hkept howner rfl rfl

theorem Exclusive.finish (htop : s.stack t = f :: fs) (hfinish : s.finish t f = some s') : s'.Exclusive := by
  have hf : f ∈ s.stack t := htop ▸ mem_cons_self
  have hopens := h.opens t f hf
  cases f with
  | adding =>
    rw [← Option.some.inj hfinish]
    refine h.leave htop ?_ rfl (owner_setExclusiveTid (.inl hopens) none) rfl rfl
    exact (kept_setConnection ..).wellFormed h.wellFormed
  | serving c =>
    obtain ⟨S, hremove, rfl⟩ := Option.map_eq_some_iff.mp hfinish
    have hc : c ∈ s.session.mIncoming := (h.live hf rfl).resolve_left hopens
    rw [removeIncomingConnection, if_pos hc] at hremove
    obtain rfl := Option.some.inj hremove
    have hwf := h.wellFormed
    refine h.leave htop ⟨?_, ?_, hwf.nodup.erase c, hwf.offset⟩ rfl (owner_remove hwf hc) rfl rfl
    · exact fun d hd => hwf.lt_fresh d (hd.imp_right mem_of_mem_erase)
    · exact fun d hd => hwf.disjoint d (mem_of_mem_erase hd)
  | handle connection =>
    rw [← Option.some.inj hfinish]
    match connection, htop, hopens with
    | ⟨some c, false⟩, htop, hopens =>
      refine h.leave htop ?_ rfl (owner_setExclusiveTid (.inl hopens) none) rfl rfl
      exact (kept_setConnection ..).wellFormed h.wellFormed
    | ⟨some c, true⟩, htop, _ => exact h.pop htop (.refl _) rfl fun _ _ => rfl
    | ⟨none, _⟩, htop, _ => exact h.pop htop (.refl _) rfl (by rintro d ⟨⟩)
  | executing =>
    rw [← Option.some.inj hfinish]
    exact h.pop htop (kept_setConnection ..) (owner_setAllowNested ..) (by rintro d ⟨⟩)

theorem Exclusive.step {a : Action} (hstep : s.step a = some s') : s'.Exclusive := by
  unfold System.step at hstep
  split at hstep
  · obtain ⟨r, hr, rfl⟩ := Option.map_eq_some_iff.mp hstep
    obtain ⟨hkept, hfound⟩ := tryFind_found hr
    exact h.resume hkept hfound
  · rw [← Option.some.inj hstep]
    exact h.addOutgoing a.tid
  · split at hstep
    · next c S hassign =>
      rw [← Option.some.inj hstep]
      exact h.assignIncoming hassign
    · rwa [← Option.some.inj hstep]
  · obtain ⟨r, hr, rfl⟩ := Option.map_eq_some_iff.mp hstep
    obtain ⟨hkept, hfound⟩ := tryFind_found hr
    have hwaiting : s.addWaiting.Exclusive :=
      h.quiet (S := s.addWaiting.session) ⟨rfl, rfl, rfl, .inl rfl⟩ rfl rfl rfl
    exact hwaiting.resume hkept hfound
  · split_ifs at hstep
    rw [← Option.some.inj hstep]
    exact h.reenter (kept_setConnection ..) (owner_setAllowNested ..) trivial (by rintro d ⟨⟩)
  · obtain ⟨f, hf, hfinish⟩ := Option.bind_eq_some_iff.mp hstep
    obtain ⟨fs, htop⟩ := List.head?_eq_some_iff.mp hf
    exact h.finish htop hfinish
  · cases hstep

end

end Steps

theorem exclusive_init (maxIncomingThreads : ℕ) :
    Exclusive ⟨{ mMaxIncomingThreads := maxIncomingThreads }, fun _ => [], fun _ => none⟩ := by
  refine ⟨?_, ⟨?_, ?_, nodup_nil, .inl rfl⟩, ?_⟩
  · have howner : RpcSession.owner { mMaxIncomingThreads := maxIncomingThreads } = fun _ => none := by
      funext c
      exact owner_of_not_live (by simp [Live])
    exact Holding.held_empty
  · simp [Live]
  · simp
  · simp

def HasHandle (s : System) (t c : ℕ) : Prop :=
  ∃ connection : ExclusiveConnection, .handle connection ∈ s.stack t ∧ connection.mConnection = some c

theorem HasHandle.owner {s : System} {t c : ℕ} (h : s.HasHandle t c) (hs : s.Exclusive) :
    s.session.owner c = some t := by
  obtain ⟨connection, hmem, hc⟩ := h
  exact (hs.held.uses c t).mp ⟨_, hmem, hc⟩

/-- The frame that opened an outgoing connection is a handle or an `addOutgoingConnection`, the one
that opened an incoming connection serves it. -/
theorem Exclusive.opening {s : System} {t c : ℕ} (hs : s.Exclusive) (howner : s.session.owner c = some t) :
    (c ∈ s.session.mOutgoing ∧ (s.HasHandle t c ∨ .adding c ∈ s.stack t)) ∨
      c ∉ s.session.mOutgoing ∧ .serving c ∈ s.stack t := by
  obtain ⟨f, hf, huses, hnested⟩ := (hs.held.stacked t).opening ((hs.held.uses c t).mpr howner)
  have hopens := hs.opens t f hf
  cases f with
  | adding d =>
    obtain rfl : d = c := Option.some.inj huses
    exact .inl ⟨hopens, .inr hf⟩
  | serving d =>
    obtain rfl : d = c := Option.some.inj huses
    exact .inr ⟨hopens, hf⟩
  | handle connection =>
    obtain ⟨d, b⟩ := connection
    obtain rfl : d = some c := huses
    obtain rfl : b = false := hnested
    exact .inl ⟨hopens, .inl ⟨_, hf, rfl⟩⟩
  | executing => cases huses

/-- At every moment the handles on an outgoing connection belong to one thread, the connection has
no exclusive thread exactly while nothing uses it, incoming connections are used by the threads that
serve them, and `find` meets no fatal error. -/
theorem connections_exclusive (maxIncomingThreads : ℕ) {s : System} (h : Reachable step Free
      ⟨{ mMaxIncomingThreads := maxIncomingThreads }, fun _ => [], fun _ => none⟩ s) :
    (∀ c ∈ s.session.mOutgoing, ∀ t u, s.HasHandle t c → s.HasHandle u c → t = u) ∧
      (∀ c ∈ s.session.mOutgoing, (s.session.connection c).exclusiveTid = none ↔
        ∀ t, ¬ s.HasHandle t c ∧ .adding c ∉ s.stack t) ∧
      (∀ c ∉ s.session.mOutgoing, ∀ t, s.HasHandle t c →
        .serving c ∈ s.stack t ∧ ∀ u, .serving c ∈ s.stack u → u = t) ∧
      ∀ t use, (s.session.tryFind t use).isSome := by
  have hs : s.Exclusive := h.invariant Exclusive (exclusive_init maxIncomingThreads)
    fun _ _ _ hs _ hstep => hs.step hstep
  refine ⟨?_, ?_, ?_, hs.wellFormed.tryFind_isSome⟩
  · intro c _ t u ht hu
    exact Option.some.inj ((ht.owner hs).symm.trans (hu.owner hs))
  · intro c hc
    rw [← owner_of_live (.inl hc)]
    constructor
    · intro hnone t
      refine ⟨fun ht => ?_, fun hadding => ?_⟩
      · simp [ht.owner hs] at hnone
      · have howner := (hs.held.uses c t).mp ⟨_, hadding, rfl⟩
        simp [howner] at hnone
    · intro hunused
      by_contra hne
      obtain ⟨t, ht⟩ := Option.ne_none_iff_exists'.mp hne
      rcases hs.opening ht with ⟨-, hhandle | hadding⟩ | ⟨hout, -⟩
      · exact (hunused t).1 hhandle
      · exact (hunused t).2 hadding
      · exact hout hc
  · intro c hc t ht
    have howner := ht.owner hs
    refine ⟨?_, fun u hu => ?_⟩
    · rcases hs.opening howner with ⟨hout, -⟩ | ⟨-, hserving⟩
      · exact absurd hout hc
      · exact hserving
    · have hu' := (hs.held.uses c u).mp ⟨_, hu, rfl⟩
      exact Option.some.inj (hu'.symm.trans howner)

/-- A thread with a nested handle on the only outgoing connection, one that waits for it, and one
that calls back over the connection it serves. -/
theorem connections_exclusive_nested : ∃ s : System,
    Reachable step Free ⟨{ mMaxIncomingThreads := 1 }, fun _ => [], fun _ => none⟩ s ∧
      s.stack 1 = [.handle ⟨some 0, true⟩, .handle ⟨some 0, false⟩] ∧
      s.waiting 2 = some .client ∧ s.HasHandle 3 1 ∧ .serving 1 ∈ s.stack 3 ∧
      ∀ u, s.HasHandle u 0 → u = 1 := by
  obtain ⟨s, hs, hone, htwo, hthree, hout⟩ := exists_reachable step Free
    ⟨{ mMaxIncomingThreads := 1 }, fun _ => [], fun _ => none⟩
    [⟨1, .addOutgoing⟩, ⟨1, .finish⟩, ⟨1, .find .client⟩, ⟨2, .find .client⟩,
      ⟨1, .find .clientRefcount⟩, ⟨2, .wake⟩, ⟨3, .assignIncoming⟩, ⟨3, .execute 1 false⟩,
      ⟨3, .find .client⟩]
    (fun s => s.stack 1 = [.handle ⟨some 0, true⟩, .handle ⟨some 0, false⟩] ∧ s.waiting 2 = some .client ∧
      s.stack 3 = [.handle ⟨some 1, true⟩, .executing 1 false, .serving 1] ∧ s.session.mOutgoing = [0]) (by decide)
  have hhandle : s.HasHandle 3 1 := ⟨⟨some 1, true⟩, by simp [hthree], rfl⟩
  have hone' : s.HasHandle 1 0 := ⟨⟨some 0, true⟩, by simp [hone], rfl⟩
  obtain ⟨hsingle, -, hserving, -⟩ := connections_exclusive 1 hs
  refine ⟨s, hs, hone, htwo, hhandle, (hserving 1 (by simp [hout]) 3 hhandle).1, fun u hu => ?_⟩
  exact hsingle 0 (by simp [hout]) u 1 hu hone'

end System

end Binder.RpcSession
