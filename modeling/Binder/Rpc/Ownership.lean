import Binder.Lib.Transition
import Binder.Rpc.Moves

/-! Which side may own an address: against an arbitrary peer, the addresses one side creates
stand for its own binders. -/
namespace Binder.Rpc
open Binder.Lib

/-- The address is one this side creates. -/
def OwnAddress (session : Session) (a : ℕ) : Prop := ForServer a ↔ session.server = true

def OwnsAddresses (session : Session) (st : RpcState) : Prop :=
  ∀ a n, st.node? a = some n → OwnAddress session a → n.binder.isRemote = false

def Action.enters : Action → Option ℕ
  | .recvTransact t _ => if t.address = 0 then none else some t.address
  | .unflatten address => some address
  | _ => none

theorem address_of_enters {t : RpcWireTransaction} {call x : ℕ} (h : Action.enters (.recvTransact t call) = some x) :
    t.address = x := by
  simp only [Action.enters] at h
  split_ifs at h
  exact Option.some.inj h

def Action.entering (a : Action) : Option ℕ := a.resolve.bind enters

/-- The peer names, with known options, a server address that the server has no node for. -/
def Forged (session : Session) (st : RpcState) (a : ℕ) : Prop :=
  session.server = true ∧ ForServer a ∧ st.mTerminated = false ∧ st.node? a = none ∧
    (RpcWireAddress.fromRaw a).options &&& unknownOptions = 0
deriving Decidable

/-- No command and no parcel forges an address of this side. -/
def NoForgery (session : Session) (p : Proc) (a : Action) : Prop :=
  ∀ address, a.entering = some address → ¬ Forged session p.state address

/-- The runs of one process, its outputs left out. -/
def Proc.next (session : Session) (p : Proc) (a : Action) : Option Proc := (p.step session a).map Prod.fst

/-- Where a node comes from: an earlier node of the same binder, `onBinderLeaving`, or
`onBinderEntering`. -/
inductive NodeOrigin (session : Session) (p p' : Proc) (a : Action) (address : ℕ) (binder : IBinder) :
    Prop
  | earlier (n : BinderNode) : p.state.node? address = some n → n.binder = binder →
      NodeOrigin session p p' a address binder
  | left : a = .flatten binder → p.state.mTerminated = false → binder ∈ p.held → binder.isRemote = false →
      address ∈ upcoming session p.state → p.state.node? address = none →
      (∀ x n, p.state.node? x = some n → n.binder ≠ binder) →
      (∀ x, x ≠ address → p'.state.node? x = p.state.node? x) → NodeOrigin session p p' a address binder
  | adopted : a.enters = some address → Adopts session p.state address →
      binder = .rpcProxy p.nextBinder session.id address → p'.nextBinder = p.nextBinder + 1 →
      NodeOrigin session p p' a address binder

variable {session : Session} {p p' : Proc} {a : Action} {outs : List Out}

variable {st : RpcState} {x address : ℕ} {m n : BinderNode}

theorem NodeOrigin.setNode (htable : st.mNodeForAddress = p.state.mNodeForAddress)
    (hx : NodeOrigin session p p' a x m.binder) (h : (st.setNode x m).node? address = some n) :
    NodeOrigin session p p' a address n.binder := by
  rw [RpcState.node?_setNode] at h
  split_ifs at h with heq
  · cases Option.some.inj h
    exact heq ▸ hx
  · rw [RpcState.node?, htable] at h
    exact .earlier n h rfl

theorem NodeOrigin.update {m' : BinderNode} (hm : p.state.node? x = some m)
    (h : (p.state.setNode x m').node? address = some n) (hb : m.binder = m'.binder) :
    NodeOrigin session p p' a address n.binder :=
  .setNode rfl (.earlier m hm hb) h

theorem NodeOrigin.eraseNode
    (h : (p.state.eraseNode x).node? address = some n) : NodeOrigin session p p' a address n.binder := by
  rw [RpcState.node?_eraseNode] at h
  split_ifs at h
  exact .earlier n h rfl

theorem Moves.node_origin (hm : Moves session p a p' outs)
    (h : p'.state.node? address = some n) : NodeOrigin session p p' a address n.binder := by
  cases hm with
  | targetDead _ _ _ _ hf | targetRemote _ _ _ _ hf | entered _ _ _ _ hf | executed _ _ _ _ hf =>
    exact .update hf.node h rfl
  | targetAdopted _ _ ht had =>
    exact .setNode rfl (.adopted (if_neg ht) had rfl rfl) h
  | decReleased _ _ _ _ _ hm _ _ hr =>
    cases hr with
    | part | last => exact .update hm h rfl
    | erased => exact .eraseNode h
  | readRemote x m hf | readLocal x m hf => exact .update hf.node h rfl
  | readAdopted x had =>
    exact .setNode rfl (.adopted rfl had rfl rfl) h
  | queued _ _ _ _ _ _ _ hm | onewayDone _ _ _ _ _ _ _ _ _ _ _ hm | onewayNext _ _ _ _ _ _ _ _ _ _ hm =>
    exact .update hm h rfl
  | onewaySent _ _ _ _ _ _ _ _ _ _ _ _ _ hm =>
    rw [Proc.settle_state] at h
    exact .update hm h rfl
  | decSent _ _ _ _ _ _ _ _ _ hm _ hg | proxySent _ _ _ _ _ _ _ hm _ hg =>
    simp only [Proc.complete_state] at h
    cases hg with
    | kept => exact .update hm h rfl
    | erased => exact .eraseNode h
  | flattened _ _ _ hb hl =>
    cases hl with
    | sent _ _ hm => exact .update hm h rfl
    | created i hrun hloc hnone hup huniq =>
      refine .setNode rfl (.left rfl hrun hb hloc hup hnone huniq fun y hy => ?_) h
      rw [RpcState.node?_setNode, if_neg hy]
      rfl
  | transacting _ _ _ _ _ _ _ _ _ _ hm => exact .update hm h rfl
  | cleared => simp [RpcState.node?] at h
  | flushed | flushFailed | decFailed | decNothing | blocked =>
    simp only [Proc.complete_state, Proc.completeFailed_state] at h
    exact .earlier n h rfl
  | replied | transactDead | onewaySentZero | released | dropped =>
    rw [Proc.settle_state] at h
    exact .earlier n h rfl
  | _ => exact .earlier n h rfl

theorem options_createdAddress (forServer : Bool) (i : Fin (2 ^ 32)) :
    (RpcWireAddress.fromRaw (createdAddress forServer i)).options = if forServer then 3 else 1 := by
  cases forServer <;> simp [createdAddress, RpcWireAddress.fromRaw, RpcWireAddress.toRaw, wireAddressOptionCreated,
      wireAddressOptionForServer]

theorem forServer_createdAddress (forServer : Bool) (i : Fin (2 ^ 32)) :
    ForServer (createdAddress forServer i) ↔ forServer = true := by
  rw [ForServer, options_createdAddress]
  cases forServer <;> decide

theorem createdAddress_known (forServer : Bool) (i : Fin (2 ^ 32)) :
    (RpcWireAddress.fromRaw (createdAddress forServer i)).options &&& unknownOptions = 0 := by
  rw [options_createdAddress]
  cases forServer <;> decide

/-- Without forgery an adopted address is never one of this side. -/
theorem not_ownAddress_of_adopts (h : Adopts session st x)
    (hf : ¬ Forged session st x) : ¬ OwnAddress session x := by
  intro hown
  cases hs : session.server with
  | false =>
    have hbit := h.foreign
    rw [hs] at hbit
    have := hown.mp hbit
    simp [hs] at this
  | true => exact hf ⟨hs, hown.mpr hs, h.running, h.absent, h.known⟩

theorem ownsAddresses_step {r : Proc} (hi : OwnsAddresses session p.state) (hf : NoForgery session p a)
    (hs : p.next session a = some r) : OwnsAddresses session r.state := by
  obtain ⟨r', hs', rfl⟩ := Option.map_eq_some_iff.mp hs
  obtain ⟨-, ⟨-, rfl⟩ | ⟨a', hres, hm⟩⟩ := step_moves hs'
  · exact hi
  · intro x n hn hown
    cases hm.node_origin hn with
    | earlier m hm' hb => exact hb ▸ hi x m hm' hown
    | left _ _ _ hloc => exact hloc
    | adopted hent had =>
      exact absurd hown (not_ownAddress_of_adopts had (hf x (by simp [Action.entering, hres, hent])))

/-- Without forged addresses every node of an own address is a local binder, and an unknown
own address is turned down exactly when it is not forged. -/
theorem ownsAddresses_of_noForgery (session : Session) :
    (∀ p, Reachable (Proc.next session) (NoForgery session) {} p → OwnsAddresses session p.state) ∧
    ∀ (alive : IBinder → Bool) (id a : ℕ) (st : RpcState), st.mTerminated = false →
      st.node? a = none → OwnAddress session a →
      (onBinderEntering session alive id a st = (.error .badValue, st) ↔ ¬ Forged session st a) := by
  constructor
  · intro p hp
    refine hp.invariant (fun p => OwnsAddresses session p.state) ?_ fun _ _ _ hi hf hs => ownsAddresses_step hi hf hs
    intro a n hn
    simp [RpcState.node?] at hn
  · intro alive id a st ht hn hown
    by_cases hopt : (RpcWireAddress.fromRaw a).options &&& unknownOptions = 0
    · cases hserver : session.server with
      | false =>
        have hbit : (RpcWireAddress.fromRaw a).options &&& wireAddressOptionForServer = 0 := by
          by_contra hne
          have := hown.mp hne
          simp [hserver] at this
        simp [onBinderEntering, hopt, ht, hn, hserver, hbit, Forged]
      | true =>
        have hforged : Forged session st a := ⟨hserver, hown.mpr hserver, ht, hn, hopt⟩
        have hbit : (RpcWireAddress.fromRaw a).options &&& wireAddressOptionForServer ≠ 1 := by
          unfold wireAddressOptionForServer
          intro h
          have := congrArg (Nat.testBit · 0) h
          simp at this
        simp [onBinderEntering, hopt, ht, hn, hserver, hbit, hforged]
    · simp [onBinderEntering, hopt, Forged]

theorem ownsAddresses_example : ∃ p : Proc, p.state.node? 3 ≠ none ∧ p.state.node? 1 ≠ none ∧
    OwnsAddresses ⟨0, true⟩ p.state := by
  refine ⟨_, ?_, ?_, (ownsAddresses_of_noForgery ⟨0, true⟩).1 _
    (.next (a := .unflatten 1) (.next (a := .flatten (.bBinder 0)) (.next (a := .newBinder (.bBinder 0))
      .init ?_ rfl) ?_ rfl) ?_ rfl)⟩
  · decide
  · decide
  · simp [NoForgery, Action.entering, Action.resolve, Action.enters]
  · simp [NoForgery, Action.entering, Action.resolve, Action.enters]
  · intro x hx
    cases Option.some.inj hx
    decide

/-- A server takes the address 3, marked as its own, from its peer and makes a proxy for it. -/
theorem server_adopts_own_address :
    ∃ p, Reachable (Proc.next ⟨0, true⟩) Free {} p ∧ ¬ OwnsAddresses ⟨0, true⟩ p.state := by
  refine ⟨_, .next (a := .unflatten 3) .init trivial rfl, fun h => ?_⟩
  have := h 3 _ rfl (iff_of_true (by decide) rfl)
  simp [IBinder.isRemote] at this

end Binder.Rpc
