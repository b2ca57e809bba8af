import Mathlib.Algebra.Order.BigOperators.Group.List
import Binder.Rpc.Balance

/-! Reference conservation between two honest peers, over every interleaving. -/
namespace Binder.Rpc
open Binder.Lib List

structure Acts (n : Net) (a : NetAction) (n' : Net) (r : Role) (act : Action) (outs : List Out) : Prop where
  moves : Moves r.session (n.proc r) act (n'.proc r) outs
  running : (n.proc r).aborted = none
  other : n'.proc r.other = n.proc r.other
  view : ∀ s, n'.view s = (n.setProc r (n'.proc r)).view s
  offered : Offered n r a act

variable {s : Role} {x k : ℕ} {session : Session} {st : RpcState}

namespace Net

variable {n n' : Net} {r : Role} {a : NetAction} {act : Action} {outs : List Out}

theorem pool_ne_zero_of_flight {m : Message} (h : ⟨s, m⟩ ∈ n.flight) (hx : x ∈ m.refs) : n.pool s x ≠ 0 := by
  have hle : Packet.carries s x ⟨s, m⟩ ≤ (n.flight.map (Packet.carries s x)).sum :=
    le_sum_of_mem (mem_map_of_mem h)
  have hpos : 0 < m.refs.count x := count_pos_iff.mpr hx
  simp only [Packet.carries, if_true] at hle
  unfold pool
  omega

theorem pool_ne_zero_of_unread (h : x ∈ n.unread s) : n.pool s x ≠ 0 := by
  have hpos : 0 < (n.unread s).count x := count_pos_iff.mpr h
  unfold pool
  omega

end Net

variable {n n' : Net} {r : Role} {a : NetAction} {act : Action} {outs : List Out}

/-- A received address is one the peer sent. -/
theorem Offered.entering (h : Offered n r a act) (hx : act.enters = some x) : n.pool r.other x ≠ 0 := by
  cases h with
  | own act => cases act <;> simp_all [Action.isLocal, Action.enters]
  | transact _ _ _ refs _ _ hp =>
    refine Net.pool_ne_zero_of_flight (mem_of_pick hp) ?_
    simp only [Action.enters] at hx
    split_ifs at hx with h0
    rw [Message.refs, target, if_neg h0, Option.some.inj hx]
    exact mem_cons_self
  | reply | decStrong => simp [Action.enters] at hx
  | read _ _ _ hy =>
    cases hx
    exact Net.pool_ne_zero_of_unread (mem_of_pick hy)

theorem Offered.given (h : Offered n r a act) (hx : act = .recvDecStrong x k) :
    ⟨r.other, .decStrong x k⟩ ∈ n.flight := by
  subst hx
  cases h with
  | own _ _ hloc => simp [Action.isLocal] at hloc
  | decStrong _ _ _ _ _ h => exact mem_of_pick h

theorem Offered.acts {p : Proc} (h : Offered n r a act) (hproc : n'.proc = (n.setProc r p).proc)
    (htomb : n'.tomb = (n.setProc r p).tomb) (hm : Moves r.session (n.proc r) act p outs)
    (hab : (n.proc r).aborted = none) : Acts n a n' r act outs := by
  have hself : n'.proc r = p := by rw [hproc, Net.setProc_proc_self]
  refine ⟨hself ▸ hm, hab, by rw [hproc, Net.setProc_proc_other], ?_, h⟩
  intro s
  rw [hself]
  unfold Net.view
  rw [hproc, htomb]

theorem NetMoves.acts (hm : NetMoves n a n' r outs) :
    (∃ act, Acts n a n' r act outs) ∨ (outs = [] ∧ n'.proc = n.proc ∧ n'.tomb = n.tomb) := by
  cases hm with
  | crash _ r act p f hab hoff hf hp =>
    subst hp
    refine .inl ⟨act, hoff.acts rfl ?_ (.abort act f hf) hab⟩
    simp [Net.crash, Net.setProc]
  | «local» r act refs p outs hloc hcall hab hm =>
    exact .inl ⟨act, (Offered.own act refs hloc).acts rfl rfl hm hab⟩
  | tooLarge => exact .inr ⟨rfl, rfl, rfl⟩
  | transact i j _ t refs call rest _ _ hp hsize hab hm =>
    exact .inl ⟨_, (Offered.transact i j t refs call rest (by simpa using hp) hsize).acts rfl rfl hm hab⟩
  | reply i j _ refs call rest _ _ _ _ hp _ hab hm =>
    exact .inl ⟨_, (Offered.reply i j refs call rest (by simpa using hp)).acts rfl rfl hm hab⟩
  | decStrong i j _ x k rest _ _ hp hab hm =>
    exact .inl ⟨_, (Offered.decStrong i j x k rest (by simpa using hp)).acts rfl rfl hm hab⟩
  | read _ i x rest _ _ hp hab hm =>
    exact .inl ⟨_, (Offered.read i x rest hp).acts rfl rfl hm hab⟩

theorem ownAddress_other (r : Role) (x : ℕ) : OwnAddress r.other.session x ↔ ¬ OwnAddress r.session x := by
  cases r <;> simp [OwnAddress, Role.session, Role.other]

theorem ownAddress_of_upcoming (h : x ∈ upcoming session st) : OwnAddress session x := by
  obtain ⟨i, _, rfl⟩ := mem_map.mp h
  rw [OwnAddress, forServer_createdAddress]

theorem createdAddress_ne_zero (forServer : Bool) (i : Fin (2 ^ 32)) : createdAddress forServer i ≠ 0 := by
  intro h
  have hopt := options_createdAddress forServer i
  rw [h] at hopt
  cases forServer <;> simp [RpcWireAddress.fromRaw] at hopt

theorem ne_zero_of_upcoming (h : x ∈ upcoming session st) : x ≠ 0 := by
  obtain ⟨i, _, rfl⟩ := mem_map.mp h
  exact createdAddress_ne_zero _ _

/-- What two honest peers keep up. A node is local exactly at the side that created its address. -/
structure Honest (n : Net) : Prop where
  core : ∀ r, Core r.session (n.proc r)
  nodes : ∀ r a m, (n.view r).node? a = some m → NodeOk r.session a m
  own : ∀ r a m, (n.view r).node? a = some m → (m.binder.isRemote = false ↔ OwnAddress r.session a)
  handled : ∀ r, ∀ t ∈ (n.proc r).tasks, ∀ a b, t.handles = some (a, b) → OwnAddress r.session a
  zero : ∀ r, (n.view r).node? 0 = none
  balanced : n.Balanced

namespace Honest

theorem init : Honest Net.init where
  core r := Core.init r.session
  nodes r a m h := by simp [Net.view, Net.init, RpcState.node?] at h
  own r a m h := by simp [Net.view, Net.init, RpcState.node?] at h
  handled r t h := by simp [Net.init] at h
  zero r := by simp [Net.view, Net.init, RpcState.node?]
  balanced s a := by
    simp [Net.view, Net.init, Net.pool, Net.decs, Proc.carried, RpcState.sentTimes, RpcState.recdTimes,
      RpcState.node?]

/-- A reference on its way is counted by its sender. -/
theorem sender_node (h : Honest n) (hx : n.pool s x ≠ 0) : ∃ m, (n.view s).node? x = some m ∧ m.timesSent ≠ 0 := by
  have hb := h.balanced s x
  exact RpcState.exists_node_of_sentTimes (by omega)

/-- An address that its receiver has no node for was created by its sender. -/
theorem foreign (h : Honest n) (hx : n.pool r.other x ≠ 0) (hn : (n.view r).node? x = none) :
    OwnAddress r.other.session x := by
  obtain ⟨m, hm, _⟩ := h.sender_node hx
  cases hrem : m.binder.isRemote with
  | false => exact (h.own _ _ _ hm).mp hrem
  | true =>
    have hrecd := (h.nodes _ _ _ hm).recd hrem
    have hb := h.balanced r x
    rw [RpcState.sentTimes_of_none hn, RpcState.recdTimes_of_node hm] at hb
    omega

variable {m : BinderNode}

/-- A local binder in the table has been sent and is kept alive by its node. -/
theorem local_sentRef (h : Honest n) (hm : (n.view r).node? x = some m)
    (hloc : m.binder.isRemote = false) : m.sentRef = some m.binder := by
  have hok := h.nodes r x m hm
  refine hok.sentRef.resolve_left fun hnone => ?_
  have h0 := hok.sent.mpr hnone
  have hb := h.balanced r x
  have hb' := h.balanced r.other x
  rw [RpcState.sentTimes_of_node hm, h0] at hb
  rw [Role.other_other, RpcState.recdTimes_of_node hm] at hb'
  have hr := hok.used.resolve_left (not_not.mpr h0)
  obtain ⟨m', hm', _⟩ := RpcState.exists_node_of_sentTimes (show (n.view r.other).sentTimes x ≠ 0 by omega)
  have hrem : m'.binder.isRemote = true := by
    by_contra hne
    have hown := (h.own r.other x m' hm').mp (by simpa using hne)
    exact (ownAddress_other r x).mp hown ((h.own r x m hm).mp hloc)
  rw [RpcState.recdTimes_of_node hm'] at hb
  exact (h.nodes _ _ _ hm').recd hrem (by omega)

theorem decLocal (h : Honest n) (act : Action) : DecLocal (n.proc r) act := by
  intro i x b after rest m _ hp hm
  have hown := h.handled r _ (mem_of_pick hp) x b rfl
  refine (h.own r x m ?_).mpr hown
  rwa [Net.view_running ((h.core r).node_running hm)]

/-- A node seen after a step was seen before, or the step made it. -/
theorem view_origin (ha : Acts n a n' r act outs) (h : (n'.view r).node? x = some m) : (n.view r).node? x = some m ∨
      (n'.proc r).state.mTerminated = false ∧ (n'.proc r).state.node? x = some m ∧
        (n.proc r).state.mTerminated = false := by
  rw [ha.view r] at h
  cases ht : (n'.proc r).state.mTerminated with
  | true =>
    rw [Net.view_setProc_ended ht] at h
    exact .inl h
  | false =>
    rw [Net.view_running (by rwa [Net.setProc_proc_self]), Net.setProc_proc_self] at h
    refine .inr ⟨rfl, h, ?_⟩
    by_contra hp
    simp [ha.moves.terminated (by simpa using hp)] at ht

theorem view_other (ha : Acts n a n' r act outs) : n'.view r.other = n.view r.other := by
  rw [ha.view, Net.view_setProc_other]

theorem core_step (h : Honest n) (ha : Acts n a n' r act outs) (s : Role) : Core s.session (n'.proc s) := by
  rcases Role.eq_or_eq_other r s with rfl | rfl
  · exact ha.moves.core (h.core s) (h.decLocal act)
  · rw [ha.other]
    exact h.core r.other

/-- A new node belongs to a binder of this side under a fresh address, or is a proxy under an
address of the peer. -/
theorem node_step (h : Honest n) (ha : Acts n a n' r act outs)
    (hrun : (n.proc r).state.mTerminated = false) (hm : (n'.proc r).state.node? x = some m) :
    (m.binder.isRemote = false ↔ OwnAddress r.session x) ∧ x ≠ 0 := by
  cases ha.moves.node_origin hm with
  | earlier m' hm' hb =>
    rw [← Net.view_running hrun] at hm'
    refine ⟨hb ▸ h.own r x m' hm', ?_⟩
    rintro rfl
    simp [h.zero r] at hm'
  | left _ _ _ hloc hup =>
    exact ⟨iff_of_true hloc (ownAddress_of_upcoming hup), ne_zero_of_upcoming hup⟩
  | adopted hent had hb =>
    have hpool := ha.offered.entering hent
    have hown := h.foreign hpool (by rw [Net.view_running hrun]; exact had.absent)
    refine ⟨iff_of_false (by simp [hb, IBinder.isRemote]) ((ownAddress_other r x).mp hown), ?_⟩
    rintro rfl
    obtain ⟨m', hm', _⟩ := h.sender_node hpool
    simp [h.zero r.other] at hm'

/-- Short of the end of the session, the node of a local binder stays or its last references are
given back. -/
theorem local_fate (h : Honest n) (ha : Acts n a n' r act outs) (hrun : (n'.proc r).state.mTerminated = false)
    (hm : (n.proc r).state.node? x = some m) (hloc : m.binder.isRemote = false) :
    (∃ m', (n'.proc r).state.node? x = some m' ∧ m'.binder = m.binder) ∨
      (act = .recvDecStrong x m.timesSent ∧ m.timesRecd = 0 ∧ (n'.proc r).state.node? x = none) := by
  have hrun₀ := (h.core r).node_running hm
  cases ha.moves.node_fate hm with
  | kept m' hk hb | lowered k m' _ _ _ hk hb => exact .inl ⟨m', hk, hb⟩
  | cleared hterm => simp [hrun] at hterm
  | released hact _ hr _ hnone => exact .inr ⟨hact, hr, hnone⟩
  | flushed _ _ _ _ _ _ h0 =>
    have href := h.local_sentRef (by rwa [Net.view_running hrun₀]) hloc
    have hsent := ((h.core r).nodes x m hm).sent.mp h0
    simp [href] at hsent
  | dropped _ b' _ _ hp haddr =>
    have hdying := mem_of_pick hp
    have hb := ((h.core r).dying_node hdying hrun₀ (haddr.symm ▸ hm)).1
    have hown' : Proc.ownProxy r.session b' := (h.core r).tasks _ hdying
    simp [hb, ownProxy_remote hown'] at hloc

theorem handled_step (h : Honest n) (ha : Acts n a n' r act outs) :
    ∀ t ∈ (n'.proc r).tasks, ∀ x b, t.handles = some (x, b) → OwnAddress r.session x := by
  intro t ht x b hh
  rcases (ha.moves.task_origin ht).handles (h.core r) hh with ⟨t', ht', hh'⟩ | ⟨_, m, hf, rfl, _, hloc⟩
  · exact h.handled r t' ht' x b hh'
  · exact (h.own r x m (by rw [Net.view_running hf.running]; exact hf.node)).mp hloc

theorem balanced_step (h : Honest n) (hm : NetMoves n a n' r outs)
    (hc' : ∀ s, Core s.session (n'.proc s)) : n'.Balanced := by
  have hb := h.balanced
  cases hm with
  | crash _ _ _ _ _ _ _ _ hp => exact hb.crash (by rw [hp]) (by rw [hp])
  | «local» r act refs p outs hloc hcall hab hm hab' hsub hrefs =>
    have hp : Core r.session p := by simpa [Net.afterLocal] using hc' r
    exact hb.afterLocal hloc hm (h.core r) hp hab' (hb.carried_zero (h.zero r)) hsub hrefs
  | tooLarge _ _ _ _ _ _ _ hp => exact hb.tooLarge hp
  | transact _ _ s _ _ _ _ _ _ hp _ _ hm hab' =>
    exact hb.transact hp hm (h.core _) (by simpa using hc' s.other) hab'
  | reply _ _ s _ _ _ _ _ _ _ hp _ _ hm =>
    exact hb.reply hp hm (h.core _) (by simpa using hc' s.other)
  | decStrong _ _ s _ _ _ _ _ hp _ hm =>
    exact hb.decStrong hp hm (h.core _) (by simpa using hc' s.other)
  | read r _ _ _ _ _ hp _ hm hab' =>
    exact hb.read hp hm (h.core r) (by simpa using hc' r) hab'

theorem step (h : Honest n) (hm : NetMoves n a n' r outs) : Honest n' := by
  rcases hm.acts with ⟨act, ha⟩ | ⟨_, hproc, htomb⟩
  · have hc' := h.core_step ha
    refine ⟨hc', ?_, ?_, ?_, ?_, h.balanced_step hm hc'⟩
    · intro s x m hn
      rcases Role.eq_or_eq_other r s with rfl | rfl
      · rcases view_origin ha hn with hn | ⟨_, hn, _⟩
        · exact h.nodes s x m hn
        · exact (hc' s).nodes x m hn
      · exact h.nodes r.other x m (view_other ha ▸ hn)
    · intro s x m hn
      rcases Role.eq_or_eq_other r s with rfl | rfl
      · rcases view_origin ha hn with hn | ⟨_, hn, hrun⟩
        · exact h.own s x m hn
        · exact (h.node_step ha hrun hn).1
      · exact h.own r.other x m (view_other ha ▸ hn)
    · intro s
      rcases Role.eq_or_eq_other r s with rfl | rfl
      · exact h.handled_step ha
      · rw [ha.other]
        exact h.handled r.other
    · intro s
      rcases Role.eq_or_eq_other r s with rfl | rfl
      · by_contra hne
        obtain ⟨m, hn⟩ := Option.ne_none_iff_exists'.mp hne
        rcases view_origin ha hn with hn | ⟨_, hn, hrun⟩
        · simp [h.zero s] at hn
        · exact (h.node_step ha hrun hn).2 rfl
      · rw [view_other ha]
        exact h.zero r.other
  · have hview : ∀ s, n'.view s = n.view s := fun s => by
      unfold Net.view
      rw [hproc, htomb]
    have hc' : ∀ s : Role, Core s.session (n'.proc s) := fun s => hproc ▸ h.core s
    refine ⟨hc', ?_, ?_, ?_, ?_, h.balanced_step hm hc'⟩
    · exact fun s x m hn => h.nodes s x m (hview s ▸ hn)
    · exact fun s x m hn => h.own s x m (hview s ▸ hn)
    · exact fun s => hproc ▸ h.handled s
    · exact fun s => hview s ▸ h.zero s

theorem of_reachable {C : Net → NetAction → Prop} (h : Reachable Net.next C Net.init n) : Honest n := by
  refine h.invariant Honest .init fun m m' a hm _ hs => ?_
  obtain ⟨⟨m'', r, outs⟩, hstep, rfl⟩ := Option.map_eq_some_iff.mp hs
  exact hm.step (Net.step_netMoves hstep)

end Honest

/-! ### Conservation -/

def Out.fits (st : RpcState) : Out → Bool
  | .decStrong x _ => st.recdTimes x < 2 ^ 32
  | _ => true

/-- The amounts of the `DEC_STRONG` commands a step sends fit their field. -/
def AmountsFit (n : Net) (a : NetAction) : Prop :=
  (n.step a).all fun (_, r, outs) => outs.all (Out.fits (n.proc r).state)
deriving Decidable

/-- While a side runs, every reference given back to it counts. -/
def NoLeak (n : Net) : Prop := ∀ s x, (n.proc s).state.mTerminated = false → n.leak s x = 0

theorem sum_truncated (hm : Moves r.session (n.proc r) act (n'.proc r) outs)
    (hfit : outs.all (Out.fits (n.proc r).state) = true) (x : ℕ) :
    (outs.map (truncated (n.proc r).state x)).sum = 0 := by
  refine sum_eq_zero fun y hy => ?_
  obtain ⟨o, ho, rfl⟩ := mem_map.mp hy
  cases o with
  | decStrong =>
    have hk : _ = _ % _ := hm.sent ho
    rw [Nat.mod_eq_of_lt (of_decide_eq_true (all_eq_true.mp hfit _ ho))] at hk
    simp only [truncated]
    split_ifs with h
    · rw [← h, hk, Nat.sub_self]
    · rfl
  | _ => rfl

/-- No `DEC_STRONG` takes back more than was sent. -/
theorem Honest.dec_le (h : Honest n) (hk : ⟨s.other, .decStrong x k⟩ ∈ n.flight) :
    (n.view s.other).recdTimes x + n.pool s x + k ≤ (n.view s).sentTimes x := by
  have hle : Packet.gives s.other x ⟨s.other, .decStrong x k⟩ ≤ n.decs s.other x :=
    le_sum_of_mem (mem_map_of_mem hk)
  have hb := h.balanced s x
  simp only [Packet.gives, Message.decs, if_true] at hle
  omega

theorem NoLeak.step (hl : NoLeak n) (h : Honest n) (hm : NetMoves n a n' r outs)
    (hfit : outs.all (Out.fits (n.proc r).state) = true) : NoLeak n' := by
  have hrun : ∀ s, (n'.proc s).state.mTerminated = false → (n.proc s).state.mTerminated = false := by
    intro s hs
    rcases hm.acts with ⟨act, ha⟩ | ⟨_, hproc, _⟩
    · rcases Role.eq_or_eq_other r s with rfl | rfl
      · by_contra hp
        simp [ha.moves.terminated (by simpa using hp)] at hs
      · rwa [ha.other] at hs
    · rwa [hproc] at hs
  intro s x hs
  have h0 := hl s x (hrun s hs)
  cases hm with
  | «local» r act refs p outs hloc hcall hab hm =>
    rcases Role.eq_or_eq_other r s with rfl | rfl
    · simpa [Net.afterLocal] using h0
    · have hm' : Moves r.session (n.proc r) act ((n.setProc r p).proc r) outs := by simpa using hm
      have hsum := sum_truncated hm' hfit x
      rw [Net.leak_afterLocal_other, h0, hsum]
  | decStrong _ _ s' _ _ _ _ _ hp _ hm hab' =>
    rcases Role.eq_or_eq_other s' s with rfl | rfl
    · simpa using h0
    · have hle := h.dec_le (s := s'.other) (by simpa using mem_of_pick hp)
      rw [Net.view_running (hrun _ hs)] at hle
      rw [Net.addLeak_leak_self]
      simp only [Net.setProc_leak, h0]
      split_ifs
      · rw [hm.lowers_full (h.core _) rfl (by omega) hab']
        omega
      · rfl
  | _ => exact h0

theorem noLeak_of_reachable (h : Reachable Net.next AmountsFit Net.init n) : NoLeak n := by
  have hboth : Honest n ∧ NoLeak n := by
    refine h.invariant (fun n => Honest n ∧ NoLeak n) ⟨.init, fun _ _ _ => rfl⟩ fun m a m' hm hC hs => ?_
    obtain ⟨⟨m'', r, outs⟩, hstep, rfl⟩ := Option.map_eq_some_iff.mp hs
    have hmv := Net.step_netMoves hstep
    rw [AmountsFit, hstep] at hC
    exact ⟨hm.1.step hmv, hm.2.step hm.1 hmv hC⟩
  exact hboth.2

/-- A node goes away, short of the end of the session, when nothing of it was sent or all of it
is given back. -/
theorem Honest.erased (h : Honest n) (hm : NetMoves n a n' r outs)
    (hrun : (n'.proc s).state.mTerminated = false) (hn : (n.proc s).state.node? x ≠ none)
    (hn' : (n'.proc s).state.node? x = none) :
    n.pool s x = 0 ∧ (n.view s.other).recdTimes x = 0 := by
  obtain ⟨m, hm'⟩ := Option.ne_none_iff_exists'.mp hn
  have hb := h.balanced s x
  have hview := Net.view_running ((h.core s).node_running hm')
  rw [hview, RpcState.sentTimes_of_node hm'] at hb
  rcases hm.acts with ⟨act, ha⟩ | ⟨_, hproc, _⟩
  · rcases Role.eq_or_eq_other r s with rfl | rfl
    · cases ha.moves.node_fate hm' with
      | kept _ hk | lowered _ _ _ _ _ hk => simp [hn'] at hk
      | cleared ht => simp [hrun] at ht
      | released hact =>
        have hle := h.dec_le (ha.offered.given hact)
        rw [hview, RpcState.sentTimes_of_node hm'] at hle
        omega
      | flushed | dropped => omega
    · rw [ha.other] at hn'
      exact absurd hn' hn
  · rw [hproc] at hn'
    exact absurd hn' hn

/-- In every state two honest peers reach before the session ends: what one side sent is on its
way or unread, counted as received by the other side, or on its way back; a node is erased only
when nothing of it is on its way or at the other side; no amount exceeds what was sent. -/
theorem references_conserved (n : Net) (h : Reachable Net.next AmountsFit Net.init n)
    (hrun : ∀ s, (n.proc s).state.mTerminated = false) :
    (∀ s x, (n.proc s).state.sentTimes x = n.pool s x + (n.proc s.other).state.recdTimes x + n.decs s.other x) ∧
    (∀ a n' s x, n.next a = some n' → (n'.proc s).state.mTerminated = false →
      (n.proc s).state.node? x ≠ none → (n'.proc s).state.node? x = none →
      n.pool s x = 0 ∧ (n.proc s.other).state.recdTimes x = 0) ∧
    ∀ s x k, ⟨s.other, .decStrong x k⟩ ∈ n.flight → k ≤ (n.proc s).state.sentTimes x := by
  have hh := Honest.of_reachable h
  have hview := fun s => Net.view_running (hrun s)
  refine ⟨fun s x => ?_, fun a n' s x hs ht hn hn' => ?_, fun s x k hk => ?_⟩
  · have hb := hh.balanced s x
    rwa [hview, hview, noLeak_of_reachable h s x (hrun s)] at hb
  · obtain ⟨⟨m, r, outs⟩, hstep, rfl⟩ := Option.map_eq_some_iff.mp hs
    have he := hh.erased (Net.step_netMoves hstep) ht hn hn'
    rwa [hview] at he
  · have hle := hh.dec_le hk
    rw [hview, hview] at hle
    omega

def passAndDrop : List NetAction :=
  [.act .client (.transactSpecial 0 0) [], .deliver 0 0, .act .server (.newBinder (.bBinder 0)) [],
    .act .server (.flatten (.bBinder 0)) [], .act .server (.finish 0 .ok) [3], .deliver 0 0,
    .read .client 0, .act .client (.drop (.rpcProxy 0 0 3)) [], .act .client (.decStrong 0) []]

theorem references_conserved_example : ∃ n : Net, (n.proc .server).state.sentTimes 3 = 1 ∧
    n.decs .client 3 = 1 ∧ ∀ s x, (n.proc s).state.sentTimes x =
      n.pool s x + (n.proc s.other).state.recdTimes x + n.decs s.other x := by
  obtain ⟨n, hn, h1, h2, hc, hs⟩ := exists_reachable Net.next AmountsFit Net.init passAndDrop
    (fun n => (n.proc .server).state.sentTimes 3 = 1 ∧ n.decs .client 3 = 1 ∧
      (n.proc .client).state.mTerminated = false ∧ (n.proc .server).state.mTerminated = false) (by decide)
  exact ⟨n, h1, h2, (references_conserved n hn fun s => by cases s <;> assumption).1⟩

/-- While a reference is on its way or the peer has a node for it, the side that made the address keeps its binder. -/
theorem owner_keeps_binder (n : Net) (o : Role) (x : ℕ) (h : Reachable Net.next Free Net.init n)
    (hrun : (n.proc o).state.mTerminated = false) (hown : OwnAddress o.session x)
    (hx : n.pool o x ≠ 0 ∨ (n.proc o.other).state.node? x ≠ none) :
    ∃ m, (n.proc o).state.node? x = some m ∧ m.binder.isRemote = false ∧ m.sentRef = some m.binder ∧
      m.binder ∈ (n.proc o).refs := by
  have hh := Honest.of_reachable h
  have hsent : (n.view o).sentTimes x ≠ 0 := by
    have hb := hh.balanced o x
    rcases hx with hx | hx
    · omega
    · obtain ⟨m, hm⟩ := Option.ne_none_iff_exists'.mp hx
      have hview := Net.view_running ((hh.core _).node_running hm)
      have hrem : m.binder.isRemote = true := by
        by_contra hne
        have hpeer := (hh.own _ x m (hview ▸ hm)).mp (Bool.not_eq_true _ ▸ hne)
        exact (ownAddress_other o x).mp hpeer hown
      have hrecd := ((hh.core _).nodes x m hm).recd hrem
      rw [hview, RpcState.recdTimes_of_node hm] at hb
      omega
  obtain ⟨m, hm, -⟩ := RpcState.exists_node_of_sentTimes hsent
  have hloc := (hh.own o x m hm).mpr hown
  have href := hh.local_sentRef hm hloc
  rw [Net.view_running hrun] at hm
  exact ⟨m, hm, hloc, href, Proc.mem_refs_of_sentRef hm href⟩

theorem owner_keeps_binder_proxy : ∃ n m, Reachable Net.next Free Net.init n ∧
    (n.proc .client).state.node? 3 ≠ none ∧ (n.proc .server).state.node? 3 = some m ∧
    m.binder ∈ (n.proc .server).refs := by
  obtain ⟨n, hn, hnode, hrun⟩ := exists_reachable Net.next Free Net.init (passAndDrop.take 7)
    (fun n => (n.proc .client).state.node? 3 ≠ none ∧ (n.proc .server).state.mTerminated = false) (by decide)
  obtain ⟨m, hm, -, -, href⟩ := owner_keeps_binder n .server 3 hn hrun (by unfold OwnAddress; decide) (.inr hnode)
  exact ⟨n, m, hn, hnode, hm, href⟩

end Binder.Rpc
