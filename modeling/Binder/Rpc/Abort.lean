import Binder.Rpc.Core

/-! When a peer cannot make the process abort. The checks of `RpcState` trust the peer not to
name a binder it gave back, and not to give back a binder it is still calling. -/
namespace Binder.Rpc
open Binder.Lib

def Idle (p : Proc) (a : ℕ) : Prop := ∀ t ∈ p.tasks, t.handles.map Prod.fst ≠ some a
deriving Decidable

/-- Arguments the local program may pass to `transact`. -/
def Callable (flags : ℕ) (data : List UInt8) (reply : Bool) : Prop :=
  data.length ≤ 2 ^ 31 - 1 - sizeofWireHeader - sizeofWireTransaction ∧
    (flags &&& flagOneway = 0 → reply = true)

/-- What keeps one action from an abort, on the state before it:
a transaction or a parcel names a local binder only while the peer holds a reference to it,
and a parcel names no dead proxy;
`DEC_STRONG` finds a reference to give back, and takes the last one of a local binder only when
no thread is at work for that address and, if the node goes, no oneway call is queued;
no address is handed out that a rejected oneway call is still being cleaned up for;
the local program calls a proxy with data that fits, and with a reply parcel unless the call is
oneway;
and the session is cleared while no oneway call is about to be ordered. -/
def OrderlyAct (session : Session) (p : Proc) : Action → Prop
  | .recvTransact t _ => ∀ n, p.state.node? t.address = some n → n.binder.isRemote = false →
      n.binder ∈ p.refs → n.timesSent ≠ 0
  | .unflatten a => ∀ n, p.state.node? a = some n →
      n.binder ∈ p.refs ∧ (n.binder.isRemote = false → n.timesSent ≠ 0)
  | .recvDecStrong a k => ∀ n, p.state.node? a = some n → n.binder ∈ p.refs → k ≤ n.timesSent →
      n.timesSent ≠ 0 ∧ (k = n.timesSent → n.binder.isRemote = false →
        Idle p a ∧ (n.timesRecd = 0 → n.asyncTodo = []))
  | .flatten _ => ∀ t call, .failed t none call ∈ p.tasks → t.oneway = true →
      t.address ∉ upcoming session p.state
  | .transact _ _ flags data reply => Callable flags data reply
  | .clear _ => ∀ t b, .entered t b ∉ p.tasks
  | _ => True

/-- A command is judged by the action it decodes to. -/
def Orderly (session : Session) (p : Proc) (a : Action) : Prop :=
  ∀ a', a.resolve = some a' → OrderlyAct session p a'

/-- The peer holds a reference to whatever a thread works for. -/
def Proc.Backed (p : Proc) (a : ℕ) (b : IBinder) : Prop :=
  p.state.mTerminated = true ∨ ∃ n, p.state.node? a = some n ∧ n.binder = b ∧ n.timesSent ≠ 0

structure Safe (session : Session) (p : Proc) : Prop where
  core : Core session p
  handled : ∀ t ∈ p.tasks, ∀ a b, t.handles = some (a, b) → p.Backed a b
  entered : ∀ t b, .entered t b ∈ p.tasks → p.state.mTerminated = false
  rejected : ∀ t call, .failed t none call ∈ p.tasks → t.oneway = true →
    p.state.node? t.address = none ∧ Rejects session p.state t.address
  called : ∀ b a code flags data reply, .transacting b a code flags data reply ∈ p.tasks →
    Callable flags data reply

section

variable {session : Session} {p p' : Proc} {act : Action} {outs : List Out}

theorem Safe.init (session : Session) : Safe session {} := by
  refine ⟨Core.init session, ?_, ?_, ?_, ?_⟩ <;> simp

/-! ### No check fails -/

theorem Proc.Backed.node {a : ℕ} {b : IBinder} (h : p.Backed a b) (hrun : p.state.mTerminated = false) :
    ∃ n, p.state.node? a = some n ∧ n.binder = b ∧ n.timesSent ≠ 0 := by
  rcases h with ht | h
  · simp [hrun] at ht
  · exact h

/-- Oneway calls are queued under the binder their threads work for. -/
theorem Safe.next_target (hs : Safe session p) {i call : ℕ} {t : RpcWireTransaction}
    {target : Option IBinder} {rest : List Task} {s s' : Status} {n : BinderNode} {x : AsyncTodo}
    (he : Ends p rest t target call i s s') (how : t.oneway = true)
    (hn : p.state.node? t.address = some n) (hx : x ∈ n.asyncTodo) : target = some x.ref := by
  obtain ⟨href, _, _, _, _, h0⟩ := (hs.core.nodes _ _ hn).todo x hx
  have hrun := hs.core.node_running hn
  cases target with
  | none =>
    rcases he.mem with hm | hm
    · exact absurd (hs.core.tasks _ hm) h0
    · simp [(hs.rejected t call hm how).1] at hn
  | some b =>
    have hback : p.Backed t.address b := by
      rcases he.mem with hm | hm <;> exact hs.handled _ hm _ _ rfl
    obtain ⟨m, hm, hmb, _⟩ := hback.node hrun
    cases hm.symm.trans hn
    rw [href, hmb]

theorem Safe.not_aborts (hs : Safe session p) (ho : OrderlyAct session p act) {f : Fatal}
    (hother : f ≠ .clearNotOwned) : ¬ Aborts session p act f := by
  have hc := hs.core
  intro h
  cases h with
  | notOwned => exact hother rfl
  | lostRef a k n hn hlive hk href =>
    exact (ho n hn hlive hk).1 ((hc.nodes a n hn).sent.mpr href)
  | erasePending a k n hn hlive hk hr htodo =>
    obtain ⟨_, hlast⟩ := ho n hn hlive hk.le
    cases hrem : n.binder.isRemote with
    | true => exact (hc.nodes a n hn).recd hrem hr
    | false => exact htodo ((hlast hk hrem).2 hr)
  | null a n hf hdead => exact hdead (ho n hf.node).1
  | endIterator _ t b _ hp hn =>
    obtain ⟨n, hn', _⟩ := (hs.handled _ (mem_of_pick hp) _ _ rfl).node (hs.entered t b (mem_of_pick hp))
    simp [hn] at hn'
  | foreign _ _ _ _ _ _ _ _ _ he how hn htop hne =>
    exact hne (hs.next_target he how hn (asyncTop_spec htop).1)
  | flushDeleted _ _ _ _ _ hp hrun hn =>
    obtain ⟨n, hn', _⟩ := (hs.handled _ (mem_of_pick hp) _ _ rfl).node hrun
    simp [hn] at hn'
  | flushInconsistent _ _ _ _ _ _ hp hrun hn hb =>
    obtain ⟨m, hm, hmb, _⟩ := (hs.handled _ (mem_of_pick hp) _ _ rfl).node hrun
    cases hm.symm.trans hn
    exact hb hmb
  | flushNeverSent _ _ _ _ _ _ hp hrun hn hsent =>
    obtain ⟨m, hm, _, hne⟩ := (hs.handled _ (mem_of_pick hp) _ _ rfl).node hrun
    cases hm.symm.trans hn
    exact hne hsent
  | decUnknown _ _ _ _ _ hp hrun hn =>
    obtain ⟨n, hn', _⟩ := (hs.handled _ (mem_of_pick hp) _ _ rfl).node hrun
    simp [hn] at hn'
  | decNeverSent _ _ _ _ _ _ _ hp hrun hn hsent =>
    obtain ⟨m, hm, _, hne⟩ := (hs.handled _ (mem_of_pick hp) _ _ rfl).node hrun
    cases hm.symm.trans hn
    exact hne hsent
  | proxyUnknown _ b _ hp hrun hn =>
    rcases (hc.dying b (mem_of_pick hp)).2 with ht | ⟨n, hn', _⟩
    · simp [hrun] at ht
    · simp [hn] at hn'
  | proxyPending _ _ _ n _ hp hrun hn hsent hf =>
    have hok := hc.nodes _ n hn
    have hb := (hc.dying_node (mem_of_pick hp) hrun hn).1
    rcases hf with ⟨_, htodo⟩ | ⟨_, href⟩
    · obtain ⟨x, hx⟩ := List.exists_mem_of_ne_nil _ htodo
      have hloc := (hok.todo x hx).2.2.2.2.1
      rw [hb, isRemote_of_ownProxy (hc.tasks _ (mem_of_pick hp))] at hloc
      simp at hloc
    · exact href (hok.sent.mp hsent)
  | mismatch _ _ x n _ _ hown hn hnb hx =>
    exact hx (rpcAddress_of_ownProxy (hc.nodes x n hn) hown hnb).symm
  | withoutAddress _ b _ hb hown hrun hall =>
    obtain ⟨n, hn, hnb⟩ := hc.proxy_node (Proc.mem_refs_of_held hb) hown hrun
    exact hall _ n hn hnb
  | transactUnknown _ _ _ _ _ _ _ _ _ hp hrun hn =>
    obtain ⟨hown, rfl⟩ := hc.tasks _ (mem_of_pick hp)
    obtain ⟨n, hn', _⟩ := hc.proxy_node (Proc.mem_refs_of_task (mem_of_pick hp) (by simp [Task.refs]))
      hown hrun
    simp [hn] at hn'
  | tooMuchData _ _ _ _ _ _ _ _ _ hp hlen =>
    exact absurd (hs.called _ _ _ _ _ _ (mem_of_pick hp)).1 (not_le.mpr hlen)
  | noReply _ _ _ _ _ _ _ _ hp hflag =>
    simpa using (hs.called _ _ _ _ _ _ (mem_of_pick hp)).2 hflag
  | clearAgain i a n ht hn => simp [hc.ended ht a] at hn

/-! ### Every orderly action keeps it so -/

theorem Safe.decLocal (hs : Safe session p) : DecLocal p act := by
  intro i a b after rest n _ hp hn
  obtain ⟨m, hm, hmb, _⟩ := (hs.handled _ (mem_of_pick hp) a b rfl).node (hs.core.node_running hn)
  cases hm.symm.trans hn
  exact hmb ▸ (show TaskOk session (.decToTarget a b after) from hs.core.tasks _ (mem_of_pick hp))

/-- The node behind a local binder stays as long as its references are not all given back. -/
theorem Moves.backed (hm : Moves session p act p' outs) (hc : Core session p) {a : ℕ} {b : IBinder}
    (hloc : b.isRemote = false) (h : p.Backed a b)
    (hlast : ∀ n, p.state.node? a = some n → n.binder ∈ p.refs → act ≠ .recvDecStrong a n.timesSent) :
    p'.Backed a b := by
  rcases h with ht | ⟨n, hn, hnb, hsent⟩
  · exact .inl (hm.terminated ht)
  cases hm.node_fate hn with
  | kept n' hn' hb' => exact .inr ⟨n', hn', hb'.trans hnb, by omega⟩
  | lowered k n' hact hlive _ hn' hb' =>
    refine .inr ⟨n', hn', hb'.trans hnb, fun hz => hlast n hn hlive ?_⟩
    rw [hact, show k = n.timesSent by omega]
  | cleared ht => exact .inl ht
  | released hact hlive => exact absurd hact (hlast n hn hlive)
  | flushed _ _ _ _ _ _ hz => exact absurd hz hsent
  | dropped _ c _ _ hp haddr hrun =>
    subst haddr
    obtain ⟨hcn, _⟩ := hc.dying_node (mem_of_pick hp) hrun hn
    have hown : Proc.ownProxy session c := hc.tasks _ (mem_of_pick hp)
    rw [← hnb, hcn, isRemote_of_ownProxy hown] at hloc
    simp at hloc

theorem Moves.handled (hm : Moves session p act p' outs) (hs : Safe session p)
    (ho : OrderlyAct session p act) {t : Task} (ht : t ∈ p'.tasks) {a : ℕ} {b : IBinder}
    (hh : t.handles = some (a, b)) : p'.Backed a b := by
  rcases (hm.task_origin ht).handles hs.core hh with ⟨t', ht', hh'⟩ | ⟨henter, n, hf, hnb, hlive, hloc⟩
  · refine hm.backed hs.core (hs.core.handles_local ht' hh') (hs.handled t' ht' a b hh') ?_
    rintro n hn hlive rfl
    obtain ⟨hne, hlast⟩ := ho n hn hlive le_rfl
    obtain ⟨m, hm', hmb, _⟩ := (hs.handled t' ht' a b hh').node (hs.core.node_running hn)
    cases hm'.symm.trans hn
    exact (hlast rfl (hmb ▸ hs.core.handles_local ht' hh')).1 t' ht' (by rw [hh']; rfl)
  · have hsent : n.timesSent ≠ 0 := by
      cases act with
      | recvTransact =>
        simp only [Action.enters] at henter
        split_ifs at henter
        cases henter
        exact ho n hf.node (hnb ▸ hloc) (hnb ▸ hlive)
      | unflatten =>
        cases henter
        exact (ho n hf.node).2 (hnb ▸ hloc)
      | _ => simp [Action.enters] at henter
    refine hm.backed hs.core hloc (.inr ⟨n, hf.node, hnb, hsent⟩) ?_
    rintro m _ _ rfl
    simp [Action.enters] at henter

theorem Moves.safe (hm : Moves session p act p' outs) (hs : Safe session p)
    (ho : OrderlyAct session p act) : Safe session p' where
  core := hm.core hs.core hs.decLocal
  handled _ ht _ _ hh := hm.handled hs ho ht hh
  entered t b ht := by
    by_contra hterm
    have hterm' : p'.state.mTerminated = true := by simpa using hterm
    have hrun : p.state.mTerminated = false := by
      cases hm.task_origin ht with
      | kept _ hold => exact hs.entered t b hold
      | entered _ _ _ _ _ hf => exact hf.running
      | next _ _ _ _ _ _ _ _ hn => exact hs.core.node_running hn
    obtain ⟨i, rfl⟩ := hm.clears hrun hterm'
    cases hm.task_origin ht with
    | kept _ hold => exact ho t b hold
    | entered _ _ _ hact | next _ _ _ _ _ _ hact => simp at hact
  rejected t call ht how := by
    have hold : p.state.node? t.address = none ∧ Rejects session p.state t.address := by
      cases hm.task_origin ht with
      | kept _ hold => exact hs.rejected t call hold how
      | rejected _ _ _ _ hr => exact ⟨hs.core.node_rejected hr, hr⟩
    have hnone : p'.state.node? t.address = none := by
      by_contra hne
      obtain ⟨n, hn⟩ := Option.ne_none_iff_exists'.mp hne
      cases hm.node_origin hn with
      | earlier _ hm' => simp [hold.1] at hm'
      | left hact _ _ _ hup =>
        cases hm.task_origin ht with
        | kept _ hmem =>
          subst hact
          exact ho t call hmem how hup
        | rejected _ _ hact' => simp [hact] at hact'
      | adopted _ had => exact had.foreign (hold.2 had.running had.known).2
    refine ⟨hnone, fun hrun hknown => ⟨hnone, ?_⟩⟩
    have hrun' : p.state.mTerminated = false := by
      by_contra hterm
      simp [hm.terminated (by simpa using hterm)] at hrun
    exact (hold.2 hrun' hknown).2
  called b a code flags data reply ht := by
    cases hm.task_origin ht with
    | kept _ hold => exact hs.called b a code flags data reply hold
    | transacting _ _ _ _ _ hact =>
      subst hact
      exact ho

theorem safe_next {a : Action} {r : Proc} (hs : Safe session p) (ho : Orderly session p a)
    (h : p.next session a = some r) :
    (r.aborted = none ∨ r.aborted = some .clearNotOwned) ∧ Safe session r := by
  obtain ⟨r', hs', rfl⟩ := Option.map_eq_some_iff.mp h
  obtain ⟨hab, ⟨-, rfl⟩ | ⟨a', hres, hm⟩⟩ := step_moves hs'
  · exact ⟨.inl hab, hs⟩
  · refine ⟨?_, hm.safe hs (ho a' hres)⟩
    generalize r'.1 = q, r'.2 = outs at hm
    cases hm with
    | abort _ f hf =>
      have hclear : f = .clearNotOwned := by
        by_contra hne
        exact hs.not_aborts (ho a' hres) hne hf
      exact .inr (congrArg some hclear)
    | _ =>
      left
      simpa using hab

end

end Binder.Rpc
