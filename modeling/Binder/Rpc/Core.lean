import Binder.Rpc.Origin

/-! What every process keeps up, whatever its peer sends: the shape of the nodes and of the
threads, a node for every live proxy, and one `sendDecStrong` for every dead one. -/
namespace Binder.Rpc
open Binder.Lib List

structure NodeOk (session : Session) (a : ℕ) (n : BinderNode) : Prop where
  known : (RpcWireAddress.fromRaw a).options &&& unknownOptions = 0
  shape : n.binder.isRemote = false ∨ ∃ id, n.binder = .rpcProxy id session.id a
  sentRef : n.sentRef = none ∨ n.sentRef = some n.binder
  sent : n.timesSent = 0 ↔ n.sentRef = none
  todo : ∀ x ∈ n.asyncTodo, x.ref = n.binder ∧ x.data.address = a ∧ x.data.oneway = true ∧
    x.asyncNumber = x.data.asyncNumber ∧ n.binder.isRemote = false ∧ a ≠ 0
  recd : n.binder.isRemote = true → n.timesRecd ≠ 0
  used : n.timesSent ≠ 0 ∨ n.timesRecd ≠ 0

/-- The address and the binder a thread handles a transaction or a flush of. -/
def Task.handles : Task → Option (ℕ × IBinder)
  | .entered t b => some (t.address, b)
  | .executing t (some b) _ => some (t.address, b)
  | .failed t (some b) _ => some (t.address, b)
  | .flushing a b _ => some (a, b)
  | .decToTarget a b _ => some (a, b)
  | _ => none

def TaskOk (session : Session) : Task → Prop
  | .entered t b => b.isRemote = false ∧ t.address ≠ 0 ∧ t.oneway = true
  | .executing t none _ => t.address = 0
  | .executing t (some b) _ => b.isRemote = false ∧ t.address ≠ 0
  | .failed t none _ => t.address ≠ 0
  | .failed t (some b) _ => b.isRemote = false ∧ t.address ≠ 0 ∧ t.oneway = true
  | .flushing _ b _ => b.isRemote = false
  | .decToTarget _ b _ => b.isRemote = false
  | .lastStrongRef b => Proc.ownProxy session b
  | .transacting b a _ _ _ _ => Proc.ownProxy session b ∧ a = b.rpcAddress
  | .waiting (some b) _ => Proc.ownProxy session b
  | _ => True

def Proc.HasNode (p : Proc) (b : IBinder) : Prop :=
  p.state.mTerminated = true ∨ ∃ n, p.state.node? b.rpcAddress = some n ∧ n.binder = b

structure Core (session : Session) (p : Proc) : Prop where
  nodes : ∀ a n, p.state.node? a = some n → NodeOk session a n
  tasks : ∀ t ∈ p.tasks, TaskOk session t
  proxies : ∀ b ∈ p.refs, Proc.ownProxy session b → p.HasNode b
  dying : ∀ b, .lastStrongRef b ∈ p.tasks → b ∉ p.refs ∧ p.HasNode b
  dyingOnce : ∀ b, p.tasks.count (.lastStrongRef b) ≤ 1
  freshRef : ∀ b ∈ p.refs, b.id < p.nextBinder
  freshDying : ∀ b, .lastStrongRef b ∈ p.tasks → b.id < p.nextBinder
  freshNode : ∀ a n, p.state.node? a = some n → n.binder.id < p.nextBinder
  ended : p.state.mTerminated = true → ∀ a, p.state.node? a = none

/-- `flushExcessBinderRefs` gives references back for local binders only. -/
def DecLocal (p : Proc) (a : Action) : Prop :=
  ∀ i x b after rest n, a = .decStrong i → pick p.tasks i = some (.decToTarget x b after, rest) →
    p.state.node? x = some n → n.binder.isRemote = false

section

variable {session : Session} {p p' : Proc} {act : Action} {outs : List Out}

theorem Core.init (session : Session) : Core session {} := by
  constructor <;> simp [RpcState.node?, Proc.refs, RpcState.refs, OrdMap.empty, OrdMap.find?, OrdMap.lookup]

/-! ### Nodes -/

variable {st : RpcState} {b c : IBinder} {x i : ℕ} {t : Task}

namespace NodeOk

variable {a : ℕ} {n : BinderNode}

theorem receive (h : NodeOk session a n) : NodeOk session a { n with timesRecd := n.timesRecd + 1 } :=
  { h with recd := fun _ => Nat.succ_ne_zero _, used := .inr (Nat.succ_ne_zero _) }

theorem adopt (id : ℕ) (h : Adopts session st a) :
    NodeOk session a { binder := .rpcProxy id session.id a, timesRecd := 1 } where
  known := h.known
  shape := .inr ⟨id, rfl⟩
  sentRef := .inl rfl
  sent := by simp
  todo := by simp
  recd := by simp
  used := by simp

theorem send (h : NodeOk session a n) :
    NodeOk session a { n with timesSent := n.timesSent + 1, sentRef := some n.binder } :=
  { h with sentRef := .inr rfl, sent := by simp, used := .inl (Nat.succ_ne_zero _) }

theorem create (ha : a ∈ upcoming session st) (hb : b.isRemote = false) :
    NodeOk session a { binder := b, sentRef := some b, timesSent := 1 } where
  known := by
    obtain ⟨j, _, rfl⟩ := mem_map.mp ha
    exact createdAddress_known _ _
  shape := .inl hb
  sentRef := .inr rfl
  sent := by simp
  todo := by simp
  recd := by simp [hb]
  used := by simp

section

variable (h : NodeOk session a n)
include h

theorem giveBack (hloc : n.binder.isRemote = false) (hs : n.timesSent ≠ 0) :
    NodeOk session a { n with timesRecd := 0 } :=
  { h with recd := fun hrem => by simp [hloc] at hrem, used := .inl hs }

theorem release {k : ℕ} (hk : k < n.timesSent) : NodeOk session a { n with timesSent := n.timesSent - k } := by
  refine { h with sent := ?_, used := .inl (Nat.sub_ne_zero_of_lt hk) }
  have hne : n.sentRef ≠ none := fun hnone => by
    have := h.sent.mpr hnone
    omega
  simp only [hne, iff_false]
  omega

theorem releaseLast (hr : n.timesRecd ≠ 0) : NodeOk session a { n with timesSent := 0, sentRef := none } :=
  { h with sentRef := .inl rfl, sent := by simp, used := .inr hr }

theorem progress (k : ℕ) : NodeOk session a { n with asyncNumber := k } :=
  { h with }

theorem pop (k : ℕ) (x : AsyncTodo) :
    NodeOk session a { n with asyncNumber := k, asyncTodo := n.asyncTodo.erase x } :=
  { h with todo := fun y hy => h.todo y (mem_of_mem_erase hy) }

theorem push {t : RpcWireTransaction} (ht : t.address = a)
    (how : t.oneway = true) (hloc : n.binder.isRemote = false) (ha : a ≠ 0) :
    NodeOk session a { n with asyncTodo := ⟨n.binder, t, t.asyncNumber⟩ :: n.asyncTodo } := by
  refine { h with todo := ?_ }
  intro x hx
  rcases mem_cons.mp hx with rfl | hx
  · exact ⟨rfl, ht, how, rfl, hloc, ha⟩
  · exact h.todo x hx

/-- A dead binder has not been sent. -/
theorem timesSent_eq_zero (hn : p.state.node? a = some n) (hdead : n.binder ∉ p.refs) : n.timesSent = 0 := by
  rcases h.sentRef with href | href
  · exact h.sent.mpr href
  · exact absurd (Proc.mem_refs_of_sentRef hn href) hdead

end

end NodeOk

theorem nodeOk_setNode {a : ℕ} {m n : BinderNode} (htable : st.mNodeForAddress = p.state.mNodeForAddress)
    (hnodes : ∀ a n, p.state.node? a = some n → NodeOk session a n)
    (hn : (st.setNode x m).node? a = some n) (hm : NodeOk session x m) : NodeOk session a n := by
  rw [RpcState.node?_setNode] at hn
  split_ifs at hn with heq
  · cases Option.some.inj hn
    exact heq ▸ hm
  · rw [RpcState.node?, htable] at hn
    exact hnodes a n hn

theorem nodeOk_eraseNode {a : ℕ} {n : BinderNode} (hnodes : ∀ a n, p.state.node? a = some n → NodeOk session a n)
    (hn : (p.state.eraseNode x).node? a = some n) : NodeOk session a n := by
  rw [RpcState.node?_eraseNode] at hn
  split_ifs at hn
  exact hnodes a n hn

theorem Core.dying_node (hc : Core session p) {n : BinderNode}
    (hb : .lastStrongRef b ∈ p.tasks) (hrun : p.state.mTerminated = false)
    (hn : p.state.node? b.rpcAddress = some n) : n.binder = b ∧ n.timesSent = 0 := by
  obtain ⟨hdead, ht | ⟨m, hm, hmb⟩⟩ := hc.dying b hb
  · simp [hrun] at ht
  · cases hm.symm.trans hn
    exact ⟨hmb, (hc.nodes _ _ hn).timesSent_eq_zero hn (hmb ▸ hdead)⟩

theorem Moves.nodeOk (hm : Moves session p act p' outs) (hc : Core session p) (hd : DecLocal p act)
    {a : ℕ} {n : BinderNode} (hn : p'.state.node? a = some n) : NodeOk session a n := by
  have hnodes := hc.nodes
  cases hm with
  | targetDead _ _ _ _ hf | targetRemote _ _ _ _ hf | entered _ _ _ _ hf | executed _ _ _ _ hf | readRemote _ _ hf
  | readLocal _ _ hf =>
    exact nodeOk_setNode rfl hnodes hn (hnodes _ _ hf.node).receive
  | targetAdopted _ _ _ had | readAdopted _ had =>
    exact nodeOk_setNode rfl hnodes hn (.adopt _ had)
  | decReleased _ _ _ _ _ hm _ _ hr =>
    cases hr with
    | part hk => exact nodeOk_setNode rfl hnodes hn ((hnodes _ _ hm).release hk)
    | last _ hr => exact nodeOk_setNode rfl hnodes hn ((hnodes _ _ hm).releaseLast hr)
    | erased => exact nodeOk_eraseNode hnodes hn
  | queued _ _ _ _ _ _ hp hm hb =>
    obtain ⟨hloc, ha, how⟩ := hc.tasks _ (mem_of_pick hp)
    subst hb
    exact nodeOk_setNode rfl hnodes hn ((hnodes _ _ hm).push rfl how hloc ha)
  | onewayDone _ _ _ _ _ _ _ _ _ _ _ hm =>
    exact nodeOk_setNode rfl hnodes hn ((hnodes _ _ hm).progress _)
  | onewayNext _ _ _ x _ _ _ _ _ _ hm =>
    exact nodeOk_setNode rfl hnodes hn ((hnodes _ _ hm).pop _ x)
  | onewaySent _ _ _ _ _ _ _ _ _ _ _ _ _ hm =>
    rw [Proc.settle_state] at hn
    exact nodeOk_setNode rfl hnodes hn ((hnodes _ _ hm).progress _)
  | decSent i x b after rest m _ hp _ hm _ hg =>
    rw [Proc.complete_state] at hn
    cases hg with
    | kept hs =>
      exact nodeOk_setNode rfl hnodes hn ((hnodes _ _ hm).giveBack (hd i x b after rest m rfl hp hm) hs)
    | erased => exact nodeOk_eraseNode hnodes hn
  | proxySent _ _ _ _ _ hp hrun hm _ hg =>
    cases hg with
    | kept hs => exact absurd (hc.dying_node (mem_of_pick hp) hrun hm).2 hs
    | erased => exact nodeOk_eraseNode hnodes hn
  | flattened _ _ _ _ hl =>
    cases hl with
    | sent m _ hm hmb =>
      subst hmb
      exact nodeOk_setNode rfl hnodes hn (hnodes _ _ hm).send
    | created _ _ hloc _ hup => exact nodeOk_setNode rfl hnodes hn (.create hup hloc)
  | transacting _ _ _ _ _ _ _ _ _ _ hm hmb =>
    subst hmb
    exact nodeOk_setNode rfl hnodes hn (hnodes _ _ hm).send
  | cleared => simp [RpcState.node?] at hn
  | flushed | flushFailed | decFailed | decNothing | blocked =>
    simp only [Proc.complete_state, Proc.completeFailed_state] at hn
    exact hnodes a n hn
  | replied | transactDead | onewaySentZero | released | dropped =>
    rw [Proc.settle_state] at hn
    exact hnodes a n hn
  | _ => exact hnodes a n hn

/-! ### Threads -/

theorem TaskOrigin.taskOk (h : TaskOrigin session p p' act t) (hc : Core session p) : TaskOk session t := by
  cases h with
  | kept _ ht => exact hc.tasks t ht
  | special _ _ h0 | rejected _ _ _ h0 => exact h0
  | entered _ _ _ _ h0 _ _ hloc how => exact ⟨hloc, h0, how⟩
  | executed _ _ _ _ h0 _ _ hloc => exact ⟨hloc, h0⟩
  | read a n _ _ _ hloc => exact hloc
  | ordered t b ht =>
    obtain ⟨hloc, h0, _⟩ := hc.tasks _ ht
    exact ⟨hloc, h0⟩
  | invalid t b _ ht => exact show TaskOk session (.entered t b) from hc.tasks _ ht
  | next _ _ _ _ x _ _ _ hn hx =>
    obtain ⟨href, haddr, how, _, hloc, h0⟩ := (hc.nodes _ _ hn).todo x hx
    exact ⟨href ▸ hloc, haddr ▸ h0, how⟩
  | flushing _ _ _ _ _ _ _ ht => exact (hc.tasks _ ht).1
  | decToTarget a b after ht => exact show TaskOk session (.flushing a b after) from hc.tasks _ ht
  | dying b hown => exact hown
  | transacting _ _ _ _ _ _ _ hown => exact ⟨hown, rfl⟩
  | waiting _ _ _ _ _ _ _ ht => exact (hc.tasks _ ht).1
  | waitingSpecial | releasing | shutdown => trivial

/-! ### Nodes that stay and nodes that go -/

inductive NodeFate (p p' : Proc) (act : Action) (a : ℕ) (n : BinderNode) : Prop
  | kept (n' : BinderNode) : p'.state.node? a = some n' → n'.binder = n.binder →
      n.timesSent ≤ n'.timesSent → NodeFate p p' act a n
  | lowered (k : ℕ) (n' : BinderNode) : act = .recvDecStrong a k → n.binder ∈ p.refs → k ≤ n.timesSent →
      p'.state.node? a = some n' → n'.binder = n.binder → n'.timesSent = n.timesSent - k →
      NodeFate p p' act a n
  | cleared : p'.state.mTerminated = true → NodeFate p p' act a n
  | released : act = .recvDecStrong a n.timesSent → n.binder ∈ p.refs → n.timesRecd = 0 →
      n.asyncTodo = [] → p'.state.node? a = none → NodeFate p p' act a n
  | flushed (i : ℕ) (b : IBinder) (after : After) (rest : List Task) : act = .decStrong i →
      pick p.tasks i = some (.decToTarget a b after, rest) → n.timesSent = 0 →
      p'.state.node? a = none → NodeFate p p' act a n
  | dropped (i : ℕ) (b : IBinder) (rest : List Task) : act = .decStrong i →
      pick p.tasks i = some (.lastStrongRef b, rest) → b.rpcAddress = a → p.state.mTerminated = false →
      n.timesSent = 0 → p'.tasks = rest → p'.state.node? a = none → NodeFate p p' act a n

theorem NodeFate.setNode {a : ℕ} {m' n : BinderNode} (hst : p'.state = st.setNode x m')
    (htable : st.mNodeForAddress = p.state.mNodeForAddress) (hn : p.state.node? a = some n)
    (hm : (∃ m, p.state.node? x = some m ∧ m'.binder = m.binder ∧
      (m.timesSent ≤ m'.timesSent ∨ ∃ k, act = .recvDecStrong x k ∧ m.binder ∈ p.refs ∧
        k ≤ m.timesSent ∧ m'.timesSent = m.timesSent - k)) ∨ p.state.node? x = none) :
    NodeFate p p' act a n := by
  by_cases heq : a = x
  · subst heq
    rcases hm with ⟨m, hm, hb, hs | ⟨k, hact, hlive, hk, hs⟩⟩ | hm
    · cases hm.symm.trans hn
      exact .kept m' (by simp [hst]) hb hs
    · cases hm.symm.trans hn
      exact .lowered k m' hact hlive hk (by simp [hst]) hb hs
    · simp [hn] at hm
  · refine .kept n ?_ rfl le_rfl
    rw [hst, RpcState.node?_setNode, if_neg heq, RpcState.node?, htable]
    exact hn

theorem NodeFate.eraseNode {a : ℕ} {n : BinderNode} (hst : p'.state = p.state.eraseNode x)
    (hn : p.state.node? a = some n) (hx : p'.state.node? x = none → a = x → NodeFate p p' act a n) :
    NodeFate p p' act a n := by
  by_cases heq : a = x
  · exact hx (by simp [hst]) heq
  · exact .kept n (by simp [hst, heq, hn]) rfl le_rfl

section

variable (hm : Moves session p act p' outs)
include hm

theorem Moves.node_fate {a : ℕ} {n : BinderNode}
    (hn : p.state.node? a = some n) : NodeFate p p' act a n := by
  cases hm with
  | targetDead _ _ m _ hf | targetRemote _ _ m _ hf | entered _ _ m _ hf | executed _ _ m _ hf | readRemote _ m hf
  | readLocal _ m hf =>
    exact .setNode rfl rfl hn (.inl ⟨m, hf.node, rfl, .inl le_rfl⟩)
  | targetAdopted _ _ _ had | readAdopted _ had => exact .setNode rfl rfl hn (.inr had.absent)
  | decReleased _ k m _ _ hm hlive _ hr =>
    cases hr with
    | part hk => exact .setNode rfl rfl hn (.inl ⟨m, hm, rfl, .inr ⟨k, rfl, hlive, hk.le, rfl⟩⟩)
    | last hk =>
      exact .setNode rfl rfl hn
        (.inl ⟨m, hm, rfl, .inr ⟨k, rfl, hlive, hk.le, by simp [hk]⟩⟩)
    | erased hk hr htodo =>
      refine .eraseNode rfl hn fun hnone heq => ?_
      subst heq
      cases hm.symm.trans hn
      exact .released (by rw [hk]) hlive hr htodo hnone
  | queued _ _ _ _ m _ _ hm | onewayDone _ _ _ _ _ _ _ m _ _ _ hm | onewayNext _ _ _ _ _ _ _ m _ _ hm
  | transacting _ _ _ _ _ _ m _ _ _ hm =>
    exact .setNode rfl rfl hn (.inl ⟨m, hm, rfl, .inl (by simp)⟩)
  | onewaySent _ _ _ _ _ _ _ _ _ m _ _ _ hm =>
    exact .setNode (Proc.settle_state ..) rfl hn (.inl ⟨m, hm, rfl, .inl (by simp)⟩)
  | decSent i _ b after rest m _ hp _ hm _ hg =>
    cases hg with
    | kept => exact .setNode (Proc.complete_state ..) rfl hn (.inl ⟨m, hm, rfl, .inl (by simp)⟩)
    | erased hs =>
      refine .eraseNode (Proc.complete_state ..) hn fun hnone heq => ?_
      subst heq
      cases hm.symm.trans hn
      exact .flushed i b after rest rfl hp hs hnone
  | proxySent i b rest m _ hp hrun hm _ hg =>
    cases hg with
    | kept => exact .setNode rfl rfl hn (.inl ⟨m, hm, rfl, .inl (by simp)⟩)
    | erased hs =>
      refine .eraseNode rfl hn fun hnone heq => ?_
      subst heq
      obtain rfl : n = m := Option.some.inj (hn.symm.trans hm)
      exact .dropped i b rest rfl hp rfl hrun hs rfl hnone
  | flattened _ _ _ _ hl =>
    cases hl with
    | sent m _ hm => exact .setNode rfl rfl hn (.inl ⟨m, hm, rfl, .inl (by simp)⟩)
    | created _ _ _ hnone => exact .setNode rfl rfl hn (.inr hnone)
  | cleared => exact .cleared rfl
  | flushed | decNothing => exact .kept n (by rwa [Proc.complete_state]) rfl le_rfl
  | flushFailed | decFailed | blocked => exact .kept n (by rwa [Proc.completeFailed_state]) rfl le_rfl
  | replied | transactDead | onewaySentZero | released | dropped =>
    exact .kept n (by rwa [Proc.settle_state]) rfl le_rfl
  | _ => exact .kept n hn rfl le_rfl

/-- Only `clear` terminates a session, and it leaves no node. -/
theorem Moves.mTerminated : p'.state.mTerminated = p.state.mTerminated ∨
    p'.state.mTerminated = true ∧ (∀ a, p'.state.node? a = none) ∧ ∃ i, act = .clear i := by
  cases hm with
  | decReleased _ _ _ _ _ _ _ _ hr => cases hr <;> exact .inl rfl
  | decSent _ _ _ _ _ _ _ _ _ _ _ hg => cases hg <;> exact .inl (by simp)
  | proxySent _ _ _ _ _ _ _ _ _ hg => cases hg <;> exact .inl rfl
  | flattened _ _ _ _ hl => cases hl <;> exact .inl rfl
  | cleared i => exact .inr ⟨rfl, fun a => by simp [RpcState.node?], i, rfl⟩
  | flushed | flushFailed | decFailed | decNothing | blocked | replied | transactDead | onewaySentZero
  | released | dropped | onewaySent => exact .inl (by simp)
  | _ => exact .inl rfl

theorem Moves.terminated (h : p.state.mTerminated = true) : p'.state.mTerminated = true := by
  rcases hm.mTerminated with hsame | ⟨hp', -⟩
  · exact hsame.trans h
  · exact hp'

theorem Moves.terminated_cases (h : p'.state.mTerminated = true) :
    p.state.mTerminated = true ∨ ∀ a, p'.state.node? a = none :=
  hm.mTerminated.imp (·.symm.trans h) (·.2.1)

theorem Moves.clears (h : p.state.mTerminated = false)
    (h' : p'.state.mTerminated = true) : ∃ i, act = .clear i := by
  rcases hm.mTerminated with hsame | ⟨-, -, hact⟩
  · simp [hsame, h] at h'
  · exact hact

end

/-! ### Every action keeps the invariant -/

theorem rpcAddress_of_ownProxy {a : ℕ} {n : BinderNode} (h : NodeOk session a n)
    (hb : Proc.ownProxy session b) (hn : n.binder = b) : b.rpcAddress = a := by
  subst hn
  rcases h.shape with hloc | ⟨id, hid⟩
  · rw [isRemote_of_ownProxy hb] at hloc
    simp at hloc
  · simp [hid, IBinder.rpcAddress]

/-- The node of a proxy stays until its last reference was given back. -/
theorem Moves.hasNode (hm : Moves session p act p' outs) (hc : Core session p) (hd : DecLocal p act)
    (hb : Proc.ownProxy session b) (h : p.HasNode b)
    (hlive : b ∈ p.refs ∨ .lastStrongRef b ∈ p'.tasks) : p'.HasNode b := by
  rcases h with ht | ⟨n, hn, hnb⟩
  · exact .inl (hm.terminated ht)
  have hok := hc.nodes _ _ hn
  have hrem : n.binder.isRemote = true := hnb ▸ isRemote_of_ownProxy hb
  cases hm.node_fate hn with
  | kept n' hn' hb' | lowered _ n' _ _ _ hn' hb' => exact .inr ⟨n', hn', hb'.trans hnb⟩
  | cleared ht => exact .inl ht
  | released _ _ hr => exact absurd hr (hok.recd hrem)
  | flushed i c after rest hact hp =>
    have := hd i _ c after rest n hact hp hn
    simp [hrem] at this
  | dropped _ c _ _ hp haddr hrun _ htasks =>
    have hcn := (hc.dying_node (mem_of_pick hp) hrun (haddr ▸ hn)).1
    obtain rfl : c = b := hcn.symm.trans hnb
    rcases hlive with hlive | hlive
    · exact absurd hlive (hc.dying c (mem_of_pick hp)).1
    · -- the thread that erased the node was the only one
      have hcount := hc.dyingOnce c
      rw [(pick_perm hp).count_eq, count_cons_self] at hcount
      rw [htasks] at hlive
      have := count_pos_iff.mpr hlive
      omega

theorem count_pick_le {l r : List Task} {x : Task} (h : pick l i = some (x, r)) : r.count t ≤ l.count t := by
  rw [(pick_perm h).count_eq, count_cons]
  omega

theorem Ends.count_le {call : ℕ} {t : RpcWireTransaction} {target : Option IBinder} {rest : List Task}
    {s s' : Status} {x : Task} (h : Ends p rest t target call i s s') :
    rest.count x ≤ p.tasks.count x := by
  cases h with
  | executed hp | failed hp => exact count_pick_le hp

theorem Proc.count_settle_le {q : Proc} (hb : b ∈ p.refs)
    (hq : q.tasks.count (.lastStrongRef c) ≤ p.tasks.count (.lastStrongRef c)) :
    (settle session b q).tasks.count (.lastStrongRef c) ≤
      p.tasks.count (.lastStrongRef c) + if c ∈ p.refs then 1 else 0 := by
  unfold settle
  split_ifs with h1 h2
  · exact (count_cons ..).trans_le (by split_ifs <;> omega)
  · have hne : ¬ b = c := fun h => h2 (h ▸ hb)
    simpa [hne] using hq
  · omega
  · omega

/-- At most one thread more reports a proxy, and only when it was alive before. -/
theorem Moves.count_lastStrongRef (hm : Moves session p act p' outs) (c : IBinder) :
    p'.tasks.count (.lastStrongRef c) ≤ p.tasks.count (.lastStrongRef c) + if c ∈ p.refs then 1 else 0 := by
  cases hm with
  | special | rejected | targetDead | targetRemote | targetAdopted | entered | executed | decDead
  | readLocal | transacting | specialSent | shuttingDown => simp
  | decReleased a k n ref => cases ref <;> simp
  | replied _ _ _ _ hp | transactDead _ _ _ _ _ _ _ _ _ hp | onewaySent _ _ _ _ _ _ _ _ _ _ hp
  | onewaySentZero _ _ _ _ _ _ _ _ _ hp | released _ _ _ hp =>
    exact Proc.count_settle_le (Proc.mem_refs_of_task (mem_of_pick hp) (by simp [Task.refs]))
      (count_pick_le hp)
  | dropped b hb => exact Proc.count_settle_le (Proc.mem_refs_of_held hb) le_rfl
  | repliedSpecial _ _ _ hp | proxySent _ _ _ _ _ hp | proxyNothing _ _ _ hp | proxyBlocked _ _ _ hp =>
    exact (count_pick_le hp).trans (Nat.le_add_right _ _)
  | interrupted _ _ _ _ hp | ordered _ _ _ _ _ hp | invalid _ _ _ _ _ hp | flushDec _ _ _ _ _ _ hp
  | transactExhausted _ _ _ _ _ _ _ _ _ hp | syncSent _ _ _ _ _ _ _ _ _ _ hp =>
    exact (count_pick_le hp).trans (Nat.le_add_right _ _)
  | queued _ _ _ _ _ more hp _ _ _ hmore =>
    have hz : more.count (Task.lastStrongRef c) = 0 := by rcases hmore with rfl | rfl <;> simp
    rw [count_append, hz, zero_add]
    exact (count_pick_le hp).trans (Nat.le_add_right _ _)
  | onewayGone _ _ _ _ _ _ _ he | syncReply _ _ _ _ _ _ _ he =>
    exact he.count_le.trans (Nat.le_add_right _ _)
  | onewayExhausted _ _ _ _ _ _ _ he | onewayNext _ _ _ _ _ _ _ _ he | syncFlush _ _ _ _ _ _ he =>
    exact he.count_le.trans (Nat.le_add_right _ _)
  | onewayDone _ _ _ _ _ _ _ _ more he _ _ _ hmore =>
    have hz : more.count (Task.lastStrongRef c) = 0 := by
      rcases hmore with rfl | ⟨b, _, _, _, rfl⟩ <;> simp
    rw [count_append, hz, zero_add]
    exact he.count_le.trans (Nat.le_add_right _ _)
  | flushed _ _ _ _ _ hp | decNothing _ _ _ _ _ hp | decSent _ _ _ _ _ _ _ hp =>
    rw [Proc.complete_tasks]
    exact (count_pick_le hp).trans (Nat.le_add_right _ _)
  | flushFailed _ _ _ _ _ hp | decFailed _ _ _ _ _ hp | blocked _ _ _ _ _ hp =>
    rw [Proc.completeFailed_tasks]
    exact (count_pick_le hp).trans (Nat.le_add_right _ _)
  | clearedAgain _ _ _ hp | cleared _ _ _ hp =>
    rw [count_append, count_eq_zero.mpr (by simp), zero_add]
    exact (count_pick_le hp).trans (Nat.le_add_right _ _)
  | _ => exact Nat.le_add_right _ _

theorem Moves.nextBinder_le (hm : Moves session p act p' outs) : p.nextBinder ≤ p'.nextBinder := by
  cases hm <;> simp

theorem Moves.core (hm : Moves session p act p' outs) (hc : Core session p) (hd : DecLocal p act) :
    Core session p' where
  nodes _ _ hn := hm.nodeOk hc hd hn
  tasks _ ht := (hm.task_origin ht).taskOk hc
  proxies b hb hown := by
    rcases hm.refs_origin hb with hold | ⟨_, _, hnew⟩
    · exact hm.hasNode hc hd hown (hc.proxies b hold hown) (.inl hold)
    · exact .inr (hnew hown)
  dying b hb := by
    have hown : Proc.ownProxy session b := (hm.task_origin hb).taskOk hc
    cases hm.task_origin hb with
    | kept _ hold =>
      obtain ⟨hdead, hnode⟩ := hc.dying b hold
      refine ⟨fun hlive => ?_, hm.hasNode hc hd hown hnode (.inr hb)⟩
      rcases hm.refs_origin hlive with h | ⟨hid, _, _⟩
      · exact hdead h
      · exact absurd (hc.freshDying b hold) (by omega)
    | dying _ _ hlive hdead =>
      exact ⟨hdead, hm.hasNode hc hd hown (hc.proxies b hlive hown) (.inl hlive)⟩
  dyingOnce b := by
    have hle := hm.count_lastStrongRef b
    split_ifs at hle with hlive
    · have hz : p.tasks.count (.lastStrongRef b) = 0 :=
        count_eq_zero.mpr fun hmem => (hc.dying b hmem).1 hlive
      omega
    · exact hle.trans (hc.dyingOnce b)
  freshRef b hb := by
    rcases hm.refs_origin hb with hold | ⟨hid, hnext, _⟩
    · exact (hc.freshRef b hold).trans_le hm.nextBinder_le
    · omega
  freshDying b hb := by
    cases hm.task_origin hb with
    | kept _ hold => exact (hc.freshDying b hold).trans_le hm.nextBinder_le
    | dying _ _ hlive => exact (hc.freshRef b hlive).trans_le hm.nextBinder_le
  freshNode a n hn := by
    cases hm.node_origin hn with
    | earlier m hm' hb => exact hb ▸ (hc.freshNode a m hm').trans_le hm.nextBinder_le
    | left _ _ hheld => exact (hc.freshRef _ (Proc.mem_refs_of_held hheld)).trans_le hm.nextBinder_le
    | adopted _ _ hid hnext =>
      rw [hid, hnext]
      exact Nat.lt_succ_self _
  ended ht a := by
    rcases hm.terminated_cases ht with hold | hnone
    · by_contra hne
      obtain ⟨n, hn⟩ := Option.ne_none_iff_exists'.mp hne
      cases hm.node_origin hn with
      | earlier _ hm' => simp [hc.ended hold a] at hm'
      | left _ hrun => simp [hold] at hrun
      | adopted _ had => exact absurd (hold.symm.trans had.running) (by simp)
    · exact hnone a

/-! ### Consequences -/

theorem Core.node_running (hc : Core session p) {a : ℕ} {n : BinderNode} (hn : p.state.node? a = some n) :
    p.state.mTerminated = false := by
  by_contra ht
  simp [hc.ended (by simpa using ht) a] at hn

theorem Core.node_rejected (hc : Core session p) {a : ℕ} (hr : Rejects session p.state a) :
    p.state.node? a = none := by
  by_contra hne
  obtain ⟨n, hn⟩ := Option.ne_none_iff_exists'.mp hne
  exact hne (hr (hc.node_running hn) (hc.nodes a n hn).known).1

theorem Core.proxy_node (hc : Core session p) (hb : b ∈ p.refs)
    (hown : Proc.ownProxy session b) (hrun : p.state.mTerminated = false) :
    ∃ n, p.state.node? b.rpcAddress = some n ∧ n.binder = b := by
  rcases hc.proxies b hb hown with ht | h
  · simp [hrun] at ht
  · exact h

theorem ownProxy_remote (hown : Proc.ownProxy session c) : c.isRemote = true := by
  cases c <;> simp_all [Proc.ownProxy, IBinder.isRemote]

/-- A thread goes on with the binder it handled, or starts with one that was just received. -/
theorem TaskOrigin.handles {a : ℕ} (h : TaskOrigin session p p' act t)
    (hc : Core session p) (ht : t.handles = some (a, b)) :
    (∃ t' ∈ p.tasks, t'.handles = some (a, b)) ∨
      (act.enters = some a ∧ ∃ n, Finds p.state a n ∧ n.binder = b ∧ b ∈ p.refs ∧ b.isRemote = false) := by
  cases h with
  | kept _ hm => exact .inl ⟨t, hm, ht⟩
  | special | rejected | dying | transacting | waiting | waitingSpecial | releasing | shutdown =>
    simp [Task.handles] at ht
  | entered _ _ n hact h0 hf hlive hloc | executed _ _ n hact h0 hf hlive hloc =>
    obtain ⟨rfl, rfl⟩ := Prod.mk.inj (Option.some.inj ht)
    exact .inr ⟨hact ▸ if_neg h0, n, hf, rfl, hlive, hloc⟩
  | read x n hact hf hlive hloc =>
    obtain ⟨rfl, rfl⟩ := Prod.mk.inj (Option.some.inj ht)
    exact .inr ⟨hact ▸ rfl, n, hf, rfl, hlive, hloc⟩
  | ordered _ _ hm | invalid _ _ _ hm | flushing _ _ _ _ _ _ _ hm | decToTarget _ _ _ hm =>
    exact .inl ⟨_, hm, ht⟩
  | next _ _ _ _ x _ _ hm hn hx =>
    obtain ⟨_, haddr, _⟩ := (hc.nodes _ _ hn).todo x hx
    left
    rcases hm with hm | hm
    · exact ⟨_, hm, by simpa [Task.handles, haddr] using ht⟩
    · exact ⟨_, hm, by simpa [Task.handles, haddr] using ht⟩

theorem TaskOk.local_of_handles {a : ℕ} (h : TaskOk session t)
    (hh : t.handles = some (a, b)) : t.refs = [b] ∧ b.isRemote = false := by
  match t, hh, h with
  | .entered _ _, hh, hok | .executing _ (some _) _, hh, hok | .failed _ (some _) _, hh, hok =>
    obtain ⟨_, rfl⟩ := Prod.mk.inj (Option.some.inj hh)
    exact ⟨rfl, hok.1⟩
  | .flushing _ _ _, hh, hok | .decToTarget _ _ _, hh, hok =>
    obtain ⟨_, rfl⟩ := Prod.mk.inj (Option.some.inj hh)
    exact ⟨rfl, hok⟩

theorem Core.handles_local (hc : Core session p) (ht : t ∈ p.tasks) {a : ℕ}
    (hh : t.handles = some (a, b)) : b.isRemote = false := ((hc.tasks t ht).local_of_handles hh).2

end

end Binder.Rpc
