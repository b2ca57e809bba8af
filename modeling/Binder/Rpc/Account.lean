import Binder.Rpc.Net

/-! The references one action of a process moves: out of its table, into its threads, into
its parcels, and back. -/
namespace Binder.Rpc
open Binder.Lib List

/-- References on their way to be sent as the target of a transaction. -/
def Task.carried (a : ℕ) : Task → ℕ
  | .transacting _ x _ _ _ _ => if x = a then 1 else 0
  | _ => 0

def Proc.carried (p : Proc) (a : ℕ) : ℕ := (p.tasks.map (Task.carried a)).sum

/-- References an output sends as a target, and references it gives back. -/
def Out.targets (a : ℕ) : Out → ℕ
  | .transact t _ => (target t).count a
  | _ => 0

def Out.decs (a : ℕ) : Out → ℕ
  | .decStrong x k => if x = a then k else 0
  | _ => 0

namespace RpcState

variable {st : RpcState} {a x : ℕ} {n m : BinderNode}

@[simp] theorem sentTimes_setNode :
    (st.setNode x m).sentTimes a = if a = x then m.timesSent else st.sentTimes a := by
  unfold sentTimes
  rw [node?_setNode]
  split_ifs <;> rfl

@[simp] theorem recdTimes_setNode :
    (st.setNode x m).recdTimes a = if a = x then m.timesRecd else st.recdTimes a := by
  unfold recdTimes
  rw [node?_setNode]
  split_ifs <;> rfl

@[simp] theorem sentTimes_eraseNode : (st.eraseNode x).sentTimes a = if a = x then 0 else st.sentTimes a := by
  unfold sentTimes
  rw [node?_eraseNode]
  split_ifs <;> rfl

@[simp] theorem recdTimes_eraseNode : (st.eraseNode x).recdTimes a = if a = x then 0 else st.recdTimes a := by
  unfold recdTimes
  rw [node?_eraseNode]
  split_ifs <;> rfl

theorem sentTimes_of_node (h : st.node? a = some n) : st.sentTimes a = n.timesSent := by
  simp [sentTimes, h]

theorem recdTimes_of_node (h : st.node? a = some n) : st.recdTimes a = n.timesRecd := by
  simp [recdTimes, h]

theorem sentTimes_of_none (h : st.node? a = none) : st.sentTimes a = 0 := by simp [sentTimes, h]

theorem recdTimes_of_none (h : st.node? a = none) : st.recdTimes a = 0 := by simp [recdTimes, h]

theorem exists_node_of_sentTimes (h : st.sentTimes a ≠ 0) : ∃ n, st.node? a = some n ∧ n.timesSent ≠ 0 := by
  cases hn : st.node? a with
  | none => exact absurd (sentTimes_of_none hn) h
  | some n => exact ⟨n, rfl, sentTimes_of_node hn ▸ h⟩

end RpcState

section

variable {session : Session} {p p' : Proc} {act : Action} {outs : List Out}

variable {i call k : ℕ} {rest : List Task} {t : RpcWireTransaction}

theorem carried_pick {t : Task} (h : pick p.tasks i = some (t, rest)) (a : ℕ) :
    p.carried a = t.carried a + (rest.map (Task.carried a)).sum :=
  sum_map_of_pick h _

theorem carried_ends {target : Option IBinder}
    {s s' : Status} (h : Ends p rest t target call i s s') (a : ℕ) :
    p.carried a = (rest.map (Task.carried a)).sum := by
  cases h with
  | executed hp | failed hp =>
    rw [carried_pick hp]
    exact zero_add _

theorem carried_settle (b : IBinder) (q : Proc) (a : ℕ) : (Proc.settle session b q).carried a = q.carried a := by
  unfold Proc.settle Proc.carried
  split_ifs <;> simp [Task.carried]

theorem carried_complete (b : IBinder) (rest : List Task) (q : Proc) (after : After) (a : ℕ) :
    (Proc.complete b rest q after).1.carried a = (rest.map (Task.carried a)).sum := by
  rw [Proc.carried, Proc.complete_tasks]

theorem carried_completeFailed (rest : List Task) (q : Proc) (after : After) (a : ℕ) :
    (Proc.completeFailed rest q after).1.carried a = (rest.map (Task.carried a)).sum := by
  rw [Proc.carried, Proc.completeFailed_tasks]

/-- The books of one action at one address. -/
structure Accounts (p p' : Proc) (act : Action) (outs : List Out) (a : ℕ) : Prop where
  sent : p'.state.sentTimes a + p.carried a = p.state.sentTimes a + p'.carried a +
    (outs.flatMap Out.flat).count a + (outs.map (Out.targets a)).sum + (p.abandoned act outs).count a
  recd : p.state.recdTimes a = p'.state.recdTimes a + (outs.map (Out.decs a)).sum +
    (outs.map (truncated p.state a)).sum

def Quiet (outs : List Out) : Prop :=
  outs = [] ∨ (∃ call, outs = [.reply call]) ∨ ∃ t b, outs = [.execute t b]

theorem abandoned_eq_nil (h : ∀ i call, act ≠ .transactAddress i call) : p.abandoned act outs = [] := by
  unfold Proc.abandoned
  split
  · exact absurd rfl (h _ _)
  · rfl

theorem Accounts.still {a : ℕ} (hs : p'.state.sentTimes a = p.state.sentTimes a)
    (hr : p'.state.recdTimes a = p.state.recdTimes a) (hc : p'.carried a = p.carried a)
    (ho : Quiet outs) (hact : ∀ i call, act ≠ .transactAddress i call) : Accounts p p' act outs a := by
  constructor
  · rw [abandoned_eq_nil hact, hs, hc]
    rcases ho with rfl | ⟨call, rfl⟩ | ⟨t, b, rfl⟩ <;> simp [Out.flat, Out.targets]
  · rw [hr]
    rcases ho with rfl | ⟨call, rfl⟩ | ⟨t, b, rfl⟩ <;> simp [Out.decs, truncated]

/-- A node whose counts stay. -/
theorem times_setNode {x a : ℕ} {n m : BinderNode} (hn : p.state.node? x = some n)
    (hs : m.timesSent = n.timesSent) (hr : m.timesRecd = n.timesRecd) :
    (p.state.setNode x m).sentTimes a = p.state.sentTimes a ∧
      (p.state.setNode x m).recdTimes a = p.state.recdTimes a := by
  rw [RpcState.sentTimes_setNode, RpcState.recdTimes_setNode]
  split_ifs with h
  · subst h
    rw [hs, hr, RpcState.sentTimes_of_node hn, RpcState.recdTimes_of_node hn]
    exact ⟨rfl, rfl⟩
  · exact ⟨rfl, rfl⟩

theorem GivesBack.times {x a : ℕ} {n : BinderNode} {st : RpcState} (hn : p.state.node? x = some n)
    (h : GivesBack p.state x n st) : st.sentTimes a = p.state.sentTimes a ∧
      st.recdTimes a = if a = x then 0 else p.state.recdTimes a := by
  have hs := RpcState.sentTimes_of_node hn
  cases h with
  | kept =>
    split_ifs with h <;> simp [h, hs]
  | erased hz =>
    split_ifs with h <;> simp [h, hs, hz]

theorem Leaves.times {b : IBinder} {x a : ℕ} {st : RpcState} (h : Leaves session p.state b x st) :
    st.sentTimes a = p.state.sentTimes a + (if a = x then 1 else 0) ∧ st.recdTimes a = p.state.recdTimes a := by
  cases h with
  | sent _ _ hn =>
    rw [RpcState.sentTimes_setNode, RpcState.recdTimes_setNode]
    split_ifs with h
    · subst h
      exact ⟨by rw [RpcState.sentTimes_of_node hn], (RpcState.recdTimes_of_node hn).symm⟩
    · exact ⟨rfl, rfl⟩
  | created _ _ _ hn =>
    rw [RpcState.sentTimes_setNode, RpcState.recdTimes_setNode]
    split_ifs with h
    · subst h
      exact ⟨by rw [RpcState.sentTimes_of_none hn], (RpcState.recdTimes_of_none hn).symm⟩
    · exact ⟨rfl, rfl⟩

theorem Accounts.giveBack {x a : ℕ} {n : BinderNode} {st : RpcState} {more : List Out}
    (hn : p.state.node? x = some n) (hg : GivesBack p.state x n st) (hst : p'.state = st)
    (hc : p'.carried a = p.carried a) (hk : k = n.timesRecd % 2 ^ 32) (hm : Quiet more)
    (hact : ∀ i call, act ≠ .transactAddress i call) :
    Accounts p p' act (.decStrong x k :: more) a := by
  obtain ⟨hs, hr⟩ := hg.times hn
  constructor
  · rw [abandoned_eq_nil hact, hst, hs, hc]
    rcases hm with rfl | ⟨call, rfl⟩ | ⟨t, b, rfl⟩ <;> simp [Out.flat, Out.targets]
  · have hq : (more.map (Out.decs a)).sum = 0 ∧ (more.map (truncated p.state a)).sum = 0 := by
      rcases hm with rfl | ⟨call, rfl⟩ | ⟨t, b, rfl⟩ <;> simp [Out.decs, truncated]
    rw [hst, hr, map_cons, map_cons, sum_cons, sum_cons, hq.1, hq.2]
    by_cases h : a = x
    · subst h
      simp only [Out.decs, truncated, if_true, RpcState.recdTimes_of_node hn]
      omega
    · have h' : ¬ x = a := fun e => h e.symm
      simp [Out.decs, truncated, h, h']

theorem Moves.accounts (hm : Moves session p act p' outs) (hz : p.carried 0 = 0)
    (hact : act.isLocal = true ∨ ∃ i, act = .recvReply i) (hclear : ∀ i, act ≠ .clear i)
    (hab : p'.aborted = none) (a : ℕ) : Accounts p p' act outs a := by
  cases hm with
  | abort => simp at hab
  | special | rejected | targetDead | targetRemote | targetAdopted | entered | executed | decIgnored
  | decDead | decReleased | readRejected | readRemote | readAdopted | readLocal =>
    simp [Action.isLocal] at hact
  | clearedAgain i | cleared i => exact absurd rfl (hclear i)
  | replied _ _ _ _ hp | released _ _ _ hp =>
    refine .still (by simp) (by simp) ?_ (.inl rfl) (by simp)
    rw [carried_settle, carried_pick hp]
    simp [Task.carried, Proc.carried]
  | repliedSpecial _ _ _ hp | interrupted _ _ _ _ hp | flushDec _ _ _ _ _ _ hp | proxyNothing _ _ _ hp
  | proxyBlocked _ _ _ hp =>
    refine .still rfl rfl ?_ (.inl rfl) (by simp)
    rw [carried_pick hp]
    simp [Task.carried, Proc.carried]
  | ordered _ _ _ _ _ hp | invalid _ _ _ _ _ hp =>
    refine .still rfl rfl ?_ (by simp [Quiet]) (by simp)
    rw [carried_pick hp]
    simp [Task.carried, Proc.carried]
  | queued _ t b _ n _ hp hn _ _ hmore =>
    obtain ⟨hs, hr⟩ := times_setNode (a := a) (m := { n with asyncTodo := ⟨b, t, t.asyncNumber⟩ :: n.asyncTodo }) hn rfl rfl
    refine .still hs hr ?_ (.inl rfl) (by simp)
    rw [carried_pick hp]
    rcases hmore with rfl | rfl <;> simp [Task.carried, Proc.carried]
  | onewayGone _ _ _ _ _ _ _ he | onewayExhausted _ _ _ _ _ _ _ he | syncFlush _ _ _ _ _ _ he
  | syncReply _ _ _ _ _ _ _ he =>
    refine .still rfl rfl ?_ (by simp [Quiet]) (by simp)
    rw [carried_ends he]
    simp [Task.carried, Proc.carried]
  | onewayDone _ _ _ _ _ _ _ n _ he _ hn _ hmore =>
    obtain ⟨hs, hr⟩ := times_setNode (a := a) (m := { n with asyncNumber := n.asyncNumber + 1 }) hn rfl rfl
    refine .still hs hr ?_ (.inl rfl) (by simp)
    rw [carried_ends he]
    rcases hmore with rfl | ⟨b, _, _, _, rfl⟩ <;> simp [Task.carried, Proc.carried]
  | onewayNext _ _ _ x _ _ _ n he _ hn =>
    obtain ⟨hs, hr⟩ := times_setNode (a := a)
      (m := { n with asyncNumber := n.asyncNumber + 1, asyncTodo := n.asyncTodo.erase x }) hn rfl rfl
    refine .still hs hr ?_ (.inl rfl) (by simp)
    rw [carried_ends he]
    simp [Task.carried, Proc.carried]
  | flushed i x b after rest hp | decNothing i x b after rest hp =>
    refine .still (by simp) (by simp) ?_ ?_ (by simp)
    · rw [carried_complete, carried_pick hp]
      simp [Task.carried]
    · exact (Proc.complete_outs b rest p after).imp_right .inl
  | flushFailed i x b after rest hp | decFailed i x b after rest hp | blocked i x b after rest hp =>
    refine .still (by simp) (by simp) ?_ ?_ (by simp)
    · rw [carried_completeFailed, carried_pick hp]
      simp [Task.carried]
    · exact (Proc.completeFailed_outs rest p after).imp_right .inl
  | decSent i x b after rest n st hp _ hn _ hg =>
    refine .giveBack hn hg (Proc.complete_state ..) ?_ rfl ?_ (by simp)
    · rw [carried_complete, carried_pick hp]
      simp [Task.carried]
    · exact (Proc.complete_outs b rest { p with state := st } after).imp_right .inl
  | proxySent _ _ _ _ _ hp _ hn _ hg =>
    refine .giveBack hn hg rfl ?_ rfl (.inl rfl) (by simp)
    rw [carried_pick hp]
    simp [Task.carried, Proc.carried]
  | flattened b x _ _ hl =>
    obtain ⟨hs, hr⟩ := hl.times (a := a)
    constructor
    · simp only [abandoned_eq_nil (by simp : ∀ i call, Action.flatten b ≠ .transactAddress i call), hs]
      by_cases h : a = x
      · subst h
        simp [Proc.carried, Out.flat, Out.targets]
        omega
      · have h' : ¬ x = a := fun e => h e.symm
        simp [Proc.carried, Out.flat, Out.targets, h, h']
    · simp [hr, Out.decs, truncated]
  | transacting b code flags data reply x n _ _ hrun hn hnb =>
    have hl : Leaves session p.state b x _ := .sent n hrun hn hnb
    obtain ⟨hs, hr⟩ := hl.times (a := a)
    constructor
    · simp only [abandoned_eq_nil (by simp : ∀ i call, Action.transact b code flags data reply ≠
        .transactAddress i call), hs]
      simp [Proc.carried, Task.carried, eq_comm]
      omega
    · simp [hr]
  | transactDead _ _ _ _ _ _ _ _ _ hp =>
    constructor
    · simp only [Proc.abandoned, hp, Proc.settle_state, carried_settle, carried_pick hp]
      simp [Task.carried, Proc.carried, count_singleton]
      omega
    · simp
  | transactExhausted _ _ _ _ _ _ _ _ _ hp =>
    constructor
    · simp only [Proc.abandoned, hp, carried_pick hp]
      simp [Task.carried, Proc.carried, count_singleton]
      omega
    · simp
  | onewaySent _ _ _ _ _ _ _ _ _ n hp hx _ hn =>
    obtain ⟨hs, hr⟩ := times_setNode (a := a) (m := { n with asyncNumber := n.asyncNumber + 1 }) hn rfl rfl
    constructor
    · simp only [Proc.settle_state, hs, carried_settle, carried_pick hp]
      simp [Proc.abandoned, Task.carried, Proc.carried, Out.flat, Out.targets, target, hx, count_singleton]
      omega
    · simp [hr, Out.decs, truncated]
  | onewaySentZero _ _ _ _ _ _ _ _ _ hp =>
    rw [carried_pick hp] at hz
    simp [Task.carried] at hz
  | syncSent _ _ _ x _ _ _ _ _ _ hp =>
    have hx : x ≠ 0 := by
      rintro rfl
      rw [carried_pick hp] at hz
      simp [Task.carried] at hz
    constructor
    · simp only [carried_pick hp]
      simp [Proc.abandoned, Task.carried, Proc.carried, Out.flat, Out.targets, target, hx, count_singleton]
      omega
    · simp [Out.decs, truncated]
  | specialSent =>
    constructor
    · simp [Proc.abandoned, Task.carried, Proc.carried, Out.flat, Out.targets, target]
    · simp [Out.decs, truncated]
  | dropped =>
    refine .still (by simp) (by simp) ?_ (.inl rfl) (by simp)
    rw [carried_settle]
    rfl
  | flattenFailed | transactFailed | made | copied => exact .still rfl rfl rfl (.inl rfl) (by simp)
  | shuttingDown => exact .still rfl rfl (by simp [Proc.carried, Task.carried]) (.inl rfl) (by simp)

theorem Moves.clear_still (hm : Moves session p act p' outs) (hact : act = .clear i)
    (hab : p'.aborted = none) (a : ℕ) :
    p'.state.mTerminated = true ∧ outs = [] ∧ p'.carried a = p.carried a := by
  cases hm with
  | abort => simp at hab
  | clearedAgain _ _ _ hp ht =>
    refine ⟨ht, rfl, ?_⟩
    rw [carried_pick hp]
    simp [Proc.carried, Task.carried, Function.comp_def]
  | cleared _ _ _ hp =>
    refine ⟨rfl, rfl, ?_⟩
    rw [carried_pick hp]
    simp [Proc.carried, Task.carried, Function.comp_def]
  | _ => simp at hact

/-! ### Arrivals -/

theorem refused_of_rejects {x : ℕ} (h : Rejects session p.state x) : p.refused session x = [x] := by
  unfold Proc.refused
  rcases onBinderEntering_cases session p.alive p.nextBinder x p.state with
    ⟨e, he, _⟩ | ⟨ht, hk, n, hn, _⟩ | ⟨ht, hk, hn, hf, _⟩
  · rw [he]
  · simp [(h ht hk).1] at hn
  · exact absurd (h ht hk).2 hf

theorem refused_of_finds {x : ℕ} {n : BinderNode} (h : Finds p.state x n) : p.refused session x = [] := by
  unfold Proc.refused
  rcases onBinderEntering_cases session p.alive p.nextBinder x p.state with
    ⟨e, _, hr⟩ | ⟨_, _, m, _, he⟩ | ⟨_, _, _, _, he⟩
  · have hnone := (hr h.running h.known).1
    simp [h.node] at hnone
  · rw [he]
  · rw [he]

theorem refused_of_adopts {x : ℕ} (h : Adopts session p.state x) : p.refused session x = [] := by
  unfold Proc.refused
  rcases onBinderEntering_cases session p.alive p.nextBinder x p.state with
    ⟨e, _, hr⟩ | ⟨_, _, m, _, he⟩ | ⟨_, _, _, _, he⟩
  · exact absurd (hr h.running h.known).2 h.foreign
  · rw [he]
  · rw [he]

theorem times_receive {x a : ℕ} {n : BinderNode} (hn : p.state.node? x = some n) :
    (p.state.receive x n).sentTimes a = p.state.sentTimes a ∧
      (p.state.receive x n).recdTimes a = p.state.recdTimes a + if a = x then 1 else 0 := by
  unfold RpcState.receive
  rw [RpcState.sentTimes_setNode, RpcState.recdTimes_setNode]
  split_ifs with h
  · subst h
    simp [RpcState.sentTimes_of_node hn, RpcState.recdTimes_of_node hn]
  · simp

theorem times_adopt (session : Session) (next : ℕ) {x a : ℕ} (hn : p.state.node? x = none) :
    (p.state.adopt session next x).sentTimes a = p.state.sentTimes a ∧
      (p.state.adopt session next x).recdTimes a = p.state.recdTimes a + if a = x then 1 else 0 := by
  unfold RpcState.adopt
  rw [RpcState.sentTimes_setNode, RpcState.recdTimes_setNode]
  split_ifs with h
  · subst h
    simp [RpcState.sentTimes_of_none hn, RpcState.recdTimes_of_none hn]
  · simp

/-- A reference that arrives is counted as received or refused. -/
structure Enters (session : Session) (p p' : Proc) (x a : ℕ) : Prop where
  sent : p'.state.sentTimes a = p.state.sentTimes a
  recd : p'.state.recdTimes a + (p.refused session x).count a = p.state.recdTimes a + if a = x then 1 else 0
  carried : p'.carried a = p.carried a

theorem Enters.found {x a : ℕ} {n : BinderNode} (hf : Finds p.state x n)
    (hst : p'.state = p.state.receive x n) (hc : p'.carried a = p.carried a) :
    Enters session p p' x a := by
  obtain ⟨hs, hr⟩ := times_receive (a := a) hf.node
  exact ⟨hst ▸ hs, by rw [hst, hr, refused_of_finds hf]; simp, hc⟩

theorem Enters.adopted {x a next : ℕ} (had : Adopts session p.state x)
    (hst : p'.state = p.state.adopt session next x) (hc : p'.carried a = p.carried a) :
    Enters session p p' x a := by
  obtain ⟨hs, hr⟩ := times_adopt session next (a := a) had.absent
  exact ⟨hst ▸ hs, by rw [hst, hr, refused_of_adopts had]; simp, hc⟩

theorem Enters.rejected {x a : ℕ} (hr : Rejects session p.state x) (hst : p'.state = p.state)
    (hc : p'.carried a = p.carried a) : Enters session p p' x a := by
  refine ⟨by rw [hst], ?_, hc⟩
  rw [hst, refused_of_rejects hr]
  by_cases h : a = x
  · simp [h]
  · have h' : ¬ x = a := fun e => h e.symm
    simp [h, h']

theorem Moves.enters (hm : Moves session p act p' outs) {x : ℕ} (hx : act.enters = some x)
    (hab : p'.aborted = none) (a : ℕ) : Enters session p p' x a := by
  cases hm with
  | abort => simp at hab
  | special _ _ h0 => simp [Action.enters, h0] at hx
  | rejected t call _ hr => exact .rejected (address_of_enters hx ▸ hr) rfl (by simp [Proc.carried, Task.carried])
  | targetDead t call n _ hf | targetRemote t call n _ hf | entered t call n _ hf
  | executed t call n _ hf =>
    obtain rfl := address_of_enters hx
    exact .found hf rfl (by simp [Proc.carried, Task.carried])
  | targetAdopted t call _ had =>
    obtain rfl := address_of_enters hx
    exact .adopted had rfl (by simp [Proc.carried, Task.carried])
  | readRejected y hr =>
    cases hx
    exact .rejected hr rfl rfl
  | readRemote y n hf =>
    cases hx
    exact .found hf rfl rfl
  | readLocal y n hf =>
    cases hx
    exact .found hf rfl (by simp [Proc.carried, Task.carried])
  | readAdopted y had =>
    cases hx
    exact .adopted had rfl rfl
  | _ => simp [Action.enters] at hx

theorem Moves.special_still (hm : Moves session p act p' outs)
    (hact : act = .recvTransact t call) (h0 : t.address = 0) (a : ℕ) :
    p'.state = p.state ∧ p'.carried a = p.carried a := by
  cases hm with
  | abort _ f h => subst hact; cases h <;> simp [Action.leaving] at *
  | special => exact ⟨rfl, by simp [Proc.carried, Task.carried]⟩
  | rejected | targetDead | targetRemote | targetAdopted | entered | executed =>
    cases hact
    contradiction
  | _ => simp at hact

theorem Moves.reply_still (hm : Moves session p act p' outs) (hact : act = .recvReply i) (a : ℕ) :
    p'.state = p.state ∧ p'.carried a = p.carried a := by
  cases hm with
  | abort _ f h => subst hact; cases h <;> simp [Action.leaving] at *
  | replied _ _ _ _ hp =>
    refine ⟨by simp, ?_⟩
    rw [carried_settle, carried_pick hp]
    simp [Proc.carried, Task.carried]
  | repliedSpecial _ _ _ hp =>
    refine ⟨rfl, ?_⟩
    rw [carried_pick hp]
    simp [Proc.carried, Task.carried]
  | _ => simp at hact

/-- `DEC_STRONG` lowers one count, by at most its amount. -/
structure Lowers (p p' : Proc) (x k a : ℕ) : Prop where
  sent : p.state.sentTimes a =
    p'.state.sentTimes a + if a = x then p.state.sentTimes x - p'.state.sentTimes x else 0
  le : p.state.sentTimes x - p'.state.sentTimes x ≤ k
  recd : p'.state.recdTimes a = p.state.recdTimes a
  carried : p'.carried a = p.carried a

theorem Releases.times {x a : ℕ} {n : BinderNode} {ref : Option IBinder} {st : RpcState}
    (hn : p.state.node? x = some n) (h : Releases p.state x k n ref st) :
    st.sentTimes a = (if a = x then p.state.sentTimes x - k else p.state.sentTimes a) ∧
      st.recdTimes a = p.state.recdTimes a := by
  have hs := RpcState.sentTimes_of_node hn
  have hr := RpcState.recdTimes_of_node hn
  cases h with
  | part =>
    rw [RpcState.sentTimes_setNode, RpcState.recdTimes_setNode, hs]
    split_ifs with h <;> simp [h, hr]
  | last hk =>
    rw [RpcState.sentTimes_setNode, RpcState.recdTimes_setNode, hs]
    split_ifs with h <;> simp [h, hr, hk]
  | erased hk hz =>
    rw [RpcState.sentTimes_eraseNode, RpcState.recdTimes_eraseNode, hs]
    split_ifs with h <;> simp [h, hr, hk, hz]

theorem Moves.lowers (hm : Moves session p act p' outs) {x : ℕ} (hact : act = .recvDecStrong x k)
    (a : ℕ) : Lowers p p' x k a := by
  cases hm with
  | abort | decIgnored => exact ⟨by simp, by simp, rfl, rfl⟩
  | decDead => exact ⟨by simp, by simp, rfl, by simp [Proc.carried, Task.carried]⟩
  | decReleased _ _ _ ref _ hn _ _ hr =>
    cases hact
    obtain ⟨hs, hrecd⟩ := hr.times (a := a) hn
    have hsx := (hr.times (a := x) hn).1
    rw [if_pos rfl] at hsx
    refine ⟨?_, ?_, hrecd, ?_⟩
    · simp only [hs, hsx]
      split_ifs with h
      · subst h
        omega
      · rfl
    · simp only [hsx]
      omega
    · cases ref <;> simp [Proc.carried, Task.carried]
  | _ => simp at hact

/-- A held reference that is given back lowers the count by the full amount. -/
theorem Moves.lowers_full (hm : Moves session p act p' outs) (hc : Core session p) {x : ℕ}
    (hact : act = .recvDecStrong x k) (hk : k ≤ p.state.sentTimes x) (hab : p'.aborted = none) :
    p.state.sentTimes x - p'.state.sentTimes x = k := by
  cases hm with
  | abort => simp at hab
  | decIgnored y j hall =>
    cases hact
    cases hn : p.state.node? x with
    | none =>
      rw [RpcState.sentTimes_of_none hn] at hk
      simp
      omega
    | some n =>
      rw [RpcState.sentTimes_of_node hn] at hk
      exact absurd (hall n hn).2 (not_lt.mpr hk)
  | decDead y j n hn hdead =>
    cases hact
    rw [RpcState.sentTimes_of_node hn, (hc.nodes _ _ hn).timesSent_eq_zero hn hdead] at hk
    simp
    omega
  | decReleased _ _ _ _ _ hn _ _ hr =>
    cases hact
    have hsx := (hr.times (a := x) hn).1
    rw [if_pos rfl] at hsx
    simp only [hsx]
    omega
  | _ => simp at hact

/-- The amount of a `DEC_STRONG` is the count, cut off to 32 bits. A transaction has no target, or the one its thread
took. -/
def Out.Sent (p : Proc) : Out → Prop
  | .decStrong x k => k = p.state.recdTimes x % 2 ^ 32
  | .transact t _ => t.address = 0 ∨ ∃ b code flags data reply, .transacting b t.address code flags data reply ∈ p.tasks
  | _ => True

theorem Moves.sent (hm : Moves session p act p' outs) {o : Out} (h : o ∈ outs) : o.Sent p := by
  have hreply {os : List Out} (hos : os = [] ∨ ∃ call, os = [.reply call]) (h : o ∈ os) : o.Sent p := by
    rcases hos with rfl | ⟨call, rfl⟩
    · cases h
    · cases mem_singleton.mp h
      trivial
  cases hm with
  | flushed i y b after rest | decNothing i y b after rest => exact hreply (Proc.complete_outs b rest p after) h
  | flushFailed i y b after rest | decFailed i y b after rest | blocked i y b after rest =>
    exact hreply (Proc.completeFailed_outs rest p after) h
  | decSent i y b after rest n st _ _ hn =>
    rcases mem_cons.mp h with rfl | h
    · exact congrArg (· % 2 ^ 32) (RpcState.recdTimes_of_node hn).symm
    · exact hreply (Proc.complete_outs b rest { p with state := st } after) h
  | proxySent _ _ _ _ _ _ _ hn =>
    cases mem_singleton.mp h
    exact congrArg (· % 2 ^ 32) (RpcState.recdTimes_of_node hn).symm
  | onewaySent _ _ b _ code flags data reply _ _ hp | syncSent _ _ b _ code flags _ data reply _ hp =>
    cases mem_singleton.mp h
    exact .inr ⟨b, code, flags, data, reply, mem_of_pick hp⟩
  | onewaySentZero | specialSent =>
    cases mem_singleton.mp h
    exact .inl rfl
  | flattened | executed | ordered | syncReply =>
    cases mem_singleton.mp h
    trivial
  | _ => simp at h

/-! ### Parcels -/

theorem Moves.one_parcel (hm : Moves session p act p' outs) : outs.countP Out.hasParcel ≤ 1 := by
  cases hm with
  | flushed i x b after rest | decNothing i x b after rest =>
    rcases Proc.complete_outs b rest p after with h | ⟨call, h⟩ <;> exact countP_le_length.trans (by simp [h])
  | flushFailed i x b after rest | decFailed i x b after rest | blocked i x b after rest =>
    rcases Proc.completeFailed_outs rest p after with h | ⟨call, h⟩ <;>
      exact countP_le_length.trans (by simp [h])
  | decSent i x b after rest n st =>
    rcases Proc.complete_outs b rest { p with state := st } after with h | ⟨call, h⟩ <;> rw [h]
    · exact Nat.zero_le _
    · exact le_rfl
  | _ => exact countP_le_length.trans (by simp)

end

end Binder.Rpc
