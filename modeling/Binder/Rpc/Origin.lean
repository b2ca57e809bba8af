import Binder.Rpc.Ownership

/-! Where the references and the threads of a process come from in one action. -/
namespace Binder.Rpc
open Binder.Lib List

variable {st : RpcState} {t : Task} {a : ℕ} {n : BinderNode}

theorem RpcState.mem_refs {b : IBinder} : b ∈ st.refs ↔ ∃ a n, st.node? a = some n ∧ b ∈ n.refs := by
  unfold RpcState.refs
  rw [mem_flatMap]
  constructor
  · rintro ⟨⟨a, n⟩, he, hb⟩
    exact ⟨a, n, OrdMap.find?_eq_some_iff.mpr he, hb⟩
  · rintro ⟨a, n, hn, hb⟩
    exact ⟨(a, n), OrdMap.find?_eq_some_iff.mp hn, hb⟩

namespace Proc

variable {session : Session} {p : Proc} {b c : IBinder}

theorem mem_refs : b ∈ p.refs ↔ b ∈ p.held ∨ (∃ t ∈ p.tasks, b ∈ t.refs) ∨
    ∃ a n, p.state.node? a = some n ∧ b ∈ n.refs := by
  unfold refs
  rw [mem_append, mem_append, mem_flatMap, RpcState.mem_refs, or_assoc]

theorem mem_refs_of_held (h : b ∈ p.held) : b ∈ p.refs := mem_refs.mpr (.inl h)

theorem mem_refs_of_task (h : t ∈ p.tasks) (hb : b ∈ t.refs) : b ∈ p.refs :=
  mem_refs.mpr (.inr (.inl ⟨t, h, hb⟩))

theorem mem_refs_of_node (h : p.state.node? a = some n) (hb : b ∈ n.refs) : b ∈ p.refs :=
  mem_refs.mpr (.inr (.inr ⟨a, n, h, hb⟩))

theorem mem_refs_of_sentRef (h : p.state.node? a = some n) (hb : n.sentRef = some b) : b ∈ p.refs :=
  mem_refs_of_node h (by simp [BinderNode.refs, hb])

@[simp] theorem refs_settle : c ∈ (settle session b p).refs ↔ c ∈ p.refs := by
  unfold settle
  split_ifs
  · simp [refs, Task.refs]
  · rfl

theorem mem_settle_tasks (h : t ∈ (settle session b p).tasks) :
    t ∈ p.tasks ∨ (t = .lastStrongRef b ∧ ownProxy session b ∧ b ∉ (settle session b p).refs) := by
  unfold settle at h
  split_ifs at h with hc
  · rcases mem_cons.mp h with rfl | h
    · exact .inr ⟨rfl, hc.1, fun hb => hc.2 (by simpa [alive] using hb)⟩
    · exact .inl h
  · exact .inl h

end Proc

def NewBinder (session : Session) (p p' : Proc) (b : IBinder) : Prop :=
  b.id = p.nextBinder ∧ p'.nextBinder = p.nextBinder + 1 ∧
    (Proc.ownProxy session b → ∃ n, p'.state.node? b.rpcAddress = some n ∧ n.binder = b)

/-- How a thread got where it is. -/
inductive TaskOrigin (session : Session) (p p' : Proc) (act : Action) : Task → Prop
  | kept (t : Task) : t ∈ p.tasks → TaskOrigin session p p' act t
  | special (t : RpcWireTransaction) (call : ℕ) : t.address = 0 → act = .recvTransact t call →
      TaskOrigin session p p' act (.executing t none call)
  | rejected (t : RpcWireTransaction) (call : ℕ) : act = .recvTransact t call → t.address ≠ 0 →
      Rejects session p.state t.address → TaskOrigin session p p' act (.failed t none call)
  | entered (t : RpcWireTransaction) (call : ℕ) (n : BinderNode) : act = .recvTransact t call →
      t.address ≠ 0 → Finds p.state t.address n → n.binder ∈ p.refs → n.binder.isRemote = false →
      t.oneway = true → TaskOrigin session p p' act (.entered t n.binder)
  | executed (t : RpcWireTransaction) (call : ℕ) (n : BinderNode) : act = .recvTransact t call →
      t.address ≠ 0 → Finds p.state t.address n → n.binder ∈ p.refs → n.binder.isRemote = false →
      t.oneway = false → TaskOrigin session p p' act (.executing t (some n.binder) call)
  | read (a : ℕ) (n : BinderNode) : act = .unflatten a → Finds p.state a n → n.binder ∈ p.refs →
      n.binder.isRemote = false → TaskOrigin session p p' act (.flushing a n.binder .deliver)
  | ordered (t : RpcWireTransaction) (b : IBinder) : .entered t b ∈ p.tasks →
      TaskOrigin session p p' act (.executing t (some b) 0)
  | invalid (t : RpcWireTransaction) (b : IBinder) (n : BinderNode) : .entered t b ∈ p.tasks →
      p.state.node? t.address = some n → (n.binder ∈ p.refs → n.binder ≠ b) →
      TaskOrigin session p p' act (.failed t (some b) 0)
  | next (i : ℕ) (s : Status) (t : RpcWireTransaction) (call : ℕ) (x : AsyncTodo) (n : BinderNode) :
      act = .finish i s →
      .executing t (some x.ref) call ∈ p.tasks ∨ .failed t (some x.ref) call ∈ p.tasks →
      p.state.node? t.address = some n → x ∈ n.asyncTodo →
      TaskOrigin session p p' act (.entered x.data x.ref)
  | flushing (i : ℕ) (s : Status) (t : RpcWireTransaction) (call : ℕ) (b : IBinder) (after : After) :
      act = .finish i s → .executing t (some b) call ∈ p.tasks →
      (t.oneway = true → p.state.node? t.address ≠ none) →
      TaskOrigin session p p' act (.flushing t.address b after)
  | decToTarget (a : ℕ) (b : IBinder) (after : After) : .flushing a b after ∈ p.tasks →
      TaskOrigin session p p' act (.decToTarget a b after)
  | dying (b : IBinder) : Proc.ownProxy session b → b ∈ p.refs → b ∉ p'.refs →
      TaskOrigin session p p' act (.lastStrongRef b)
  | transacting (b : IBinder) (code flags : ℕ) (data : List UInt8) (reply : Bool) :
      act = .transact b code flags data reply → b ∈ p.held → Proc.ownProxy session b →
      p.state.mTerminated = false →
      TaskOrigin session p p' act (.transacting b b.rpcAddress code flags data reply)
  | waiting (b : IBinder) (call a code flags : ℕ) (data : List UInt8) (reply : Bool) :
      .transacting b a code flags data reply ∈ p.tasks →
      TaskOrigin session p p' act (.waiting (some b) call)
  | waitingSpecial (call : ℕ) : TaskOrigin session p p' act (.waiting none call)
  | releasing (b : IBinder) : b ∈ p.refs → TaskOrigin session p p' act (.releasing b)
  | shutdown (bs : List IBinder) : (∀ b ∈ bs, b ∈ p.refs ∨ NewBinder session p p' b) →
      TaskOrigin session p p' act (.shutdown bs)

section

variable {session : Session} {p p' : Proc} {act : Action} {outs : List Out}

variable {i call x : ℕ} {target : Option IBinder} {s s' : Status} {q : Proc} {m : BinderNode}

theorem TaskOrigin.rest {x : Task} {rest : List Task} (h : pick p.tasks i = some (x, rest))
    (ht : t ∈ rest) : TaskOrigin session p p' act t := .kept t (mem_of_mem_pick h ht)

/-- The thread that starts, and those that were there. -/
theorem TaskOrigin.cons {x : Task} {ts : List Task} (hx : TaskOrigin session p p' act x)
    (hts : ∀ t ∈ ts, t ∈ p.tasks) (ht : t ∈ x :: ts) : TaskOrigin session p p' act t := by
  rcases mem_cons.mp ht with rfl | ht
  · exact hx
  · exact .kept t (hts t ht)

theorem Ends.rest {t : RpcWireTransaction} {rest : List Task}
    {x : Task} (h : Ends p rest t target call i s s') (hx : x ∈ rest) : x ∈ p.tasks := by
  cases h with
  | executed hp | failed hp => exact mem_of_mem_pick hp hx

theorem Ends.mem {t : RpcWireTransaction} {rest : List Task} (h : Ends p rest t target call i s s') :
    .executing t target call ∈ p.tasks ∨ .failed t target call ∈ p.tasks := by
  cases h with
  | executed hp => exact .inl (mem_of_pick hp)
  | failed hp => exact .inr (mem_of_pick hp)

theorem Ends.mem_ok {t : RpcWireTransaction} {rest : List Task}
    (h : Ends p rest t target call i s s') (hs : s' = .ok) :
    .executing t target call ∈ p.tasks := by
  cases h with
  | executed hp => exact mem_of_pick hp
  | failed => simp at hs

/-- A thread that drops `b` goes on, and one more starts when the reference was the last. -/
theorem TaskOrigin.settle {b : IBinder} (hb : b ∈ p.refs)
    (hq : ∀ t ∈ q.tasks, t ∈ p.tasks) (ht : t ∈ (Proc.settle session b q).tasks) :
    TaskOrigin session p (Proc.settle session b q) act t := by
  rcases Proc.mem_settle_tasks ht with ht | ⟨rfl, hown, hdead⟩
  · exact .kept t (hq t ht)
  · exact .dying b hown hb hdead

theorem Moves.task_origin (hm : Moves session p act p' outs) (ht : t ∈ p'.tasks) :
    TaskOrigin session p p' act t := by
  cases hm with
  | special t' call h0 =>
    exact .cons (.special t' call h0 rfl) (fun _ => id) ht
  | rejected t' call h0 hr =>
    exact .cons (.rejected t' call rfl h0 hr) (fun _ => id) ht
  | targetDead =>
    exact .cons (.shutdown [] (by simp)) (fun _ => id) ht
  | targetRemote _ _ n _ _ hlive =>
    exact .cons (.shutdown [n.binder] (by simp [hlive])) (fun _ => id) ht
  | targetAdopted =>
    rcases mem_cons.mp ht with rfl | ht
    · refine .shutdown _ fun b hb => .inr ?_
      rw [mem_singleton] at hb
      subst hb
      exact ⟨rfl, rfl, fun _ => ⟨{ binder := _, timesRecd := 1 }, by simp [RpcState.adopt, IBinder.rpcAddress], rfl⟩⟩
    · exact .kept t ht
  | entered t' call n h0 hf hlive hloc how =>
    exact .cons (.entered t' call n rfl h0 hf hlive hloc how) (fun _ => id) ht
  | executed t' call n h0 hf hlive hloc how =>
    exact .cons (.executed t' call n rfl h0 hf hlive hloc how) (fun _ => id) ht
  | decDead =>
    exact .cons (.shutdown [] (by simp)) (fun _ => id) ht
  | decReleased _ _ _ _ _ hn _ _ hr =>
    rcases mem_append.mp ht with ht | ht
    · simp only [Option.mem_toList, Option.map_eq_some_iff] at ht
      obtain ⟨b, rfl, rfl⟩ := ht
      refine .releasing b ?_
      generalize hrr : some b = r at hr
      cases hr with
      | part => simp at hrr
      | last | erased => exact Proc.mem_refs_of_sentRef hn hrr.symm
    · exact .kept t ht
  | readLocal a n hf hlive hloc =>
    exact .cons (.read a n rfl hf hlive hloc) (fun _ => id) ht
  | replied _ _ _ _ hp =>
    exact .settle (Proc.mem_refs_of_task (mem_of_pick hp) (by simp [Task.refs]))
      (fun t ht => mem_of_mem_pick hp ht) ht
  | repliedSpecial _ _ rest hp => exact .rest hp ht
  | interrupted _ _ _ _ hp =>
    exact .cons (.shutdown _ fun c hc => .inl (Proc.mem_refs_of_task (mem_of_pick hp) hc)) (fun _ => mem_of_mem_pick hp) ht
  | ordered _ t' b _ _ hp =>
    exact .cons (.ordered t' b (mem_of_pick hp)) (fun _ => mem_of_mem_pick hp) ht
  | invalid _ t' b _ n hp hn hne =>
    exact .cons (.invalid t' b n (mem_of_pick hp) hn hne) (fun _ => mem_of_mem_pick hp) ht
  | queued _ _ b rest _ _ hp _ _ _ hmore =>
    rcases mem_append.mp ht with ht | ht
    · rcases hmore with rfl | rfl
      · simp at ht
      · rw [mem_singleton] at ht
        subst ht
        exact .shutdown [b] fun c hc =>
          .inl (Proc.mem_refs_of_task (mem_of_pick hp) (by simpa [Task.refs] using hc))
    · exact .rest hp ht
  | onewayGone _ _ _ _ rest _ _ he => exact .kept t (he.rest ht)
  | onewayExhausted _ _ _ _ rest _ _ he =>
    rcases mem_cons.mp ht with rfl | ht
    · refine .shutdown _ fun c hc => .inl ?_
      rcases he.mem with hm | hm <;> exact Proc.mem_refs_of_task hm hc
    · exact .kept t (he.rest ht)
  | onewayDone i call t' _ rest s _ _ _ he _ hn _ hmore =>
    rcases mem_append.mp ht with ht | ht
    · rcases hmore with rfl | ⟨b, hs, rfl, _, rfl⟩
      · simp at ht
      · rw [mem_singleton] at ht
        subst ht
        exact .flushing i s t' call b .done rfl (he.mem_ok hs) (by simp [hn])
    · exact .kept t (he.rest ht)
  | onewayNext i call t' x rest s _ n he _ hn htop =>
    exact .cons (.next i s t' call x n rfl he.mem hn (asyncTop_spec htop).1) (fun _ => he.rest) ht
  | syncFlush i call t' b rest s he how =>
    exact .cons (.flushing i s t' call b _ rfl (he.mem_ok rfl) (by simp [how])) (fun _ => he.rest) ht
  | syncReply _ _ _ _ rest _ _ he => exact .kept t (he.rest ht)
  | flushed _ _ _ _ rest hp | decNothing _ _ _ _ rest hp =>
    rw [Proc.complete_tasks] at ht
    exact .rest hp ht
  | flushFailed _ _ _ _ rest hp | decFailed _ _ _ _ rest hp | blocked _ _ _ _ rest hp =>
    rw [Proc.completeFailed_tasks] at ht
    exact .rest hp ht
  | flushDec _ a b after _ _ hp =>
    exact .cons (.decToTarget a b after (mem_of_pick hp)) (fun _ => mem_of_mem_pick hp) ht
  | decSent _ _ _ _ rest _ _ hp =>
    rw [Proc.complete_tasks] at ht
    exact .rest hp ht
  | proxySent _ _ rest _ _ hp | proxyNothing _ _ rest hp | proxyBlocked _ _ rest hp =>
    exact .rest hp ht
  | transacting b code flags data reply a n hb hown hrun _ _ ha =>
    rcases mem_cons.mp ht with rfl | ht
    · exact ha ▸ .transacting b code flags data reply rfl hb hown hrun
    · exact .kept t ht
  | transactDead _ _ _ _ _ _ _ _ _ hp | onewaySent _ _ _ _ _ _ _ _ _ _ hp | onewaySentZero _ _ _ _ _ _ _ _ _ hp
  | released _ _ _ hp =>
    exact .settle (Proc.mem_refs_of_task (mem_of_pick hp) (by simp [Task.refs]))
      (fun t ht => mem_of_mem_pick hp ht) ht
  | transactExhausted _ _ b _ _ _ _ _ rest hp =>
    rcases mem_cons.mp ht with rfl | ht
    · exact .shutdown [b] fun c hc =>
        .inl (Proc.mem_refs_of_task (mem_of_pick hp) (by simpa [Task.refs] using hc))
    · exact .rest hp ht
  | syncSent _ call b a code flags _ data reply _ hp =>
    exact .cons (.waiting b call a code flags data reply (mem_of_pick hp)) (fun _ => mem_of_mem_pick hp) ht
  | specialSent _ call =>
    exact .cons (.waitingSpecial call) (fun _ => id) ht
  | dropped b hb => exact .settle (Proc.mem_refs_of_held hb) (fun t ht => ht) ht
  | shuttingDown =>
    exact .cons (.shutdown [] (by simp)) (fun _ => id) ht
  | clearedAgain _ _ rest hp =>
    rcases mem_append.mp ht with ht | ht
    · obtain ⟨b, hb, rfl⟩ := mem_map.mp ht
      exact .releasing b (Proc.mem_refs_of_task (mem_of_pick hp) hb)
    · exact .rest hp ht
  | cleared _ _ rest hp =>
    rcases mem_append.mp ht with ht | ht
    · obtain ⟨b, hb, rfl⟩ := mem_map.mp ht
      refine .releasing b ?_
      rcases mem_append.mp hb with hb | hb
      · exact Proc.mem_refs_of_task (mem_of_pick hp) hb
      · obtain ⟨⟨a, n⟩, he, href⟩ := mem_filterMap.mp hb
        exact Proc.mem_refs_of_sentRef (OrdMap.find?_eq_some_iff.mpr he) href
    · exact .rest hp ht
  | _ => exact .kept t ht

theorem TaskOrigin.refs {b : IBinder} (h : TaskOrigin session p p' act t) (hb : b ∈ t.refs) :
    b ∈ p.refs ∨ NewBinder session p p' b := by
  cases h with
  | kept _ ht => exact .inl (Proc.mem_refs_of_task ht hb)
  | special | rejected | dying | waitingSpecial => simp [Task.refs] at hb
  | entered _ _ _ _ _ _ hlive | executed _ _ _ _ _ _ hlive | read _ _ _ _ hlive =>
    simp only [Task.refs, Option.toList_some, mem_singleton] at hb
    exact .inl (hb ▸ hlive)
  | ordered _ _ ht | invalid _ _ _ ht | flushing _ _ _ _ _ _ _ ht | decToTarget _ _ _ ht | waiting _ _ _ _ _ _ _ ht =>
    exact .inl (Proc.mem_refs_of_task ht (by simpa [Task.refs] using hb))
  | next _ _ _ _ _ _ _ ht =>
    left
    rcases ht with ht | ht
    · exact Proc.mem_refs_of_task ht (by simpa [Task.refs] using hb)
    · exact Proc.mem_refs_of_task ht (by simpa [Task.refs] using hb)
  | transacting _ _ _ _ _ _ hc =>
    simp only [Task.refs, mem_singleton] at hb
    exact .inl (Proc.mem_refs_of_held (hb ▸ hc))
  | releasing c hc =>
    simp only [Task.refs, mem_singleton] at hb
    exact .inl (hb ▸ hc)
  | shutdown _ hbs => exact hbs b hb

theorem mem_refs_setNode {b : IBinder} (htable : st.mNodeForAddress = p.state.mNodeForAddress)
    (hn : (st.setNode x m).node? a = some n) (hb : b ∈ n.refs) (hm : ∀ c ∈ m.refs, c ∈ p.refs) :
    b ∈ p.refs := by
  rw [RpcState.node?_setNode] at hn
  split_ifs at hn with heq
  · cases Option.some.inj hn
    exact hm b hb
  · rw [RpcState.node?, htable] at hn
    exact Proc.mem_refs_of_node hn hb

theorem mem_refs_eraseNode {b : IBinder}
    (hn : (p.state.eraseNode x).node? a = some n) (hb : b ∈ n.refs) : b ∈ p.refs := by
  rw [RpcState.node?_eraseNode] at hn
  split_ifs at hn
  exact Proc.mem_refs_of_node hn hb

theorem mem_refs_sentNode {k : ℕ} {b : IBinder} (hm : p.state.node? x = some m) (hb : b ∈ p.held) :
    ∀ c ∈ ({ m with timesSent := k, sentRef := some b } : BinderNode).refs, c ∈ p.refs := by
  intro c hc
  simp only [BinderNode.refs, Option.toList_some, singleton_append, mem_cons] at hc
  rcases hc with rfl | hc
  · exact Proc.mem_refs_of_held hb
  · exact Proc.mem_refs_of_node hm (mem_append_right _ hc)

theorem GivesBack.refs {b : IBinder}
    (hm : p.state.node? x = some m) (hg : GivesBack p.state x m st) (hn : st.node? a = some n)
    (hb : b ∈ n.refs) : b ∈ p.refs := by
  cases hg with
  | kept => exact mem_refs_setNode rfl hn hb (fun c hc => Proc.mem_refs_of_node hm hc)
  | erased => exact mem_refs_eraseNode hn hb

theorem Moves.node_refs (hm : Moves session p act p' outs) {b : IBinder}
    (hn : p'.state.node? a = some n) (hb : b ∈ n.refs) : b ∈ p.refs := by
  cases hm with
  | targetDead _ _ _ _ hf | targetRemote _ _ _ _ hf | entered _ _ _ _ hf | executed _ _ _ _ hf | readRemote _ _ hf
  | readLocal _ _ hf =>
    exact mem_refs_setNode rfl hn hb (fun c hc => Proc.mem_refs_of_node hf.node hc)
  | targetAdopted | readAdopted =>
    exact mem_refs_setNode rfl hn hb (by simp [BinderNode.refs])
  | decReleased _ _ _ _ _ hm _ _ hr =>
    cases hr with
    | part => exact mem_refs_setNode rfl hn hb (fun c hc => Proc.mem_refs_of_node hm hc)
    | last =>
      refine mem_refs_setNode rfl hn hb (fun c hc => Proc.mem_refs_of_node hm ?_)
      exact mem_append_right _ (by simpa [BinderNode.refs] using hc)
    | erased => exact mem_refs_eraseNode hn hb
  | queued _ _ _ _ _ _ hp hm =>
    refine mem_refs_setNode rfl hn hb (fun d hd => ?_)
    simp only [BinderNode.refs, map_cons, mem_append, mem_cons] at hd
    rcases hd with hd | rfl | hd
    · exact Proc.mem_refs_of_node hm (mem_append_left _ hd)
    · exact Proc.mem_refs_of_task (mem_of_pick hp) (by simp [Task.refs])
    · exact Proc.mem_refs_of_node hm (mem_append_right _ hd)
  | onewayDone _ _ _ _ _ _ _ _ _ _ _ hm =>
    exact mem_refs_setNode rfl hn hb (fun c hc => Proc.mem_refs_of_node hm hc)
  | onewayNext _ _ _ _ _ _ _ _ _ _ hm =>
    refine mem_refs_setNode rfl hn hb (fun c hc => Proc.mem_refs_of_node hm ?_)
    rcases mem_append.mp hc with hc | hc
    · exact mem_append_left _ hc
    · obtain ⟨y, hy, rfl⟩ := mem_map.mp hc
      exact mem_append_right _ (mem_map.mpr ⟨y, mem_of_mem_erase hy, rfl⟩)
  | onewaySent _ _ c _ _ _ _ _ _ _ _ _ _ hm =>
    rw [Proc.settle_state] at hn
    exact mem_refs_setNode rfl hn hb (fun c hc => Proc.mem_refs_of_node hm hc)
  | decSent _ _ _ _ _ _ _ _ _ hm _ hg =>
    rw [Proc.complete_state] at hn
    exact hg.refs hm hn hb
  | proxySent _ _ _ _ _ _ _ hm _ hg => exact hg.refs hm hn hb
  | flattened _ _ _ hc hl =>
    cases hl with
    | sent _ _ hm => exact mem_refs_setNode rfl hn hb (mem_refs_sentNode hm hc)
    | created =>
      refine mem_refs_setNode rfl hn hb (fun d hd => ?_)
      simp only [BinderNode.refs, Option.toList_some, map_nil, append_nil, mem_singleton] at hd
      exact hd ▸ Proc.mem_refs_of_held hc
  | transacting _ _ _ _ _ _ _ hc _ _ hm =>
    exact mem_refs_setNode rfl hn hb (mem_refs_sentNode hm hc)
  | cleared => simp [RpcState.node?] at hn
  | flushed | flushFailed | decFailed | decNothing | blocked =>
    simp only [Proc.complete_state, Proc.completeFailed_state] at hn
    exact Proc.mem_refs_of_node hn hb
  | replied | transactDead | onewaySentZero | released | dropped =>
    rw [Proc.settle_state] at hn
    exact Proc.mem_refs_of_node hn hb
  | _ => exact Proc.mem_refs_of_node hn hb

theorem mem_complete_held {b c : IBinder} {rest : List Task} {after : After}
    (h : c ∈ (Proc.complete b rest q after).1.held) : c = b ∨ c ∈ q.held := by
  cases after with
  | deliver => exact mem_cons.mp h
  | done | reply => exact .inr h

theorem Moves.held_origin (hm : Moves session p act p' outs) {b : IBinder} (hb : b ∈ p'.held) :
    b ∈ p.refs ∨ NewBinder session p p' b := by
  cases hm with
  | readRemote _ _ _ hlive =>
    rcases mem_cons.mp hb with rfl | hb
    · exact .inl hlive
    · exact .inl (Proc.mem_refs_of_held hb)
  | readAdopted =>
    rcases mem_cons.mp hb with rfl | hb
    · exact .inr ⟨rfl, rfl, fun _ => ⟨{ binder := _, timesRecd := 1 },
        by simp [RpcState.adopt, IBinder.rpcAddress], rfl⟩⟩
    · exact .inl (Proc.mem_refs_of_held hb)
  | flushed _ _ _ _ _ hp | decNothing _ _ _ _ _ hp | decSent _ _ _ _ _ _ _ hp =>
    rcases mem_complete_held hb with rfl | hb
    · exact .inl (Proc.mem_refs_of_task (mem_of_pick hp) (by simp [Task.refs]))
    · exact .inl (Proc.mem_refs_of_held hb)
  | flushFailed | decFailed | blocked =>
    rw [Proc.completeFailed_held] at hb
    exact .inl (Proc.mem_refs_of_held hb)
  | made c hid hown =>
    rcases mem_cons.mp hb with rfl | hb
    · exact .inr ⟨hid, rfl, fun h => by simp [hown] at h⟩
    · exact .inl (Proc.mem_refs_of_held hb)
  | copied c hc =>
    rcases mem_cons.mp hb with rfl | hb
    · exact .inl hc
    · exact .inl (Proc.mem_refs_of_held hb)
  | dropped =>
    rw [Proc.settle_held] at hb
    exact .inl (Proc.mem_refs_of_held (mem_of_mem_erase hb))
  | replied | transactDead | onewaySentZero | released | onewaySent =>
    rw [Proc.settle_held] at hb
    exact .inl (Proc.mem_refs_of_held hb)
  | _ => exact .inl (Proc.mem_refs_of_held hb)

/-- No action revives a binder: references are copies of live ones, or to a new object. -/
theorem Moves.refs_origin (hm : Moves session p act p' outs) {b : IBinder} (hb : b ∈ p'.refs) :
    b ∈ p.refs ∨ NewBinder session p p' b := by
  rcases Proc.mem_refs.mp hb with hb | ⟨t, ht, hb⟩ | ⟨a, n, hn, hb⟩
  · exact hm.held_origin hb
  · exact (hm.task_origin ht).refs hb
  · exact .inl (hm.node_refs hn hb)

end

end Binder.Rpc
