import Binder.Rpc.Core

/-! What one action leaves in place: the other threads, and the references to proxies until
their last one is reported. -/
namespace Binder.Rpc
open Binder.Lib List

/-- The action continues the thread at position `i`, which stands at the given point. -/
inductive Continues : Action → ℕ → Task → Prop
  | recvReply (i call : ℕ) (b : Option IBinder) : Continues (.recvReply i) i (.waiting b call)
  | interrupt (i call : ℕ) (b : Option IBinder) : Continues (.interrupt i) i (.waiting b call)
  | checkOneway (i : ℕ) (t : RpcWireTransaction) (b : IBinder) : Continues (.checkOneway i) i (.entered t b)
  | executed (i call : ℕ) (s : Status) (t : RpcWireTransaction) (target : Option IBinder) :
      Continues (.finish i s) i (.executing t target call)
  | failed (i call : ℕ) (s : Status) (t : RpcWireTransaction) (target : Option IBinder) :
      Continues (.finish i s) i (.failed t target call)
  | flush (i a : ℕ) (b : IBinder) (after : After) : Continues (.flush i) i (.flushing a b after)
  | decToTarget (i a : ℕ) (b : IBinder) (after : After) : Continues (.decStrong i) i (.decToTarget a b after)
  | lastStrongRef (i : ℕ) (b : IBinder) : Continues (.decStrong i) i (.lastStrongRef b)
  | targetBlocked (i a : ℕ) (b : IBinder) (after : After) :
      Continues (.wouldBlock i) i (.decToTarget a b after)
  | proxyBlocked (i : ℕ) (b : IBinder) : Continues (.wouldBlock i) i (.lastStrongRef b)
  | transact (i call : ℕ) (b : IBinder) (a code flags : ℕ) (data : List UInt8) (reply : Bool) :
      Continues (.transactAddress i call) i (.transacting b a code flags data reply)
  | release (i : ℕ) (b : IBinder) : Continues (.release i) i (.releasing b)
  | clear (i : ℕ) (bs : List IBinder) : Continues (.clear i) i (.shutdown bs)

/-- `DEC_STRONG` gives back the last references of the node. -/
def Proc.takesLast (p : Proc) (x k : ℕ) : Bool :=
  match p.state.node? x with
  | some m => k = m.timesSent && m.timesRecd = 0
  | none => false

section

variable {session : Session} {p p' : Proc} {act : Action} {outs : List Out}

variable {t : Task} {i x a : ℕ} {rest tasks : List Task} {c : IBinder} {st : RpcState} {m n : BinderNode}

theorem Proc.mem_tasks_settle {b : IBinder} (h : t ∈ p.tasks) : t ∈ (settle session b p).tasks := by
  unfold settle
  split_ifs
  · exact mem_cons_of_mem _ h
  · exact h

theorem Continues.kept {x : Task} (hp : pick p.tasks i = some (x, rest)) (h : Continues act i x) (ht : t ∈ p.tasks)
    (hrest : t ∈ rest → t ∈ tasks) :
    t ∈ tasks ∨ ∃ i rest, Continues act i t ∧ pick p.tasks i = some (t, rest) := by
  rcases mem_cons.mp ((pick_perm hp).mem_iff.mp ht) with rfl | ht
  · exact .inr ⟨i, rest, h, hp⟩
  · exact .inl (hrest ht)

theorem Ends.kept {call : ℕ} {tr : RpcWireTransaction} {target : Option IBinder}
    {s s' : Status} (h : Ends p rest tr target call i s s') (ht : t ∈ p.tasks)
    (hrest : t ∈ rest → t ∈ tasks) :
    t ∈ tasks ∨ ∃ j rest, Continues (.finish i s) j t ∧ pick p.tasks j = some (t, rest) := by
  cases h with
  | executed hp => exact Continues.kept hp (.executed ..) ht hrest
  | failed hp => exact Continues.kept hp (.failed ..) ht hrest

/-- A thread is left as it is, unless the action is its own. -/
theorem Moves.task_kept (hm : Moves session p act p' outs) (ht : t ∈ p.tasks) :
    t ∈ p'.tasks ∨ ∃ i rest, Continues act i t ∧ pick p.tasks i = some (t, rest) := by
  cases hm with
  | replied _ _ _ _ hp => exact Continues.kept hp (.recvReply ..) ht fun h => Proc.mem_tasks_settle h
  | repliedSpecial _ _ _ hp => exact Continues.kept hp (.recvReply ..) ht id
  | interrupted _ _ _ _ hp => exact Continues.kept hp (.interrupt ..) ht (mem_cons_of_mem _)
  | ordered _ _ _ _ _ hp | invalid _ _ _ _ _ hp =>
    exact Continues.kept hp (.checkOneway ..) ht (mem_cons_of_mem _)
  | queued _ _ _ _ _ _ hp => exact Continues.kept hp (.checkOneway ..) ht (mem_append_right _)
  | onewayGone _ _ _ _ _ _ _ he | syncReply _ _ _ _ _ _ _ he => exact he.kept ht id
  | onewayExhausted _ _ _ _ _ _ _ he | onewayNext _ _ _ _ _ _ _ _ he | syncFlush _ _ _ _ _ _ he =>
    exact he.kept ht (mem_cons_of_mem _)
  | onewayDone _ _ _ _ _ _ _ _ _ he => exact he.kept ht (mem_append_right _)
  | flushed _ _ _ _ _ hp | flushFailed _ _ _ _ _ hp =>
    exact Continues.kept hp (.flush ..) ht (by simp)
  | flushDec _ _ _ _ _ _ hp => exact Continues.kept hp (.flush ..) ht (mem_cons_of_mem _)
  | decFailed _ _ _ _ _ hp | decNothing _ _ _ _ _ hp | decSent _ _ _ _ _ _ _ hp =>
    exact Continues.kept hp (.decToTarget ..) ht (by simp)
  | proxySent _ _ _ _ _ hp | proxyNothing _ _ _ hp =>
    exact Continues.kept hp (.lastStrongRef ..) ht id
  | blocked _ _ _ _ _ hp => exact Continues.kept hp (.targetBlocked ..) ht (by simp)
  | proxyBlocked _ _ _ hp => exact Continues.kept hp (.proxyBlocked ..) ht id
  | transactDead _ _ _ _ _ _ _ _ _ hp | onewaySent _ _ _ _ _ _ _ _ _ _ hp | onewaySentZero _ _ _ _ _ _ _ _ _ hp =>
    exact Continues.kept hp (.transact ..) ht fun h => Proc.mem_tasks_settle h
  | transactExhausted _ _ _ _ _ _ _ _ _ hp | syncSent _ _ _ _ _ _ _ _ _ _ hp =>
    exact Continues.kept hp (.transact ..) ht (mem_cons_of_mem _)
  | released _ _ _ hp => exact Continues.kept hp (.release ..) ht fun h => Proc.mem_tasks_settle h
  | clearedAgain _ _ _ hp | cleared _ _ _ hp =>
    exact Continues.kept hp (.clear ..) ht (mem_append_right _)
  | dropped => exact .inl (Proc.mem_tasks_settle ht)
  | _ => exact .inl (by simp [ht])

/-! ### References to proxies -/

/-- `c` is still referenced, or its last reference is being reported. -/
def Proc.Reported (p : Proc) (c : IBinder) : Prop := c ∈ p.refs ∨ .lastStrongRef c ∈ p.tasks

theorem Proc.reported_settle_self (hown : ownProxy session c) : (settle session c p).Reported c := by
  by_cases hc : p.alive c
  · exact .inl (refs_settle.mpr (by simpa [alive] using hc))
  · exact .inr (by simp [settle, hown, hc])

theorem Proc.reported_of_task (ht : t ∈ p.tasks) (hc : c ∈ t.refs) : p.Reported c :=
  .inl (Proc.mem_refs_of_task ht hc)

theorem Moves.held_kept (hm : Moves session p act p' outs) (hown : Proc.ownProxy session c)
    (hc : c ∈ p.held) : p'.Reported c := by
  cases hm with
  | dropped b =>
    by_cases h : c = b
    · exact h ▸ Proc.reported_settle_self (h ▸ hown)
    · exact .inl (Proc.refs_settle.mpr (Proc.mem_refs_of_held ((mem_erase_of_ne h).mpr hc)))
  | replied | transactDead | onewaySent | onewaySentZero | released =>
    exact .inl (Proc.refs_settle.mpr (Proc.mem_refs_of_held hc))
  | flushed _ _ _ after | decNothing _ _ _ after | decSent _ _ _ after =>
    refine .inl (Proc.mem_refs_of_held ?_)
    cases after <;> simp [Proc.complete, hc]
  | flushFailed | decFailed | blocked => exact .inl (Proc.mem_refs_of_held (by simpa using hc))
  | _ => exact .inl (Proc.mem_refs_of_held (by simp [hc]))

theorem Moves.task_refs_kept (hm : Moves session p act p' outs) (hc : Core session p)
    (hown : Proc.ownProxy session c) (ht : t ∈ p.tasks) (hct : c ∈ t.refs) : p'.Reported c := by
  rcases hm.task_kept ht with ht' | ⟨i, rest, hi, hpick⟩
  · exact .inl (Proc.mem_refs_of_task ht' hct)
  · have hno : t.handles = none := by
      by_contra hne
      obtain ⟨⟨a, b⟩, hh⟩ := Option.ne_none_iff_exists'.mp hne
      obtain ⟨hrefs, hloc⟩ := (hc.tasks t ht).local_of_handles hh
      rw [hrefs, mem_singleton] at hct
      simp [hct ▸ ownProxy_remote hown] at hloc
    cases hi with
    | recvReply _ call b =>
      cases hm with
      | abort => exact .inl (Proc.mem_refs_of_task ht hct)
      | replied _ _ _ _ hp =>
        cases hp.symm.trans hpick
        simp only [Task.refs, Option.toList_some, mem_singleton] at hct
        exact hct ▸ Proc.reported_settle_self (hct ▸ hown)
      | repliedSpecial _ _ _ hp =>
        cases hp.symm.trans hpick
        simp [Task.refs] at hct
    | interrupt _ call b =>
      cases hm with
      | abort => exact .inl (Proc.mem_refs_of_task ht hct)
      | interrupted _ _ _ _ hp =>
        cases hp.symm.trans hpick
        exact Proc.reported_of_task mem_cons_self hct
    | executed _ _ _ _ target | failed _ _ _ _ target =>
      cases target with
      | none => simp [Task.refs] at hct
      | some => simp [Task.handles] at hno
    | checkOneway | flush | decToTarget | targetBlocked => simp [Task.handles] at hno
    | lastStrongRef | proxyBlocked => simp [Task.refs] at hct
    | transact _ call b a code flags data reply =>
      obtain rfl : c = b := by simpa [Task.refs] using hct
      cases hm with
      | abort => exact .inl (Proc.mem_refs_of_task ht hct)
      | transactDead _ _ _ _ _ _ _ _ _ hp | onewaySent _ _ _ _ _ _ _ _ _ _ hp | onewaySentZero _ _ _ _ _ _ _ _ _ hp =>
        cases hp.symm.trans hpick
        exact Proc.reported_settle_self hown
      | transactExhausted _ _ _ _ _ _ _ _ _ hp | syncSent _ _ _ _ _ _ _ _ _ _ hp =>
        cases hp.symm.trans hpick
        exact Proc.reported_of_task mem_cons_self (by simp [Task.refs])
    | release _ b =>
      obtain rfl : c = b := by simpa [Task.refs] using hct
      cases hm with
      | abort => exact .inl (Proc.mem_refs_of_task ht hct)
      | released _ _ _ hp =>
        cases hp.symm.trans hpick
        exact Proc.reported_settle_self hown
    | clear _ bs =>
      have hct : c ∈ bs := hct
      cases hm with
      | abort => exact .inl (Proc.mem_refs_of_task ht hct)
      | clearedAgain _ refs _ hp | cleared _ refs _ hp =>
        cases hp.symm.trans hpick
        exact Proc.reported_of_task (t := .releasing c) (by simp [hct]) (by simp [Task.refs])

theorem Proc.reported_setNode {m' : BinderNode}
    (hst : p'.state = st.setNode x m') (htable : st.mNodeForAddress = p.state.mNodeForAddress)
    (hn : p.state.node? a = some n) (hc : n.sentRef = some c) (hm : p.state.node? x = some m)
    (hkeep : m.sentRef = some c → m'.sentRef = some c) : p'.Reported c := by
  by_cases heq : a = x
  · subst heq
    cases hm.symm.trans hn
    exact .inl (Proc.mem_refs_of_sentRef (a := a) (n := m') (by simp [hst]) (hkeep hc))
  · refine .inl (Proc.mem_refs_of_sentRef (a := a) (n := n) ?_ hc)
    rw [hst, RpcState.node?_setNode, if_neg heq, RpcState.node?, htable]
    exact hn

theorem Proc.reported_eraseNode
    (hst : p'.state = p.state.eraseNode x) (hn : p.state.node? a = some n) (hc : n.sentRef = some c)
    (hm : p.state.node? x = some m) (hkeep : m.sentRef = some c → p'.Reported c) : p'.Reported c := by
  by_cases heq : a = x
  · subst heq
    cases hm.symm.trans hn
    exact hkeep hc
  · exact .inl (Proc.mem_refs_of_sentRef (a := a) (n := n) (by simp [hst, heq, hn]) hc)

theorem GivesBack.reported (hg : GivesBack p.state x m st) (hst : p'.state = st) (hn : p.state.node? a = some n)
    (hc : n.sentRef = some c) (hm : p.state.node? x = some m) : p'.Reported c := by
  cases hg with
  | kept => exact Proc.reported_setNode hst rfl hn hc hm id
  | erased _ hnone => exact Proc.reported_eraseNode hst hn hc hm fun h => by simp [hnone] at h

theorem Moves.sentRef_kept (hm : Moves session p act p' outs) (hcore : Core session p)
    (hn : p.state.node? a = some n) (hc : n.sentRef = some c) : p'.Reported c := by
  have hsend : ∀ x m b, p.state.node? x = some m → m.binder = b → m.sentRef = some c → some b = some c := by
    intro x m b hm hb hs
    rcases (hcore.nodes x m hm).sentRef with h | h
    · simp [hs] at h
    · rw [← hs, h, hb]
  cases hm with
  | targetDead _ _ _ _ hf | targetRemote _ _ _ _ hf | entered _ _ _ _ hf | executed _ _ _ _ hf | readRemote _ _ hf
  | readLocal _ _ hf =>
    exact Proc.reported_setNode rfl rfl hn hc hf.node id
  | targetAdopted _ _ _ had | readAdopted _ had =>
    refine .inl (Proc.mem_refs_of_sentRef (a := a) (n := n) ?_ hc)
    simp only [Proc.addTask_state, Proc.enter_state, RpcState.adopt, RpcState.node?_setNode]
    rw [if_neg fun h => by simp [h, had.absent] at hn]
    exact hn
  | decReleased x _ _ _ _ hm _ _ hr =>
    have hrel : ∀ q : Proc, .releasing c ∈ q.tasks → q.Reported c := fun q h =>
      Proc.reported_of_task h (by simp [Task.refs])
    cases hr with
    | part => exact Proc.reported_setNode rfl rfl hn hc hm id
    | last =>
      by_cases heq : a = x
      · subst heq
        cases hm.symm.trans hn
        exact hrel _ (by simp [hc])
      · exact .inl (Proc.mem_refs_of_sentRef (a := a) (n := n) (by simp [heq, hn]) hc)
    | erased =>
      exact Proc.reported_eraseNode rfl hn hc hm fun h => hrel _ (by simp [h])
  | queued _ _ _ _ _ _ _ hm | onewayDone _ _ _ _ _ _ _ _ _ _ _ hm | onewayNext _ _ _ _ _ _ _ _ _ _ hm =>
    exact Proc.reported_setNode rfl rfl hn hc hm id
  | onewaySent _ _ _ _ _ _ _ _ _ _ _ _ _ hm =>
    exact Proc.reported_setNode (Proc.settle_state ..) rfl hn hc hm id
  | decSent _ _ _ _ _ _ _ _ _ hm _ hg => exact hg.reported (Proc.complete_state ..) hn hc hm
  | proxySent _ _ _ _ _ _ _ hm _ hg => exact hg.reported rfl hn hc hm
  | flattened b x _ _ hl =>
    cases hl with
    | sent m _ hm hb => exact Proc.reported_setNode rfl rfl hn hc hm (hsend x m b hm hb)
    | created _ _ _ hnone =>
      refine .inl (Proc.mem_refs_of_sentRef (a := a) (n := n) ?_ hc)
      rw [RpcState.node?_setNode, if_neg fun h => by simp [h, hnone] at hn]
      exact hn
  | transacting b _ _ _ _ x m _ _ _ hm hb =>
    exact Proc.reported_setNode rfl rfl hn hc hm (hsend x m b hm hb)
  | cleared _ refs =>
    refine Proc.reported_of_task (t := .releasing c) ?_ (by simp [Task.refs])
    have hmem : c ∈ p.state.mNodeForAddress.entries.filterMap (fun e => e.2.sentRef) :=
      mem_filterMap.mpr ⟨(a, n), OrdMap.find?_eq_some_iff.mp hn, hc⟩
    simp only [map_append, mem_append, mem_map]
    exact .inl (.inr ⟨c, hmem, rfl⟩)
  | flushed | flushFailed | decFailed | decNothing | blocked =>
    exact .inl (Proc.mem_refs_of_sentRef (a := a) (n := n) (by simpa using hn) hc)
  | replied | transactDead | onewaySentZero | released | dropped =>
    exact .inl (Proc.mem_refs_of_sentRef (a := a) (n := n) (by simpa using hn) hc)
  | _ => exact .inl (Proc.mem_refs_of_sentRef (a := a) (n := n) hn hc)

/-- A proxy that loses its last reference is reported by some thread. -/
theorem Moves.refs_kept (hm : Moves session p act p' outs) (hcore : Core session p)
    (hown : Proc.ownProxy session c) (hc : c ∈ p.refs) : p'.Reported c := by
  rcases Proc.mem_refs.mp hc with hc | ⟨t, ht, hc⟩ | ⟨a, n, hn, hc⟩
  · exact hm.held_kept hown hc
  · exact hm.task_refs_kept hcore hown ht hc
  · simp only [BinderNode.refs, mem_append, Option.mem_toList, mem_map] at hc
    rcases hc with hc | ⟨x, hx, rfl⟩
    · exact hm.sentRef_kept hcore hn hc
    · obtain ⟨hb, _, _, _, hloc, _⟩ := (hcore.nodes a n hn).todo x hx
      simp [hb ▸ ownProxy_remote hown] at hloc

end

end Binder.Rpc
