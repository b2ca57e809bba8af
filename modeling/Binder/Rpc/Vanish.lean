import Binder.Rpc.Kept
import Binder.Rpc.Entering

/-! Nodes that vanish while a thread still needs them: the races between two honest peers, and
that without them no process stops on a missing node. -/
namespace Binder.Rpc
open Binder.Lib List

/-- The address whose node a thread will look up and rely on. -/
def Task.needs : Task → Option ℕ
  | .entered t _ => some t.address
  | .executing t (some _) _ => if t.oneway then none else some t.address
  | .flushing a _ _ => some a
  | .decToTarget a _ _ => some a
  | _ => none

/-- The checks that fail on a node, or a binder of a node, that is gone. -/
def Fatal.vanished : Fatal → Bool
  | .flushDeleted | .decUnknownAddress | .transactUnknownAddress | .endIterator | .clearNotOwned => true
  | _ => false

/-- A thread that `clear` must not interrupt: a oneway transaction that is received and not yet
ordered, or a dropped proxy that is not yet reported. -/
def Task.unsettled : Task → Bool
  | .entered .. | .lastStrongRef _ => true
  | _ => false

/-- The step is no race: `clear` runs while no thread is unsettled, every dropped proxy is reported,
and `DEC_STRONG` gives back the last references of a node that no thread needs. -/
def Net.unraced (n : Net) : NetAction → Bool
  | .act r (.clear _) _ => (n.proc r).tasks.all fun t => !t.unsettled
  | .act r (.wouldBlock i) _ =>
    match pick (n.proc r).tasks i with
    | some (.lastStrongRef _, _) => false
    | _ => true
  | .deliver i _ =>
    match pick n.flight i with
    | some (⟨s, .decStrong x k⟩, _) =>
      !(n.proc s.other).takesLast x k || (n.proc s.other).tasks.all fun t => t.needs ≠ some x
    | _ => true
  | _ => true

def Unraced (n : Net) (a : NetAction) : Prop := n.unraced a = true
deriving Decidable

variable {t : Task} {x : ℕ} {m : BinderNode}

section

variable {session : Session} {p p' : Proc} {act : Action} {outs : List Out}

/-- A thread that needs a node needed it before, or the node was just looked up. -/
theorem TaskOrigin.needs (h : TaskOrigin session p p' act t) (hc : Core session p)
    (ht : t.needs = some x) : (∃ t' ∈ p.tasks, t'.needs = some x) ∨
      ((∀ k, act ≠ .recvDecStrong x k) ∧ ∃ m, p.state.node? x = some m) := by
  cases h with
  | kept _ hm => exact .inl ⟨t, hm, ht⟩
  | special | rejected | invalid | dying | transacting | waiting | waitingSpecial | releasing | shutdown =>
    simp [Task.needs] at ht
  | entered _ _ m hact _ hf =>
    cases ht
    exact .inr ⟨by simp [hact], m, hf.node⟩
  | executed _ _ m hact _ hf _ _ how =>
    simp only [Task.needs, how, Bool.false_eq_true, if_false, Option.some.injEq] at ht
    subst ht
    exact .inr ⟨by simp [hact], m, hf.node⟩
  | read y m hact hf =>
    cases ht
    exact .inr ⟨by simp [hact], m, hf.node⟩
  | ordered t b hm =>
    obtain ⟨_, _, how⟩ := hc.tasks _ hm
    simp [Task.needs, how] at ht
  | next _ _ _ _ y m hact _ hm hy =>
    cases ht
    rw [((hc.nodes _ _ hm).todo y hy).2.1]
    exact .inr ⟨by simp [hact], m, hm⟩
  | flushing _ _ t _ _ _ hact hm hn =>
    cases ht
    cases how : t.oneway with
    | false => exact .inl ⟨_, hm, by simp [Task.needs, how]⟩
    | true => exact .inr ⟨by simp [hact], Option.ne_none_iff_exists'.mp (hn how)⟩
  | decToTarget _ _ _ hm =>
    cases ht
    exact .inl ⟨_, hm, rfl⟩

theorem Task.needs_handles (h : t.needs = some x) : ∃ b, t.handles = some (x, b) := by
  match t, h with
  | .entered _ b, h | .flushing _ b _, h | .decToTarget _ b _, h =>
    cases h
    exact ⟨b, rfl⟩
  | .executing t (some b) _, h =>
    simp only [needs] at h
    split_ifs at h
    cases h
    exact ⟨b, rfl⟩

/-- A proxy that `onBinderEntering` makes is referenced by the thread that received it. -/
theorem Moves.adopted_refs (hm : Moves session p act p' outs)
    (hx : act.enters = some x) (had : Adopts session p.state x) (hn : p'.state.node? x = some m) :
    IBinder.rpcProxy p.nextBinder session.id x ∈ p'.refs := by
  cases hm with
  | targetAdopted t call =>
    obtain rfl := address_of_enters hx
    exact Proc.mem_refs_of_task mem_cons_self (by simp [Task.refs])
  | readAdopted =>
    cases hx
    exact Proc.mem_refs_of_held mem_cons_self
  | abort | rejected | readRejected => exact absurd hn (by simp [had.absent])
  | targetDead t call _ _ hf | targetRemote t call _ _ hf | entered t call _ _ hf | executed t call _ _ hf =>
    obtain rfl := address_of_enters hx
    exact absurd hf.node (by simp [had.absent])
  | readRemote _ _ hf | readLocal _ _ hf =>
    cases hx
    exact absurd hf.node (by simp [had.absent])
  | special _ _ h0 => simp [Action.enters, h0] at hx
  | _ => simp [Action.enters] at hx

/-- A reported proxy is gone from the table once its thread has sent the report. -/
theorem Moves.reported_kept (hm : Moves session p act p' outs) (hc : Core session p)
    {m' : BinderNode} (hn : p.state.node? x = some m) (hrem : m.binder.isRemote = true)
    (hn' : p'.state.node? x = some m') (h : .lastStrongRef m.binder ∈ p.tasks)
    (hblock : ∀ i, act = .wouldBlock i → ∀ b rest, pick p.tasks i ≠ some (.lastStrongRef b, rest)) :
    .lastStrongRef m.binder ∈ p'.tasks := by
  have hok := hc.nodes x m hn
  have hrun := hc.node_running hn
  obtain ⟨id, hb⟩ := hok.shape.resolve_left (by simp [hrem])
  have haddr : m.binder.rpcAddress = x := by rw [hb]; rfl
  by_contra hno
  obtain ⟨i, rest, hi, hpick⟩ := (hm.task_kept h).resolve_left hno
  cases hi with
  | proxyBlocked => exact hblock i rfl _ _ hpick
  | lastStrongRef =>
    cases hm with
    | abort => exact hno h
    | decFailed _ _ _ _ _ hp | decNothing _ _ _ _ _ hp | decSent _ _ _ _ _ _ _ hp =>
      cases hp.symm.trans hpick
    | proxySent _ _ _ _ _ hp _ hm'' _ hg =>
      cases hp.symm.trans hpick
      rw [haddr] at hm'' hg
      cases hm''.symm.trans hn
      cases hg with
      | kept hs => exact hs (hc.dying_node h hrun (haddr.symm ▸ hn)).2
      | erased => simp at hn'
    | proxyNothing _ _ _ hp hnone =>
      cases hp.symm.trans hpick
      exact hok.recd hrem (hnone hrun m (haddr.symm ▸ hn))

end

/-- Every thread finds the node it needs, and every proxy in the table is referenced or reported. -/
structure Steady (p : Proc) : Prop where
  present : p.state.mTerminated = false → ∀ t ∈ p.tasks, ∀ x, t.needs = some x → p.state.node? x ≠ none
  ended : p.state.mTerminated = true → ∀ t b, .entered t b ∉ p.tasks
  reported : ∀ x m, p.state.node? x = some m → m.binder.isRemote = true → p.Reported m.binder

namespace Steady

theorem init : Steady {} := ⟨by simp, by simp, by simp [RpcState.node?]⟩

variable {n n' : Net} {r : Role} {a : NetAction} {act : Action} {outs : List Out}

variable {i : ℕ}

theorem unraced_clear (hu : Unraced n a) (ha : Acts n a n' r act outs) (hact : act = .clear i) :
    ∀ t ∈ (n.proc r).tasks, t.unsettled = false := by
  subst hact
  cases ha.offered with
  | own =>
    intro t ht
    simpa using all_eq_true.mp hu t ht

theorem unraced_block (hu : Unraced n a) (ha : Acts n a n' r act outs) (hact : act = .wouldBlock i)
    (b : IBinder) (rest : List Task) : pick (n.proc r).tasks i ≠ some (.lastStrongRef b, rest) := by
  subst hact
  cases ha.offered with
  | own =>
    intro hp
    simp [Unraced, Net.unraced, hp] at hu

theorem unraced_release (hu : Unraced n a) (ha : Acts n a n' r act outs)
    (hact : act = .recvDecStrong x m.timesSent) (hm : (n.proc r).state.node? x = some m)
    (hr : m.timesRecd = 0) : ∀ t ∈ (n.proc r).tasks, t.needs ≠ some x := by
  subst hact
  cases ha.offered with
  | own _ _ hloc => simp [Action.isLocal] at hloc
  | decStrong _ _ _ _ _ hp =>
    intro t ht
    have hlast : (n.proc r).takesLast x m.timesSent = true := by simp [Proc.takesLast, hm, hr]
    simp only [Unraced, Net.unraced, hp, Role.other_other, hlast, Bool.not_true, Bool.false_or] at hu
    simpa using all_eq_true.mp hu t ht

/-- Without a race a node that some thread needs stays. -/
theorem node_kept (hs : Steady (n.proc r)) (hh : Honest n) (hu : Unraced n a) (ha : Acts n a n' r act outs)
    (hrun : (n'.proc r).state.mTerminated = false) (ht : t ∈ (n'.proc r).tasks)
    (hx : t.needs = some x) : (n'.proc r).state.node? x ≠ none := by
  have hrun₀ : (n.proc r).state.mTerminated = false := by
    by_contra hp
    simp [ha.moves.terminated (by simpa using hp)] at hrun
  have horigin := (ha.moves.task_origin ht).needs (hh.core r) hx
  have hnode : ∃ m, (n.proc r).state.node? x = some m := by
    rcases horigin with ⟨t', ht', hx'⟩ | ⟨_, h⟩
    · exact Option.ne_none_iff_exists'.mp (hs.present hrun₀ t' ht' x hx')
    · exact h
  obtain ⟨m, hm⟩ := hnode
  obtain ⟨b, hh'⟩ := Task.needs_handles hx
  have hown := hh.handled_step ha t ht x b hh'
  have hloc : m.binder.isRemote = false :=
    (hh.own r x m (by rwa [Net.view_running hrun₀])).mpr hown
  intro hnone
  rcases hh.local_fate ha hrun hm hloc with ⟨m', hm', _⟩ | ⟨hact, hr, _⟩
  · simp [hnone] at hm'
  · rcases horigin with ⟨t', ht', hx'⟩ | ⟨hne, _⟩
    · exact unraced_release hu ha hact hm hr t' ht' hx'
    · exact hne _ hact

theorem step (hs : Steady (n.proc r)) (hh : Honest n) (hu : Unraced n a) (ha : Acts n a n' r act outs) :
    Steady (n'.proc r) := by
  refine ⟨fun hrun t ht x hx => hs.node_kept hh hu ha hrun ht hx, fun hterm t b ht => ?_, fun x m hm hrem => ?_⟩
  · cases hrun : (n.proc r).state.mTerminated with
    | true =>
      cases ha.moves.task_origin ht with
      | kept _ ht => exact hs.ended hrun t b ht
      | entered _ _ m _ _ hf => simp [hf.running] at hrun
      | next _ _ _ _ _ _ _ _ hm => simp [(hh.core r).ended hrun] at hm
    | false =>
      obtain ⟨i, hact⟩ := ha.moves.clears hrun hterm
      cases ha.moves.task_origin ht with
      | kept _ ht => simpa [Task.unsettled] using unraced_clear hu ha hact _ ht
      | entered _ _ _ hact' | next _ _ _ _ _ _ hact' => simp [hact] at hact'
  · cases ha.moves.node_origin hm with
    | earlier m₀ hm₀ hb =>
      rw [← hb] at hrem ⊢
      have hown : Proc.ownProxy r.session m₀.binder := by
        obtain ⟨id, hid⟩ := ((hh.core r).nodes x m₀ hm₀).shape.resolve_left (by simp [hrem])
        simp [hid, Proc.ownProxy]
      rcases hs.reported x m₀ hm₀ hrem with href | hdying
      · exact ha.moves.refs_kept (hh.core r) hown href
      · exact .inr (ha.moves.reported_kept (hh.core r) hm₀ hrem hm hdying
          fun i hact b rest => unraced_block hu ha hact b rest)
    | left _ _ _ hloc => simp [hrem] at hloc
    | adopted hent had hb => exact .inl (hb ▸ ha.moves.adopted_refs hent had hm)

/-- Every check that fails is about something else than a missing node. -/
theorem not_vanished (hs : Steady (n.proc r)) (hh : Honest n) (hu : Unraced n a)
    (ha : Acts n a n' r act outs) {f : Fatal} (hf : Aborts r.session (n.proc r) act f) :
    f.vanished = false := by
  have hc := hh.core r
  cases hf with
  | flushDeleted _ x _ _ _ hp hrun hn | decUnknown _ x _ _ _ hp hrun hn =>
    exact absurd hn (hs.present hrun _ (mem_of_pick hp) x rfl)
  | endIterator _ t b _ hp hn =>
    cases hrun : (n.proc r).state.mTerminated with
    | false => exact absurd hn (hs.present hrun _ (mem_of_pick hp) _ rfl)
    | true => exact absurd (mem_of_pick hp) (hs.ended hrun t b)
  | proxyUnknown _ b _ hp hrun hn =>
    obtain ⟨_, ht | ⟨m, hm, _⟩⟩ := hc.dying b (mem_of_pick hp)
    · simp [hrun] at ht
    · simp [hn] at hm
  | transactUnknown _ _ _ _ _ _ _ _ _ hp hrun hn =>
    obtain ⟨hown, hx⟩ := hc.tasks _ (mem_of_pick hp)
    obtain ⟨m, hm, _⟩ := hc.proxy_node (Proc.mem_refs_of_task (mem_of_pick hp) mem_cons_self) hown hrun
    simp [← hx, hn] at hm
  | notOwned i x m hrun hm hdead =>
    exfalso
    cases hrem : m.binder.isRemote with
    | false =>
      exact hdead (Proc.mem_refs_of_sentRef hm (hh.local_sentRef (by rwa [Net.view_running hrun]) hrem))
    | true =>
      have hdying := (hs.reported x m hm hrem).resolve_left hdead
      simpa [Task.unsettled] using unraced_clear hu ha rfl _ hdying
  | decNeverSent _ _ _ _ _ _ _ _ _ _ _ hf | proxyPending _ _ _ _ _ _ _ _ _ hf =>
    rcases hf with ⟨rfl, _⟩ | ⟨rfl, _⟩ <;> rfl
  | _ => rfl

end Steady

/-- In every run of two honest peers without such a race, no process stops because a node, or the
binder of a node, is gone. -/
theorem not_vanished_of_unraced (n : Net) (h : Reachable Net.next Unraced Net.init n) (r : Role) :
    (n.proc r).aborted.any Fatal.vanished = false := by
  have hinv : Honest n ∧ ∀ r, Steady (n.proc r) ∧ (n.proc r).aborted.any Fatal.vanished = false := by
    refine h.invariant
      (fun n => Honest n ∧ ∀ r, Steady (n.proc r) ∧ (n.proc r).aborted.any Fatal.vanished = false)
      ⟨.init, fun _ => ⟨.init, rfl⟩⟩ fun m a m' ⟨hh, hs⟩ hu hnext => ?_
    obtain ⟨⟨m'', r, outs⟩, hstep, rfl⟩ := Option.map_eq_some_iff.mp hnext
    have hmv := Net.step_netMoves hstep
    refine ⟨hh.step hmv, fun s => ?_⟩
    rcases hmv.acts with ⟨act, ha⟩ | ⟨_, hproc, _⟩
    · rcases Role.eq_or_eq_other r s with rfl | rfl
      · refine ⟨(hs s).1.step hh hu ha, ?_⟩
        cases hab : (m''.proc s).aborted with
        | none => rfl
        | some g =>
          obtain ⟨f, hf, hp, _⟩ := ha.moves.aborts ha.running (by simp [hab])
          obtain rfl : f = g := by simpa [hp] using hab
          exact (hs s).1.not_vanished hh hu ha hf
      · rw [ha.other]
        exact hs r.other
    · rw [hproc]
      exact hs s
  exact (hinv.2 r).2

theorem not_vanished_example : ∃ n : Net, (n.proc .server).tasks = [.releasing (.bBinder 0)] ∧
    (n.proc .server).aborted.any Fatal.vanished = false := by
  obtain ⟨n, hn, htasks⟩ := exists_reachable Net.next Unraced Net.init (passAndDrop ++ [.deliver 0 0])
    (fun n => (n.proc .server).tasks = [.releasing (.bBinder 0)]) (by decide)
  exact ⟨n, htasks, not_vanished_of_unraced n hn .server⟩

def droppedWhileEnding : List NetAction :=
  passAndDrop.take 8 ++ [.act .client .beginShutdown [], .act .client (.clear 0) []]

def onewayWhileEnding : List NetAction :=
  passAndDrop.take 7 ++ [.act .client (.transact (.rpcProxy 0 0 3) 1 1 [] false) [],
    .act .client (.transactAddress 0 5) [], .deliver 0 0, .act .server .beginShutdown [],
    .act .server (.clear 0) [], .act .server (.checkOneway 1) []]

/-- Two calls pass a binder back to its owner, whose threads read it at the same time, while the
client drops its proxy. -/
def returnedTwice : List NetAction :=
  [.act .client (.transactSpecial 0 0) [], .deliver 0 0, .act .server (.newBinder (.bBinder 0)) [],
    .act .server (.flatten (.bBinder 0)) [], .act .server (.newBinder (.bBinder 1)) [],
    .act .server (.flatten (.bBinder 1)) [], .act .server (.finish 0 .ok) [3, 4294967299], .deliver 0 0,
    .read .client 0, .read .client 0, .act .client (.flatten (.rpcProxy 0 0 3)) [],
    .act .client (.flatten (.rpcProxy 0 0 3)) [],
    .act .client (.transact (.rpcProxy 1 0 4294967299) 1 0 [] true) [],
    .act .client (.transactAddress 0 9) [3],
    .act .client (.transact (.rpcProxy 1 0 4294967299) 1 0 [] true) [],
    .act .client (.transactAddress 0 11) [3], .act .client (.drop (.rpcProxy 0 0 3)) [],
    .deliver 0 0, .deliver 0 0, .read .server 0, .read .server 0, .act .server (.flush 0) [],
    .act .server (.flush 1) [], .act .server (.decStrong 0) [], .deliver 0 0,
    .act .client (.release 0) [], .act .client (.decStrong 0) [], .deliver 0 0,
    .act .server (.decStrong 1) []]

/-- Each of the three races stops a process. -/
theorem races_abort : (∃ n, Reachable Net.next Free Net.init n ∧ (n.proc .client).aborted = some .clearNotOwned) ∧
    (∃ n, Reachable Net.next Free Net.init n ∧ (n.proc .server).aborted = some .endIterator) ∧
    ∃ n, Reachable Net.next Free Net.init n ∧ (n.proc .server).aborted = some .decUnknownAddress := by
  refine ⟨?_, ?_, ?_⟩
  · exact exists_reachable Net.next Free Net.init droppedWhileEnding _ (by decide)
  · exact exists_reachable Net.next Free Net.init onewayWhileEnding _ (by decide)
  · exact exists_reachable Net.next Free Net.init returnedTwice _ (by decide)

end Binder.Rpc
