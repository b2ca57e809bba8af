import Binder.Rpc.Account

/-! The reference counts of two honest peers balance: what one side counts as sent is on its
way, counted as received by the other side, or on its way back. -/
namespace Binder.Rpc
open Binder.Lib List Function

/-- The references a command carries, its target included. -/
def Message.refs : Message → List ℕ
  | .transact t refs _ => target t ++ refs
  | .reply refs _ => refs
  | .decStrong .. => []

def Message.decs (a : ℕ) : Message → ℕ
  | .decStrong x k => if x = a then k else 0
  | _ => 0

def Packet.carries (s : Role) (a : ℕ) (k : Packet) : ℕ := if k.sender = s then k.message.refs.count a else 0

def Packet.gives (s : Role) (a : ℕ) (k : Packet) : ℕ := if k.sender = s then k.message.decs a else 0

namespace Net

/-- The references to `a` that `s` sent, or is about to send, and that were not read. -/
def pool (n : Net) (s : Role) (a : ℕ) : ℕ :=
  (n.unsent s).count a + (n.proc s).carried a + (n.flight.map (Packet.carries s a)).sum +
    (n.unread s).count a + (n.lost s).count a

def decs (n : Net) (s : Role) (a : ℕ) : ℕ := (n.flight.map (Packet.gives s a)).sum

/-- The table of one side, as it was when the session ended. -/
def view (n : Net) (r : Role) : RpcState :=
  if (n.proc r).state.mTerminated then n.tomb r else (n.proc r).state

def Balanced (n : Net) : Prop := ∀ s a, (n.view s).sentTimes a =
  n.pool s a + (n.view s.other).recdTimes a + n.decs s.other a + n.leak s a

/-! ### Outputs -/

theorem sum_carries_self (r : Role) (refs : List ℕ) (a : ℕ) (outs : List Out) :
    ((packets r refs outs).map (Packet.carries r a)).sum =
      (outs.map (Out.targets a)).sum + outs.countP Out.hasParcel * refs.count a := by
  induction outs with
  | nil => simp [packets]
  | cons o outs ih =>
    have hcons : packets r refs (o :: outs) = ((o.message refs).map (Packet.mk r)).toList ++
      packets r refs outs := rfl
    rw [hcons, map_append, sum_append, ih, map_cons, sum_cons, countP_cons, add_mul]
    cases o <;> simp [Out.message, Packet.carries, Message.refs, Out.targets, Out.hasParcel] <;> omega

theorem sum_gives_self (r : Role) (refs : List ℕ) (a : ℕ) (outs : List Out) :
    ((packets r refs outs).map (Packet.gives r a)).sum = (outs.map (Out.decs a)).sum := by
  induction outs with
  | nil => simp [packets]
  | cons o outs ih =>
    have hcons : packets r refs (o :: outs) = ((o.message refs).map (Packet.mk r)).toList ++
      packets r refs outs := rfl
    rw [hcons, map_append, sum_append, ih, map_cons, sum_cons]
    cases o <;> simp [Out.message, Packet.gives, Message.decs, Out.decs]

variable {refs : List ℕ} {x : ℕ}

theorem sender_of_mem_packets {r : Role} {outs : List Out} {k : Packet}
    (h : k ∈ packets r refs outs) : k.sender = r := by
  obtain ⟨o, _, ho⟩ := mem_flatMap.mp h
  simp only [Option.mem_toList, Option.map_eq_some_iff] at ho
  obtain ⟨m, _, rfl⟩ := ho
  rfl

theorem sum_carries_other {r s : Role} (h : r ≠ s) (refs : List ℕ) (a : ℕ) (outs : List Out) :
    ((packets r refs outs).map (Packet.carries s a)).sum = 0 := by
  refine sum_eq_zero fun x hx => ?_
  obtain ⟨k, hk, rfl⟩ := mem_map.mp hx
  simp [Packet.carries, sender_of_mem_packets hk, h]

theorem sum_gives_other {r s : Role} (h : r ≠ s) (refs : List ℕ) (a : ℕ) (outs : List Out) :
    ((packets r refs outs).map (Packet.gives s a)).sum = 0 := by
  refine sum_eq_zero fun x hx => ?_
  obtain ⟨k, hk, rfl⟩ := mem_map.mp hx
  simp [Packet.gives, sender_of_mem_packets hk, h]

/-! ### The tables, seen from outside -/

variable {n : Net} {r : Role} {p : Proc} {act : Action} {outs : List Out}

theorem view_setProc_other : (n.setProc r p).view r.other = n.view r.other := by
  unfold view
  rw [setProc_proc_other]
  split_ifs
  · unfold setProc
    split_ifs
    · exact update_of_ne (Role.other_ne r) ..
    · rfl
  · rfl

theorem view_running (h : (n.proc r).state.mTerminated = false) : n.view r = (n.proc r).state := by
  simp [view, h]

theorem view_setProc_ended (h : p.state.mTerminated = true) : (n.setProc r p).view r = n.view r := by
  unfold view
  unfold setProc
  cases (n.proc r).state.mTerminated <;> simp [h]

theorem view_moves (hm : Moves r.session (n.proc r) act p outs) (hc : Core r.session (n.proc r))
    (hp : Core r.session p) (hclear : ∀ i, act ≠ .clear i) (a : ℕ) :
    ((n.setProc r p).view r).sentTimes a + (n.proc r).state.sentTimes a =
        (n.view r).sentTimes a + p.state.sentTimes a ∧
      ((n.setProc r p).view r).recdTimes a + (n.proc r).state.recdTimes a =
        (n.view r).recdTimes a + p.state.recdTimes a := by
  cases ht : (n.proc r).state.mTerminated with
  | true =>
    have ht' := hm.terminated ht
    rw [view_setProc_ended ht', RpcState.sentTimes_of_none (hc.ended ht a),
      RpcState.sentTimes_of_none (hp.ended ht' a), RpcState.recdTimes_of_none (hc.ended ht a),
      RpcState.recdTimes_of_none (hp.ended ht' a)]
    exact ⟨rfl, rfl⟩
  | false =>
    have ht' : p.state.mTerminated = false := by
      by_contra h
      obtain ⟨i, hi⟩ := hm.clears ht (by simpa using h)
      exact hclear i hi
    rw [view_running ht, view_running (by rwa [setProc_proc_self]), setProc_proc_self]
    exact ⟨Nat.add_comm .., Nat.add_comm ..⟩

/-! ### Every step keeps the balance -/

theorem Balanced.carried_zero (hb : n.Balanced) {s : Role} (hz : (n.view s).node? 0 = none) :
    (n.proc s).carried 0 = 0 := by
  have h := hb s 0
  rw [RpcState.sentTimes_of_none hz] at h
  unfold pool at h
  omega

theorem view_afterLocal (s : Role) (refs : List ℕ) :
    (n.afterLocal r act refs p outs).view s = (n.setProc r p).view s := rfl

theorem count_refs_sent (a : ℕ) (h1 : outs.countP Out.hasParcel ≤ 1)
    (h : refs = [] ∨ outs.any Out.hasParcel = true) :
    outs.countP Out.hasParcel * refs.count a = refs.count a := by
  rcases h with rfl | hany
  · simp
  · have hpos : 0 < outs.countP Out.hasParcel := by
      obtain ⟨o, ho, hp⟩ := any_eq_true.mp hany
      exact countP_pos_iff.mpr ⟨o, ho, hp⟩
    rw [show outs.countP Out.hasParcel = 1 by omega, one_mul]

/-- The pool of the side that acts, and of the other side, after a local action. -/
theorem pool_afterLocal_self (a : ℕ) (hm : Moves r.session (n.proc r) act p outs)
    (hsub : refs.Subperm (n.unsent r)) (h : refs = [] ∨ outs.any Out.hasParcel = true) :
    (n.afterLocal r act refs p outs).pool r a + (n.proc r).carried a = n.pool r a + p.carried a +
      (outs.flatMap Out.flat).count a + (outs.map (Out.targets a)).sum +
      ((n.proc r).abandoned act outs).count a := by
  have hle := hsub.count_le a
  have hsent := sum_carries_self r refs a outs
  rw [count_refs_sent a hm.one_parcel h] at hsent
  simp only [pool, afterLocal, update_self, addLeak_proc, lose_proc, setProc_proc_self,
    addLeak_unread, lose_unread, setProc_unread, addLeak_lost, lose_lost_self, setProc_lost,
    count_append, map_append, sum_append, hsent, count_diff]
  omega

theorem pool_afterLocal_other (a : ℕ) : (n.afterLocal r act refs p outs).pool r.other a = n.pool r.other a := by
  have hsent := sum_carries_other (Role.ne_other r) refs a outs
  simp only [pool, afterLocal, addLeak_proc, lose_proc, setProc_proc_other, addLeak_unread, lose_unread,
    setProc_unread, addLeak_lost, lose_lost_other, setProc_lost, map_append, sum_append, hsent,
    update_of_ne (Role.other_ne r)]
  omega

theorem decs_afterLocal_self (a : ℕ) :
    (n.afterLocal r act refs p outs).decs r a = n.decs r a + (outs.map (Out.decs a)).sum := by
  simp only [decs, afterLocal, map_append, sum_append, sum_gives_self]
  omega

theorem decs_afterLocal_other (a : ℕ) : (n.afterLocal r act refs p outs).decs r.other a = n.decs r.other a := by
  simp only [decs, afterLocal, map_append, sum_append, sum_gives_other (Role.ne_other r)]
  omega

theorem leak_afterLocal_self (a : ℕ) : (n.afterLocal r act refs p outs).leak r a = n.leak r a := by
  simp [afterLocal]

theorem leak_afterLocal_other (a : ℕ) : (n.afterLocal r act refs p outs).leak r.other a =
      n.leak r.other a + (outs.map (truncated (n.proc r).state a)).sum := by
  simp [afterLocal]

theorem Balanced.afterLocal (hb : n.Balanced) (hloc : act.isLocal = true)
    (hm : Moves r.session (n.proc r) act p outs) (hc : Core r.session (n.proc r)) (hp : Core r.session p)
    (hab : p.aborted = none) (hz : (n.proc r).carried 0 = 0) (hsub : refs.Subperm (n.unsent r))
    (h : refs = [] ∨ outs.any Out.hasParcel = true) : (n.afterLocal r act refs p outs).Balanced := by
  have hself : ∀ a, ((n.setProc r p).view r).sentTimes a + (n.proc r).carried a =
        (n.view r).sentTimes a + p.carried a + (outs.flatMap Out.flat).count a +
          (outs.map (Out.targets a)).sum + ((n.proc r).abandoned act outs).count a ∧
      (n.view r).recdTimes a = ((n.setProc r p).view r).recdTimes a + (outs.map (Out.decs a)).sum +
        (outs.map (truncated (n.proc r).state a)).sum := by
    intro a
    by_cases hclear : ∃ i, act = .clear i
    · obtain ⟨i, rfl⟩ := hclear
      obtain ⟨ht, rfl, hcar⟩ := hm.clear_still rfl hab a
      rw [view_setProc_ended ht, abandoned_eq_nil (by simp), hcar]
      simp
    · push Not at hclear
      have hacc := hm.accounts hz (.inl hloc) hclear hab a
      obtain ⟨hs, hr⟩ := view_moves hm hc hp hclear a
      have h1 := hacc.sent
      have h2 := hacc.recd
      constructor <;> omega
  intro s a
  rcases Role.eq_or_eq_other r s with rfl | rfl
  · have hbal := hb s a
    have hpool := pool_afterLocal_self a hm hsub h
    have h1 := (hself a).1
    rw [view_afterLocal, view_afterLocal, view_setProc_other, decs_afterLocal_other, leak_afterLocal_self]
    omega
  · have hbal := hb r.other a
    have h2 := (hself a).2
    rw [Role.other_other] at hbal ⊢
    rw [view_afterLocal, view_afterLocal, view_setProc_other, pool_afterLocal_other, decs_afterLocal_self,
      leak_afterLocal_other]
    omega

theorem Balanced.crash (hb : n.Balanced) (hst : p.state = (n.proc r).state)
    (ht : p.tasks = (n.proc r).tasks) : (n.crash r p).Balanced := by
  have hproc : ∀ s, ((n.crash r p).proc s).state = (n.proc s).state ∧
      ((n.crash r p).proc s).tasks = (n.proc s).tasks := by
    intro s
    rcases Role.eq_or_eq_other r s with rfl | rfl
    · simp [Net.crash, hst, ht]
    · simp [Net.crash]
  intro s a
  have hview : ∀ x, (n.crash r p).view x = n.view x := fun x => by
    unfold view
    rw [(hproc x).1]
    rfl
  have hpool : (n.crash r p).pool s a = n.pool s a := by
    unfold pool Proc.carried
    rw [(hproc s).2]
    rfl
  rw [hview, hview, hpool]
  exact hb s a

/-- The balance of both sides up to `d` references of `s` and `e` decrements for `s.other` that are
nowhere yet. -/
def Owes (n : Net) (s : Role) (d e : ℕ → ℕ) : Prop := ∀ a,
  (n.view s).sentTimes a = n.pool s a + (n.view s.other).recdTimes a + n.decs s.other a + n.leak s a + d a ∧
    (n.view s.other).sentTimes a =
      n.pool s.other a + (n.view s).recdTimes a + n.decs s a + n.leak s.other a + e a

section Owes

variable {s : Role} {d d' e e' : ℕ → ℕ}

theorem Owes.balanced (h : n.Owes s 0 0) : n.Balanced := by
  intro x a
  rcases Role.eq_or_eq_other s x with rfl | rfl
  · exact (h a).1
  · rw [Role.other_other]
    exact (h a).2

theorem Owes.lose (h : n.Owes s (fun a => refs.count a + d a) e) : (n.lose s refs).Owes s d e := by
  intro a
  have h := h a
  simp only [view, pool, decs, lose_proc, lose_tomb, lose_flight, lose_unsent, lose_unread, lose_leak,
    lose_lost_self, lose_lost_other, count_append] at h ⊢
  omega

theorem Owes.arrive (h : n.Owes s (fun a => refs.count a + d a) e) : (n.arrive s refs).Owes s d e := by
  intro a
  have h := h a
  simp only [view, pool, decs, arrive_proc, arrive_tomb, arrive_flight, arrive_unsent, arrive_lost,
    arrive_leak, arrive_unread_self, arrive_unread_other, count_append] at h ⊢
  omega

theorem Owes.addLeak {f : ℕ → ℕ} (h : n.Owes s d fun a => f a + e a) : (n.addLeak s.other f).Owes s d e := by
  intro a
  have h := h a
  simp only [view, pool, decs, addLeak_proc, addLeak_tomb, addLeak_flight, addLeak_unsent, addLeak_unread,
    addLeak_lost, addLeak_leak_self, addLeak_other_leak] at h ⊢
  omega

theorem Owes.setProc (h : n.Owes s d e) (hm : Moves s.other.session (n.proc s.other) act p outs)
    (hc : Core s.other.session (n.proc s.other)) (hp : Core s.other.session p) (hclear : ∀ i, act ≠ .clear i)
    (hd : ∀ a, (n.proc s.other).state.recdTimes a + d a = p.state.recdTimes a + d' a)
    (he : ∀ a, p.state.sentTimes a + (n.proc s.other).carried a + e a =
      (n.proc s.other).state.sentTimes a + p.carried a + e' a) : (n.setProc s.other p).Owes s d' e' := by
  intro a
  have h := h a
  have hv := view_moves hm hc hp hclear a
  have hd := hd a
  have he := he a
  have hkeep : (n.setProc s.other p).view s = n.view s := by
    simpa using view_setProc_other (n := n) (r := s.other) (p := p)
  rw [hkeep]
  simp only [pool, decs, setProc_other_proc, setProc_proc_self, setProc_flight, setProc_unsent, setProc_unread,
    setProc_lost, setProc_leak] at h ⊢
  omega

end Owes

section Flight

variable {i : ℕ} {s : Role} {m : Message} {rest : List Packet} {t : RpcWireTransaction} {call : ℕ}

theorem Balanced.taken (hb : n.Balanced) (h : pick n.flight i = some (⟨s, m⟩, rest)) :
    { n with flight := rest }.Owes s (m.refs.count ·) (m.decs ·) := by
  intro a
  have hs := hb s a
  have ho := hb s.other a
  simp only [view, pool, decs, sum_map_of_pick h, Packet.carries, Packet.gives, if_true, if_neg (Role.ne_other s),
    Role.other_other] at hs ho ⊢
  omega

theorem Balanced.tooLarge (hb : n.Balanced) (h : pick n.flight i = some (⟨s, .transact t refs call⟩, rest)) :
    ({ n with flight := rest }.lose s (target t ++ refs)).Balanced :=
  Owes.balanced (s := s) (Owes.lose (hb.taken h))

/-- A command that arrives hands its references to the receiver; its target is counted at once. -/
theorem Balanced.transact (hb : n.Balanced) (h : pick n.flight i = some (⟨s, .transact t refs call⟩, rest))
    (hm : Moves s.other.session (n.proc s.other) (.recvTransact t call) p outs)
    (hc : Core s.other.session (n.proc s.other)) (hp : Core s.other.session p) (hab : p.aborted = none) :
    ((({ n with flight := rest }.setProc s.other p).lose s
      ((n.proc s.other).refusedTarget s.other.session t)).arrive s refs).Balanced := by
  have hself : ∀ a, p.state.sentTimes a = (n.proc s.other).state.sentTimes a ∧
      p.state.recdTimes a + ((n.proc s.other).refusedTarget s.other.session t).count a =
        (n.proc s.other).state.recdTimes a + (target t).count a ∧ p.carried a = (n.proc s.other).carried a := by
    intro a
    unfold Proc.refusedTarget target
    split_ifs with h0
    · obtain ⟨hst, hcar⟩ := hm.special_still rfl h0 a
      rw [hst]
      exact ⟨rfl, rfl, hcar⟩
    · have hen := hm.enters (x := t.address) (by simp [Action.enters, h0]) hab a
      refine ⟨hen.sent, ?_, hen.carried⟩
      have hrecd := hen.recd
      rw [count_singleton]
      by_cases hx : a = t.address
      · simp only [hx, beq_self_eq_true, if_true] at *
        omega
      · have hx' : ¬ t.address = a := fun e => hx e.symm
        simp only [hx, beq_iff_eq, hx', if_false] at *
        omega
  apply Owes.balanced (s := s)
  apply Owes.arrive
  apply Owes.lose
  refine (hb.taken h).setProc hm hc hp (fun i => by simp) ?_ ?_
  · intro a
    have hrecd := (hself a).2.1
    simp only [Message.refs, count_append, Pi.zero_apply]
    omega
  · intro a
    rw [(hself a).1, (hself a).2.2]
    rfl

theorem Balanced.reply {j : ℕ} (hb : n.Balanced) (h : pick n.flight i = some (⟨s, .reply refs call⟩, rest))
    (hm : Moves s.other.session (n.proc s.other) (.recvReply j) p outs)
    (hc : Core s.other.session (n.proc s.other)) (hp : Core s.other.session p) :
    (({ n with flight := rest }.setProc s.other p).arrive s refs).Balanced := by
  apply Owes.balanced (s := s)
  apply Owes.arrive
  refine (hb.taken h).setProc hm hc hp (fun i => by simp) ?_ ?_
  · intro a
    rw [(hm.reply_still rfl a).1]
    rfl
  · intro a
    rw [(hm.reply_still rfl a).1, (hm.reply_still rfl a).2]
    rfl

/-- What `DEC_STRONG` does not take off the count is counted as leaked. -/
theorem Balanced.decStrong {k : ℕ} (hb : n.Balanced) (h : pick n.flight i = some (⟨s, .decStrong x k⟩, rest))
    (hm : Moves s.other.session (n.proc s.other) (.recvDecStrong x k) p outs)
    (hc : Core s.other.session (n.proc s.other)) (hp : Core s.other.session p) :
    (({ n with flight := rest }.setProc s.other p).addLeak s.other fun y => if y = x then
      k - ((n.proc s.other).state.sentTimes x - p.state.sentTimes x) else 0).Balanced := by
  apply Owes.balanced (s := s)
  apply Owes.addLeak
  refine (hb.taken h).setProc hm hc hp (fun i => by simp) ?_ ?_
  · intro a
    rw [(hm.lowers rfl a).recd]
    rfl
  · intro a
    have hlow := hm.lowers rfl a
    have hle := hlow.le
    have hsent := hlow.sent
    have hcar := hlow.carried
    simp only [Message.decs, Pi.zero_apply]
    by_cases hx : x = a
    · subst hx
      simp only [if_true] at *
      omega
    · have hx' : ¬ a = x := fun e => hx e.symm
      simp only [hx, hx', if_false] at *
      omega

end Flight

theorem Balanced.read {i : ℕ} {rest : List ℕ} (hb : n.Balanced)
    (h : pick (n.unread r.other) i = some (x, rest)) (hm : Moves r.session (n.proc r) (.unflatten x) p outs)
    (hc : Core r.session (n.proc r)) (hp : Core r.session p) (hab : p.aborted = none) :
    (({ n with unread := update n.unread r.other rest }.setProc r p).lose r.other
      ((n.proc r).refused r.session x)).Balanced := by
  obtain ⟨s, rfl⟩ : ∃ s : Role, r = s.other := ⟨r.other, (Role.other_other r).symm⟩
  rw [Role.other_other] at h ⊢
  have htaken : { n with unread := update n.unread s rest }.Owes s
      (fun a => if a = x then 1 else 0) 0 := by
    intro a
    have hs := hb s a
    have ho := hb s.other a
    simp only [view, pool, decs, (pick_perm h).count_eq, count_cons, beq_iff_eq, update_self,
      update_of_ne (Role.other_ne s), Role.other_other, eq_comm (b := a), Pi.zero_apply] at hs ho ⊢
    omega
  apply Owes.balanced (s := s)
  apply Owes.lose
  refine htaken.setProc hm hc hp (fun i => by simp) ?_ ?_
  · intro a
    have hrecd := (hm.enters (x := x) rfl hab a).recd
    simp only [Pi.zero_apply]
    omega
  · intro a
    have hen := hm.enters (x := x) rfl hab a
    rw [hen.sent, hen.carried]

end Net

end Binder.Rpc
