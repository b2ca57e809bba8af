import Binder.Rpc.Conservation

/-! What a peer reads: when the reference it received gives it a live binder. -/
namespace Binder.Rpc
open Binder.Lib

variable {x : ℕ} {k : Packet}

section

variable {session : Session} {p p' : Proc} {act : Action} {outs : List Out}

/-- A received address starts a shutdown only as a target that is dead or no local binder. -/
theorem Moves.shutdown_entering (hm : Moves session p act p' outs) (hx : act.enters = some x)
    {bs : List IBinder} (hbs : .shutdown bs ∈ p'.tasks) :
    .shutdown bs ∈ p.tasks ∨ ((∃ t call, act = .recvTransact t call ∧ t.address = x) ∧
      ((∃ m, Finds p.state x m ∧ (m.binder ∉ p.refs ∨ m.binder.isRemote = true)) ∨ Adopts session p.state x)) := by
  cases hm with
  | targetDead t call m _ hf hdead =>
    obtain rfl := address_of_enters hx
    exact .inr ⟨⟨t, call, rfl, rfl⟩, .inl ⟨m, hf, .inl hdead⟩⟩
  | targetRemote t call m _ hf _ hrem =>
    obtain rfl := address_of_enters hx
    exact .inr ⟨⟨t, call, rfl, rfl⟩, .inl ⟨m, hf, .inr hrem⟩⟩
  | targetAdopted t call _ had =>
    obtain rfl := address_of_enters hx
    exact .inr ⟨⟨t, call, rfl, rfl⟩, .inr had⟩
  | abort | special | rejected | entered | executed | readRejected | readRemote | readAdopted | readLocal =>
    exact .inl (by simpa using hbs)
  | _ => simp [Action.enters] at hx

end

theorem adopts_of_not_ownAddress {session : Session} {st : RpcState} (ht : st.mTerminated = false)
    (hk : (RpcWireAddress.fromRaw x).options &&& unknownOptions = 0) (hn : st.node? x = none)
    (hown : ¬ OwnAddress session x) : Adopts session st x := by
  refine ⟨ht, hk, hn, fun hbit => hown ?_⟩
  rw [OwnAddress, ForServer, hbit]
  cases session.server <;> simp

namespace Net

/-- The process and the address that a step hands to `onBinderEntering`. -/
def entering (n : Net) : NetAction → Option (Role × ℕ)
  | .act .. => none
  | .read r i => (pick (n.unread r.other) i).map fun q => (r, q.1)
  | .deliver i _ =>
    match pick n.flight i with
    | some (⟨s, .transact t _ _⟩, _) =>
      if t.address = 0 ∨ kMaxTransactionAllocation < t.size then none else some (s.other, t.address)
    | _ => none

end Net

def DeadProxy (p : Proc) (x : ℕ) : Prop :=
  ∃ m, p.state.node? x = some m ∧ m.binder.isRemote = true ∧ m.binder ∉ p.refs

variable {n n' : Net} {r s : Role} {a : NetAction} {act : Action} {outs : List Out}

theorem mem_packets {refs : List ℕ} (h : k ∈ packets r refs outs) :
    ∃ o ∈ outs, o.message refs = some k.message ∧ k.sender = r := by
  obtain ⟨o, ho, hk⟩ := List.mem_flatMap.mp h
  simp only [Option.mem_toList, Option.map_eq_some_iff] at hk
  obtain ⟨m, hm, rfl⟩ := hk
  exact ⟨o, ho, hm, rfl⟩

/-- A command in flight was in flight before, or was just sent. -/
theorem NetMoves.flight (hm : NetMoves n a n' r outs) (hk : k ∈ n'.flight) :
    k ∈ n.flight ∨ k.sender = r ∧ ∃ o ∈ outs, ∃ refs, o.message refs = some k.message := by
  cases hm with
  | crash => exact .inl hk
  | «local» r act refs p outs =>
    rcases List.mem_append.mp hk with hk | hk
    · obtain ⟨o, ho, hmsg, hs⟩ := mem_packets hk
      exact .inr ⟨hs, o, ho, refs, hmsg⟩
    · exact .inl hk
  | tooLarge _ _ _ _ _ _ _ hp | transact _ _ _ _ _ _ _ _ _ hp | reply _ _ _ _ _ _ _ _ _ _ hp
  | decStrong _ _ _ _ _ _ _ _ hp =>
    exact .inl (mem_of_mem_pick hp hk)
  | read => exact .inl hk

/-- Every transaction aims at an address of its receiver. -/
structure Aimed (n : Net) : Prop where
  task : ∀ r b x code flags data reply, .transacting b x code flags data reply ∈ (n.proc r).tasks →
    OwnAddress r.other.session x
  flight : ∀ s t refs call, ⟨s, .transact t refs call⟩ ∈ n.flight → t.address = 0 ∨
    OwnAddress s.other.session t.address

namespace Aimed

theorem init : Aimed Net.init := ⟨by simp [Net.init], by simp [Net.init]⟩

theorem task_step (h : Aimed n) (hh : Honest n) (ha : Acts n a n' r act outs) {b : IBinder}
    {code flags : ℕ} {data : List UInt8} {reply : Bool}
    (ht : .transacting b x code flags data reply ∈ (n'.proc r).tasks) : OwnAddress r.other.session x := by
  cases ha.moves.task_origin ht with
  | kept _ ht => exact h.task r b x code flags data reply ht
  | transacting _ _ _ _ _ _ hb hown hrun =>
    obtain ⟨m, hm, hmb⟩ := (hh.core r).proxy_node (Proc.mem_refs_of_held hb) hown hrun
    rw [ownAddress_other, ← hh.own r _ m (by rwa [Net.view_running hrun]), hmb]
    cases b <;> simp_all [Proc.ownProxy, IBinder.isRemote]

theorem step (h : Aimed n) (hh : Honest n) (hm : NetMoves n a n' r outs) : Aimed n' := by
  refine ⟨fun s b x code flags data reply ht => ?_, fun s t refs call hk => ?_⟩
  · rcases hm.acts with ⟨act, ha⟩ | ⟨_, hproc, _⟩
    · rcases Role.eq_or_eq_other r s with rfl | rfl
      · exact h.task_step hh ha ht
      · exact h.task _ b x code flags data reply (ha.other ▸ ht)
    · exact h.task s b x code flags data reply (hproc ▸ ht)
  · rcases hm.flight hk with hk | ⟨hs, o, ho, refs', hmsg⟩
    · exact h.flight s t refs call hk
    · obtain rfl : s = r := hs
      have ho' : o = .transact t call := by
        cases o <;> simp [Out.message] at hmsg
        obtain ⟨rfl, _, rfl⟩ := hmsg
        rfl
      subst ho'
      rcases hm.acts with ⟨act, ha⟩ | ⟨rfl, _⟩
      · rcases ha.moves.sent ho with h0 | ⟨b, code, flags, data, reply, ht⟩
        · exact .inl h0
        · exact .inr (h.task s b _ code flags data reply ht)
      · simp at ho

theorem of_reachable {C : Net → NetAction → Prop} (h : Reachable Net.next C Net.init n) : Aimed n := by
  have hboth : Honest n ∧ Aimed n := by
    refine h.invariant (fun n => Honest n ∧ Aimed n) ⟨.init, .init⟩ fun m m' a hm _ hs => ?_
    obtain ⟨⟨m'', r, outs⟩, hstep, rfl⟩ := Option.map_eq_some_iff.mp hs
    have hmv := Net.step_netMoves hstep
    exact ⟨hm.1.step hmv, hm.2.step hm.1 hmv⟩
  exact hboth.2

end Aimed

namespace Net

theorem pool_of_entering (h : n.entering a = some (r, x)) : n.pool r.other x ≠ 0 := by
  cases a with
  | act => simp [entering] at h
  | read =>
    obtain ⟨q, hp, he⟩ := Option.map_eq_some_iff.mp h
    cases he
    exact pool_ne_zero_of_unread (mem_of_pick hp)
  | deliver i j =>
    simp only [entering] at h
    split at h
    · rename_i s t refs call rest hp
      split_ifs at h with h0
      cases h
      push Not at h0
      rw [Role.other_other]
      refine pool_ne_zero_of_flight (mem_of_pick hp) ?_
      simp [Message.refs, target, h0.1]
    · simp at h

end Net

namespace Honest

theorem alive (h : Honest n) {m : BinderNode}
    (hm : (n.proc r).state.node? x = some m) (hd : ¬ DeadProxy (n.proc r) x) :
    m.binder ∈ (n.proc r).refs := by
  cases hrem : m.binder.isRemote with
  | true => exact not_not.mp fun hdead => hd ⟨m, hm, hrem, hdead⟩
  | false =>
    have hview := Net.view_running ((h.core r).node_running hm)
    exact Proc.mem_refs_of_sentRef hm (h.local_sentRef (by rwa [hview]) hrem)

/-- What a running process reads is found or adopted. -/
theorem found_or_adopted (h : Honest n) (hx : n.pool r.other x ≠ 0) (ht : (n.proc r).state.mTerminated = false) :
    (∃ m, Finds (n.proc r).state x m) ∨ Adopts r.session (n.proc r).state x := by
  obtain ⟨m', hm', _⟩ := h.sender_node hx
  have hk := (h.nodes _ _ _ hm').known
  cases hn : (n.proc r).state.node? x with
  | some m => exact .inl ⟨m, ht, hk, hn⟩
  | none =>
    have hown := h.foreign hx (by rwa [Net.view_running ht])
    exact .inr (adopts_of_not_ownAddress ht hk hn ((ownAddress_other r x).mp hown))

theorem entering_ok (h : Honest n) (hx : n.pool r.other x ≠ 0)
    (ht : (n.proc r).state.mTerminated = false) (hd : ¬ DeadProxy (n.proc r) x) :
    ∃ b st, onBinderEntering r.session (n.proc r).alive (n.proc r).nextBinder x (n.proc r).state =
      (.ok (some b), st) := by
  rcases onBinderEntering_cases r.session (n.proc r).alive (n.proc r).nextBinder x (n.proc r).state with
    ⟨e, _, hr⟩ | ⟨_, _, m, hm, he⟩ | ⟨_, _, _, _, he⟩
  · exfalso
    rcases h.found_or_adopted hx ht with ⟨m, hf⟩ | had
    · exact absurd hf.node (by simp [(hr ht hf.known).1])
    · exact had.foreign (hr ht had.known).2
  · have halive := alive_iff.mpr (h.alive hm hd)
    exact ⟨m.binder, _, by rw [he, halive]; rfl⟩
  · exact ⟨_, _, he⟩

end Honest

theorem Net.step_entering (hh : Honest n) (haim : Aimed n) (hx : n.entering a = some (r, x))
    (ht : (n.proc r).state.mTerminated = false) (hd : ¬ DeadProxy (n.proc r) x)
    (hm : NetMoves n a n' r outs) :
    (n'.proc r).aborted = none ∧ ∀ bs, .shutdown bs ∈ (n'.proc r).tasks → .shutdown bs ∈ (n.proc r).tasks := by
  have hpool := pool_of_entering hx
  cases hm with
  | crash _ _ _ _ _ _ hoff hf hp =>
    exfalso
    cases hoff with
    | own => simp [entering] at hx
    | reply _ _ _ _ _ hp | decStrong _ _ _ _ _ hp => simp [entering, hp] at hx
    | transact => cases hf <;> simp [Action.leaving] at *
    | read _ _ _ hp =>
      simp only [entering, hp, Option.map_some, Option.some.injEq, Prod.mk.injEq, true_and] at hx
      subst hx
      cases hf with
      | null _ m hf hdead => exact hdead (hh.alive hf.node hd)
      | mismatch _ _ _ _ hl | withoutAddress _ _ hl => simp [Action.leaving] at hl
  | «local» => simp [entering] at hx
  | tooLarge _ _ _ _ _ _ _ hp hsize => simp [entering, hp, hsize] at hx
  | transact _ _ s t refs call _ _ _ hp _ _ hm hab' =>
    simp only [entering, hp] at hx
    split_ifs at hx with h0
    push Not at h0
    obtain rfl : t.address = x := by simpa using hx
    have hown := (haim.flight s t refs call (mem_of_pick hp)).resolve_left h0.1
    refine ⟨by simpa using hab', fun bs hbs => ?_⟩
    rcases hm.shutdown_entering (if_neg h0.1) (by simpa using hbs) with hbs | ⟨_, ⟨m, hf, hbad⟩ | had⟩
    · exact hbs
    · exfalso
      rcases hbad with hdead | hrem
      · exact hdead (hh.alive hf.node hd)
      · have hloc := (hh.own s.other _ m (by rw [view_running ht]; exact hf.node)).mpr hown
        simp [hrem] at hloc
    · exfalso
      have hforeign := hh.foreign hpool (by rw [view_running ht]; exact had.absent)
      exact (ownAddress_other s.other _).mp hforeign hown
  | reply _ _ _ _ _ _ _ _ _ _ hp | decStrong _ _ _ _ _ _ _ _ hp => simp [entering, hp] at hx
  | read _ _ _ _ _ _ _ _ hm hab' =>
    refine ⟨by simpa using hab', fun bs hbs => ?_⟩
    rcases hm.shutdown_entering rfl (by simpa using hbs) with hbs | ⟨⟨t, call, hact, _⟩, _⟩
    · exact hbs
    · simp at hact

/-- A reference that the peer sent gives a live binder exactly while the session runs and the
receiver's proxy, if it has one, was not dropped; then the process does not stop and no shutdown
starts. -/
theorem entering_live_iff (n : Net) (h : Reachable Net.next Free Net.init n) (a : NetAction) (r : Role)
    (x : ℕ) (hx : n.entering a = some (r, x)) :
    ((∃ b st, onBinderEntering r.session (n.proc r).alive (n.proc r).nextBinder x (n.proc r).state =
        (.ok (some b), st)) ↔ (n.proc r).state.mTerminated = false ∧ ¬ DeadProxy (n.proc r) x) ∧
    ((n.proc r).state.mTerminated = false → ¬ DeadProxy (n.proc r) x →
      ∀ n' outs, n.step a = some (n', r, outs) → (n'.proc r).aborted = none ∧
        ∀ bs, .shutdown bs ∈ (n'.proc r).tasks → .shutdown bs ∈ (n.proc r).tasks) := by
  have hh := Honest.of_reachable h
  have hpool := Net.pool_of_entering hx
  refine ⟨⟨?_, fun ⟨ht, hd⟩ => hh.entering_ok hpool ht hd⟩, fun ht hd n' outs hs => ?_⟩
  · rintro ⟨b, st, he⟩
    rcases onBinderEntering_cases r.session (n.proc r).alive (n.proc r).nextBinder x (n.proc r).state with
      ⟨e, he', _⟩ | ⟨ht, _, m, hm, he'⟩ | ⟨ht, _, hn, _⟩
    · simp [he'] at he
    · refine ⟨ht, fun ⟨m', hm', _, hdead⟩ => ?_⟩
      cases hm.symm.trans hm'
      have halive : (n.proc r).alive m.binder = false := by
        rw [← Bool.not_eq_true, alive_iff]
        exact hdead
      simp [he', halive] at he
    · exact ⟨ht, fun ⟨m, hm, _⟩ => by simp [hn] at hm⟩
  · exact Net.step_entering hh (.of_reachable h) hx ht hd (Net.step_netMoves hs)

theorem entering_live_example : ∃ n : Net, n.entering (.read .client 0) = some (.client, 3) ∧
    ∃ b st, onBinderEntering Role.client.session (n.proc .client).alive (n.proc .client).nextBinder 3
      (n.proc .client).state = (.ok (some b), st) := by
  obtain ⟨n, hn, hx, ht, hnone⟩ := exists_reachable Net.next Free Net.init (passAndDrop.take 6)
    (fun n => n.entering (.read .client 0) = some (.client, 3) ∧ (n.proc .client).state.mTerminated = false ∧
      (n.proc .client).state.node? 3 = none) (by decide)
  exact ⟨n, hx, (entering_live_iff n hn _ _ _ hx).1.mpr ⟨ht, fun ⟨m, hm, _⟩ => by simp [hnone] at hm⟩⟩

/-- The client drops its proxy for the server's binder while the server sends the binder again. -/
def resentWhileDropped : List NetAction :=
  passAndDrop.take 7 ++ [.act .client (.transactSpecial 0 4) [], .deliver 0 0,
    .act .server (.flatten (.bBinder 0)) [], .act .server (.finish 0 .ok) [3],
    .act .client (.drop (.rpcProxy 0 0 3)) [], .deliver 0 1]

/-- The resent reference then gives the client no binder and stops it. -/
theorem resent_reference_null : ∃ n : Net, Reachable Net.next Free Net.init n ∧
    n.entering (.read .client 0) = some (.client, 3) ∧ (n.proc .client).state.mTerminated = false ∧
    (onBinderEntering Role.client.session (n.proc .client).alive (n.proc .client).nextBinder 3
      (n.proc .client).state).1 = .ok none ∧
    (n.next (.read .client 0)).map (fun n' => (n'.proc .client).aborted) = some (some .nullBinder) :=
  exists_reachable Net.next Free Net.init resentWhileDropped _ (by decide)

end Binder.Rpc
