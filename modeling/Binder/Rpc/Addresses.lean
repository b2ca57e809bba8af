import Binder.Rpc.Core

/-! Addresses and binders: how `onBinderLeaving` finds a free address, and that the table pairs them
one to one. -/
namespace Binder.Rpc
open Binder.Lib

variable {session : Session} {p p' : Proc} {act : Action} {outs : List Out} {st st' : RpcState} {a : ℕ} {b : IBinder}

/-! ### One address -/

theorem insertFresh_mono {forServer : Bool} {fuel fuel' : ℕ} (hle : fuel ≤ fuel')
    (h : insertFresh forServer b fuel st = some (a, st')) : insertFresh forServer b fuel' st = some (a, st') := by
  induction fuel generalizing st fuel' with
  | zero => cases h
  | succ fuel ih =>
    obtain ⟨k, rfl⟩ : ∃ k, fuel' = k + 1 := ⟨fuel' - 1, by omega⟩
    simp only [insertFresh] at h ⊢
    split at h
    · exact h
    · exact ih (Nat.le_of_succ_le_succ hle) h

theorem find?_binder_eq_none (h : ∀ x n, st.node? x = some n → n.binder ≠ b) :
    st.mNodeForAddress.entries.find? (fun e => e.2.binder = b) = none := by
  apply List.find?_eq_none.mpr
  intro e he
  have hnode : st.node? e.1 = some e.2 := OrdMap.find?_eq_some_iff.mpr he
  simpa using h e.1 e.2 hnode

/-- A local binder without a node gets one under a free address, found in at most one round more than there
are nodes, unless there are too many. -/
theorem onBinderLeaving_created (hlocal : b.isRemote = false) (hrun : st.mTerminated = false)
    (hnew : ∀ x n, st.node? x = some n → n.binder ≠ b) :
    if st.mNodeForAddress.size > 100000 then onBinderLeaving session b st = .ok (.error .noMemory, st)
    else ∃ a st', (∀ fuel, st.mNodeForAddress.size + 1 ≤ fuel →
          insertFresh session.server b fuel st = some (a, st')) ∧
        onBinderLeaving session b st = .ok (.ok a, st') ∧ st.node? a = none ∧
        st'.node? a = some { binder := b, sentRef := some b, timesSent := 1 } ∧
        ∀ x, x ≠ a → st'.node? x = st.node? x := by
  have hfind := find?_binder_eq_none hnew
  cases b with
  | rpcProxy | kernelProxy => cases hlocal
  | bBinder i =>
    split_ifs with hsize
    · simp [onBinderLeaving, hrun, hfind, hsize]
    · have hsome := insertFresh_isSome session.server (.bBinder i) st (not_lt.mp hsize)
      obtain ⟨⟨a, st'⟩, hfresh⟩ := Option.isSome_iff_exists.mp hsome
      obtain ⟨hnone, -, k, hst⟩ := insertFresh_eq_some hfresh
      refine ⟨a, st', fun fuel hfuel => insertFresh_mono hfuel hfresh, ?_, hnone, ?_, fun x hx => ?_⟩
      · simp [onBinderLeaving, hrun, hfind, hsize, hfresh]
      · rw [hst, RpcState.node?_setNode, if_pos rfl]
      · rw [hst, RpcState.node?_setNode, if_neg hx]
        rfl

theorem onBinderLeaving_remote {r : Except Status ℕ} (hremote : b.isRemote = true)
    (h : onBinderLeaving session b st = .ok (r, st')) {x : ℕ} (hx : st.node? x = none) : st'.node? x = none := by
  cases r with
  | error =>
    have hst : st' = st := by
      cases b with
      | bBinder => cases hremote
      | kernelProxy =>
        obtain ⟨-, rfl⟩ := Prod.mk.inj (Except.ok.inj h)
        rfl
      | rpcProxy =>
        simp only [onBinderLeaving] at h
        split_ifs at h
        · obtain ⟨-, rfl⟩ := Prod.mk.inj (Except.ok.inj h)
          rfl
        · obtain ⟨-, rfl⟩ := Prod.mk.inj (Except.ok.inj h)
          rfl
        · split at h
          · split_ifs at h
            cases (Prod.mk.inj (Except.ok.inj h)).1
          · cases h
    exact hst ▸ hx
  | ok =>
    obtain ⟨-, ⟨n, hn, -, -, rfl⟩ | ⟨hlocal, -⟩⟩ := onBinderLeaving_ok h
    · rw [RpcState.node?_setNode, if_neg]
      · exact hx
      · rintro rfl
        simp [hx] at hn
    · simp [hlocal] at hremote

/-! ### The table -/

/-- Proxies stand under their own address, and no local binder has two. -/
structure Paired (p : Proc) : Prop where
  proxy : ∀ a n, p.state.node? a = some n → n.binder.isRemote = true → n.binder.rpcAddress = a
  unique : ∀ a a' n n', p.state.node? a = some n → p.state.node? a' = some n' → n.binder = n'.binder → a = a'
  ended : p.state.mTerminated = true → ∀ a, p.state.node? a = none

theorem Paired.init : Paired {} := by
  constructor <;> simp [RpcState.node?, OrdMap.empty, OrdMap.find?, OrdMap.lookup]

theorem Moves.ended (hm : Moves session p act p' outs) (h : Paired p) (ht : p'.state.mTerminated = true) :
    ∀ a, p'.state.node? a = none := by
  rcases hm.terminated_cases ht with hp | hnone
  · intro a
    by_contra hne
    obtain ⟨n, hn⟩ := Option.ne_none_iff_exists'.mp hne
    cases hm.node_origin hn with
    | earlier _ hm' => simp [h.ended hp a] at hm'
    | left _ hrun => simp [hp] at hrun
    | adopted _ had =>
      have hrun := had.running
      simp [hp] at hrun
  · exact hnone

theorem Moves.proxy (hm : Moves session p act p' outs) (h : Paired p) {n : BinderNode}
    (hn : p'.state.node? a = some n) (hremote : n.binder.isRemote = true) : n.binder.rpcAddress = a := by
  cases hm.node_origin hn with
  | earlier m hm' hb =>
    rw [← hb]
    exact h.proxy a m hm' (hb ▸ hremote)
  | left _ _ _ hloc => simp [hloc] at hremote
  | adopted _ _ hb =>
    rw [hb]
    rfl

theorem Moves.paired (hm : Moves session p act p' outs) (h : Paired p) : Paired p' where
  proxy _ _ hn := hm.proxy h hn
  ended := hm.ended h
  unique a a' n n' hn hn' heq := by
    cases hremote : n.binder.isRemote with
    | true =>
      have ha := hm.proxy h hn hremote
      have ha' := hm.proxy h hn' (heq ▸ hremote)
      rw [← ha, ← ha', heq]
    | false =>
      cases hm.node_origin hn with
      | earlier m hmold hb =>
        cases hm.node_origin hn' with
        | earlier m' hmold' hb' => exact h.unique a a' m m' hmold hmold' (hb.trans (heq.trans hb'.symm))
        | left _ _ _ _ _ _ huniq => exact absurd (hb.trans heq) (huniq a m hmold)
        | adopted _ _ hb' => simp [heq, hb', IBinder.isRemote] at hremote
      | left _ _ _ _ _ _ huniq hsame =>
        -- the new node is the only one that was not there before
        by_contra hne
        rw [hsame a' (Ne.symm hne)] at hn'
        exact huniq a' n' hn' heq.symm
      | adopted _ _ hb => simp [hb, IBinder.isRemote] at hremote

theorem Paired.next {q : Proc} (h : Paired p) (hs : p.next session act = some q) : Paired q := by
  obtain ⟨r, hs', rfl⟩ := Option.map_eq_some_iff.mp hs
  obtain ⟨-, ⟨-, rfl⟩ | ⟨act', -, hm⟩⟩ := step_moves hs'
  · exact h
  · exact hm.paired h

theorem terminated_next {q : Proc} (ht : p.state.mTerminated = true) (hs : p.next session act = some q) :
    q.state.mTerminated = true := by
  obtain ⟨r, hs', rfl⟩ := Option.map_eq_some_iff.mp hs
  obtain ⟨-, ⟨-, rfl⟩ | ⟨act', -, hm⟩⟩ := step_moves hs'
  · exact ht
  · exact hm.terminated ht

/-- Whatever the peer sends, addresses and binders belong together one to one; a local binder without a node
gets a free address after at most one round more than there are nodes, or nothing is inserted; and a table that
was cleared stays empty. -/
theorem addresses_paired (h : Reachable (Proc.next session) Free {} p) :
    (∀ e ∈ p.state.mNodeForAddress.entries, ∀ e' ∈ p.state.mNodeForAddress.entries,
      e.1 = e'.1 ↔ e.2.binder = e'.2.binder) ∧
    (∀ b, b.isRemote = false → p.state.mTerminated = false → (∀ x n, p.state.node? x = some n → n.binder ≠ b) →
      if p.state.mNodeForAddress.size > 100000 then
        onBinderLeaving session b p.state = .ok (.error .noMemory, p.state)
      else ∃ a st', (∀ fuel, p.state.mNodeForAddress.size + 1 ≤ fuel →
            insertFresh session.server b fuel p.state = some (a, st')) ∧
          onBinderLeaving session b p.state = .ok (.ok a, st') ∧ p.state.node? a = none ∧
          st'.node? a = some { binder := b, sentRef := some b, timesSent := 1 } ∧
          ∀ x, x ≠ a → st'.node? x = p.state.node? x) ∧
    (∀ b r st', b.isRemote = true → onBinderLeaving session b p.state = .ok (r, st') →
      ∀ x, p.state.node? x = none → st'.node? x = none) ∧
    (p.state.mTerminated = true → (∀ a, p.state.node? a = none) ∧
      ∀ act q, p.next session act = some q → q.state.mTerminated = true ∧ ∀ a, q.state.node? a = none) := by
  have hp : Paired p := h.invariant Paired .init fun _ _ _ hs _ hnext => hs.next hnext
  refine ⟨?_, ?_, ?_, ?_⟩
  · intro e he e' he'
    have hn : p.state.node? e.1 = some e.2 := OrdMap.find?_eq_some_iff.mpr he
    have hn' : p.state.node? e'.1 = some e'.2 := OrdMap.find?_eq_some_iff.mpr he'
    constructor
    · intro heq
      rw [heq, hn'] at hn
      rw [Option.some.inj hn]
    · exact hp.unique _ _ _ _ hn hn'
  · intro b hlocal hrun hnew
    exact onBinderLeaving_created hlocal hrun hnew
  · intro b r st' hremote hleave x hx
    exact onBinderLeaving_remote hremote hleave hx
  · intro ht
    refine ⟨hp.ended ht, fun act q hnext => ?_⟩
    have hq := terminated_next ht hnext
    exact ⟨hq, (hp.next hnext).ended hq⟩

/-- A process that has sent one binder and received another. -/
theorem addresses_paired_two : ∃ p : Proc, p.state.mNodeForAddress.size = 2 ∧
    ∀ e ∈ p.state.mNodeForAddress.entries, ∀ e' ∈ p.state.mNodeForAddress.entries,
      e.1 = e'.1 ↔ e.2.binder = e'.2.binder := by
  obtain ⟨p, hp, hsize⟩ := exists_reachable (Proc.next ⟨0, true⟩) Free {}
    [.newBinder (.bBinder 0), .flatten (.bBinder 0), .unflatten 1] (·.state.mNodeForAddress.size = 2) (by decide)
  exact ⟨p, hsize, (addresses_paired hp).1⟩

end Binder.Rpc
