import Binder.Rpc.State

/-! What each section that holds `mNodeMutex` can do to the node table. -/
namespace Binder.Rpc
open Binder.Lib List

variable {session : Session} {st st' : RpcState} {a : ℕ} {b : IBinder}

def upcoming (session : Session) (st : RpcState) : List ℕ :=
  (List.range (st.mNodeForAddress.size + 1)).map fun j => createdAddress session.server (nextId^[j] st.mNextId)

theorem insertFresh_eq_some {forServer : Bool} {fuel : ℕ} (h : insertFresh forServer b fuel st = some (a, st')) :
    st.node? a = none ∧ (∃ j < fuel, a = createdAddress forServer (nextId^[j] st.mNextId)) ∧
      ∃ i, st' = { st with mNextId := i }.setNode a { binder := b, sentRef := some b, timesSent := 1 } := by
  induction fuel generalizing st with
  | zero => simp [insertFresh] at h
  | succ fuel ih =>
    simp only [insertFresh] at h
    split at h
    · rename_i hnone
      obtain ⟨rfl, rfl⟩ := Prod.mk.inj (Option.some.inj h)
      exact ⟨hnone, ⟨0, by omega, rfl⟩, _, rfl⟩
    · obtain ⟨hnone, ⟨j, hj, ha⟩, i, hst⟩ := ih h
      exact ⟨hnone, ⟨j + 1, by omega, by rwa [Function.iterate_succ_apply]⟩, i, hst⟩

theorem find?_binder {e : ℕ × BinderNode}
    (h : st.mNodeForAddress.entries.find? (fun e => e.2.binder = b) = some e) :
    st.node? e.1 = some e.2 ∧ e.2.binder = b :=
  ⟨OrdMap.find?_eq_some_iff.mpr (mem_of_find?_eq_some h), by simpa using List.find?_some h⟩

theorem node?_binder_ne (h : st.mNodeForAddress.entries.find? (fun e => e.2.binder = b) = none)
    {node : BinderNode} (hn : st.node? a = some node) : node.binder ≠ b := by
  simpa using List.find?_eq_none.mp h _ (OrdMap.find?_eq_some_iff.mp hn)

/-- A binder that leaves either has a node or gets one under a fresh address. -/
theorem onBinderLeaving_ok (h : onBinderLeaving session b st = .ok (.ok a, st')) : st.mTerminated = false ∧
    ((∃ n, st.node? a = some n ∧ n.binder = b ∧ (b.isRemote → a = b.rpcAddress) ∧
        st' = st.setNode a { n with timesSent := n.timesSent + 1, sentRef := some b }) ∨
      (b.isRemote = false ∧ st.node? a = none ∧ a ∈ upcoming session st ∧
        (∀ x n, st.node? x = some n → n.binder ≠ b) ∧
        ∃ i, st' = { st with mNextId := i }.setNode a
          { binder := b, sentRef := some b, timesSent := 1 })) := by
  cases b with
  | kernelProxy => simp [onBinderLeaving] at h
  | rpcProxy i s x =>
    simp only [onBinderLeaving] at h
    split_ifs at h with hs ht
    · simp at h
    · simp at h
    · split at h
      · rename_i addr node hfind
        obtain ⟨hnode, hb⟩ := find?_binder hfind
        split_ifs at h with haddr
        obtain ⟨h1, rfl⟩ := Prod.mk.inj (Except.ok.inj h)
        cases Except.ok.inj h1
        exact ⟨by simpa using ht, .inl ⟨node, hnode, hb, fun _ => not_not.mp haddr, rfl⟩⟩
      · simp at h
  | bBinder i =>
    simp only [onBinderLeaving] at h
    by_cases ht : st.mTerminated
    · simp [ht] at h
    · rw [if_neg ht] at h
      split at h
      · rename_i addr node hfind
        obtain ⟨hnode, hb⟩ := find?_binder hfind
        obtain ⟨h1, rfl⟩ := Prod.mk.inj (Except.ok.inj h)
        cases Except.ok.inj h1
        exact ⟨by simpa using ht, .inl ⟨node, hnode, hb, by simp [IBinder.isRemote], rfl⟩⟩
      · rename_i hfind
        split_ifs at h with hsize
        · simp at h
        · obtain ⟨h1, h2⟩ := Prod.mk.inj (Except.ok.inj h)
          have hsome := insertFresh_isSome session.server (.bBinder i) st (not_lt.mp hsize)
          have hfresh : insertFresh session.server (.bBinder i) (st.mNodeForAddress.size + 1) st = some (a, st') :=
            (Option.some_get hsome).symm.trans (congrArg some (Prod.ext (Except.ok.inj h1) h2))
          obtain ⟨hnone, ⟨j, hj, ha⟩, k, hst⟩ := insertFresh_eq_some hfresh
          refine ⟨by simpa using ht, .inr ⟨rfl, hnone, ?_, fun x n hx => node?_binder_ne hfind hx, k, hst⟩⟩
          exact mem_map.mpr ⟨j, mem_range.mpr hj, ha.symm⟩

/-- A binder that enters is rejected, known, or gets a proxy. -/
theorem onBinderEntering_cases (session : Session) (alive : IBinder → Bool) (id a : ℕ) (st : RpcState) :
    (∃ e, onBinderEntering session alive id a st = (.error e, st) ∧
      (st.mTerminated = false → (RpcWireAddress.fromRaw a).options &&& unknownOptions = 0 →
        st.node? a = none ∧ (RpcWireAddress.fromRaw a).options &&& wireAddressOptionForServer =
          (if session.server then 1 else 0))) ∨
    (st.mTerminated = false ∧ (RpcWireAddress.fromRaw a).options &&& unknownOptions = 0 ∧
      ∃ n, st.node? a = some n ∧ onBinderEntering session alive id a st =
        (.ok (if alive n.binder then some n.binder else none),
          st.setNode a { n with timesRecd := n.timesRecd + 1 })) ∨
    (st.mTerminated = false ∧ (RpcWireAddress.fromRaw a).options &&& unknownOptions = 0 ∧ st.node? a = none ∧
      (RpcWireAddress.fromRaw a).options &&& wireAddressOptionForServer ≠
        (if session.server then 1 else 0) ∧
      onBinderEntering session alive id a st = (.ok (some (.rpcProxy id session.id a)),
        st.setNode a { binder := .rpcProxy id session.id a, timesRecd := 1 })) := by
  unfold onBinderEntering
  by_cases hopt : (RpcWireAddress.fromRaw a).options &&& unknownOptions = 0
  · by_cases ht : st.mTerminated
    · exact .inl ⟨.deadObject, by simp [hopt, ht], by simp [ht]⟩
    · cases hn : st.node? a with
      | some n => exact .inr (.inl ⟨by simpa using ht, hopt, n, rfl, by simp [hopt, ht]⟩)
      | none =>
        by_cases hown : (RpcWireAddress.fromRaw a).options &&& wireAddressOptionForServer =
            (if session.server then 1 else 0)
        · exact .inl ⟨.badValue, by simp [hopt, ht, hown], fun _ _ => ⟨rfl, hown⟩⟩
        · exact .inr (.inr ⟨by simpa using ht, hopt, rfl, hown, by simp [hopt, ht, hown]⟩)
  · exact .inl ⟨.badValue, by simp [hopt], fun _ h => absurd h hopt⟩

theorem transactAddress_cases (a : ℕ) (oneway : Bool) (st : RpcState) :
    (transactAddress a oneway st = .error .transactUnknownAddress ∧ st.mTerminated = false ∧ st.node? a = none) ∨
    (∃ r, transactAddress a oneway st = .ok (r, st) ∧
      (r = .deadObject ∨ r = .shutdown ∨ ∃ k, r = .asyncNumber k ∧ (oneway → a = 0))) ∨
    (oneway ∧ a ≠ 0 ∧ st.mTerminated = false ∧ ∃ n, st.node? a = some n ∧ transactAddress a oneway st =
      .ok (.asyncNumber n.asyncNumber, st.setNode a { n with asyncNumber := n.asyncNumber + 1 })) := by
  unfold transactAddress nodeProgressAsyncNumber
  by_cases ha : a = 0
  · exact .inr (.inl ⟨_, if_pos ha, .inr (.inr ⟨0, rfl, fun _ => ha⟩)⟩)
  by_cases ht : st.mTerminated
  · exact .inr (.inl ⟨.deadObject, by simp [ha, ht], .inl rfl⟩)
  have hrun : st.mTerminated = false := by simpa using ht
  cases hn : st.node? a with
  | none => exact .inl ⟨by simp [ha, ht], hrun, rfl⟩
  | some n =>
    cases oneway with
    | false => exact .inr (.inl ⟨.asyncNumber 0, by simp [ha, ht], .inr (.inr ⟨0, rfl, nofun⟩)⟩)
    | true =>
      by_cases hk : n.asyncNumber ≥ 2 ^ 64 - 1
      · exact .inr (.inl ⟨.shutdown, by simp only [ha, ht, hk, if_true]; simp, .inr (.inl rfl)⟩)
      · exact .inr (.inr ⟨rfl, ha, hrun, n, rfl, by simp only [ha, ht, hk, if_true]; simp⟩)

theorem onBinderLeaving_error {f : Fatal} (h : onBinderLeaving session b st = .error f) :
    st.mTerminated = false ∧ (∃ id x, b = .rpcProxy id session.id x) ∧
      ((f = .addressMismatch ∧ ∃ x n, st.node? x = some n ∧ n.binder = b ∧ x ≠ b.rpcAddress) ∨
        (f = .rpcBinderWithoutAddress ∧ ∀ x n, st.node? x = some n → n.binder ≠ b)) := by
  cases b with
  | kernelProxy => simp [onBinderLeaving] at h
  | bBinder =>
    simp only [onBinderLeaving] at h
    by_cases ht : st.mTerminated
    · simp [ht] at h
    · rw [if_neg ht] at h
      split at h
      · simp at h
      · split_ifs at h
  | rpcProxy i s x =>
    simp only [onBinderLeaving] at h
    split_ifs at h with hs ht
    refine ⟨by simpa using ht, ⟨i, x, by rw [not_not.mp hs]⟩, ?_⟩
    split at h
    · rename_i addr node hfind
      obtain ⟨hnode, hb⟩ := find?_binder hfind
      split_ifs at h with haddr
      exact .inl ⟨(Except.error.inj h).symm, addr, node, hnode, hb, haddr⟩
    · rename_i hfind
      exact .inr ⟨(Except.error.inj h).symm, fun y n hn => node?_binder_ne hfind hn⟩

end Binder.Rpc
