import Binder.Status
import Binder.Lib.OrdMap
import Binder.Rpc.Wire

/-! The node table of one RPC session, and the sections of the `RpcState` functions
that run under `mNodeMutex`. A section either completes or aborts the process. -/
namespace Binder.Rpc
open Binder.Lib List

/-- Binder objects of one process. Equality is identity, as the code compares pointers. -/
inductive IBinder
  | bBinder (id : ℕ)
  | rpcProxy (id session address : ℕ)
  | kernelProxy (id handle : ℕ)
  deriving DecidableEq, Repr

namespace IBinder

def isRemote : IBinder → Bool
  | bBinder _ => false
  | _ => true

def rpcAddress : IBinder → ℕ
  | rpcProxy _ _ address => address
  | _ => 0

def id : IBinder → ℕ
  | bBinder i => i
  | rpcProxy i _ _ => i
  | kernelProxy i _ => i

end IBinder

/-- `server` says whether `session->server()` is non-null. -/
structure Session where
  id : ℕ
  server : Bool

/-- The checks that end the process: each `LOG_ALWAYS_FATAL_IF`, and the two places where
the code dereferences a null `sp<>` or an end iterator. -/
inductive Fatal
  | addressMismatch
  | rpcBinderWithoutAddress
  | flushDeleted
  | flushInconsistent
  | flushNeverSent
  | decUnknownAddress
  | decBelowTarget
  | decOwned
  | transactUnknownAddress
  | transactTooMuchData
  | transactNoReply
  | asyncForeignBinder
  | decStrongLostRef
  | erasePendingAsync
  | clearNotOwned
  | clearAfterTerminate
  | nullBinder
  | endIterator
  deriving DecidableEq, Repr

/-- `asyncNumber` is the number the queue is ordered by. -/
structure AsyncTodo where
  ref : IBinder
  data : RpcWireTransaction
  asyncNumber : ℕ
  deriving DecidableEq, Repr

structure BinderNode where
  binder : IBinder
  sentRef : Option IBinder := none
  timesSent : ℕ := 0
  timesRecd : ℕ := 0
  asyncNumber : ℕ := 0
  asyncTodo : List AsyncTodo := []
  deriving DecidableEq, Repr

local instance neZero_id : NeZero (2 ^ 32) := ⟨by decide⟩

structure RpcState where
  mTerminated : Bool := false
  mNextId : Fin (2 ^ 32) := 0
  mNodeForAddress : OrdMap ℕ BinderNode := .empty
  deriving DecidableEq

namespace RpcState

def node? (st : RpcState) (address : ℕ) : Option BinderNode := st.mNodeForAddress.find? address

def setNode (st : RpcState) (address : ℕ) (node : BinderNode) : RpcState :=
  { st with mNodeForAddress := st.mNodeForAddress.insert address node }

def eraseNode (st : RpcState) (address : ℕ) : RpcState :=
  { st with mNodeForAddress := st.mNodeForAddress.erase address }

@[simp] theorem setNode_terminated (st : RpcState) (a : ℕ) (n : BinderNode) :
    (st.setNode a n).mTerminated = st.mTerminated := rfl

@[simp] theorem eraseNode_terminated (st : RpcState) (a : ℕ) : (st.eraseNode a).mTerminated = st.mTerminated := rfl

@[simp] theorem node?_setNode (st : RpcState) (a a' : ℕ) (n : BinderNode) :
    (st.setNode a n).node? a' = if a' = a then some n else st.node? a' :=
  OrdMap.find?_insert _ _ _ _

@[simp] theorem node?_eraseNode (st : RpcState) (a a' : ℕ) :
    (st.eraseNode a).node? a' = if a' = a then none else st.node? a' :=
  OrdMap.find?_erase _ _ _

end RpcState

/-! ### The queue of oneway transactions -/

/-- `asyncTodo.top()`: the entry with the least number. -/
def asyncTop : List AsyncTodo → Option AsyncTodo
  | [] => none
  | x :: xs =>
    match asyncTop xs with
    | none => some x
    | some y => if y.asyncNumber < x.asyncNumber then some y else some x

theorem asyncTop_eq_none {q : List AsyncTodo} : asyncTop q = none ↔ q = [] := by
  cases q with
  | nil => simp [asyncTop]
  | cons =>
    simp only [asyncTop, reduceCtorEq, iff_false]
    split
    · simp
    · split_ifs <;> simp

theorem asyncTop_spec {q : List AsyncTodo} {x : AsyncTodo} (h : asyncTop q = some x) :
    x ∈ q ∧ ∀ y ∈ q, x.asyncNumber ≤ y.asyncNumber := by
  induction q generalizing x with
  | nil => simp [asyncTop] at h
  | cons y ys ih =>
    simp only [asyncTop] at h
    cases hz : asyncTop ys with
    | none =>
      simp only [hz, Option.some.injEq] at h
      subst h
      simp [asyncTop_eq_none.mp hz]
    | some =>
      obtain ⟨hmem, hle⟩ := ih hz
      simp only [hz] at h
      split_ifs at h with hlt
      · cases Option.some.inj h
        refine ⟨mem_cons_of_mem _ hmem, ?_⟩
        intro w hw
        rcases mem_cons.mp hw with rfl | hw
        · exact hlt.le
        · exact hle w hw
      · cases Option.some.inj h
        refine ⟨mem_cons_self, ?_⟩
        intro w hw
        rcases mem_cons.mp hw with rfl | hw
        · exact le_rfl
        · exact (not_lt.mp hlt).trans (hle w hw)

/-- `nodeProgressAsyncNumber`: `none` when the numbers are used up. -/
def nodeProgressAsyncNumber (node : BinderNode) : Option BinderNode :=
  if node.asyncNumber ≥ 2 ^ 64 - 1 then none
  else some { node with asyncNumber := node.asyncNumber + 1 }

/-! ### Sending a binder -/

/-- The step of `mNextId`, which returns to 0 instead of overflowing. -/
def nextId (i : Fin (2 ^ 32)) : Fin (2 ^ 32) :=
  if h : i.val ≥ 2 ^ 32 - 1 then 0 else ⟨i.val + 1, by omega⟩

def createdAddress (forServer : Bool) (i : Fin (2 ^ 32)) : ℕ :=
  RpcWireAddress.toRaw
    { options := if forServer then wireAddressOptionCreated ||| wireAddressOptionForServer
        else wireAddressOptionCreated
      address := i.val }

/-- The `while (true)` of `onBinderLeaving`, for at most `fuel` rounds. -/
def insertFresh (forServer : Bool) (binder : IBinder) : ℕ → RpcState → Option (ℕ × RpcState)
  | 0, _ => none
  | fuel + 1, st =>
    let address := createdAddress forServer st.mNextId
    let st := { st with mNextId := nextId st.mNextId }
    match st.node? address with
    | none => some (address, st.setNode address { binder, sentRef := some binder, timesSent := 1 })
    | some _ => insertFresh forServer binder fuel st

theorem iterate_nextId (i : Fin (2 ^ 32)) (j : ℕ) : (nextId^[j] i).val = (i.val + j) % 2 ^ 32 := by
  induction j with
  | zero => exact (Nat.mod_eq_of_lt i.isLt).symm
  | succ j ih =>
    rw [Function.iterate_succ_apply', nextId]
    split_ifs with h
    · rw [ih] at h
      simp only [Fin.val_zero]
      omega
    · rw [ih] at h
      simp only [ih]
      omega

theorem createdAddress_injective (forServer : Bool) : Function.Injective (createdAddress forServer) := by
  intro i j h
  unfold createdAddress RpcWireAddress.toRaw at h
  apply Fin.ext
  simp only [Nat.add_left_cancel_iff] at h
  omega

theorem insertFresh_eq_none {forServer : Bool} {binder : IBinder} {fuel : ℕ} {st : RpcState}
    (h : insertFresh forServer binder fuel st = none) :
    ∀ j < fuel, st.node? (createdAddress forServer (nextId^[j] st.mNextId)) ≠ none := by
  induction fuel generalizing st with
  | zero => intro j hj; omega
  | succ fuel ih =>
    simp only [insertFresh] at h
    split at h
    · simp at h
    · rename_i n hn
      intro j hj
      cases j with
      | zero =>
        have hn' : st.node? (createdAddress forServer st.mNextId) = some n := hn
        simp [hn']
      | succ j =>
        have := ih h j (by omega)
        rwa [Function.iterate_succ_apply]

/-- One round more than there are nodes always finds a free address. -/
theorem insertFresh_isSome (forServer : Bool) (binder : IBinder) (st : RpcState)
    (h : st.mNodeForAddress.size ≤ 100000) :
    (insertFresh forServer binder (st.mNodeForAddress.size + 1) st).isSome := by
  by_contra hnone
  have hall := insertFresh_eq_none (Option.not_isSome_iff_eq_none.mp hnone)
  obtain ⟨j, hj, hfree⟩ := st.mNodeForAddress.exists_find?_eq_none
    (fun j => createdAddress forServer (nextId^[j] st.mNextId)) (st.mNodeForAddress.size + 1)
    (by omega) (by
      intro i hi j hj hij
      have hval := congrArg Fin.val (createdAddress_injective forServer hij)
      rw [iterate_nextId, iterate_nextId] at hval
      omega)
  exact hall j hj hfree

/-- `onBinderLeaving`: the address the binder is sent under. -/
def onBinderLeaving (session : Session) (binder : IBinder) (st : RpcState) :
    Except Fatal (Except Status ℕ × RpcState) :=
  match binder with
  | .kernelProxy .. => .ok (.error .invalidOperation, st)
  | .rpcProxy _ s address =>
    if s ≠ session.id then .ok (.error .invalidOperation, st)
    else if st.mTerminated then .ok (.error .deadObject, st)
    else match st.mNodeForAddress.entries.find? (fun e => e.2.binder = binder) with
      | some (addr, node) =>
        if addr ≠ address then .error .addressMismatch
        else .ok (.ok addr, st.setNode addr
          { node with timesSent := node.timesSent + 1, sentRef := some binder })
      | none => .error .rpcBinderWithoutAddress
  | .bBinder _ =>
    if st.mTerminated then .ok (.error .deadObject, st)
    else match st.mNodeForAddress.entries.find? (fun e => e.2.binder = binder) with
      | some (addr, node) => .ok (.ok addr, st.setNode addr
          { node with timesSent := node.timesSent + 1, sentRef := some binder })
      | none =>
        if h : st.mNodeForAddress.size > 100000 then .ok (.error .noMemory, st)
        else
          let fresh := (insertFresh session.server binder (st.mNodeForAddress.size + 1) st).get
            (insertFresh_isSome session.server binder st (not_lt.mp h))
          .ok (.ok fresh.1, fresh.2)

/-! ### Receiving a binder -/

/-- `onBinderEntering`. `alive` says which binders `wp<>::promote` still finds, `id` is the
identity of the proxy that an unknown address creates. -/
def onBinderEntering (session : Session) (alive : IBinder → Bool) (id : ℕ) (address : ℕ)
    (st : RpcState) : Except Status (Option IBinder) × RpcState :=
  let addr := RpcWireAddress.fromRaw address
  if addr.options &&& unknownOptions ≠ 0 then (.error .badValue, st)
  else if st.mTerminated then (.error .deadObject, st)
  else match st.node? address with
    | some node =>
      (.ok (if alive node.binder then some node.binder else none),
        st.setNode address { node with timesRecd := node.timesRecd + 1 })
    | none =>
      -- the masked option word is compared with a boolean, as in the source
      if addr.options &&& wireAddressOptionForServer = (if session.server then 1 else 0) then
        (.error .badValue, st)
      else
        let proxy := IBinder.rpcProxy id session.id address
        (.ok (some proxy), st.setNode address { binder := proxy, timesRecd := 1 })

/-! ### Reference counts -/

def tryEraseNode (address : ℕ) (node : BinderNode) (st : RpcState) : Except Fatal (Option IBinder × RpcState) :=
  if node.timesSent = 0 then
    if node.timesRecd = 0 then
      if node.asyncTodo ≠ [] then .error .erasePendingAsync
      else .ok (node.sentRef, st.eraseNode address)
    else .ok (node.sentRef, st.setNode address { node with sentRef := none })
  else .ok (none, st.setNode address node)

inductive FlushNext
  | ok
  | deadObject
  | sendDecStrong
  deriving DecidableEq, Repr

/-- `flushExcessBinderRefs` up to the unlock before `sendDecStrongToTarget`. -/
def flushExcessBinderRefs (address : ℕ) (binder : IBinder) (st : RpcState) : Except Fatal FlushNext :=
  if binder.isRemote then .ok .ok
  else if st.mTerminated then .ok .deadObject
  else match st.node? address with
    | none => .error .flushDeleted
    | some node =>
      if node.binder ≠ binder then .error .flushInconsistent
      else if node.timesSent = 0 then .error .flushNeverSent
      else if node.timesRecd ≠ 0 then .ok .sendDecStrong
      else .ok .ok

inductive DecNext
  | deadObject
  | nothing
  | send (amount : ℕ)
  deriving DecidableEq, Repr

/-- `sendDecStrongToTarget` up to the unlock before `rpcSend`. `amount` is a `uint32_t`. -/
def sendDecStrongToTarget (address target : ℕ) (st : RpcState) : Except Fatal (DecNext × RpcState) :=
  if st.mTerminated then .ok (.deadObject, st)
  else match st.node? address with
    | none => .error .decUnknownAddress
    | some node =>
      if node.timesRecd < target then .error .decBelowTarget
      else if node.timesRecd = target then .ok (.nothing, st)
      else match tryEraseNode address { node with timesRecd := target } st with
        | .error f => .error f
        | .ok (some _, _) => .error .decOwned
        | .ok (none, st') => .ok (.send ((node.timesRecd - target) % 2 ^ 32), st')

inductive DecStrongNext
  | ignored
  | shutdown
  | released (ref : Option IBinder)
  deriving DecidableEq, Repr

def processDecStrong (alive : IBinder → Bool) (address amount : ℕ) (st : RpcState) :
    Except Fatal (DecStrongNext × RpcState) :=
  match st.node? address with
  | none => .ok (.ignored, st)
  | some node =>
    if ¬ alive node.binder then .ok (.shutdown, st)
    else if node.timesSent < amount then .ok (.ignored, st)
    else if node.sentRef = none then .error .decStrongLostRef
    else match tryEraseNode address { node with timesSent := node.timesSent - amount } st with
      | .error f => .error f
      | .ok (ref, st') => .ok (.released ref, st')

/-! ### Transactions -/

inductive TransactNext
  | deadObject
  | shutdown
  | asyncNumber (n : ℕ)
  deriving DecidableEq, Repr

/-- The section of `transactAddress` that numbers a oneway transaction. -/
def transactAddress (address : ℕ) (oneway : Bool) (st : RpcState) : Except Fatal (TransactNext × RpcState) :=
  if address = 0 then .ok (.asyncNumber 0, st)
  else if st.mTerminated then .ok (.deadObject, st)
  else match st.node? address with
    | none => .error .transactUnknownAddress
    | some node =>
      if oneway then
        match nodeProgressAsyncNumber node with
        | none => .ok (.shutdown, st)
        | some node' => .ok (.asyncNumber node.asyncNumber, st.setNode address node')
      else .ok (.asyncNumber 0, st)

def kArbitraryOnewayCallTerminateLevel : ℕ := 10000

inductive OnewayNext
  | execute
  | invalid
  | queued
  | shutdown
  deriving DecidableEq, Repr

/-- The section of `processTransactInternal` that orders oneway transactions. -/
def checkAsyncNumber (alive : IBinder → Bool) (t : RpcWireTransaction) (target : IBinder)
    (st : RpcState) : Except Fatal (OnewayNext × RpcState) :=
  match st.node? t.address with
  | none => .error .endIterator
  | some node =>
    if ¬ alive node.binder ∨ node.binder ≠ target then .ok (.invalid, st)
    else if t.asyncNumber ≠ node.asyncNumber then
      let todo := ⟨target, t, t.asyncNumber⟩ :: node.asyncTodo
      let st' := st.setNode t.address { node with asyncTodo := todo }
      if todo.length ≥ kArbitraryOnewayCallTerminateLevel then .ok (.shutdown, st')
      else .ok (.queued, st')
    else .ok (.execute, st)

inductive AsyncNext
  | finished
  | shutdown
  | next (todo : AsyncTodo)
  | flush
  deriving DecidableEq, Repr

/-- The section of `processTransactInternal` after a oneway transaction: count it and take
the next one from the queue. -/
def progressAsync (address : ℕ) (target : Option IBinder) (st : RpcState) : Except Fatal (AsyncNext × RpcState) :=
  match st.node? address with
  | none => .ok (.finished, st)
  | some node =>
    match nodeProgressAsyncNumber node with
    | none => .ok (.shutdown, st)
    | some node' =>
      match asyncTop node'.asyncTodo with
      | none => .ok (.finished, st.setNode address node')
      | some todo =>
        if todo.asyncNumber = node'.asyncNumber then
          if target ≠ some todo.ref then .error .asyncForeignBinder
          else .ok (.next todo, st.setNode address { node' with asyncTodo := node'.asyncTodo.erase todo })
        else .ok (.flush, st.setNode address node')

/-- `clear`: the references that are dropped once the mutex is released. -/
def clear (alive : IBinder → Bool) (st : RpcState) : Except Fatal (List IBinder × RpcState) :=
  if st.mTerminated then
    if st.mNodeForAddress.entries ≠ [] then .error .clearAfterTerminate else .ok ([], st)
  else if st.mNodeForAddress.entries.all fun e => alive e.2.binder then
    .ok (st.mNodeForAddress.entries.filterMap fun e => e.2.sentRef,
      { st with mTerminated := true, mNodeForAddress := .empty })
  else .error .clearNotOwned

end Binder.Rpc
