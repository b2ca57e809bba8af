import Binder.Rpc.Process
import Binder.Rpc.Sections

/-! Every outcome of an action of a process, with the guards that lead to it. The
invariants of a process are read off these cases. -/
namespace Binder.Rpc
open Binder.Lib List

def Rejects (session : Session) (st : RpcState) (a : ℕ) : Prop :=
  st.mTerminated = false → (RpcWireAddress.fromRaw a).options &&& unknownOptions = 0 →
    st.node? a = none ∧ (RpcWireAddress.fromRaw a).options &&& wireAddressOptionForServer =
      (if session.server then 1 else 0)

/-- `onBinderEntering` makes a proxy for the address. -/
structure Adopts (session : Session) (st : RpcState) (a : ℕ) : Prop where
  running : st.mTerminated = false
  known : (RpcWireAddress.fromRaw a).options &&& unknownOptions = 0
  absent : st.node? a = none
  foreign : (RpcWireAddress.fromRaw a).options &&& wireAddressOptionForServer ≠
    (if session.server then 1 else 0)

/-- `onBinderEntering` finds the node of the address. -/
structure Finds (st : RpcState) (a : ℕ) (n : BinderNode) : Prop where
  running : st.mTerminated = false
  known : (RpcWireAddress.fromRaw a).options &&& unknownOptions = 0
  node : st.node? a = some n

def RpcState.receive (st : RpcState) (a : ℕ) (n : BinderNode) : RpcState :=
  st.setNode a { n with timesRecd := n.timesRecd + 1 }

def RpcState.adopt (st : RpcState) (session : Session) (next a : ℕ) : RpcState :=
  st.setNode a { binder := .rpcProxy next session.id a, timesRecd := 1 }

/-- `onBinderLeaving` gives the address for the binder. -/
inductive Leaves (session : Session) (st : RpcState) (b : IBinder) (a : ℕ) : RpcState → Prop
  | sent (n : BinderNode) : st.mTerminated = false → st.node? a = some n → n.binder = b →
      Leaves session st b a (st.setNode a { n with timesSent := n.timesSent + 1, sentRef := some b })
  | created (i : Fin (2 ^ 32)) : st.mTerminated = false → b.isRemote = false → st.node? a = none →
      a ∈ upcoming session st → (∀ x n, st.node? x = some n → n.binder ≠ b) →
      Leaves session st b a ({ st with mNextId := i }.setNode a
        { binder := b, sentRef := some b, timesSent := 1 })

/-- `processDecStrong` takes `k` references back. -/
inductive Releases (st : RpcState) (a k : ℕ) (n : BinderNode) : Option IBinder → RpcState → Prop
  | part : k < n.timesSent →
      Releases st a k n none (st.setNode a { n with timesSent := n.timesSent - k })
  | last : k = n.timesSent → n.timesRecd ≠ 0 →
      Releases st a k n n.sentRef (st.setNode a { n with timesSent := 0, sentRef := none })
  | erased : k = n.timesSent → n.timesRecd = 0 → n.asyncTodo = [] →
      Releases st a k n n.sentRef (st.eraseNode a)

/-- `sendDecStrongToTarget` gives every received reference back. -/
inductive GivesBack (st : RpcState) (a : ℕ) (n : BinderNode) : RpcState → Prop
  | kept : n.timesSent ≠ 0 → GivesBack st a n (st.setNode a { n with timesRecd := 0 })
  | erased : n.timesSent = 0 → n.sentRef = none → n.asyncTodo = [] → GivesBack st a n (st.eraseNode a)

/-- The thread at position `i` ends the transaction `t` with `status`. -/
inductive Ends (p : Proc) (rest : List Task) (t : RpcWireTransaction) (target : Option IBinder)
    (call : ℕ) : ℕ → Status → Status → Prop
  | executed (i : ℕ) (status : Status) : pick p.tasks i = some (.executing t target call, rest) →
      Ends p rest t target call i status status
  | failed (i : ℕ) (status : Status) : pick p.tasks i = some (.failed t target call, rest) →
      Ends p rest t target call i status .badValue

def Action.leaving : Action → Option IBinder
  | .flatten b => some b
  | .transact b _ _ _ _ => some b
  | _ => none

/-- The checks that end the process, each with the state in which it fails. -/
inductive Aborts (session : Session) (p : Proc) : Action → Fatal → Prop
  | lostRef (a k : ℕ) (n : BinderNode) : p.state.node? a = some n → n.binder ∈ p.refs →
      k ≤ n.timesSent → n.sentRef = none → Aborts session p (.recvDecStrong a k) .decStrongLostRef
  | erasePending (a k : ℕ) (n : BinderNode) : p.state.node? a = some n → n.binder ∈ p.refs →
      k = n.timesSent → n.timesRecd = 0 → n.asyncTodo ≠ [] →
      Aborts session p (.recvDecStrong a k) .erasePendingAsync
  | null (a : ℕ) (n : BinderNode) : Finds p.state a n → n.binder ∉ p.refs →
      Aborts session p (.unflatten a) .nullBinder
  | endIterator (i : ℕ) (t : RpcWireTransaction) (b : IBinder) (rest : List Task) :
      pick p.tasks i = some (.entered t b, rest) → p.state.node? t.address = none →
      Aborts session p (.checkOneway i) .endIterator
  | foreign (i call : ℕ) (t : RpcWireTransaction) (target : Option IBinder) (rest : List Task)
      (s s' : Status) (n : BinderNode) (x : AsyncTodo) : Ends p rest t target call i s s' →
      t.oneway = true → p.state.node? t.address = some n → asyncTop n.asyncTodo = some x →
      target ≠ some x.ref → Aborts session p (.finish i s) .asyncForeignBinder
  | flushDeleted (i a : ℕ) (b : IBinder) (after : After) (rest : List Task) :
      pick p.tasks i = some (.flushing a b after, rest) → p.state.mTerminated = false →
      p.state.node? a = none → Aborts session p (.flush i) .flushDeleted
  | flushInconsistent (i a : ℕ) (b : IBinder) (after : After) (rest : List Task) (n : BinderNode) :
      pick p.tasks i = some (.flushing a b after, rest) → p.state.mTerminated = false →
      p.state.node? a = some n → n.binder ≠ b → Aborts session p (.flush i) .flushInconsistent
  | flushNeverSent (i a : ℕ) (b : IBinder) (after : After) (rest : List Task) (n : BinderNode) :
      pick p.tasks i = some (.flushing a b after, rest) → p.state.mTerminated = false →
      p.state.node? a = some n → n.timesSent = 0 → Aborts session p (.flush i) .flushNeverSent
  | decUnknown (i a : ℕ) (b : IBinder) (after : After) (rest : List Task) :
      pick p.tasks i = some (.decToTarget a b after, rest) → p.state.mTerminated = false →
      p.state.node? a = none → Aborts session p (.decStrong i) .decUnknownAddress
  | decNeverSent (i a : ℕ) (b : IBinder) (after : After) (rest : List Task) (n : BinderNode)
      (f : Fatal) : pick p.tasks i = some (.decToTarget a b after, rest) →
      p.state.mTerminated = false → p.state.node? a = some n → n.timesSent = 0 →
      (f = .erasePendingAsync ∧ n.asyncTodo ≠ []) ∨ (f = .decOwned ∧ n.sentRef ≠ none) →
      Aborts session p (.decStrong i) f
  | proxyUnknown (i : ℕ) (b : IBinder) (rest : List Task) :
      pick p.tasks i = some (.lastStrongRef b, rest) → p.state.mTerminated = false →
      p.state.node? b.rpcAddress = none → Aborts session p (.decStrong i) .decUnknownAddress
  | proxyPending (i : ℕ) (b : IBinder) (rest : List Task) (n : BinderNode) (f : Fatal) :
      pick p.tasks i = some (.lastStrongRef b, rest) → p.state.mTerminated = false →
      p.state.node? b.rpcAddress = some n → n.timesSent = 0 →
      (f = .erasePendingAsync ∧ n.asyncTodo ≠ []) ∨ (f = .decOwned ∧ n.sentRef ≠ none) →
      Aborts session p (.decStrong i) f
  | mismatch (act : Action) (b : IBinder) (x : ℕ) (n : BinderNode) : act.leaving = some b →
      b ∈ p.held → Proc.ownProxy session b → p.state.node? x = some n → n.binder = b →
      x ≠ b.rpcAddress → Aborts session p act .addressMismatch
  | withoutAddress (act : Action) (b : IBinder) : act.leaving = some b → b ∈ p.held →
      Proc.ownProxy session b → p.state.mTerminated = false →
      (∀ x n, p.state.node? x = some n → n.binder ≠ b) →
      Aborts session p act .rpcBinderWithoutAddress
  | transactUnknown (i call : ℕ) (b : IBinder) (a code flags : ℕ) (data : List UInt8) (reply : Bool)
      (rest : List Task) : pick p.tasks i = some (.transacting b a code flags data reply, rest) →
      p.state.mTerminated = false → p.state.node? a = none →
      Aborts session p (.transactAddress i call) .transactUnknownAddress
  | tooMuchData (i call : ℕ) (b : IBinder) (a code flags : ℕ) (data : List UInt8) (reply : Bool)
      (rest : List Task) : pick p.tasks i = some (.transacting b a code flags data reply, rest) →
      2 ^ 31 - 1 - sizeofWireHeader - sizeofWireTransaction < data.length →
      Aborts session p (.transactAddress i call) .transactTooMuchData
  | noReply (i call : ℕ) (b : IBinder) (a code flags : ℕ) (data : List UInt8) (rest : List Task) :
      pick p.tasks i = some (.transacting b a code flags data false, rest) →
      flags &&& flagOneway = 0 → Aborts session p (.transactAddress i call) .transactNoReply
  | clearAgain (i a : ℕ) (n : BinderNode) : p.state.mTerminated = true → p.state.node? a = some n →
      Aborts session p (.clear i) .clearAfterTerminate
  | notOwned (i a : ℕ) (n : BinderNode) : p.state.mTerminated = false → p.state.node? a = some n →
      n.binder ∉ p.refs → Aborts session p (.clear i) .clearNotOwned

open Proc in
inductive Moves (session : Session) (p : Proc) : Action → Proc → List Out → Prop
  | abort (a : Action) (f : Fatal) : Aborts session p a f →
      Moves session p a { p with aborted := some f } []
  | special (t : RpcWireTransaction) (call : ℕ) : t.address = 0 →
      Moves session p (.recvTransact t call) (p.addTask (.executing t none call)) []
  | rejected (t : RpcWireTransaction) (call : ℕ) : t.address ≠ 0 → Rejects session p.state t.address →
      Moves session p (.recvTransact t call) (p.addTask (.failed t none call)) []
  | targetDead (t : RpcWireTransaction) (call : ℕ) (n : BinderNode) : t.address ≠ 0 →
      Finds p.state t.address n → n.binder ∉ p.refs →
      Moves session p (.recvTransact t call)
        ((p.enter (p.state.receive t.address n)).addTask (.shutdown [])) []
  | targetRemote (t : RpcWireTransaction) (call : ℕ) (n : BinderNode) : t.address ≠ 0 →
      Finds p.state t.address n → n.binder ∈ p.refs → n.binder.isRemote →
      Moves session p (.recvTransact t call)
        ((p.enter (p.state.receive t.address n)).addTask (.shutdown [n.binder])) []
  | targetAdopted (t : RpcWireTransaction) (call : ℕ) : t.address ≠ 0 →
      Adopts session p.state t.address →
      Moves session p (.recvTransact t call)
        ((p.enter (p.state.adopt session p.nextBinder t.address)).addTask
          (.shutdown [.rpcProxy p.nextBinder session.id t.address])) []
  | entered (t : RpcWireTransaction) (call : ℕ) (n : BinderNode) : t.address ≠ 0 →
      Finds p.state t.address n → n.binder ∈ p.refs → n.binder.isRemote = false → t.oneway = true →
      Moves session p (.recvTransact t call)
        ((p.enter (p.state.receive t.address n)).addTask (.entered t n.binder)) []
  | executed (t : RpcWireTransaction) (call : ℕ) (n : BinderNode) : t.address ≠ 0 →
      Finds p.state t.address n → n.binder ∈ p.refs → n.binder.isRemote = false → t.oneway = false →
      Moves session p (.recvTransact t call)
        ((p.enter (p.state.receive t.address n)).addTask (.executing t (some n.binder) call))
        [.execute t n.binder]
  | decIgnored (a k : ℕ) : (∀ n, p.state.node? a = some n → n.binder ∈ p.refs ∧ n.timesSent < k) →
      Moves session p (.recvDecStrong a k) p []
  | decDead (a k : ℕ) (n : BinderNode) : p.state.node? a = some n → n.binder ∉ p.refs →
      Moves session p (.recvDecStrong a k) (p.addTask (.shutdown [])) []
  | decReleased (a k : ℕ) (n : BinderNode) (ref : Option IBinder) (st : RpcState) :
      p.state.node? a = some n → n.binder ∈ p.refs → n.sentRef ≠ none → Releases p.state a k n ref st →
      Moves session p (.recvDecStrong a k)
        { p with state := st, tasks := (ref.map Task.releasing).toList ++ p.tasks } []
  | readRejected (a : ℕ) : Rejects session p.state a → Moves session p (.unflatten a) p []
  | readRemote (a : ℕ) (n : BinderNode) : Finds p.state a n → n.binder ∈ p.refs → n.binder.isRemote →
      Moves session p (.unflatten a) { p.enter (p.state.receive a n) with held := n.binder :: p.held } []
  | readAdopted (a : ℕ) : Adopts session p.state a →
      Moves session p (.unflatten a) { p.enter (p.state.adopt session p.nextBinder a) with
        held := .rpcProxy p.nextBinder session.id a :: p.held } []
  | readLocal (a : ℕ) (n : BinderNode) : Finds p.state a n → n.binder ∈ p.refs →
      n.binder.isRemote = false →
      Moves session p (.unflatten a)
        ((p.enter (p.state.receive a n)).addTask (.flushing a n.binder .deliver)) []
  | replied (i call : ℕ) (b : IBinder) (rest : List Task) :
      pick p.tasks i = some (.waiting (some b) call, rest) →
      Moves session p (.recvReply i) (settle session b { p with tasks := rest }) []
  | repliedSpecial (i call : ℕ) (rest : List Task) :
      pick p.tasks i = some (.waiting none call, rest) →
      Moves session p (.recvReply i) { p with tasks := rest } []
  | interrupted (i call : ℕ) (b : Option IBinder) (rest : List Task) :
      pick p.tasks i = some (.waiting b call, rest) →
      Moves session p (.interrupt i) { p with tasks := .shutdown b.toList :: rest } []
  | ordered (i : ℕ) (t : RpcWireTransaction) (b : IBinder) (rest : List Task) (n : BinderNode) :
      pick p.tasks i = some (.entered t b, rest) → p.state.node? t.address = some n → n.binder = b →
      t.asyncNumber = n.asyncNumber →
      Moves session p (.checkOneway i) { p with tasks := .executing t (some b) 0 :: rest }
        [.execute t b]
  | invalid (i : ℕ) (t : RpcWireTransaction) (b : IBinder) (rest : List Task) (n : BinderNode) :
      pick p.tasks i = some (.entered t b, rest) → p.state.node? t.address = some n →
      (n.binder ∈ p.refs → n.binder ≠ b) →
      Moves session p (.checkOneway i) { p with tasks := .failed t (some b) 0 :: rest } []
  | queued (i : ℕ) (t : RpcWireTransaction) (b : IBinder) (rest : List Task) (n : BinderNode)
      (more : List Task) :
      pick p.tasks i = some (.entered t b, rest) → p.state.node? t.address = some n → n.binder = b →
      t.asyncNumber ≠ n.asyncNumber → more = [] ∨ more = [.shutdown [b]] →
      Moves session p (.checkOneway i)
        { p with
          state := p.state.setNode t.address
            { n with asyncTodo := ⟨b, t, t.asyncNumber⟩ :: n.asyncTodo }
          tasks := more ++ rest } []
  | onewayGone (i call : ℕ) (t : RpcWireTransaction) (target : Option IBinder) (rest : List Task)
      (s s' : Status) : Ends p rest t target call i s s' → t.oneway = true →
      p.state.node? t.address = none →
      Moves session p (.finish i s) { p with tasks := rest } []
  | onewayExhausted (i call : ℕ) (t : RpcWireTransaction) (target : Option IBinder) (rest : List Task)
      (s s' : Status) : Ends p rest t target call i s s' → t.oneway = true →
      (∃ n, p.state.node? t.address = some n ∧ 2 ^ 64 - 1 ≤ n.asyncNumber) →
      Moves session p (.finish i s) { p with tasks := .shutdown target.toList :: rest } []
  | onewayDone (i call : ℕ) (t : RpcWireTransaction) (target : Option IBinder) (rest : List Task)
      (s s' : Status) (n : BinderNode) (more : List Task) :
      Ends p rest t target call i s s' → t.oneway = true → p.state.node? t.address = some n →
      (∀ x, asyncTop n.asyncTodo = some x → x.asyncNumber ≠ n.asyncNumber + 1) →
      (more = [] ∨ ∃ b, s' = .ok ∧ target = some b ∧ n.asyncTodo ≠ [] ∧ more = [.flushing t.address b .done]) →
      Moves session p (.finish i s)
        { p with
          state := p.state.setNode t.address { n with asyncNumber := n.asyncNumber + 1 }
          tasks := more ++ rest } []
  | onewayNext (i call : ℕ) (t : RpcWireTransaction) (x : AsyncTodo) (rest : List Task)
      (s s' : Status) (n : BinderNode) : Ends p rest t (some x.ref) call i s s' → t.oneway = true →
      p.state.node? t.address = some n → asyncTop n.asyncTodo = some x →
      x.asyncNumber = n.asyncNumber + 1 →
      Moves session p (.finish i s)
        { p with
          state := p.state.setNode t.address
            { n with asyncNumber := n.asyncNumber + 1, asyncTodo := n.asyncTodo.erase x }
          tasks := .entered x.data x.ref :: rest } []
  | syncFlush (i call : ℕ) (t : RpcWireTransaction) (b : IBinder) (rest : List Task) (s : Status) :
      Ends p rest t (some b) call i s .ok → t.oneway = false →
      Moves session p (.finish i s)
        { p with tasks := .flushing t.address b (.reply call) :: rest } []
  | syncReply (i call : ℕ) (t : RpcWireTransaction) (target : Option IBinder) (rest : List Task)
      (s s' : Status) : Ends p rest t target call i s s' → t.oneway = false →
      Moves session p (.finish i s) { p with tasks := rest } [.reply call]
  | flushed (i a : ℕ) (b : IBinder) (after : After) (rest : List Task) :
      pick p.tasks i = some (.flushing a b after, rest) →
      Moves session p (.flush i) (complete b rest p after).1 (complete b rest p after).2
  | flushFailed (i a : ℕ) (b : IBinder) (after : After) (rest : List Task) :
      pick p.tasks i = some (.flushing a b after, rest) →
      Moves session p (.flush i) (completeFailed rest p after).1 (completeFailed rest p after).2
  | flushDec (i a : ℕ) (b : IBinder) (after : After) (rest : List Task) (n : BinderNode) :
      pick p.tasks i = some (.flushing a b after, rest) → p.state.mTerminated = false →
      p.state.node? a = some n → n.binder = b → n.timesSent ≠ 0 →
      Moves session p (.flush i) { p with tasks := .decToTarget a b after :: rest } []
  | decFailed (i a : ℕ) (b : IBinder) (after : After) (rest : List Task) :
      pick p.tasks i = some (.decToTarget a b after, rest) →
      Moves session p (.decStrong i) (completeFailed rest p after).1 (completeFailed rest p after).2
  | decNothing (i a : ℕ) (b : IBinder) (after : After) (rest : List Task) :
      pick p.tasks i = some (.decToTarget a b after, rest) →
      Moves session p (.decStrong i) (complete b rest p after).1 (complete b rest p after).2
  | decSent (i a : ℕ) (b : IBinder) (after : After) (rest : List Task) (n : BinderNode)
      (st : RpcState) :
      pick p.tasks i = some (.decToTarget a b after, rest) → p.state.mTerminated = false →
      p.state.node? a = some n → n.timesRecd ≠ 0 → GivesBack p.state a n st →
      Moves session p (.decStrong i) (complete b rest { p with state := st } after).1
        (.decStrong a (n.timesRecd % 2 ^ 32) :: (complete b rest { p with state := st } after).2)
  | proxySent (i : ℕ) (b : IBinder) (rest : List Task) (n : BinderNode) (st : RpcState) :
      pick p.tasks i = some (.lastStrongRef b, rest) → p.state.mTerminated = false →
      p.state.node? b.rpcAddress = some n → n.timesRecd ≠ 0 → GivesBack p.state b.rpcAddress n st →
      Moves session p (.decStrong i) { p with state := st, tasks := rest }
        [.decStrong b.rpcAddress (n.timesRecd % 2 ^ 32)]
  | proxyNothing (i : ℕ) (b : IBinder) (rest : List Task) :
      pick p.tasks i = some (.lastStrongRef b, rest) →
      (p.state.mTerminated = false → ∀ n, p.state.node? b.rpcAddress = some n → n.timesRecd = 0) →
      Moves session p (.decStrong i) { p with tasks := rest } []
  | blocked (i a : ℕ) (b : IBinder) (after : After) (rest : List Task) :
      pick p.tasks i = some (.decToTarget a b after, rest) →
      Moves session p (.wouldBlock i) (completeFailed rest p after).1 (completeFailed rest p after).2
  | proxyBlocked (i : ℕ) (b : IBinder) (rest : List Task) :
      pick p.tasks i = some (.lastStrongRef b, rest) →
      Moves session p (.wouldBlock i) { p with tasks := rest } []
  | flattenFailed (b : IBinder) : Moves session p (.flatten b) p []
  | flattened (b : IBinder) (a : ℕ) (st : RpcState) : b ∈ p.held → Leaves session p.state b a st →
      Moves session p (.flatten b) { p with state := st } [.flattened a]
  | transactFailed (b : IBinder) (code flags : ℕ) (data : List UInt8) (reply : Bool) :
      Moves session p (.transact b code flags data reply) p []
  | transacting (b : IBinder) (code flags : ℕ) (data : List UInt8) (reply : Bool) (a : ℕ)
      (n : BinderNode) : b ∈ p.held → ownProxy session b → p.state.mTerminated = false →
      p.state.node? a = some n → n.binder = b → a = b.rpcAddress →
      Moves session p (.transact b code flags data reply)
        { p with
          state := p.state.setNode a { n with timesSent := n.timesSent + 1, sentRef := some b }
          tasks := .transacting b a code flags data reply :: p.tasks } []
  | transactDead (i call : ℕ) (b : IBinder) (a code flags : ℕ) (data : List UInt8) (reply : Bool)
      (rest : List Task) :
      pick p.tasks i = some (.transacting b a code flags data reply, rest) →
      Moves session p (.transactAddress i call) (settle session b { p with tasks := rest }) []
  | transactExhausted (i call : ℕ) (b : IBinder) (a code flags : ℕ) (data : List UInt8) (reply : Bool)
      (rest : List Task) :
      pick p.tasks i = some (.transacting b a code flags data reply, rest) →
      Moves session p (.transactAddress i call) { p with tasks := .shutdown [b] :: rest } []
  | onewaySent (i call : ℕ) (b : IBinder) (a code flags : ℕ) (data : List UInt8) (reply : Bool)
      (rest : List Task) (n : BinderNode) :
      pick p.tasks i = some (.transacting b a code flags data reply, rest) → a ≠ 0 →
      p.state.mTerminated = false → p.state.node? a = some n → flags &&& flagOneway ≠ 0 →
      Moves session p (.transactAddress i call)
        (settle session b
          { p with
            state := p.state.setNode a { n with asyncNumber := n.asyncNumber + 1 }
            tasks := rest })
        [.transact ⟨a, code, flags, n.asyncNumber, data⟩ call]
  | onewaySentZero (i call : ℕ) (b : IBinder) (code flags k : ℕ) (data : List UInt8) (reply : Bool)
      (rest : List Task) :
      pick p.tasks i = some (.transacting b 0 code flags data reply, rest) →
      Moves session p (.transactAddress i call) (settle session b { p with tasks := rest })
        [.transact ⟨0, code, flags, k, data⟩ call]
  | syncSent (i call : ℕ) (b : IBinder) (a code flags k : ℕ) (data : List UInt8) (reply : Bool)
      (rest : List Task) :
      pick p.tasks i = some (.transacting b a code flags data reply, rest) →
      flags &&& flagOneway = 0 →
      Moves session p (.transactAddress i call) { p with tasks := .waiting (some b) call :: rest }
        [.transact ⟨a, code, flags, k, data⟩ call]
  | specialSent (code call : ℕ) : Moves session p (.transactSpecial code call)
      (p.addTask (.waiting none call)) [.transact ⟨0, code, 0, 0, []⟩ call]
  | released (i : ℕ) (b : IBinder) (rest : List Task) :
      pick p.tasks i = some (.releasing b, rest) →
      Moves session p (.release i) (settle session b { p with tasks := rest }) []
  | made (b : IBinder) : b.id = p.nextBinder → ownProxy session b = false →
      Moves session p (.newBinder b)
        { p with held := b :: p.held, nextBinder := p.nextBinder + 1 } []
  | copied (b : IBinder) : b ∈ p.refs → Moves session p (.hold b) { p with held := b :: p.held } []
  | dropped (b : IBinder) : b ∈ p.held →
      Moves session p (.drop b) (settle session b { p with held := p.held.erase b }) []
  | shuttingDown : Moves session p .beginShutdown (p.addTask (.shutdown [])) []
  | clearedAgain (i : ℕ) (refs : List IBinder) (rest : List Task) :
      pick p.tasks i = some (.shutdown refs, rest) → p.state.mTerminated = true →
      Moves session p (.clear i) { p with tasks := refs.map .releasing ++ rest } []
  | cleared (i : ℕ) (refs : List IBinder) (rest : List Task) :
      pick p.tasks i = some (.shutdown refs, rest) → p.state.mTerminated = false →
      Moves session p (.clear i)
        { p with
          state := { p.state with mTerminated := true, mNodeForAddress := .empty }
          tasks := (refs ++ p.state.mNodeForAddress.entries.filterMap (fun e => e.2.sentRef)).map
            .releasing ++ rest } []

variable {session : Session} {p p' : Proc} {outs : List Out}

variable {b : IBinder} {i call code flags : ℕ} {t : RpcWireTransaction} {rest : List Task} {after : After}
    {a : Action} {data : List UInt8} {reply : Bool} {r : Proc × List Out}

theorem alive_iff : p.alive b = true ↔ b ∈ p.refs := by simp [Proc.alive]

theorem recvTransact_moves (t : RpcWireTransaction) (call : ℕ) :
    Moves session p (.recvTransact t call) (p.recvTransact session t call).1
      (p.recvTransact session t call).2 := by
  unfold Proc.recvTransact
  by_cases ha : t.address = 0
  · rw [if_pos ha]
    exact .special t call ha
  rw [if_neg ha]
  rcases onBinderEntering_cases session p.alive p.nextBinder t.address p.state with
    ⟨e, he, hr⟩ | ⟨ht, hk, n, hn, he⟩ | ⟨ht, hk, hn, hf, he⟩
  · rw [he]
    exact .rejected t call ha hr
  · rw [he]
    by_cases hlive : p.alive n.binder
    · have hmem := alive_iff.mp hlive
      simp only [hlive, if_true]
      split_ifs with hrem how
      · exact .targetRemote t call n ha ⟨ht, hk, hn⟩ hmem hrem
      · exact .entered t call n ha ⟨ht, hk, hn⟩ hmem (by simpa using hrem) how
      · exact .executed t call n ha ⟨ht, hk, hn⟩ hmem (by simpa using hrem) (by simpa using how)
    · simp only [hlive, Bool.false_eq_true, if_false]
      exact .targetDead t call n ha ⟨ht, hk, hn⟩ (by simpa [alive_iff] using hlive)
  · rw [he]
    exact .targetAdopted t call ha ⟨ht, hk, hn, hf⟩

theorem tryEraseNode_released {st : RpcState} {a k : ℕ} {n : BinderNode} (hk : k ≤ n.timesSent) :
    (∃ ref st', tryEraseNode a { n with timesSent := n.timesSent - k } st = .ok (ref, st') ∧
        Releases st a k n ref st') ∨
      (tryEraseNode a { n with timesSent := n.timesSent - k } st = .error .erasePendingAsync ∧
        k = n.timesSent ∧ n.timesRecd = 0 ∧ n.asyncTodo ≠ []) := by
  unfold tryEraseNode
  by_cases hs : n.timesSent - k = 0
  · have hkn : k = n.timesSent := by omega
    by_cases hr : n.timesRecd = 0
    · by_cases htodo : n.asyncTodo = []
      · refine .inl ⟨_, _, ?_, .erased hkn hr htodo⟩
        simp [hs, hr, htodo]
      · exact .inr ⟨by simp [hs, hr, htodo], hkn, hr, htodo⟩
    · refine .inl ⟨_, _, ?_, .last hkn hr⟩
      simp [hs, hr]
  · refine .inl ⟨_, _, ?_, .part (by omega)⟩
    simp [hs]

theorem recvDecStrong_moves (a k : ℕ) :
    Moves session p (.recvDecStrong a k) (p.recvDecStrong a k).1 (p.recvDecStrong a k).2 := by
  unfold Proc.recvDecStrong processDecStrong
  cases hn : p.state.node? a with
  | none => exact .decIgnored a k (by simp [hn])
  | some n =>
    dsimp only
    split_ifs with hlive hlt href
    · refine .decIgnored a k fun m hm => ?_
      obtain rfl := Option.some.inj (hn.symm.trans hm)
      exact ⟨alive_iff.mp hlive, hlt⟩
    · exact .abort _ _ (.lostRef a k n hn (alive_iff.mp hlive) (not_lt.mp hlt) href)
    · have hmem := alive_iff.mp hlive
      rcases tryEraseNode_released (a := a) (not_lt.mp hlt) with
        ⟨ref, st, he, hr⟩ | ⟨he, hk, hr, htodo⟩
      · rw [he]
        cases ref with
        | none => exact .decReleased a k n none st hn hmem href hr
        | some b => exact .decReleased a k n (some b) st hn hmem href hr
      · rw [he]
        exact .abort _ _ (.erasePending a k n hn hmem hk hr htodo)
    · exact .decDead a k n hn fun hmem => hlive (alive_iff.mpr hmem)

theorem unflatten_moves (a : ℕ) :
    Moves session p (.unflatten a) (p.unflatten session a).1 (p.unflatten session a).2 := by
  unfold Proc.unflatten
  rcases onBinderEntering_cases session p.alive p.nextBinder a p.state with
    ⟨e, he, hr⟩ | ⟨ht, hk, n, hn, he⟩ | ⟨ht, hk, hn, hf, he⟩
  · rw [he]
    exact .readRejected a hr
  · rw [he]
    by_cases hlive : p.alive n.binder
    · have hmem := alive_iff.mp hlive
      simp only [hlive, if_true]
      split_ifs with hrem
      · exact .readRemote a n ⟨ht, hk, hn⟩ hmem hrem
      · exact .readLocal a n ⟨ht, hk, hn⟩ hmem (by simpa using hrem)
    · simp only [hlive, Bool.false_eq_true, if_false]
      exact .abort _ _ (.null a n ⟨ht, hk, hn⟩ fun hmem => hlive (alive_iff.mpr hmem))
  · rw [he]
    exact .readAdopted a ⟨ht, hk, hn, hf⟩

theorem checkOneway_moves (h : pick p.tasks i = some (.entered t b, rest)) :
    Moves session p (.checkOneway i) (p.checkOneway t b rest).1 (p.checkOneway t b rest).2 := by
  unfold Proc.checkOneway checkAsyncNumber
  cases hn : p.state.node? t.address with
  | none => exact .abort _ _ (.endIterator i t b rest h hn)
  | some n =>
    dsimp only
    split_ifs with hinvalid hnum hfull
    · exact .invalid i t b rest n h hn fun hmem => hinvalid.resolve_left (by simp [alive_iff.mpr hmem])
    all_goals
      push Not at hinvalid
    · exact .queued i t b rest n [.shutdown [b]] h hn hinvalid.2 hnum (.inr rfl)
    · exact .queued i t b rest n [] h hn hinvalid.2 hnum (.inl rfl)
    · exact .ordered i t b rest n h hn hinvalid.2 (not_not.mp hnum)

theorem finish_moves {target : Option IBinder}
    {s s' : Status} (h : Ends p rest t target call i s s') :
    Moves session p (.finish i s) (p.finish t target call s' rest).1 (p.finish t target call s' rest).2 := by
  unfold Proc.finish
  by_cases how : t.oneway
  · rw [if_pos how]
    unfold progressAsync nodeProgressAsyncNumber
    cases hn : p.state.node? t.address with
    | none => exact .onewayGone i call t target rest s s' h how hn
    | some n =>
      by_cases hk : n.asyncNumber ≥ 2 ^ 64 - 1
      · simp only [if_pos hk]
        exact .onewayExhausted i call t target rest s s' h how ⟨n, hn, hk⟩
      simp only [if_neg hk]
      cases hx : asyncTop n.asyncTodo with
      | none => exact .onewayDone i call t target rest s s' n [] h how hn (by simp [hx]) (.inl rfl)
      | some x =>
        by_cases hnum : x.asyncNumber = n.asyncNumber + 1
        · by_cases hforeign : target = some x.ref
          · subst hforeign
            simp only [if_pos hnum, ne_eq, not_true_eq_false, if_false]
            exact .onewayNext i call t x rest s s' n h how hn hx hnum
          · simp only [if_pos hnum, ne_eq, if_pos hforeign]
            exact .abort _ _ (.foreign i call t target rest s s' n x h how hn hx hforeign)
        simp only [if_neg hnum]
        have htop : ∀ y, asyncTop n.asyncTodo = some y → y.asyncNumber ≠ n.asyncNumber + 1 := by
          intro y hy
          cases hx.symm.trans hy
          exact hnum
        have hq : n.asyncTodo ≠ [] := fun hnil => by simp [hnil, asyncTop] at hx
        cases target with
        | none => exact .onewayDone i call t none rest s s' n [] h how hn htop (.inl rfl)
        | some b =>
          by_cases hs : s' = .ok
          · simp only [hs, if_true]
            exact .onewayDone i call t (some b) rest s s' n _ h how hn htop (.inr ⟨b, hs, rfl, hq, rfl⟩)
          · simp only [hs, if_false]
            exact .onewayDone i call t (some b) rest s s' n [] h how hn htop (.inl rfl)
  · have how' : t.oneway = false := by simpa using how
    rw [if_neg how]
    cases target with
    | none => exact .syncReply i call t none rest s s' h how'
    | some b =>
      by_cases hs : s' = .ok
      · subst hs
        exact .syncFlush i call t b rest s h how'
      · simp only [hs, if_false]
        exact .syncReply i call t (some b) rest s s' h how'

theorem flush_moves {a : ℕ} (h : pick p.tasks i = some (.flushing a b after, rest)) :
    Moves session p (.flush i) (p.flush a b after rest).1 (p.flush a b after rest).2 := by
  unfold Proc.flush flushExcessBinderRefs
  by_cases hrem : b.isRemote
  · rw [if_pos hrem]
    exact .flushed i a b after rest h
  by_cases hterm : p.state.mTerminated
  · rw [if_neg hrem, if_pos hterm]
    exact .flushFailed i a b after rest h
  have ht : p.state.mTerminated = false := by simpa using hterm
  rw [if_neg hrem, if_neg hterm]
  cases hn : p.state.node? a with
  | none => exact .abort _ _ (.flushDeleted i a b after rest h ht hn)
  | some n =>
    dsimp only
    split_ifs with hb hs hr
    · exact .abort _ _ (.flushInconsistent i a b after rest n h ht hn hb)
    · exact .abort _ _ (.flushNeverSent i a b after rest n h ht hn hs)
    · exact .flushDec i a b after rest n h ht hn (not_not.mp hb) hs
    · exact .flushed i a b after rest h

theorem sendDecStrongToTarget_cases (a : ℕ) (st : RpcState) :
    (∃ r, sendDecStrongToTarget a 0 st = .ok (r, st) ∧ (r = .deadObject ∨ r = .nothing) ∧
      (st.mTerminated = false → ∀ n, st.node? a = some n → n.timesRecd = 0)) ∨
    (st.mTerminated = false ∧
      ((st.node? a = none ∧ sendDecStrongToTarget a 0 st = .error .decUnknownAddress) ∨
      ∃ n, st.node? a = some n ∧
        ((∃ f, sendDecStrongToTarget a 0 st = .error f ∧ n.timesSent = 0 ∧
            ((f = .erasePendingAsync ∧ n.asyncTodo ≠ []) ∨ (f = .decOwned ∧ n.sentRef ≠ none))) ∨
          n.timesRecd ≠ 0 ∧ ∃ st', GivesBack st a n st' ∧
            sendDecStrongToTarget a 0 st = .ok (.send (n.timesRecd % 2 ^ 32), st')))) := by
  unfold sendDecStrongToTarget tryEraseNode
  by_cases ht : st.mTerminated
  · exact .inl ⟨.deadObject, by simp [ht], .inl rfl, by simp [ht]⟩
  cases hn : st.node? a with
  | none => exact .inr ⟨by simpa using ht, .inl ⟨rfl, by simp [ht]⟩⟩
  | some n =>
    by_cases hr : n.timesRecd = 0
    · exact .inl ⟨.nothing, by simp [ht, hr], .inr rfl, by simp [hr]⟩
    refine .inr ⟨by simpa using ht, .inr ⟨n, rfl, ?_⟩⟩
    by_cases hs : n.timesSent = 0
    · by_cases htodo : n.asyncTodo = []
      · cases href : n.sentRef with
        | none => exact .inr ⟨hr, _, .erased hs href htodo, by simp [ht, hr, hs, href, htodo]⟩
        | some => exact .inl ⟨.decOwned, by simp [ht, hr, hs, href, htodo], hs, .inr ⟨rfl, by simp⟩⟩
      · exact .inl ⟨.erasePendingAsync, by simp [ht, hr, hs, htodo], hs, .inl ⟨rfl, htodo⟩⟩
    · exact .inr ⟨hr, _, .kept hs, by simp [ht, hr, hs]⟩

theorem decToTarget_moves {a : ℕ} (h : pick p.tasks i = some (.decToTarget a b after, rest)) :
    Moves session p (.decStrong i) (p.decToTarget a b after rest).1 (p.decToTarget a b after rest).2 := by
  unfold Proc.decToTarget
  rcases sendDecStrongToTarget_cases a p.state with
    ⟨r, hs, rfl | rfl, -⟩ | ⟨ht, ⟨hn, hs⟩ | ⟨n, hn, ⟨f, hs, hsent, hf⟩ | ⟨hr, st, hg, hs⟩⟩⟩
  · rw [hs]
    exact .decFailed i a b after rest h
  · rw [hs]
    exact .decNothing i a b after rest h
  · rw [hs]
    exact .abort _ _ (.decUnknown i a b after rest h ht hn)
  · rw [hs]
    exact .abort _ _ (.decNeverSent i a b after rest n f h ht hn hsent hf)
  · rw [hs]
    exact .decSent i a b after rest n st h ht hn hr hg

theorem lastStrongRef_moves (h : pick p.tasks i = some (.lastStrongRef b, rest)) :
    Moves session p (.decStrong i) (p.lastStrongRef b rest).1 (p.lastStrongRef b rest).2 := by
  unfold Proc.lastStrongRef
  rcases sendDecStrongToTarget_cases b.rpcAddress p.state with
    ⟨r, hs, rfl | rfl, hr⟩ | ⟨ht, ⟨hn, hs⟩ | ⟨n, hn, ⟨f, hs, hsent, hf⟩ | ⟨hr, st, hg, hs⟩⟩⟩
  · rw [hs]
    exact .proxyNothing i b rest h hr
  · rw [hs]
    exact .proxyNothing i b rest h hr
  · rw [hs]
    exact .abort _ _ (.proxyUnknown i b rest h ht hn)
  · rw [hs]
    exact .abort _ _ (.proxyPending i b rest n f h ht hn hsent hf)
  · rw [hs]
    exact .proxySent i b rest n st h ht hn hr hg

theorem aborts_of_leaving {f : Fatal} (ha : a.leaving = some b)
    (hb : b ∈ p.held) (h : onBinderLeaving session b p.state = .error f) : Aborts session p a f := by
  obtain ⟨ht, ⟨id, x, rfl⟩, ⟨rfl, y, n, hn, hnb, hy⟩ | ⟨rfl, hall⟩⟩ := onBinderLeaving_error h
  · exact .mismatch a _ y n ha hb (by simp [Proc.ownProxy]) hn hnb hy
  · exact .withoutAddress a _ ha hb (by simp [Proc.ownProxy]) ht hall

theorem flatten_moves (hb : b ∈ p.held) :
    Moves session p (.flatten b) (p.flatten session b).1 (p.flatten session b).2 := by
  unfold Proc.flatten
  split
  · exact .abort _ _ (aborts_of_leaving rfl hb ‹_›)
  · exact .flattenFailed b
  · rename_i a st h
    refine .flattened b a st hb ?_
    obtain ⟨ht, ⟨n, hn, hnb, _, rfl⟩ | ⟨hloc, hn, hup, hall, i, rfl⟩⟩ := onBinderLeaving_ok h
    · exact .sent n ht hn hnb
    · exact .created i ht hloc hn hup hall

theorem isRemote_of_ownProxy (h : Proc.ownProxy session b) : b.isRemote := by
  cases b <;> simp_all [Proc.ownProxy, IBinder.isRemote]

theorem transact_moves (hb : b ∈ p.held) (hown : Proc.ownProxy session b) :
    Moves session p (.transact b code flags data reply) (p.transact session b code flags data reply).1
      (p.transact session b code flags data reply).2 := by
  unfold Proc.transact
  split
  · exact .abort _ _ (aborts_of_leaving rfl hb ‹_›)
  · exact .transactFailed b code flags data reply
  · rename_i a st h
    obtain ⟨ht, ⟨n, hn, hnb, haddr, rfl⟩ | ⟨hloc, _⟩⟩ := onBinderLeaving_ok h
    · exact .transacting b code flags data reply a n hb hown ht hn hnb (haddr (isRemote_of_ownProxy hown))
    · simp [isRemote_of_ownProxy hown] at hloc

theorem transactAddress_moves {a : ℕ} (h : pick p.tasks i = some (.transacting b a code flags data reply, rest)) :
    Moves session p (.transactAddress i call)
      (p.transactAddress session b a code flags data reply call rest).1
      (p.transactAddress session b a code flags data reply call rest).2 := by
  unfold Proc.transactAddress
  dsimp only
  rcases transactAddress_cases a (flags &&& flagOneway ≠ 0) p.state with
    ⟨hs, ht, hn⟩ | ⟨r, hs, rfl | rfl | ⟨k, rfl, hz⟩⟩ | ⟨how, ha, ht, n, hn, hs⟩
  · rw [hs]
    exact .abort _ _ (.transactUnknown i call b a code flags data reply rest h ht hn)
  · rw [hs]
    exact .transactDead i call b a code flags data reply rest h
  · rw [hs]
    exact .transactExhausted i call b a code flags data reply rest h
  · rw [hs]
    dsimp only
    split_ifs with h1 h2 h3
    · exact .abort _ _ (.tooMuchData i call b a code flags data reply rest h h1)
    · obtain rfl := hz (by simpa using h2)
      exact .onewaySentZero i call b code flags k data reply rest h
    · exact .syncSent i call b a code flags k data reply rest h (not_not.mp h2)
    · obtain rfl : reply = false := by simpa using h3
      exact .abort _ _ (.noReply i call b a code flags data rest h (not_not.mp h2))
  · rw [hs]
    dsimp only
    have h2 : flags &&& flagOneway ≠ 0 := by simpa using how
    rw [if_pos h2]
    split_ifs with h1
    · exact .abort _ _ (.tooMuchData i call b a code flags data reply rest h h1)
    · exact .onewaySent i call b a code flags data reply rest n h ha ht hn h2

theorem clear_moves {refs : List IBinder} (h : pick p.tasks i = some (.shutdown refs, rest)) :
    Moves session p (.clear i) (p.clear refs rest).1 (p.clear refs rest).2 := by
  unfold Proc.clear Rpc.clear
  split_ifs with ht hne hall
  · obtain ⟨e, he⟩ := exists_mem_of_ne_nil _ hne
    exact .abort _ _ (.clearAgain i e.1 e.2 ht (OrdMap.find?_eq_some_iff.mpr he))
  · dsimp only
    rw [append_nil]
    exact .clearedAgain i refs rest h ht
  · exact .cleared i refs rest h (by simpa using ht)
  · simp only [all_eq_true, not_forall] at hall
    obtain ⟨e, he, hdead⟩ := hall
    exact .abort _ _ (.notOwned i e.1 e.2 (by simpa using ht) (OrdMap.find?_eq_some_iff.mpr he)
      fun hmem => hdead (alive_iff.mpr hmem))

theorem commandAction_cases (header : RpcWireHeader) (body : List UInt8) (call : ℕ) :
    commandAction header body call = none ∨ commandAction header body call = some .beginShutdown ∨
      (∃ t, commandAction header body call = some (.recvTransact t call)) ∨
      ∃ a k, commandAction header body call = some (.recvDecStrong a k) := by
  unfold commandAction
  split_ifs <;> simp

theorem act_moves (hc : ∀ header body call, a ≠ .command header body call) (h : p.act session a = some r) :
    Moves session p a r.1 r.2 := by
  cases a with
  | command header body call => exact absurd rfl (hc header body call)
  | recvTransact t call => cases h; exact recvTransact_moves t call
  | recvDecStrong a k => cases h; exact recvDecStrong_moves a k
  | unflatten a => cases h; exact unflatten_moves a
  | recvReply i =>
    simp only [Proc.act] at h
    split at h <;> cases h
    · exact .replied i _ _ _ ‹_›
    · exact .repliedSpecial i _ _ ‹_›
  | interrupt i =>
    simp only [Proc.act] at h
    split at h <;> cases h
    exact .interrupted i _ _ _ ‹_›
  | checkOneway =>
    simp only [Proc.act] at h
    split at h <;> cases h
    exact checkOneway_moves ‹_›
  | finish i s =>
    simp only [Proc.act] at h
    split at h <;> cases h
    · exact finish_moves (.executed i s ‹_›)
    · exact finish_moves (.failed i s ‹_›)
  | flush =>
    simp only [Proc.act] at h
    split at h <;> cases h
    exact flush_moves ‹_›
  | decStrong =>
    simp only [Proc.act] at h
    split at h <;> cases h
    · exact decToTarget_moves ‹_›
    · exact lastStrongRef_moves ‹_›
  | wouldBlock i =>
    simp only [Proc.act] at h
    split at h <;> cases h
    · exact .blocked i _ _ _ _ ‹_›
    · exact .proxyBlocked i _ _ ‹_›
  | flatten =>
    simp only [Proc.act] at h
    split_ifs at h with hb
    cases h
    exact flatten_moves hb
  | transact =>
    simp only [Proc.act] at h
    split_ifs at h with hb
    cases h
    exact transact_moves hb.1 hb.2
  | transactAddress =>
    simp only [Proc.act] at h
    split at h <;> cases h
    exact transactAddress_moves ‹_›
  | transactSpecial code call => cases h; exact .specialSent code call
  | release i =>
    simp only [Proc.act] at h
    split at h <;> cases h
    exact .released i _ _ ‹_›
  | newBinder b =>
    simp only [Proc.act] at h
    split_ifs at h with hb
    cases h
    exact .made b hb.1 (by simpa using hb.2)
  | hold b =>
    simp only [Proc.act] at h
    split_ifs at h with hb
    cases h
    exact .copied b (alive_iff.mp hb)
  | drop b =>
    simp only [Proc.act] at h
    split_ifs at h with hb
    cases h
    exact .dropped b hb
  | beginShutdown => cases h; exact .shuttingDown
  | clear =>
    simp only [Proc.act] at h
    split at h <;> cases h
    exact clear_moves ‹_›

/-- A command acts as the action it resolves to. -/
theorem step_moves (h : p.step session a = some r) : p.aborted = none ∧
      ((a.resolve = none ∧ r = (p, [])) ∨ ∃ a', a.resolve = some a' ∧ Moves session p a' r.1 r.2) := by
  unfold Proc.step at h
  split_ifs at h with hab
  refine ⟨hab, ?_⟩
  by_cases hc : ∀ header body call, a ≠ .command header body call
  · have hres : a.resolve = some a := by
      cases a <;> first | rfl | exact absurd rfl (hc _ _ _)
    exact .inr ⟨a, hres, act_moves hc h⟩
  · push Not at hc
    obtain ⟨header, body, call, rfl⟩ := hc
    have hr : p.command session header body call = r := Option.some.inj h
    unfold Proc.command at hr
    rcases commandAction_cases header body call with hca | hca | ⟨t, hca⟩ | ⟨x, k, hca⟩
    · exact .inl ⟨hca, by rw [← hr, hca]⟩
    all_goals
      refine .inr ⟨_, hca, ?_⟩
      rw [← hr, hca]
    · exact .shuttingDown
    · exact recvTransact_moves t call
    · exact recvDecStrong_moves x k

theorem step_moves_of_resolve (hres : a.resolve = some a)
    (h : p.step session a = some r) : p.aborted = none ∧ Moves session p a r.1 r.2 := by
  obtain ⟨hab, ⟨hnone, _⟩ | ⟨a', ha', hm⟩⟩ := step_moves h
  · simp [hres] at hnone
  · cases hres.symm.trans ha'
    exact ⟨hab, hm⟩

end Binder.Rpc
