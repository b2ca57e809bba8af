import Binder.Lib.Pick
import Binder.Rpc.State

/-! One process at one end of an RPC session. Its threads are tasks, each stopped between
two critical sections of the code it runs; an action is one section of one thread, a
command that arrives, or a step of the program around the library. -/
namespace Binder.Rpc
open Binder.Lib

/-- What a thread does after `flushExcessBinderRefs`. -/
inductive After
  | done
  | reply (call : ℕ)
  | deliver
  deriving DecidableEq, Repr

/-- A thread between two sections, with the `sp<>`s it holds.
`entered`: `processTransactInternal` before it orders a oneway transaction.
`executing`: inside `target->transact`; `failed`: the same with a status that is not `OK`.
`flushing`, `decToTarget`: before the sections of `flushExcessBinderRefs` and of the
`sendDecStrongToTarget` it calls. `lastStrongRef`: `BpBinder::onLastStrongRef` before its
`sendDecStrong`. `transacting`: between `onBinderLeaving` and `transactAddress`. `waiting`:
in `waitForReply`, without a proxy for the transactions of `getRootObject` and the like. `releasing`: about to drop a reference taken out of the table.
`shutdown`: in `shutdownAndWait` before `clear`. -/
inductive Task
  | entered (t : RpcWireTransaction) (target : IBinder)
  | executing (t : RpcWireTransaction) (target : Option IBinder) (call : ℕ)
  | failed (t : RpcWireTransaction) (target : Option IBinder) (call : ℕ)
  | flushing (address : ℕ) (binder : IBinder) (after : After)
  | decToTarget (address : ℕ) (binder : IBinder) (after : After)
  | lastStrongRef (proxy : IBinder)
  | transacting (proxy : IBinder) (address code flags : ℕ) (data : List UInt8) (reply : Bool)
  | waiting (proxy : Option IBinder) (call : ℕ)
  | releasing (binder : IBinder)
  | shutdown (refs : List IBinder)
  deriving DecidableEq, Repr

def Task.refs : Task → List IBinder
  | entered _ b => [b]
  | executing _ b _ => b.toList
  | failed _ b _ => b.toList
  | flushing _ b _ => [b]
  | decToTarget _ b _ => [b]
  | lastStrongRef _ => []
  | transacting b .. => [b]
  | waiting b _ => b.toList
  | releasing b => [b]
  | shutdown bs => bs

def BinderNode.refs (node : BinderNode) : List IBinder :=
  node.sentRef.toList ++ node.asyncTodo.map (·.ref)

def RpcState.refs (st : RpcState) : List IBinder :=
  st.mNodeForAddress.entries.flatMap fun e => e.2.refs

/-- `held` are the references of the program around the library, `nextBinder` the identity
of the next object. -/
structure Proc where
  state : RpcState := {}
  held : List IBinder := []
  tasks : List Task := []
  nextBinder : ℕ := 0
  aborted : Option Fatal := none
  deriving DecidableEq

/-- What an action sends, flattens or starts. `call` pairs a reply with its transaction. -/
inductive Out
  | transact (t : RpcWireTransaction) (call : ℕ)
  | reply (call : ℕ)
  | decStrong (address amount : ℕ)
  | flattened (address : ℕ)
  | execute (t : RpcWireTransaction) (target : IBinder)
  deriving DecidableEq, Repr

/-- `interrupt`: the transport fails a thread in `waitForReply`. `wouldBlock`: no connection is
free for a reference-count command. -/
inductive Action
  | command (header : RpcWireHeader) (body : List UInt8) (call : ℕ)
  | recvTransact (t : RpcWireTransaction) (call : ℕ)
  | recvDecStrong (address amount : ℕ)
  | recvReply (i : ℕ)
  | interrupt (i : ℕ)
  | unflatten (address : ℕ)
  | checkOneway (i : ℕ)
  | finish (i : ℕ) (status : Status)
  | flush (i : ℕ)
  | decStrong (i : ℕ)
  | wouldBlock (i : ℕ)
  | flatten (b : IBinder)
  | transact (b : IBinder) (code flags : ℕ) (data : List UInt8) (reply : Bool)
  | transactAddress (i call : ℕ)
  | transactSpecial (code call : ℕ)
  | release (i : ℕ)
  | newBinder (b : IBinder)
  | hold (b : IBinder)
  | drop (b : IBinder)
  | beginShutdown
  | clear (i : ℕ)
  deriving DecidableEq, Repr

def kMaxTransactionAllocation : ℕ := 100 * 1000

/-- What `processCommand` does with a command whose body has arrived as far as the peer sent
it. A body that is too large is left unread. -/
def commandAction (header : RpcWireHeader) (body : List UInt8) (call : ℕ) : Option Action :=
  if header.command ≠ commandTransact ∧ header.command ≠ commandDecStrong then some .beginShutdown
  else if header.bodySize > kMaxTransactionAllocation then none
  else if body.length ≠ header.bodySize then some .beginShutdown
  else if header.command = commandTransact then
    if header.bodySize < sizeofWireTransaction then some .beginShutdown
    else some (.recvTransact (.decode body) call)
  else if header.bodySize ≠ sizeofDecStrong then some .beginShutdown
  else some (.recvDecStrong (RpcDecStrong.decode body).address (RpcDecStrong.decode body).amount)

/-- The action behind a command; every other action stands for itself. -/
def Action.resolve : Action → Option Action
  | .command header body call => commandAction header body call
  | a => some a

namespace Proc

/-- Every strong reference to a binder object of this process. -/
def refs (p : Proc) : List IBinder := p.held ++ p.tasks.flatMap Task.refs ++ p.state.refs

/-- `wp<>::promote` succeeds while some strong reference is left: an RPC proxy cannot be
revived (`BpBinder::onIncStrongAttempted`). -/
def alive (p : Proc) (b : IBinder) : Bool := b ∈ p.refs

def abort (p : Proc) (f : Fatal) : Proc × List Out := ({ p with aborted := some f }, [])

/-- A proxy of this session, whose last reference is reported to the session. -/
def ownProxy (session : Session) : IBinder → Bool
  | .rpcProxy _ s _ => s = session.id
  | _ => false

/-- After a reference to `b` was dropped: the last one starts `onLastStrongRef`. -/
def settle (session : Session) (b : IBinder) (p : Proc) : Proc :=
  if ownProxy session b ∧ ¬ p.alive b then { p with tasks := .lastStrongRef b :: p.tasks } else p

@[simps]
def addTask (p : Proc) (t : Task) : Proc := { p with tasks := t :: p.tasks }

/-- After `onBinderEntering`, which may have made a new object. -/
@[simps]
def enter (p : Proc) (st : RpcState) : Proc := { p with state := st, nextBinder := p.nextBinder + 1 }

def recvTransact (session : Session) (t : RpcWireTransaction) (call : ℕ) (p : Proc) : Proc × List Out :=
  if t.address = 0 then (p.addTask (.executing t none call), [])
  else match onBinderEntering session p.alive p.nextBinder t.address p.state with
    | (.error _, st) => ({ p with state := st }.addTask (.failed t none call), [])
    | (.ok none, st) => ((p.enter st).addTask (.shutdown []), [])
    | (.ok (some b), st) =>
      if b.isRemote then ((p.enter st).addTask (.shutdown [b]), [])
      else if t.oneway then ((p.enter st).addTask (.entered t b), [])
      else ((p.enter st).addTask (.executing t (some b) call), [.execute t b])

def recvDecStrong (address amount : ℕ) (p : Proc) : Proc × List Out :=
  match processDecStrong p.alive address amount p.state with
  | .error f => p.abort f
  | .ok (.ignored, _) => (p, [])
  | .ok (.shutdown, _) => (p.addTask (.shutdown []), [])
  | .ok (.released none, st) => ({ p with state := st }, [])
  | .ok (.released (some b), st) => ({ p with state := st }.addTask (.releasing b), [])

/-- `Parcel::unflattenBinder` up to the section of its `flushExcessBinderRefs`, which a
remote binder leaves at once and a null one does not survive. -/
def unflatten (session : Session) (address : ℕ) (p : Proc) : Proc × List Out :=
  match onBinderEntering session p.alive p.nextBinder address p.state with
  | (.error _, st) => ({ p with state := st }, [])
  | (.ok none, _) => p.abort .nullBinder
  | (.ok (some b), st) =>
    if b.isRemote then ({ p.enter st with held := b :: p.held }, [])
    else ((p.enter st).addTask (.flushing address b .deliver), [])

def command (session : Session) (header : RpcWireHeader) (body : List UInt8) (call : ℕ) (p : Proc) :
    Proc × List Out :=
  match commandAction header body call with
  | some (.recvTransact t call) => recvTransact session t call p
  | some (.recvDecStrong address amount) => recvDecStrong address amount p
  | some _ => (p.addTask (.shutdown []), [])
  | none => (p, [])

def checkOneway (t : RpcWireTransaction) (b : IBinder) (rest : List Task) (p : Proc) : Proc × List Out :=
  match checkAsyncNumber p.alive t b p.state with
  | .error f => p.abort f
  | .ok (.execute, _) => ({ p with tasks := .executing t (some b) 0 :: rest }, [.execute t b])
  | .ok (.invalid, _) => ({ p with tasks := .failed t (some b) 0 :: rest }, [])
  | .ok (.queued, st) => ({ p with state := st, tasks := rest }, [])
  | .ok (.shutdown, st) => ({ p with state := st, tasks := .shutdown [b] :: rest }, [])

/-- `processTransactInternal` after `target->transact`: the next oneway transaction, the
excess references, the reply. -/
def finish (t : RpcWireTransaction) (target : Option IBinder) (call : ℕ) (status : Status)
    (rest : List Task) (p : Proc) : Proc × List Out :=
  if t.oneway then
    match progressAsync t.address target p.state with
    | .error f => p.abort f
    | .ok (.finished, st) => ({ p with state := st, tasks := rest }, [])
    | .ok (.shutdown, _) => ({ p with tasks := .shutdown target.toList :: rest }, [])
    | .ok (.next todo, st) => ({ p with state := st, tasks := .entered todo.data todo.ref :: rest }, [])
    | .ok (.flush, st) =>
      match target with
      | some b =>
        if status = .ok then ({ p with state := st, tasks := .flushing t.address b .done :: rest }, [])
        else ({ p with state := st, tasks := rest }, [])
      | none => ({ p with state := st, tasks := rest }, [])
  else
    match target with
    | some b =>
      if status = .ok then ({ p with tasks := .flushing t.address b (.reply call) :: rest }, [])
      else ({ p with tasks := rest }, [.reply call])
    | none => ({ p with tasks := rest }, [.reply call])

/-- The thread goes on after its references were flushed. -/
def complete (b : IBinder) (rest : List Task) (p : Proc) : After → Proc × List Out
  | .done => ({ p with tasks := rest }, [])
  | .reply call => ({ p with tasks := rest }, [.reply call])
  | .deliver => ({ p with tasks := rest, held := b :: p.held }, [])

/-- The thread goes on after the flush failed: `unflattenBinder` delivers nothing. -/
def completeFailed (rest : List Task) (p : Proc) : After → Proc × List Out
  | .reply call => ({ p with tasks := rest }, [.reply call])
  | _ => ({ p with tasks := rest }, [])

def flush (address : ℕ) (b : IBinder) (after : After) (rest : List Task) (p : Proc) : Proc × List Out :=
  match flushExcessBinderRefs address b p.state with
  | .error f => p.abort f
  | .ok .ok => complete b rest p after
  | .ok .deadObject => completeFailed rest p after
  | .ok .sendDecStrong => ({ p with tasks := .decToTarget address b after :: rest }, [])

def decToTarget (address : ℕ) (b : IBinder) (after : After) (rest : List Task) (p : Proc) : Proc × List Out :=
  match sendDecStrongToTarget address 0 p.state with
  | .error f => p.abort f
  | .ok (.deadObject, _) => completeFailed rest p after
  | .ok (.nothing, _) => complete b rest p after
  | .ok (.send n, st) =>
    let r := complete b rest { p with state := st } after
    (r.1, .decStrong address n :: r.2)

def lastStrongRef (b : IBinder) (rest : List Task) (p : Proc) : Proc × List Out :=
  match sendDecStrongToTarget b.rpcAddress 0 p.state with
  | .error f => p.abort f
  | .ok (.send n, st) => ({ p with state := st, tasks := rest }, [.decStrong b.rpcAddress n])
  | .ok (_, _) => ({ p with tasks := rest }, [])

def flatten (session : Session) (b : IBinder) (p : Proc) : Proc × List Out :=
  match onBinderLeaving session b p.state with
  | .error f => p.abort f
  | .ok (.error _, _) => (p, [])
  | .ok (.ok address, st) => ({ p with state := st }, [.flattened address])

/-- `RpcState::transact` up to the unlock in `onBinderLeaving`. -/
def transact (session : Session) (b : IBinder) (code flags : ℕ) (data : List UInt8) (reply : Bool)
    (p : Proc) : Proc × List Out :=
  match onBinderLeaving session b p.state with
  | .error f => p.abort f
  | .ok (.error _, _) => (p, [])
  | .ok (.ok address, st) =>
    ({ p with state := st }.addTask (.transacting b address code flags data reply), [])

def transactAddress (session : Session) (b : IBinder) (address code flags : ℕ) (data : List UInt8)
    (reply : Bool) (call : ℕ) (rest : List Task) (p : Proc) : Proc × List Out :=
  let oneway := flags &&& flagOneway ≠ 0
  match Rpc.transactAddress address oneway p.state with
  | .error f => p.abort f
  | .ok (.deadObject, _) => (settle session b { p with tasks := rest }, [])
  | .ok (.shutdown, _) => ({ p with tasks := .shutdown [b] :: rest }, [])
  | .ok (.asyncNumber n, st) =>
    if 2 ^ 31 - 1 - sizeofWireHeader - sizeofWireTransaction < data.length then
      p.abort .transactTooMuchData
    else if oneway then
      (settle session b { p with state := st, tasks := rest }, [.transact ⟨address, code, flags, n, data⟩ call])
    else if ¬ reply then p.abort .transactNoReply
    else ({ p with state := st, tasks := .waiting (some b) call :: rest },
      [.transact ⟨address, code, flags, n, data⟩ call])

def clear (refs : List IBinder) (rest : List Task) (p : Proc) : Proc × List Out :=
  match Rpc.clear p.alive p.state with
  | .error f => p.abort f
  | .ok (bs, st) => ({ p with state := st, tasks := (refs ++ bs).map .releasing ++ rest }, [])

/-- One step of a process that has not aborted. -/
def act (session : Session) (p : Proc) : Action → Option (Proc × List Out)
  | .command header body call => some (command session header body call p)
  | .recvTransact t call => some (recvTransact session t call p)
  | .recvDecStrong address amount => some (recvDecStrong address amount p)
  | .unflatten address => some (unflatten session address p)
  | .recvReply i =>
    match pick p.tasks i with
    | some (.waiting (some b) _, rest) => some (settle session b { p with tasks := rest }, [])
    | some (.waiting none _, rest) => some ({ p with tasks := rest }, [])
    | _ => none
  | .interrupt i =>
    match pick p.tasks i with
    | some (.waiting b _, rest) => some ({ p with tasks := .shutdown b.toList :: rest }, [])
    | _ => none
  | .checkOneway i =>
    match pick p.tasks i with
    | some (.entered t b, rest) => some (checkOneway t b rest p)
    | _ => none
  | .finish i status =>
    match pick p.tasks i with
    | some (.executing t target call, rest) => some (finish t target call status rest p)
    | some (.failed t target call, rest) => some (finish t target call .badValue rest p)
    | _ => none
  | .flush i =>
    match pick p.tasks i with
    | some (.flushing address b after, rest) => some (flush address b after rest p)
    | _ => none
  | .decStrong i =>
    match pick p.tasks i with
    | some (.decToTarget address b after, rest) => some (decToTarget address b after rest p)
    | some (.lastStrongRef b, rest) => some (lastStrongRef b rest p)
    | _ => none
  | .wouldBlock i =>
    match pick p.tasks i with
    | some (.decToTarget _ _ after, rest) => some (completeFailed rest p after)
    | some (.lastStrongRef _, rest) => some ({ p with tasks := rest }, [])
    | _ => none
  | .flatten b => if b ∈ p.held then some (flatten session b p) else none
  | .transact b code flags data reply =>
    if b ∈ p.held ∧ ownProxy session b then some (transact session b code flags data reply p) else none
  | .transactAddress i call =>
    match pick p.tasks i with
    | some (.transacting b address code flags data reply, rest) =>
      some (transactAddress session b address code flags data reply call rest p)
    | _ => none
  | .transactSpecial code call =>
    some (p.addTask (.waiting none call), [.transact ⟨0, code, 0, 0, []⟩ call])
  | .release i =>
    match pick p.tasks i with
    | some (.releasing b, rest) => some (settle session b { p with tasks := rest }, [])
    | _ => none
  | .newBinder b =>
    if b.id = p.nextBinder ∧ ¬ ownProxy session b then
      some ({ p with held := b :: p.held, nextBinder := p.nextBinder + 1 }, [])
    else none
  | .hold b => if p.alive b then some ({ p with held := b :: p.held }, []) else none
  | .drop b =>
    if b ∈ p.held then some (settle session b { p with held := p.held.erase b }, []) else none
  | .beginShutdown => some (p.addTask (.shutdown []), [])
  | .clear i =>
    match pick p.tasks i with
    | some (.shutdown refs, rest) => some (clear refs rest p)
    | _ => none

def step (session : Session) (p : Proc) (a : Action) : Option (Proc × List Out) :=
  if p.aborted = none then p.act session a else none

/-! ### Fields after the small updates -/

section Fields

variable (session : Session) (b : IBinder) (rest : List Task) (p : Proc) (after : After)

@[simp] theorem settle_state : (settle session b p).state = p.state := by unfold settle; split_ifs <;> rfl
@[simp] theorem settle_held : (settle session b p).held = p.held := by unfold settle; split_ifs <;> rfl
@[simp] theorem settle_nextBinder : (settle session b p).nextBinder = p.nextBinder := by
  unfold settle; split_ifs <;> rfl
@[simp] theorem settle_aborted : (settle session b p).aborted = p.aborted := by
  unfold settle; split_ifs <;> rfl

@[simp] theorem complete_state : (complete b rest p after).1.state = p.state := by cases after <;> rfl
@[simp] theorem complete_tasks : (complete b rest p after).1.tasks = rest := by cases after <;> rfl
@[simp] theorem complete_nextBinder : (complete b rest p after).1.nextBinder = p.nextBinder := by
  cases after <;> rfl
@[simp] theorem complete_aborted : (complete b rest p after).1.aborted = p.aborted := by
  cases after <;> rfl

theorem complete_outs : (complete b rest p after).2 = [] ∨ ∃ call, (complete b rest p after).2 = [.reply call] := by
  cases after <;> simp [complete]

theorem completeFailed_outs :
    (completeFailed rest p after).2 = [] ∨ ∃ call, (completeFailed rest p after).2 = [.reply call] := by
  cases after <;> simp [completeFailed]

@[simp] theorem completeFailed_state : (completeFailed rest p after).1.state = p.state := by
  cases after <;> rfl
@[simp] theorem completeFailed_held : (completeFailed rest p after).1.held = p.held := by
  cases after <;> rfl
@[simp] theorem completeFailed_tasks : (completeFailed rest p after).1.tasks = rest := by
  cases after <;> rfl
@[simp] theorem completeFailed_nextBinder : (completeFailed rest p after).1.nextBinder = p.nextBinder := by
  cases after <;> rfl
@[simp] theorem completeFailed_aborted : (completeFailed rest p after).1.aborted = p.aborted := by
  cases after <;> rfl

end Fields

end Proc

end Binder.Rpc
