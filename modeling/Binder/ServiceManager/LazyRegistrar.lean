import Binder.ServiceManager.Alternation

/-! A process with a lazy service registrar, composed with service manager. Calls to service
manager are synchronous and other processes act between two of them; `onClients` messages are
oneway and are handled in order, when `mMutex` is free. -/
namespace Binder

open Lib ServiceManager

namespace LazyRegistrar

/-- `ClientCounterCallbackImpl::Service`. -/
structure Registration where
  service : Option IBinder
  allowIsolated : Bool
  dumpFlags : BitVec 32
  clients : Bool := false
  registered : Bool := true
  deriving DecidableEq

end LazyRegistrar

/-- `ClientCounterCallbackImpl`; of the active services callback only whether it is set. -/
structure LazyRegistrar where
  mNumConnectedServices : ℕ
  mPreviousHasClients : Option Bool
  mRegisteredServices : OrdMap ServiceName LazyRegistrar.Registration
  mForcePersist : Bool
  mActiveServicesCallback : Bool
  deriving DecidableEq

namespace LazyRegistrar

/-- Who called `tryUnregisterLocked` or `reRegisterLocked`: a shutdown, or the active services
callback, called with the given value. -/
inductive Caller
  | shutdown
  | callback (hasClients : Bool)
  deriving DecidableEq

/-- Where the thread that holds `mMutex` is: at a call to service manager, or inside the active
services callback. -/
inductive Task
  | idle
  | addService (service : Option IBinder) (name : ServiceName) (allowIsolated : Bool)
      (dumpFlags : BitVec 32)
  | registerClientCallback (service : Option IBinder) (name : ServiceName) (allowIsolated : Bool)
      (dumpFlags : BitVec 32)
  | tryUnregister (todo : List ServiceName) (caller : Caller)
  | reRegister (todo : List ServiceName) (caller : Caller)
  | activeServices (hasClients : Bool)
  | exited
  | aborted
  deriving DecidableEq

def init : LazyRegistrar := ⟨0, none, .empty, false, false⟩

def setRegistration (r : LazyRegistrar) (name : ServiceName) (e : Registration) : LazyRegistrar :=
  { r with mRegisteredServices := r.mRegisteredServices.insert name e }

/-- The loop of `tryUnregisterLocked` before its next call. -/
def tryUnregisterFrom (todo : List ServiceName) (caller : Caller) : Task :=
  match todo, caller with
  | [], .shutdown => .exited
  | [], .callback hasClients => .activeServices hasClients
  | _, _ => .tryUnregister todo caller

/-- The loop of `reRegisterLocked` before its next call: registered entries are skipped. -/
def reRegisterFrom (r : LazyRegistrar) (todo : List ServiceName) (caller : Caller) : Task :=
  match todo.dropWhile fun name => (r.mRegisteredServices.find? name).any (·.registered), caller with
  | [], .shutdown => .idle
  | [], .callback hasClients => .activeServices hasClients
  | rest, _ => .reRegister rest caller

def tryUnregisterLocked (r : LazyRegistrar) (caller : Caller) : Task :=
  tryUnregisterFrom r.mRegisteredServices.keys caller

def reRegisterLocked (r : LazyRegistrar) (caller : Caller) : Task :=
  r.reRegisterFrom r.mRegisteredServices.keys caller

/-- The end of `maybeTryShutdownLocked`. -/
def afterActiveServices (r : LazyRegistrar) (handledInCallback : Bool) : Task :=
  if !handledInCallback && r.mNumConnectedServices == 0 then r.tryUnregisterLocked .shutdown
  else .idle

def maybeTryShutdownLocked (r : LazyRegistrar) : Task :=
  if r.mForcePersist then .idle
  else
    let hasClients := r.mNumConnectedServices != 0
    if r.mActiveServicesCallback && some hasClients ≠ r.mPreviousHasClients then
      .activeServices hasClients
    else r.afterActiveServices false

/-- The first registration of the binder, in the order of the names. -/
def assertRegisteredService (r : LazyRegistrar) (service : Option IBinder) : Option (ServiceName × Registration) :=
  if service = none then none
  else r.mRegisteredServices.entries.find? fun e => e.2.service = service

/-- `none` is one of the fatal checks. -/
def onClients (r : LazyRegistrar) (service : Option IBinder) (clients : Bool) : Option (LazyRegistrar × Task) :=
  match r.assertRegisteredService service with
  | none => none
  | some (name, registered) =>
    if registered.clients = clients then none
    else
      let r := r.setRegistration name { registered with clients := clients }
      let r := { r with mNumConnectedServices :=
        r.mRegisteredServices.entries.countP fun e => e.2.clients }
      some (r, r.maybeTryShutdownLocked)

/-- The call to service manager at which the task stands; `self` is this callback object. -/
def request (self : IBinder) (r : LazyRegistrar) : Task → Option Call
  | .addService service name allowIsolated dumpFlags =>
    some (.addService name service allowIsolated dumpFlags)
  | .registerClientCallback service name _ _ =>
    some (.registerClientCallback name service (some self))
  | .tryUnregister (name :: _) _ =>
    (r.mRegisteredServices.find? name).map fun e => .tryUnregisterService name e.service
  | .reRegister (name :: _) _ =>
    (r.mRegisteredServices.find? name).map fun e =>
      .addService name e.service e.allowIsolated e.dumpFlags
  | _ => none

/-- What follows the reply to that call. -/
def resume (r : LazyRegistrar) (isOk : Bool) : Task → LazyRegistrar × Task
  | .addService service name allowIsolated dumpFlags =>
    if !isOk then (r, .idle)
    else if (r.mRegisteredServices.find? name).isSome then (r, .idle)
    else (r, .registerClientCallback service name allowIsolated dumpFlags)
  | .registerClientCallback service name allowIsolated dumpFlags =>
    if !isOk then (r, .idle)
    else (r.setRegistration name { service, allowIsolated, dumpFlags }, .idle)
  | .tryUnregister (name :: rest) caller =>
    if !isOk then
      (r, match caller with
        | .shutdown => r.reRegisterLocked .shutdown
        | .callback hasClients => .activeServices hasClients)
    else match r.mRegisteredServices.find? name with
      | none => (r, .idle)
      | some e =>
        (r.setRegistration name { e with registered := false }, tryUnregisterFrom rest caller)
  | .reRegister (name :: rest) caller =>
    if !isOk then (r, .aborted)
    else match r.mRegisteredServices.find? name with
      | none => (r, .idle)
      | some e =>
        let r := r.setRegistration name { e with registered := true }
        (r, r.reRegisterFrom rest caller)
  | task => (r, task)

/-- A message to the callback object. The name for which it was sent is not part of it. -/
structure Message where
  name : ServiceName
  service : Option IBinder
  clients : Bool
  deriving DecidableEq

/-- The messages sent to `self`, the oldest first. -/
def sentTo (self : IBinder) (h : List Event) : List Message :=
  h.filterMap fun
    | .onClients cb name binder v => if cb.callback = some self then some ⟨name, binder, v⟩ else none
    | _ => none

/-- The process has the callback object `self` and the given pid; the first `handled` messages
sent to it have been handled. -/
structure System where
  self : IBinder
  pid : ℤ
  manager : ServiceManager
  registrar : LazyRegistrar
  task : Task
  handled : ℕ

def System.start (self : IBinder) (pid : ℤ) : System :=
  ⟨self, pid, .init, .init, .idle, 0⟩

/-- What other processes, the kernel and the timer of service manager may do: the callback object
is known to service manager only, and it does not die while its process runs. -/
def System.IsOther (s : System) : ServiceManager.Action → Prop
  | .call env (.registerClientCallback _ _ cb) => env.ctx.debugPid ≠ s.pid ∧ cb ≠ some s.self
  | .call env _ => env.ctx.debugPid ≠ s.pid
  | .binderDied who => who ≠ s.self
  | .handleClientCallbacks _ => True

instance (s : System) (a : ServiceManager.Action) : Decidable (s.IsOther a) := by
  induction a using ServiceManager.Action.casesOn with
  | call _ c => induction c using ServiceManager.Call.casesOn <;> dsimp only [System.IsOther] <;> infer_instance
  | _ => dsimp only [System.IsOther]; infer_instance

inductive Action
  | other (a : ServiceManager.Action)
  | registerService (service : Option IBinder) (name : ServiceName) (allowIsolated : Bool)
      (dumpFlags : BitVec 32)
  | forcePersist (persist : Bool)
  | setActiveServicesCallback (isSet : Bool)
  | request (env : Env)
  | onClients
  | callbackTryUnregister
  | callbackReRegister
  | callbackReturns (handled : Bool)

/-- The oldest message that was not handled yet. -/
def System.next? (s : System) : Option Message := (sentTo s.self s.manager.history)[s.handled]?

/-- The action of service manager that an action of the system performs. -/
def System.managerAction (s : System) : Action → Option ServiceManager.Action
  | .other a => some a
  | .request env => (s.registrar.request s.self s.task).map (.call env)
  | _ => none

/-- The registrar's pending call to service manager, up to the next one. -/
def System.performRequest (s : System) (env : Env) : Option System := do
  let c ← s.registrar.request s.self s.task
  let (reply, m) ← s.manager.transact env c
  let next := s.registrar.resume (decide (reply = .ok)) s.task
  some { s with manager := m, registrar := next.1, task := next.2 }

/-- `none` if there is no message, or if the message runs into a fatal check. -/
def System.handleMessage (s : System) : Option System := do
  let m ← s.next?
  let (r, task) ← s.registrar.onClients m.service m.clients
  some { s with registrar := r, task := task, handled := s.handled + 1 }

def System.step (s : System) : Action → Option System
  | .other a =>
    if s.IsOther a then (s.manager.step a).map fun m => { s with manager := m } else none
  | .registerService service name allowIsolated dumpFlags =>
    if s.task = .idle then some { s with task := .addService service name allowIsolated dumpFlags }
    else none
  | .forcePersist persist =>
    if s.task = .idle then
      let r := { s.registrar with mForcePersist := persist }
      some { s with registrar := r, task := if persist then .idle else r.maybeTryShutdownLocked }
    else none
  | .setActiveServicesCallback isSet =>
    if s.task = .idle then
      some { s with registrar := { s.registrar with mActiveServicesCallback := isSet } }
    else none
  | .request env => if env.ctx.debugPid = s.pid then s.performRequest env else none
  | .onClients => if s.task = .idle then s.handleMessage else none
  | .callbackTryUnregister =>
    match s.task with
    | .activeServices hasClients =>
      some { s with task := s.registrar.tryUnregisterLocked (.callback hasClients) }
    | _ => none
  | .callbackReRegister =>
    match s.task with
    | .activeServices hasClients =>
      some { s with task := s.registrar.reRegisterLocked (.callback hasClients) }
    | _ => none
  | .callbackReturns handled =>
    match s.task with
    | .activeServices hasClients =>
      let r := { s.registrar with mPreviousHasClients := some hasClients }
      some { s with registrar := r, task := r.afterActiveServices handled }
    | _ => none

end LazyRegistrar

end Binder
