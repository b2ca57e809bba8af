import Binder.Lib.OrdMap
import Mathlib.Algebra.Group.Nat.Defs
import Mathlib.Data.List.Lex
import Mathlib.Order.Fin.Basic

/-! Service manager: the three maps it keeps by service name and the calls that edit them.
What a call reads from outside (the caller, the access decisions, the kernel) is its `Env`. -/
namespace Binder

open Lib

/-- A `std::string`, ordered as `std::map` orders it. -/
abbrev ServiceName := List (Fin 256)

namespace ServiceManager

/-- The identity of a binder object; services and callbacks are compared by it. -/
abbrev IBinder := ℕ

def AID_APP : ℕ := 10000
def AID_ISOLATED_START : ℕ := 90000
def AID_ISOLATED_END : ℕ := 99999

def multiuserGetAppId (uid : ℕ) : ℕ := uid % 100000

def isIsolated (uid : ℕ) : Bool :=
  AID_ISOLATED_START ≤ multiuserGetAppId uid && multiuserGetAppId uid ≤ AID_ISOLATED_END

inductive ExceptionCode
  | none
  | security
  | illegalArgument
  | nullPointer
  | illegalState
  | unsupportedOperation
  deriving DecidableEq, Repr

/-- A `binder::Status` as service manager builds it. -/
structure Reply where
  exception : ExceptionCode
  message : String := ""
  deriving DecidableEq, Repr

def Reply.ok : Reply := ⟨.none, ""⟩

structure CallingContext where
  debugPid : ℤ
  uid : ℕ

structure ConnectionInfo where
  ipAddress : ServiceName
  port : ℕ

/-- What one call finds outside service manager. Each call asks for the death link and the
reference count of one binder only. -/
structure Env where
  ctx : CallingContext
  canFind : ServiceName → Bool
  canAdd : ServiceName → Bool
  canList : Bool
  requiresVintfDeclaration : Bool
  isVintfDeclared : ServiceName → Bool
  getVintfInstances : ServiceName → List ServiceName
  getVintfUpdatableApex : ServiceName → Option ServiceName
  getVintfConnectionInfo : ServiceName → Option ConnectionInfo
  remoteBinder : Bool
  linkToDeath : Bool
  getNodeStrongRefCount : ℤ

structure Service where
  binder : Option IBinder
  allowIsolated : Bool
  dumpPriority : BitVec 32
  hasClients : Bool := false
  guaranteeClient : Bool := false
  debugPid : ℤ
  deriving DecidableEq

/-- `service.guaranteeClient = true;` -/
def Service.guarantee (service : Service) : Service := { service with guaranteeClient := true }

/-- A registered callback. No call reads `origin`: it records for what the callback was
registered. -/
structure Listener (γ : Type) where
  callback : Option IBinder
  origin : γ
  deriving DecidableEq

/-- The origin is the uid of the process that registered the callback. -/
abbrev ServiceCallback := Listener ℕ

/-- The origin is the service binder for which the callback was registered. -/
abbrev ClientCallback := Listener (Option IBinder)

inductive Event
  | returned (uid : ℕ) (name : ServiceName) (binder : IBinder)
  | onRegistration (callback : ServiceCallback) (name : ServiceName) (binder : Option IBinder)
  | onClients (callback : ClientCallback) (name : ServiceName) (binder : Option IBinder)
      (hasClients : Bool)
  | tryStartService (name : ServiceName)
  | checked (name : ServiceName)
  | unregistered (name : ServiceName)
  deriving DecidableEq

end ServiceManager

open ServiceManager in
/-- `history` lists the events so far, the oldest first. -/
structure ServiceManager where
  mNameToService : OrdMap ServiceName Service
  mNameToRegistrationCallback : OrdMap ServiceName (List ServiceCallback)
  mNameToClientCallback : OrdMap ServiceName (List ClientCallback)
  history : List Event
  deriving DecidableEq

namespace ServiceManager

def init : ServiceManager := ⟨.empty, .empty, .empty, []⟩

@[simps mNameToService history]
def log (s : ServiceManager) (es : List Event) : ServiceManager :=
  { s with history := s.history ++ es }

@[simps mNameToService history]
def setService (s : ServiceManager) (name : ServiceName) (service : Service) : ServiceManager :=
  { s with mNameToService := s.mNameToService.insert name service }

@[simps mNameToService history]
def eraseService (s : ServiceManager) (name : ServiceName) : ServiceManager :=
  { s with mNameToService := s.mNameToService.erase name }

@[simps mNameToService history]
def setRegistrationCallbacks (s : ServiceManager) (name : ServiceName)
    (callbacks : List ServiceCallback) : ServiceManager :=
  { s with mNameToRegistrationCallback := s.mNameToRegistrationCallback.insert name callbacks }

@[simps mNameToClientCallback history]
def setClientCallbacks (s : ServiceManager) (name : ServiceName)
    (callbacks : List ClientCallback) : ServiceManager :=
  { s with mNameToClientCallback := s.mNameToClientCallback.insert name callbacks }

def isValidServiceChar (c : Fin 256) : Bool :=
  c = 95 || c = 45 || c = 46 || c = 47 || (97 ≤ c && c ≤ 122) || (65 ≤ c && c ≤ 90) || (48 ≤ c && c ≤ 57)

def isValidServiceName (name : ServiceName) : Bool :=
  if name.length = 0 then false
  else if name.length > 127 then false
  else name.all isValidServiceChar

def meetsDeclarationRequirements (env : Env) (name : ServiceName) : Bool :=
  if !env.requiresVintfDeclaration then true else env.isVintfDeclared name

def tryGetService (s : ServiceManager) (env : Env) (name : ServiceName) (startIfNotFound : Bool) :
    Option IBinder × ServiceManager :=
  let service := s.mNameToService.find? name
  if service.any fun service => !service.allowIsolated && isIsolated env.ctx.uid then (none, s)
  else if !env.canFind name then (none, s)
  else match service, service.bind (·.binder) with
    | some service, some out =>
      -- the flag tells the client check of a client that may drop the service at once
      (some out, (s.setService name service.guarantee).log [.returned env.ctx.uid name out])
    | _, _ => (none, if startIfNotFound then s.log [.tryStartService name] else s)

def getService (s : ServiceManager) (env : Env) (name : ServiceName) : Option IBinder × ServiceManager :=
  s.tryGetService env name true

def checkService (s : ServiceManager) (env : Env) (name : ServiceName) : Option IBinder × ServiceManager :=
  s.tryGetService env name false

def addServiceError (env : Env) (name : ServiceName) (binder : Option IBinder) : Option Reply :=
  if multiuserGetAppId env.ctx.uid ≥ AID_APP then some ⟨.security, "App UIDs cannot add services"⟩
  else if !env.canAdd name then some ⟨.security, "SELinux denial"⟩
  else if binder = none then some ⟨.illegalArgument, "Null binder"⟩
  else if !isValidServiceName name then some ⟨.illegalArgument, "Invalid service name"⟩
  else if !meetsDeclarationRequirements env name then
    some ⟨.illegalArgument, "VINTF declaration error"⟩
  else if env.remoteBinder && !env.linkToDeath then some ⟨.illegalState, "linkToDeath failure"⟩
  else none

def registrationCallbacks (s : ServiceManager) (name : ServiceName) : List ServiceCallback :=
  (s.mNameToRegistrationCallback.find? name).getD []

def clientCallbacks (s : ServiceManager) (name : ServiceName) : List ClientCallback :=
  (s.mNameToClientCallback.find? name).getD []

/-- The entry that `addService` leaves: a client is guaranteed if a callback was told. -/
def newService (s : ServiceManager) (env : Env) (name : ServiceName) (binder : Option IBinder)
    (allowIsolated : Bool) (dumpPriority : BitVec 32) : Service where
  binder := binder
  allowIsolated := allowIsolated
  dumpPriority := dumpPriority
  guaranteeClient := !(s.registrationCallbacks name).isEmpty
  debugPid := env.ctx.debugPid

def addService (s : ServiceManager) (env : Env) (name : ServiceName) (binder : Option IBinder)
    (allowIsolated : Bool) (dumpPriority : BitVec 32) : Reply × ServiceManager :=
  match addServiceError env name binder with
  | some e => (e, s)
  | none =>
    -- an old entry is overwritten, its two client flags with it
    (.ok, (s.setService name (s.newService env name binder allowIsolated dumpPriority)).log
      ((s.registrationCallbacks name).map fun cb => .onRegistration cb name binder))

def listServices (s : ServiceManager) (env : Env) (dumpPriority : BitVec 32) : Reply × List ServiceName :=
  if !env.canList then (⟨.security, ""⟩, [])
  else (.ok, (s.mNameToService.entries.filter fun e => e.2.dumpPriority &&& dumpPriority ≠ 0).map Prod.fst)

def registerForNotificationsError (env : Env) (name : ServiceName) (callback : Option IBinder) : Option Reply :=
  if !env.canFind name then some ⟨.security, ""⟩
  else if !isValidServiceName name then some ⟨.illegalArgument, ""⟩
  else if callback = none then some ⟨.nullPointer, ""⟩
  else if !env.linkToDeath then some ⟨.illegalState, ""⟩
  else none

/-- `none` is a failed `CHECK`. -/
def registerForNotifications (s : ServiceManager) (env : Env) (name : ServiceName)
    (callback : Option IBinder) : Option (Reply × ServiceManager) :=
  match registerForNotificationsError env name callback with
  | some e => some (e, s)
  | none =>
    let cb : ServiceCallback := ⟨callback, env.ctx.uid⟩
    let s := s.setRegistrationCallbacks name (s.registrationCallbacks name ++ [cb])
    match s.mNameToService.find? name with
    | none => some (.ok, s)
    | some service =>
      if service.binder = none then none
      else some (.ok, s.log [.onRegistration cb name service.binder])

/-- The loop that `removeRegistrationCallback` and `removeClientCallback` share. -/
def removeCallback {γ : Type} (who : Option IBinder) (listeners : List (Listener γ)) : List (Listener γ) :=
  listeners.filter fun cb => cb.callback ≠ who

/-- An emptied vector leaves its map. -/
def dropCallback {γ : Type} (who : Option IBinder) (listeners : List (Listener γ)) : Option (List (Listener γ)) :=
  let rest := removeCallback who listeners
  if rest.isEmpty then none else some rest

def removeRegistrationCallback (s : ServiceManager) (who : Option IBinder) (name : ServiceName)
    (listeners : List ServiceCallback) : ServiceManager :=
  match dropCallback who listeners with
  | none => { s with mNameToRegistrationCallback := s.mNameToRegistrationCallback.erase name }
  | some rest => s.setRegistrationCallbacks name rest

def unregisterForNotifications (s : ServiceManager) (env : Env) (name : ServiceName)
    (callback : Option IBinder) : Reply × ServiceManager :=
  if !env.canFind name then (⟨.security, ""⟩, s)
  else match s.mNameToRegistrationCallback.find? name with
    | none => (⟨.illegalState, ""⟩, s)
    | some listeners =>
      let s := s.removeRegistrationCallback callback name listeners
      if !(listeners.any fun cb => cb.callback = callback) then (⟨.illegalState, ""⟩, s)
      else (.ok, s)

def isDeclared (env : Env) (name : ServiceName) : Reply × Bool :=
  if !env.canFind name then (⟨.security, ""⟩, false) else (.ok, env.isVintfDeclared name)

def getDeclaredInstances (env : Env) (interface : ServiceName) : Reply × List ServiceName :=
  let allInstances := env.getVintfInstances interface
  let out := allInstances.filter fun i => env.canFind (interface ++ 47 :: i)
  if out.length = 0 && allInstances.length ≠ 0 then (⟨.security, ""⟩, out) else (.ok, out)

def updatableViaApex (env : Env) (name : ServiceName) : Reply × Option ServiceName :=
  if !env.canFind name then (⟨.security, ""⟩, none) else (.ok, env.getVintfUpdatableApex name)

def getConnectionInfo (env : Env) (name : ServiceName) : Reply × Option ConnectionInfo :=
  if !env.canFind name then (⟨.security, ""⟩, none) else (.ok, env.getVintfConnectionInfo name)

def binderDied (s : ServiceManager) (who : IBinder) : ServiceManager :=
  { s with
    mNameToService := s.mNameToService.filterMap fun service =>
      if service.binder = some who then none else some service
    mNameToRegistrationCallback := s.mNameToRegistrationCallback.filterMap (dropCallback (some who))
    mNameToClientCallback := s.mNameToClientCallback.filterMap (dropCallback (some who)) }

def registerClientCallbackError (s : ServiceManager) (env : Env) (name : ServiceName)
    (service cb : Option IBinder) : Option Reply :=
  if cb = none then some ⟨.nullPointer, ""⟩
  else if !env.canAdd name then some ⟨.security, ""⟩
  else match s.mNameToService.find? name with
    | none => some ⟨.illegalArgument, ""⟩
    | some entry =>
      if entry.debugPid ≠ env.ctx.debugPid then some ⟨.unsupportedOperation, ""⟩
      else if entry.binder ≠ service then some ⟨.illegalArgument, ""⟩
      else if !env.linkToDeath then some ⟨.illegalState, ""⟩
      else none

def registerClientCallback (s : ServiceManager) (env : Env) (name : ServiceName)
    (service cb : Option IBinder) : Reply × ServiceManager :=
  match s.registerClientCallbackError env name service cb with
  | some e => (e, s)
  | none => (.ok, s.setClientCallbacks name (s.clientCallbacks name ++ [⟨cb, service⟩]))

/-- `none` is a failed `CHECK`. -/
def sendClientCallbackNotifications (s : ServiceManager) (serviceName : ServiceName)
    (hasClients : Bool) : Option ServiceManager :=
  match s.mNameToService.find? serviceName with
  | none => some s
  | some service =>
    if hasClients = service.hasClients then none
    else match s.mNameToClientCallback.find? serviceName with
      | none => none
      | some callbacks =>
        some ((s.log (callbacks.map fun cb =>
            .onClients cb serviceName service.binder hasClients)).setService serviceName
          { service with hasClients := hasClients })

def clearGuarantee (s : ServiceManager) (serviceName : ServiceName) : ServiceManager :=
  match s.mNameToService.find? serviceName with
  | none => s
  | some service => s.setService serviceName { service with guaranteeClient := false }

def recordedClients (s : ServiceManager) (serviceName : ServiceName) : Bool :=
  (s.mNameToService.find? serviceName).any (·.hasClients)

/-- `if (condition) sendClientCallbackNotifications(serviceName, hasClients);` -/
def sendIf (s : ServiceManager) (condition : Bool) (serviceName : ServiceName)
    (hasClients : Bool) : Option ServiceManager :=
  if condition then s.sendClientCallbackNotifications serviceName hasClients else some s

/-- The guarantee is temporary: it tells of a client of which there is no record. -/
def handleGuarantee (s : ServiceManager) (serviceName : ServiceName) (service : Service)
    (hasClients : Bool) : Option ServiceManager :=
  if service.guaranteeClient then
    (s.sendIf (!service.hasClients && !hasClients) serviceName true).map
      (·.clearGuarantee serviceName)
  else some s

/-- `count` is what the kernel reports for the node of this service. -/
def handleServiceClientCallback (s : ServiceManager) (count : ℤ) (serviceName : ServiceName)
    (isCalledOnInterval : Bool) : Option (ℤ × ServiceManager) :=
  match s.mNameToService.find? serviceName, s.mNameToClientCallback.find? serviceName with
  | some service, some _ =>
    if count = -1 then some (count, s)
    else do
      let hasClients := decide (count > 1)
      let s ← s.handleGuarantee serviceName service hasClients
      if isCalledOnInterval then do
        -- the flag is read again: the guarantee may have set it
        let s ← s.sendIf (hasClients && !s.recordedClients serviceName) serviceName true
        let s ← s.sendIf (!hasClients && s.recordedClients serviceName) serviceName false
        some (count, s)
      else some (count, s)
  | _, _ => some (-1, s)

def handleClientCallbacks (s : ServiceManager) (counts : ServiceName → ℤ) : Option ServiceManager :=
  s.mNameToService.keys.foldlM (fun s name => do
    let (_, s) ← s.handleServiceClientCallback (counts name) name true
    some (s.log [.checked name])) s

def tryUnregisterService (s : ServiceManager) (env : Env) (name : ServiceName)
    (binder : Option IBinder) : Option (Reply × ServiceManager) :=
  if binder = none then some (⟨.nullPointer, ""⟩, s)
  else if !env.canAdd name then some (⟨.security, ""⟩, s)
  else match s.mNameToService.find? name with
    | none => some (⟨.illegalState, ""⟩, s)
    | some service =>
      if service.debugPid ≠ env.ctx.debugPid then some (⟨.unsupportedOperation, ""⟩, s)
      else if binder ≠ service.binder then some (⟨.illegalState, ""⟩, s)
      else if service.guaranteeClient then some (⟨.illegalState, ""⟩, s)
      else do
        let (count, s) ← s.handleServiceClientCallback env.getNodeStrongRefCount name false
        -- the `ssize_t` is stored in an `int`
        let clients := count.bmod (2 ^ 32)
        if clients < 0 || clients > 2 then
          some (⟨.illegalState, ""⟩, match s.mNameToService.find? name with
            | none => s
            | some service => s.setService name service.guarantee)
        else some (.ok, (s.eraseService name).log [.unregistered name])

def getServiceDebugInfo (s : ServiceManager) (env : Env) : Reply × List (ServiceName × ℤ) :=
  if !env.canList then (⟨.security, ""⟩, [])
  else (.ok, s.mNameToService.entries.map fun e => (e.1, e.2.debugPid))

inductive Call
  | getService (name : ServiceName)
  | checkService (name : ServiceName)
  | addService (name : ServiceName) (binder : Option IBinder) (allowIsolated : Bool)
      (dumpPriority : BitVec 32)
  | listServices (dumpPriority : BitVec 32)
  | registerForNotifications (name : ServiceName) (callback : Option IBinder)
  | unregisterForNotifications (name : ServiceName) (callback : Option IBinder)
  | isDeclared (name : ServiceName)
  | getDeclaredInstances (interface : ServiceName)
  | updatableViaApex (name : ServiceName)
  | getConnectionInfo (name : ServiceName)
  | registerClientCallback (name : ServiceName) (service cb : Option IBinder)
  | tryUnregisterService (name : ServiceName) (binder : Option IBinder)
  | getServiceDebugInfo

/-- The status of a call and the state it leaves; `none` if a `CHECK` fails. -/
def transact (s : ServiceManager) (env : Env) : Call → Option (Reply × ServiceManager)
  | .getService name => some (.ok, (s.getService env name).2)
  | .checkService name => some (.ok, (s.checkService env name).2)
  | .addService name binder allowIsolated dumpPriority =>
    some (s.addService env name binder allowIsolated dumpPriority)
  | .listServices dumpPriority => some ((s.listServices env dumpPriority).1, s)
  | .registerForNotifications name callback => s.registerForNotifications env name callback
  | .unregisterForNotifications name callback =>
    some (s.unregisterForNotifications env name callback)
  | .isDeclared name => some ((isDeclared env name).1, s)
  | .getDeclaredInstances interface => some ((getDeclaredInstances env interface).1, s)
  | .updatableViaApex name => some ((updatableViaApex env name).1, s)
  | .getConnectionInfo name => some ((getConnectionInfo env name).1, s)
  | .registerClientCallback name service cb => some (s.registerClientCallback env name service cb)
  | .tryUnregisterService name binder => s.tryUnregisterService env name binder
  | .getServiceDebugInfo => some ((s.getServiceDebugInfo env).1, s)

/-- What the looper of service manager dispatches, one at a time. -/
inductive Action
  | call (env : Env) (c : Call)
  | binderDied (who : IBinder)
  | handleClientCallbacks (counts : ServiceName → ℤ)

def step (s : ServiceManager) : Action → Option ServiceManager
  | .call env c => (s.transact env c).map Prod.snd
  | .binderDied who => some (s.binderDied who)
  | .handleClientCallbacks counts => s.handleClientCallbacks counts

end ServiceManager

end Binder
