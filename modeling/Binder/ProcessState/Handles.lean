import Binder.Lib.Transition

/-! The table of proxies that `ProcessState` keeps for the handles of the driver. A step is what a thread does
between two points where another thread can come in: the reference counts are not protected by `mLock`. -/
namespace Binder
open Lib

namespace ProcessState

/-- The pointers are to a proxy and to its reference counts. Proxies are known by the number they were made
with, which is not their address. -/
structure HandleEntry where
  binder : Option ℕ := none
  refs : Option ℕ := none
  deriving DecidableEq

inductive Phase
  /-- the weak count has not reached zero -/
  | alive
  /-- `~BpBinder` before `expungeHandle`, and after it -/
  | destructing
  | expunged
  /-- the memory was given back -/
  | finished
  deriving DecidableEq

structure BpBinder where
  handle : ℕ
  address : ℕ
  weak : ℕ := 1
  /-- the weak references that users of the proxy hold, those of their `sp<>` included -/
  held : ℕ := 1
  phase : Phase := .alive
  deriving DecidableEq

/-- Where the thread that holds `mLock` is in `getStrongProxyForHandle`. -/
inductive Section
  | found (handle : ℕ)
  | creating (handle : ℕ)
  /-- after a successful `attemptIncWeak`, and after `force_set` -/
  | forcing (handle i : ℕ)
  | forced (handle i : ℕ)
  deriving DecidableEq

inductive Event
  /-- a pointer of an entry is followed: to which proxy, and whether that one was gone -/
  | deref (ptr : Option ℕ) (finished : Bool)
  /-- `getStrongProxyForHandle` returns a proxy, and whether its weak count had reached zero -/
  | given (i : ℕ) (zeroed : Bool)
  /-- `expungeHandle` for a proxy, and which proxy's entry it cleared -/
  | expunged (i : ℕ) (cleared : Option ℕ)
  deriving DecidableEq

end ProcessState

open ProcessState in
structure ProcessState where
  mLock : Option Section := none
  mHandleToObject : List HandleEntry := []
  proxy : ℕ → BpBinder := fun _ => { handle := 0, address := 0 }
  next : ℕ := 0
  history : List Event := []

namespace ProcessState

def entry (s : ProcessState) (handle : ℕ) : HandleEntry := s.mHandleToObject.getD handle {}

def setEntry (s : ProcessState) (handle : ℕ) (e : HandleEntry) : ProcessState :=
  { s with mHandleToObject := s.mHandleToObject.set handle e }

def setProxy (s : ProcessState) (i : ℕ) (b : BpBinder) : ProcessState :=
  { s with proxy := Function.update s.proxy i b }

def log (s : ProcessState) (e : Event) : ProcessState := { s with history := e :: s.history }

def lock (s : ProcessState) (l : Option Section) : ProcessState := { s with mLock := l }

def follow (s : ProcessState) (ptr : Option ℕ) : ProcessState :=
  s.log (.deref ptr (ptr.any fun i => (s.proxy i).phase = .finished))

def incWeak (b : BpBinder) : BpBinder := { b with weak := b.weak + 1 }

/-- The last one starts the destructor. -/
def decWeak (b : BpBinder) : BpBinder :=
  if b.weak = 1 then { b with weak := 0, phase := .destructing } else { b with weak := b.weak - 1 }

/-- `none` is a null entry; `grow` is whether `insertAt` succeeds. -/
def lookupHandleLocked (s : ProcessState) (handle : ℕ) (grow : Bool) : Option ProcessState :=
  let n := s.mHandleToObject.length
  if n ≤ handle then
    if grow then some { s with mHandleToObject := s.mHandleToObject ++ List.replicate (handle + 1 - n) {} }
    else none
  else some s

/-- The condition of `getStrongProxyForHandle`. -/
def attempt (s : ProcessState) (handle : ℕ) : ProcessState :=
  match (s.entry handle).binder with
  | none => s.lock (some (.creating handle))
  | some b =>
    let refs := (s.entry handle).refs
    let s := s.follow refs
    match refs with
    | none => s.lock (some (.creating handle))
    | some r =>
      if (s.proxy r).weak = 0 then s.lock (some (.creating handle))
      else (s.setProxy r (incWeak (s.proxy r))).lock (some (.forcing handle b))

/-- The branch that makes a proxy. `pingDead` is whether the ping of the context manager fails, `created` the
address of the new proxy, which `BpBinder::create` may not give. -/
def create (s : ProcessState) (handle : ℕ) (pingDead : Bool) (created : Option ℕ) : ProcessState :=
  if handle = 0 ∧ pingDead then s.lock none
  else match created with
    | none => (s.setEntry handle { s.entry handle with binder := none }).lock none
    | some address =>
      let i := s.next
      let s := { s.setProxy i { handle, address } with next := i + 1 }
      ((s.setEntry handle { binder := some i, refs := some i }).log (.given i false)).lock none

/-- `result.force_set(b)`: the new strong reference holds a weak one. -/
def force (s : ProcessState) (handle i : ℕ) : ProcessState :=
  ((s.follow (some i)).setProxy i (incWeak (s.proxy i))).lock (some (.forced handle i))

/-- `e->refs->decWeak(this)`, and the return, which hands the reference in `result` over. -/
def give (s : ProcessState) (handle i : ℕ) : ProcessState :=
  let refs := (s.entry handle).refs
  let s := s.follow refs
  let s := refs.elim s fun r => s.setProxy r (decWeak (s.proxy r))
  let b := s.proxy i
  ((s.setProxy i { b with held := b.held + 1 }).log (.given i (b.phase ≠ .alive))).lock none

/-- The pointers are compared by their addresses. -/
def expungeHandle (s : ProcessState) (i : ℕ) (grow : Bool) : ProcessState :=
  let b := s.proxy i
  let done := s.setProxy i { b with phase := .expunged }
  match done.lookupHandleLocked b.handle grow with
  | none => done.log (.expunged i none)
  | some s =>
    let e := s.entry b.handle
    if e.binder.map (fun j => (s.proxy j).address) = some b.address then
      (s.setEntry b.handle { e with binder := none }).log (.expunged i e.binder)
    else s.log (.expunged i none)

inductive Action
  | getStrongProxyForHandle (handle : ℕ) (grow : Bool)
  | attempt
  | create (pingDead : Bool) (created : Option ℕ)
  | force
  | give
  /-- a user of the proxy takes or drops a weak reference -/
  | incWeak (i : ℕ)
  | decWeak (i : ℕ)
  | expungeHandle (i : ℕ) (grow : Bool)
  | finish (i : ℕ)

def Vacant (s : ProcessState) (address : ℕ) : Prop :=
  ∀ i < s.next, (s.proxy i).phase = .finished ∨ (s.proxy i).address ≠ address

instance (s : ProcessState) (address : ℕ) : Decidable (s.Vacant address) :=
  inferInstanceAs (Decidable (∀ i < s.next, _))

def step (s : ProcessState) : Action → Option ProcessState
  | .getStrongProxyForHandle handle grow => match s.mLock with
    | none => match s.lookupHandleLocked handle grow with
      | none => some s
      | some s => some (s.lock (some (.found handle)))
    | some _ => none
  | .attempt => match s.mLock with
    | some (.found handle) => some (s.attempt handle)
    | _ => none
  | .create pingDead created => match s.mLock with
    | some (.creating handle) =>
      if ∀ address ∈ created, s.Vacant address then some (s.create handle pingDead created) else none
    | _ => none
  | .force => match s.mLock with
    | some (.forcing handle i) => some (s.force handle i)
    | _ => none
  | .give => match s.mLock with
    | some (.forced handle i) => some (s.give handle i)
    | _ => none
  | .incWeak i =>
    let b := s.proxy i
    if i < s.next ∧ b.held ≠ 0 then
      some (s.setProxy i { ProcessState.incWeak b with held := b.held + 1 })
    else none
  | .decWeak i =>
    let b := s.proxy i
    if i < s.next ∧ b.held ≠ 0 then
      some (s.setProxy i (ProcessState.decWeak { b with held := b.held - 1 }))
    else none
  | .expungeHandle i grow => match s.mLock with
    | none =>
      if i < s.next ∧ (s.proxy i).phase = .destructing then some (s.expungeHandle i grow) else none
    | some _ => none
  | .finish i =>
    if i < s.next ∧ (s.proxy i).phase = .expunged then
      some (s.setProxy i { s.proxy i with phase := .finished })
    else none

end ProcessState

end Binder
