import Binder.Rpc.Core

/-! Two honest processes joined by one session. Commands travel over several connections, so
any command in flight may arrive next. -/
namespace Binder.Rpc
open Binder.Lib Function

inductive Role
  | client
  | server
  deriving DecidableEq, Repr

namespace Role

def other : Role → Role
  | client => server
  | server => client

def session (r : Role) : Session := ⟨0, r = server⟩

@[simp] theorem other_other (r : Role) : r.other.other = r := by cases r <;> rfl
@[simp] theorem other_ne (r : Role) : r.other ≠ r := by cases r <;> decide
@[simp] theorem ne_other (r : Role) : r ≠ r.other := by cases r <;> decide

theorem eq_or_eq_other (r s : Role) : s = r ∨ s = r.other := by cases r <;> cases s <;> simp [other]

end Role

/-- A command in flight. `refs` are the addresses flattened into its parcel. -/
inductive Message
  | transact (t : RpcWireTransaction) (refs : List ℕ) (call : ℕ)
  | reply (refs : List ℕ) (call : ℕ)
  | decStrong (address amount : ℕ)
  deriving DecidableEq, Repr

structure Packet where
  sender : Role
  message : Message
  deriving DecidableEq, Repr

/-- `unsent`: addresses flattened into parcels that are still being written. `unread` and `lost`
belong to the sender: addresses in parcels that arrived and that the receiver can still read, or
will never read. `leak` counts the references that were given back without effect, `tomb` is the
table as `clear` found it. -/
structure Net where
  proc : Role → Proc
  flight : List Packet
  unsent : Role → List ℕ
  unread : Role → List ℕ
  lost : Role → List ℕ
  leak : Role → ℕ → ℕ
  tomb : Role → RpcState
  nextCall : ℕ

inductive NetAction
  | act (r : Role) (a : Action) (refs : List ℕ)
  | deliver (i j : ℕ)
  | read (r : Role) (i : ℕ)
  deriving DecidableEq, Repr

/-- What the processes do on their own; the other actions need a command. -/
def Action.isLocal : Action → Bool
  | .command .. | .recvTransact .. | .recvDecStrong .. | .recvReply _ | .unflatten _ => false
  | _ => true

/-- A call that is sent takes the next number. -/
def Action.callIs (call : ℕ) : Action → Bool
  | .transactAddress _ c => c = call
  | .transactSpecial _ c => c = call
  | _ => true

def Out.hasParcel : Out → Bool
  | .transact .. | .reply _ => true
  | _ => false

def Out.flat : Out → List ℕ
  | .flattened a => [a]
  | _ => []

def Out.message (refs : List ℕ) : Out → Option Message
  | .transact t call => some (.transact t refs call)
  | .reply call => some (.reply refs call)
  | .decStrong a k => some (.decStrong a k)
  | _ => none

/-- The address of a binder that is no longer going to be sent as a target. -/
def Proc.abandoned (p : Proc) : Action → List Out → List ℕ
  | .transactAddress i _, [] =>
    match pick p.tasks i with
    | some (.transacting _ a _ _ _ _, _) => [a]
    | _ => []
  | _, _ => []

def RpcState.sentTimes (st : RpcState) (a : ℕ) : ℕ := (st.node? a).elim 0 (·.timesSent)
def RpcState.recdTimes (st : RpcState) (a : ℕ) : ℕ := (st.node? a).elim 0 (·.timesRecd)

/-- What a truncated `DEC_STRONG` amount leaves out. -/
def truncated (st : RpcState) (a : ℕ) : Out → ℕ
  | .decStrong x k => if x = a then st.recdTimes a - k else 0
  | _ => 0

/-- The target address of a command, which `onBinderEntering` turns down. -/
def Proc.refused (session : Session) (p : Proc) (a : ℕ) : List ℕ :=
  match (onBinderEntering session p.alive p.nextBinder a p.state).1 with
  | .error _ => [a]
  | .ok _ => []

def Proc.refusedTarget (session : Session) (p : Proc) (t : RpcWireTransaction) : List ℕ :=
  if t.address = 0 then [] else p.refused session t.address

def target (t : RpcWireTransaction) : List ℕ := if t.address = 0 then [] else [t.address]

/-- The commands among the outputs of `r`; a parcel takes `refs` along. -/
def packets (r : Role) (refs : List ℕ) (outs : List Out) : List Packet :=
  outs.flatMap fun o => ((o.message refs).map (Packet.mk r)).toList

namespace Net

def init : Net where
  proc _ := {}
  flight := []
  unsent _ := []
  unread _ := []
  lost _ := []
  leak _ _ := 0
  tomb _ := {}
  nextCall := 0

@[simps flight unsent unread lost leak]
def setProc (n : Net) (r : Role) (p : Proc) : Net :=
  { n with
    proc := update n.proc r p
    tomb := if p.state.mTerminated && !(n.proc r).state.mTerminated then
      update n.tomb r (n.proc r).state else n.tomb }

@[simps proc tomb flight unsent unread leak]
def lose (n : Net) (s : Role) (refs : List ℕ) : Net :=
  { n with lost := update n.lost s (refs ++ n.lost s) }

@[simps proc tomb flight unsent lost leak]
def arrive (n : Net) (s : Role) (refs : List ℕ) : Net :=
  { n with unread := update n.unread s (refs ++ n.unread s) }

@[simps proc tomb flight unsent unread lost]
def addLeak (n : Net) (s : Role) (f : ℕ → ℕ) : Net :=
  { n with leak := update n.leak s fun a => n.leak s a + f a }

/-- A process stops; what it was about to do does not happen. -/
def crash (n : Net) (r : Role) (p : Proc) : Net := { n with proc := update n.proc r p }

section Fields

variable (n : Net) (r s : Role) (p : Proc) (refs : List ℕ) (f : ℕ → ℕ)

@[simp] theorem setProc_proc_self : (n.setProc r p).proc r = p := update_self ..
@[simp] theorem setProc_proc_other : (n.setProc r p).proc r.other = n.proc r.other :=
  update_of_ne (Role.other_ne r) ..
@[simp] theorem setProc_other_proc : (n.setProc r.other p).proc r = n.proc r :=
  update_of_ne (Role.ne_other r) ..

@[simp] theorem lose_lost_self : (n.lose s refs).lost s = refs ++ n.lost s := update_self ..
@[simp] theorem lose_lost_other : (n.lose s refs).lost s.other = n.lost s.other :=
  update_of_ne (Role.other_ne s) ..

@[simp] theorem arrive_unread_self : (n.arrive s refs).unread s = refs ++ n.unread s :=
  update_self ..
@[simp] theorem arrive_unread_other : (n.arrive s refs).unread s.other = n.unread s.other :=
  update_of_ne (Role.other_ne s) ..

@[simp] theorem addLeak_leak_self (a : ℕ) : (n.addLeak s f).leak s a = n.leak s a + f a := by
  simp [addLeak]
@[simp] theorem addLeak_other_leak : (n.addLeak s.other f).leak s = n.leak s :=
  update_of_ne (Role.ne_other s) ..

end Fields

/-- What a local action leaves behind: the process, the parcels it took references from and the
commands it sent. -/
def afterLocal (n : Net) (r : Role) (a : Action) (refs : List ℕ) (p : Proc) (outs : List Out) : Net :=
  { ((n.setProc r p).lose r ((n.proc r).abandoned a outs)).addLeak r.other
      fun x => (outs.map (truncated (n.proc r).state x)).sum with
    unsent := update n.unsent r (outs.flatMap Out.flat ++ (n.unsent r).diff refs)
    flight := packets r refs outs ++ n.flight
    nextCall := n.nextCall + 1 }

def stepLocal (n : Net) (r : Role) (a : Action) (refs : List ℕ) : Option (Net × List Out) :=
  if ¬ a.isLocal ∨ ¬ a.callIs n.nextCall then none
  else match (n.proc r).step r.session a with
    | none => none
    | some (p, outs) =>
      if p.aborted ≠ none then some (n.crash r p, outs)
      else if ¬ refs.Subperm (n.unsent r) ∨ (refs ≠ [] ∧ ¬ outs.any Out.hasParcel) then none
      else some (n.afterLocal r a refs p outs, outs)

/-- A body over the allocation limit ends the connection it came on, not the session. -/
def stepTransact (n : Net) (s : Role) (t : RpcWireTransaction) (refs : List ℕ) (call : ℕ) :
    Option (Net × List Out) :=
  if kMaxTransactionAllocation < t.size then some (n.lose s (target t ++ refs), [])
  else match (n.proc s.other).step s.other.session (.recvTransact t call) with
    | none => none
    | some (p, outs) =>
      some (((n.setProc s.other p).lose s ((n.proc s.other).refusedTarget s.other.session t)).arrive s refs, outs)

def stepReply (n : Net) (s : Role) (refs : List ℕ) (call j : ℕ) : Option (Net × List Out) :=
  match pick (n.proc s.other).tasks j with
  | some (.waiting _ c, _) =>
    if c ≠ call then none
    else match (n.proc s.other).step s.other.session (.recvReply j) with
      | none => none
      | some (p, outs) => some ((n.setProc s.other p).arrive s refs, outs)
  | _ => none

def stepDecStrong (n : Net) (r : Role) (a k : ℕ) (rest : List Packet) : Option (Net × List Out) :=
  match (n.proc r).step r.session (.recvDecStrong a k) with
  | none => none
  | some (p, outs) =>
    if p.aborted ≠ none then some (n.crash r p, outs)
    else
      let given := (n.proc r).state.sentTimes a - p.state.sentTimes a
      some (({ n with flight := rest }.setProc r p).addLeak r fun x => if x = a then k - given else 0, outs)

/-- `Parcel::unflattenBinder` on an address that arrived. -/
def stepRead (n : Net) (r : Role) (i : ℕ) : Option (Net × List Out) :=
  match pick (n.unread r.other) i with
  | none => none
  | some (a, rest) =>
    match (n.proc r).step r.session (.unflatten a) with
    | none => none
    | some (p, outs) =>
      if p.aborted ≠ none then some (n.crash r p, outs)
      else some (({ n with unread := update n.unread r.other rest }.setProc r p).lose r.other
        ((n.proc r).refused r.session a), outs)

/-- One step, with the process it happens in and what that process put out. -/
def step (n : Net) : NetAction → Option (Net × Role × List Out)
  | .act r a refs => (n.stepLocal r a refs).map fun x => (x.1, r, x.2)
  | .read r i => (n.stepRead r i).map fun x => (x.1, r, x.2)
  | .deliver i j =>
    match pick n.flight i with
    | none => none
    | some (⟨s, .transact t refs call⟩, rest) =>
      (({ n with flight := rest } : Net).stepTransact s t refs call).map fun x => (x.1, s.other, x.2)
    | some (⟨s, .reply refs call⟩, rest) =>
      (({ n with flight := rest } : Net).stepReply s refs call j).map fun x => (x.1, s.other, x.2)
    | some (⟨s, .decStrong a k⟩, rest) => (n.stepDecStrong s.other a k rest).map fun x => (x.1, s.other, x.2)

def next (n : Net) (a : NetAction) : Option Net := (n.step a).map Prod.fst

end Net

/-- What a process does in a step of the two: its own action, or one that a command or an address
from its peer calls for. -/
inductive Offered (n : Net) (r : Role) : NetAction → Action → Prop
  | own (a : Action) (refs : List ℕ) : a.isLocal = true → Offered n r (.act r a refs) a
  | transact (i j : ℕ) (t : RpcWireTransaction) (refs : List ℕ) (call : ℕ) (rest : List Packet) :
      pick n.flight i = some (⟨r.other, .transact t refs call⟩, rest) → t.size ≤ kMaxTransactionAllocation →
      Offered n r (.deliver i j) (.recvTransact t call)
  | reply (i j : ℕ) (refs : List ℕ) (call : ℕ) (rest : List Packet) :
      pick n.flight i = some (⟨r.other, .reply refs call⟩, rest) →
      Offered n r (.deliver i j) (.recvReply j)
  | decStrong (i j a k : ℕ) (rest : List Packet) :
      pick n.flight i = some (⟨r.other, .decStrong a k⟩, rest) →
      Offered n r (.deliver i j) (.recvDecStrong a k)
  | read (i a : ℕ) (rest : List ℕ) : pick (n.unread r.other) i = some (a, rest) →
      Offered n r (.read r i) (.unflatten a)

inductive NetMoves (n : Net) : NetAction → Net → Role → List Out → Prop
  | crash (a : NetAction) (r : Role) (act : Action) (p : Proc) (f : Fatal) :
      (n.proc r).aborted = none → Offered n r a act → Aborts r.session (n.proc r) act f →
      p = { n.proc r with aborted := some f } → NetMoves n a (n.crash r p) r []
  | local (r : Role) (a : Action) (refs : List ℕ) (p : Proc) (outs : List Out) : a.isLocal = true →
      a.callIs n.nextCall = true → (n.proc r).aborted = none → Moves r.session (n.proc r) a p outs →
      p.aborted = none → refs.Subperm (n.unsent r) → (refs = [] ∨ outs.any Out.hasParcel = true) →
      NetMoves n (.act r a refs) (n.afterLocal r a refs p outs) r outs
  | tooLarge (i j : ℕ) (s : Role) (t : RpcWireTransaction) (refs : List ℕ) (call : ℕ)
      (rest : List Packet) : pick n.flight i = some (⟨s, .transact t refs call⟩, rest) →
      kMaxTransactionAllocation < t.size →
      NetMoves n (.deliver i j) ({ n with flight := rest }.lose s (target t ++ refs)) s.other []
  | transact (i j : ℕ) (s : Role) (t : RpcWireTransaction) (refs : List ℕ) (call : ℕ)
      (rest : List Packet) (p : Proc) (outs : List Out) :
      pick n.flight i = some (⟨s, .transact t refs call⟩, rest) → t.size ≤ kMaxTransactionAllocation →
      (n.proc s.other).aborted = none →
      Moves s.other.session (n.proc s.other) (.recvTransact t call) p outs → p.aborted = none →
      NetMoves n (.deliver i j)
        ((({ n with flight := rest }.setProc s.other p).lose s
          ((n.proc s.other).refusedTarget s.other.session t)).arrive s refs) s.other outs
  | reply (i j : ℕ) (s : Role) (refs : List ℕ) (call : ℕ) (rest : List Packet) (p : Proc)
      (outs : List Out) (b : Option IBinder) (tasks : List Task) :
      pick n.flight i = some (⟨s, .reply refs call⟩, rest) →
      pick (n.proc s.other).tasks j = some (.waiting b call, tasks) → (n.proc s.other).aborted = none →
      Moves s.other.session (n.proc s.other) (.recvReply j) p outs → p.aborted = none →
      NetMoves n (.deliver i j) (({ n with flight := rest }.setProc s.other p).arrive s refs) s.other outs
  | decStrong (i j : ℕ) (s : Role) (a k : ℕ) (rest : List Packet) (p : Proc) (outs : List Out) :
      pick n.flight i = some (⟨s, .decStrong a k⟩, rest) → (n.proc s.other).aborted = none →
      Moves s.other.session (n.proc s.other) (.recvDecStrong a k) p outs → p.aborted = none →
      NetMoves n (.deliver i j)
        (({ n with flight := rest }.setProc s.other p).addLeak s.other fun x => if x = a then
          k - ((n.proc s.other).state.sentTimes a - p.state.sentTimes a) else 0) s.other outs
  | read (r : Role) (i a : ℕ) (rest : List ℕ) (p : Proc) (outs : List Out) :
      pick (n.unread r.other) i = some (a, rest) → (n.proc r).aborted = none →
      Moves r.session (n.proc r) (.unflatten a) p outs → p.aborted = none →
      NetMoves n (.read r i)
        (({ n with unread := update n.unread r.other rest }.setProc r p).lose r.other
          ((n.proc r).refused r.session a)) r outs

theorem Action.resolve_of_isLocal {a : Action} (h : a.isLocal = true) : a.resolve = some a := by
  cases a <;> simp_all [Action.isLocal, Action.resolve]

/-- A process that stops does so at one of its checks and changes nothing else. -/
theorem Moves.aborts {session : Session} {p p' : Proc} {a : Action} {outs : List Out}
    (hm : Moves session p a p' outs) (hp : p.aborted = none) (h : p'.aborted ≠ none) :
    ∃ f, Aborts session p a f ∧ p' = { p with aborted := some f } ∧ outs = [] := by
  cases hm with
  | abort _ f hf => exact ⟨f, hf, rfl, rfl⟩
  | _ => exact absurd (by simpa using hp) h

theorem Moves.recvTransact_aborted {session : Session} {p p' : Proc} {t : RpcWireTransaction} {call : ℕ}
    {outs : List Out} (hm : Moves session p (.recvTransact t call) p' outs) (hp : p.aborted = none) :
    p'.aborted = none := by
  by_contra h
  obtain ⟨f, hf, _⟩ := hm.aborts hp h
  cases hf <;> simp [Action.leaving] at *

theorem Moves.recvReply_aborted {session : Session} {p p' : Proc} {j : ℕ}
    {outs : List Out} (hm : Moves session p (.recvReply j) p' outs) (hp : p.aborted = none) :
    p'.aborted = none := by
  by_contra h
  obtain ⟨f, hf, _⟩ := hm.aborts hp h
  cases hf <;> simp [Action.leaving] at *

namespace Net

variable {n n' : Net} {r : Role} {outs : List Out}

theorem stepLocal_moves {a : Action} {refs : List ℕ} (h : n.stepLocal r a refs = some (n', outs)) :
    NetMoves n (.act r a refs) n' r outs := by
  unfold stepLocal at h
  split_ifs at h with hloc
  push Not at hloc
  split at h
  · simp at h
  · rename_i p o hs
    obtain ⟨hab, hm⟩ := step_moves_of_resolve (Action.resolve_of_isLocal hloc.1) hs
    split_ifs at h with hp hrefs
    · obtain ⟨rfl, rfl⟩ := Prod.mk.inj (Option.some.inj h)
      obtain ⟨f, hf, hp', ho⟩ := hm.aborts hab hp
      obtain rfl : o = [] := ho
      exact .crash _ r a p f hab (.own a refs hloc.1) hf hp'
    · obtain ⟨rfl, rfl⟩ := Prod.mk.inj (Option.some.inj h)
      push Not at hrefs
      refine .local r a refs p o hloc.1 hloc.2 hab hm (not_not.mp hp) hrefs.1 ?_
      by_cases hnil : refs = []
      · exact .inl hnil
      · exact .inr (by simpa using hrefs.2 hnil)

theorem step_netMoves {a : NetAction} (h : n.step a = some (n', r, outs)) : NetMoves n a n' r outs := by
  cases a with
  | act =>
    obtain ⟨⟨m, o⟩, hs, he⟩ := Option.map_eq_some_iff.mp h
    cases he
    exact stepLocal_moves hs
  | read r' i =>
    obtain ⟨⟨m, o⟩, hs, he⟩ := Option.map_eq_some_iff.mp h
    cases he
    unfold stepRead at hs
    split at hs
    · simp at hs
    · rename_i a rest hp
      split at hs
      · simp at hs
      · rename_i p o' hstep
        obtain ⟨hab, hm⟩ := step_moves_of_resolve rfl hstep
        split_ifs at hs with hpa
        · obtain ⟨rfl, rfl⟩ := Prod.mk.inj (Option.some.inj hs)
          obtain ⟨f, hf, hp', ho⟩ := hm.aborts hab hpa
          obtain rfl : o' = [] := ho
          exact .crash _ r (.unflatten a) p f hab (.read i a rest hp) hf hp'
        · obtain ⟨rfl, rfl⟩ := Prod.mk.inj (Option.some.inj hs)
          exact .read r i a rest p o' hp hab hm (not_not.mp hpa)
  | deliver i j =>
    simp only [step] at h
    split at h
    · simp at h
    · rename_i s t refs call rest hp
      obtain ⟨⟨m, o⟩, hs, he⟩ := Option.map_eq_some_iff.mp h
      cases he
      unfold stepTransact at hs
      split_ifs at hs with hsize
      · obtain ⟨rfl, rfl⟩ := Prod.mk.inj (Option.some.inj hs)
        exact .tooLarge i j s t refs call rest hp hsize
      · split at hs
        · simp at hs
        · rename_i p o' hstep
          obtain ⟨hab, hm⟩ := step_moves_of_resolve rfl hstep
          obtain ⟨rfl, rfl⟩ := Prod.mk.inj (Option.some.inj hs)
          exact .transact i j s t refs call rest p o' hp (not_lt.mp hsize) hab hm
            (hm.recvTransact_aborted hab)
    · rename_i s refs call rest hp
      obtain ⟨⟨m, o⟩, hs, he⟩ := Option.map_eq_some_iff.mp h
      cases he
      unfold stepReply at hs
      split at hs
      · rename_i b c tasks htask
        split_ifs at hs with hc
        split at hs
        · simp at hs
        · rename_i p o' hstep
          obtain ⟨hab, hm⟩ := step_moves_of_resolve rfl hstep
          obtain ⟨rfl, rfl⟩ := Prod.mk.inj (Option.some.inj hs)
          obtain rfl : c = call := not_not.mp hc
          exact .reply i j s refs c rest p o' b tasks hp htask hab hm (hm.recvReply_aborted hab)
      · simp at hs
    · rename_i s a k rest hp
      obtain ⟨⟨m, o⟩, hs, he⟩ := Option.map_eq_some_iff.mp h
      cases he
      unfold stepDecStrong at hs
      split at hs
      · simp at hs
      · rename_i p o' hstep
        obtain ⟨hab, hm⟩ := step_moves_of_resolve rfl hstep
        split_ifs at hs with hpa
        · obtain ⟨rfl, rfl⟩ := Prod.mk.inj (Option.some.inj hs)
          obtain ⟨f, hf, hp', ho⟩ := hm.aborts hab hpa
          obtain rfl : o' = [] := ho
          exact .crash _ s.other (.recvDecStrong a k) p f hab
            (.decStrong i j a k rest (by simpa using hp)) hf hp'
        · obtain ⟨rfl, rfl⟩ := Prod.mk.inj (Option.some.inj hs)
          exact .decStrong i j s a k rest p o' hp hab hm (not_not.mp hpa)

end Net

end Binder.Rpc
