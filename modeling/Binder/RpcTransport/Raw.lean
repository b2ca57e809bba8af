import Mathlib.Algebra.Order.BigOperators.Group.List
import Mathlib.Algebra.Order.Group.Nat
import Mathlib.Algebra.GroupWithZero.Nat
import Mathlib.Data.List.DropRight
import Binder.Lib.Transition
import Binder.Status

/-! Transfer of a list of vectors over a raw socket that takes or gives any part of them at a time. -/
namespace Binder.RpcTransport.Raw
open Binder.Lib List

structure Iovec where
  iov_base : ℕ
  iov_len : ℕ
  deriving DecidableEq, Repr

def addresses (iovs : List Iovec) : List ℕ := iovs.flatMap fun v => List.range' v.iov_base v.iov_len

def requested (iovs : List Iovec) : ℕ := (iovs.map Iovec.iov_len).sum

/-- `EWOULDBLOCK` is `EAGAIN`; `other` carries any further number. -/
inductive Errno
  | eintr
  | eagain
  | epipe
  | other (code : ℕ)
  deriving DecidableEq, Repr

def Errno.status : Errno → Status
  | .eintr => .other (-4)
  | .eagain => .wouldBlock
  | .epipe => .deadObject
  | .other code => .other (-code)

inductive Phase
  | calling
  | polling
  | returned (status : Status)
  | fatal
  deriving DecidableEq, Repr

/-- `interruptableReadOrWrite` between two calls, with the bytes transferred and the requests passed to the socket. -/
structure State where
  iovs : List Iovec
  phase : Phase := .calling
  havePolled : Bool := false
  transferred : List ℕ := []
  requests : List (List Iovec) := []
  deriving DecidableEq, Repr

/-- Up to the loop. The array at `iovs` has at least `niovs` entries. -/
def start (iovs : List Iovec) (niovs : ℤ) (triggered : Bool) : State :=
  let given := iovs.take niovs.toNat
  if niovs < 0 then { iovs := given, phase := .returned .badValue }
  else if triggered then { iovs := given, phase := .returned .deadObject }
  else
    let trimmed := given.rdropWhile fun v => v.iov_len == 0
    if trimmed = [] then { iovs := trimmed, phase := .returned .ok } else { iovs := trimmed }

/-- The vectors behind `processSize` bytes, and what is left of `processSize`. -/
def advance : List Iovec → ℕ → List Iovec × ℕ
  | [], processSize => ([], processSize)
  | iov :: iovs, processSize =>
    if processSize = 0 then (iov :: iovs, 0)
    else if processSize < iov.iov_len then
      (⟨iov.iov_base + processSize, iov.iov_len - processSize⟩ :: iovs, processSize)
    else advance iovs (processSize - iov.iov_len)

/-- What `sendmsg` or `recvmsg` returns, and what the poll behind it returns. -/
inductive Op
  | process (result : Except Errno ℕ)
  | poll (status : Status) (triggered : Bool)
  deriving Repr

def State.processed (s : State) (processSize : ℕ) : State :=
  let s := { s with transferred := s.transferred ++ (addresses s.iovs).take processSize }
  let (iovs, left) := advance s.iovs processSize
  if iovs = [] then { s with iovs := iovs, phase := if 0 < left then .fatal else .returned .ok }
  else { s with iovs := iovs, phase := .polling }

/-- One call of the loop; the socket does not take or give more than it was asked for. -/
def step (altPoll : Bool) (s : State) : Op → Option State
  | .process result =>
    if s.phase = .calling then
      let s := { s with requests := s.iovs :: s.requests }
      match result with
      | .error .eintr => some s
      | .error savedErrno =>
        if s.havePolled = true ∨ savedErrno ≠ .eagain then some { s with phase := .returned savedErrno.status }
        else some { s with phase := .polling }
      | .ok 0 => some { s with phase := .returned .deadObject }
      | .ok processSize => if processSize ≤ requested s.iovs then some (s.processed processSize) else none
    else none
  | .poll status triggered =>
    if s.phase = .polling then
      if status ≠ .ok then some { s with phase := .returned status }
      else if altPoll then some { s with phase := if triggered then .returned .deadObject else .calling }
      else some { s with phase := .calling, havePolled := true }
    else none

/-- What `rpcSend` and `rpcRec` return, and whether they shut the session down. -/
structure Ended where
  status : Status
  shutdown : Bool
  deriving DecidableEq, Repr

def State.handOn (s : State) : Option Ended :=
  match s.phase with
  | .returned status => some (if status ≠ .ok then ⟨status, true⟩ else ⟨.ok, false⟩)
  | _ => none

section Vectors

variable {iovs : List Iovec} {n : ℕ}

@[simp] theorem addresses_cons (v : Iovec) (vs : List Iovec) :
    addresses (v :: vs) = List.range' v.iov_base v.iov_len ++ addresses vs := rfl

@[simp] theorem addresses_append (vs ws : List Iovec) : addresses (vs ++ ws) = addresses vs ++ addresses ws := by
  simp [addresses]

theorem addresses_of_empty {vs : List Iovec} (h : ∀ v ∈ vs, v.iov_len = 0) : addresses vs = [] := by
  induction vs with
  | nil => rfl
  | cons v vs ih =>
    have hv : v.iov_len = 0 := h v mem_cons_self
    have hvs : addresses vs = [] := ih fun w hw => h w (mem_cons_of_mem v hw)
    simp [hv, hvs]

theorem addresses_trimmed (vs : List Iovec) : addresses (vs.rdropWhile fun v => v.iov_len == 0) = addresses vs := by
  have hempty : addresses (vs.rtakeWhile fun v => v.iov_len == 0) = [] := by
    apply addresses_of_empty
    intro v hv
    have hlen := mem_rtakeWhile_imp hv
    simpa using hlen
  have hsplit := congrArg addresses (rdropWhile_append_rtakeWhile (p := fun v : Iovec => v.iov_len == 0) (l := vs))
  rw [addresses_append, hempty, append_nil] at hsplit
  exact hsplit

def LastFull (iovs : List Iovec) : Prop := ∃ v, iovs.getLast? = some v ∧ 0 < v.iov_len

theorem lastFull_cons_cons {v w : Iovec} {vs : List Iovec} : LastFull (v :: w :: vs) ↔ LastFull (w :: vs) := by
  simp [LastFull, List.getLast?_cons_cons]

theorem LastFull.requested_pos (h : LastFull iovs) : 0 < requested iovs := by
  obtain ⟨v, hv, hlen⟩ := h
  have hmem : v.iov_len ∈ iovs.map Iovec.iov_len := mem_map_of_mem (mem_of_getLast? hv)
  have hle := le_sum_of_mem hmem
  unfold requested
  omega

theorem lastFull_trimmed {vs : List Iovec} (h : (vs.rdropWhile fun v => v.iov_len == 0) ≠ []) :
    LastFull (vs.rdropWhile fun v => v.iov_len == 0) := by
  have hlast := rdropWhile_last_not (fun v : Iovec => v.iov_len == 0) vs h
  refine ⟨_, List.getLast?_eq_some_getLast h, ?_⟩
  simp only [beq_iff_eq] at hlast
  omega

theorem addresses_advance (hn : n ≤ requested iovs) : addresses (advance iovs n).1 = (addresses iovs).drop n := by
  induction iovs generalizing n with
  | nil => simp [advance, addresses]
  | cons v vs ih =>
    unfold advance
    split_ifs with hzero hlt
    · simp [hzero]
    · have hdrop : n - v.iov_len = 0 := by omega
      simp [drop_append, drop_range', hdrop]
    · have hrest : n - v.iov_len ≤ requested vs := by
        simp only [requested, map_cons, sum_cons] at hn ⊢
        omega
      have hgone : (List.range' v.iov_base v.iov_len).drop n = [] := by
        apply drop_eq_nil_of_le
        simp only [length_range']
        omega
      rw [ih hrest, addresses_cons, drop_append, hgone, length_range', nil_append]

theorem advance_end (hn : n ≤ requested iovs) (hend : (advance iovs n).1 = []) : (advance iovs n).2 = 0 := by
  induction iovs generalizing n with
  | nil =>
    simp only [requested, map_nil, sum_nil] at hn
    simp only [advance]
    omega
  | cons v vs ih =>
    unfold advance at hend ⊢
    split_ifs at hend ⊢
    have hrest : n - v.iov_len ≤ requested vs := by
      simp only [requested, map_cons, sum_cons] at hn ⊢
      omega
    exact ih hrest hend

theorem LastFull.advance (h : LastFull iovs) (hne : (advance iovs n).1 ≠ []) : LastFull (advance iovs n).1 := by
  induction iovs generalizing n with
  | nil => exact absurd rfl hne
  | cons v vs ih =>
    unfold Raw.advance at hne ⊢
    split_ifs at hne ⊢ with hzero hlt
    · exact h
    · cases vs with
      | nil => exact ⟨_, rfl, Nat.sub_pos_of_lt hlt⟩
      | cons => exact lastFull_cons_cons.mpr (lastFull_cons_cons.mp h)
    · cases vs with
      | nil => exact absurd rfl hne
      | cons => exact ih (lastFull_cons_cons.mp h) hne

end Vectors

section Runs

variable {altPoll : Bool} {all : List ℕ} {s s' : State} {op : Op}

/-- The vectors hold what is still to be transferred, and the loop goes on only while that is something. -/
structure Advancing (all : List ℕ) (s : State) : Prop where
  split : s.transferred ++ addresses s.iovs = all
  requests : ∀ q ∈ s.requests, 0 < requested q
  lastFull : s.phase = .calling ∨ s.phase = .polling → LastFull s.iovs
  whole : s.phase = .returned .ok → addresses s.iovs = []
  not_fatal : s.phase ≠ .fatal

theorem advancing_start (iovs : List Iovec) (niovs : ℤ) (triggered : Bool) :
    Advancing (addresses (iovs.take niovs.toNat)) (start iovs niovs triggered) := by
  unfold start
  dsimp only
  split_ifs with hneg htriggered hempty
  · constructor <;> simp
  · constructor <;> simp
  · have hnone := addresses_trimmed (iovs.take niovs.toNat)
    constructor
    case split => exact hempty ▸ hnone
    case whole => simp [hempty, addresses]
    all_goals simp
  · have hlast := lastFull_trimmed hempty
    constructor <;> simp [addresses_trimmed, hlast]

theorem Advancing.logged (h : Advancing all s) (hphase : s.phase = .calling) :
    Advancing all { s with requests := s.iovs :: s.requests } := by
  constructor
  case requests =>
    intro q hq
    rcases mem_cons.mp hq with rfl | hq
    · exact (h.lastFull (.inl hphase)).requested_pos
    · exact h.requests q hq
  case split => exact h.split
  case lastFull => exact h.lastFull
  case whole => exact h.whole
  case not_fatal => exact h.not_fatal

/-- Nothing was transferred, and the call ends or the loop goes on. -/
theorem Advancing.moved (h : Advancing all s) (hlast : LastFull s.iovs) {phase : Phase} {havePolled : Bool}
    (hok : phase ≠ .returned .ok) (hfatal : phase ≠ .fatal) :
    Advancing all { s with phase := phase, havePolled := havePolled } where
  split := h.split
  requests := h.requests
  lastFull _ := hlast
  whole hw := absurd hw hok
  not_fatal := hfatal

theorem Advancing.processed (h : Advancing all s) (hlast : LastFull s.iovs) {processSize : ℕ}
    (hn : processSize ≤ requested s.iovs) : Advancing all (s.processed processSize) := by
  have hsplit : (s.transferred ++ (addresses s.iovs).take processSize) ++ addresses (advance s.iovs processSize).1 =
      all := by
    rw [addresses_advance hn, append_assoc, take_append_drop]
    exact h.split
  unfold State.processed
  dsimp only
  split_ifs with hend hleft
  · exact absurd hleft (by rw [advance_end hn hend]; exact Nat.lt_irrefl 0)
  · constructor
    case split => exact hsplit
    case requests => exact h.requests
    case whole => simp [hend, addresses]
    case lastFull => simp
    case not_fatal => simp
  · constructor
    case split => exact hsplit
    case requests => exact h.requests
    case lastFull => exact fun _ => hlast.advance hend
    case whole => simp
    case not_fatal => simp

theorem status_ne_ok (e : Errno) : e.status ≠ .ok := by cases e <;> simp [Errno.status]

theorem Advancing.step (h : Advancing all s) (hs : step altPoll s op = some s') : Advancing all s' := by
  cases op with
  | process =>
    simp only [Raw.step] at hs
    split_ifs at hs with hphase
    have hlast : LastFull s.iovs := h.lastFull (.inl hphase)
    have hlogged := h.logged hphase
    split at hs
    · cases hs
      exact hlogged
    · split_ifs at hs
      · cases hs
        exact hlogged.moved hlast (by simpa using status_ne_ok _) (by simp)
      · cases hs
        exact hlogged.moved hlast (by simp) (by simp)
    · cases hs
      exact hlogged.moved hlast (by simp) (by simp)
    · split_ifs at hs with hn
      cases hs
      exact hlogged.processed hlast hn
  | poll =>
    simp only [Raw.step] at hs
    split_ifs at hs with hphase hstatus halt htriggered
    all_goals have hlast : LastFull s.iovs := h.lastFull (.inr hphase)
    · cases hs
      exact h.moved hlast (by simpa using hstatus) (by simp)
    · cases hs
      exact h.moved hlast (by simp) (by simp)
    · cases hs
      exact h.moved hlast (by simp) (by simp)
    · cases hs
      exact h.moved hlast (by simp) (by simp)

theorem advancing_of_reachable {iovs : List Iovec} {niovs : ℤ} {triggered : Bool}
    (h : Reachable (step altPoll) Free (start iovs niovs triggered) s) :
    Advancing (addresses (iovs.take niovs.toNat)) s :=
  h.invariant (Advancing _) (advancing_start iovs niovs triggered) fun _ _ _ ha _ hs => ha.step hs

/-- The bytes of the vectors are transferred once and in order, and all of them when the call returns `OK`. -/
theorem transfers_vectors {iovs : List Iovec} {niovs : ℤ} {triggered : Bool}
    (h : Reachable (step altPoll) Free (start iovs niovs triggered) s) :
    (s.phase = .returned .ok → s.transferred = addresses (iovs.take niovs.toNat)) ∧
      s.transferred <+: addresses (iovs.take niovs.toNat) ∧
      (∀ q ∈ s.requests, 0 < requested q) ∧ s.phase ≠ .fatal := by
  have hadv := advancing_of_reachable h
  refine ⟨?_, ?_, hadv.requests, hadv.not_fatal⟩
  · intro hok
    have hsplit := hadv.split
    rw [hadv.whole hok, append_nil] at hsplit
    exact hsplit
  · exact ⟨addresses s.iovs, hadv.split⟩

/-- A call that ends inside a vector, one that ends behind an empty one, `EAGAIN`, and a poll between them. -/
theorem transfers_vectors_in_parts : ∃ s, Reachable (step true) Free
    (start [⟨100, 3⟩, ⟨200, 0⟩, ⟨300, 4⟩, ⟨400, 0⟩] 4 false) s ∧ s.phase = .returned .ok ∧
    s.transferred = [100, 101, 102, 300, 301, 302, 303] ∧ s.requests.length = 4 := by
  obtain ⟨s, hs, hend, hcalls⟩ := exists_reachable (step true) Free
    (start [⟨100, 3⟩, ⟨200, 0⟩, ⟨300, 4⟩, ⟨400, 0⟩] 4 false)
    [.process (.ok 2), .poll .ok false, .process (.error .eagain), .poll .ok false, .process (.ok 1), .poll .ok false,
      .process (.ok 4)]
    (fun s => s.phase = .returned .ok ∧ s.requests.length = 4) (by decide +kernel)
  exact ⟨s, hs, hend, (transfers_vectors hs).1 hend, hcalls⟩

/-- `rpcSend` and `rpcRec` either have moved everything or shut the session down. -/
theorem handOn_whole_or_shutdown {iovs : List Iovec} {niovs : ℤ} {triggered : Bool} {e : Ended}
    (h : Reachable (step altPoll) Free (start iovs niovs triggered) s) (he : s.handOn = some e) :
    e.status = .ok ∧ e.shutdown = false ∧ s.transferred = addresses (iovs.take niovs.toNat) ∨
      e.status ≠ .ok ∧ e.shutdown = true := by
  have hadv := advancing_of_reachable h
  unfold State.handOn at he
  split at he
  case h_2 => cases he
  case h_1 status hphase =>
    cases he
    split_ifs with hok
    · exact .inr ⟨hok, rfl⟩
    · have hstatus : status = .ok := not_not.mp hok
      have hsplit := hadv.split
      rw [hadv.whole (hstatus ▸ hphase), append_nil] at hsplit
      exact .inl ⟨rfl, rfl, hsplit⟩

end Runs

end Binder.RpcTransport.Raw
