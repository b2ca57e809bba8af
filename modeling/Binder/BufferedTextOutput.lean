import Binder.Lib.Transition
import Mathlib.Algebra.Group.Nat.Defs
import Mathlib.Logic.Function.Basic

/-! The `BufferState` of a thread for a `BufferedTextOutput` with `MULTITHREADED`. -/
namespace Binder.BufferedTextOutput

open Lib Function

/-- `number` counts the objects made before; `mSeq` is what is left of it in an `int32_t`. -/
structure Output where
  number : ℕ
  mIndex : ℕ
  deriving DecidableEq

def Output.mSeq (o : Output) : ℕ := o.number % 2 ^ 32

/-- No call reads `id`, the number of states made before. -/
structure BufferState where
  seq : ℕ
  id : ℕ
  deriving DecidableEq

/-- A call of `getBuffer`, with the number of the object and the state that it got. -/
structure Use where
  thread : ℕ
  object : ℕ
  state : ℕ
  deriving DecidableEq

/-- `free` are the indices from `gFreeBufferIndex` on, `size` is that of `gTextBuffers`. `states` is what a thread has
under an index, `made` lists for whom a state was made. -/
structure System where
  gSequence : ℕ := 0
  size : ℕ := 0
  free : List ℕ := []
  live : List Output := []
  states : ℕ × ℕ → Option BufferState := fun _ => none
  made : List (ℕ × ℕ) := []
  uses : List Use := []

inductive Op
  | create
  | destroy (o : Output)
  | call (thread : ℕ) (o : Output)

namespace System

def allocBufferIndex (s : System) : ℕ × System :=
  match s.free with
  | i :: free => (i, { s with free })
  | [] => (s.size, { s with size := s.size + 1 })

def getBuffer (thread : ℕ) (o : Output) (s : System) : BufferState × System :=
  match (s.states (thread, o.mIndex)).filter (·.seq = o.mSeq) with
  | some bs => (bs, s)
  | none =>
    -- not `mSeq`, which is what the state is looked for by
    let bs := ⟨o.mIndex % 2 ^ 32, s.made.length⟩
    (bs, { s with states := update s.states (thread, o.mIndex) bs, made := s.made ++ [(thread, o.mIndex)] })

def step (s : System) : Op → Option System
  | .create =>
    let (mIndex, s') := s.allocBufferIndex
    some { s' with gSequence := s.gSequence + 1, live := ⟨s.gSequence, mIndex⟩ :: s.live }
  | .destroy o =>
    if o ∈ s.live then some { s with live := s.live.erase o, free := o.mIndex :: s.free } else none
  | .call thread o =>
    let (bs, s') := s.getBuffer thread o
    if o ∈ s.live then some { s' with uses := ⟨thread, o.number, bs.id⟩ :: s.uses } else none

/-- The calls of a thread on an object get the same state, and no other object gets it. -/
def Persistent (s : System) : Prop :=
  ∀ u ∈ s.uses, ∀ v ∈ s.uses, (u.thread = v.thread → u.object = v.object → u.state = v.state) ∧
    (u.state = v.state → u.object = v.object)

/-- Calls are made on objects whose number is their index. -/
def OpOk (_ : System) : Op → Prop
  | .call _ o => o.number = o.mIndex
  | _ => True

instance (s : System) : (op : Op) → Decidable (s.OpOk op)
  | .call .. => inferInstanceAs (Decidable (_ = _))
  | .create | .destroy _ => .isTrue trivial

structure Inv (s : System) : Prop where
  states : ∀ k bs, s.states k = some bs → bs.seq = k.2 % 2 ^ 32 ∧ s.made[bs.id]? = some k
  uses : ∀ u ∈ s.uses, ∃ bs, s.states (u.thread, u.object) = some bs ∧ bs.id = u.state

variable {s s' : System}

theorem Inv.persistent (h : s.Inv) : s.Persistent := by
  intro u hu v hv
  obtain ⟨bs, hbs, hid⟩ := h.uses u hu
  obtain ⟨bs', hbs', hid'⟩ := h.uses v hv
  constructor
  · intro ht ho
    rw [ht, ho, hbs'] at hbs
    rw [← hid, ← hid', Option.some.inj hbs]
  · intro hst
    have hplace := (h.states _ bs hbs).2
    rw [hid, hst, ← hid', (h.states _ bs' hbs').2] at hplace
    exact (Prod.mk.inj (Option.some.inj hplace)).2.symm

/-- Where the index is the number of the object, a state that the thread has there is found. -/
theorem Inv.getBuffer (h : s.Inv) {thread : ℕ} {o : Output} (hok : o.number = o.mIndex) :
    s.states (thread, o.number) = some (s.getBuffer thread o).1 ∧ (s.getBuffer thread o).2 = s ∨
      s.states (thread, o.number) = none ∧ s.getBuffer thread o = (⟨o.mSeq, s.made.length⟩, { s with
        states := update s.states (thread, o.number) (some ⟨o.mSeq, s.made.length⟩)
        made := s.made ++ [(thread, o.number)] }) := by
  unfold System.getBuffer Output.mSeq
  rw [hok]
  cases hk : s.states (thread, o.mIndex) with
  | none => exact .inr ⟨rfl, rfl⟩
  | some bs =>
    rw [Option.filter_some, (h.states _ bs hk).1]
    simp

theorem Inv.step {op : Op} (h : s.Inv) (hok : s.OpOk op) (hs : s.step op = some s') : s'.Inv := by
  cases op with
  | create =>
    simp only [System.step, allocBufferIndex] at hs
    split at hs
    all_goals
      cases hs
      exact ⟨h.states, h.uses⟩
  | destroy =>
    simp only [System.step] at hs
    split_ifs at hs
    cases hs
    exact ⟨h.states, h.uses⟩
  | call =>
    simp only [System.step] at hs
    split_ifs at hs
    cases hs
    rcases h.getBuffer hok with ⟨hfound, hsame⟩ | ⟨hnone, hnew⟩
    · rw [hsame]
      exact ⟨h.states, List.forall_mem_cons.mpr ⟨⟨_, hfound, rfl⟩, h.uses⟩⟩
    · rw [hnew]
      refine ⟨fun k bs hk => ?_, List.forall_mem_cons.mpr ⟨⟨_, update_self .., rfl⟩, fun u hu => ?_⟩⟩
      · simp only [update_apply] at hk
        split_ifs at hk with hkey
        · cases hk
          simp [hkey, Output.mSeq]
        · obtain ⟨hseq, hmade⟩ := h.states k bs hk
          exact ⟨hseq, List.getElem?_append_left (List.getElem?_eq_some_iff.mp hmade).1 ▸ hmade⟩
      · obtain ⟨bs, hbs, hid⟩ := h.uses u hu
        refine ⟨bs, (update_of_ne ?_ ..).trans hbs, hid⟩
        intro heq
        cases (heq ▸ hbs).symm.trans hnone

/-- In every run whose calls all meet the condition. -/
theorem states_persistent (h : Reachable step OpOk {} s) : s.Persistent :=
  (h.invariant Inv ⟨nofun, nofun⟩ fun _ _ _ h => h.step).persistent

/-- Two threads use two objects in turn. -/
theorem states_persistent_twice : ∃ s : System, s.uses.length = 4 ∧ s.Persistent := by
  let a : Output := ⟨0, 0⟩
  let b : Output := ⟨1, 1⟩
  obtain ⟨s, hs, huses⟩ := exists_reachable step OpOk {} [.create, .create, .call 0 a, .call 0 b, .call 1 a, .call 0 a]
    (·.uses.length = 4) (by decide +kernel)
  exact ⟨s, huses, states_persistent hs⟩

/-- The first object is destroyed, and the next one gets its index: each call on it makes a new state. -/
theorem not_states_persistent : ∃ s : System, Reachable step Free {} s ∧ s.live = [⟨1, 0⟩] ∧ ¬ s.Persistent := by
  obtain ⟨s, hs, hlive, huses⟩ := exists_reachable step Free {}
    [.create, .destroy ⟨0, 0⟩, .create, .call 0 ⟨1, 0⟩, .call 0 ⟨1, 0⟩]
    (fun s => s.live = [⟨1, 0⟩] ∧ s.uses = [⟨0, 1, 1⟩, ⟨0, 1, 0⟩]) (by decide +kernel)
  refine ⟨s, hs, hlive, fun h => ?_⟩
  have := (h ⟨0, 1, 1⟩ (by simp [huses]) ⟨0, 1, 0⟩ (by simp [huses])).1 rfl rfl
  cases this

end System

end Binder.BufferedTextOutput
