import Mathlib.Data.List.TakeDrop
import Mathlib.Tactic.Common

/-! The loop of `execute` that drains the two pipes of a child. -/
namespace Binder.UtilsHost
open List

/-- `left` is what the child writes before it closes its end, as far as it has not been read. -/
structure Pipe where
  left : List UInt8
  str : List UInt8 := []
  ok : Bool := true

/-- The events of one pipe in a round, and what `read` returns if it is called. -/
structure Poll where
  pollIn : Bool
  pollHup : Bool
  n : ℕ

/-- Once the other end is closed, all that is left can be read. -/
structure Poll.Lawful (p : Pipe) (r : Poll) : Prop where
  read : r.pollIn → r.n ≤ 1024 ∧ r.n ≤ p.left.length ∧ (p.left ≠ [] → 0 < r.n)
  readable : r.pollHup → p.left ≠ [] → r.pollIn

def handlePoll (p : Pipe) (r : Poll) : Pipe :=
  if p.ok then
    let p := if r.pollIn then { p with str := p.str ++ p.left.take r.n, left := p.left.drop r.n } else p
    if r.pollHup then { p with ok := false } else p
  else p

structure Command where
  outPipe : Pipe
  errPipe : Pipe

/-- `none` where a pipe is still open after the rounds. -/
def execute : List (Poll × Poll) → Command → Option Command
  | [], c => if c.outPipe.ok || c.errPipe.ok then none else some c
  | r :: rs, c =>
    if c.outPipe.ok || c.errPipe.ok then execute rs ⟨handlePoll c.outPipe r.1, handlePoll c.errPipe r.2⟩ else some c

/-- The round in which `POLLHUP` is reported takes all that is left. -/
def TakesRest (p : Pipe) (r : Poll) : Prop := p.ok → r.pollHup → p.left.length ≤ if r.pollIn then r.n else 0

/-- The rounds of a pipe all meet `C`. -/
def Along (C : Pipe → Poll → Prop) : Pipe → List Poll → Prop
  | _, [] => True
  | p, r :: rs => C p r ∧ Along C (handlePoll p r) rs

variable {p : Pipe} {r : Poll} {rs : List Poll}

theorem handlePoll_of_closed (h : p.ok = false) : handlePoll p r = p := by
  simp [handlePoll, h]

theorem foldl_of_closed (h : p.ok = false) : rs.foldl handlePoll p = p := by
  induction rs with
  | nil => rfl
  | cons r rs ih => rw [foldl_cons, handlePoll_of_closed h, ih]

theorem along_of_closed (h : p.ok = false) : Along TakesRest p rs := by
  induction rs with
  | nil => trivial
  | cons r rs ih => exact ⟨fun hok => by simp [h] at hok, (handlePoll_of_closed h).symm ▸ ih⟩

theorem handlePoll_ok (p : Pipe) (r : Poll) : (handlePoll p r).ok = (p.ok && !r.pollHup) := by
  unfold handlePoll
  split_ifs <;> simp_all

theorem foldl_ok_of_hup (h : ∃ r ∈ rs, r.pollHup) : (rs.foldl handlePoll p).ok = false := by
  induction rs generalizing p with
  | nil => simp at h
  | cons r rs ih =>
    rw [foldl_cons]
    cases hr : r.pollHup with
    | true =>
      have hclosed : (handlePoll p r).ok = false := by simp [handlePoll_ok, hr]
      rw [foldl_of_closed hclosed, hclosed]
    | false => exact ih (by simpa [hr] using h)

/-- Of an open pipe, what was read and what is left are the stream. -/
theorem handlePoll_stream (h : p.ok) : (handlePoll p r).str ++ (handlePoll p r).left = p.str ++ p.left := by
  unfold handlePoll
  split_ifs <;> simp

theorem handlePoll_str (h : p.ok) :
    (handlePoll p r).str = p.str ++ p.left ↔ p.left.length ≤ if r.pollIn then r.n else 0 := by
  unfold handlePoll
  split_ifs <;> simp

theorem str_foldl_iff (hok : p.ok) (hhup : ∃ r ∈ rs, r.pollHup) :
    (rs.foldl handlePoll p).str = p.str ++ p.left ↔ Along TakesRest p rs := by
  induction rs generalizing p with
  | nil => simp at hhup
  | cons r rs ih =>
    rw [foldl_cons, Along]
    cases hr : r.pollHup with
    | true =>
      have hclosed : (handlePoll p r).ok = false := by simp [handlePoll_ok, hr]
      rw [foldl_of_closed hclosed, handlePoll_str hok]
      simp [TakesRest, hok, hr, along_of_closed hclosed]
    | false =>
      have hopen : (handlePoll p r).ok := by simp [handlePoll_ok, hr, hok]
      rw [← handlePoll_stream (r := r) hok, ih hopen (by simpa [hr] using hhup)]
      simp [TakesRest, hr]

/-- Rounds that a closed pipe still gets change nothing, so the loop may end before them. -/
theorem execute_eq {rounds : List (Poll × Poll)} {c : Command}
    (hout : ((rounds.map Prod.fst).foldl handlePoll c.outPipe).ok = false)
    (herr : ((rounds.map Prod.snd).foldl handlePoll c.errPipe).ok = false) : execute rounds c = some
      ⟨(rounds.map Prod.fst).foldl handlePoll c.outPipe, (rounds.map Prod.snd).foldl handlePoll c.errPipe⟩ := by
  induction rounds generalizing c with
  | nil => simp_all [execute]
  | cons r rounds ih =>
    unfold execute
    split_ifs with hopen
    · exact ih hout herr
    · obtain ⟨ho, he⟩ : c.outPipe.ok = false ∧ c.errPipe.ok = false := by simpa using hopen
      rw [foldl_of_closed ho, foldl_of_closed he]

/-- Once both pipes have hung up the loop has ended, and both streams are complete just where the rounds took all. -/
theorem execute_complete_iff (out err : List UInt8) (rounds : List (Poll × Poll))
    (hout : ∃ r ∈ rounds.map Prod.fst, r.pollHup) (herr : ∃ r ∈ rounds.map Prod.snd, r.pollHup) :
    ∃ c, execute rounds ⟨{ left := out }, { left := err }⟩ = some c ∧
      (c.outPipe.str = out ∧ c.errPipe.str = err ↔ Along TakesRest { left := out } (rounds.map Prod.fst) ∧
        Along TakesRest { left := err } (rounds.map Prod.snd)) := by
  refine ⟨_, execute_eq (foldl_ok_of_hup hout) (foldl_ok_of_hup herr), and_congr ?_ ?_⟩
  · exact str_foldl_iff rfl hout
  · exact str_foldl_iff rfl herr

/-- Two bytes are read together with the hang-up. -/
theorem execute_complete_two : ∃ c, execute [(⟨true, true, 2⟩, ⟨false, true, 0⟩)] ⟨{ left := [1, 2] }, { left := [] }⟩ =
    some c ∧ c.outPipe.str = [1, 2] ∧ c.errPipe.str = [] := by
  obtain ⟨c, hc, hiff⟩ := execute_complete_iff [1, 2] [] [(⟨true, true, 2⟩, ⟨false, true, 0⟩)] (by simp) (by simp)
  exact ⟨c, hc, hiff.mpr (by simp [Along, TakesRest])⟩

/-- Of 1025 bytes that are left at the hang-up the last one is lost. -/
theorem execute_loses_byte : ∃ out r c, Poll.Lawful { left := out } r ∧ Poll.Lawful { left := [] } ⟨false, true, 0⟩ ∧
    execute [(r, ⟨false, true, 0⟩)] ⟨{ left := out }, { left := [] }⟩ = some c ∧ c.outPipe.str ≠ out := by
  obtain ⟨out, hlen⟩ : ∃ out : List UInt8, out.length = 1025 := ⟨_, length_replicate (a := 0)⟩
  refine ⟨out, ⟨true, true, 1024⟩, _, ⟨by simp [hlen], by simp⟩, ⟨by simp, by simp⟩, rfl, ?_⟩
  simp [handlePoll, hlen]

end Binder.UtilsHost
