import Mathlib.Algebra.Group.Int.Defs
import Binder.Lib.Transition

/-! Reads inside `sized_read`, which may be nested. -/
namespace Binder.Rust

open Lib List

/-- The length of the data of a parcel, and the `i32` at each position. -/
structure Source where
  dataSize : Nat
  word : Nat → BitVec 32

/-- `regions` are the starts and ends of the sized reads under way, the innermost first. -/
structure Reading where
  pos : Nat
  regions : List (Nat × Nat) := []
  deriving DecidableEq

namespace Reading

/-- Where `part` is set, the value is part of one whose read has begun. -/
inductive Op
  /-- a plain value, which may fail on the way -/
  | read (part : Bool) (pos : Nat) (ok : Bool)
  | sizedRead (part : Bool)
  /-- the closure of the innermost sized read returns -/
  | finish (ok : Bool)

def hasMoreData (s : Reading) : Bool := s.regions.head?.all (s.pos < ·.2)

/-- The end of the region that `sized_read` opens; `none` where it fails. -/
def opens (src : Source) (start : Nat) : Option Nat :=
  let parcelableSize := (src.word start).toInt
  if parcelableSize < 4 then none
  else if start + parcelableSize ≥ 2 ^ 31 ∨ start + parcelableSize > src.dataSize then none
  else some (start + parcelableSize.toNat)

def step (src : Source) (s : Reading) : Op → Option Reading
  | .read part pos _ =>
    if (part || s.hasMoreData) ∧ s.pos ≤ pos ∧ pos ≤ src.dataSize then some { s with pos } else none
  | .sizedRead part =>
    if (part || s.hasMoreData) ∧ s.pos + 4 ≤ src.dataSize then
      some ⟨s.pos + 4, ((opens src s.pos).map (s.pos, ·)).toList ++ s.regions⟩
    else none
  | .finish ok => match s.regions with
    | [] => none
    | r :: regions => some ⟨if ok then r.2 else s.pos, regions⟩

/-- What is read is inside every region, and a sized read ends where its region does. -/
def Confined (s s' : Reading) : Op → Prop
  | .read _ pos ok => ok = true → ∀ r ∈ s.regions, r.1 ≤ s.pos ∧ pos ≤ r.2
  | .sizedRead _ => ∀ r ∈ s.regions, r.1 ≤ s.pos ∧ s.pos + 4 ≤ r.2
  | .finish ok => ok = true → s.pos ≤ s'.pos ∧ ∀ r ∈ s.regions.head?, s'.pos = r.2

/-- The end of a value, or of the region that is opened for it. -/
def reach (src : Source) (s : Reading) : Op → Nat
  | .read _ pos _ => pos
  | .sizedRead _ => (opens src s.pos).getD (s.pos + 4)
  | .finish _ => 0

def OpOk (src : Source) (s : Reading) (op : Op) : Prop := ∀ r ∈ s.regions.head?, reach src s op ≤ r.2
deriving Decidable

/-- The position is inside every region, and the regions are nested. -/
structure Nested (s : Reading) : Prop where
  inside : ∀ r ∈ s.regions, r.1 ≤ s.pos ∧ s.pos ≤ r.2
  nested : s.regions.Pairwise fun r r' => r.2 ≤ r'.2

variable {src : Source} {s s' : Reading} {op : Op} {n : Nat}

theorem add_four_le_reach (src : Source) (s : Reading) (part : Bool) : s.pos + 4 ≤ reach src s (.sizedRead part) := by
  unfold reach opens
  dsimp only
  split_ifs <;> simp only [Option.getD_none, Option.getD_some] <;> omega

/-- What ends inside the innermost region ends inside all. -/
theorem Nested.le_all (h : Nested s) (hn : ∀ r ∈ s.regions.head?, n ≤ r.2) : ∀ r ∈ s.regions, n ≤ r.2 := by
  obtain ⟨-, hnested⟩ := h
  cases hregions : s.regions with
  | nil => simp
  | cons r rs =>
    rw [hregions] at hn hnested
    have hrs : ∀ r' ∈ rs, r.2 ≤ r'.2 := (pairwise_cons.mp hnested).1
    exact forall_mem_cons.mpr ⟨hn r rfl, fun r' hr' => Nat.le_trans (hn r rfl) (hrs r' hr')⟩

theorem Nested.step (h : Nested s) (hok : OpOk src s op) (hs : step src s op = some s') :
    Nested s' ∧ s.Confined s' op := by
  have hreach := h.le_all hok
  cases op with
  | read =>
    simp only [Reading.step] at hs
    split_ifs at hs with hmore
    cases hs
    have hstart (r : Nat × Nat) (hr : r ∈ s.regions) := (h.inside r hr).1
    refine ⟨⟨fun r hr => ⟨?_, hreach r hr⟩, h.nested⟩, fun _ r hr => ⟨hstart r hr, hreach r hr⟩⟩
    exact Nat.le_trans (hstart r hr) hmore.2.1
  | sizedRead part =>
    simp only [Reading.step] at hs
    split_ifs at hs
    cases hs
    have hfour := add_four_le_reach src s part
    have hin (r : Nat × Nat) (hr : r ∈ s.regions) : r.1 ≤ s.pos ∧ s.pos + 4 ≤ r.2 :=
      ⟨(h.inside r hr).1, Nat.le_trans hfour (hreach r hr)⟩
    refine ⟨?_, hin⟩
    have hold (r : Nat × Nat) (hr : r ∈ s.regions) : r.1 ≤ s.pos + 4 ∧ s.pos + 4 ≤ r.2 :=
      ⟨Nat.le_add_right_of_le (hin r hr).1, (hin r hr).2⟩
    cases hopens : opens src s.pos with
    | none => exact ⟨hold, h.nested⟩
    | some =>
      simp only [reach, hopens, Option.getD_some] at hreach hfour
      exact ⟨forall_mem_cons.mpr ⟨⟨Nat.le_add_right .., hfour⟩, hold⟩, pairwise_cons.mpr ⟨hreach, h.nested⟩⟩
  | finish =>
    cases hregions : s.regions with
    | nil => simp [Reading.step, hregions] at hs
    | cons =>
      obtain ⟨hin, hnested⟩ := h
      rw [hregions] at hin hnested
      simp only [Reading.step, hregions, Option.some.injEq] at hs
      subst hs
      obtain ⟨hr, hrs⟩ := forall_mem_cons.mp hin
      obtain ⟨hle, hnested⟩ := pairwise_cons.mp hnested
      refine ⟨⟨fun r' hr' => ?_, hnested⟩, ?_⟩
      · have hout := hrs r' hr'
        have hend := hle r' hr'
        dsimp only
        split_ifs <;> omega
      · rintro rfl
        exact ⟨hr.2, by simp [hregions]⟩

/-- A value that reaches behind its region can be followed by a step back. -/
theorem steps_back (hok : ¬ OpOk src s op) (hs : step src s op = some s') : ∃ t t', Reachable (step src) Free s' t ∧
    step src t (.finish true) = some t' ∧ t'.pos < t.pos := by
  cases hregions : s.regions with
  | nil => simp [OpOk, hregions] at hok
  | cons r rs =>
    have hlt : r.2 < reach src s op := by simpa [OpOk, hregions] using hok
    refine ⟨⟨reach src s op, s.regions⟩, ⟨r.2, rs⟩, ?_, by simp [step, hregions], hlt⟩
    cases op with
    | read =>
      simp only [step] at hs
      split_ifs at hs
      cases hs
      exact .init
    | sizedRead =>
      simp only [step] at hs
      split_ifs at hs
      cases hs
      cases hopens : opens src s.pos with
      | none => simpa [reach, hopens] using Reachable.init
      | some => exact .next .init trivial (a := .finish true) (by simp [step, reach, hopens])
    | finish => simp [reach] at hlt

/-- In every run whose reads all meet the condition, and in no other. -/
theorem reads_confined {start : Nat} (h : Reachable (step src) (OpOk src) { pos := start } s)
    (hs : step src s op = some s') : (OpOk src s op → s.Confined s' op) ∧ (¬ OpOk src s op → ∃ t t',
      Reachable (step src) Free s' t ∧ step src t (.finish true) = some t' ∧ t'.pos < t.pos) := by
  have hnested : Nested s := h.invariant Nested ⟨by simp, .nil⟩ fun _ _ _ h hok hs => (h.step hok hs).1
  exact ⟨fun hok => (hnested.step hok hs).2, fun hok => steps_back hok hs⟩

/-- A sized value behind a plain one, inside a sized read. -/
theorem reads_confined_nested : ∃ src s s', step src s (.finish true) = some s' ∧ s.pos = 14 ∧ s'.pos = 16 ∧
    s.Confined s' (.finish true) := by
  let src : Source := ⟨20, fun i => if i = 0 then 16 else 8⟩
  obtain ⟨s, hs, rfl⟩ := exists_reachable (step src) (OpOk src) { pos := 0 }
    [.sizedRead false, .read false 8 true, .sizedRead false, .read false 14 true] (· = ⟨14, [(8, 16), (0, 16)]⟩)
    (by decide +kernel)
  exact ⟨src, _, ⟨16, [(0, 16)]⟩, rfl, rfl, rfl, (reads_confined hs rfl).1 (by decide)⟩

/-- Eight bytes are read where the region has four left. -/
theorem not_confined_wide : ∃ src s s' op, Reachable (step src) Free { pos := 0 } s ∧ step src s op = some s' ∧
    ¬ s.Confined s' op := by
  refine ⟨⟨12, fun _ => 8⟩, ⟨4, [(0, 8)]⟩, ⟨12, [(0, 8)]⟩, .read false 12 true, ?_, by decide, by simp [Confined]⟩
  exact .next .init trivial (a := .sizedRead false) (by decide)

end Reading

end Binder.Rust
