import Mathlib.Data.List.Basic

/-! Traces of accesses to blocks of memory, the latest access first. -/
namespace Binder.Lib
open List

/-- `enter` is a store of something that is not counted as data, `copy` a copy of the first bytes of
another block. `realloc` says whether the old block was given back. -/
inductive Access
  | load (b : ℕ)
  | store (b off len : ℕ)
  | copy (b src len : ℕ)
  | enter (b : ℕ)
  | wipe (b len : ℕ)
  | realloc (b : ℕ) (released : Bool)
  | free (b : ℕ)
  deriving DecidableEq, Repr

namespace Access

def block : Access → ℕ
  | load b | store b _ _ | copy b _ _ | enter b | wipe b _ | realloc b _ | free b => b

def releases : Access → Bool
  | realloc _ released => released
  | free _ => true
  | load _ | store .. | copy .. | enter _ | wipe .. => false

/-- `later` hits a block that `earlier` gave back. -/
def Dangles (later earlier : Access) : Prop := earlier.releases = true ∧ earlier.block = later.block

end Access

/-- No access hits a block that was given back before it. -/
def Sound (trace : List Access) : Prop := trace.Pairwise fun later earlier => ¬ Access.Dangles later earlier

def Released (trace : List Access) (b : ℕ) : Prop := ∃ a ∈ trace, a.releases = true ∧ a.block = b

variable {trace : List Access} {a : Access} {b : ℕ}

theorem released_cons : Released (a :: trace) b ↔ a.releases = true ∧ a.block = b ∨ Released trace b := by
  simp [Released]

theorem sound_cons : Sound (a :: trace) ↔ ¬ Released trace a.block ∧ Sound trace := by
  unfold Sound
  rw [pairwise_cons]
  refine and_congr_left fun _ => ?_
  simp only [Access.Dangles, Released, not_and, not_exists]

/-! ### Pointers -/

/-- After a sound trace over the blocks below `next`, the pointers are to different blocks that are
still there. -/
structure Alive (next : ℕ) (trace : List Access) (ptrs : List ℕ) : Prop where
  sound : Sound trace
  below : ∀ a ∈ trace, a.block < next
  allocated : ∀ b ∈ ptrs, b < next
  kept : ∀ b ∈ ptrs, ¬ Released trace b
  nodup : ptrs.Nodup

namespace Alive

variable {next : ℕ} {ptrs ptrs' : List ℕ}

theorem init : Alive 0 [] [] := by
  constructor <;> simp [Sound]

section

variable (h : Alive next trace ptrs)
include h

/-- Pointers may be forgotten. -/
theorem sublist (hs : ptrs'.Sublist ptrs) : Alive next trace ptrs' where
  sound := h.sound
  below := h.below
  allocated b hb := h.allocated b (hs.subset hb)
  kept b hb := h.kept b (hs.subset hb)
  nodup := hs.nodup h.nodup

theorem perm (hp : ptrs'.Perm ptrs) : Alive next trace ptrs' where
  sound := h.sound
  below := h.below
  allocated b hb := h.allocated b (hp.subset hb)
  kept b hb := h.kept b (hp.subset hb)
  nodup := hp.nodup_iff.mpr h.nodup

theorem alloc : Alive (next + 1) trace (next :: ptrs) where
  sound := h.sound
  below a ha := Nat.lt_succ_of_lt (h.below a ha)
  allocated b hb := by
    rcases mem_cons.mp hb with rfl | hb
    · exact Nat.lt_succ_self b
    · exact Nat.lt_succ_of_lt (h.allocated b hb)
  kept b hb := by
    rcases mem_cons.mp hb with rfl | hb
    · rintro ⟨a, ha, -, hblock⟩
      exact absurd (h.below a ha) (by omega)
    · exact h.kept b hb
  nodup := by
    refine nodup_cons.mpr ⟨fun hmem => ?_, h.nodup⟩
    exact absurd (h.allocated next hmem) (Nat.lt_irrefl next)

theorem use (hmem : a.block ∈ ptrs) (hrel : a.releases = false) : Alive next (a :: trace) ptrs where
  sound := sound_cons.mpr ⟨h.kept _ hmem, h.sound⟩
  below e he := by
    rcases mem_cons.mp he with rfl | he
    · exact h.allocated _ hmem
    · exact h.below e he
  allocated := h.allocated
  kept b hb hreleased := by
    rcases released_cons.mp hreleased with ⟨htrue, -⟩ | hreleased
    · simp [hrel] at htrue
    · exact h.kept b hb hreleased
  nodup := h.nodup

theorem uses {as : List Access} (has : ∀ a ∈ as, a.block ∈ ptrs ∧ a.releases = false) : Alive next (as ++ trace) ptrs := by
  induction as with
  | nil => exact h
  | cons a as ih =>
    obtain ⟨hmem, hrel⟩ := has a mem_cons_self
    exact (ih fun e he => has e (mem_cons_of_mem a he)).use hmem hrel

end

theorem drop (h : Alive next trace (a.block :: ptrs)) : Alive next (a :: trace) ptrs where
  sound := sound_cons.mpr ⟨h.kept _ mem_cons_self, h.sound⟩
  below e he := by
    rcases mem_cons.mp he with rfl | he
    · exact h.allocated _ mem_cons_self
    · exact h.below e he
  allocated b hb := h.allocated b (mem_cons_of_mem _ hb)
  kept b hb hreleased := by
    rcases released_cons.mp hreleased with ⟨-, hblock⟩ | hreleased
    · subst hblock
      exact (nodup_cons.mp h.nodup).1 hb
    · exact h.kept b (mem_cons_of_mem _ hb) hreleased
  nodup := (nodup_cons.mp h.nodup).2

end Alive

end Binder.Lib
