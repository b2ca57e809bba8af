import Mathlib.Tactic.Ring

/-! Growing buffers, as far as their sizes go: block after block is written at a position, and a block that asks for
more than the limit, or for more than is granted, is left out. -/
namespace Binder.Lib
open List

/-- `want n` is the capacity that a buffer asks for when `n` elements have to fit. -/
structure Growth where
  want : ℕ → ℕ
  limit : ℕ
  le_want : ∀ n, n ≤ want n

/-- The position, the number of elements and the room for them. -/
structure Buffer where
  pos : ℕ
  size : ℕ
  capacity : ℕ

namespace Buffer

variable (G : Growth) (grants : ℕ → Bool) (b : Buffer) (n : ℕ) (ns ms : List ℕ)

def Accepts : Prop :=
  b.pos + n ≤ b.capacity ∨ G.want (b.size + n) ≤ G.limit ∧ grants (G.want (b.size + n)) = true
deriving Decidable

/-- The buffer after a block that it accepts. -/
def put : Buffer where
  pos := b.pos + n
  size := max b.size (b.pos + n)
  capacity := if b.pos + n ≤ b.capacity then b.capacity else G.want (b.size + n)

def puts : Buffer := ns.foldl (put G) b

/-- No block is left out. -/
def Fits (b : Buffer) : List ℕ → Prop
  | [] => True
  | n :: ns => b.Accepts G grants n ∧ (b.put G n).Fits ns

instance instDecidableFits : (b : Buffer) → (ns : List ℕ) → Decidable (b.Fits G grants ns)
  | _, [] => .isTrue trivial
  | b, n :: ns =>
    have := instDecidableFits (b.put G n) ns
    inferInstanceAs (Decidable (_ ∧ _))

variable {G grants b n ns ms}

theorem puts_append : b.puts G (ns ++ ms) = (b.puts G ns).puts G ms := foldl_append

theorem fits_append : b.Fits G grants (ns ++ ms) ↔ b.Fits G grants ns ∧ (b.puts G ns).Fits G grants ms := by
  induction ns generalizing b with
  | nil => exact (and_iff_right trivial).symm
  | cons n ns ih =>
    rw [cons_append, Fits, Fits, ih, and_assoc]
    rfl

theorem Accepts.le_limit (hb : b.capacity ≤ G.limit) (hpos : b.pos ≤ b.size) (h : b.Accepts G grants n) :
    b.pos + n ≤ G.limit := by
  have hwant := G.le_want (b.size + n)
  rcases h with h | ⟨h, -⟩ <;> omega

end Buffer

end Binder.Lib
