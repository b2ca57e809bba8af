import Binder.Lib.Bytes

/-! Values of a fixed number of bytes. -/
namespace Binder.Lib
open List

/-- `decode` reads back what `encode` writes. -/
structure Codec (α : Type*) where
  size : ℕ
  encode : α → List UInt8
  decode : List UInt8 → α
  length_encode : ∀ a, (encode a).length = size
  decode_encode : ∀ a, decode (encode a) = a

namespace Codec

variable {α β : Type*}

theorem ofNat_leNat_leBytes {w n : ℕ} (hw : w ≤ 8 * n) (v : BitVec w) :
    BitVec.ofNat w (leNat (leBytes n v.toNat)) = v := by
  have hlt : v.toNat < 256 ^ n := by
    calc v.toNat < 2 ^ w := v.isLt
      _ ≤ 2 ^ (8 * n) := Nat.pow_le_pow_right (by omega) hw
      _ = 256 ^ n := by rw [pow_mul]; rfl
  rw [leNat_leBytes, Nat.mod_eq_of_lt hlt, BitVec.ofNat_toNat, BitVec.setWidth_eq]

/-- A word of `w` bits in `n` bytes. -/
def word (w n : ℕ) (hw : w ≤ 8 * n) : Codec (BitVec w) where
  size := n
  encode v := leBytes n v.toNat
  decode bs := .ofNat w (leNat bs)
  length_encode v := length_leBytes n v.toNat
  decode_encode v := ofNat_leNat_leBytes hw v

/-- A value that is converted to another one and back. -/
def via (c : Codec β) (f : α → β) (g : β → α) (h : ∀ a, g (f a) = a) : Codec α where
  size := c.size
  encode a := c.encode (f a)
  decode bs := g (c.decode bs)
  length_encode a := c.length_encode (f a)
  decode_encode a := by rw [c.decode_encode, h]

theorem length_flatMap_encode (c : Codec α) (as : List α) : (as.flatMap c.encode).length = as.length * c.size := by
  induction as with
  | nil => simp
  | cons a as ih =>
    rw [flatMap_cons, length_append, ih, c.length_encode, length_cons]
    ring

end Codec

end Binder.Lib
