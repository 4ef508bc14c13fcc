import Mathlib.Data.List.Basic
import Mathlib.Tactic.Ring

/-!
# Little-endian numbers

A packed structure on a little-endian machine is the concatenation of its fields, each written by
`le`, and a reader takes each field out again by its offset and its width.
-/

namespace Bytes

/-- The `k` low bytes of a number, least significant first. -/
def le (n : Nat) : Nat → List UInt8
  | 0 => []
  | k + 1 => UInt8.ofNat n :: le (n / 256) k

def ofLe : List UInt8 → Nat
  | [] => 0
  | b :: bs => b.toNat + 256 * ofLe bs

@[simp] theorem length_le (n k : Nat) : (le n k).length = k := by
  induction k generalizing n with
  | zero => rfl
  | succ k ih => rw [le, List.length_cons, ih]

theorem ofLe_le (n k : Nat) : ofLe (le n k) = n % 256 ^ k := by
  induction k generalizing n with
  | zero => simp [le, ofLe, Nat.mod_one]
  | succ k ih =>
      have hbyte : (UInt8.ofNat n).toNat = n % 256 := UInt8.toNat_ofNat'
      rw [le, ofLe, ih, hbyte, Nat.pow_succ, Nat.mul_comm (256 ^ k), Nat.mod_mul]

theorem ofLe_lt (bytes : List UInt8) : ofLe bytes < 256 ^ bytes.length := by
  induction bytes with
  | nil => exact Nat.one_pos
  | cons b bs ih =>
      have hbyte : b.toNat < 256 := b.toNat_lt
      rw [ofLe, List.length_cons, Nat.pow_succ]
      omega

/-- The field of `k` bytes at an offset. -/
def field (bytes : List UInt8) (offset k : Nat) : Nat := ofLe ((bytes.drop offset).take k)

theorem field_append_le (pre post : List UInt8) (n k : Nat) :
    field (pre ++ (le n k ++ post)) pre.length k = n % 256 ^ k := by
  rw [field, List.drop_left, List.take_left' (length_le n k), ofLe_le]

end Bytes
