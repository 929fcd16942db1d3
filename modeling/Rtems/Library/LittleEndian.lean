import Mathlib.Algebra.Order.Ring.Nat
import Mathlib.Data.List.Basic

/-!
# Little-endian numbers

A number is stored in a string of bytes, the least significant one first.
-/

namespace LittleEndian

/-- The `n` low bytes of a value. -/
def number : Nat → Nat → List UInt8
  | 0, _ => []
  | n + 1, value => UInt8.ofNat value :: number n (value / 256)

/-- The number in a string of bytes. -/
def read : List UInt8 → Nat
  | [] => 0
  | byte :: rest => byte.toNat + 256 * read rest

@[simp] theorem length_number (n value : Nat) : (number n value).length = n := by
  induction n generalizing value with
  | zero => rfl
  | succ n ih => simp [number, ih]

/-- A written number is read back reduced to its width. -/
theorem read_number (n value : Nat) : read (number n value) = value % 256 ^ n := by
  induction n generalizing value with
  | zero => simp [number, read, Nat.mod_one]
  | succ n ih =>
    have digit : (UInt8.ofNat value).toNat = value % 256 := by simp
    rw [number, read, digit, ih, Nat.pow_succ', Nat.mod_mul]

theorem read_lt (bytes : List UInt8) : read bytes < 256 ^ bytes.length := by
  induction bytes with
  | nil => exact Nat.one_pos
  | cons byte rest ih =>
    have small := byte.toNat_lt
    rw [read, List.length_cons, Nat.pow_succ']
    omega

end LittleEndian
