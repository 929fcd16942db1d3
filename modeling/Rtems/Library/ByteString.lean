import Mathlib.Algebra.Order.Ring.Nat
import Mathlib.Data.List.Basic

/-!
# Big-endian numbers in byte strings

A byte string is a list of bytes. A number of `n` bytes is written with its most
significant byte first. Splicing replaces as many bytes of a string as are given, at
any offset inside it.
-/

namespace ByteString

/-- The `n` low bytes of a value. -/
def number : Nat → Nat → List UInt8
  | 0, _ => []
  | n + 1, value => UInt8.ofNat (value / 256 ^ n) :: number n value

/-- The number in the first `n` bytes. A missing byte counts as zero. -/
def read : Nat → List UInt8 → Nat
  | 0, _ => 0
  | n + 1, bytes => (bytes.headD 0).toNat * 256 ^ n + read n bytes.tail

@[simp] theorem length_number (n value : Nat) : (number n value).length = n := by
  induction n with
  | zero => rfl
  | succ n ih => simp [number, ih]

/-- A written number is read back reduced to its width. -/
theorem read_number (n value : Nat) (rest : List UInt8) :
    read n (number n value ++ rest) = value % 256 ^ n := by
  induction n with
  | zero => simp [read, Nat.mod_one]
  | succ n ih =>
    have digit : (UInt8.ofNat (value / 256 ^ n)).toNat = value / 256 ^ n % 256 := by simp
    simp only [number, List.cons_append, read, List.headD_cons, List.tail_cons, digit, ih]
    rw [Nat.pow_succ, Nat.mod_mul, Nat.mul_comm, Nat.add_comm]

theorem read_lt (n : Nat) (bytes : List UInt8) : read n bytes < 256 ^ n := by
  induction n generalizing bytes with
  | zero => exact Nat.one_pos
  | succ n ih =>
    have byte : (bytes.headD 0).toNat < 256 := UInt8.toNat_lt _
    have rest := ih bytes.tail
    calc (bytes.headD 0).toNat * 256 ^ n + read n bytes.tail
        < (bytes.headD 0).toNat * 256 ^ n + 256 ^ n := Nat.add_lt_add_left rest _
      _ = ((bytes.headD 0).toNat + 1) * 256 ^ n := (Nat.succ_mul _ _).symm
      _ ≤ 256 * 256 ^ n := Nat.mul_le_mul_right _ byte
      _ = 256 ^ n * 256 := Nat.mul_comm _ _

/-- Only the low bytes of a value are written. -/
theorem number_add (n value digits : Nat) :
    number n (digits * 256 ^ n + value) = number n value := by
  induction n generalizing digits with
  | zero => rfl
  | succ n ih =>
    have high : digits * 256 ^ (n + 1) = 256 * digits * 256 ^ n := by
      rw [Nat.pow_succ, Nat.mul_comm (256 ^ n), ← Nat.mul_assoc, Nat.mul_comm digits]
    rw [high, number, number, ih, Nat.add_comm (_ * _), Nat.add_mul_div_right _ _
      (Nat.pow_pos (by decide))]
    congr 1
    apply UInt8.toNat_inj.mp
    simp

/-- The bytes of a number that was read are those that were there. -/
theorem number_read (n : Nat) (bytes : List UInt8) (whole : bytes.length = n) :
    number n (read n bytes) = bytes := by
  induction n generalizing bytes with
  | zero => exact (List.eq_nil_of_length_eq_zero whole).symm
  | succ n ih =>
    obtain ⟨byte, rest, rfl⟩ := List.exists_cons_of_length_eq_add_one whole
    have tail := ih rest (Nat.succ.inj whole)
    rw [read, List.headD_cons, List.tail_cons, number, number_add, tail, Nat.add_comm,
      Nat.add_mul_div_right _ _ (Nat.pow_pos (by decide)), Nat.div_eq_of_lt (read_lt n rest), Nat.zero_add,
      UInt8.ofNat_toNat]

/-- Later bytes are not read. -/
theorem read_append (n : Nat) (bytes rest : List UInt8) (whole : bytes.length = n) :
    read n (bytes ++ rest) = read n bytes := by
  induction n generalizing bytes with
  | zero => rfl
  | succ n ih =>
    obtain ⟨byte, tail, rfl⟩ := List.exists_cons_of_length_eq_add_one whole
    rw [List.cons_append, read, read, List.tail_cons, List.tail_cons, ih tail (Nat.succ.inj whole)]
    rfl

/-- Bytes of ones read as the greatest number of the width. -/
theorem read_ones (n count : Nat) (enough : n ≤ count) :
    read n (List.replicate count 255) + 1 = 256 ^ n := by
  induction n generalizing count with
  | zero => rfl
  | succ n ih =>
    obtain ⟨rest, rfl⟩ : ∃ rest, count = rest + 1 := ⟨count - 1, by omega⟩
    have tail := ih rest (by omega)
    have byte : (255 : UInt8).toNat = 255 := rfl
    simp only [List.replicate_succ, read, List.headD_cons, List.tail_cons, byte]
    omega

/-- Replace the bytes at an offset. -/
def splice (bytes : List UInt8) (offset : Nat) (fresh : List UInt8) : List UInt8 :=
  bytes.take offset ++ fresh ++ bytes.drop (offset + fresh.length)

/-- Splicing replaces a middle part of the same length. -/
theorem splice_middle (before old after fresh : List UInt8) (offset : Nat)
    (position : offset = before.length) (same : fresh.length = old.length) :
    splice (before ++ old ++ after) offset fresh = before ++ fresh ++ after := by
  subst position
  have front : (before ++ old ++ after).take before.length = before := by
    rw [List.append_assoc]
    exact List.take_left
  have back : (before ++ old ++ after).drop (before.length + fresh.length) = after := by
    rw [same, ← List.length_append]
    exact List.drop_left
  rw [splice, front, back]

end ByteString
