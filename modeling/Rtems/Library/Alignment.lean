import Mathlib.Tactic.Ring

/-!
# Rounding and wrapping arithmetic on natural numbers

Rounding down to a multiple, and sums and differences reduced modulo a word
size. The laws are stated for arbitrary multiples, not only powers of two: a
client that rounds to a page size of twelve bytes uses the same lemmas.
-/

namespace Alignment

/-- The largest multiple of `unit` that is not above `value`. -/
def down (value unit : Nat) : Nat := value - value % unit

theorem down_le (value unit : Nat) : down value unit ≤ value := Nat.sub_le _ _

theorem down_dvd (value unit : Nat) : unit ∣ down value unit := Nat.dvd_sub_mod value

theorem lt_down_add (value unit : Nat) (positive : 0 < unit) : value < down value unit + unit := by
  have small : value % unit < unit := Nat.mod_lt value positive
  unfold down
  omega

/-- Rounding down is the greatest multiple below: it is above every other one. -/
theorem le_down (value unit multiple : Nat) (divides : unit ∣ multiple) (below : multiple ≤ value) :
    multiple ≤ down value unit := by
  obtain ⟨factor, rfl⟩ := divides
  rcases Nat.eq_zero_or_pos unit with rfl | positive
  · simp
  · have whole : value = unit * (value / unit) + value % unit := (Nat.div_add_mod value unit).symm
    have quotient : factor ≤ value / unit := (Nat.le_div_iff_mul_le positive).mpr (Nat.mul_comm unit factor ▸ below)
    have product : unit * factor ≤ unit * (value / unit) := Nat.mul_le_mul_left unit quotient
    unfold down
    omega

theorem down_of_dvd (value unit : Nat) (divides : unit ∣ value) : down value unit = value := by
  simp [down, Nat.mod_eq_zero_of_dvd divides]

/-- Two multiples of the same unit that differ, differ by at least the unit. -/
theorem add_unit_le (small large unit : Nat) (first : unit ∣ small) (second : unit ∣ large)
    (below : small < large) : small + unit ≤ large := by
  obtain ⟨lower, rfl⟩ := first
  obtain ⟨upper, rfl⟩ := second
  have factors : lower < upper := Nat.lt_of_mul_lt_mul_left below
  calc unit * lower + unit = unit * (lower + 1) := by ring
    _ ≤ unit * upper := Nat.mul_le_mul_left unit factors

/-- A sum reduced modulo the word size. -/
def wrapAdd (modulus left right : Nat) : Nat := (left + right) % modulus

/-- A difference reduced modulo the word size. -/
def wrapSub (modulus left right : Nat) : Nat := (left + modulus - right) % modulus

section

variable (modulus left right : Nat)

theorem wrapAdd_of_lt (bounded : left + right < modulus) :
    wrapAdd modulus left right = left + right := Nat.mod_eq_of_lt bounded

theorem wrapSub_of_le (ordered : right ≤ left) (bounded : left < modulus) :
    wrapSub modulus left right = left - right := by
  unfold wrapSub
  rw [show left + modulus - right = left - right + modulus by omega, Nat.add_mod_right]
  exact Nat.mod_eq_of_lt (by omega)

theorem wrapSub_of_lt (ordered : left < right) (bounded : right ≤ modulus) :
    wrapSub modulus left right = left + modulus - right :=
  Nat.mod_eq_of_lt (by omega)

theorem wrapAdd_lt (positive : 0 < modulus) :
    wrapAdd modulus left right < modulus := Nat.mod_lt _ positive

/-- Adding back a subtracted value restores the original. -/
theorem wrapAdd_wrapSub (leftBound : left < modulus)
    (rightBound : right < modulus) : wrapAdd modulus right (wrapSub modulus left right) = left := by
  rcases Nat.lt_or_ge left right with ordered | ordered
  · rw [wrapSub_of_lt modulus left right ordered (by omega), wrapAdd,
      show right + (left + modulus - right) = left + modulus by omega, Nat.add_mod_right]
    exact Nat.mod_eq_of_lt leftBound
  · rw [wrapSub_of_le modulus left right ordered leftBound, wrapAdd,
      show right + (left - right) = left by omega]
    exact Nat.mod_eq_of_lt leftBound

end

/-- Subtracting one summand of a reduced sum leaves the other one, reduced. -/
theorem wrapSub_mod_add (modulus value right : Nat) (bounded : right ≤ modulus) :
    wrapSub modulus ((value + right) % modulus) right = value % modulus := by
  calc ((value + right) % modulus + modulus - right) % modulus
      = ((value + right) % modulus + (modulus - right)) % modulus := by
        rw [Nat.add_sub_assoc bounded]
    _ = (value + right + (modulus - right)) % modulus := Nat.mod_add_mod _ _ _
    _ = (value + modulus) % modulus := by rw [show value + right + (modulus - right) = value + modulus by omega]
    _ = value % modulus := Nat.add_mod_right _ _

/-- A difference that is negative at first is right again after a large enough sum. -/
theorem wrapAdd_wrapSub_of_le (modulus left right more : Nat) (ordered : right ≤ left + more)
    (bounded : left + more < modulus) :
    wrapAdd modulus (wrapSub modulus left right) more = left + more - right := by
  unfold wrapAdd wrapSub
  rw [Nat.mod_add_mod, show left + modulus - right + more = left + more - right + modulus by omega,
    Nat.add_mod_right]
  exact Nat.mod_eq_of_lt (by omega)

end Alignment
