import Mathlib.Tactic.Ring

/-!
# Byte-addressed memory with little-endian words

A memory is a total map from byte addresses to bytes. A word of `n` bytes is read
and written at any address, aligned or not, so two accesses interact exactly when
their byte ranges meet. The laws below are the only facts the clients use: a read
at the written address returns the value reduced to the width, a read of a
disjoint range is unchanged, and a read depends on nothing outside its range.
-/

namespace ByteMemory

/-- One byte at every address. No address is reserved or out of bounds here. -/
abbrev Memory := Nat → UInt8

/-- The `n`-byte word at `address`, least significant byte first. -/
def load (memory : Memory) (address : Nat) : Nat → Nat
  | 0 => 0
  | n + 1 => (memory address).toNat + 256 * load memory (address + 1) n

/-- Replace the `n` bytes at `address` by the low bytes of `value`. -/
def store (memory : Memory) (address n value : Nat) : Memory :=
  fun tested =>
    if address ≤ tested ∧ tested < address + n then
      UInt8.ofNat (value / 256 ^ (tested - address))
    else memory tested

/-- Replace one byte. -/
def poke (memory : Memory) (address : Nat) (byte : UInt8) : Memory :=
  fun tested => if tested = address then byte else memory tested

/-- A word is below the number of its possible values. -/
theorem load_bound (memory : Memory) (addr n : Nat) : load memory addr n < 256 ^ n := by
  induction n generalizing addr with
  | zero => simp [load]
  | succ n ih =>
    have low : (memory addr).toNat < 256 := (memory addr).toNat_lt
    have high : load memory (addr + 1) n < 256 ^ n := ih (addr + 1)
    simp only [load]
    omega

/-- A read depends only on the bytes of its own range. -/
theorem load_congr (memory other : Memory) (addr n : Nat)
    (agree : ∀ tested, addr ≤ tested → tested < addr + n → other tested = memory tested) :
    load other addr n = load memory addr n := by
  induction n generalizing addr with
  | zero => rfl
  | succ n ih =>
    have head : other addr = memory addr := agree addr (le_refl _) (by omega)
    have tail : load other (addr + 1) n = load memory (addr + 1) n :=
      ih (addr + 1) fun tested lower upper => agree tested (by omega) (by omega)
    simp only [load, head, tail]

/-- If the bytes of a range are the digits of `value`, the word read there is
`value` reduced to the width. -/
theorem load_digits (memory : Memory) (addr n value : Nat)
    (digits : ∀ i, i < n → (memory (addr + i)).toNat = value / 256 ^ i % 256) :
    load memory addr n = value % 256 ^ n := by
  induction n generalizing addr value with
  | zero => simp [load, Nat.mod_one]
  | succ n ih =>
    have head : (memory addr).toNat = value % 256 := by simpa using digits 0 (by omega)
    have tail : load memory (addr + 1) n = value / 256 % 256 ^ n := by
      apply ih
      intro i inside
      have digit := digits (i + 1) (by omega)
      rw [Nat.pow_succ', ← Nat.div_div_eq_div_mul] at digit
      rwa [show addr + 1 + i = addr + (i + 1) by omega]
    rw [load, head, tail, Nat.pow_succ', Nat.mod_mul]

/-- Reading back a written word gives the value reduced to the width. -/
theorem load_store_same (memory : Memory) (addr n value : Nat) :
    load (store memory addr n value) addr n = value % 256 ^ n := by
  apply load_digits
  intro i inside
  have covered : addr ≤ addr + i ∧ addr + i < addr + n := by omega
  simp [store, covered]

/-- A write leaves every disjoint word unchanged. -/
theorem load_store_disjoint (memory : Memory) (addr n value other width : Nat)
    (disjoint : other + width ≤ addr ∨ addr + n ≤ other) :
    load (store memory addr n value) other width = load memory other width := by
  apply load_congr
  intro tested lower upper
  have outside : ¬ (addr ≤ tested ∧ tested < addr + n) := by omega
  simp [store, outside]

/-- A single-byte write leaves every word that does not contain the byte
unchanged. -/
theorem load_poke_disjoint (memory : Memory) (addr : Nat) (byte : UInt8) (other width : Nat)
    (disjoint : other + width ≤ addr ∨ addr < other) :
    load (poke memory addr byte) other width = load memory other width := by
  apply load_congr
  intro tested lower upper
  have outside : tested ≠ addr := by omega
  simp [poke, outside]

end ByteMemory
