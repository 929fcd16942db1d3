import Mathlib.Data.Nat.ModEq
import Rtems.Library.ByteRange

/-!
# Ring buffers

A buffer of a fixed size holds a queue that may pass the end of the buffer and go on at its begin.
Items are copied to it and from it in one piece or in two.
-/

namespace RingBuffer

open ByteRange

universe u
variable {β : Type u} {size : Nat} {store : Nat → β} {start count : Nat} {items : List β}

/-- The items of the queue. -/
def contents (size : Nat) (store : Nat → β) (start count : Nat) : List β :=
  (List.range count).map fun index => store ((start + index) % size)

/-- Copy from the buffer. -/
def read (size : Nat) (store : Nat → β) (start count : Nat) : List β :=
  if count > size - start then
    get store start (size - start) ++ get store 0 (count - (size - start))
  else get store start count

/-- Copy to the buffer. -/
def write (size : Nat) (store : Nat → β) (start : Nat) (items : List β) : Nat → β :=
  if items.length > size - start then
    put (put store start (items.take (size - start))) 0 (items.drop (size - start))
  else put store start items

@[simp] theorem length_contents : (contents size store start count).length = count := by
  rw [contents, List.length_map, List.length_range]

@[simp] theorem contents_zero : contents size store start 0 = [] := rfl

theorem contents_mod : contents size store (start % size) count = contents size store start count := by
  apply List.map_congr_left
  intro index _
  rw [Nat.mod_add_mod]

theorem contents_add (first second : Nat) : contents size store start (first + second) =
      contents size store start first ++ contents size store (start + first) second := by
  rw [contents, List.range_add, List.map_append, List.map_map]
  congr 1
  apply List.map_congr_left
  simp [Nat.add_assoc]

/-- A queue that does not pass the end of the buffer is a range of it. -/
theorem contents_get (inside : start + count ≤ size) :
    contents size store start count = get store start count := by
  apply List.map_congr_left
  intro index member
  have less := List.mem_range.mp member
  rw [Nat.mod_eq_of_lt (by omega)]

/-- What is read is the front of the queue. -/
theorem read_eq (begins : start < size) (fits : count ≤ size) :
    read size store start count = contents size store start count := by
  rw [read]
  split
  case isTrue wraps =>
    obtain ⟨rest, rfl⟩ : ∃ rest, count = (size - start) + rest := ⟨count - (size - start), by omega⟩
    have back : start + (size - start) = size := by omega
    rw [contents_add, contents_get (by omega), back, ← contents_mod, Nat.mod_self,
      contents_get (by omega), Nat.add_sub_cancel_left]
  case isFalse straight => rw [contents_get (by omega)]

/-- The slots of two places that are less than a size apart differ. -/
theorem slot_ne {first second : Nat} (less : first < second) (near : second < first + size) :
    first % size ≠ second % size := by
  intro same
  have distance := Nat.sub_mod_eq_zero_of_mod_eq same.symm
  rw [Nat.mod_eq_of_lt (by omega)] at distance
  omega

theorem write_inside (begins : start < size) (fits : items.length ≤ size) {index : Nat}
    (inside : index < items.length) :
    write size store start items ((start + index) % size) = items[index] := by
  rw [write]
  split
  case isTrue wraps =>
    by_cases front : start + index < size
    · have taken : index < (items.take (size - start)).length := by
        rw [List.length_take]
        omega
      rw [Nat.mod_eq_of_lt front, put_outside (by rw [List.length_drop]; omega), put_inside taken,
        List.getElem_take]
    · obtain ⟨rest, rfl⟩ : ∃ rest, index = (size - start) + rest := ⟨index - (size - start), by omega⟩
      have dropped : rest < (items.drop (size - start)).length := by
        rw [List.length_drop]
        omega
      have slot : (start + (size - start + rest)) % size = 0 + rest := by
        rw [show start + (size - start + rest) = rest + size by omega, Nat.add_mod_right,
          Nat.mod_eq_of_lt (by omega), Nat.zero_add]
      rw [slot, put_inside dropped, List.getElem_drop]
  case isFalse straight => rw [Nat.mod_eq_of_lt (by omega), put_inside inside]

theorem write_outside (begins : start < size) {tested : Nat}
    (within : tested < size) (outside : ∀ index < items.length, (start + index) % size ≠ tested) :
    write size store start items tested = store tested := by
  rw [write]
  split
  case isTrue wraps =>
    rw [put_outside, put_outside]
    · by_contra touched
      have slot : (start + (tested - start)) % size = tested := by
        rw [Nat.add_sub_cancel' (by omega), Nat.mod_eq_of_lt within]
      exact outside (tested - start) (by omega) slot
    · by_contra touched
      rw [List.length_drop] at touched
      have slot : (start + (size - start + tested)) % size = tested := by
        rw [show start + (size - start + tested) = tested + size by omega, Nat.add_mod_right,
          Nat.mod_eq_of_lt within]
      exact outside (size - start + tested) (by omega) slot
  case isFalse straight =>
    rw [put_outside]
    by_contra touched
    have slot : (start + (tested - start)) % size = tested := by
      rw [Nat.add_sub_cancel' (by omega), Nat.mod_eq_of_lt within]
    exact outside (tested - start) (by omega) slot

/-- Items that are written behind the queue are appended to it. -/
theorem contents_write (begins : start < size) (fits : count + items.length ≤ size) :
    contents size (write size store ((start + count) % size) items) start (count + items.length) =
      contents size store start count ++ items := by
  have free : (start + count) % size < size := Nat.mod_lt _ (by omega)
  rw [contents_add]
  congr 1
  · apply List.map_congr_left
    intro place member
    have inside := List.mem_range.mp member
    apply write_outside free (Nat.mod_lt _ (by omega))
    intro index less
    rw [Nat.mod_add_mod]
    exact (slot_ne (by omega) (by omega)).symm
  · apply List.ext_getElem length_contents
    intro index less inside
    simp only [contents, List.getElem_map, List.getElem_range]
    rw [← Nat.mod_add_mod (start + count)]
    exact write_inside free (by omega) inside

end RingBuffer
