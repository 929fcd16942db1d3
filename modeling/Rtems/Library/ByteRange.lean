import Mathlib.Data.List.Basic
import Mathlib.Data.List.GetD

/-!
# Ranges of a store

A store is a function of the place. A range of it is read as a list and written from a list; what
is written is read back, and a range that does not meet it is unchanged.
-/

namespace ByteRange

universe u
variable {β : Type u}

/-- The items from a place on. -/
def get (store : Nat → β) (place count : Nat) : List β :=
  (List.range count).map fun index => store (place + index)

/-- Write items from a place on. -/
def put (store : Nat → β) (place : Nat) (items : List β) : Nat → β :=
  fun tested =>
    if place ≤ tested ∧ tested < place + items.length then
      items.getD (tested - place) (store tested)
    else store tested

variable {store : Nat → β} {place other count : Nat} {items : List β}

@[simp] theorem length_get : (get store place count).length = count := by
  rw [get, List.length_map, List.length_range]

variable {index : Nat}

theorem getElem?_get (inside : index < count) :
    (get store place count)[index]? = some (store (place + index)) := by
  simp [get, inside]

theorem getD_get {default : β} (inside : index < count) :
    (get store place count).getD index default = store (place + index) := by
  rw [List.getD_eq_getElem?_getD, getElem?_get inside, Option.getD_some]

variable {tested : Nat}

theorem put_outside (outside : tested < place ∨ place + items.length ≤ tested) :
    put store place items tested = store tested :=
  if_neg (by omega)

theorem put_inside (inside : index < items.length) :
    put store place items (place + index) = items[index] := by
  rw [put, if_pos (by omega), Nat.add_sub_cancel_left, List.getD_eq_getElem _ _ inside]

/-- What is written is read back. -/
theorem get_put_self (length : items.length = count) :
    get (put store place items) place count = items := by
  apply List.ext_getElem?
  intro index
  by_cases inside : index < count
  · rw [getElem?_get inside, put_inside (length ▸ inside), List.getElem?_eq_getElem]
  · rw [List.getElem?_eq_none (by simpa using inside), List.getElem?_eq_none (by omega)]

variable {after : Nat → β}

/-- Ranges with the same items. -/
theorem get_congr (same : ∀ tested, place ≤ tested → tested < place + count → after tested = store tested) :
    get after place count = get store place count := by
  apply List.map_congr_left
  intro index member
  have inside := List.mem_range.mp member
  exact same (place + index) (by omega) (by omega)

/-- A range that does not meet the written one is unchanged. -/
theorem get_put_apart (apart : place + count ≤ other ∨ other + items.length ≤ place) :
    get (put store other items) place count = get store place count := by
  apply get_congr
  intro tested begins ends
  exact put_outside (by omega)

theorem get_add (first second : Nat) :
    get store place (first + second) = get store place first ++ get store (place + first) second := by
  rw [get, List.range_add, List.map_append, List.map_map]
  congr 1
  apply List.map_congr_left
  simp [Nat.add_assoc]

theorem take_get (most : Nat) :
    (get store place count).take most = get store place (min most count) := by
  rw [get, get, ← List.map_take, List.take_range]

theorem drop_get (least : Nat) :
    (get store place count).drop least = get store (place + least) (count - least) := by
  apply List.ext_getElem?
  intro index
  rw [List.getElem?_drop]
  by_cases inside : index < count - least
  · rw [getElem?_get (by omega), getElem?_get inside, Nat.add_assoc]
  · rw [List.getElem?_eq_none (by rw [length_get]; omega),
      List.getElem?_eq_none (by rw [length_get]; omega)]

/-- Two writes one after the other are one. -/
theorem put_append (first second : List β) :
    put store place (first ++ second) = put (put store place first) (place + first.length) second := by
  funext tested
  by_cases behind : tested < place + first.length
  · rw [put_outside (Or.inl behind)]
    by_cases before : tested < place
    · rw [put_outside (Or.inl before), put_outside (Or.inl before)]
    · obtain ⟨index, rfl⟩ : ∃ index, tested = place + index := ⟨tested - place, by omega⟩
      have inside : index < first.length := by omega
      rw [put_inside (by simp; omega), put_inside inside, List.getElem_append_left inside]
  · obtain ⟨index, rfl⟩ : ∃ index, tested = place + (first.length + index) :=
      ⟨tested - place - first.length, by omega⟩
    by_cases within : index < second.length
    · rw [put_inside (by simp; omega), ← Nat.add_assoc, put_inside within]
      simp
    · rw [put_outside (by simp; omega), put_outside (by omega), put_outside (by omega)]

/-- A buffer with a patch goes to its place: only the patch changes the store. -/
theorem put_get_patch {buffer : Nat → β} {offset : Nat} (same : ∀ index, index < count → index <
      offset ∨ offset + items.length ≤ index → buffer index = store (place + index))
    (inside : offset + items.length ≤ count) :
    put store place (get (put buffer offset items) 0 count) = put store (place + offset) items := by
  funext tested
  by_cases within : place ≤ tested ∧ tested < place + count
  · obtain ⟨index, rfl⟩ : ∃ index, tested = place + index := ⟨tested - place, by omega⟩
    have bounded : index < (get (put buffer offset items) 0 count).length := by
      rw [length_get]
      omega
    rw [put_inside bounded]
    have read : (get (put buffer offset items) 0 count)[index] = put buffer offset items index := by
      simp [get]
    rw [read]
    by_cases patched : offset ≤ index ∧ index < offset + items.length
    · obtain ⟨rest, rfl⟩ : ∃ rest, index = offset + rest := ⟨index - offset, by omega⟩
      rw [put_inside (by omega), ← Nat.add_assoc, put_inside (by omega)]
    · rw [put_outside (by omega), put_outside (by omega)]
      exact same index (by omega) (by omega)
  · rw [put_outside (by rw [length_get]; omega), put_outside (by omega)]

theorem put_congr (same : store tested = after tested) :
    put store place items tested = put after place items tested := by
  rw [put, put, same]

/-- What was there before does not matter where it is written over. -/
theorem put_congr_outside (same : ¬ (place ≤ tested ∧ tested < place + items.length) → store tested = after tested) :
    put store place items tested = put after place items tested := by
  by_cases inside : place ≤ tested ∧ tested < place + items.length
  · obtain ⟨index, rfl⟩ : ∃ index, tested = place + index := ⟨tested - place, by omega⟩
    rw [put_inside (by omega), put_inside (by omega)]
  · exact put_congr (same inside)

theorem put_nil : put store place [] = store :=
  funext fun tested => put_outside (by rw [List.length_nil]; omega)

/-- The later of two writes to one place counts. -/
theorem put_put_same {others : List β} (length : others.length = items.length) :
    put (put store place items) place others = put store place others := by
  funext tested
  by_cases inside : place ≤ tested ∧ tested < place + others.length
  · obtain ⟨index, rfl⟩ : ∃ index, tested = place + index := ⟨tested - place, by omega⟩
    rw [put_inside (by omega), put_inside (by omega)]
  · rw [put_outside (by omega), put_outside (by omega), put_outside (by omega)]

end ByteRange
