import Rtems.Library.RingBuffer

/-!
# A log in a ring

The items of a log are written to the slots of a ring one after the other. The slots hold
the latest items, and the slot that is being written may hold anything.
-/

namespace RingLog

open RingBuffer (slot_ne)

universe u
variable {α : Type u} {size : Nat} {slots : Nat → α} {log : List α}

/-- Of the items that are written, the slots hold those that were not written over. -/
def Holds (size : Nat) (slots : Nat → α) (log : List α) (written : Nat) : Prop :=
  ∀ place item, log[place]? = some item → place < written → log.length ≤ place + size →
    slots (place % size) = item

/-- The slot of the next item is not that of an item that stays. -/
theorem Holds.begin (holds : Holds size slots log log.length) (item junk : α) :
    Holds size (Function.update slots (log.length % size) junk) (log ++ [item]) log.length := by
  intro place found entry before near
  rw [List.length_append, List.length_singleton] at near
  rw [List.getElem?_append_left before] at entry
  rw [Function.update_of_ne (slot_ne before (by omega))]
  exact holds place found entry before (by omega)

/-- The next item is written. -/
theorem Holds.finish {item : α} (holds : Holds size slots (log ++ [item]) log.length) :
    Holds size (Function.update slots (log.length % size) item) (log ++ [item]) (log.length + 1) := by
  intro place found entry before near
  by_cases last : place = log.length
  · subst last
    rw [List.getElem?_concat_length] at entry
    cases entry
    exact Function.update_self _ _ _
  · have earlier : place < log.length := by omega
    rw [List.length_append, List.length_singleton] at near
    rw [Function.update_of_ne (slot_ne earlier (by omega))]
    refine holds place found entry earlier ?_
    rw [List.length_append, List.length_singleton]
    exact near

end RingLog
