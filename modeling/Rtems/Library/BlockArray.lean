import Mathlib.Data.List.Basic

/-!
# Arrays of blocks

The contents of a device are one function of the block and the offset. A piece of data
replaces the first bytes of a block.
-/

namespace BlockArray

universe u v
variable {α : Type u} {β : Type v} [DecidableEq α]

/-- Replace the first bytes of a block. -/
def put (contents : α → Nat → β) (block : α) (bytes : List β) : α → Nat → β :=
  fun tested offset =>
    if tested = block then bytes.getD offset (contents block offset) else contents tested offset

/-- The first bytes of a block. -/
def get (contents : α → Nat → β) (block : α) (count : Nat) : List β :=
  (List.range count).map (contents block)

variable {contents : α → Nat → β} {block : α} {bytes : List β}

theorem put_self (off : Nat) :
    put contents block bytes block off = bytes.getD off (contents block off) :=
  if_pos rfl

theorem put_other {tested : α} (other : tested ≠ block) :
    put contents block bytes tested = contents tested :=
  funext fun _ => if_neg other

/-- What is equal to the bytes that are there changes nothing. -/
theorem put_same (same : ∀ off, bytes.getD off (contents block off) =
    contents block off) : put contents block bytes = contents := by
  funext tested off
  by_cases here : tested = block
  · rw [here, put_self, same]
  · rw [put_other here]

@[simp] theorem length_get (count : Nat) : (get contents block count).length = count := by
  rw [get, List.length_map, List.length_range]

end BlockArray
