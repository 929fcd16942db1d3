import Mathlib.Data.List.Basic

/-!
# A cursor in a list that changes

A cursor cuts a list in the items that it has passed and those that it will pass. Items leave the list
anywhere, and new ones come in at either end. An item that stays is passed once: the items that stay
are in the same order among those that were passed and those that are pending.
-/

universe u

/-- A list that is cut at the place of the cursor. -/
structure Cursor (α : Type u) where
  passed : List α
  pending : List α

namespace Cursor

variable {α : Type u} {cursor : Cursor α} {item : α} {stays : α → Bool}

/-- The whole list. -/
def items (cursor : Cursor α) : List α := cursor.passed ++ cursor.pending

/-- A new item at the end. -/
def append (cursor : Cursor α) (item : α) : Cursor α := ⟨cursor.passed, cursor.pending ++ [item]⟩

/-- A new item at the start. It is pending if the cursor still stands there. -/
def prepend (cursor : Cursor α) (item : α) : Cursor α :=
  if cursor.passed = [] then ⟨[], item :: cursor.pending⟩ else ⟨item :: cursor.passed, cursor.pending⟩

theorem items_append : (cursor.append item).items = cursor.items ++ [item] :=
  (List.append_assoc _ _ _).symm

theorem items_prepend : (cursor.prepend item).items = item :: cursor.items := by
  rw [prepend]
  split
  case isTrue none => rw [items, items, none, List.nil_append, List.nil_append]
  case isFalse => rfl

theorem filter_append (comes : stays item = false) :
    (cursor.append item).pending.filter stays = cursor.pending.filter stays := by
  rw [append, List.filter_append, List.filter_cons_of_neg (by rw [comes]; decide), List.filter_nil,
    List.append_nil]

theorem filter_prepend (comes : stays item = false) :
    (cursor.prepend item).pending.filter stays = cursor.pending.filter stays := by
  rw [prepend]
  split
  case isTrue => exact List.filter_cons_of_neg (by rw [comes]; decide)
  case isFalse => rfl

/-- A new item at the start does not move the cursor. -/
theorem getLast?_prepend : (cursor.prepend item).passed.getLast? = cursor.passed.getLast? := by
  rw [prepend]
  split
  case isTrue none => rw [none]
  case isFalse some =>
    obtain ⟨before, last, whole⟩ := (List.eq_nil_or_concat cursor.passed).resolve_left some
    rw [whole, List.concat_eq_append, ← List.cons_append, List.getLast?_concat, List.getLast?_concat]

variable [DecidableEq α]

/-- An item leaves the list. -/
def remove (cursor : Cursor α) (item : α) : Cursor α :=
  ⟨cursor.passed.filter (· ≠ item), cursor.pending.filter (· ≠ item)⟩

theorem items_remove : (cursor.remove item).items = cursor.items.filter (· ≠ item) := by
  rw [items, items, List.filter_append]
  rfl

/-- An item that stays is still pending when another one leaves. -/
theorem filter_remove (leaves : stays item = false) :
    (cursor.remove item).pending.filter stays = cursor.pending.filter stays := by
  rw [remove, List.filter_filter]
  apply List.filter_congr
  intro other _
  by_cases same : other = item
  · rw [same, leaves, Bool.false_and]
  · rw [decide_eq_true same, Bool.and_true]

/-- The cursor steps back when the item that it stands on leaves. -/
theorem getLast?_remove_self {before : List α} (whole : cursor.passed = before ++ [item])
    (nodup : cursor.items.Nodup) : (cursor.remove item).passed.getLast? = before.getLast? := by
  rw [items, whole, List.append_assoc] at nodup
  have outside : ∀ other ∈ before, other ≠ item := by
    rintro other member rfl
    exact (List.nodup_append.mp nodup).2.2 other member other (by simp) rfl
  have kept : before.filter (· ≠ item) = before := by
    rw [List.filter_eq_self]
    exact fun other member => decide_eq_true (outside other member)
  rw [remove, whole, List.filter_append, kept, List.filter_cons_of_neg (by simp), List.filter_nil,
    List.append_nil]

/-- The cursor stays where it is when another item leaves. -/
theorem getLast?_remove (other : cursor.passed.getLast? ≠ some item) :
    (cursor.remove item).passed.getLast? = cursor.passed.getLast? := by
  rcases List.eq_nil_or_concat cursor.passed with none | ⟨before, last, whole⟩
  · rw [remove, none, List.filter_nil]
  · rw [List.concat_eq_append] at whole
    rw [whole, List.getLast?_concat] at other
    have distinct : decide (last ≠ item) = true := by
      apply decide_eq_true
      rintro rfl
      exact other rfl
    rw [remove, whole, List.filter_append, List.filter_cons, if_pos distinct, List.filter_nil,
      List.getLast?_concat, List.getLast?_concat]

end Cursor
