import Mathlib.Data.List.Chain

/-!
# Chains of cells

A cell has the next one. A chain is a list of different cells, each of which has the next one of the
list, up to one that has an end. A chain can be cut in front of a cell, and a chain can be put behind
another one, by a change of one cell.
-/

namespace Links

universe u
variable {α : Type u}

/-- A chain up to an end. -/
structure Linked (next : α → α) (ends : α → Prop) (cells : List α) : Prop where
  steps : cells.IsChain fun cell other => next cell = other
  last : ∀ cell ∈ cells.getLast?, ends (next cell)
  nodup : cells.Nodup

variable {next after : α → α} {ends : α → Prop} {cells others : List α} {cell other : α}

theorem linked_nil : Linked next ends [] := ⟨List.isChain_nil, by simp, List.nodup_nil⟩

theorem linked_singleton (last : ends (next cell)) : Linked next ends [cell] :=
  ⟨List.isChain_singleton cell, by simpa using last, by simp⟩

namespace Linked

variable (linked : Linked next ends cells)
include linked

/-- A chain depends on its cells. -/
theorem congr (same : ∀ cell ∈ cells, after cell = next cell) : Linked after ends cells := by
  constructor
  · apply linked.steps.imp_of_mem_imp
    intro cell other mem _ step
    rw [same cell mem, step]
  · intro cell mem
    rw [same cell (List.mem_of_mem_getLast? mem)]
    exact linked.last cell mem
  · exact linked.nodup

/-- A cell of a chain has the next one. -/
theorem step {index : Nat} (here : cells[index]? = some cell)
    (there : cells[index + 1]? = some other) : next cell = other := by
  obtain ⟨inside, rfl⟩ := List.getElem?_eq_some_iff.mp there
  obtain ⟨_, rfl⟩ := List.getElem?_eq_some_iff.mp here
  exact linked.steps.getElem index inside

/-- The rest of a chain. -/
theorem drop (count : Nat) : Linked next ends (cells.drop count) := by
  constructor
  · exact linked.steps.drop count
  · intro cell mem
    apply linked.last
    rw [List.getLast?_drop] at mem
    split at mem
    · cases mem
    · exact mem
  · exact linked.nodup.sublist (List.drop_sublist count cells)

/-- A chain is cut behind a cell. -/
theorem take {count : Nat} (last : (cells.take count).getLast? = some cell)
    (cut : ends (after cell))
    (same : ∀ other ∈ cells.take count, other ≠ cell → after other = next other) :
    Linked after ends (cells.take count) := by
  have nodup := linked.nodup.sublist (List.take_sublist count cells)
  obtain ⟨front, shape⟩ := List.getLast?_eq_some_iff.mp last
  have steps := linked.steps.take count
  rw [shape] at steps same nodup ⊢
  constructor
  · apply List.isChain_append.mpr
    have split := List.isChain_append.mp steps
    have kept : ∀ other ∈ front, after other = next other := by
      intro other mem
      apply same other (List.mem_append_left _ mem)
      rintro rfl
      exact (List.nodup_append.mp nodup).2.2 other mem other (List.mem_singleton_self other) rfl
    refine ⟨?_, List.isChain_singleton cell, ?_⟩
    · apply split.1.imp_of_mem_imp
      intro first second mem _ step
      rw [kept first mem, step]
    · intro first mem second head
      rw [kept first (List.mem_of_mem_getLast? mem)]
      exact split.2.2 first mem second head
  · intro last mem
    rw [List.getLast?_concat, Option.mem_some_iff] at mem
    exact mem ▸ cut
  · exact nodup

/-- A chain is put behind another one. -/
theorem append (behind : Linked next ends others) (last : cells.getLast? = some cell)
    (head : others.head? = some other) (apart : ∀ first ∈ cells, first ∉ others)
    (joined : after cell = other) (same : ∀ other, other ≠ cell → after other = next other) :
    Linked after ends (cells ++ others) := by
  have mem : cell ∈ cells := List.mem_of_mem_getLast? last
  have kept : Linked after ends others := by
    apply behind.congr
    intro other inside
    apply same
    rintro rfl
    exact apart other mem inside
  obtain ⟨front, rfl⟩ := List.getLast?_eq_some_iff.mp last
  have split := List.isChain_append.mp linked.steps
  have unchanged : ∀ other ∈ front, after other = next other := by
    intro other inside
    apply same
    rintro rfl
    exact (List.nodup_append.mp linked.nodup).2.2 other inside other
      (List.mem_singleton_self other) rfl
  constructor
  · rw [List.append_assoc]
    apply List.isChain_append.mpr
    refine ⟨?_, ?_, ?_⟩
    · apply split.1.imp_of_mem_imp
      intro first second inside _ step
      rw [unchanged first inside, step]
    · apply List.IsChain.cons kept.steps
      intro second inside
      rw [head, Option.mem_some_iff] at inside
      rw [joined, inside]
    · intro first inside second begins
      rw [unchanged first (List.mem_of_mem_getLast? inside)]
      exact split.2.2 first inside second begins
  · intro final inside
    apply kept.last
    rw [List.getLast?_append] at inside
    cases found : others.getLast? with
    | some found' =>
      rw [found] at inside
      exact inside
    | none =>
      rw [List.getLast?_eq_none_iff.mp found] at head
      cases head
  · rw [List.nodup_append]
    refine ⟨linked.nodup, behind.nodup, ?_⟩
    rintro first inside second there rfl
    exact apart first inside there

end Linked

end Links
