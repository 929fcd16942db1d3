import Mathlib.Data.List.Basic

/-!
# Ordered insertion and numbered groups

A node is inserted before the first node that the order relation accepts. Lists that are
numbered by the naturals are joined by increasing number; the join is cut at a group, so
that a change of one group and an ordered insertion into the join can be compared.
-/

namespace OrderedChain

universe u
variable {α : Type u}

/-- Insert a node before the first one that the test accepts. -/
def insertOrdered (accepts : α → Bool) (node : α) : List α → List α
  | [] => [node]
  | next :: rest =>
      if accepts next then node :: next :: rest else next :: insertOrdered accepts node rest

/-- The insertion passes the nodes that are not accepted and stops at one that is. -/
theorem insertOrdered_append (accepts : α → Bool) (node : α) (front back : List α)
    (passed : ∀ other ∈ front, accepts other = false)
    (stop : ∀ other ∈ back.head?, accepts other = true) :
    insertOrdered accepts node (front ++ back) = front ++ node :: back := by
  induction front with
  | nil =>
    cases back with
    | nil => rfl
    | cons next rest => simp [insertOrdered, stop next (by simp)]
  | cons other rest ih =>
    have first := passed other (by simp)
    simp only [List.cons_append, insertOrdered, first, Bool.false_eq_true, if_false]
    rw [ih fun tested mem => passed tested (List.mem_cons_of_mem other mem)]

/-- Where the insertion stops. -/
theorem insertOrdered_split (accepts : α → Bool) (node : α) (chain : List α) :
    ∃ front back, chain = front ++ back ∧ insertOrdered accepts node chain = front ++ node :: back ∧
      (∀ other ∈ front, accepts other = false) ∧ ∀ other ∈ back.head?, accepts other = true := by
  induction chain with
  | nil => exact ⟨[], [], by simp [insertOrdered]⟩
  | cons next rest ih =>
    by_cases stop : accepts next = true
    · exact ⟨[], next :: rest, by simp [insertOrdered, stop]⟩
    · obtain ⟨front, back, split, inserted, passed, head⟩ := ih
      rw [Bool.not_eq_true] at stop
      refine ⟨next :: front, back, by rw [split]; rfl, ?_, ?_, head⟩
      · simp only [insertOrdered, stop, Bool.false_eq_true, if_false, inserted, List.cons_append]
      · intro other mem
        rcases List.mem_cons.mp mem with rfl | mem
        · exact stop
        · exact passed other mem

/-- The insertion of an image into the images. -/
theorem insertOrdered_map {β : Type*} (view : α → β) (accepts : β → Bool) (node : α)
    (chain : List α) :
    (insertOrdered (fun other => accepts (view other)) node chain).map view =
      insertOrdered accepts (view node) (chain.map view) := by
  induction chain with
  | nil => rfl
  | cons next rest ih =>
    by_cases stop : accepts (view next) = true
    · simp [insertOrdered, stop]
    · simp [insertOrdered, stop, ih]

/-- The first groups one after another. -/
def join (count : Nat) (groups : Nat → List α) : List α :=
  (List.range count).flatMap groups

theorem mem_join (count : Nat) (groups : Nat → List α) (node : α) :
    node ∈ join count groups ↔ ∃ index < count, node ∈ groups index := by
  simp [join]

theorem join_congr (count : Nat) (groups others : Nat → List α)
    (same : ∀ index < count, groups index = others index) :
    join count groups = join count others := by
  apply List.flatMap_congr
  intro index mem
  exact same index (List.mem_range.mp mem)

/-- The groups behind a given one. -/
def behind (index count : Nat) (groups : Nat → List α) : List α :=
  (List.range' (index + 1) (count - (index + 1))).flatMap groups

theorem mem_behind (index count : Nat) (groups : Nat → List α) (node : α) :
    node ∈ behind index count groups ↔ ∃ other, index < other ∧ other < count ∧ node ∈ groups other := by
  simp only [behind, List.mem_flatMap, List.mem_range'_1]
  constructor
  · rintro ⟨other, bounds, mem⟩
    exact ⟨other, by omega, by omega, mem⟩
  · rintro ⟨other, after, before, mem⟩
    exact ⟨other, by omega, mem⟩

theorem join_cut (index count : Nat) (bound : index < count) (groups : Nat → List α) :
    join count groups = join index groups ++ (groups index ++ behind index count groups) := by
  have range : List.range count =
      List.range index ++ index :: List.range' (index + 1) (count - (index + 1)) := by
    have parts : List.range' 0 index ++ List.range' (0 + index) (count - (index + 1) + 1) =
        List.range' 0 (index + (count - (index + 1) + 1)) := List.range'_append_1
    rw [Nat.zero_add, List.range'_succ] at parts
    rw [List.range_eq_range', List.range_eq_range', parts]
    congr 1
    omega
  rw [join, range, List.flatMap_append, List.flatMap_cons]
  rfl

/-- A change of one group changes only its part of the join. -/
theorem join_update (index count : Nat) (bound : index < count) (groups : Nat → List α)
    (group : List α) :
    join count (Function.update groups index group) =
      join index groups ++ (group ++ behind index count groups) := by
  rw [join_cut index count bound, Function.update_self]
  congr 1
  · apply join_congr
    intro other before
    exact Function.update_of_ne (Nat.ne_of_lt before) _ _
  · congr 1
    apply List.flatMap_congr
    intro other mem
    have after := (List.mem_range'_1.mp mem).1
    exact Function.update_of_ne (by omega) _ _

/-- Erasing from one group erases from the join, if the node is in no other group. -/
theorem join_erase [DecidableEq α] (index count : Nat) (bound : index < count)
    (groups : Nat → List α) (node : α) (only : ∀ other, node ∈ groups other → other = index) :
    join count (Function.update groups index ((groups index).erase node)) =
      (join count groups).erase node := by
  rw [join_update index count bound, join_cut index count bound]
  have before : node ∉ join index groups := by
    rw [mem_join]
    rintro ⟨other, less, mem⟩
    have same := only other mem
    omega
  have after : node ∉ behind index count groups := by
    rw [mem_behind]
    rintro ⟨other, greater, -, mem⟩
    have same := only other mem
    omega
  rw [List.erase_append_right _ before]
  congr 1
  by_cases mem : node ∈ groups index
  · rw [List.erase_append_left _ mem]
  · rw [List.erase_append_right _ mem, List.erase_of_not_mem mem, List.erase_of_not_mem after]

theorem join_head (count : Nat) (groups : Nat → List α) (index : Nat) (bound : index < count)
    (empty : ∀ other < index, groups other = []) (node : α)
    (head : (groups index).head? = some node) : (join count groups).head? = some node := by
  have none : join index groups = [] := by
    rw [List.eq_nil_iff_forall_not_mem]
    intro other mem
    obtain ⟨place, before, inside⟩ := (mem_join index groups other).mp mem
    simp [empty place before] at inside
  rw [join_cut index count bound, none, List.nil_append, List.head?_append, head]
  rfl

end OrderedChain
