import Mathlib.Algebra.BigOperators.Group.Finset.Piecewise
import Mathlib.Order.Interval.Finset.Nat

/-!
# Counting the items of each page

Items have keys, and the keys are cut into pages of one size. The tally of a page is the
number of items with a key on it. If the keys differ, a page with as many items as it has
keys has one for each of them.
-/

namespace Tally

universe u
variable {α : Type u} {size : Nat} {key : α → Nat}

/-- The number of items on a page. -/
def tally (size : Nat) (key : α → Nat) (items : List α) (page : Nat) : Nat :=
  items.countP fun item => decide (key item / size = page)

theorem tally_append (items more : List α) (page : Nat) :
    tally size key (items ++ more) page = tally size key items page + tally size key more page :=
  List.countP_append

theorem tally_cons (item : α) (items : List α) (page : Nat) : tally size key (item :: items) page =
      tally size key items page + if key item / size = page then 1 else 0 := by
  rw [tally, List.countP_cons, tally]
  simp only [decide_eq_true_iff]

variable {items : List α}

/-- The tallies of two keys that agree on the items are equal. -/
theorem tally_congr {other : α → Nat} (agree : ∀ item ∈ items, other item = key item) (page : Nat) :
    tally size other items page = tally size key items page := by
  refine List.countP_congr ?_
  intro item mem
  rw [agree item mem]

variable {page : Nat}

/-- All items are on one page. -/
theorem tally_same (same : ∀ item ∈ items, key item / size = page) :
    tally size key items page = items.length := by
  rw [tally, List.countP_eq_length]
  intro item mem
  exact decide_eq_true (same item mem)

/-- No item is on the page. -/
theorem tally_none (none : ∀ item ∈ items, key item / size ≠ page) :
    tally size key items page = 0 := by
  rw [tally, List.countP_eq_zero]
  intro item mem
  rw [decide_eq_true_iff]
  exact none item mem

/-- The items of another page are taken out. -/
theorem tally_filter {other : Nat} {kept : α → Bool}
    (off : ∀ item ∈ items, kept item = true ↔ key item / size ≠ page) (different : other ≠ page) :
    tally size key (items.filter kept) other = tally size key items other := by
  rw [tally, List.countP_filter]
  refine List.countP_congr ?_
  intro item mem
  rw [Bool.and_eq_true, decide_eq_true_iff, off item mem]
  constructor
  · intro both
    exact both.1
  · intro here
    exact ⟨here, here ▸ different⟩

/-- A full page has an item for each of its keys. -/
theorem exists_of_full (positive : 0 < size)
    (distinct : (items.map key).Nodup) (full : tally size key items page = size) {index : Nat}
    (here : index / size = page) : ∃ item ∈ items, key item = index := by
  have sub : ((items.filter fun item => decide (key item / size = page)).map key).Nodup :=
    (List.filter_sublist.map key).nodup distinct
  have keys : (items.filter fun item => decide (key item / size = page)).map key ⊆
      List.range' (page * size) size := by
    intro found mem
    obtain ⟨item, inside, rfl⟩ := List.mem_map.mp mem
    have on_page := of_decide_eq_true (List.mem_filter.mp inside).2
    have split := Nat.div_add_mod' (key item) size
    have below := Nat.mod_lt (key item) positive
    rw [on_page] at split
    rw [List.mem_range'_1]
    omega
  have all := (sub.subperm keys).perm_of_length_le (by
    rw [List.length_map, ← List.countP_eq_length_filter, List.length_range']
    exact Nat.le_of_eq full.symm)
  have inside : index ∈ List.range' (page * size) size := by
    have split := Nat.div_add_mod' index size
    have below := Nat.mod_lt index positive
    rw [here] at split
    rw [List.mem_range'_1]
    omega
  obtain ⟨item, mem, same⟩ := List.mem_map.mp (all.mem_iff.mpr inside)
  exact ⟨item, (List.mem_filter.mp mem).1, same⟩

/-- The items behind the first page are those of the other pages. -/
theorem sum_tally {pages : Nat} (positive : 0 < size)
    (inside : ∀ item ∈ items, key item / size < pages) :
    ∑ page ∈ Finset.Ico 1 pages, tally size key items page =
      items.countP fun item => decide (size ≤ key item) := by
  induction items with
  | nil => exact Finset.sum_const_zero
  | cons item items ih =>
    have rest := ih fun other mem => inside other (List.mem_cons_of_mem item mem)
    have below := inside item List.mem_cons_self
    simp only [tally_cons, Finset.sum_add_distrib, rest, List.countP_cons, Finset.sum_ite_eq,
      Finset.mem_Ico, decide_eq_true_iff, below, and_true, Nat.one_le_div_iff positive]

end Tally
