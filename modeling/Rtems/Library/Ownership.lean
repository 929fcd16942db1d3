import Mathlib.Data.List.Nodup

/-!
# Items with one owner

Owners hold lists of items, and a map tells which items are used. Every used item is held
by one owner or is foreign to all of them. An owner takes items that are not used and
gives back items that it holds.
-/

namespace Ownership

open Function (update update_of_ne update_self)

universe u v
variable {α : Type u} {β : Type v} [DecidableEq α] [DecidableEq β] {held : α → List β}
  {used foreign : β → Bool}

/-- The items are used. -/
def mark (used : β → Bool) (items : List β) : β → Bool :=
  fun item => used item || decide (item ∈ items)

/-- The items are no longer used. -/
def unmark (used : β → Bool) (items : List β) : β → Bool :=
  fun item => used item && !decide (item ∈ items)

theorem mark_eq_true (used : β → Bool) (items : List β) (item : β) :
    mark used items item = true ↔ used item = true ∨ item ∈ items := by
  rw [mark, Bool.or_eq_true, decide_eq_true_iff]

theorem unmark_eq_true (used : β → Bool) (items : List β) (item : β) :
    unmark used items item = true ↔ used item = true ∧ item ∉ items := by
  rw [unmark, Bool.and_eq_true, Bool.not_eq_true', decide_eq_false_iff_not]

/-- Every used item is foreign or has one owner. -/
structure Owned (held : α → List β) (used foreign : β → Bool) : Prop where
  nodup : ∀ owner, (held owner).Nodup
  apart : ∀ first second item, item ∈ held first → item ∈ held second → first = second
  used : ∀ item, used item = true ↔ foreign item = true ∨ ∃ owner, item ∈ held owner
  outside : ∀ owner item, item ∈ held owner → foreign item = false

/-- An owner takes items that are not used. -/
theorem Owned.grow (owned : Owned held used foreign) {owner : α} {grown fresh : List β}
    (parts : grown.Perm (held owner ++ fresh)) (nodup : fresh.Nodup)
    (free : ∀ item ∈ fresh, used item = false) :
    Owned (update held owner grown) (mark used fresh) foreign := by
  have unheld : ∀ other, ∀ item ∈ fresh, item ∉ held other := by
    intro other item member inside
    have known := (owned.used item).mpr (.inr ⟨other, inside⟩)
    rw [free item member] at known
    cases known
  have mem_iff : ∀ other item, item ∈ update held owner grown other ↔
      item ∈ held other ∨ other = owner ∧ item ∈ fresh := by
    intro other item
    by_cases same : other = owner
    · subst same
      rw [update_self, parts.mem_iff, List.mem_append]
      tauto
    · rw [update_of_ne same]
      tauto
  constructor
  · intro other
    by_cases same : other = owner
    · subst same
      rw [update_self, parts.nodup_iff, List.nodup_append']
      exact ⟨owned.nodup other, nodup, fun item inside member => unheld other item member inside⟩
    · rw [update_of_ne same]
      exact owned.nodup other
  · intro first second item one two
    obtain old | ⟨rfl, new⟩ := (mem_iff first item).mp one
    · obtain other | ⟨rfl, new⟩ := (mem_iff second item).mp two
      · exact owned.apart first second item old other
      · exact absurd old (unheld first item new)
    · obtain other | ⟨rfl, -⟩ := (mem_iff second item).mp two
      · exact absurd other (unheld second item new)
      · rfl
  · intro item
    rw [mark_eq_true, owned.used]
    constructor
    · rintro ((outside | ⟨other, inside⟩) | new)
      · exact .inl outside
      · exact .inr ⟨other, (mem_iff other item).mpr (.inl inside)⟩
      · exact .inr ⟨owner, (mem_iff owner item).mpr (.inr ⟨rfl, new⟩)⟩
    · rintro (outside | ⟨other, inside⟩)
      · exact .inl (.inl outside)
      · obtain old | ⟨-, new⟩ := (mem_iff other item).mp inside
        · exact .inl (.inr ⟨other, old⟩)
        · exact .inr new
  · intro other item inside
    obtain old | ⟨-, new⟩ := (mem_iff other item).mp inside
    · exact owned.outside other item old
    · rw [← Bool.not_eq_true]
      intro outside
      have known := (owned.used item).mpr (.inl outside)
      rw [free item new] at known
      cases known

/-- An owner gives back some of its items. -/
theorem Owned.shrink (owned : Owned held used foreign) {owner : α} {kept gone : List β}
    (parts : (kept ++ gone).Perm (held owner)) :
    Owned (update held owner kept) (unmark used gone) foreign := by
  have distinct := parts.nodup_iff.mpr (owned.nodup owner)
  obtain ⟨nodup, -, split⟩ := List.nodup_append'.mp distinct
  have part : ∀ item, item ∈ held owner ↔ item ∈ kept ∨ item ∈ gone := by
    intro item
    rw [← parts.mem_iff, List.mem_append]
  have old : ∀ other item, item ∈ update held owner kept other → item ∈ held other := by
    intro other item inside
    by_cases same : other = owner
    · subst same
      rw [update_self] at inside
      exact (part item).mpr (.inl inside)
    · rwa [update_of_ne same] at inside
  constructor
  · intro other
    by_cases same : other = owner
    · subst same
      rw [update_self]
      exact nodup
    · rw [update_of_ne same]
      exact owned.nodup other
  · intro first second item one two
    exact owned.apart first second item (old first item one) (old second item two)
  · intro item
    rw [unmark_eq_true, owned.used]
    constructor
    · rintro ⟨outside | ⟨other, inside⟩, stays⟩
      · exact .inl outside
      · refine .inr ⟨other, ?_⟩
        by_cases same : other = owner
        · subst same
          rw [update_self]
          exact ((part item).mp inside).resolve_right stays
        · rwa [update_of_ne same]
    · rintro (outside | ⟨other, inside⟩)
      · refine ⟨.inl outside, fun left => ?_⟩
        have held_here := owned.outside owner item ((part item).mpr (.inr left))
        rw [outside] at held_here
        cases held_here
      · refine ⟨.inr ⟨other, old other item inside⟩, fun left => ?_⟩
        obtain rfl := owned.apart other owner item (old other item inside)
          ((part item).mpr (.inr left))
        rw [update_self] at inside
        exact split inside left
  · intro other item inside
    exact owned.outside other item (old other item inside)

end Ownership
