import Rtems.Objects.Unlimited

/-!
# Exhausted objects

The limit of the indexes is tested with the maximum that the tables would have if they grew, also when
the new block has a place in them. So a block that was released near the limit is not allocated again.
-/

namespace Rtems.Objects

open Transition

/-- With memory for a block and for the tables, an allocation fails only if all blocks that fit below
the final index are allocated. -/
def FailsExhausted (information : Information) (base : Nat) (area : Area) : Prop :=
  (allocateUnlimited information (some base) (some area)).1 = none →
    ∀ block, (block + 1) * information.objectsPerBlock ≤ finalIndex → baseOf information block ≠ none

/-- All blocks that the tables have a place for are allocated. -/
def Whole (information : Information) : Prop :=
  ∀ block < blockCount information, baseOf information block ≠ none

variable {info : Information} {base : Nat} {area : Area}

/-- Below the limit there is a new block. -/
theorem Consistent.extends (consistent : Consistent info) (base : Nat) (area : Area)
    (limit : getMaximumIndex info + info.objectsPerBlock ≤ finalIndex) :
    ∃ block, Extended info (Objects.extendInformation info (some base) (some area)).1 block base := by
  have first := consistent.findBlock_spec.2.1
  obtain failed | ⟨block, given, same, -, ext⟩ :=
    consistent.extendInformation (some base) (some area)
  · have second : (Objects.extendInformation info (some base) (some area)).2 = (findBlock info).2.1 := by
      rw [Objects.extendInformation]
      dsimp only
      rw [if_neg (by omega)]
      split <;> rfl
    rw [failed] at second
    rw [← second] at first
    cases first
  · cases same
    exact ⟨block, ext⟩

/-- An allocation from a new block. -/
theorem Extended.allocate (ext : Extended info (extendInformation info (some base) (some area)).1 block base)
    (consistent : Consistent info) (empty : info.inactiveChain = []) :
    ∃ obj, (allocateUnlimited info (some base) (some area)).1 = some obj := by
  rw [allocateUnlimited, getInactive, empty]
  dsimp only
  rw [getInactive]
  cases chain : (extendInformation info (some base) (some area)).1.inactiveChain with
  | nil =>
    have length := congrArg List.length (ext.chain.symm.trans chain)
    rw [empty, List.nil_append, List.length_map, List.length_range] at length
    exact absurd length consistent.positive.ne'
  | cons obj rest => exact ⟨obj, rfl⟩

/-- Beyond the limit an allocation from the empty chain fails. -/
theorem allocate_beyond (empty : info.inactiveChain = [])
    (beyond : finalIndex < getMaximumIndex info + info.objectsPerBlock) :
    (allocateUnlimited info (some base) (some area)).1 = none := by
  rw [allocateUnlimited, getInactive, empty]
  dsimp only
  rw [extendInformation]
  dsimp only
  rw [if_pos beyond, getInactive, empty]

/-- At the end of every run in which no object is inactive, an allocation fails only if the blocks
are all allocated, exactly when the limit leaves room for a block behind the last one or no block
in front of it is released. -/
theorem allocation_fails_exhausted_iff (past : List System) (system : System)
    (run : Trace Initial Permitted step past system) (empty : system.information.inactiveChain = [])
    (base : Nat) (area : Area) : FailsExhausted system.information base area ↔
      getMaximumIndex system.information + system.information.objectsPerBlock ≤ finalIndex ∨
        Whole system.information := by
  have sound := run.invariant Sound (fun _ initial => initial.sound)
    fun _ _ _ sound permitted taken => sound.step permitted taken
  have consistent := sound.consistent
  have whole := consistent.whole
  by_cases limit : getMaximumIndex system.information + system.information.objectsPerBlock ≤ finalIndex
  · refine iff_of_true ?_ (.inl limit)
    obtain ⟨block, ext⟩ := consistent.extends base area limit
    obtain ⟨obj, given⟩ := ext.allocate consistent empty
    intro failed
    rw [given] at failed
    cases failed
  · rw [or_iff_right limit]
    constructor
    · intro fails block below
      have fits : (block + 1) * system.information.objectsPerBlock ≤ _ := Nat.mul_le_mul_right _ below
      have last := getMaximumIndex_lt system.information
      refine fails (allocate_beyond empty (Nat.not_le.mp limit)) block ?_
      rw [finalIndex]
      omega
    · intro all _ block fits
      refine all block ?_
      by_contra behind
      have more := Nat.mul_le_mul_right system.information.objectsPerBlock (Nat.not_lt.mp behind)
      rw [Nat.succ_mul] at fits
      omega

/-- One block of one object, which is allocated. -/
theorem allocation_fails_exhausted_start : ∃ past system, Trace Initial Permitted step past system ∧
    FailsExhausted system.information 2000 someArea := by
  obtain ⟨past, system, run, seen⟩ := Trace.observe Permitted step start start_initial
    [.allocateAndOpen 1 none none] (fun system => (system.information.inactiveChain,
      getMaximumIndex system.information, system.information.objectsPerBlock)) ([], 1, 1) (by decide) rfl
  obtain ⟨empty, both⟩ := Prod.mk.inj seen
  obtain ⟨most, size⟩ := Prod.mk.inj both
  refine ⟨past, system, run, (allocation_fails_exhausted_iff past system run empty 2000 someArea).mpr ?_⟩
  rw [most, size]
  exact .inl (by decide)

end Rtems.Objects
