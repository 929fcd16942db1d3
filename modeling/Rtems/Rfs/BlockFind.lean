import Rtems.Rfs.BlockMap

/-!
# Searches in corrupt tables

A search of a block map reads a number from one table, or from two tables in turn. A
number that is not that of a block becomes zero, and the error that is set for it is not
returned: the search goes on with the first block of the file system.
-/

namespace Rtems.Rfs.BlockFind

open BlockMap

/-- The errors of a search: the request of a table failed, or there is no such block. -/
inductive Errno where
  | io
  | enxio
deriving DecidableEq

/-- The result of a search with the tables that it requested and the numbers that it read. -/
structure Found where
  result : Except Errno Nat
  tables : List Nat
  numbers : List Nat

/-- What `rtems_rfs_block_find_indirect` stores for a number of a table. -/
def resultOf (fs : FileSystem) (number : Nat) : Nat :=
  let result := if (number + 1) % 2 ^ 32 = 0 then 0 else number
  if fs.blocks ≤ result then 0 else result

/-- `rtems_rfs_block_find_indirect`. A request gives the numbers in a table or fails. -/
def findIndirect (fs : FileSystem) (request : Nat → Option (Nat → Nat)) (block offset : Nat) : Found :=
  match request block with
  | none => ⟨.error .io, [block], []⟩
  | some number => ⟨.ok (resultOf fs (number offset)), [block], [number offset]⟩

/-- The search continues in the table that was found. -/
def Found.next (found : Found) (search : Nat → Found) : Found :=
  match found.result with
  | .error errno => ⟨.error errno, found.tables, found.numbers⟩
  | .ok block =>
    ⟨(search block).result, found.tables ++ (search block).tables, found.numbers ++ (search block).numbers⟩

/-- The search of `rtems_rfs_block_map_find` by the level of the map. -/
def findBlock (fs : FileSystem) (map : Map) (request : Nat → Option (Nat → Nat)) (bno : Nat) : Found :=
  if map.count ≤ inodeBlocks then ⟨.ok (map.blocks bno), [], []⟩
  else
    let direct := bno % fs.blocksPerBlock
    let singly := bno / fs.blocksPerBlock
    if map.count ≤ fs.singlyBlocks then findIndirect fs request (map.blocks singly) direct
    else
      let doubly := singly / fs.blocksPerBlock
      let singly := singly % fs.blocksPerBlock
      if map.count < fs.doublyBlocks then
        (findIndirect fs request (map.blocks doubly) singly).next
          fun table => findIndirect fs request table direct
      else ⟨.error .enxio, [], []⟩

/-- `rtems_rfs_block_map_find`, for its result. -/
def blockMapFind (fs : FileSystem) (map : Map) (request : Nat → Option (Nat → Nat)) (bno : Nat) : Found :=
  if bno ≠ 0 ∧ map.count = 0 ∨ map.count ≤ bno then ⟨.error .enxio, [], []⟩
  else if bno = map.bpos.bno ∧ map.bpos.block ≠ 0 then ⟨.ok map.bpos.block, [], []⟩
  else findBlock fs map request bno

/-- With requests that succeed this is the search of the block map. -/
theorem blockMapFind_refines (fs : FileSystem) (state : State) (bno boff : Nat) :
    (BlockMap.blockMapFind fs state bno boff).1.toOption =
      (blockMapFind fs state.map (fun table => some (state.number table)) bno).result.toOption := by
  rw [BlockMap.blockMapFind, blockMapFind]
  by_cases past : bno ≠ 0 ∧ state.map.count = 0 ∨ state.map.count ≤ bno
  · rw [if_pos past, if_pos past]
    rfl
  · rw [if_neg past, if_neg past]
    by_cases cached : bno = state.map.bpos.bno ∧ state.map.bpos.block ≠ 0
    · rw [if_pos cached, if_pos cached]
      rfl
    · rw [if_neg cached, if_neg cached, BlockMap.findBlock, findBlock]
      by_cases direct : state.map.count ≤ inodeBlocks
      · simp only [if_pos direct]
        rfl
      · by_cases single : state.map.count ≤ fs.singlyBlocks
        · simp only [if_neg direct, if_pos single]
          rfl
        · by_cases double : state.map.count < fs.doublyBlocks
          · simp only [if_neg direct, if_neg single, if_pos double]
            rfl
          · simp only [if_neg direct, if_neg single, if_neg double]
            rfl

variable {fs : FileSystem} {map : Map} {request : Nat → Option (Nat → Nat)}

/-- The number of a data block or a table. -/
def HasBlock (fs : FileSystem) (block : Nat) : Prop := 0 < block ∧ block < fs.blocks

/-- A search gives a block of the file system or an error, does not use the first block as a table,
and gives an error when it has read a number that is not that of a block. -/
structure Found.Reported (fs : FileSystem) (found : Found) : Prop where
  valid : ∀ block, found.result = .ok block → HasBlock fs block
  tables : 0 ∉ found.tables
  errors : ∀ number ∈ found.numbers, fs.blocks ≤ number → ∃ errno, found.result = .error errno

/-- The numbers on the way from a table are those of blocks, as far as the tables can be read. -/
def Leads (fs : FileSystem) (request : Nat → Option (Nat → Nat)) : Nat → List Nat → Prop
  | _, [] => True
  | table, offset :: offsets =>
    table ≠ 0 ∧ ∀ number, request table = some number →
      HasBlock fs (number offset) ∧ Leads fs request (number offset) offsets

/-- A number is kept exactly when it is that of a block. -/
theorem resultOf_valid_iff (num : Nat) : HasBlock fs (resultOf fs num) ↔ HasBlock fs num := by
  have numbered := fs.numbered
  simp only [resultOf, HasBlock]
  split <;> split <;> omega

theorem resultOf_eq {num : Nat} (valid : HasBlock fs num) : resultOf fs num = num := by
  have numbered := fs.numbered
  simp only [resultOf, HasBlock] at *
  split <;> split <;> omega

theorem resultOf_eq_zero {num : Nat} (invalid : ¬ HasBlock fs num) : resultOf fs num = 0 := by
  simp only [resultOf, HasBlock] at *
  split <;> split <;> omega

/-- A single lookup. -/
theorem findIndirect_reported_iff (table off : Nat) :
    (findIndirect fs request table off).Reported fs ↔ Leads fs request table [off] := by
  rw [findIndirect, Leads]
  cases read : request table with
  | none =>
    constructor
    · rintro ⟨-, tables, -⟩
      exact ⟨fun zero => tables (by simp [zero]), fun _ some => absurd some (by simp)⟩
    · rintro ⟨nonzero, -⟩
      exact ⟨fun _ found => by simp at found, by simpa using nonzero.symm, by simp⟩
  | some num =>
    constructor
    · rintro ⟨valid, tables, -⟩
      refine ⟨fun zero => tables (by simp [zero]), ?_⟩
      rintro _ ⟨⟩
      exact ⟨(resultOf_valid_iff _).mp (valid _ rfl), trivial⟩
    · rintro ⟨nonzero, leads⟩
      have valid := (leads num rfl).1
      refine ⟨?_, by simpa using nonzero.symm, ?_⟩
      · rintro _ ⟨⟩
        exact (resultOf_valid_iff _).mpr valid
      · rintro _ (_ | ⟨_, ⟨⟩⟩) beyond
        exact absurd valid.2 (Nat.not_lt.mpr beyond)

theorem findIndirect_table (table off : Nat) : table ∈ (findIndirect fs request table off).tables := by
  rw [findIndirect]
  split <;> exact List.mem_singleton_self _

/-- Two lookups in turn. -/
theorem next_reported_iff (table off offset' : Nat) : ((findIndirect fs request table off).next
      fun inner => findIndirect fs request inner offset').Reported fs ↔
    Leads fs request table [off, offset'] := by
  cases read : request table with
  | none =>
    have single := @findIndirect_reported_iff fs request table off
    simp only [findIndirect, Found.next, read, Leads] at single ⊢
    simpa using single
  | some num =>
    have chained : (findIndirect fs request table off).next
        (fun inner => findIndirect fs request inner offset') =
      ⟨(findIndirect fs request (resultOf fs (num off)) offset').result,
        table :: (findIndirect fs request (resultOf fs (num off)) offset').tables,
        num off :: (findIndirect fs request (resultOf fs (num off)) offset').numbers⟩ := by
      rw [Found.next, findIndirect, read]
      rfl
    rw [chained, Leads]
    constructor
    · rintro ⟨valid, tables, errors⟩
      refine ⟨fun zero => tables (by simp [zero]), ?_⟩
      intro _ same
      cases read.symm.trans same
      -- a num that is not that of a block makes the first block the inner table
      have inner : HasBlock fs (num off) := by
        by_contra invalid
        rw [resultOf_eq_zero invalid] at tables
        exact tables (List.mem_cons_of_mem _ (findIndirect_table 0 offset'))
      rw [resultOf_eq inner] at valid tables errors
      exact ⟨inner, (findIndirect_reported_iff _ _).mp ⟨valid,
        fun member => tables (List.mem_cons_of_mem _ member),
        fun _ member => errors _ (List.mem_cons_of_mem _ member)⟩⟩
    · rintro ⟨nonzero, leads⟩
      obtain ⟨inner, leads⟩ := leads num read
      obtain ⟨valid, tables, errors⟩ := (findIndirect_reported_iff _ _).mpr leads
      rw [resultOf_eq inner]
      constructor
      · exact valid
      · exact List.not_mem_cons_of_ne_of_not_mem nonzero.symm tables
      · rintro _ (_ | ⟨_, member⟩) beyond
        · exact absurd inner.2 (Nat.not_lt.mpr beyond)
        · exact errors _ member beyond

/-- The way of a search that is neither past the end nor answered from the last one. -/
def Sound (fs : FileSystem) (map : Map) (request : Nat → Option (Nat → Nat)) (bno : Nat) : Prop :=
  let direct := bno % fs.blocksPerBlock
  let singly := bno / fs.blocksPerBlock
  if map.count ≤ fs.singlyBlocks then Leads fs request (map.blocks singly) [direct]
  else if map.count < fs.doublyBlocks then
    Leads fs request (map.blocks (singly / fs.blocksPerBlock)) [singly % fs.blocksPerBlock, direct]
  else True

/-- A search reports corrupt tables exactly when there is nothing to report: the numbers on its way
are those of blocks, as is the block of the last search when it answers. -/
theorem find_reported_iff (indirect : inodeBlocks < map.count) (bno : Nat) :
    (blockMapFind fs map request bno).Reported fs ↔
      (bno < map.count →
        if bno = map.bpos.bno ∧ map.bpos.block ≠ 0 then map.bpos.block < fs.blocks
        else Sound fs map request bno) := by
  rw [blockMapFind]
  by_cases past : map.count ≤ bno
  · rw [if_pos (.inr past)]
    refine iff_of_true ⟨fun _ found => ?_, by simp, by simp⟩ fun inside => absurd inside (Nat.not_lt.mpr past)
    contradiction
  · rw [if_neg (by omega), forall_prop_of_true (Nat.not_le.mp past)]
    by_cases cached : bno = map.bpos.bno ∧ map.bpos.block ≠ 0
    · rw [if_pos cached, if_pos cached]
      constructor
      · exact fun reported => (reported.valid _ rfl).2
      · intro inside
        refine ⟨?_, by simp, by simp⟩
        rintro _ ⟨⟩
        exact ⟨Nat.pos_of_ne_zero cached.2, inside⟩
    · rw [if_neg cached, if_neg cached, findBlock, if_neg (Nat.not_le.mpr indirect), Sound]
      split
      · exact findIndirect_reported_iff _ _
      · split
        · exact next_reported_iff _ _ _
        · refine iff_of_true ⟨fun _ found => ?_, by simp, by simp⟩ trivial
          contradiction

/-- A map of six blocks with one table. -/
def sixBlocks : Map := ⟨6, 0, ⟨0, 0, 0⟩, fun _ => 9⟩

/-- The table names a block. -/
theorem find_reported_block :
    (blockMapFind small sixBlocks (fun _ => some fun _ => 20) 3).Reported small := by
  refine (find_reported_iff (by decide) 3).mpr fun _ => ?_
  exact show 9 ≠ 0 ∧ _ from ⟨by decide, fun _ same => by cases same; exact ⟨⟨by decide, by decide⟩, trivial⟩⟩

/-- The table holds a number that is not that of a block: the search succeeds with the first block of
the file system. -/
theorem corrupt_table_is_not_reported :
    ¬ (blockMapFind small sixBlocks (fun _ => some fun _ => 4000000) 3).Reported small := by
  intro reported
  exact absurd (reported.valid 0 (by rfl)).1 (by decide)

end Rtems.Rfs.BlockFind
