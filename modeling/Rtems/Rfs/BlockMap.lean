import Rtems.Library.Paged
import Rtems.Library.Transition

/-!
# Block maps

The map of an inode is the list of its data blocks. Up to five blocks have their numbers
in the slots of the inode. More of them have their numbers in tables, which are blocks
too, and the slots name the tables; when five tables are full their numbers move to
tables in turn. Growing and shrinking move the map between the levels.

Requests of buffers succeed, so that a table is what was last written to its block. An
allocation takes any block that is free or fails; the goal of the search is a hint.
-/

namespace Rtems.Rfs.BlockMap

open Paged
open Transition
open Function (update update_of_ne update_self)
open List (append_nil count_append count_cons count_nil getElem?_append_left length_append
  length_singleton mem_cons mem_cons_self nodup_append nodup_cons subset_append_left)
open Nat (div_add_mod div_eq_of_lt mod_eq_of_lt)

/-- `RTEMS_RFS_INODE_BLOCKS`. -/
def inodeBlocks : Nat := 5

/-- `RTEMS_RFS_INODE_SIZE`. -/
def inodeSize : Nat := 56

/-- The part of `rtems_rfs_file_system` for block maps. A block holds an inode, and the
number of blocks has 32 bits. -/
structure FileSystem where
  blockSize : Nat
  blocks : Nat
  inode_fits : inodeSize ≤ blockSize
  numbered : blocks < 2 ^ 32

/-- `blocks_per_block`. -/
def FileSystem.blocksPerBlock (fs : FileSystem) : Nat := fs.blockSize / 4

/-- `block_map_singly_blocks`. -/
def FileSystem.singlyBlocks (fs : FileSystem) : Nat := fs.blocksPerBlock * inodeBlocks

/-- `block_map_doubly_blocks`. -/
def FileSystem.doublyBlocks (fs : FileSystem) : Nat :=
  fs.blocksPerBlock * fs.blocksPerBlock * inodeBlocks

/-- The error codes of the block map calls. -/
inductive Errno where
  | enxio
  | enospc
  | efbig
deriving DecidableEq, Repr

/-- `rtems_rfs_block_pos`. -/
structure Position where
  bno : Nat
  boff : Nat
  block : Nat

/-- `rtems_rfs_block_map`: its size, the position of the last search and the slots. -/
structure Map where
  count : Nat
  offset : Nat
  bpos : Position
  blocks : Nat → Nat

/-- A map with the group bitmaps, the block numbers in every block and the blocks that the
next allocations come upon. -/
structure State where
  map : Map
  allocated : Nat → Bool
  number : Nat → Nat → Nat
  choices : List Nat

section

variable (fs : FileSystem) (state : State)

/-- `rtems_rfs_group_bitmap_alloc`. It fails when it comes upon no free block. -/
def bitmapAlloc : Option Nat × State :=
  match state.choices with
  | [] => (none, state)
  | block :: rest =>
    if state.allocated block = false ∧ 0 < block ∧ block < fs.blocks then
      (some block, { state with
        allocated := Function.update state.allocated block true
        choices := rest })
    else (none, { state with choices := rest })

/-- `rtems_rfs_group_bitmap_free`. -/
def bitmapFree (state : State) (block : Nat) : State :=
  { state with allocated := Function.update state.allocated block false }

/-- Set a slot of the inode. -/
def setSlot (state : State) (slot block : Nat) : State :=
  { state with map := { state.map with blocks := Function.update state.map.blocks slot block } }

/-- `rtems_rfs_block_set_number`. -/
def setNumber (state : State) (table index block : Nat) : State :=
  { state with number := write state.number table index block }

/-- `rtems_rfs_block_find_indirect`. A number that is not that of a block is returned as
zero. -/
def findIndirect (table offset : Nat) : Nat :=
  let result := state.number table offset
  let result := if (result + 1) % 2 ^ 32 = 0 then 0 else result
  if fs.blocks ≤ result then 0 else result

/-- The search of `rtems_rfs_block_map_find` by the level of the map. -/
def findBlock (bno : Nat) : Except Errno Nat :=
  let count := state.map.count
  if count ≤ inodeBlocks then .ok (state.map.blocks bno)
  else
    let direct := bno % fs.blocksPerBlock
    let singly := bno / fs.blocksPerBlock
    if count ≤ fs.singlyBlocks then
      .ok (findIndirect fs state (state.map.blocks singly) direct)
    else
      let doubly := singly / fs.blocksPerBlock
      let singly := singly % fs.blocksPerBlock
      if count < fs.doublyBlocks then
        let table := findIndirect fs state (state.map.blocks doubly) singly
        .ok (findIndirect fs state table direct)
      else .error .enxio

/-- `rtems_rfs_block_map_find`. The position of the map is kept with the block that was
found for it. -/
def blockMapFind (bno boff : Nat) : Except Errno Nat × State :=
  if bno ≠ 0 ∧ state.map.count = 0 ∨ state.map.count ≤ bno then (.error .enxio, state)
  else
    let found :=
      if bno = state.map.bpos.bno ∧ state.map.bpos.block ≠ 0 then .ok state.map.bpos.block
      else findBlock fs state bno
    match found with
    | .ok block => (.ok block, { state with map := { state.map with bpos := ⟨bno, boff, block⟩ } })
    | .error errno => (.error errno, state)

/-- A new table is filled with ones, before the slots are moved to it when upping. -/
def freshTable (slots : Nat → Nat) (upping : Bool) (index : Nat) : Nat :=
  if upping = true ∧ index < inodeBlocks then slots index else 2 ^ 32 - 1

/-- `rtems_rfs_block_map_indirect_alloc`. When upping the slots are moved to the new
table. -/
def indirectAlloc (upping : Bool) : Option Nat × State :=
  match bitmapAlloc fs state with
  | (none, state) => (none, state)
  | (some block, state) =>
    (some block, { state with
      number := Function.update state.number block (freshTable state.map.blocks upping)
      map := { state.map with
        blocks := if upping = true then fun _ => 0 else state.map.blocks } })

/-- The table of `rtems_rfs_block_map_grow` for a singly indirect block. -/
def growSingly (direct singly : Nat) : Option Nat × State :=
  if direct = 0 ∨ singly = 0 ∧ direct = inodeBlocks then
    match indirectAlloc fs state (decide (state.map.count = inodeBlocks)) with
    | (none, state) => (none, state)
    | (some table, state) => (some table, setSlot state singly table)
  else (some (state.map.blocks singly), state)

/-- The table of `rtems_rfs_block_map_grow` for a doubly indirect block. -/
def growDoubly (direct singly doubly : Nat) : Option Nat × State :=
  if direct = 0 then
    match indirectAlloc fs state false with
    | (none, state) => (none, state)
    | (some singlyBlock, state) =>
      if singly = 0 ∨ doubly = 0 ∧ singly = inodeBlocks then
        match indirectAlloc fs state (decide (state.map.count = fs.singlyBlocks)) with
        | (none, state) => (none, bitmapFree state singlyBlock)
        | (some table, state) =>
          (some singlyBlock, setNumber (setSlot state doubly table) table singly singlyBlock)
      else (some singlyBlock, setNumber state (state.map.blocks doubly) singly singlyBlock)
  else (some (state.number (state.map.blocks doubly) singly), state)

/-- The table that takes the number of the next block. -/
def growTable : Option Nat × State :=
  let direct := state.map.count % fs.blocksPerBlock
  let singly := state.map.count / fs.blocksPerBlock
  if state.map.count < fs.singlyBlocks then growSingly fs state direct singly
  else growDoubly fs state direct (singly % fs.blocksPerBlock) (singly / fs.blocksPerBlock)

/-- The size after another block. -/
def grown (state : State) : State :=
  { state with map := { state.map with count := state.map.count + 1, offset := 0 } }

/-- The number of a block is written to a table, or the block is freed again. -/
def growIndirect (block : Nat) : Except Errno Nat × State :=
  match growTable fs state with
  | (none, state) => (.error .enospc, bitmapFree state block)
  | (some table, state) =>
    (.ok block, grown (setNumber state table (state.map.count % fs.blocksPerBlock) block))

/-- The body of the loop of `rtems_rfs_block_map_grow`. -/
def growBlock : Except Errno Nat × State :=
  match bitmapAlloc fs state with
  | (none, state) => (.error .enospc, state)
  | (some block, state) =>
    if state.map.count < inodeBlocks then
      (.ok block, grown (setSlot state state.map.count block))
    else growIndirect fs state block

/-- The loop of `rtems_rfs_block_map_grow` with the first block that was allocated. -/
def growLoop (fs : FileSystem) :
    Nat → Option Nat → State → Except Errno Unit × Option Nat × State
  | 0, newBlock, state => (.ok (), newBlock, state)
  | blocks + 1, newBlock, state =>
    match growBlock fs state with
    | (.error errno, state) => (.error errno, newBlock, state)
    | (.ok block, state) => growLoop fs blocks (some (newBlock.getD block)) state

/-- `rtems_rfs_block_map_grow`. -/
def blockMapGrow (blocks : Nat) : Except Errno Unit × Option Nat × State :=
  if fs.doublyBlocks ≤ state.map.count + blocks then (.error .efbig, none, state)
  else growLoop fs blocks none state

/-- `rtems_rfs_block_map_indirect_shrink`. -/
def indirectShrink (state : State) (table indirect index : Nat) : State :=
  if index = 0 ∨ indirect = 0 ∧ index = inodeBlocks then
    let blockToFree := state.map.blocks indirect
    let blocks : Nat → Nat :=
      if indirect = 0 ∧ index = inodeBlocks then
        fun slot => if slot < inodeBlocks then state.number table slot else state.map.blocks slot
      else Function.update state.map.blocks indirect 0
    bitmapFree { state with map := { state.map with blocks := blocks } } blockToFree
  else state

/-- The block that the loop of `rtems_rfs_block_map_shrink` frees, with the tables that go
with it. Beyond the doubly indirect blocks the loop is left. -/
def shrinkTable (block : Nat) : Option (Nat × State) :=
  if block < inodeBlocks then some (state.map.blocks block, setSlot state block 0)
  else
    let direct := block % fs.blocksPerBlock
    let singly := block / fs.blocksPerBlock
    if block < fs.singlyBlocks then
      let table := state.map.blocks singly
      some (state.number table direct, indirectShrink state table singly direct)
    else if block < fs.doublyBlocks then
      let doubly := singly / fs.blocksPerBlock
      let doublySingly := singly % fs.blocksPerBlock
      let table := state.map.blocks doubly
      let singly := state.number table doublySingly
      some (state.number singly direct,
        if direct = 0 then indirectShrink (bitmapFree state singly) table doubly doublySingly
        else state)
    else none

/-- The body of the loop of `rtems_rfs_block_map_shrink`. -/
def shrinkBlock : Option State :=
  match shrinkTable fs state (state.map.count - 1) with
  | none => none
  | some (blockToFree, state) =>
    let state := bitmapFree state blockToFree
    some { state with map := { state.map with count := state.map.count - 1, offset := 0 } }

/-- The loop of `rtems_rfs_block_map_shrink`. -/
def shrinkLoop (fs : FileSystem) : Nat → State → State
  | 0, state => state
  | blocks + 1, state =>
    match shrinkBlock fs state with
    | none => state
    | some state => shrinkLoop fs blocks state

/-- `rtems_rfs_block_pos_past_end`. -/
def posPastEnd (bpos : Position) (count offset : Nat) : Prop :=
  bpos.bno ≠ 0 ∧ count = 0 ∨ count ≤ bpos.bno ∨ bpos.bno = count - 1 ∧ offset < bpos.boff
deriving Decidable

/-- `rtems_rfs_block_size_get_bpos`. -/
def sizeGetBpos (count offset : Nat) : Position :=
  ⟨if offset = 0 then count else count - 1, offset, 0⟩

/-- `rtems_rfs_block_map_shrink`. -/
def blockMapShrink (blocks : Nat) : State :=
  if state.map.count = 0 then state
  else
    let state := shrinkLoop fs (min blocks state.map.count) state
    if posPastEnd state.map.bpos state.map.count state.map.offset then
      { state with map := { state.map with
        bpos := sizeGetBpos state.map.count state.map.offset } }
    else state

/-- The calls. The allocations of a growing map come upon a list of blocks. -/
inductive Operation where
  | find (bno boff : Nat)
  | grow (blocks : Nat) (choices : List Nat)
  | shrink (blocks : Nat)

/-- A call and the state that it leaves. -/
def step : Operation → Option State
  | .find bno boff => some (blockMapFind fs state bno boff).2
  | .grow blocks choices => some (blockMapGrow fs { state with choices := choices } blocks).2.2
  | .shrink blocks => some (blockMapShrink fs state blocks)

end

/-- A map without blocks, while some blocks are allocated for others. -/
structure Initial (foreign : Nat → Bool) (state : State) : Prop where
  count : state.map.count = 0
  bpos : state.map.bpos = ⟨0, 0, 0⟩
  allocated : state.allocated = foreign

/-- The tables that a number of blocks needs. -/
def tableCount (fs : FileSystem) (count : Nat) : Nat :=
  if count ≤ inodeBlocks then 0
  else
    let singly := pageCount fs.blocksPerBlock count
    if count ≤ fs.singlyBlocks then singly else singly + pageCount fs.blocksPerBlock singly

/-- The blocks that are allocated for the map, each of them once. -/
structure Owns (fs : FileSystem) (foreign allocated : Nat → Bool) (blocks : List Nat) : Prop where
  nodup : blocks.Nodup
  exact : ∀ block, allocated block = true ↔ foreign block = true ∨ block ∈ blocks
  apart : ∀ block ∈ blocks, foreign block = false ∧ 0 < block ∧ block < fs.blocks

/-- The first slots of the inode. -/
def Holds (slots : Nat → Nat) (blocks : List Nat) : Prop :=
  ∀ index block, blocks[index]? = some block → slots index = block

/-- How the data blocks are found from the slots, with the tables of both kinds. -/
inductive Mapped (fs : FileSystem) (slots : Nat → Nat) (number : Nat → Nat → Nat)
    (data : List Nat) : List Nat → List Nat → Prop where
  | direct (few : data.length ≤ inodeBlocks) (held : Holds slots data) :
      Mapped fs slots number data [] []
  | singly (tables : List Nat) (more : inodeBlocks < data.length)
      (few : data.length ≤ fs.singlyBlocks)
      (stored : Stored number fs.blocksPerBlock data tables) (held : Holds slots tables) :
      Mapped fs slots number data tables []
  | doubly (tables tops : List Nat) (more : fs.singlyBlocks < data.length)
      (few : data.length < fs.doublyBlocks)
      (stored : Stored number fs.blocksPerBlock data tables)
      (named : Stored number fs.blocksPerBlock tables tops) (held : Holds slots tops) :
      Mapped fs slots number data tables tops

theorem FileSystem.slots_fit (fs : FileSystem) : inodeBlocks < fs.blocksPerBlock := by
  have fits := fs.inode_fits
  unfold FileSystem.blocksPerBlock inodeBlocks
  unfold inodeSize at fits
  omega

theorem FileSystem.slots_lt_singly (fs : FileSystem) : inodeBlocks < fs.singlyBlocks := by
  have fits := fs.slots_fit
  unfold FileSystem.singlyBlocks inodeBlocks at *
  omega

namespace Owns

variable {fs : FileSystem} {foreign allocated : Nat → Bool} {blocks others : List Nat}
  {block : Nat}

theorem perm (owns : Owns fs foreign allocated blocks) (same : blocks.Perm others) :
    Owns fs foreign allocated others := by
  constructor
  · exact same.nodup_iff.mp owns.nodup
  · intro block
    rw [owns.exact, same.mem_iff]
  · intro block mem
    exact owns.apart block (same.mem_iff.mpr mem)

/-- A block that was free is taken. -/
theorem take (owns : Owns fs foreign allocated blocks) (free : allocated block = false)
    (positive : 0 < block) (inside : block < fs.blocks) :
    Owns fs foreign (update allocated block true) (block :: blocks) := by
  have unmarked : ¬ (foreign block = true ∨ block ∈ blocks) := by
    rw [← owns.exact, free]
    exact Bool.false_ne_true
  constructor
  · exact nodup_cons.mpr ⟨fun mem => unmarked (.inr mem), owns.nodup⟩
  · intro other
    by_cases same : other = block
    · rw [same, update_self]
      simp
    · rw [update_of_ne same, owns.exact, mem_cons]
      simp [same]
  · intro other mem
    cases mem with
    | head => exact ⟨by simpa using fun marked => unmarked (.inl marked), positive, inside⟩
    | tail _ old => exact owns.apart other old

/-- A block is given back. -/
theorem release (owns : Owns fs foreign allocated (block :: blocks)) :
    Owns fs foreign (update allocated block false) blocks := by
  obtain ⟨absent, nodup⟩ := nodup_cons.mp owns.nodup
  obtain ⟨unmarked, -⟩ := owns.apart block mem_cons_self
  constructor
  · exact nodup
  · intro other
    by_cases same : other = block
    · rw [same, update_self, unmarked]
      simp [absent]
    · rw [update_of_ne same, owns.exact, mem_cons]
      simp [same]
  · intro other mem
    exact owns.apart other (List.mem_cons_of_mem _ mem)

end Owns

section

variable (fs : FileSystem) {foreign : Nat → Bool} {blocks : List Nat} (st : State)

/-- An allocation fails and changes nothing, or it takes a block. -/
theorem bitmapAlloc_spec (owns : Owns fs foreign st.allocated blocks) :
    (∃ choices, bitmapAlloc fs st = (none, { st with choices := choices })) ∨
      ∃ block choices, bitmapAlloc fs st = (some block, { st with
          allocated := update st.allocated block true
          choices := choices }) ∧
        Owns fs foreign (update st.allocated block true) (block :: blocks) := by
  obtain ⟨map, allocated, num, choices⟩ := st
  cases choices with
  | nil => exact .inl ⟨[], rfl⟩
  | cons block rest =>
    by_cases free : allocated block = false ∧ 0 < block ∧ block < fs.blocks
    · exact .inr ⟨block, rest, if_pos free, owns.take free.1 free.2.1 free.2.2⟩
    · exact .inl ⟨rest, if_neg free⟩

/-- A table is allocated like a block. -/
theorem indirectAlloc_spec (upping : Bool) (owns : Owns fs foreign st.allocated blocks) :
    (∃ choices, indirectAlloc fs st upping = (none, { st with choices := choices })) ∨
      ∃ table choices, indirectAlloc fs st upping = (some table, { st with
          map := { st.map with
            blocks := if upping = true then fun _ => 0 else st.map.blocks }
          allocated := update st.allocated table true
          number := update st.number table (freshTable st.map.blocks upping)
          choices := choices }) ∧
        Owns fs foreign (update st.allocated table true) (table :: blocks) := by
  obtain ⟨choices, failed⟩ | ⟨table, choices, taken, owns⟩ := bitmapAlloc_spec fs st owns
  · exact .inl ⟨choices, by rw [indirectAlloc, failed]⟩
  · exact .inr ⟨table, choices, by rw [indirectAlloc, taken], owns⟩

/-- The slots stay when a table is added to a level. -/
theorem indirectAlloc_level (owns : Owns fs foreign st.allocated blocks) :
    (∃ choices, indirectAlloc fs st false = (none, { st with choices := choices })) ∨
      ∃ table choices, indirectAlloc fs st false = (some table, { st with
          allocated := update st.allocated table true
          number := update st.number table (freshTable st.map.blocks false)
          choices := choices }) ∧
        Owns fs foreign (update st.allocated table true) (table :: blocks) :=
  indirectAlloc_spec fs st false owns

end

variable {slots : Nat → Nat}

variable {blocks : List Nat}

theorem Holds.push (held : Holds slots blocks) (block : Nat) :
    Holds (update slots blocks.length block) (blocks ++ [block]) := by
  intro index other present
  by_cases old : index < blocks.length
  · rw [getElem?_append_left old] at present
    rw [update_of_ne (Nat.ne_of_lt old), held index other present]
  · have size := (List.getElem?_eq_some_iff.mp present).1
    rw [length_append, length_singleton] at size
    obtain rfl : index = blocks.length := by omega
    rw [List.getElem?_concat_length] at present
    cases present
    exact update_self _ _ _

variable {block : Nat}

theorem Holds.pop (held : Holds slots (blocks ++ [block])) (value : Nat) :
    Holds (update slots blocks.length value) blocks := by
  intro index other present
  have old := (List.getElem?_eq_some_iff.mp present).1
  rw [update_of_ne (Nat.ne_of_lt old)]
  exact held index other (by rw [getElem?_append_left old, present])

theorem Holds.last (held : Holds slots (blocks ++ [block])) : slots blocks.length = block :=
  held blocks.length block List.getElem?_concat_length

variable {num : Nat → Nat → Nat}

variable {fs : FileSystem}

/-- The slots of the inode fill a new table. -/
theorem stored_freshTable (held : Holds slots blocks) (full : blocks.length = inodeBlocks)
    (table : Nat) :
    Stored (update num table (freshTable slots true)) fs.blocksPerBlock blocks [table] := by
  have fits := fs.slots_fit
  refine Stored.single (by rw [full]; decide) (by omega) ?_
  intro index block present
  have inside := (List.getElem?_eq_some_iff.mp present).1
  rw [update_self, freshTable, if_pos ⟨rfl, by omega⟩]
  exact held index block present

/-- The table for the next number of a map: the allocation fails and leaves the map as it
is, or the number can be written to the table that is returned. -/
structure GrowTable (fs : FileSystem) (foreign : Nat → Bool) (extra data singly doubly : List Nat)
    (state : State) (result : Option Nat × State) : Prop where
  failed : result.1 = none → result.2.map = state.map ∧
    Mapped fs state.map.blocks result.2.number data singly doubly ∧
    Owns fs foreign result.2.allocated (extra ++ (data ++ singly ++ doubly))
  granted : ∀ table, result.1 = some table →
    ∃ slots tables tops, result.2.map = { state.map with blocks := slots } ∧
      singly ⊆ tables ∧ doubly ⊆ tops ∧
      Owns fs foreign result.2.allocated (extra ++ (data ++ tables ++ tops)) ∧
      ∀ block, Mapped fs slots
        (write result.2.number table (data.length % fs.blocksPerBlock) block)
        (data ++ [block]) tables tops

variable {foreign : Nat → Bool} {data singly doubly : List Nat} {st : State}

/-- Nothing changes when no table can be allocated. -/
theorem GrowTable.none {extra : List Nat} (next : State)
    (mapped : Mapped fs st.map.blocks next.number data singly doubly)
    (owns : Owns fs foreign next.allocated (extra ++ (data ++ singly ++ doubly)))
    (same : next.map = st.map) :
    GrowTable fs foreign extra data singly doubly st (none, next) := by
  constructor
  · intro _
    exact ⟨same, mapped, owns⟩
  · intro table granted
    cases granted

theorem GrowTable.some {extra : List Nat} (table : Nat) (next : State) (slots : Nat → Nat)
    (tables tops : List Nat) (same : next.map = { st.map with blocks := slots })
    (more : singly ⊆ tables) (above : doubly ⊆ tops)
    (owns : Owns fs foreign next.allocated (extra ++ (data ++ tables ++ tops)))
    (mapped : ∀ block, Mapped fs slots (write next.number table (data.length % fs.blocksPerBlock) block) (data ++ [block]) tables tops)
    :
    GrowTable fs foreign extra data singly doubly st (some table, next) := by
  constructor
  · intro failed
    cases failed
  · intro other granted
    cases granted
    exact ⟨slots, tables, tops, same, more, above, owns, mapped⟩

theorem perm_block (data singly doubly : List Nat) (block : Nat) :
    (block :: (data ++ singly ++ doubly)).Perm (data ++ [block] ++ singly ++ doubly) := by
  rw [List.perm_iff_count]
  simp only [count_append, count_cons, count_nil]
  omega

theorem perm_table (extra data singly doubly : List Nat) (table : Nat) :
    (table :: (extra ++ (data ++ singly ++ doubly))).Perm
      (extra ++ (data ++ (singly ++ [table]) ++ doubly)) := by
  rw [List.perm_iff_count]
  simp only [count_append, count_cons, count_nil]
  omega

theorem perm_top (extra data singly doubly : List Nat) (top : Nat) :
    (top :: (extra ++ (data ++ singly ++ doubly))).Perm
      (extra ++ (data ++ singly ++ (doubly ++ [top]))) := by
  rw [List.perm_iff_count]
  simp only [count_append, count_cons, count_nil]
  omega

theorem perm_last (data singly doubly : List Nat) (block table : Nat) :
    (data ++ [block] ++ (singly ++ [table]) ++ doubly).Perm
      (table :: (block :: (data ++ singly ++ doubly))) :=
  (perm_table [] (data ++ [block]) singly doubly table).symm.trans
    ((perm_block data singly doubly block).symm.cons table)

section Grow

variable {fs : FileSystem} {foreign : Nat → Bool} {extra data singly doubly : List Nat}
  {st : State}

/-- Moving from the slots to the first table. -/
theorem growTable_upping (full : data.length = inodeBlocks) (held : Holds st.map.blocks data)
    (count : st.map.count = data.length)
    (owns : Owns fs foreign st.allocated (extra ++ (data ++ [] ++ []))) :
    GrowTable fs foreign extra data [] [] st (growTable fs st) := by
  have fits := fs.slots_fit
  have direct : inodeBlocks % fs.blocksPerBlock = inodeBlocks := mod_eq_of_lt fits
  have slot : inodeBlocks / fs.blocksPerBlock = 0 := div_eq_of_lt fits
  have below := fs.slots_lt_singly
  rw [growTable, count, full, direct, slot, if_pos below, growSingly,
    if_pos (.inr ⟨rfl, rfl⟩), count, full, decide_eq_true rfl]
  obtain ⟨choices, failed⟩ | ⟨table, choices, taken, owned⟩ := indirectAlloc_spec fs st true owns
  · rw [failed]
    exact GrowTable.none _ (.direct (Nat.le_of_eq full) held) owns rfl
  · rw [taken]
    refine GrowTable.some table _ (update (fun _ => 0) 0 table) [table] [] rfl
      (List.nil_subset _) (List.Subset.refl _) ?_ ?_
    · exact owned.perm (perm_table extra data [] [] table)
    · intro block
      have stored : Stored (update st.number table
          (freshTable st.map.blocks true)) fs.blocksPerBlock data ([] ++ [table]) :=
        stored_freshTable held full table
      have none : Holds (fun _ => 0) [] := fun _ _ present => by cases present
      refine .singly _ (by simp [full]) (by simp [full]; omega) ?_ ?_
      · exact stored.push block (by omega) (by simp) (by rw [full, direct]; decide)
          (by rw [full, slot]; rfl)
      · exact none.push table

/-- A singly indirect number goes to the last table, or to a new one if it is full. -/
theorem growTable_singly (more : inodeBlocks < data.length) (few : data.length < fs.singlyBlocks)
    (stored : Stored st.number fs.blocksPerBlock data singly)
    (held : Holds st.map.blocks singly) (count : st.map.count = data.length)
    (owns : Owns fs foreign st.allocated (extra ++ (data ++ singly ++ []))) :
    GrowTable fs foreign extra data singly [] st (growTable fs st) := by
  have fits := fs.slots_fit
  have split := div_add_mod data.length fs.blocksPerBlock
  have distinct : singly.Nodup := by
    have nodup := owns.nodup
    simp only [nodup_append] at nodup
    exact nodup.2.1.1.2.1
  rw [growTable, count, if_pos few, growSingly, count]
  by_cases first : data.length % fs.blocksPerBlock = 0
  · rw [if_pos (.inl first), decide_eq_false (by omega)]
    obtain ⟨choices, failed⟩ | ⟨table, choices, taken, owned⟩ :=
      indirectAlloc_spec fs st false owns
    · rw [failed]
      exact GrowTable.none _ (.singly singly more (by omega) stored held) owns rfl
    · rw [taken]
      have place : data.length / fs.blocksPerBlock = singly.length := by
        rw [stored.count, pageCount, if_pos first]
      have fresh : table ∉ singly := by
        intro mem
        exact (nodup_cons.mp owned.nodup).1 (by simp [mem])
      refine GrowTable.some table _ (update st.map.blocks singly.length table)
        (singly ++ [table]) [] ?_ (subset_append_left _ _) (List.Subset.refl _) ?_ ?_
      · rw [place]
        rfl
      · exact owned.perm (perm_table extra data singly [] table)
      · intro block
        have kept : Stored (update st.number table
            (freshTable st.map.blocks false)) fs.blocksPerBlock data singly :=
          stored.frame fun other mem index => by
            rw [update_of_ne (ne_of_mem_of_not_mem mem fresh)]
        rw [first]
        refine .singly _ (by simp; omega) (by simp; omega) ?_ (held.push table)
        exact kept.push_page block (by omega) first fresh
  · have later : ¬ (data.length % fs.blocksPerBlock = 0 ∨
        data.length / fs.blocksPerBlock = 0 ∧ data.length % fs.blocksPerBlock = inodeBlocks) := by
      rintro (zero | ⟨quotient, remainder⟩)
      · exact first zero
      · rw [quotient, remainder] at split
        omega
    rw [if_neg later]
    obtain ⟨front, table, rfl, place⟩ := stored.last_page first
    rw [← place, held.last]
    refine GrowTable.some table _ st.map.blocks (front ++ [table]) [] rfl
      (List.Subset.refl _) (List.Subset.refl _) owns ?_
    intro block
    refine .singly _ (by simp; omega) (by simp; omega) ?_ held
    exact stored.push block (by omega) distinct first place

/-- The number of the next block goes to a new table whose own number is in a table of
tables. -/
theorem mapped_new_table {table : Nat}
    (more : fs.singlyBlocks ≤ data.length) (room : data.length + 1 < fs.doublyBlocks)
    (direct : data.length % fs.blocksPerBlock = 0) (fresh : table ∉ singly)
    (below : table ∉ doubly) (stored : Stored num fs.blocksPerBlock data singly)
    (named : Stored num fs.blocksPerBlock (singly ++ [table]) doubly)
    (held : Holds slots doubly) (block : Nat) :
    Mapped fs slots (write num table (data.length % fs.blocksPerBlock) block)
      (data ++ [block]) (singly ++ [table]) doubly := by
  have fits := fs.slots_fit
  rw [direct]
  refine .doubly _ _ (by simp; omega) (by simp; omega) ?_ ?_ held
  · exact stored.push_page block (by omega) direct fresh
  · exact named.frame fun page mem index =>
      write_page _ _ _ _ (ne_of_mem_of_not_mem mem below)

/-- Moving from five full tables to the first table of tables. -/
theorem growTable_upping_doubly (full : data.length = fs.singlyBlocks)
    (room : data.length + 1 < fs.doublyBlocks)
    (stored : Stored st.number fs.blocksPerBlock data singly)
    (held : Holds st.map.blocks singly) (count : st.map.count = data.length)
    (owns : Owns fs foreign st.allocated (extra ++ (data ++ singly ++ []))) :
    GrowTable fs foreign extra data singly [] st (growTable fs st) := by
  have fits := fs.slots_fit
  have direct : data.length % fs.blocksPerBlock = 0 := by
    rw [full, FileSystem.singlyBlocks, Nat.mul_mod_right]
  have quotient : data.length / fs.blocksPerBlock = inodeBlocks := by
    rw [full, FileSystem.singlyBlocks, Nat.mul_div_cancel_left _ (by omega)]
  have five : inodeBlocks % fs.blocksPerBlock = inodeBlocks := mod_eq_of_lt fits
  have slot : inodeBlocks / fs.blocksPerBlock = 0 := div_eq_of_lt fits
  have tables : singly.length = inodeBlocks := by
    rw [stored.count, pageCount, if_pos direct, quotient]
  have more : inodeBlocks < data.length := by
    rw [full]
    exact fs.slots_lt_singly
  rw [growTable, count, if_neg (by omega), direct, quotient, five, slot, growDoubly, if_pos rfl]
  obtain ⟨choices, failed⟩ | ⟨table, choices, taken, owned⟩ := indirectAlloc_level fs st owns
  · rw [failed]
    exact GrowTable.none _ (.singly singly more (by omega) stored held) owns rfl
  rw [taken]
  dsimp only
  rw [if_pos (.inr ⟨rfl, rfl⟩), count, full, decide_eq_true rfl]
  have fresh : table ∉ singly := by
    intro mem
    exact (nodup_cons.mp owned.nodup).1 (by simp [mem])
  obtain ⟨choices, failed⟩ | ⟨top, choices, taken, twice⟩ := indirectAlloc_spec fs { st with
      allocated := update st.allocated table true
      number := update st.number table (freshTable st.map.blocks false)
      choices := choices } true owned
  · rw [failed]
    refine GrowTable.none _ ?_ owned.release rfl
    refine .singly singly more (by omega) ?_ held
    exact stored.frame fun other mem index => by
      dsimp only [bitmapFree]
      rw [update_of_ne (ne_of_mem_of_not_mem mem fresh)]
  · rw [taken]
    have apart := (nodup_cons.mp twice.nodup).1
    have elsewhere : top ∉ singly := by
      intro mem
      exact apart (by simp [mem])
    have other : table ≠ top := by
      rintro rfl
      exact apart mem_cons_self
    refine GrowTable.some table _ (update (fun _ => 0) 0 top) (singly ++ [table]) [top]
      rfl (subset_append_left _ _) (List.nil_subset _) ?_ ?_
    · exact twice.perm (((perm_table extra data singly [] table).cons top).trans
        (perm_top extra data (singly ++ [table]) [] top))
    · intro block
      have none : Holds (fun _ => 0) [] := fun _ _ present => by cases present
      have moved : Stored (update (update st.number table
          (freshTable st.map.blocks false)) top (freshTable st.map.blocks true))
          fs.blocksPerBlock singly ([] ++ [top]) := stored_freshTable held tables top
      have named := moved.push table (by omega) (by simp) (by rw [tables, five]; decide)
        (by rw [tables, slot]; rfl)
      rw [tables, five] at named
      have kept : Stored (write (update (update st.number table
          (freshTable st.map.blocks false)) top (freshTable st.map.blocks true))
          top inodeBlocks table) fs.blocksPerBlock data singly :=
        stored.frame fun other mem index => by
          rw [write_page _ _ _ _ (ne_of_mem_of_not_mem mem elsewhere),
            update_of_ne (ne_of_mem_of_not_mem mem elsewhere),
            update_of_ne (ne_of_mem_of_not_mem mem fresh)]
      refine mapped_new_table (Nat.le_of_eq full.symm) room direct fresh (by simp [other]) kept named
        (none.push top) block

section

variable (more : fs.singlyBlocks < data.length) (room : data.length + 1 < fs.doublyBlocks)
  (stored : Stored st.number fs.blocksPerBlock data singly)
  (named : Stored st.number fs.blocksPerBlock singly doubly)
  (held : Holds st.map.blocks doubly) (count : st.map.count = data.length)
  (owns : Owns fs foreign st.allocated (extra ++ (data ++ singly ++ doubly)))
include more room stored named held count owns

/-- A doubly indirect number in a table that is not full. -/
theorem growTable_doubly_last (started : data.length % fs.blocksPerBlock ≠ 0) :
    GrowTable fs foreign extra data singly doubly st (growTable fs st) := by
  have fits := fs.slots_fit
  have nodup := owns.nodup
  simp only [nodup_append] at nodup
  rw [growTable, count, if_neg (by omega), growDoubly, if_neg started]
  obtain ⟨front, table, rfl, place⟩ := stored.last_page started
  obtain ⟨top, named_by, read⟩ := named.found front.length table List.getElem?_concat_length
  rw [← place, held _ top named_by, read]
  refine GrowTable.some table _ st.map.blocks (front ++ [table]) doubly rfl
    (List.Subset.refl _) (List.Subset.refl _) owns ?_
  intro block
  refine .doubly _ _ (by simp; omega) (by simp; omega) ?_ ?_ held
  · exact stored.push block (by omega) nodup.2.1.1.2.1 started place
  · exact named.frame fun page mem index => by
      refine write_page _ _ _ _ ?_
      rintro rfl
      exact nodup.2.1.2.2 page (by simp) page mem rfl

/-- A doubly indirect number in a new table, whose own number goes to the last table of
tables or to a new one. -/
theorem growTable_doubly_first (direct : data.length % fs.blocksPerBlock = 0) :
    GrowTable fs foreign extra data singly doubly st (growTable fs st) := by
  have fits := fs.slots_fit
  have nodup := owns.nodup
  simp only [nodup_append] at nodup
  have tables : singly.length = data.length / fs.blocksPerBlock := by
    rw [stored.count, pageCount, if_pos direct]
  have beyond : ¬ (singly.length / fs.blocksPerBlock = 0 ∧
      singly.length % fs.blocksPerBlock = inodeBlocks) := by
    rintro ⟨quotient, remainder⟩
    have outer := div_add_mod singly.length fs.blocksPerBlock
    have inner := div_add_mod data.length fs.blocksPerBlock
    rw [quotient, remainder, Nat.mul_zero, Nat.zero_add] at outer
    rw [← tables, ← outer, direct, Nat.add_zero] at inner
    rw [FileSystem.singlyBlocks] at more
    omega
  rw [growTable, count, if_neg (by omega), direct, ← tables, growDoubly, if_pos rfl]
  obtain ⟨choices, failed⟩ | ⟨table, choices, taken, owned⟩ := indirectAlloc_level fs st owns
  · rw [failed]
    exact GrowTable.none _ (.doubly singly doubly more (by omega) stored named held) owns rfl
  rw [taken]
  dsimp only
  have apart := (nodup_cons.mp owned.nodup).1
  have fresh : table ∉ singly := fun mem => apart (by simp [mem])
  have below : table ∉ doubly := fun mem => apart (by simp [mem])
  have kept : Stored (update st.number table (freshTable st.map.blocks false))
      fs.blocksPerBlock data singly :=
    stored.frame fun other mem index => by rw [update_of_ne (ne_of_mem_of_not_mem mem fresh)]
  have known : Stored (update st.number table (freshTable st.map.blocks false))
      fs.blocksPerBlock singly doubly :=
    named.frame fun other mem index => by rw [update_of_ne (ne_of_mem_of_not_mem mem below)]
  by_cases started : singly.length % fs.blocksPerBlock = 0
  · rw [if_pos (.inl started), count, decide_eq_false (by omega)]
    obtain ⟨choices, failed⟩ | ⟨top, choices, taken, twice⟩ := indirectAlloc_level fs { st with
        allocated := update st.allocated table true
        number := update st.number table (freshTable st.map.blocks false)
        choices := choices } owned
    · rw [failed]
      exact GrowTable.none _ (.doubly singly doubly more (by omega) kept known held)
        owned.release rfl
    · rw [taken]
      have outside := (nodup_cons.mp twice.nodup).1
      have other : table ≠ top := by
        rintro rfl
        exact outside mem_cons_self
      have elsewhere : top ∉ singly := fun mem => outside (by simp [mem])
      have unnamed : top ∉ doubly := fun mem => outside (by simp [mem])
      have place : singly.length / fs.blocksPerBlock = doubly.length := by
        rw [named.count, pageCount, if_pos started]
      refine GrowTable.some table _ (update st.map.blocks doubly.length top)
        (singly ++ [table]) (doubly ++ [top]) ?_ (subset_append_left _ _)
        (subset_append_left _ _) ?_ ?_
      · rw [place]
        rfl
      · exact twice.perm (((perm_table extra data singly doubly table).cons top).trans
          (perm_top extra data (singly ++ [table]) doubly top))
      · rw [started]
        refine mapped_new_table (Nat.le_of_lt more) room direct fresh (by simp [below, other]) ?_ ?_
          (held.push top)
        · exact kept.frame fun page mem index =>
            (write_page _ _ _ _ (ne_of_mem_of_not_mem mem elsewhere)).trans
              (congrFun (update_of_ne (ne_of_mem_of_not_mem mem elsewhere) _ _) index)
        · refine Stored.push_page table ?_ (by omega) started unnamed
          exact known.frame fun page mem index =>
            congrFun (update_of_ne (ne_of_mem_of_not_mem mem unnamed) _ _) index
  · rw [if_neg (by rintro (zero | both); exacts [started zero, beyond both])]
    obtain ⟨front, top, rfl, place⟩ := named.last_page started
    rw [← place, held.last]
    refine GrowTable.some table _ st.map.blocks (singly ++ [table]) (front ++ [top]) rfl
      (subset_append_left _ _) (List.Subset.refl _) ?_ ?_
    · exact owned.perm (perm_table extra data singly (front ++ [top]) table)
    · refine mapped_new_table (Nat.le_of_lt more) room direct fresh below ?_ ?_ held
      · exact kept.frame fun page mem index => by
          refine write_page _ _ _ _ ?_
          rintro rfl
          exact nodup.2.1.2.2 page (by simp [mem]) page (by simp) rfl
      · exact known.push table (by omega) nodup.2.1.2.1 started place

end

/-- The table for the next number at every level. -/
theorem growTable_spec (mapped : Mapped fs st.map.blocks st.number data singly doubly)
    (more : inodeBlocks ≤ data.length) (room : data.length + 1 < fs.doublyBlocks)
    (count : st.map.count = data.length)
    (owns : Owns fs foreign st.allocated (extra ++ (data ++ singly ++ doubly))) :
    GrowTable fs foreign extra data singly doubly st (growTable fs st) := by
  cases mapped with
  | direct few held => exact growTable_upping (by omega) held count owns
  | singly tables above few stored held =>
    obtain less | full := Nat.lt_or_eq_of_le few
    · exact growTable_singly above less stored held count owns
    · exact growTable_upping_doubly full room stored held count owns
  | doubly tables tops above few stored named held =>
    by_cases direct : data.length % fs.blocksPerBlock = 0
    · exact growTable_doubly_first above room stored named held count owns direct
    · exact growTable_doubly_last above room stored named held count owns direct

end Grow

/-- The map is the list of its data blocks, and these are allocated with its tables. -/
structure Sound (fs : FileSystem) (foreign : Nat → Bool) (state : State)
    (data singly doubly : List Nat) : Prop where
  mapped : Mapped fs state.map.blocks state.number data singly doubly
  count : state.map.count = data.length
  owns : Owns fs foreign state.allocated (data ++ singly ++ doubly)

/-- A block was appended, or no block was. -/
def Grown (fs : FileSystem) (foreign : Nat → Bool) (state : State) (data singly doubly : List Nat)
    (result : Except Errno Nat × State) : Prop :=
  result.2.map.bpos = state.map.bpos ∧
    ((result.1 = .error .enospc ∧ Sound fs foreign result.2 data singly doubly) ∨
      ∃ block tables tops, result.1 = .ok block ∧ singly ⊆ tables ∧ doubly ⊆ tops ∧
        Sound fs foreign result.2 (data ++ [block]) tables tops)

/-- A block that was allocated goes to a table or is freed. -/
theorem growIndirect_spec (mapped : Mapped fs st.map.blocks st.number data singly doubly)
    (more : inodeBlocks ≤ data.length) (room : data.length + 1 < fs.doublyBlocks)
    (count : st.map.count = data.length)
    (owns : Owns fs foreign st.allocated ([block] ++ (data ++ singly ++ doubly))) :
    Grown fs foreign st data singly doubly (growIndirect fs st block) := by
  have table := growTable_spec mapped more room count owns
  rw [growIndirect]
  cases outcome : growTable fs st with
  | mk granted next =>
    rw [outcome] at table
    cases granted with
    | none =>
      obtain ⟨same, kept, owned⟩ := table.failed rfl
      refine ⟨congrArg Map.bpos same, .inl ⟨rfl, ?_, ?_, ?_⟩⟩
      · dsimp only [bitmapFree]
        rwa [same]
      · dsimp only [bitmapFree]
        rw [same, count]
      · exact owned.release
    | some table_block =>
      obtain ⟨slots, tables, tops, same, below, above, owned, written⟩ :=
        table.granted table_block rfl
      dsimp only at same
      refine ⟨by simp only [grown, setNumber, same],
        .inr ⟨block, tables, tops, rfl, below, above, ?_, ?_, ?_⟩⟩
      · simp only [setNumber, same, count]
        exact written block
      · simp [grown, setNumber, same, count]
      · exact owned.perm (perm_block data tables tops block)

/-- Growing by a block appends the block that was allocated for it, or leaves the blocks
as they are. -/
theorem Sound.growBlock (sound : Sound fs foreign st data singly doubly)
    (room : data.length + 1 < fs.doublyBlocks) :
    Grown fs foreign st data singly doubly (growBlock fs st) := by
  have size := sound.count
  obtain ⟨choices, failed⟩ | ⟨block, choices, taken, owned⟩ := bitmapAlloc_spec fs st sound.owns
  · rw [BlockMap.growBlock, failed]
    exact ⟨rfl, .inl ⟨rfl, sound.mapped, size, sound.owns⟩⟩
  rw [BlockMap.growBlock, taken]
  dsimp only
  by_cases few : st.map.count < inodeBlocks
  · rw [if_pos few]
    obtain ⟨rfl, rfl, held⟩ : singly = [] ∧ doubly = [] ∧ Holds st.map.blocks data := by
      cases sound.mapped with
      | direct few held => exact ⟨rfl, rfl, held⟩
      | singly tables more => omega
      | doubly tables tops more =>
        have above := fs.slots_lt_singly
        omega
    refine ⟨rfl, .inr ⟨block, [], [], rfl, List.Subset.refl _, List.Subset.refl _, ?_⟩⟩
    constructor
    · refine .direct (by simp; omega) ?_
      rw [size]
      exact held.push block
    · simp [grown, setSlot, size]
    · exact owned.perm (perm_block data [] [] block)
  · rw [if_neg few]
    exact growIndirect_spec sound.mapped (by omega) room size owned

/-- The loop appends as many blocks as it was asked for, or fewer if it fails. -/
theorem Sound.growLoop (blocks : Nat) (newBlock : Option Nat)
    (sound : Sound fs foreign st data singly doubly)
    (room : data.length + blocks < fs.doublyBlocks) :
    ∃ fresh tables tops, singly ⊆ tables ∧ doubly ⊆ tops ∧
      Sound fs foreign (growLoop fs blocks newBlock st).2.2 (data ++ fresh) tables tops ∧
      (growLoop fs blocks newBlock st).2.2.map.bpos = st.map.bpos ∧
      (growLoop fs blocks newBlock st).2.1 = newBlock.or fresh.head? ∧
      (fresh.length = blocks ∧ (growLoop fs blocks newBlock st).1 = .ok () ∨
        fresh.length < blocks ∧ (growLoop fs blocks newBlock st).1 = .error .enospc) := by
  induction blocks generalizing newBlock st data singly doubly with
  | zero =>
    refine ⟨[], singly, doubly, List.Subset.refl _, List.Subset.refl _, ?_, rfl,
      by simp [BlockMap.growLoop], .inl ⟨rfl, rfl⟩⟩
    rwa [append_nil]
  | succ blocks ih =>
    obtain ⟨pos, res⟩ := sound.growBlock (by omega)
    rw [BlockMap.growLoop]
    cases outcome : BlockMap.growBlock fs st with
    | mk code next =>
      rw [outcome] at pos res
      obtain ⟨rfl, kept⟩ | ⟨block, tables, tops, rfl, below, above, more⟩ := res
      · refine ⟨[], singly, doubly, List.Subset.refl _, List.Subset.refl _, ?_, pos, by simp,
          .inr ⟨by simp, rfl⟩⟩
        rwa [append_nil]
      · obtain ⟨fresh, tables, tops, lower, upper, final, later, first, code⟩ :=
          ih (some (newBlock.getD block)) more (by simp; omega)
        refine ⟨block :: fresh, tables, tops, List.Subset.trans below lower,
          List.Subset.trans above upper, ?_,
          later.trans pos, ?_, ?_⟩
        · rwa [List.append_assoc] at final
        · rw [first]
          cases newBlock <;> rfl
        · simpa using code

/-- The number of an allocated block is found as it was written. -/
theorem findIndirect_eq {table offset : Nat} (read : st.number table offset = block)
    (inside : block < fs.blocks) :
    findIndirect fs st table offset = block := by
  have numbered := fs.numbered
  have whole : (block + 1) % 2 ^ 32 = block + 1 := mod_eq_of_lt (by omega)
  simp only [findIndirect, read]
  rw [whole, if_neg (Nat.succ_ne_zero block), if_neg (by omega)]

/-- The search finds every data block. -/
theorem Sound.findBlock (sound : Sound fs foreign st data singly doubly) {bno : Nat}
    (present : data[bno]? = some block) : findBlock fs st bno = .ok block := by
  have size := sound.count
  have owned : ∀ block ∈ data ++ singly ++ doubly, block < fs.blocks :=
    fun block mem => (sound.owns.apart block mem).2.2
  have inside := owned block (by simp [List.mem_of_getElem? present])
  rw [BlockMap.findBlock, size]
  cases sound.mapped with
  | direct few held => rw [if_pos few, held bno block present]
  | singly tables more few stored held =>
    obtain ⟨table, named, read⟩ := stored.found bno block present
    rw [if_neg (by omega), if_pos few, held _ table named, findIndirect_eq read inside]
  | doubly tables tops more few stored named held =>
    have above := fs.slots_lt_singly
    obtain ⟨table, at_table, read⟩ := stored.found bno block present
    obtain ⟨top, at_top, found⟩ := named.found _ table at_table
    have table_inside := owned table (by simp [List.mem_of_getElem? at_table])
    rw [if_neg (by omega), if_neg (by omega), if_pos few, held _ top at_top,
      findIndirect_eq found table_inside]
    dsimp only
    rw [findIndirect_eq read inside]

/-- The kept position is that of a data block. -/
def Cached (map : Map) (data : List Nat) : Prop :=
  map.bpos.block ≠ 0 → data[map.bpos.bno]? = some map.bpos.block

/-- A search returns the block at an index, and fails beyond the last one. -/
theorem Sound.find (sound : Sound fs foreign st data singly doubly)
    (cached : Cached st.map data) (bno boff : Nat) :
    (blockMapFind fs st bno boff).1 = (match data[bno]? with
        | some block => .ok block
        | none => .error .enxio) ∧
      Sound fs foreign (blockMapFind fs st bno boff).2 data singly doubly ∧
      Cached (blockMapFind fs st bno boff).2.map data := by
  have size := sound.count
  cases present : data[bno]? with
  | none =>
    have beyond := List.getElem?_eq_none_iff.mp present
    rw [blockMapFind, if_pos (.inr (by omega))]
    exact ⟨rfl, sound, cached⟩
  | some block =>
    have inside := (List.getElem?_eq_some_iff.mp present).1
    rw [blockMapFind, if_neg (by omega)]
    have found : (if bno = st.map.bpos.bno ∧ st.map.bpos.block ≠ 0 then
        Except.ok st.map.bpos.block else BlockMap.findBlock fs st bno) = .ok block := by
      by_cases kept : bno = st.map.bpos.bno ∧ st.map.bpos.block ≠ 0
      · have same := cached kept.2
        rw [← kept.1, present] at same
        rw [if_pos kept, ← Option.some.inj same]
      · rw [if_neg kept, sound.findBlock present]
    rw [found]
    exact ⟨rfl, ⟨sound.mapped, size, sound.owns⟩, fun _ => present⟩

section Shrink

variable {fs : FileSystem} {foreign : Nat → Bool} {data singly doubly : List Nat}
  {st : State} {block : Nat}

/-- What is freed with the last block: the block is the one that is freed, and the map
without it owns the rest. -/
def Freed (fs : FileSystem) (foreign : Nat → Bool) (state : State) (data : List Nat)
    (block : Nat) (result : Option (Nat × State)) : Prop :=
  ∃ next slots singly doubly, result = some (block, next) ∧
    next.map = { state.map with blocks := slots } ∧
    Mapped fs slots next.number data singly doubly ∧
    Owns fs foreign next.allocated (block :: (data ++ singly ++ doubly))

theorem shrinkTable_direct (few : data.length < inodeBlocks)
    (held : Holds st.map.blocks (data ++ [block]))
    (owns : Owns fs foreign st.allocated ((data ++ [block]) ++ [] ++ [])) :
    Freed fs foreign st data block (shrinkTable fs st data.length) := by
  rw [shrinkTable, if_pos few, held.last]
  refine ⟨_, _, [], [], rfl, rfl, .direct (by omega) (held.pop 0),
    owns.perm (perm_block data [] [] block).symm⟩

theorem shrinkTable_singly (more : inodeBlocks ≤ data.length) (few : data.length < fs.singlyBlocks)
    (stored : Stored st.number fs.blocksPerBlock (data ++ [block]) singly)
    (held : Holds st.map.blocks singly)
    (owns : Owns fs foreign st.allocated ((data ++ [block]) ++ singly ++ [])) :
    Freed fs foreign st data block (shrinkTable fs st data.length) := by
  have fits := fs.slots_fit
  have split := div_add_mod data.length fs.blocksPerBlock
  obtain ⟨front, table, rfl, place, read⟩ := stored.last_item (by omega)
  rw [shrinkTable, if_neg (by omega), if_pos few, ← place, held.last]
  dsimp only
  rw [read]
  have rest : ((data ++ [block]) ++ (front ++ [table]) ++ []).Perm
      (table :: (block :: (data ++ front ++ []))) :=
    perm_last data front [] block table
  by_cases full : data.length = inodeBlocks
  · -- The five numbers that are left go back to the slots.
    have direct : data.length % fs.blocksPerBlock = inodeBlocks := by
      rw [full, mod_eq_of_lt fits]
    obtain rfl : front = [] := by
      rw [full, div_eq_of_lt fits] at place
      exact List.length_eq_zero_iff.mp place
    rw [indirectShrink, if_pos (.inr ⟨rfl, direct⟩), if_pos ⟨rfl, direct⟩, held.last]
    refine ⟨_, _, [], [], rfl, rfl, .direct (by omega) ?_, (owns.perm rest).release⟩
    intro index other present
    have inside := (List.getElem?_eq_some_iff.mp present).1
    dsimp only
    rw [if_pos (by omega)]
    exact stored.of_single (by simp; omega) (by rw [getElem?_append_left inside, present])
  · have later : ¬ (front.length = 0 ∧ data.length % fs.blocksPerBlock = inodeBlocks) := by
      rintro ⟨quotient, remainder⟩
      rw [← place, quotient, remainder] at split
      omega
    by_cases first : data.length % fs.blocksPerBlock = 0
    · rw [indirectShrink, if_pos (.inl first), if_neg later, held.last]
      exact ⟨_, _, front, [], rfl, rfl, .singly _ (by omega) (by omega)
        (stored.pop_page (by omega) first) (held.pop 0), (owns.perm rest).release⟩
    · rw [indirectShrink, if_neg (by rintro (zero | both); exacts [first zero, later both])]
      refine ⟨_, st.map.blocks, front ++ [table], [], rfl, rfl, .singly _ (by omega) (by omega)
        (stored.pop (by omega) first) held, owns.perm (perm_block data _ [] block).symm⟩

theorem shrinkTable_doubly (more : fs.singlyBlocks ≤ data.length)
    (few : data.length + 1 < fs.doublyBlocks)
    (stored : Stored st.number fs.blocksPerBlock (data ++ [block]) singly)
    (named : Stored st.number fs.blocksPerBlock singly doubly)
    (held : Holds st.map.blocks doubly)
    (owns : Owns fs foreign st.allocated ((data ++ [block]) ++ singly ++ doubly)) :
    Freed fs foreign st data block (shrinkTable fs st data.length) := by
  have fits := fs.slots_fit
  have split := div_add_mod data.length fs.blocksPerBlock
  have above := fs.slots_lt_singly
  obtain ⟨front, table, rfl, place, read⟩ := stored.last_item (by omega)
  obtain ⟨tops, top, rfl, top_place, found⟩ := named.last_item (by omega)
  rw [shrinkTable, if_neg (by omega), if_neg (by omega), if_pos (by omega), ← place, ← top_place]
  dsimp only
  rw [held.last, found, read]
  by_cases direct : data.length % fs.blocksPerBlock = 0
  · rw [if_pos direct]
    have kept := stored.pop_page (by omega) direct
    have split_top := div_add_mod front.length fs.blocksPerBlock
    rw [direct, Nat.add_zero, ← place] at split
    have both : ((data ++ [block]) ++ (front ++ [table]) ++ (tops ++ [top])).Perm
        (table :: (top :: (block :: (data ++ front ++ tops)))) :=
      (perm_top [] (data ++ [block]) (front ++ [table]) tops top).symm.trans
        (((perm_last data front tops block table).cons top).trans (.swap table top _))
    by_cases full : data.length = fs.singlyBlocks
    · -- The five tables that are left go back to the slots.
      have tables : front.length = inodeBlocks := by
        rw [full, FileSystem.singlyBlocks, Nat.mul_div_cancel_left _ (by omega)] at place
        exact place
      have remainder : front.length % fs.blocksPerBlock = inodeBlocks := by
        rw [tables, mod_eq_of_lt fits]
      obtain rfl : tops = [] := by
        rw [tables, div_eq_of_lt fits] at top_place
        exact List.length_eq_zero_iff.mp top_place
      rw [indirectShrink, if_pos (.inr ⟨rfl, remainder⟩), if_pos ⟨rfl, remainder⟩]
      dsimp only [bitmapFree]
      rw [held.last]
      refine ⟨_, _, front, [], rfl, rfl, .singly _ (by omega) (by omega) kept ?_,
        (owns.perm both).release.release⟩
      intro index other present
      have inside := (List.getElem?_eq_some_iff.mp present).1
      dsimp only
      rw [if_pos (by omega)]
      exact named.of_single (by simp; omega) (by rw [getElem?_append_left inside, present])
    · have later : ¬ (tops.length = 0 ∧ front.length % fs.blocksPerBlock = inodeBlocks) := by
        rintro ⟨quotient, remainder⟩
        rw [← top_place, quotient, remainder, Nat.mul_zero, Nat.zero_add] at split_top
        rw [← split_top] at split
        exact full split.symm
      by_cases first : front.length % fs.blocksPerBlock = 0
      · rw [indirectShrink, if_pos (.inl first), if_neg later]
        dsimp only [bitmapFree]
        rw [held.last]
        exact ⟨_, _, front, tops, rfl, rfl, .doubly _ _ (by omega) (by omega) kept
          (named.pop_page (by omega) first) (held.pop 0), (owns.perm both).release.release⟩
      · rw [indirectShrink, if_neg (by rintro (zero | both); exacts [first zero, later both])]
        exact ⟨_, st.map.blocks, front, tops ++ [top], rfl, rfl, .doubly _ _ (by omega)
          (by omega) kept (named.pop (by omega) first) held, (owns.perm (perm_last data front _ block table)).release⟩
  · rw [if_neg direct]
    have after : data.length ≠ fs.singlyBlocks := by
      intro equal
      rw [equal, FileSystem.singlyBlocks, Nat.mul_mod_right] at direct
      exact direct rfl
    refine ⟨_, st.map.blocks, front ++ [table], tops ++ [top], rfl, rfl,
      .doubly _ _ (by omega) (by omega) (stored.pop (by omega) direct) named held,
      owns.perm (perm_block data _ _ block).symm⟩

/-- The last block is freed at every level. -/
theorem shrinkTable_spec (mapped : Mapped fs st.map.blocks st.number (data ++ [block]) singly doubly)
    (owns : Owns fs foreign st.allocated ((data ++ [block]) ++ singly ++ doubly)) :
    Freed fs foreign st data block (shrinkTable fs st data.length) := by
  cases mapped with
  | direct few held =>
    rw [length_append, length_singleton] at few
    exact shrinkTable_direct (by omega) held owns
  | singly tables more few stored held =>
    simp only [length_append, length_singleton] at more few
    exact shrinkTable_singly (by omega) (by omega) stored held owns
  | doubly tables tops more few stored named held =>
    simp only [length_append, length_singleton] at more few
    exact shrinkTable_doubly (by omega) (by omega) stored named held owns

end Shrink

theorem Sound.shrinkBlock (sound : Sound fs foreign st (data ++ [block]) singly doubly) :
    ∃ next singly doubly, shrinkBlock fs st = some next ∧
      next.map.bpos = st.map.bpos ∧ Sound fs foreign next data singly doubly := by
  have size : st.map.count = data.length + 1 := by
    rw [sound.count, length_append, length_singleton]
  obtain ⟨next, slots, tables, tops, freed, same, mapped, owns⟩ :=
    shrinkTable_spec sound.mapped sound.owns
  rw [BlockMap.shrinkBlock, size, Nat.add_sub_cancel, freed]
  refine ⟨_, tables, tops, rfl, ?_, ?_, ?_, owns.release⟩
  · simp only [bitmapFree, same]
  · simp only [bitmapFree, same]
    exact mapped
  · simp only [bitmapFree, same, size, Nat.add_sub_cancel]

/-- The loop removes the last blocks. -/
theorem Sound.shrinkLoop (blocks : Nat) (sound : Sound fs foreign st data singly doubly)
    (enough : blocks ≤ data.length) :
    ∃ singly doubly, Sound fs foreign (shrinkLoop fs blocks st)
        (data.take (data.length - blocks)) singly doubly ∧
      (shrinkLoop fs blocks st).map.bpos = st.map.bpos := by
  induction blocks generalizing st data singly doubly with
  | zero =>
    rw [Nat.sub_zero, List.take_length]
    exact ⟨singly, doubly, sound, rfl⟩
  | succ blocks ih =>
    obtain rfl | ⟨front, block, rfl⟩ := List.eq_nil_or_concat' data
    · cases enough
    · obtain ⟨next, tables, tops, shrunk, pos, kept⟩ := sound.shrinkBlock
      rw [length_append, length_singleton] at enough ⊢
      obtain ⟨tables, tops, final, later⟩ := ih kept (by omega)
      rw [BlockMap.shrinkLoop, shrunk]
      refine ⟨tables, tops, ?_, later.trans pos⟩
      rwa [Nat.add_sub_add_right, List.take_append_of_le_length (by omega)]

/-- Shrinking removes the last blocks and keeps the position inside the map. -/
theorem Sound.shrink (sound : Sound fs foreign st data singly doubly)
    (cached : Cached st.map data) (blocks : Nat) :
    ∃ singly doubly, Sound fs foreign (blockMapShrink fs st blocks)
        (data.take (data.length - blocks)) singly doubly ∧
      Cached (blockMapShrink fs st blocks).map (data.take (data.length - blocks)) := by
  have size := sound.count
  rw [blockMapShrink]
  by_cases empty : st.map.count = 0
  · rw [if_pos empty]
    obtain rfl : data = [] := List.length_eq_zero_iff.mp (by omega)
    rw [List.take_nil]
    exact ⟨singly, doubly, sound, cached⟩
  · rw [if_neg empty, size]
    obtain ⟨tables, tops, kept, pos⟩ :=
      sound.shrinkLoop (min blocks data.length) (Nat.min_le_right _ _)
    have same : data.length - min blocks data.length = data.length - blocks := by omega
    rw [same] at kept
    dsimp only
    split
    · exact ⟨tables, tops, { kept with }, fun found => absurd rfl found⟩
    · next inside =>
      refine ⟨tables, tops, kept, ?_⟩
      intro found
      rw [pos] at found ⊢
      have old := cached found
      have below : st.map.bpos.bno < (data.take (data.length - blocks)).length := by
        rw [← kept.count, ← pos]
        unfold posPastEnd at inside
        omega
      rw [List.getElem?_take_of_lt (by rw [List.length_take] at below; omega), old]

/-- The map has as many blocks as the list, and these and the tables that they need are
what is allocated beside the blocks of others, each of them once. -/
def Represents (fs : FileSystem) (foreign : Nat → Bool) (state : State) (data : List Nat) : Prop :=
  state.map.count = data.length ∧ ∃ tables, tables.length = tableCount fs data.length ∧
    Owns fs foreign state.allocated (data ++ tables)

theorem Mapped.tableCount (mapped : Mapped fs slots num data singly doubly) :
    (singly ++ doubly).length = tableCount fs data.length := by
  have above := fs.slots_lt_singly
  rw [BlockMap.tableCount]
  cases mapped with
  | direct few held => rw [if_pos few]; rfl
  | singly tables more few stored held =>
    rw [if_neg (by omega), if_pos few, append_nil, stored.count]
  | doubly tables tops more few stored named held =>
    rw [if_neg (by omega), if_neg (by omega), length_append, named.count, stored.count]

section

variable {fs : FileSystem} {foreign : Nat → Bool} {st : State} {data singly doubly : List Nat}
  (sound : Sound fs foreign st data singly doubly)
include sound

theorem Sound.represents : Represents fs foreign st data := by
  refine ⟨sound.count, singly ++ doubly, sound.mapped.tableCount, ?_⟩
  rw [← List.append_assoc]
  exact sound.owns

theorem Sound.room : data.length < fs.doublyBlocks := by
  have fits := fs.slots_fit
  have above := fs.slots_lt_singly
  have wide : fs.singlyBlocks < fs.doublyBlocks := by
    refine Nat.mul_lt_mul_of_pos_right ?_ (by decide)
    exact (Nat.lt_mul_iff_one_lt_right (by omega)).mpr (by unfold inodeBlocks at fits; omega)
  cases sound.mapped with
  | direct few held => omega
  | singly tables more few stored held => omega
  | doubly tables tops more few stored named held => exact few

end

/-- Growing appends new blocks: as many as it was asked for, or fewer if it fails. -/
theorem Sound.grow (sound : Sound fs foreign st data singly doubly)
    (cached : Cached st.map data) (blocks : Nat) :
    ∃ fresh tables tops, Sound fs foreign (blockMapGrow fs st blocks).2.2 (data ++ fresh)
        tables tops ∧ Cached (blockMapGrow fs st blocks).2.2.map (data ++ fresh) ∧
      (blockMapGrow fs st blocks).2.1 = fresh.head? ∧
      (∀ block ∈ fresh, st.allocated block = false) ∧
      (fresh.length = blocks ∧ (blockMapGrow fs st blocks).1 = .ok () ∨
        fresh.length < blocks ∧ (blockMapGrow fs st blocks).1 ≠ .ok ()) := by
  have size := sound.count
  have inside := sound.room
  rw [blockMapGrow]
  by_cases big : fs.doublyBlocks ≤ st.map.count + blocks
  · rw [if_pos big]
    refine ⟨[], singly, doubly, ?_, ?_, rfl, by simp, .inr ⟨by simp; omega, by simp⟩⟩
    · rwa [append_nil]
    · rwa [append_nil]
  · rw [if_neg big]
    obtain ⟨fresh, tables, tops, lower, upper, final, pos, first, code⟩ :=
      sound.growLoop blocks none (by omega)
    refine ⟨fresh, tables, tops, final, ?_, by rw [first]; rfl, ?_, ?_⟩
    · intro found
      rw [pos] at found ⊢
      have old := cached found
      rw [getElem?_append_left (List.getElem?_eq_some_iff.mp old).1, old]
    · intro block mem
      have nodup := final.owns.nodup
      have unmarked := (final.owns.apart block (by simp [mem])).1
      rw [← Bool.not_eq_true, sound.owns.exact, unmarked]
      simp only [nodup_append, List.mem_append] at nodup ⊢
      rintro (marked | (old | low) | high)
      · cases marked
      · exact nodup.1.1.2.2 block old block mem rfl
      · exact nodup.1.2.2 block (.inr mem) block (lower low) rfl
      · exact nodup.2.2 block (.inl (.inr mem)) block (upper high) rfl
    · obtain ⟨all, success⟩ | ⟨some_missing, failure⟩ := code
      · exact .inl ⟨all, success⟩
      · exact .inr ⟨some_missing, by rw [failure]; simp⟩

/-- Blocks of the size of an inode, so that a table has fourteen numbers. -/
def small : FileSystem where
  blockSize := 56
  blocks := 100
  inode_fits := by decide
  numbered := by decide

/-- An empty map, with the first block allocated for others. -/
def start : State where
  map := ⟨0, 0, ⟨0, 0, 0⟩, fun _ => 0⟩
  allocated := fun block => decide (block = 1)
  number := fun _ _ => 0
  choices := []

end Rtems.Rfs.BlockMap
