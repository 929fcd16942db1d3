import Mathlib.Algebra.Order.Ring.Nat
import Mathlib.Data.List.Range

/-!
# Format and the addresses of inodes

The format divides a disk into groups of blocks behind the superblock. A group begins with
the bitmap of its blocks, the bitmap of its inodes and the blocks of its inode table. All
groups have the same size, except that the last one ends with the disk. The number of an
inode determines its group, the block of the inode table and the offset in this block.

The sizes are those of a target with a 32-bit `size_t`, so that all arithmetic of the
source is modulo `2 ^ 32`. A division by zero stops the format. A request of a block
succeeds if the block is on the disk.
-/

namespace Rtems.Rfs.Format

open Nat (div_add_mod mod_eq_of_lt mod_le mod_lt mul_succ)
open Option (bind_eq_bind bind_eq_some_iff isSome_iff_exists)

/-- The size of the address space of `size_t` and `uint32_t`. -/
def word : Nat := 2 ^ 32

/-- The number of media blocks and their size. -/
structure Media where
  blocks : Nat
  blockSize : Nat

/-- `rtems_rfs_format_config`. -/
structure Config where
  blockSize : Nat
  groupBlocks : Nat
  groupInodes : Nat
  inodeOverhead : Int
  maxNameLength : Nat
  initialiseInodes : Bool

/-- The part of `rtems_rfs_file_system` that describes the disk. -/
structure FileSystem where
  blocks : Nat
  blockSize : Nat
  groupCount : Nat
  groupBlocks : Nat
  groupInodes : Nat
  inodesPerBlock : Nat
  maxNameLength : Nat
deriving DecidableEq, Repr

/-- `RTEMS_RFS_INODE_SIZE`. -/
def inodeSize : Nat := 56

/-- `RTEMS_RFS_INODE_OVERHEAD_PERCENTAGE`. -/
def inodeOverheadPercentage : Int := 1

/-- `RTEMS_RFS_ROOT_INO`. -/
def rootIno : Nat := 1

/-- `RTEMS_RFS_EMPTY_INO`. -/
def emptyIno : Nat := 0

/-- `RTEMS_RFS_GROUP_BLOCK_BITMAP_BLOCK`. -/
def groupBlockBitmapBlock : Nat := 0

/-- `RTEMS_RFS_GROUP_INODE_BITMAP_BLOCK`. -/
def groupInodeBitmapBlock : Nat := 1

/-- `RTEMS_RFS_GROUP_INODE_BLOCK`. -/
def groupInodeBlock : Nat := 2

/-- `rtems_rfs_bitmap_numof_bits`. -/
def numofBits (bytes : Nat) : Nat := 8 * bytes % word

/-- `rtems_rfs_rup_quotient`. -/
def rupQuotient (dividend divisor : Nat) : Option Nat :=
  if dividend = 0 then some 1
  else if divisor = 0 then none
  else some ((dividend - 1) / divisor + 1)

/-- `rtems_rfs_fs_media_size`. -/
def Media.size (media : Media) : Nat := media.blocks * media.blockSize

/-- The loop for the highest bit in `rtems_rfs_check_config`. -/
def highestBit (gigs : Nat) : Nat → Nat
  | 0 => 0
  | b + 1 => if gigs.testBit (b + 1) then b + 1 else highestBit gigs b

/-- The block size if the configuration has none. -/
def defaultBlockSize (totalSize : Nat) : Nat :=
  let gigs := (totalSize + 1024 * 1024) / (1024 * 1024) % word
  let blockSize := if 1024 * 1024 ≤ totalSize then 2 ^ highestBit gigs 31 else 0
  if blockSize < 512 then 512 else if 4 * 1024 < blockSize then 4 * 1024 else blockSize

/-- `rtems_rfs_inodes_from_percent`. -/
def inodesFromPercent (blocks blockSize groupCount : Nat) (percentage : Int) : Option Nat := do
  let share := (blocks + word - 1) * (percentage % word).toNat % word / 100
  let perGroup ← rupQuotient share groupCount
  return perGroup * (blockSize / inodeSize) % word

/-- The number of inodes in a group before it is rounded up to full blocks. -/
def Config.inodes (config : Config) (blocks blockSize groupCount : Nat) : Option Nat :=
  if config.groupInodes = 0 then
    inodesFromPercent blocks blockSize groupCount
      (if config.inodeOverhead = 0 then inodeOverheadPercentage else config.inodeOverhead)
  else some config.groupInodes

/-- `rtems_rfs_check_config`. -/
def checkConfig (media : Media) (config : Config) : Option FileSystem := do
  let blockSize := if config.blockSize = 0 then defaultBlockSize media.size else config.blockSize
  if blockSize % media.blockSize ≠ 0 then none
  let groupBlocks := if config.groupBlocks = 0 then numofBits blockSize else config.groupBlocks
  if numofBits blockSize < groupBlocks then none
  let blocks := media.size / blockSize % word
  let groupCount ← rupQuotient blocks (numofBits blockSize)
  let inodes ← config.inodes blocks blockSize groupCount
  let inodesPerBlock := blockSize / inodeSize
  let tables ← rupQuotient inodes inodesPerBlock
  let groupInodes := tables * inodesPerBlock % word
  return {
    blocks
    blockSize
    groupCount
    groupBlocks
    groupInodes := if numofBits blockSize < groupInodes then numofBits blockSize else groupInodes
    inodesPerBlock
    maxNameLength := if config.maxNameLength = 0 then 512 else config.maxNameLength }

namespace FileSystem

/-- `rtems_rfs_fs_block` of the first block of a group. -/
def groupBase (fs : FileSystem) (group : Nat) : Nat := (fs.groupBlocks * group + 1) % word

/-- The size of a group in `rtems_rfs_write_group`. -/
def groupSize (fs : FileSystem) (group : Nat) : Nat :=
  if fs.blocks < (fs.groupBase group + fs.groupBlocks) % word then fs.blocks - fs.groupBase group
  else fs.groupBlocks

/-- The number of blocks of the inode table of a group. -/
def tableBlocks (fs : FileSystem) : Nat :=
  if fs.groupInodes = 0 then 1 else (fs.groupInodes - 1) / fs.inodesPerBlock + 1

/-- A request of a block. -/
def request (fs : FileSystem) (block : Nat) : Bool := block % word < fs.blocks

/-- `rtems_rfs_write_group`. -/
def writeGroup (fs : FileSystem) (initialiseInodes : Bool) (group : Nat) : Bool :=
  let base := fs.groupBase group
  base ≤ fs.blocks &&
    fs.request (base + groupBlockBitmapBlock) &&
    fs.request (base + groupInodeBitmapBlock) &&
    (!initialiseInodes ||
      (List.range fs.tableBlocks).all fun b => fs.request (base + b + groupInodeBlock))

end FileSystem

/-- `rtems_rfs_format` up to the writing of the groups. -/
def format (media : Media) (config : Config) : Option FileSystem := do
  if media.blockSize = 0 then none
  let fs ← checkConfig media config
  if (List.range fs.groupCount).all (fs.writeGroup config.initialiseInodes) then some fs else none

/-- `rtems_rfs_group` without its bitmaps. -/
structure Group where
  base : Nat
  size : Nat
  inodes : Nat
deriving DecidableEq, Repr

/-- An opened file system. -/
structure Mounted where
  fs : FileSystem
  inodes : Nat
  groups : List Group
deriving DecidableEq, Repr

/-- `rtems_rfs_group_open`. -/
def groupOpen (fs : FileSystem) (base : Nat) : Option Group :=
  if fs.blocks ≤ base then none
  else
    let size :=
      if fs.blocks ≤ (base + fs.groupBlocks) % word then fs.blocks - base else fs.groupBlocks
    some { base, size, inodes := if size < fs.groupInodes then size else fs.groupInodes }

/-- The loop of `rtems_rfs_fs_read_superblock` over the groups. -/
def openGroups (fs : FileSystem) : Nat → Option (List Group)
  | 0 => some []
  | group + 1 => do
      let groups ← openGroups fs group
      let last ← groupOpen fs (fs.groupBase group)
      return groups ++ [last]

/-- `rtems_rfs_fs_read_superblock` of a superblock that the format wrote. -/
def readSuperblock (media : Media) (fs : FileSystem) : Option Mounted := do
  if media.size < fs.blocks * fs.blockSize then none
  if numofBits fs.blockSize < fs.groupBlocks then none
  let groups ← openGroups fs fs.groupCount
  return { fs, inodes := fs.groupCount * fs.groupInodes % word, groups }

/-- The position of an inode in `rtems_rfs_inode_handle`. The block is unknown if the group
is not one of the groups. -/
structure InodeHandle where
  ino : Nat
  group : Nat
  block : Option Nat
  offset : Nat
deriving DecidableEq, Repr

/-- `rtems_rfs_inode_open`. -/
def inodeOpen (mounted : Mounted) (ino : Nat) : Option InodeHandle :=
  if ino = emptyIno then none
  else if mounted.inodes < ino - rootIno then none
  else
    let gino := (ino - rootIno) % mounted.fs.groupInodes
    let group := (ino - rootIno) / mounted.fs.groupInodes
    let index := gino / mounted.fs.inodesPerBlock + groupInodeBlock
    some {
      ino
      group
      block := mounted.groups[group]?.map fun group => (group.base + index) % word
      offset := gino % mounted.fs.inodesPerBlock }

/-- What the configuration check ensures. -/
structure FileSystem.Accepted (fs : FileSystem) (media : Media) : Prop where
  size : fs.blocks * fs.blockSize ≤ media.size
  count : 0 < fs.groupCount
  small : fs.blocks < word
  positive : 0 < fs.blocks → 0 < fs.groupBlocks
  last : 0 < fs.blocks → fs.groupBlocks * (fs.groupCount - 1) + 1 ≤ fs.blocks
  table : fs.groupInodes ≠ 0 → 0 < fs.inodesPerBlock
  limit : fs.groupBlocks ≤ numofBits fs.blockSize

section

variable {dividend divisor quotient : Nat} (result : rupQuotient dividend divisor = some quotient)
include result

theorem rupQuotient_pos : 0 < quotient := by
  unfold rupQuotient at result
  split at result
  · cases result
    exact Nat.one_pos
  · split at result
    · cases result
    · cases result
      exact Nat.succ_pos _

/-- A rounded up quotient is not too large. -/
theorem rupQuotient_mul (pos : 0 < dividend) :
    0 < divisor ∧ divisor * (quotient - 1) + 1 ≤ dividend := by
  unfold rupQuotient at result
  rw [if_neg (by omega)] at result
  split at result
  · cases result
  case isFalse nonzero =>
    cases result
    have part := Nat.mul_div_le (dividend - 1) divisor
    rw [Nat.add_sub_cancel]
    omega

end

variable {cfg : Config}

variable {media : Media} {fs : FileSystem}

theorem checkConfig_accepted (checked : checkConfig media cfg = some fs) : fs.Accepted media := by
  unfold checkConfig at checked
  simp only [bind_eq_bind] at checked
  generalize (if cfg.blockSize = 0 then defaultBlockSize media.size else cfg.blockSize) =
    blockSize at checked
  generalize groupBlocksEq : (if cfg.groupBlocks = 0 then numofBits blockSize
    else cfg.groupBlocks) = groupBlocks at checked
  split at checked
  · cases checked
  · split at checked
    · cases checked
    case isFalse within =>
      obtain ⟨groupCount, counted, rest⟩ := bind_eq_some_iff.mp checked
      obtain ⟨inodes, -, rest⟩ := bind_eq_some_iff.mp rest
      obtain ⟨tables, -, rest⟩ := bind_eq_some_iff.mp rest
      cases rest
      have quotient := rupQuotient_mul counted
      constructor
      · calc
          media.size / blockSize % word * blockSize ≤ media.size / blockSize * blockSize :=
            Nat.mul_le_mul_right _ (mod_le _ _)
          _ ≤ media.size := Nat.div_mul_le_self _ _
      · exact rupQuotient_pos counted
      · exact mod_lt _ (by decide)
      · intro some
        have bits := (quotient some).1
        simp only
        split at groupBlocksEq <;> omega
      · intro some
        have product := (quotient some).2
        have less := Nat.mul_le_mul_right (groupCount - 1) (Nat.le_of_not_lt within)
        simp only at product less ⊢
        omega
      · intro nonzero
        by_contra none
        have empty : blockSize / inodeSize = 0 := Nat.eq_zero_of_not_pos none
        simp [empty] at nonzero
      · exact Nat.le_of_not_lt within

/-- The groups lie behind each other, and only the last one may be cut by the end of the
disk. -/
structure FileSystem.Written (fs : FileSystem) (media : Media) : Prop extends fs.Accepted media where
  base : ∀ group < fs.groupCount, fs.groupBase group = fs.groupBlocks * group + 1
  inside : ∀ group < fs.groupCount, fs.groupBase group + 1 < fs.blocks

theorem format_written (formatted : format media cfg = some fs) : fs.Written media := by
  unfold format at formatted
  split at formatted
  · cases formatted
  obtain ⟨checked, accept, rest⟩ := bind_eq_some_iff.mp formatted
  split at rest
  case isFalse => cases rest
  case isTrue written =>
    obtain rfl := Option.some.inj rest
    have accepted := checkConfig_accepted accept
    have small := accepted.small
    rw [List.all_eq_true] at written
    have requested : ∀ group < checked.groupCount, checked.groupBase group ≤ checked.blocks ∧
          (checked.groupBase group) % word < checked.blocks ∧
          (checked.groupBase group + 1) % word < checked.blocks := by
      intro group below
      have wrote := written group (List.mem_range.mpr below)
      simp only [FileSystem.writeGroup, groupBlockBitmapBlock, groupInodeBitmapBlock,
        Bool.and_eq_true, decide_eq_true_eq] at wrote
      exact ⟨wrote.1.1.1, of_decide_eq_true wrote.1.1.2, of_decide_eq_true wrote.1.2⟩
    have some : 0 < checked.blocks := by
      have first := (requested 0 accepted.count).2.1
      omega
    have last := accepted.last some
    refine { accepted with base := ?_, inside := ?_ }
    · intro group below
      have product := Nat.mul_le_mul_left checked.groupBlocks (Nat.le_sub_one_of_lt below)
      exact mod_eq_of_lt (by omega)
    · intro group below
      obtain ⟨low, first, second⟩ := requested group below
      have base : checked.groupBase group < word := mod_lt _ (by decide)
      rw [mod_eq_of_lt base] at first
      rwa [mod_eq_of_lt (by omega)] at second

theorem openGroups_spec (fs : FileSystem) (count : Nat) (groups : List Group)
    (opened : openGroups fs count = some groups) :
    groups.length = count ∧ ∀ group < count,
      ∃ value, groups[group]? = some value ∧ value.base = fs.groupBase group := by
  induction count generalizing groups with
  | zero =>
    cases opened
    exact ⟨rfl, fun group below => absurd below (Nat.not_lt_zero group)⟩
  | succ count ih =>
    obtain ⟨before, first, rest⟩ := bind_eq_some_iff.mp opened
    obtain ⟨last, own, rest⟩ := bind_eq_some_iff.mp rest
    cases rest
    obtain ⟨length, bases⟩ := ih before first
    have base : last.base = fs.groupBase count := by
      unfold groupOpen at own
      split at own
      · cases own
      · cases own
        rfl
    refine ⟨by simp [length], ?_⟩
    intro group below
    by_cases new : group = count
    · subst new
      exact ⟨last, by simp [← length], base⟩
    · obtain ⟨value, found, base⟩ := bases group (by omega)
      refine ⟨value, ?_, base⟩
      rw [List.getElem?_append_left (by omega)]
      exact found

/-- An opened file system has the groups that were written. -/
theorem readSuperblock_spec {mounted : Mounted} (opened : readSuperblock media fs = some mounted) :
    mounted.fs = fs ∧ mounted.inodes = fs.groupCount * fs.groupInodes % word ∧
      mounted.groups.length = fs.groupCount ∧ ∀ group < fs.groupCount,
        ∃ value, mounted.groups[group]? = some value ∧ value.base = fs.groupBase group := by
  unfold readSuperblock at opened
  simp only [bind_eq_bind] at opened
  split at opened
  · cases opened
  · split at opened
    · cases opened
    · obtain ⟨groups, found, rest⟩ := bind_eq_some_iff.mp opened
      cases rest
      obtain ⟨length, bases⟩ := openGroups_spec fs _ _ found
      exact ⟨rfl, rfl, length, bases⟩

/-- A group begins inside of the disk, so that it can be opened. -/
theorem FileSystem.Written.openGroups (written : fs.Written media) (count : Nat)
    (below : count ≤ fs.groupCount) : (openGroups fs count).isSome := by
  induction count with
  | zero => rfl
  | succ count ih =>
    obtain ⟨groups, opened⟩ := isSome_iff_exists.mp (ih (by omega))
    have inside := written.inside count (by omega)
    simp [Format.openGroups, opened, groupOpen, show ¬fs.blocks ≤ fs.groupBase count by omega]

/-- A formatted disk can be opened. -/
theorem readSuperblock_isSome (formatted : format media cfg = some fs) :
    (readSuperblock media fs).isSome := by
  have written := format_written formatted
  obtain ⟨groups, opened⟩ := isSome_iff_exists.mp (written.openGroups fs.groupCount (Nat.le_refl _))
  simp [readSuperblock, Nat.not_lt.mpr written.size, Nat.not_lt.mpr written.limit, opened]

/-- The handle of an inode is a slot in the blocks of the inode table of a group. -/
def Mounted.Designates (mounted : Mounted) (handle : InodeHandle) : Prop :=
  ∃ group block, mounted.groups[handle.group]? = some group ∧ handle.block = some block ∧
    group.base + groupInodeBlock ≤ block ∧
    block < group.base + groupInodeBlock + mounted.fs.tableBlocks ∧
    handle.offset < mounted.fs.inodesPerBlock

/-- What is expected of an inode number: it designates a slot if it is accepted, and it is
rejected if it is not one of the inodes. -/
structure Mounted.Expected (mounted : Mounted) (ino : Nat) : Prop where
  designates : ∀ handle, inodeOpen mounted ino = some handle → mounted.Designates handle
  rejected : ¬(rootIno ≤ ino ∧ ino ≤ mounted.inodes) → inodeOpen mounted ino = none

/-- What is expected of a formatted disk and two inode numbers. -/
structure Consistent (mounted : Mounted) (first second : Nat) : Prop where
  inside : ∀ group < mounted.fs.groupCount,
    mounted.fs.groupBase group + mounted.fs.groupSize group ≤ mounted.fs.blocks
  disjoint : ∀ group other, group < other → other < mounted.fs.groupCount →
    mounted.fs.groupBase group + mounted.fs.groupSize group ≤ mounted.fs.groupBase other
  room : ∀ group < mounted.fs.groupCount,
    groupInodeBlock + mounted.fs.tableBlocks ≤ mounted.fs.groupSize group
  expected : mounted.Expected first ∧ mounted.Expected second
  distinct : first ≠ second → ∀ handle other, inodeOpen mounted first = some handle →
    inodeOpen mounted second = some other → (handle.block, handle.offset) ≠ (other.block, other.offset)

/-- The bitmaps and the inode table fit into a group and into the rest of the disk that is
left for the last group, whose end is a block number. -/
structure FileSystem.Fits (fs : FileSystem) : Prop where
  group : groupInodeBlock + fs.tableBlocks ≤ fs.groupBlocks
  rest : fs.groupBlocks * (fs.groupCount - 1) + 1 + groupInodeBlock + fs.tableBlocks ≤ fs.blocks
  number : fs.groupBlocks * fs.groupCount + 1 < word

namespace FileSystem.Written

variable {fs : FileSystem} {media : Media}

variable {group : Nat}

section

variable (written : fs.Written media)
include written

/-- The end of a group that is not the last one. -/
theorem next (below : group + 1 < fs.groupCount) :
    fs.groupBase group + fs.groupBlocks = fs.groupBase (group + 1) := by
  rw [written.base group (by omega), written.base (group + 1) below, mul_succ]
  omega

/-- Only the last group is cut. -/
theorem groupSize_eq (below : group + 1 < fs.groupCount) : fs.groupSize group = fs.groupBlocks := by
  have inside := written.inside (group + 1) below
  have small := written.small
  unfold groupSize
  rw [written.next below, mod_eq_of_lt (by omega), if_neg (by omega)]

/-- The last group lies inside exactly if its end is a block number. -/
theorem last_inside :
    fs.groupBase (fs.groupCount - 1) + fs.groupSize (fs.groupCount - 1) ≤ fs.blocks ↔
      fs.groupBlocks * fs.groupCount + 1 < word := by
  have count := written.count
  have base := written.base (fs.groupCount - 1) (by omega)
  have inside := written.inside (fs.groupCount - 1) (by omega)
  have small := written.small
  have product : fs.groupBlocks * fs.groupCount =
      fs.groupBlocks * (fs.groupCount - 1) + fs.groupBlocks := by
    rw [← mul_succ]
    congr
    omega
  have limit : fs.groupBlocks < word := by
    have bits := written.limit
    unfold numofBits at bits
    have := mod_lt (8 * fs.blockSize) (show 0 < word by decide)
    omega
  unfold groupSize
  by_cases num : fs.groupBlocks * fs.groupCount + 1 < word
  · rw [mod_eq_of_lt (by omega)]
    split <;> simp only [num, iff_true] <;> omega
  · rw [Nat.mod_eq_sub_mod (by omega), mod_eq_of_lt (by omega), if_neg (by omega)]
    omega

theorem groupSize_last (num : fs.groupBlocks * fs.groupCount + 1 < word) :
    fs.groupSize (fs.groupCount - 1) =
      min fs.groupBlocks (fs.blocks - (fs.groupBlocks * (fs.groupCount - 1) + 1)) := by
  have count := written.count
  have base := written.base (fs.groupCount - 1) (by omega)
  have product : fs.groupBlocks * fs.groupCount =
      fs.groupBlocks * (fs.groupCount - 1) + fs.groupBlocks := by
    rw [← mul_succ]
    congr
    omega
  unfold groupSize
  rw [base, mod_eq_of_lt (by omega)]
  split <;> omega

/-- All groups lie behind each other. -/
theorem disjoint {other : Nat} (before : group < other) (below : other < fs.groupCount) :
    fs.groupBase group + fs.groupSize group ≤ fs.groupBase other := by
  have product := Nat.mul_le_mul_left fs.groupBlocks before
  rw [written.groupSize_eq (by omega), written.base group (by omega), written.base other below]
  rw [mul_succ] at product
  omega

/-- All groups have room exactly if the bitmaps and the inode table fit. -/
theorem room_iff (num : fs.groupBlocks * fs.groupCount + 1 < word) :
    (∀ group < fs.groupCount, groupInodeBlock + fs.tableBlocks ≤ fs.groupSize group) ↔ fs.Fits := by
  have count := written.count
  have last := written.groupSize_last num
  have inside := written.inside (fs.groupCount - 1) (by omega)
  have base := written.base (fs.groupCount - 1) (by omega)
  constructor
  · intro room
    have own := room (fs.groupCount - 1) (by omega)
    exact ⟨by omega, by omega, num⟩
  · intro fits group below
    have room := fits.group
    have rest := fits.rest
    by_cases final : group + 1 < fs.groupCount
    · rw [written.groupSize_eq final]
      exact room
    · obtain rfl : group = fs.groupCount - 1 := by omega
      omega


end

end FileSystem.Written

section Inodes

variable {media : Media} {fs : FileSystem} {mounted : Mounted}

/-- The number behind the last inode is accepted. -/
theorem inodeOpen_isSome_iff (ino : Nat) :
    (inodeOpen mounted ino).isSome ↔ ino ≠ emptyIno ∧ ino ≤ mounted.inodes + 1 := by
  unfold inodeOpen rootIno emptyIno
  by_cases empty : ino = 0
  · simp [empty]
  · rw [if_neg empty]
    by_cases large : mounted.inodes < ino - 1
    · rw [if_pos large]
      simp only [Option.isSome_none, Bool.false_eq_true, false_iff]
      omega
    · rw [if_neg large]
      simp only [Option.isSome_some, true_iff]
      omega

section

variable (written : fs.Written media) (fits : fs.Fits)
  (opened : readSuperblock media fs = some mounted)
include written fits opened

theorem inodeOpen_spec {ino : Nat} (low : rootIno ≤ ino) (high : ino ≤ mounted.inodes)
    {handle : InodeHandle} (accepted : inodeOpen mounted ino = some handle) :
    handle.group = (ino - 1) / fs.groupInodes ∧ handle.group < fs.groupCount ∧
      handle.block = some (fs.groupBlocks * handle.group + 1 +
        ((ino - 1) % fs.groupInodes / fs.inodesPerBlock + groupInodeBlock)) ∧
      handle.offset = (ino - 1) % fs.groupInodes % fs.inodesPerBlock ∧
      (ino - 1) % fs.groupInodes / fs.inodesPerBlock < fs.tableBlocks ∧ 0 < fs.inodesPerBlock := by
  obtain ⟨same, inodes, -, groups⟩ := readSuperblock_spec opened
  unfold rootIno at low
  have some : 0 < fs.groupCount * fs.groupInodes := by
    have := mod_le (fs.groupCount * fs.groupInodes) word
    omega
  have pos : 0 < fs.groupInodes := Nat.pos_of_mul_pos_left some
  have perBlock : 0 < fs.inodesPerBlock := written.table (by omega)
  have group : (ino - 1) / fs.groupInodes < fs.groupCount := by
    rw [Nat.div_lt_iff_lt_mul pos]
    have := mod_le (fs.groupCount * fs.groupInodes) word
    omega
  have table : (ino - 1) % fs.groupInodes / fs.inodesPerBlock < fs.tableBlocks := by
    unfold FileSystem.tableBlocks
    rw [if_neg (by omega), Nat.lt_succ_iff]
    apply Nat.div_le_div_right
    have := mod_lt (ino - 1) pos
    omega
  obtain ⟨value, found, base⟩ := groups _ group
  unfold inodeOpen rootIno emptyIno at accepted
  rw [if_neg (by omega), if_neg (by omega)] at accepted
  cases accepted
  simp only [same]
  refine ⟨trivial, group, ?_, trivial, table, perBlock⟩
  have rest := fits.rest
  have small := written.small
  have product := Nat.mul_le_mul_left fs.groupBlocks (Nat.le_sub_one_of_lt group)
  rw [found, Option.map_some, base, written.base _ group, mod_eq_of_lt (by omega)]

theorem expected_of_fits {ino : Nat} (other : ino ≠ mounted.inodes + 1) : mounted.Expected ino := by
  constructor
  · intro handle accepted
    have range := (inodeOpen_isSome_iff ino).mp (by rw [accepted]; rfl)
    obtain ⟨-, group, block, offset, table, perBlock⟩ := inodeOpen_spec written fits opened
      (Nat.pos_of_ne_zero range.1) (by omega) accepted
    obtain ⟨same, -, -, groups⟩ := readSuperblock_spec opened
    obtain ⟨value, found, base⟩ := groups _ group
    generalize (ino - 1) % fs.groupInodes / fs.inodesPerBlock = index at block table
    refine ⟨value, _, found, block, ?_, ?_, ?_⟩
    · rw [base, written.base _ group]
      omega
    · rw [base, written.base _ group, same]
      omega
    · rw [offset, same]
      exact mod_lt _ perBlock
  · intro outside
    by_contra accepted
    have range := (inodeOpen_isSome_iff ino).mp (Option.isSome_iff_ne_none.mpr accepted)
    unfold emptyIno at range
    unfold rootIno at outside
    omega

/-- The slot determines the inode number. -/
theorem slot_injective {first second : Nat}
    (firstLow : rootIno ≤ first) (firstHigh : first ≤ mounted.inodes)
    (secondLow : rootIno ≤ second) (secondHigh : second ≤ mounted.inodes)
    {handle other : InodeHandle} (accepted : inodeOpen mounted first = some handle)
    (otherAccepted : inodeOpen mounted second = some other) (block : handle.block = other.block)
    (offset : handle.offset = other.offset) : first = second := by
  obtain ⟨group, -, place, rest, table, -⟩ :=
    inodeOpen_spec written fits opened firstLow firstHigh accepted
  obtain ⟨otherGroup, -, otherPlace, otherRest, otherTable, -⟩ :=
    inodeOpen_spec written fits opened secondLow secondHigh otherAccepted
  have room := fits.group
  have blocks := Option.some.inj (place.symm.trans (block.trans otherPlace))
  have pos : 0 < fs.groupBlocks := by
    unfold groupInodeBlock at room
    omega
  have sameGroup : handle.group = other.group := by
    generalize (first - 1) % fs.groupInodes / fs.inodesPerBlock = index at blocks table
    generalize (second - 1) % fs.groupInodes / fs.inodesPerBlock = otherIndex at blocks otherTable
    have left := Nat.mul_add_div pos handle.group (index + groupInodeBlock)
    have right := Nat.mul_add_div pos other.group (otherIndex + groupInodeBlock)
    have inside : index + groupInodeBlock < fs.groupBlocks := by omega
    have otherInside : otherIndex + groupInodeBlock < fs.groupBlocks := by omega
    have equal : fs.groupBlocks * handle.group + (index + groupInodeBlock) =
        fs.groupBlocks * other.group + (otherIndex + groupInodeBlock) := by omega
    rw [Nat.div_eq_of_lt inside, equal] at left
    rw [Nat.div_eq_of_lt otherInside] at right
    omega
  rw [sameGroup] at blocks
  have sameBlock : (first - 1) % fs.groupInodes / fs.inodesPerBlock =
      (second - 1) % fs.groupInodes / fs.inodesPerBlock := by
    omega
  have sameOffset : (first - 1) % fs.groupInodes % fs.inodesPerBlock =
      (second - 1) % fs.groupInodes % fs.inodesPerBlock := rest ▸ otherRest ▸ offset
  have sameIno : (first - 1) % fs.groupInodes = (second - 1) % fs.groupInodes := by
    rw [← div_add_mod ((first - 1) % fs.groupInodes) fs.inodesPerBlock, sameBlock, sameOffset,
      div_add_mod]
  have equal : first - 1 = second - 1 := by
    rw [← div_add_mod (first - 1) fs.groupInodes, sameIno, ← group, sameGroup, otherGroup,
      div_add_mod]
  unfold rootIno at firstLow secondLow
  omega

end

end Inodes

/-- For every formatted disk, which can be opened, and every two inode numbers: the groups are
disjoint parts of the disk with room for the bitmaps and the inode table, and the inode
numbers designate slots as expected, exactly if the bitmaps and the inode table fit and no
number is the one behind the last inode. -/
theorem format_consistent_iff (media : Media) (config : Config) (fs : FileSystem)
    (formatted : format media config = some fs) :
    ∃ mounted, readSuperblock media fs = some mounted ∧ ∀ first second,
      (Consistent mounted first second ↔
        fs.Fits ∧ first ≠ mounted.inodes + 1 ∧ second ≠ mounted.inodes + 1) := by
  have written := format_written formatted
  obtain ⟨mounted, opened⟩ := isSome_iff_exists.mp (readSuperblock_isSome formatted)
  obtain ⟨same, -⟩ := readSuperblock_spec opened
  refine ⟨mounted, opened, ?_⟩
  intro first second
  constructor
  · intro consistent
    have count := written.count
    have behind : ∀ ino, mounted.Expected ino → ino ≠ mounted.inodes + 1 := by
      rintro ino expected rfl
      have accepted := (inodeOpen_isSome_iff (mounted.inodes + 1)).mpr
        ⟨Nat.succ_ne_zero _, Nat.le_refl _⟩
      rw [expected.rejected (by omega)] at accepted
      cases accepted
    have inside := consistent.inside (fs.groupCount - 1) (by rw [same]; omega)
    have room := consistent.room
    rw [same] at inside room
    exact ⟨(written.room_iff (written.last_inside.mp inside)).mp room,
      behind first consistent.expected.1, behind second consistent.expected.2⟩
  · rintro ⟨fits, notFirst, notSecond⟩
    have number := fits.number
    constructor
    · rw [same]
      intro group below
      by_cases final : group + 1 < fs.groupCount
      · have behind := written.disjoint (show group < group + 1 by omega) final
        have inside := written.inside _ final
        omega
      · obtain rfl : group = fs.groupCount - 1 := by omega
        exact written.last_inside.mpr number
    · rw [same]
      intro group other before below
      exact written.disjoint before below
    · rw [same]
      exact (written.room_iff number).mpr fits
    · exact ⟨expected_of_fits written fits opened notFirst,
        expected_of_fits written fits opened notSecond⟩
    · intro apart handle other accepted otherAccepted slots
      obtain ⟨block, offset⟩ := Prod.mk.inj slots
      have firstRange := (inodeOpen_isSome_iff first).mp (by rw [accepted]; rfl)
      have secondRange := (inodeOpen_isSome_iff second).mp (by rw [otherAccepted]; rfl)
      exact apart (slot_injective written fits opened (Nat.pos_of_ne_zero firstRange.1) (by omega)
        (Nat.pos_of_ne_zero secondRange.1) (by omega) accepted otherAccepted block offset)

/-- A disk of 4396 blocks with the default configuration: the last group has room for its
inode table, and the numbers 198 and 199 of two inodes in different groups are slots. -/
theorem format_consistent_two_groups :
    ∃ fs mounted, format ⟨4396, 512⟩ ⟨0, 0, 0, 0, 0, false⟩ = some fs ∧
      readSuperblock ⟨4396, 512⟩ fs = some mounted ∧ mounted.inodes = 396 ∧
      Consistent mounted 198 199 := by
  have formatted : format ⟨4396, 512⟩ ⟨0, 0, 0, 0, 0, false⟩ =
      some ⟨4396, 512, 2, 4096, 198, 9, 512⟩ := by decide +kernel
  obtain ⟨mounted, opened, consistent⟩ := format_consistent_iff _ _ _ formatted
  have inodes : mounted.inodes = 396 := (readSuperblock_spec opened).2.1
  refine ⟨_, mounted, formatted, opened, inodes, (consistent 198 199).mpr ⟨?_, ?_, ?_⟩⟩
  · constructor <;> decide
  · rw [inodes]
    decide
  · rw [inodes]
    decide

/-- A disk of 4099 blocks with the default configuration: the last group ends in front of its
inode table, and the number behind the last inode is accepted and has no group. -/
theorem format_without_room :
    ∃ fs mounted, format ⟨4099, 512⟩ ⟨0, 0, 0, 0, 0, false⟩ = some fs ∧
      readSuperblock ⟨4099, 512⟩ fs = some mounted ∧
      fs.groupCount = 2 ∧ fs.groupSize 1 < groupInodeBlock + fs.tableBlocks ∧
      mounted.inodes = 360 ∧ mounted.groups.length = 2 ∧
      ∃ handle, inodeOpen mounted 361 = some handle ∧ handle.group = 2 :=
  ⟨⟨4099, 512, 2, 4096, 180, 9, 512⟩,
    ⟨⟨4099, 512, 2, 4096, 180, 9, 512⟩, 360, [⟨1, 4096, 180⟩, ⟨4097, 2, 2⟩]⟩,
    by decide +kernel, by decide +kernel, by decide, by decide, by decide, by decide,
    ⟨361, 2, none, 0⟩, by decide, by decide⟩

end Rtems.Rfs.Format
