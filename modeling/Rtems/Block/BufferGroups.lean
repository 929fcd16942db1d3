import Mathlib.Algebra.Order.Ring.Nat
import Mathlib.Data.Nat.Log

/-!
# The buffer groups of the block device cache

The cache cuts its memory into buffers of the minimum size and these into groups of the maximum
size. A group is divided into descriptors with as many buffers each as a block needs, rounded up
to a power of two. The blocks of a disk may be of any size that leaves descriptors in a group.
-/

namespace Rtems.Block.BufferGroups

open Nat (clog mod_eq_of_lt mul_div_le succ_mul)

/-- The part of `rtems_bdbuf_config` on the memory. -/
structure Config where
  size : Nat
  bufferMin : Nat
  bufferMax : Nat
  range : bufferMax < 2 ^ 32

/-! The numbers that `rtems_bdbuf_do_init` puts into the cache. -/

def bufferMinCount (config : Config) : Nat := config.size / config.bufferMin
def maxBdsPerGroup (config : Config) : Nat := config.bufferMax / config.bufferMin
def groupCount (config : Config) : Nat := bufferMinCount config / maxBdsPerGroup config

/-- `rtems_bdbuf_group`, with the descriptors of the group that are on a list or in the tree. -/
structure Group where
  bdsPerGroup : Nat
  bdbuf : Nat
  used : List Nat

/-- The cache, with the group of each descriptor in the order of the LRU list. The buffer of a
descriptor begins at its index times the minimum size. -/
structure Cache where
  bds : List Nat
  groups : List Group

/-- The first loop of `rtems_bdbuf_do_init`: the groups of the descriptors from `b` on. -/
def initBds (maxBdsPerGroup : Nat) : (count b group : Nat) → List Nat
  | 0, _, _ => []
  | count + 1, b, group =>
    group :: initBds maxBdsPerGroup count (b + 1)
      (if b % maxBdsPerGroup = maxBdsPerGroup - 1 then group + 1 else group)

/-- `rtems_bdbuf_do_init` if there is memory. It has no result also if it divides by zero. -/
def doInit (config : Config) : Option Cache :=
  let maxBds := maxBdsPerGroup config
  if config.bufferMin = 0 ∨ config.bufferMax % config.bufferMin ≠ 0 ∨ maxBds = 0 then none
  else some
    { bds := initBds maxBds (bufferMinCount config) 0 0
      groups := (List.range (groupCount config)).map fun b =>
        ⟨maxBds, b * maxBds, List.range' (b * maxBds) maxBds⟩ }

/-- A loop that doubles one, from the `k`-th power on, while it is less than a number. -/
def doublings (number : Nat) : (rounds k : Nat) → Option Nat
  | 0, _ => none
  | rounds + 1, k => if 2 ^ k < number then doublings number rounds (k + 1) else some k

/-- `rtems_bdbuf_bds_per_group`. -/
def bdsPerGroup (config : Config) (size : Nat) : Option Nat :=
  if size > config.bufferMax then some 0
  else (doublings ((size - 1) / config.bufferMin + 1) 64 0).map (maxBdsPerGroup config / 2 ^ ·)

/-- The descriptors of a group that is divided into some. -/
def divided (config : Config) (bdbuf bdsPerGroup : Nat) : List Nat :=
  (List.range bdsPerGroup).map fun b => bdbuf + b * (maxBdsPerGroup config / bdsPerGroup)

/-- `rtems_bdbuf_group_realloc`. -/
def groupRealloc (config : Config) (group : Group) (newBdsPerGroup : Nat) : Group :=
  { group with
    bdsPerGroup := newBdsPerGroup
    used := (group.used.filter (· ∉ divided config group.bdbuf group.bdsPerGroup)) ++
      divided config group.bdbuf newBdsPerGroup }

/-- The groups that any reallocations lead to. -/
inductive Reached (config : Config) (cache : Cache) : Group → Prop where
  | fresh (group : Group) (listed : group ∈ cache.groups) : Reached config cache group
  | realloc (group : Group) (size bds : Nat) (positive : 0 < size) (fits : size ≤ config.bufferMax)
      (count : bdsPerGroup config size = some bds) (reached : Reached config cache group) :
      Reached config cache (groupRealloc config group bds)

/-- The descriptors of a group have the given size of memory each, inside the group and apart. -/
def Holds (config : Config) (group : Group) (size : Nat) : Prop :=
  (∀ bd ∈ group.used, group.bdbuf ≤ bd ∧
    bd * config.bufferMin + size ≤ (group.bdbuf + maxBdsPerGroup config) * config.bufferMin) ∧
  group.used.Pairwise fun bd other => bd * config.bufferMin + size ≤ other * config.bufferMin

/-- The descriptors lie in their groups, and the groups have memory for blocks of each size. -/
structure Provides (config : Config) (cache : Cache) : Prop where
  grouped : ∀ b group, cache.bds[b]? = some group → group < groupCount config ∧
    ∃ entry, cache.groups[group]? = some entry ∧ entry.bdbuf ≤ b ∧
      b < entry.bdbuf + maxBdsPerGroup config
  holds : ∀ size, 0 < size → size ≤ config.bufferMax →
    ∃ bds, bdsPerGroup config size = some bds ∧ 1 ≤ bds ∧
      ∀ group, Reached config cache group →
        (groupRealloc config group bds).used.length = bds ∧
        Holds config (groupRealloc config group bds) size

theorem initBds_eq {maxBdsPerGroup : Nat} (pos : 0 < maxBdsPerGroup) (count b : Nat) :
    initBds maxBdsPerGroup count b (b / maxBdsPerGroup) =
      (List.range' b count).map (· / maxBdsPerGroup) := by
  induction count generalizing b with
  | zero => rfl
  | succ count ih =>
    have last : b % maxBdsPerGroup = maxBdsPerGroup - 1 ↔ maxBdsPerGroup ∣ b + 1 := by
      have below := Nat.mod_lt b pos
      rw [Nat.dvd_iff_mod_eq_zero, ← Nat.mod_add_mod, ← Nat.dvd_iff_mod_eq_zero]
      refine ⟨fun same => ⟨1, by omega⟩, fun whole => ?_⟩
      have least := Nat.le_of_dvd (Nat.succ_pos _) whole
      omega
    rw [initBds, List.range'_succ, List.map_cons, ← ih, Nat.succ_div]
    simp only [last]
    split <;> rfl

theorem doublings_eq {number k : Nat} (start : k ≤ clog 2 number) (rounds : Nat) :
    doublings number rounds k =
      if clog 2 number < k + rounds then some (clog 2 number) else none := by
  induction rounds generalizing k with
  | zero => rw [doublings, if_neg (by omega)]
  | succ rounds ih =>
    have below := @Nat.lt_clog_iff_pow_lt 2 Nat.one_lt_two number k
    rw [doublings]
    split
    · rw [ih (below.mpr ‹_›), Nat.succ_add_eq_add_succ]
    · have same : clog 2 number = k := by omega
      rw [same, if_pos (by omega)]

section Groups

variable {cfg : Config}

theorem bdsPerGroup_eq {size : Nat} (fits : size ≤ cfg.bufferMax) : bdsPerGroup cfg size =
    some (maxBdsPerGroup cfg / 2 ^ clog 2 ((size - 1) / cfg.bufferMin + 1)) := by
  have range := cfg.range
  have few : clog 2 ((size - 1) / cfg.bufferMin + 1) ≤ 33 := by
    refine Nat.clog_le_of_le_pow ?_
    have quotient := Nat.div_le_self (size - 1) cfg.bufferMin
    omega
  rw [bdsPerGroup, if_neg fits.not_gt, doublings_eq (Nat.zero_le _), if_pos (by omega)]
  rfl

/-- The descriptors of a division are as long as the power of two that it was made for. -/
theorem divided_spec {power : Nat} (pos : 0 < power) (fits : power ≤ maxBdsPerGroup cfg)
    (bdbuf : Nat) :
    (∀ bd ∈ divided cfg bdbuf (maxBdsPerGroup cfg / power),
      bdbuf ≤ bd ∧ bd + power ≤ bdbuf + maxBdsPerGroup cfg) ∧
    (divided cfg bdbuf (maxBdsPerGroup cfg / power)).Pairwise fun bd other =>
      bd + power ≤ other := by
  rw [divided]
  generalize maxBdsPerGroup cfg = size at *
  have long : power ≤ size / (size / power) :=
    (Nat.le_div_iff_mul_le (Nat.div_pos fits pos)).mpr (mul_div_le size power)
  have whole := mul_div_le size (size / power)
  have step {b other : Nat} (before : b < other) :
      b * (size / (size / power)) + power ≤ other * (size / (size / power)) := by
    have next := Nat.mul_le_mul_right (size / (size / power)) before
    rw [succ_mul] at next
    omega
  refine ⟨fun bd member => ?_, List.pairwise_map.mpr (List.pairwise_lt_range.imp fun before => ?_)⟩
  · obtain ⟨b, inside, rfl⟩ := List.mem_map.mp member
    have last := step (List.mem_range.mp inside)
    omega
  · have next := step before
    omega

theorem doInit_eq {cache : Cache} (accepted : doInit cfg = some cache) :
    0 < cfg.bufferMin ∧ 0 < maxBdsPerGroup cfg ∧
    cfg.bufferMax = maxBdsPerGroup cfg * cfg.bufferMin ∧
    cache.bds = (List.range' 0 (bufferMinCount cfg)).map (· / maxBdsPerGroup cfg) ∧
    cache.groups = (List.range (groupCount cfg)).map fun b =>
      ⟨maxBdsPerGroup cfg, b * maxBdsPerGroup cfg,
        List.range' (b * maxBdsPerGroup cfg) (maxBdsPerGroup cfg)⟩ := by
  rw [doInit] at accepted
  split at accepted
  · cases accepted
  · rename_i valid
    obtain ⟨least, whole, some⟩ := not_or.mp valid |>.imp_right not_or.mp
    cases accepted
    have pos := Nat.pos_of_ne_zero some
    refine ⟨Nat.pos_of_ne_zero least, pos, ?_, ?_, rfl⟩
    · exact (Nat.div_mul_cancel (Nat.dvd_of_mod_eq_zero (not_not.mp whole))).symm
    · rw [← initBds_eq pos, Nat.zero_div]

variable {cache : Cache} (accepted : doInit cfg = some cache)
include accepted

/-- The descriptors of a reached group are those of its division. -/
theorem Reached.used_eq {group : Group} (reached : Reached cfg cache group) :
    group.used = divided cfg group.bdbuf group.bdsPerGroup := by
  obtain ⟨-, pos, -, -, groups⟩ := doInit_eq accepted
  induction reached with
  | fresh group listed =>
    rw [groups] at listed
    obtain ⟨b, -, rfl⟩ := List.mem_map.mp listed
    rw [divided, Nat.div_self pos, List.range'_eq_map_range]
    simp only [Nat.mul_one]
  | realloc group size bds _ _ _ _ ih => simp [groupRealloc, ih]

/-- The descriptor of an index, if the descriptors fill the groups. -/
theorem grouped_iff : (∀ b group, cache.bds[b]? = some group → group < groupCount cfg ∧
      ∃ entry, cache.groups[group]? = some entry ∧ entry.bdbuf ≤ b ∧
        b < entry.bdbuf + maxBdsPerGroup cfg) ↔
      bufferMinCount cfg % maxBdsPerGroup cfg = 0 := by
  obtain ⟨-, pos, -, bds, groups⟩ := doInit_eq accepted
  have entry (b : Nat) (inside : b < bufferMinCount cfg) :
      cache.bds[b]? = some (b / maxBdsPerGroup cfg) := by
    rw [bds, List.getElem?_map, List.getElem?_range' inside]
    simp
  constructor
  · intro grouped
    by_contra rest
    have split := Nat.div_add_mod' (bufferMinCount cfg) (maxBdsPerGroup cfg)
    have inside : groupCount cfg * maxBdsPerGroup cfg < bufferMinCount cfg := by
      rw [groupCount]
      omega
    have outside := (grouped _ _ (entry _ inside)).1
    rw [Nat.mul_div_cancel _ pos] at outside
    exact outside.false
  · intro filled b group found
    have inside : b < bufferMinCount cfg := by
      obtain ⟨bound, -⟩ := List.getElem?_eq_some_iff.mp found
      simpa [bds] using bound
    cases (entry b inside).symm.trans found
    have below : b / maxBdsPerGroup cfg < groupCount cfg :=
      Nat.div_lt_div_of_lt_of_dvd (Nat.dvd_of_mod_eq_zero filled) inside
    have listed := congrArg (·[b / maxBdsPerGroup cfg]?) groups
    rw [List.getElem?_map, List.getElem?_range below] at listed
    exact ⟨below, _, listed, Nat.div_mul_le_self b _, Nat.lt_div_mul_add pos⟩

end Groups

/-- The groups provide memory exactly if the descriptors fill them and the descriptors of a group
are a power of two. -/
theorem groups_provide_iff (config : Config) (cache : Cache)
    (accepted : doInit config = some cache) :
    Provides config cache ↔ bufferMinCount config % maxBdsPerGroup config = 0 ∧
      ∃ k, maxBdsPerGroup config = 2 ^ k := by
  obtain ⟨least, positive, most, -, -⟩ := doInit_eq accepted
  refine ⟨fun provides => ⟨(grouped_iff accepted).mp provides.grouped, ?_⟩, ?_⟩
  · have some : 0 < config.bufferMax := most ▸ Nat.mul_pos positive least
    obtain ⟨bds, same, enough, -⟩ := provides.holds config.bufferMax some le_rfl
    have last : (config.bufferMax - 1) / config.bufferMin = maxBdsPerGroup config - 1 := by
      have fewer := Nat.sub_one_mul (maxBdsPerGroup config) config.bufferMin
      exact Nat.div_eq_of_lt_le (by omega) (by rw [Nat.sub_add_cancel positive]; omega)
    rw [bdsPerGroup_eq le_rfl, last, Nat.sub_add_cancel positive] at same
    cases same
    exact ⟨_, le_antisymm (Nat.le_pow_clog Nat.one_lt_two _) (Nat.div_pos_iff.mp enough).2⟩
  · rintro ⟨filled, k, power⟩
    refine ⟨(grouped_iff accepted).mpr filled, fun size some fits => ?_⟩
    have below : (size - 1) / config.bufferMin < maxBdsPerGroup config :=
      Nat.div_lt_of_lt_mul (by rw [Nat.mul_comm]; omega)
    have limit : 2 ^ clog 2 ((size - 1) / config.bufferMin + 1) ≤ maxBdsPerGroup config := by
      rw [power] at below ⊢
      exact Nat.pow_le_pow_right Nat.two_pos (Nat.clog_le_of_le_pow below)
    have enough := Nat.lt_mul_div_succ (size - 1) least
    have bds := bdsPerGroup_eq fits
    have room := Nat.mul_le_mul_left config.bufferMin
      (Nat.le_pow_clog Nat.one_lt_two ((size - 1) / config.bufferMin + 1))
    refine ⟨_, bds, Nat.div_pos limit (Nat.two_pow_pos _), fun group reached => ?_⟩
    have used := (reached.realloc group size _ some fits bds).used_eq accepted
    obtain ⟨inside, apart⟩ := divided_spec (Nat.two_pow_pos _) limit group.bdbuf
    generalize 2 ^ clog 2 ((size - 1) / config.bufferMin + 1) = buffers at *
    have memory {bd last : Nat} (before : bd + buffers ≤ last) :
        bd * config.bufferMin + size ≤ last * config.bufferMin := by
      have bytes := Nat.mul_le_mul_right config.bufferMin before
      rw [Nat.add_mul, Nat.mul_comm buffers] at bytes
      omega
    rw [Holds, used]
    refine ⟨by simp [divided, groupRealloc], fun bd member => ?_, apart.imp memory⟩
    exact ⟨(inside bd member).1, memory (inside bd member).2⟩

/-- Four groups of two buffers. -/
def small : Config := ⟨64, 8, 16, by decide⟩

theorem groups_provide_small : ∃ cache, doInit small = some cache ∧ Provides small cache :=
  ⟨_, rfl, (groups_provide_iff small _ rfl).mpr ⟨by decide, 1, by decide⟩⟩

/-- With three buffers in a group there is no descriptor for a block of the maximum size. -/
theorem groups_without_descriptor :
    ¬ ∀ config cache, doInit config = some cache → Provides config cache := by
  intro claim
  have provides := claim ⟨48, 8, 24, by decide⟩ _ rfl
  obtain ⟨bds, same, enough, -⟩ := provides.holds 24 (by decide) (by decide)
  cases (show some 0 = some bds from same)
  exact absurd enough (by decide)

/-- `rtems_disk_device`; a logical disk lies in its physical one. -/
structure Disk where
  start : Nat
  size : Nat
  mediaBlockSize : Nat
  blockSize : Nat
  blockCount : Nat
  mediaBlocksPerBlock : Nat
  blockToMediaBlockShift : Int
  bdsPerGroup : Nat
  inside : start + size < 2 ^ 32
  positive : 0 < mediaBlockSize

inductive StatusCode where
  | successful
  | invalidNumber
deriving DecidableEq

/-- `rtems_bdbuf_set_block_size`, as called by `RTEMS_BLKIO_SETBLKSIZE`. It has no result if it
shifts by the width of a word or divides by zero. -/
def setBlockSize (config : Config) (dd : Disk) (blockSize : Nat) :
    Option (StatusCode × Disk) :=
  if blockSize = 0 then some (.invalidNumber, dd)
  else
    (bdsPerGroup config blockSize).bind fun bdsPerGroup =>
      if bdsPerGroup = 0 then some (.invalidNumber, dd)
      else
        let mediaBlocksPerBlock := blockSize / dd.mediaBlockSize
        (doublings mediaBlocksPerBlock 32 0).bind fun shift =>
          if mediaBlocksPerBlock = 0 then none
          else some (.successful, { dd with
            blockSize, mediaBlocksPerBlock, bdsPerGroup
            blockCount := dd.size / mediaBlocksPerBlock
            blockToMediaBlockShift :=
              if dd.mediaBlockSize * 2 ^ shift % 2 ^ 32 ≠ blockSize then -1 else shift })

/-- `rtems_bdbuf_media_block`. -/
def mediaBlock (dd : Disk) (block : Nat) : Nat :=
  if dd.blockToMediaBlockShift ≥ 0 then block * 2 ^ dd.blockToMediaBlockShift.toNat % 2 ^ 32
  else block * dd.blockSize / dd.mediaBlockSize % 2 ^ 32

/-- `rtems_bdbuf_get_media_block`. -/
def getMediaBlock (dd : Disk) (block : Nat) : Option Nat :=
  if block < dd.blockCount then some ((mediaBlock dd block + dd.start) % 2 ^ 32) else none

/-- The bytes of the blocks are inside the disk and apart. -/
def Layout (dd : Disk) : Prop :=
  (∀ block media, getMediaBlock dd block = some media →
    dd.start * dd.mediaBlockSize ≤ media * dd.mediaBlockSize ∧
    media * dd.mediaBlockSize + dd.blockSize ≤ (dd.start + dd.size) * dd.mediaBlockSize) ∧
  ∀ block other media next, block < other → getMediaBlock dd block = some media →
    getMediaBlock dd other = some next →
    media * dd.mediaBlockSize + dd.blockSize ≤ next * dd.mediaBlockSize ∨
      next * dd.mediaBlockSize + dd.blockSize ≤ media * dd.mediaBlockSize

/-- The block size is set or rejected, and the blocks of a set one are laid out well. -/
def Sets (config : Config) (dd : Disk) (blockSize : Nat) : Prop :=
  ∃ status dd', setBlockSize config dd blockSize = some (status, dd') ∧
    (status = .successful → Layout dd')

section Layouts

variable {dd : Disk}

/-- The shift and the division give the same media block. -/
theorem mediaBlock_eq {shift : Nat} (least : 2 ^ shift < 2 * (dd.blockSize / dd.mediaBlockSize))
    (range : dd.blockSize < 2 ^ 32) (same : dd.blockToMediaBlockShift =
      if dd.mediaBlockSize * 2 ^ shift % 2 ^ 32 ≠ dd.blockSize then -1 else (shift : Int))
    (block : Nat) :
    mediaBlock dd block = block * dd.blockSize / dd.mediaBlockSize % 2 ^ 32 := by
  by_cases exactly : dd.mediaBlockSize * 2 ^ shift % 2 ^ 32 = dd.blockSize
  · have whole : dd.mediaBlockSize * 2 ^ shift = dd.blockSize := by
      have twice := Nat.mul_lt_mul_of_pos_left least dd.positive
      have part := mul_div_le dd.blockSize dd.mediaBlockSize
      rw [Nat.mul_left_comm] at twice
      omega
    rw [if_neg (not_not.mpr exactly)] at same
    rw [mediaBlock, same, if_pos (Int.natCast_nonneg shift), Int.toNat_natCast, ← whole,
      Nat.mul_left_comm, Nat.mul_div_cancel_left _ dd.positive]
  · rw [if_pos exactly] at same
    rw [mediaBlock, same, if_neg (by decide)]

/-- The blocks are laid out well exactly if a block is whole media blocks, or the disk has no
block, or the only one has a media block more than the ratio. -/
theorem layout_iff {ratio : Nat} (quotient : dd.blockSize / dd.mediaBlockSize = ratio)
    (pos : 0 < ratio) (count : dd.blockCount = dd.size / ratio)
    (place : ∀ block, mediaBlock dd block = block * dd.blockSize / dd.mediaBlockSize % 2 ^ 32) :
    Layout dd ↔ dd.mediaBlockSize ∣ dd.blockSize ∨ dd.size < ratio ∨
      ratio < dd.size ∧ dd.size < 2 * ratio := by
  have inside := dd.inside
  have least := Nat.div_mul_le_self dd.blockSize dd.mediaBlockSize
  have most := Nat.lt_mul_div_succ dd.blockSize dd.positive
  rw [quotient] at least most
  have whole (fits : dd.blockSize ≤ ratio * dd.mediaBlockSize) :
      dd.mediaBlockSize ∣ dd.blockSize := ⟨ratio, by rw [Nat.mul_comm]; omega⟩
  have first (some : 0 < dd.size / ratio) : getMediaBlock dd 0 = .some dd.start := by
    rw [getMediaBlock, count, if_pos some, place, Nat.zero_mul, Nat.zero_div, Nat.zero_mod,
      Nat.zero_add, mod_eq_of_lt (by omega)]
  constructor
  · rintro ⟨within, apart⟩
    by_contra bad
    obtain ⟨part, enough, other⟩ := not_or.mp bad |>.imp_right not_or.mp
    have many : 0 < dd.size / ratio := Nat.div_pos (not_lt.mp enough) pos
    by_cases same : dd.size = ratio
    · have last := (within 0 _ (first many)).2
      rw [same, Nat.add_mul] at last
      exact part (whole (by omega))
    · have two : 1 < dd.size / ratio := (Nat.le_div_iff_mul_le pos).mpr (by omega)
      have second : getMediaBlock dd 1 = some (ratio + dd.start) := by
        rw [getMediaBlock, count, if_pos two, place, Nat.one_mul, quotient,
          mod_eq_of_lt (by omega : ratio < 2 ^ 32), mod_eq_of_lt (by omega)]
      have next := apart 0 1 _ _ Nat.one_pos (first many) second
      rw [Nat.add_mul] at next
      refine part (whole ?_)
      omega
  · rintro (⟨factor, whole⟩ | few | ⟨more, fewer⟩)
    · rw [whole, Nat.mul_div_cancel_left _ dd.positive] at quotient
      have media {block found : Nat} (known : getMediaBlock dd block = some found) :
          found = block * ratio + dd.start ∧ (block + 1) * ratio ≤ dd.size := by
        rw [getMediaBlock, count, place, whole, Nat.mul_left_comm,
          Nat.mul_div_cancel_left _ dd.positive, quotient] at known
        split at known
        · rename_i below
          cases known
          have bound := (Nat.le_div_iff_mul_le pos).mp below
          rw [succ_mul] at bound
          rw [mod_eq_of_lt (by omega : block * ratio < 2 ^ 32), mod_eq_of_lt (by omega)]
          exact ⟨rfl, (succ_mul _ _).trans_le bound⟩
        · cases known
      have bytes {low high : Nat} (before : low + ratio ≤ high) :
          low * dd.mediaBlockSize + dd.blockSize ≤ high * dd.mediaBlockSize := by
        have scaled := Nat.mul_le_mul_right dd.mediaBlockSize before
        rwa [Nat.add_mul, ← quotient, Nat.mul_comm factor, ← whole] at scaled
      refine ⟨fun block found known => ?_, fun block other found next before known there => ?_⟩
      · obtain ⟨rfl, bound⟩ := media known
        rw [succ_mul] at bound
        exact ⟨Nat.mul_le_mul_right _ (by omega), bytes (by omega)⟩
      · have step := Nat.mul_le_mul_right ratio before
        rw [succ_mul] at step
        rw [(media known).1, (media there).1]
        exact .inl (bytes (by omega))
    · have none (block : Nat) : getMediaBlock dd block = none := by
        rw [getMediaBlock, count, Nat.div_eq_of_lt few, if_neg (Nat.not_lt_zero _)]
      exact ⟨fun block _ known => by simp [none] at known,
        fun block _ _ _ _ known => by simp [none] at known⟩
    · have one : dd.size / ratio = 1 := Nat.div_eq_of_lt_le (by omega) fewer
      have media {block found : Nat} (known : getMediaBlock dd block = some found) : block = 0 := by
        rw [getMediaBlock, count, one] at known
        split at known
        · omega
        · cases known
      refine ⟨fun block found known => ?_, fun block other _ _ before known there => ?_⟩
      · obtain rfl := media known
        cases (first (by omega)).symm.trans known
        have room := Nat.mul_le_mul_right dd.mediaBlockSize more
        rw [succ_mul] at room
        rw [Nat.mul_add, Nat.mul_comm] at most
        rw [Nat.add_mul]
        omega
      · have same := media there
        omega

end Layouts

/-- A block size is set well exactly if it is rejected, or is at least a media block with at most
`2 ^ 31` of them, and the blocks are whole media blocks, or there is none, or one with room. -/
theorem set_block_size_iff (config : Config) (dd : Disk) (blockSize : Nat)
    (range : blockSize < 2 ^ 32) :
    Sets config dd blockSize ↔
      blockSize = 0 ∨ bdsPerGroup config blockSize = some 0 ∨
      dd.mediaBlockSize ≤ blockSize ∧ blockSize / dd.mediaBlockSize ≤ 2 ^ 31 ∧
        (dd.mediaBlockSize ∣ blockSize ∨ dd.size < blockSize / dd.mediaBlockSize ∨
          blockSize / dd.mediaBlockSize < dd.size ∧
            dd.size < 2 * (blockSize / dd.mediaBlockSize)) := by
  rcases Nat.eq_zero_or_pos blockSize with rfl | some
  · exact iff_of_true ⟨_, _, if_pos rfl, StatusCode.noConfusion⟩ (.inl rfl)
  obtain ⟨bds, count⟩ : ∃ bds, bdsPerGroup config blockSize = .some bds := by
    by_cases fits : blockSize ≤ config.bufferMax
    · exact ⟨_, bdsPerGroup_eq fits⟩
    · exact ⟨0, if_pos (not_le.mp fits)⟩
  rw [Sets, setBlockSize, if_neg some.ne', count, Option.bind_some]
  rcases Nat.eq_zero_or_pos bds with rfl | positive
  · exact iff_of_true ⟨_, _, if_pos rfl, StatusCode.noConfusion⟩ (.inr (.inl rfl))
  rw [if_neg positive.ne']
  dsimp only
  rw [doublings_eq (Nat.zero_le _), Nat.zero_add]
  have rejected : ¬ (blockSize = 0 ∨ Option.some bds = .some 0) := by
    rintro (rfl | same)
    · omega
    · cases same
      omega
  rw [← or_assoc, or_iff_right rejected]
  have media := dd.positive
  have whole : 0 < blockSize / dd.mediaBlockSize ↔ dd.mediaBlockSize ≤ blockSize :=
    Nat.div_pos_iff.trans (and_iff_right media)
  have short := @Nat.clog_le_iff_le_pow 2 Nat.one_lt_two (blockSize / dd.mediaBlockSize) 31
  rw [← whole, ← short, ← Nat.lt_succ_iff]
  by_cases empty : blockSize / dd.mediaBlockSize = 0
  · simp [empty]
  by_cases fits : clog 2 (blockSize / dd.mediaBlockSize) < 32
  · have least : 2 ^ clog 2 (blockSize / dd.mediaBlockSize) <
        2 * (blockSize / dd.mediaBlockSize) := by
      cases log : clog 2 (blockSize / dd.mediaBlockSize) with
      | zero => omega
      | succ below =>
        have half := (Nat.lt_clog_iff_pow_lt Nat.one_lt_two).mp
          (by omega : below < clog 2 (blockSize / dd.mediaBlockSize))
        omega
    simp only [fits, if_true, Option.bind_some, empty, if_false, Option.some.injEq, Prod.mk.injEq,
      Nat.pos_of_ne_zero empty, true_and]
    refine Iff.trans ⟨?_, fun layout => ⟨_, _, ⟨rfl, rfl⟩, fun _ => layout⟩⟩
      (layout_iff rfl (Nat.pos_of_ne_zero empty) rfl (mediaBlock_eq least range rfl))
    rintro ⟨_, _, ⟨rfl, rfl⟩, layout⟩
    exact layout rfl
  · simp [fits]

/-- A disk of a hundred large media blocks. -/
def largeBlocks : Disk := ⟨0, 100, 4096, 4096, 100, 1, 0, 1, by decide, by decide⟩

theorem set_block_size_double : Sets ⟨2 ^ 16, 512, 2 ^ 13, by decide⟩ largeBlocks (2 ^ 13) :=
  (set_block_size_iff _ largeBlocks (2 ^ 13) (by decide)).mpr (.inr (.inr (by decide)))

/-- A block size less than the media block size leads to a division by zero. -/
theorem set_block_size_divides_by_zero :
    ¬ ∀ config dd blockSize, blockSize < 2 ^ 32 →
      Sets config dd blockSize := by
  intro claim
  obtain ⟨_, _, done, -⟩ := claim ⟨2 ^ 16, 512, 2 ^ 13, by decide⟩ largeBlocks 512 (by decide)
  cases (show none = some _ from done)

end Rtems.Block.BufferGroups
