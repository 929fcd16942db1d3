import Rtems.Library.Alignment
import Rtems.Library.ByteMemory
import Rtems.Library.LinkRing

/-!
# The heap control block and its memory

The heap manages blocks that carry their own headers. A block is named by its
address; its four words are read and written in the byte memory that the heap
shares with its users, so nothing but the addresses keeps headers and user data
apart. The free list is a ring through the `next` and `prev` words of the free
blocks, closed by the `free_list` member of the control block, which lies in the
same memory at an address of its own.

Addresses and sizes are `uintptr_t` values: sums and differences wrap modulo the
address space of the port. The statistics wrap at their own widths. The
configuration is the one without `HEAP_PROTECTION`, where a block has only its
two size words before the allocation area.
-/

namespace Rtems.Heap

open ByteMemory Alignment

/-- What the heap uses of a processor port: `sizeof( uintptr_t )` and
`CPU_ALIGNMENT`, which must be positive and even. Words have at most 64 bits. -/
structure Port where
  wordSize : Nat
  cpuAlignment : Nat
  wordSize_pos : 0 < wordSize
  cpuAlignment_pos : 0 < cpuAlignment
  cpuAlignment_even : 2 ∣ cpuAlignment
  cpuAlignment_lt : cpuAlignment < 256 ^ wordSize
  wordSize_le : wordSize ≤ 8

/-- The 64-bit PC port. -/
def Port.x86_64 : Port :=
  ⟨8, 16, by decide, by decide, by decide, by decide, by decide⟩

/-- The number of `uintptr_t` values. -/
def Port.modulus (port : Port) : Nat := 256 ^ port.wordSize

/-- `HEAP_BLOCK_HEADER_SIZE`. -/
def Port.headerSize (port : Port) : Nat := 2 * port.wordSize

/-- `HEAP_ALLOC_BONUS`: the word of the next block that a used block may use. -/
def Port.allocBonus (port : Port) : Nat := port.wordSize

/-- `sizeof( Heap_Block )`. -/
def Port.blockStructSize (port : Port) : Nat := 4 * port.wordSize

/-- `uintptr_t` addition. -/
def Port.add (port : Port) (left right : Nat) : Nat := wrapAdd port.modulus left right

/-- `uintptr_t` subtraction. -/
def Port.sub (port : Port) (left right : Nat) : Nat := wrapSub port.modulus left right

/-- `_Heap_Is_aligned`. -/
def isAligned (value alignment : Nat) : Bool := value % alignment == 0

/-- `_Heap_Align_down`. -/
def alignDown (value alignment : Nat) : Nat := down value alignment

/-- `_Heap_Align_up`. -/
def alignUp (port : Port) (value alignment : Nat) : Nat :=
  let remainder := value % alignment
  if remainder ≠ 0 then port.add (value - remainder) alignment else value

/-- `_Heap_Min_block_size`. -/
def minBlockSize (port : Port) (pageSize : Nat) : Nat :=
  alignUp port port.blockStructSize pageSize

/-- Increment of a `uint32_t` counter. -/
def increment (counter : Nat) : Nat := wrapAdd (2 ^ 32) counter 1

/-- Decrement of a `uint32_t` counter. -/
def decrement (counter : Nat) : Nat := wrapSub (2 ^ 32) counter 1

/-- `Heap_Statistics`: two 64-bit lifetime counters, three sizes of type
`uintptr_t` and nine 32-bit counters. -/
structure Statistics where
  lifetimeAllocated : Nat := 0
  lifetimeFreed : Nat := 0
  size : Nat := 0
  freeSize : Nat := 0
  minFreeSize : Nat := 0
  freeBlocks : Nat := 0
  maxFreeBlocks : Nat := 0
  usedBlocks : Nat := 0
  maxSearch : Nat := 0
  searches : Nat := 0
  allocs : Nat := 0
  failedAllocs : Nat := 0
  frees : Nat := 0
  resizes : Nat := 0
  deriving DecidableEq

/-- `Heap_Control` together with the memory it lies in. The member `free_list` is
kept in the memory; `freeList` is its address. -/
structure Control (port : Port) where
  memory : Memory
  freeList : Nat
  pageSize : Nat
  minBlockSize : Nat
  areaBegin : Nat
  areaEnd : Nat
  firstBlock : Nat
  lastBlock : Nat
  stats : Statistics

variable {port : Port}

namespace Control

/-- The word at an address. -/
def word (heap : Control port) (address : Nat) : Nat := load heap.memory address port.wordSize

/-- Write a word. -/
def setWord (heap : Control port) (address value : Nat) : Control port :=
  { heap with memory := store heap.memory address port.wordSize value }

/-- `block->prev_size`. -/
def prevSize (heap : Control port) (block : Nat) : Nat := heap.word block

/-- `block->size_and_flag`. -/
def sizeAndFlag (heap : Control port) (block : Nat) : Nat := heap.word (block + port.wordSize)

/-- `block->next`. -/
def next (heap : Control port) (block : Nat) : Nat := heap.word (block + 2 * port.wordSize)

/-- `block->prev`. -/
def prev (heap : Control port) (block : Nat) : Nat := heap.word (block + 3 * port.wordSize)

def setPrevSize (heap : Control port) (block value : Nat) : Control port :=
  heap.setWord block value

def setSizeAndFlag (heap : Control port) (block value : Nat) : Control port :=
  heap.setWord (block + port.wordSize) value

def setNext (heap : Control port) (block value : Nat) : Control port :=
  heap.setWord (block + 2 * port.wordSize) value

def setPrev (heap : Control port) (block value : Nat) : Control port :=
  heap.setWord (block + 3 * port.wordSize) value

/-- The heap with another memory and other statistics. No routine but the
initialization and the extension changes anything else of the control block. -/
def renew (heap : Control port) (memory : Memory) (stats : Statistics) : Control port :=
  { heap with memory := memory, stats := stats }

/-- Update of the statistics. -/
def countStats (heap : Control port) (update : Statistics → Statistics) : Control port :=
  { heap with stats := update heap.stats }

end Control

/-- `_Heap_Block_at`. -/
def blockAt (port : Port) (block offset : Nat) : Nat := port.add block offset

/-- `_Heap_Alloc_area_of_block`. -/
def allocAreaOfBlock (port : Port) (block : Nat) : Nat := port.add block port.headerSize

/-- `_Heap_Block_of_alloc_area`. -/
def blockOfAllocArea (port : Port) (allocBegin pageSize : Nat) : Nat :=
  port.sub (alignDown allocBegin pageSize) port.headerSize

/-- `HEAP_PREV_BLOCK_USED`. -/
def prevBlockUsed : Nat := 1

/-- The value with the flag bit cleared, as `value & ~HEAP_PREV_BLOCK_USED`. -/
def clearFlag (value : Nat) : Nat := value - (value &&& prevBlockUsed)

namespace Control

section

variable (heap : Control port)

/-- `_Heap_Block_size`. -/
def blockSize (block : Nat) : Nat := clearFlag (heap.sizeAndFlag block)

/-- `_Heap_Block_set_size`. -/
def blockSetSize (block size : Nat) : Control port :=
  let flag := heap.sizeAndFlag block &&& prevBlockUsed
  heap.setSizeAndFlag block (size ||| flag)

/-- `_Heap_Is_prev_used`. -/
def isPrevUsed (block : Nat) : Bool := heap.sizeAndFlag block &&& prevBlockUsed != 0

/-- `_Heap_Is_used`. -/
def isUsed (block : Nat) : Bool := heap.isPrevUsed (blockAt port block (heap.blockSize block))

/-- `_Heap_Is_free`. -/
def isFree (block : Nat) : Bool := !heap.isUsed block

/-- `_Heap_Is_block_in_heap`. -/
def isBlockInHeap (block : Nat) : Bool :=
  decide (heap.firstBlock ≤ block) && decide (block ≤ heap.lastBlock)

/-- `_Heap_Prev_block`. -/
def prevBlock (block : Nat) : Nat := port.sub block (heap.prevSize block)

/-- `_Heap_Set_last_block_size`. -/
def setLastBlockSize : Control port :=
  heap.blockSetSize heap.lastBlock (port.sub heap.firstBlock heap.lastBlock)

/-- `_Heap_Free_list_first`. -/
def freeListFirst : Nat := heap.next heap.freeList

/-- `_Heap_Free_list_remove`. -/
def freeListRemove (block : Nat) : Control port :=
  let next := heap.next block
  let prev := heap.prev block
  (heap.setNext prev next).setPrev next prev

/-- `_Heap_Free_list_replace`. -/
def freeListReplace (oldBlock newBlock : Nat) : Control port :=
  let next := heap.next oldBlock
  let prev := heap.prev oldBlock
  (((heap.setNext newBlock next).setPrev newBlock prev).setPrev next newBlock).setNext prev newBlock

/-- `_Heap_Free_list_insert_after`. -/
def freeListInsertAfter (blockBefore newBlock : Nat) : Control port :=
  let next := heap.next blockBefore
  (((heap.setNext newBlock next).setPrev newBlock blockBefore).setNext blockBefore newBlock).setPrev
    next newBlock

/-- `_Heap_Free_list_insert_before`. -/
def freeListInsertBefore (blockNext newBlock : Nat) : Control port :=
  let prev := heap.prev blockNext
  (((heap.setNext newBlock blockNext).setPrev newBlock prev).setNext prev newBlock).setPrev
    blockNext newBlock

end

end Control

/-! ## Statistics and memory do not interact -/

namespace Control

variable (heap : Control port) (update : Statistics → Statistics) (memory : Memory)
  (stats : Statistics)

theorem countStats_renew :
    (heap.renew memory stats).countStats update = heap.renew memory (update stats) := rfl

@[simp] theorem renew_renew (other : Memory) (others : Statistics) :
    (heap.renew memory stats).renew other others = heap.renew other others := rfl

@[simp] theorem countStats_isPrevUsed (block : Nat) :
    (heap.countStats update).isPrevUsed block = heap.isPrevUsed block := rfl

@[simp] theorem countStats_freeListInsertAfter (blockBefore newBlock : Nat) :
    (heap.countStats update).freeListInsertAfter blockBefore newBlock =
      (heap.freeListInsertAfter blockBefore newBlock).countStats update := rfl

@[simp] theorem countStats_blockSize (block : Nat) :
    (heap.countStats update).blockSize block = heap.blockSize block := rfl

@[simp] theorem countStats_setPrevSize (block value : Nat) :
    (heap.countStats update).setPrevSize block value =
      (heap.setPrevSize block value).countStats update := rfl

@[simp] theorem countStats_setSizeAndFlag (block value : Nat) :
    (heap.countStats update).setSizeAndFlag block value =
      (heap.setSizeAndFlag block value).countStats update := rfl

@[simp] theorem countStats_sizeAndFlag (block : Nat) :
    (heap.countStats update).sizeAndFlag block = heap.sizeAndFlag block := rfl

theorem renew_setPrevSize (block value : Nat) : (heap.renew memory stats).setPrevSize block value =
      heap.renew (store memory block port.wordSize value) stats := rfl

theorem renew_setSizeAndFlag (block value : Nat) :
    (heap.renew memory stats).setSizeAndFlag block value =
      heap.renew (store memory (block + port.wordSize) port.wordSize value) stats := rfl

@[simp] theorem renew_memory : (heap.renew memory stats).memory = memory := rfl

@[simp] theorem renew_stats : (heap.renew memory stats).stats = stats := rfl

@[simp] theorem renew_freeList : (heap.renew memory stats).freeList = heap.freeList := rfl

@[simp] theorem renew_firstBlock : (heap.renew memory stats).firstBlock = heap.firstBlock := rfl

@[simp] theorem renew_lastBlock : (heap.renew memory stats).lastBlock = heap.lastBlock := rfl

@[simp] theorem renew_pageSize : (heap.renew memory stats).pageSize = heap.pageSize := rfl

@[simp] theorem renew_minBlockSize :
    (heap.renew memory stats).minBlockSize = heap.minBlockSize := rfl

end Control

/-! ## Arithmetic of one port -/

section

variable (port : Port)

/-- A word has at least as many values as sixty-four of its own sizes. -/
theorem Port.space : 64 * port.wordSize ≤ port.modulus := by
  have bound : ∀ size, 64 * size ≤ 256 ^ size := by
    intro size
    induction size with
    | zero => simp
    | succ size ih =>
      have positive : 0 < 256 ^ size := Nat.pow_pos (by decide)
      omega
  exact bound port.wordSize

theorem Port.modulus_pos : 0 < port.modulus := Nat.pow_pos (by decide)

instance : NeZero port.modulus := ⟨port.modulus_pos.ne'⟩

theorem Port.modulus_even : 2 ∣ port.modulus := by
  have divides : 256 ∣ port.modulus := dvd_pow_self 256 (Nat.pos_iff_ne_zero.mp port.wordSize_pos)
  exact (by decide : 2 ∣ 256).trans divides

theorem Port.add_of_lt (left right : Nat) (bounded : left + right < port.modulus) :
    port.add left right = left + right := wrapAdd_of_lt _ _ _ bounded

theorem Port.sub_of_le (left right : Nat) (ordered : right ≤ left)
    (bounded : left < port.modulus) : port.sub left right = left - right :=
  wrapSub_of_le _ _ _ ordered bounded

/-- Rounding up, where the sum stays inside the address space. -/
theorem alignUp_spec (value align : Nat) (positive : 0 < align)
    (bounded : value + align ≤ port.modulus) :
    align ∣ alignUp port value align ∧ value ≤ alignUp port value align ∧
      alignUp port value align < value + align := by
  have small : value % align < align := Nat.mod_lt value positive
  have whole : value % align ≤ value := Nat.mod_le value align
  by_cases aligned : value % align = 0
  · have same : alignUp port value align = value := by simp [alignUp, aligned]
    rw [same]
    exact ⟨Nat.dvd_of_mod_eq_zero aligned, le_refl _, by omega⟩
  · have same : alignUp port value align = value - value % align + align := by
      simp only [alignUp, ne_eq, aligned]
      exact port.add_of_lt _ _ (by omega)
    rw [same]
    refine ⟨?_, by omega, by omega⟩
    exact Nat.dvd_add (Nat.dvd_sub_mod value) (Nat.dvd_refl align)

/-- Rounding up gives a `uintptr_t` value. -/
theorem alignUp_lt (value align : Nat) (bounded : value < port.modulus) :
    alignUp port value align < port.modulus := by
  simp only [alignUp]
  split
  · exact wrapAdd_lt _ _ _ port.modulus_pos
  · exact bounded

/-- Rounding up without a wrap gives a multiple. -/
theorem alignUp_dvd (value align : Nat) (bounded : value - value % align + align < port.modulus) :
    align ∣ alignUp port value align := by
  simp only [alignUp]
  split
  · rw [port.add_of_lt _ _ bounded]
    exact Nat.dvd_add (Nat.dvd_sub_mod value) (Nat.dvd_refl align)
  · rename_i aligned
    exact Nat.dvd_of_mod_eq_zero (not_not.mp aligned)

end

/-! ## The flag bit -/

section

variable (size : Nat) (even : 2 ∣ size) (flag : Bool)
include even

theorem flag_of_even : (size + flag.toNat) &&& prevBlockUsed = flag.toNat := by
  rw [prevBlockUsed, Nat.and_one_is_mod]
  cases flag <;> simp <;> omega

theorem or_flag : size ||| flag.toNat = size + flag.toNat := by
  cases flag with
  | false => simp
  | true =>
    obtain ⟨half, rfl⟩ := even
    exact (Nat.two_pow_add_eq_or_of_lt (i := 1) (b := 1) (by decide) half).symm

theorem clearFlag_of_even : clearFlag (size + flag.toNat) = size := by
  rw [clearFlag, flag_of_even size even flag]
  omega

theorem set_flag : (size + flag.toNat) ||| prevBlockUsed = size + 1 := by
  have base : (size + flag.toNat) ||| prevBlockUsed = (size ||| flag.toNat) ||| 1 := by
    rw [or_flag size even flag, prevBlockUsed]
  have flags : flag.toNat ||| 1 = true.toNat := by cases flag <;> rfl
  rw [base, Nat.or_assoc, flags, or_flag size even true, Bool.toNat_true]

end

end Rtems.Heap
