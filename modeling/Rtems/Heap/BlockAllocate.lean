import Rtems.Heap.Geometry

/-!
# Cutting an allocation out of a free block

`_Heap_Block_allocate` works in phases on the block list. It takes the free block
off the free list (`Represents.detach`), gives the part below the allocation back
as a free block if there is one (`Represents.cut_begin`), and splits the rest into
a used block and a free remainder if that is large enough (`Represents.split`).
Between the phases the block is pending: it is on no list and the flag of its
successor is still the old one.
-/

namespace Rtems.Heap

open ByteMemory LinkRing Alignment
open Function (update_of_ne update_self)

variable {port : Port} {link : Nat → Nat}

namespace Control

/-- The end of `_Heap_Block_split`, common to both ways of placing the free block. -/
def closeSplit (heap : Control port) (freeBlock freeBlockSize nextBlock : Nat) : Control port :=
  let heap := heap.setSizeAndFlag freeBlock (freeBlockSize ||| prevBlockUsed)
  let heap := heap.setPrevSize nextBlock freeBlockSize
  heap.setSizeAndFlag nextBlock (clearFlag (heap.sizeAndFlag nextBlock))

/-- `_Heap_Block_split`. -/
def blockSplit (heap : Control port) (block nextBlock freeListAnchor allocSize : Nat) :
    Control port :=
  let minAllocSize := port.sub heap.minBlockSize port.headerSize
  let blockSize := heap.blockSize block
  let usedSize := port.add (max allocSize minAllocSize) port.headerSize
  let usedBlockSize := alignUp port usedSize heap.pageSize
  let freeSize := port.sub (port.add blockSize port.allocBonus) usedSize
  let freeSizeLimit := port.add heap.minBlockSize port.allocBonus
  if freeSizeLimit ≤ freeSize then
    let freeBlock := blockAt port block usedBlockSize
    let freeBlockSize := port.sub blockSize usedBlockSize
    let nextBlockSize := heap.blockSize nextBlock
    let nextNextBlock := blockAt port nextBlock nextBlockSize
    let heap := heap.blockSetSize block usedBlockSize
    let heap := heap.countStats fun stats =>
      { stats with freeSize := port.add stats.freeSize freeBlockSize }
    if heap.isPrevUsed nextNextBlock then
      let heap := heap.freeListInsertAfter freeListAnchor freeBlock
      let heap := heap.countStats fun stats =>
        { stats with freeBlocks := increment stats.freeBlocks }
      heap.closeSplit freeBlock freeBlockSize nextBlock
    else
      let heap := heap.freeListReplace nextBlock freeBlock
      let freeBlockSize := port.add freeBlockSize nextBlockSize
      heap.closeSplit freeBlock freeBlockSize (blockAt port freeBlock freeBlockSize)
  else
    heap.setSizeAndFlag nextBlock (heap.sizeAndFlag nextBlock ||| prevBlockUsed)

/-- `_Heap_Block_allocate_from_begin`. -/
def blockAllocateFromBegin (heap : Control port)
    (block nextBlock freeListAnchor allocSize : Nat) : Nat × Control port :=
  (block, heap.blockSplit block nextBlock freeListAnchor allocSize)

/-- `_Heap_Block_allocate_from_end`. -/
def blockAllocateFromEnd (heap : Control port)
    (block nextBlock freeListAnchor allocBegin allocSize : Nat) : Nat × Control port :=
  let newBlock := blockOfAllocArea port allocBegin heap.pageSize
  let newBlockSize := port.sub nextBlock newBlock
  let blockSizeAdjusted := port.sub newBlock block
  let heap := heap.countStats fun stats =>
    { stats with freeSize := port.add stats.freeSize blockSizeAdjusted }
  let (heap, block, blockSizeAdjusted, freeListAnchor) :=
    if heap.isPrevUsed block then
      let heap := heap.freeListInsertAfter freeListAnchor block
      let heap := heap.countStats fun stats =>
        { stats with freeBlocks := increment stats.freeBlocks }
      (heap, block, blockSizeAdjusted, block)
    else
      let prevBlock := heap.prevBlock block
      let prevBlockSize := heap.blockSize prevBlock
      (heap, prevBlock, port.add blockSizeAdjusted prevBlockSize, freeListAnchor)
  let heap := heap.setSizeAndFlag block (blockSizeAdjusted ||| prevBlockUsed)
  let heap := heap.setPrevSize newBlock blockSizeAdjusted
  let heap := heap.setSizeAndFlag newBlock newBlockSize
  (newBlock, heap.blockSplit newBlock nextBlock freeListAnchor allocSize)

/-- `_Heap_Block_allocate`. -/
def blockAllocate (heap : Control port) (block allocBegin allocSize : Nat) : Nat × Control port :=
  let allocAreaBegin := allocAreaOfBlock port block
  let allocAreaOffset := port.sub allocBegin allocAreaBegin
  let blockSize := heap.blockSize block
  let nextBlock := blockAt port block blockSize
  let (freeListAnchor, heap) :=
    if heap.isPrevUsed nextBlock then (heap.freeList, heap)
    else
      let freeListAnchor := heap.prev block
      let heap := heap.freeListRemove block
      (freeListAnchor, heap.countStats fun stats =>
        { stats with
          freeBlocks := decrement stats.freeBlocks
          usedBlocks := increment stats.usedBlocks
          freeSize := port.sub stats.freeSize blockSize })
  let (block, heap) :=
    if allocAreaOffset < heap.pageSize then
      let allocSize := port.add allocSize allocAreaOffset
      heap.blockAllocateFromBegin block nextBlock freeListAnchor allocSize
    else heap.blockAllocateFromEnd block nextBlock freeListAnchor allocBegin allocSize
  (block, heap.countStats fun stats =>
    { stats with minFreeSize := min stats.minFreeSize stats.freeSize })

end Control

/-! ## Removing a free block from the free list -/

/-- Putting one element into two permuted lists. -/
theorem perm_insert (node : Nat) (before after left right : List Nat)
    (permuted : (before ++ after).Perm (left ++ right)) :
    (before ++ node :: after).Perm (left ++ node :: right) :=
  List.perm_middle.trans ((permuted.cons node).trans List.perm_middle.symm)

namespace Represents

variable {heap : Control port} {tail : Ends} {front back : List Block} {size : Nat}
  {before after : List Nat}

/-- Two neighbouring blocks are never both free. -/
theorem next_not_free {nodes : List Nat} {block : Block}
    (rep : Represents heap (front ++ block :: back) nodes tail) (free : block.use = .free) :
    ∀ next ∈ back.head?, next.use ≠ .free := by
  intro next mem nextFree
  cases back with
  | nil => simp at mem
  | cons other rest =>
    obtain rfl : other = next := by simpa using mem
    obtain ⟨outer, inner, decoded⟩ := rep.decode
    have marks := decoded.marks
    rw [free] at marks
    have flag := (decoded.after.1.2.1 nextFree).1
    exact absurd (marks.symm.trans flag) (by simp)

/-- Detaching a free block removes it from the ring; the size words stay. -/
theorem detach (rep : Represents heap (front ++ ⟨size, .free⟩ :: back) (before ++
      (heap.firstBlock + total front) :: after) tail) :
    heap.prev (heap.firstBlock + total front) = final heap.freeList before ∧
      ∃ memory, heap.freeListRemove (heap.firstBlock + total front) = heap.renew memory heap.stats ∧
        Represents (heap.renew memory heap.stats) (front ++ ⟨size, .pending⟩ :: back)
          (before ++ after) tail ∧
        (heap.renew memory heap.stats).sizeAndFlag (heap.firstBlock + total front) = size + 1 := by
  have shape := rep.geometry
  obtain ⟨-, behind⟩ := ring_split _ _ _ _ _ rep.ring
  obtain ⟨linked, aheadLinked, behindLinked⟩ := rep.neighbours_linked
  obtain ⟨memory, removed, view⟩ := (view_self heap _ _).free_list_remove heap shape.apart
    (heap.firstBlock + total front) linked aheadLinked behindLinked
  obtain ⟨outer, inner, decoded⟩ := rep.decode
  obtain rfl : outer = true := (decoded.header.2.1 rfl).1
  have word := view.sizeAndFlag _ (Geometry.cut_sized front _ shape)
  refine ⟨behind, memory, removed, ?_, word.trans decoded.header.1⟩
  apply merge ⟨size, .pending⟩ [⟨size, .free⟩] rep (by simp) (by simp) (by simp) (by simp)
    decoded.header.1 trivial (fun _ => rep.next_not_free rfl) view
  · exact ring_remove _ _ _ _ _ rep.ring
  · have listed := rep.listed
    simp only [freeAddresses_append, freeAddresses_cons] at listed ⊢
    simpa using List.perm_inv_core listed
  · exact decoded.header.1
  · exact decoded.next_word
  · simp
  · exact fun _ _ => rfl
  · exact fun _ _ => rfl

end Represents

/-! ## Splitting a block -/

/-- The size of the used block that a split leaves for an allocation. -/
def Control.usedBlockSize (heap : Control port) (allocSize : Nat) : Nat :=
  alignUp port (max allocSize (heap.minBlockSize - 2 * port.wordSize) + 2 * port.wordSize)
    heap.pageSize

/-- A block is split if a minimum block is left behind the allocation. -/
def Control.Splits (heap : Control port) (size allocSize : Nat) : Prop :=
  max allocSize (heap.minBlockSize - 2 * port.wordSize) + 2 * port.wordSize + heap.minBlockSize ≤
    size
deriving Decidable

/-- The blocks that an allocation leaves of a block of some size. -/
def Control.carve (heap : Control port) (size allocSize : Nat) : List Block :=
  if heap.Splits size allocSize then
    [⟨heap.usedBlockSize allocSize, .used⟩, ⟨size - heap.usedBlockSize allocSize, .free⟩]
  else [⟨size, .used⟩]

/-- The free list nodes that a split at an address adds. -/
def Control.carveNodes (heap : Control port) (block size allocSize : Nat) : List Nat :=
  if heap.Splits size allocSize then [block + heap.usedBlockSize allocSize] else []

/-- The statistics after one more block of some size became free. -/
def enlistStats (port : Port) (stats : Statistics) (size : Nat) : Statistics :=
  { stats with
    freeSize := port.add stats.freeSize size
    freeBlocks := increment stats.freeBlocks }

/-- The statistics after a split. -/
def Control.carveStats (heap : Control port) (stats : Statistics) (size allocSize : Nat) :
    Statistics :=
  if heap.Splits size allocSize then
    enlistStats port stats (size - heap.usedBlockSize allocSize)
  else stats

section Renew

variable (heap : Control port) (memory : Memory) (stats : Statistics)

@[simp] theorem Control.renew_carve (size allocSize : Nat) :
    (heap.renew memory stats).carve size allocSize = heap.carve size allocSize := rfl

@[simp] theorem Control.renew_carveNodes (block size allocSize : Nat) :
    (heap.renew memory stats).carveNodes block size allocSize = heap.carveNodes block size allocSize := rfl

@[simp] theorem Control.renew_carveStats (others : Statistics) (size allocSize : Nat) :
    (heap.renew memory stats).carveStats others size allocSize =
      heap.carveStats others size allocSize := rfl

end Renew

section

variable {heap : Control port} {blocks : List Block} (shape : Geometry heap blocks)
  (size allocSize : Nat)
include shape

/-- The used part of a split holds the allocation, and both parts are valid blocks. -/
theorem usedBlockSize_spec (page : heap.pageSize ∣ size)
    (bounded : size < port.modulus) (splits : heap.Splits size allocSize) :
    heap.pageSize ∣ heap.usedBlockSize allocSize ∧
      allocSize + 2 * port.wordSize ≤ heap.usedBlockSize allocSize ∧
      heap.minBlockSize ≤ heap.usedBlockSize allocSize ∧
      heap.usedBlockSize allocSize + heap.minBlockSize ≤ size := by
  have pageMin := shape.page_le_min
  simp only [Control.Splits] at splits
  obtain ⟨multiple, above, below⟩ := alignUp_spec port
    (max allocSize (heap.minBlockSize - 2 * port.wordSize) + 2 * port.wordSize) heap.pageSize
    shape.pagePositive (by omega)
  have fits : heap.usedBlockSize allocSize + heap.minBlockSize ≤ size := by
    by_contra beyond
    -- Both sides are multiples of the page size, so they would differ by a whole page.
    have step := add_unit_le size (heap.usedBlockSize allocSize + heap.minBlockSize) heap.pageSize
      page (Nat.dvd_add multiple shape.minPage) (by omega)
    simp only [Control.usedBlockSize] at step beyond
    omega
  simp only [Control.usedBlockSize] at fits ⊢
  exact ⟨multiple, by omega, by omega, fits⟩

/-- The comparison of wrapped sizes in a split decides what it should. -/
theorem blockSplit_sizes (bounded : size + 2 * port.wordSize < port.modulus)
    (minimum : heap.minBlockSize ≤ size) (fits : allocSize + port.wordSize ≤ size) :
    port.add (max allocSize (port.sub heap.minBlockSize port.headerSize)) port.headerSize =
        max allocSize (heap.minBlockSize - 2 * port.wordSize) + 2 * port.wordSize ∧
      (port.add heap.minBlockSize port.allocBonus ≤ port.sub (port.add size port.allocBonus)
          (max allocSize (heap.minBlockSize - 2 * port.wordSize) + 2 * port.wordSize) ↔
        heap.Splits size allocSize) := by
  have large := shape.minLarge
  have header : port.headerSize = 2 * port.wordSize := rfl
  have bonus : port.allocBonus = port.wordSize := rfl
  constructor
  · rw [header, port.sub_of_le heap.minBlockSize _ (by omega) (by omega)]
    exact port.add_of_lt _ _ (by omega)
  · rw [bonus, port.add_of_lt heap.minBlockSize _ (by omega), port.add_of_lt size _ (by omega),
      port.sub_of_le _ _ (by omega) (by omega)]
    simp only [Control.Splits]
    omega

end

variable {nodes : List Nat} {block : Block}

namespace Represents

variable {heap : Control port} {tail : Ends} {front back : List Block} {size : Nat} {use : Use}

/-- Without a split the block becomes used as a whole. -/
theorem split_whole (rep : Represents heap (front ++ ⟨size, use⟩ :: back) nodes tail)
    (taken : use = .pending ∨ use = .used) (anchor allocSize : Nat)
    (fits : allocSize + port.wordSize ≤ size) (whole : ¬ heap.Splits size allocSize) :
    ∃ memory, heap.blockSplit (heap.firstBlock + total front)
        (heap.firstBlock + total front + size) anchor allocSize = heap.renew memory heap.stats ∧
      Represents (heap.renew memory heap.stats) (front ++ ⟨size, .used⟩ :: back) nodes tail := by
  have geom := rep.geometry
  have shape := geom.shape ⟨size, use⟩ (by simp)
  have bounded := rep.size_bound
  obtain ⟨outer, inner, decoded⟩ := rep.decode
  have sizeValue := decoded.blockSize rep
  obtain ⟨usedSize, limit⟩ := blockSplit_sizes geom size allocSize (by omega) shape.2 fits
  have nextSized : heap.firstBlock + total front + size ∈
      sizedBlocks heap (front ++ ⟨size, use⟩ :: back) := rep.next_sized
  have headEven : 2 ∣ headSize tail back :=
    headSize_even (front ++ [⟨size, use⟩]) (by simpa using rep)
  obtain ⟨memory, written, view⟩ := (view_self heap (sizedBlocks heap (front ++ ⟨size, use⟩ :: back))
    (linkedBlocks heap (front ++ ⟨size, use⟩ :: back))).set_flag heap geom.apart _ _ inner nextSized
    decoded.next_word headEven
  have solid : use ≠ .gap := by rcases taken with rfl | rfl <;> simp
  have positive : 0 < size := geom.positive ⟨size, use⟩ (by simp)
  refine ⟨memory, ?_, ?_⟩
  · simp only [Control.blockSplit, sizeValue, usedSize, limit, whole]
    exact written
  · apply merge ⟨size, .used⟩ [⟨size, use⟩] rep (by simp) (by simpa using solid) (by simp)
      (by simp) decoded.header.1 rfl nofun view
    · exact ring_congr _ _ _ _ rep.ring (fun _ _ => rfl) (fun _ _ => rfl)
    · have listed := rep.listed
      have notFree : use ≠ .free := by rcases taken with rfl | rfl <;> simp
      simpa [freeAddresses_cons, notFree] using listed
    · exact (update_of_ne (by omega) _ _).trans decoded.header.1
    · exact update_self _ _ _
    · exact nofun
    · intro addr outside
      exact update_of_ne (by simp only at outside; omega) _ _
    · exact fun _ _ => rfl

/-- With a split the block becomes a used block and a free remainder, which enters
the free list behind the anchor. The block after the successor tells that the
successor is not free. -/
theorem split_parts {before after : List Nat}
    (rep : Represents heap (front ++ ⟨size, use⟩ :: back) (before ++ after) tail)
    (taken : use = .pending ∨ use = .used) (allocSize follower : Nat)
    (fits : allocSize + port.wordSize ≤ size) (splits : heap.Splits size allocSize)
    (followerSized : follower ∈ sizedBlocks heap (front ++ ⟨size, use⟩ :: back)) (followerPlace :
      blockAt port (heap.firstBlock + total front + size) (heap.blockSize (heap.firstBlock + total
      front + size)) = follower) (followerUsed : heap.isPrevUsed follower = true)
    (nextSettled : ∀ block ∈ back.head?, block.use ≠ .free) :
    ∃ memory, heap.blockSplit (heap.firstBlock + total front)
        (heap.firstBlock + total front + size) (final heap.freeList before) allocSize =
        heap.renew memory (enlistStats port heap.stats (size - heap.usedBlockSize allocSize)) ∧
      Represents
        (heap.renew memory (enlistStats port heap.stats (size - heap.usedBlockSize allocSize)))
        (front ++ ⟨heap.usedBlockSize allocSize, .used⟩ ::
          ⟨size - heap.usedBlockSize allocSize, .free⟩ :: back)
        (before ++ (heap.firstBlock + total front + heap.usedBlockSize allocSize) :: after) tail := by
  have geom := rep.geometry
  have shape := geom.shape ⟨size, use⟩ (by simp)
  have bounded := rep.size_bound
  have word := port.wordSize_pos
  have large := geom.minLarge
  obtain ⟨outer, inner, decoded⟩ := rep.decode
  have sizeValue := decoded.blockSize rep
  obtain ⟨usedSize, limit⟩ := blockSplit_sizes geom size allocSize (by omega) shape.2 fits
  obtain ⟨usedPage, usedHolds, usedMin, usedFits⟩ :=
    usedBlockSize_spec geom size allocSize shape.1 (by omega) splits
  have remainderPage : heap.pageSize ∣ size - heap.usedBlockSize allocSize :=
    Nat.dvd_sub shape.1 usedPage
  have solid : use ≠ .gap := by rcases taken with rfl | rfl <;> simp
  have notFree : use ≠ .free := by rcases taken with rfl | rfl <;> simp
  have folded : alignUp port (max allocSize (heap.minBlockSize - 2 * port.wordSize) +
      2 * port.wordSize) heap.pageSize = heap.usedBlockSize allocSize := rfl
  generalize heap.usedBlockSize allocSize = used at *
  -- The new block list is the finer one; all words of the old list are words of it.
  obtain ⟨edited, sizedFiner, linkedFiner⟩ := geom.cut ⟨used, .used⟩ ⟨size - used, .free⟩
    (by simp only; omega) solid (by
      simp only [List.mem_cons, List.not_mem_nil, or_false, forall_eq_or_imp, forall_eq]
      exact ⟨⟨usedPage, usedMin, by simp⟩, remainderPage, by omega, by simp⟩)
  have apart := edited.apart
  generalize sizedSet : sizedBlocks heap
    (front ++ ⟨used, .used⟩ :: ⟨size - used, .free⟩ :: back) = sized at *
  generalize linkedSet : linkedBlocks heap
    (front ++ ⟨used, .used⟩ :: ⟨size - used, .free⟩ :: back) = linked at *
  have blockSized : heap.firstBlock + total front ∈ sized :=
    sizedFiner (Geometry.cut_sized front _ geom)
  have freeSized : heap.firstBlock + total front + used ∈ sized := by
    rw [← sizedSet]
    exact .inr ⟨⟨size - used, .free⟩, by simp⟩
  have freeLinked : heap.firstBlock + total front + used ∈ linked := by
    rw [← linkedSet]
    exact .inr ⟨⟨size - used, .free⟩, by simp, by simp⟩
  have nextSized : heap.firstBlock + total front + size ∈ sized := sizedFiner rep.next_sized
  obtain ⟨anchorLinked, aheadLinked⟩ := rep.anchor_linked before after
  have freshNode : heap.firstBlock + total front + used ∉ heap.freeList :: (before ++ after) :=
    rep.fresh notFree solid used (by simp only; omega)
  have usedEven : 2 ∣ used := geom.pageEven.trans usedPage
  have remainderEven : 2 ∣ size - used := geom.pageEven.trans remainderPage
  have sizeEven : 2 ∣ size := geom.pageEven.trans shape.1
  have headEven : 2 ∣ headSize tail back :=
    headSize_even (front ++ [⟨size, use⟩]) (by simpa using rep)
  have placeUsed : blockAt port (heap.firstBlock + total front) used =
      heap.firstBlock + total front + used := port.add_of_lt _ _ (by omega)
  have remainderValue : port.sub size used = size - used := port.sub_of_le _ _ (by omega) (by omega)
  have flagged : (size - used) ||| prevBlockUsed = size - used + 1 := or_flag _ remainderEven true
  have place : heap.firstBlock + total front + used + (size - used) =
      heap.firstBlock + total front + size := by omega
  have view := view_self heap sized linked
  obtain ⟨resized, resizedValue, view⟩ := view.block_set_size heap apart _ size used outer blockSized
    decoded.header.1 sizeEven usedEven (by omega)
  have stillUsed : (heap.renew resized heap.stats).isPrevUsed follower = true := by
    have word := view.sizeAndFlag follower (sizedFiner followerSized)
    by_cases same : follower = heap.firstBlock + total front
    · simp only [same, update_self] at word
      rw [same, isPrevUsed_of_word (heap.renew resized heap.stats) _ used outer usedEven word,
        ← decoded.isPrevUsed rep, ← same, followerUsed]
    · simp only [update_of_ne same] at word
      rw [← followerUsed]
      exact congrArg (fun value => value &&& prevBlockUsed != 0) word
  obtain ⟨listed, listedValue, view⟩ := View.free_list_insert_after
    (heap.renew resized heap.stats) view apart _ _ (linkedFiner anchorLinked) freeLinked
    (linkedFiner aheadLinked) (geom.linked_bound _ anchorLinked) (by omega)
  have view := view.write_sizeAndFlag apart _ (size - used + 1) freeSized (by omega)
  have view := view.write_prevSize apart _ (size - used) nextSized (by omega)
  generalize writes : store (store listed _ _ _) _ _ _ = written at view
  obtain ⟨memory, closed, view⟩ := View.clear_flag (heap.renew written heap.stats) view
    apart _ _ inner nextSized (by
      simp only
      rw [update_of_ne (by omega), update_of_ne (by omega)]
      exact decoded.next_word) headEven
  refine ⟨memory, ?_, ?_⟩
  · simp only [Control.blockSplit, sizeValue, usedSize, limit, splits, folded, placeUsed,
      remainderValue, resizedValue, followerPlace, Control.countStats_isPrevUsed, stillUsed,
      Control.countStats_freeListInsertAfter, listedValue, Control.closeSplit, flagged,
      Control.countStats_setSizeAndFlag, Control.countStats_setPrevSize,
      Control.renew_setSizeAndFlag, Control.renew_setPrevSize, writes]
    exact congrArg (Control.countStats · fun stats => enlistStats port stats (size - used)) closed
  · apply represents_of_view heap memory _ _ _ _ _ _ _ edited rep.tailEven view
    · exact sizedSet.le
    · exact linkedSet.le
    · refine (tiles_append _ _ _ _ front _).mpr ⟨outer, ?_, ⟨?_, by simp⟩, true, rfl, ⟨?_, ?_⟩,
        false, rfl, ?_⟩
      · apply front_congr _ _ _ _ _ _ _ (fun block mem => geom.positive block (by simp [mem]))
          decoded.before
        · intro addr lower upper
          simp only
          rw [update_of_ne (by omega), update_of_ne (by omega), update_of_ne (by omega)]
        · intro addr lower upper
          exact update_of_ne (by omega) _ _
      · simp only
        rw [update_of_ne (by omega), update_of_ne (by omega), update_self]
      · simp only
        rw [update_of_ne (by omega), update_self, Bool.toNat_true]
      · refine ⟨fun _ => ⟨rfl, ?_⟩, by simp⟩
        simp only [place, update_self]
      · simp only [place]
        apply tiles_reflag _ _ _ _ _ _ _ (fun block mem => geom.positive block (by simp [mem]))
          decoded.after
        · exact update_self _ _ _
        · exact fun _ => nextSettled
        · intro addr above
          simp only at above ⊢
          rw [update_of_ne (by omega), update_of_ne (by omega), update_of_ne (by omega)]
        · intro addr above
          exact update_of_ne (by simp only at above; omega) _ _
    · exact ring_insert_after _ _ _ _ _ rep.ring freshNode
    · have listed := rep.listed
      simp only [freeAddresses_append, freeAddresses_cons, notFree, if_true] at listed ⊢
      rw [place]
      exact perm_insert _ _ _ _ _ listed
    · exact (update_of_ne (by omega) _ _).trans rep.firstLink

/-- The block after the successor of a block tells whether the successor is free.
The last block points back to the first block, whose flag is always set. -/
theorem follower_used (rep : Represents heap (front ++ block :: back) nodes tail)
    (closed : tail.last = port.sub heap.firstBlock heap.lastBlock)
    (settled : ∀ next ∈ back.head?, next.use = .used ∨ next.use = .gap) :
    ∃ follower ∈ sizedBlocks heap (front ++ block :: back),
      blockAt port (heap.firstBlock + total front + block.size)
        (heap.blockSize (heap.firstBlock + total front + block.size)) = follower ∧
      heap.isPrevUsed follower = true := by
  have shape := rep.geometry
  have bounded := shape.bounded
  have last := shape.last
  simp only [total_append, total_cons] at last
  cases back with
  | nil =>
    obtain ⟨outer, inner, decoded⟩ := rep.decode
    have sizeValue := blockSize_of_word heap _ tail.last inner rep.tailEven decoded.next_word
    have place : heap.firstBlock + total front + block.size = heap.lastBlock := by
      simp only [total_nil] at last
      omega
    refine ⟨heap.firstBlock, ?_, ?_, ?_⟩
    · exact Geometry.cut_sized [] (front ++ [block]) shape
    · rw [sizeValue, place, closed, blockAt]
      exact wrapAdd_wrapSub _ _ _ (by omega) (by omega)
    · have stored := tiles_head _ _ _ _ _ rep.tiles
      exact isPrevUsed_of_word heap _ _ true (headSize_even [] rep) stored
  | cons next rest =>
    have split : front ++ block :: next :: rest = (front ++ [block]) ++ next :: rest := by simp
    have place : heap.firstBlock + total (front ++ [block]) =
        heap.firstBlock + total front + block.size := by simp [Nat.add_assoc]
    rw [split] at rep shape ⊢
    obtain ⟨outer, inner, decoded⟩ := rep.decode
    have sizeValue := decoded.blockSize rep
    have used := decoded.next_isPrevUsed rep
    have marks := decoded.marks
    have flag : inner = true := by
      rcases settled next (by simp) with use | use <;> simpa [use, Marks] using marks
    simp only [total_cons] at last
    rw [place] at sizeValue used
    refine ⟨heap.firstBlock + total front + block.size + next.size, ?_, ?_, ?_⟩
    · have cut := Geometry.cut_sized ((front ++ [block]) ++ [next]) rest (by simpa using shape)
      simpa [Nat.add_assoc] using cut
    · rw [sizeValue]
      exact port.add_of_lt _ _ (by omega)
    · rw [used, flag]

/-- `_Heap_Block_split` carves the allocation out of a block that is on no list. -/
theorem split (heap : Control port) (front : List Block) (before after : List Nat)
    (rep : Represents heap (front ++ ⟨size, use⟩ :: back) (before ++ after) tail)
    (taken : use = .pending ∨ use = .used) (allocSize : Nat)
    (fits : allocSize + port.wordSize ≤ size)
    (closed : tail.last = port.sub heap.firstBlock heap.lastBlock)
    (settled : ∀ next ∈ back.head?, next.use = .used ∨ next.use = .gap) :
    ∃ memory, heap.blockSplit (heap.firstBlock + total front)
        (heap.firstBlock + total front + size) (final heap.freeList before) allocSize =
        heap.renew memory (heap.carveStats heap.stats size allocSize) ∧
      Represents (heap.renew memory (heap.carveStats heap.stats size allocSize))
        (front ++ (heap.carve size allocSize ++ back))
        (before ++ (heap.carveNodes (heap.firstBlock + total front) size allocSize ++ after)) tail := by
  by_cases splits : heap.Splits size allocSize
  · obtain ⟨follower, followerSized, followerPlace, followerUsed⟩ :=
      rep.follower_used closed settled
    have nextSettled : ∀ next ∈ back.head?, next.use ≠ .free := by
      intro next mem
      rcases settled next mem with used | gap
      · simp [used]
      · simp [gap]
    simpa [Control.carveStats, Control.carve, Control.carveNodes, splits] using
      rep.split_parts taken allocSize follower fits splits followerSized followerPlace
        followerUsed nextSettled
  · simpa [Control.carveStats, Control.carve, Control.carveNodes, splits] using
      rep.split_whole taken (final heap.freeList before) allocSize fits splits

/-- Giving the begin of a detached block back to the free list leaves the rest
pending, with a cleared flag. -/
theorem cut_begin {before after : List Nat} (free : Nat)
    (rep : Represents heap (front ++ ⟨size, .pending⟩ :: back) (before ++ after) tail)
    (prevUsed : heap.sizeAndFlag (heap.firstBlock + total front) = size + 1)
    (freePage : heap.pageSize ∣ free) (freeMin : heap.minBlockSize ≤ free)
    (restMin : free + heap.minBlockSize ≤ size) :
    ∃ memory, (((heap.freeListInsertAfter (final heap.freeList before)
        (heap.firstBlock + total front)).setSizeAndFlag (heap.firstBlock + total front)
        (free ||| prevBlockUsed)).setPrevSize (heap.firstBlock + total front + free)
        free).setSizeAndFlag (heap.firstBlock + total front + free) (size - free) =
        heap.renew memory heap.stats ∧ Represents (heap.renew memory heap.stats)
        (front ++ ⟨free, .free⟩ :: ⟨size - free, .pending⟩ :: back)
        (before ++ (heap.firstBlock + total front) :: after) tail := by
  have geom := rep.geometry
  have word := port.wordSize_pos
  have large := geom.minLarge
  have shape := geom.shape ⟨size, .pending⟩ (by simp)
  have restPage : heap.pageSize ∣ size - free := Nat.dvd_sub shape.1 freePage
  have bounded := rep.size_bound
  obtain ⟨outer, inner, decoded⟩ := rep.decode
  have outerUsed : outer = true := by
    have stored : heap.sizeAndFlag (heap.firstBlock + total front) = size + outer.toNat :=
      decoded.header.1
    cases outer with
    | true => rfl
    | false =>
      simp only [Bool.toNat_false] at stored
      omega
  subst outerUsed
  obtain ⟨edited, sizedFiner, linkedFiner⟩ := geom.cut ⟨free, .free⟩ ⟨size - free, .pending⟩
    (by simp only; omega) (by simp) (by
      simp only [List.mem_cons, List.not_mem_nil, or_false, forall_eq_or_imp, forall_eq]
      exact ⟨⟨freePage, freeMin, by simp⟩, restPage, by omega, by simp⟩)
  have apart := edited.apart
  have blockSized := sizedFiner (Geometry.cut_sized front _ geom)
  have newSized : heap.firstBlock + total front + free ∈
      sizedBlocks heap (front ++ ⟨free, .free⟩ :: ⟨size - free, .pending⟩ :: back) :=
    .inr ⟨⟨size - free, .pending⟩, by simp⟩
  have blockLinked : heap.firstBlock + total front ∈
      linkedBlocks heap (front ++ ⟨free, .free⟩ :: ⟨size - free, .pending⟩ :: back) :=
    .inr ⟨⟨free, .free⟩, by simp, by simp⟩
  obtain ⟨anchorLinked, aheadLinked⟩ := rep.anchor_linked before after
  have freshNode := rep.fresh (by simp) (by simp) 0 (by simp only; omega)
  have freeEven : 2 ∣ free := geom.pageEven.trans freePage
  have flagged : free ||| prevBlockUsed = free + 1 := or_flag _ freeEven true
  have place : heap.firstBlock + total front + free + (size - free) =
      heap.firstBlock + total front + size := by omega
  have view := view_self heap
    (sizedBlocks heap (front ++ ⟨free, .free⟩ :: ⟨size - free, .pending⟩ :: back))
    (linkedBlocks heap (front ++ ⟨free, .free⟩ :: ⟨size - free, .pending⟩ :: back))
  obtain ⟨listed, listedValue, view⟩ := view.free_list_insert_after heap apart _ _
    (linkedFiner anchorLinked) blockLinked (linkedFiner aheadLinked)
    (geom.linked_bound _ anchorLinked) (by omega)
  have view := view.write_sizeAndFlag apart _ (free + 1) blockSized (by omega)
  have view := view.write_prevSize apart _ free newSized (by omega)
  have view := view.write_sizeAndFlag apart _ (size - free) newSized (by omega)
  rw [listedValue, flagged]
  refine ⟨_, rfl, ?_⟩
  apply represents_of_view heap _ _ _ _ _ _ _ _ edited rep.tailEven view
    (fun _ mem => mem) (fun _ mem => mem)
  · refine (tiles_append _ _ _ _ front _).mpr ⟨true, ?_, ⟨?_, ?_⟩, false, rfl, ⟨?_, by simp⟩,
      inner, trivial, ?_⟩
    · apply front_congr _ _ _ _ _ _ _ (fun block mem => geom.positive block (by simp [mem]))
        decoded.before
      · intro addr lower upper
        simp only
        rw [update_of_ne (by omega), update_of_ne (by omega)]
      · intro addr lower upper
        exact update_of_ne (by omega) _ _
    · simp only
      rw [update_of_ne (by omega), update_self, Bool.toNat_true]
    · exact ⟨fun _ => ⟨rfl, update_self _ _ _⟩, by simp⟩
    · exact update_self _ _ _
    · simp only [place]
      apply tiles_congr _ _ _ _ _ _ (fun block mem => geom.positive block (by simp [mem]))
        decoded.after
      · intro addr above
        simp only at above ⊢
        rw [update_of_ne (by omega), update_of_ne (by omega)]
      · intro addr above
        exact update_of_ne (by simp only at above; omega) _ _
  · exact ring_insert_after _ _ _ _ _ rep.ring freshNode
  · have listed := rep.listed
    simp only [freeAddresses_append, freeAddresses_cons, reduceCtorEq, if_false, if_true,
      List.nil_append] at listed ⊢
    rw [place]
    exact perm_insert _ _ _ _ _ listed
  · exact (update_of_ne (by omega) _ _).trans rep.firstLink

end Represents

/-! ## Allocating from a block -/

/-- The heap invariant between two operations: no block is pending, and the size of
the last block leads back to the first block. -/
structure Consistent (link : Nat → Nat) (heap : Control port) (blocks : List Block)
    (nodes : List Nat) : Prop where
  represents : Represents heap blocks nodes ⟨port.sub heap.firstBlock heap.lastBlock, link⟩
  settled : ∀ block ∈ blocks, block.use ≠ .pending

/-- The successor of a free block is used or a gap. -/
theorem Consistent.next_settled {heap : Control port} {front back : List Block}
    (sound : Consistent link heap (front ++ block :: back) nodes)
    (notFree : ∀ next ∈ back.head?, next.use ≠ .free) :
    ∀ next ∈ back.head?, next.use = .used ∨ next.use = .gap := by
  intro next mem
  have first := notFree next mem
  have inside : next ∈ back := List.mem_of_mem_head? mem
  have second := sound.settled next (by simp [inside])
  cases use : next.use with
  | free => exact absurd use first
  | pending => exact absurd use second
  | used => exact .inl rfl
  | gap => exact .inr rfl

/-- The size of the free block that stays below an allocation. -/
def beginSize (port : Port) (pageSize block allocBegin : Nat) : Nat :=
  alignDown allocBegin pageSize - (block + 2 * port.wordSize)

section

variable (heap : Control port)

/-- The blocks that an allocation at some address leaves of a free block. -/
def Control.allocateBlocks (block size allocBegin allocSize : Nat) : List Block :=
  let free := beginSize port heap.pageSize block allocBegin
  if free = 0 then heap.carve size (allocSize + (allocBegin - (block + 2 * port.wordSize)))
  else ⟨free, .free⟩ :: heap.carve (size - free) allocSize

/-- The size of the used block that a split leaves of a block. -/
def Control.carvedSize (size allocSize : Nat) : Nat :=
  if heap.Splits size allocSize then heap.usedBlockSize allocSize else size

/-- The size of the used block that an allocation leaves of a free block. -/
def Control.allocatedSize (block size allocBegin allocSize : Nat) : Nat :=
  let free := beginSize port heap.pageSize block allocBegin
  if free = 0 then heap.carvedSize size (allocSize + (allocBegin - (block + 2 * port.wordSize)))
  else heap.carvedSize (size - free) allocSize

/-- The free block that a split leaves, if any. -/
def Control.remainder (size allocSize : Nat) : List Block :=
  if heap.Splits size allocSize then [⟨size - heap.usedBlockSize allocSize, .free⟩] else []

theorem carve_eq (heap : Control port) (size allocSize : Nat) : heap.carve size allocSize =
      ⟨heap.carvedSize size allocSize, .used⟩ :: heap.remainder size allocSize := by
  unfold Control.carve Control.carvedSize Control.remainder
  split <;> rfl

/-- The free list nodes that take the place of the block. -/
def Control.allocateNodes (block size allocBegin allocSize : Nat) : List Nat :=
  let free := beginSize port heap.pageSize block allocBegin
  if free = 0 then
    heap.carveNodes block size (allocSize + (allocBegin - (block + 2 * port.wordSize)))
  else block :: heap.carveNodes (block + free) (size - free) allocSize

/-- The statistics after a free block was taken off the free list. -/
def takeStats (port : Port) (stats : Statistics) (size : Nat) : Statistics :=
  { stats with
    freeBlocks := decrement stats.freeBlocks
    usedBlocks := increment stats.usedBlocks
    freeSize := port.sub stats.freeSize size }

/-- The statistics with the least amount of free memory brought up to date. -/
def leastStats (stats : Statistics) : Statistics :=
  { stats with minFreeSize := min stats.minFreeSize stats.freeSize }

/-- The statistics after an allocation at some address of a free block. -/
def Control.allocateStats (block size allocBegin allocSize : Nat) : Statistics :=
  let free := beginSize port heap.pageSize block allocBegin
  let taken := takeStats port heap.stats size
  leastStats <|
    if free = 0 then
      heap.carveStats taken size (allocSize + (allocBegin - (block + 2 * port.wordSize)))
    else heap.carveStats (enlistStats port taken free) (size - free) allocSize

end

/-- An allocation address is admissible if the allocation ends inside the block and
the parts of the block below and above it are valid blocks or empty. -/
structure Admissible (heap : Control port) (block size allocBegin allocSize : Nat) : Prop where
  above : block + 2 * port.wordSize ≤ allocBegin
  below : allocBegin + allocSize ≤ block + size + port.wordSize
  free : beginSize port heap.pageSize block allocBegin = 0 ∨
    heap.minBlockSize ≤ beginSize port heap.pageSize block allocBegin
  rest : beginSize port heap.pageSize block allocBegin + heap.minBlockSize ≤ size

section Allocate

variable {heap : Control port} {front back : List Block} {size : Nat} {before after : List Nat}

/-- The part below an allocation has a page multiple size and ends at the header of
the allocated block. -/
theorem beginSize_spec (pageSize block start : Nat)
    (positive : 0 < pageSize) (aligned : pageSize ∣ block + 2 * port.wordSize)
    (above : block + 2 * port.wordSize ≤ start) :
    pageSize ∣ beginSize port pageSize block start ∧
      block + 2 * port.wordSize + beginSize port pageSize block start = alignDown start pageSize ∧
      block + 2 * port.wordSize + beginSize port pageSize block start ≤ start ∧
      (beginSize port pageSize block start = 0 ↔
        start - (block + 2 * port.wordSize) < pageSize) := by
  have lower : block + 2 * port.wordSize ≤ down start pageSize :=
    le_down start pageSize _ aligned above
  have upper := down_le start pageSize
  have near := lt_down_add start pageSize positive
  have page := Nat.dvd_sub (down_dvd start pageSize) aligned
  simp only [beginSize, alignDown]
  refine ⟨page, by omega, by omega, ?_⟩
  constructor
  · omega
  · intro close
    by_contra something
    have whole := Nat.le_of_dvd (Nat.pos_of_ne_zero something) page
    omega

/-- `_Heap_Block_allocate_from_end` gives the begin of a detached block back and
carves the allocation out of the rest. -/
theorem allocate_from_end {tail : Ends} (heap : Control port) (free start allocSize : Nat)
    (rep : Represents heap (front ++ ⟨size, .pending⟩ :: back) (before ++ after) tail)
    (prevUsed : heap.sizeAndFlag (heap.firstBlock + total front) = size + 1)
    (closed : tail.last = port.sub heap.firstBlock heap.lastBlock)
    (settled : ∀ next ∈ back.head?, next.use = .used ∨ next.use = .gap)
    (freePage : heap.pageSize ∣ free) (freeMin : heap.minBlockSize ≤ free) (freeEnd :
      heap.firstBlock + total front + 2 * port.wordSize + free = alignDown start heap.pageSize)
    (restMin : free + heap.minBlockSize ≤ size) (fits : allocSize + port.wordSize ≤ size - free) :
    ∃ memory, heap.blockAllocateFromEnd (heap.firstBlock + total front)
        (heap.firstBlock + total front + size) (final heap.freeList before) start allocSize =
        (heap.firstBlock + total front + free, heap.renew memory
          (heap.carveStats (enlistStats port heap.stats free) (size - free) allocSize)) ∧
      Represents (heap.renew memory
          (heap.carveStats (enlistStats port heap.stats free) (size - free) allocSize))
        (front ++ ((⟨free, .free⟩ :: heap.carve (size - free) allocSize) ++ back))
        (before ++ (((heap.firstBlock + total front) ::
          heap.carveNodes (heap.firstBlock + total front + free) (size - free) allocSize) ++ after))
        tail := by
  have shape := rep.geometry
  have bounded := rep.size_bound
  have sizeEven : 2 ∣ size := shape.sizeEven ⟨size, .pending⟩ (by simp)
  have used : heap.isPrevUsed (heap.firstBlock + total front) = true :=
    isPrevUsed_of_word heap _ size true sizeEven prevUsed
  have newPlace : blockOfAllocArea port start heap.pageSize =
      heap.firstBlock + total front + free := by
    rw [blockOfAllocArea, ← freeEnd, Port.headerSize, port.sub_of_le _ _ (by omega) (by omega)]
    omega
  have newSize : port.sub (heap.firstBlock + total front + size)
      (heap.firstBlock + total front + free) = size - free := by
    rw [port.sub_of_le _ _ (by omega) (by omega)]
    omega
  have freeSize : port.sub (heap.firstBlock + total front + free)
      (heap.firstBlock + total front) = free := by
    rw [port.sub_of_le _ _ (by omega) (by omega)]
    omega
  obtain ⟨cut, cutValue, rep⟩ := rep.cut_begin free prevUsed freePage freeMin restMin
  have rep := rep.congr_stats (enlistStats port heap.stats free)
  have place : heap.firstBlock + total (front ++ [⟨free, .free⟩]) =
      heap.firstBlock + total front + free := by simp [Nat.add_assoc]
  have anchor : final heap.freeList (before ++ [heap.firstBlock + total front]) =
      heap.firstBlock + total front := final_append _ _ _
  obtain ⟨memory, splitValue, rep⟩ :=
    Represents.split (heap.renew cut (enlistStats port heap.stats free))
      (front ++ [⟨free, .free⟩]) (before ++ [heap.firstBlock + total front]) after
      (by simpa using rep) (.inl rfl) allocSize fits closed settled
  simp only [Control.renew_firstBlock, Control.renew_freeList, place, anchor,
    show heap.firstBlock + total front + free + (size - free) =
      heap.firstBlock + total front + size by omega] at splitValue rep
  refine ⟨memory, ?_, by simpa using rep⟩
  simp only [Control.blockAllocateFromEnd, newPlace, newSize, freeSize,
    Control.countStats_isPrevUsed, used, if_true, Control.countStats_freeListInsertAfter,
    Control.countStats_setSizeAndFlag, Control.countStats_setPrevSize, cutValue]
  exact congrArg (Prod.mk _) splitValue

/-- An allocation leaves no pending block. -/
theorem carve_settled (heap : Control port) (size allocSize : Nat) :
    ∀ block ∈ heap.carve size allocSize, block.use ≠ .pending := by
  unfold Control.carve
  split <;> simp

theorem allocateBlocks_settled (sound : Consistent link heap (front ++ block :: back) nodes) (start size allocBegin allocSize : Nat) :
    ∀ other ∈ front ++ (heap.allocateBlocks start size allocBegin allocSize ++ back),
      other.use ≠ .pending := by
  intro other mem
  simp only [List.mem_append] at mem
  rcases mem with mem | mem | mem
  · exact sound.settled other (by simp [mem])
  · simp only [Control.allocateBlocks] at mem
    split at mem
    · exact carve_settled heap _ _ other mem
    · rcases List.mem_cons.mp mem with rfl | mem
      · simp
      · exact carve_settled heap _ _ other mem
  · exact sound.settled other (by simp [mem])

/-- `_Heap_Block_allocate` of a free block at an admissible address. -/
theorem blockAllocate_spec (start allocSize : Nat) (sound : Consistent link heap (front ++
      ⟨size, .free⟩ :: back) (before ++ (heap.firstBlock + total front) :: after))
    (admissible : Admissible heap (heap.firstBlock + total front) size start allocSize) :
    ∃ memory, heap.blockAllocate (heap.firstBlock + total front) start allocSize =
        (heap.firstBlock + total front +
          beginSize port heap.pageSize (heap.firstBlock + total front) start, heap.renew memory
            (heap.allocateStats (heap.firstBlock + total front) size start allocSize)) ∧
      Consistent link (heap.renew memory
          (heap.allocateStats (heap.firstBlock + total front) size start allocSize))
        (front ++ (heap.allocateBlocks (heap.firstBlock + total front) size start allocSize ++
          back))
        (before ++ (heap.allocateNodes (heap.firstBlock + total front) size start allocSize ++
          after)) := by
  have rep := sound.represents
  have shape := rep.geometry
  have bounded := rep.size_bound
  have settled := sound.next_settled (rep.next_not_free rfl)
  have header : port.headerSize = 2 * port.wordSize := rfl
  obtain ⟨above, below, freeValid, rest⟩ := admissible
  obtain ⟨freePage, freeEnd, freeBelow, freeZero⟩ := beginSize_spec heap.pageSize
    (heap.firstBlock + total front) start shape.pagePositive rep.block_aligned above
  obtain ⟨outer, inner, decoded⟩ := rep.decode
  have sizeValue := decoded.blockSize rep
  have innerFree : inner = false := decoded.marks
  have nextFree := decoded.next_isPrevUsed rep
  rw [innerFree] at nextFree
  obtain ⟨anchor, detached, detachedValue, rep, prevUsed⟩ := rep.detach
  have areaValue : allocAreaOfBlock port (heap.firstBlock + total front) =
      heap.firstBlock + total front + 2 * port.wordSize := port.add_of_lt _ _ (by omega)
  have offsetValue : port.sub start (heap.firstBlock + total front + 2 * port.wordSize) =
      start - (heap.firstBlock + total front + 2 * port.wordSize) :=
    port.sub_of_le _ _ above (by omega)
  have nextPlace : blockAt port (heap.firstBlock + total front) size =
      heap.firstBlock + total front + size := port.add_of_lt _ _ (by omega)
  have rep := rep.congr_stats (takeStats port heap.stats size)
  have settledBlocks := allocateBlocks_settled sound (heap.firstBlock + total front) size
    start allocSize
  by_cases whole : beginSize port heap.pageSize (heap.firstBlock + total front) start = 0
  · have offset := freeZero.mp whole
    have sum : port.add allocSize (start - (heap.firstBlock + total front +
        2 * port.wordSize)) = allocSize + (start - (heap.firstBlock + total front +
        2 * port.wordSize)) := port.add_of_lt _ _ (by omega)
    obtain ⟨memory, splitValue, rep⟩ :=
      Represents.split (heap.renew detached (takeStats port heap.stats size)) front before after
        rep (.inl rfl)
        (allocSize + (start - (heap.firstBlock + total front + 2 * port.wordSize)))
        (by omega) rfl settled
    have rep := rep.congr_stats
      (heap.allocateStats (heap.firstBlock + total front) size start allocSize)
    refine ⟨memory, ?_, ?_, ?_⟩
    · simp only [Control.blockAllocate, areaValue, offsetValue, sizeValue, nextPlace, nextFree,
        anchor, detachedValue, Control.countStats_renew, Control.renew_pageSize, offset, sum,
        Bool.false_eq_true, if_false, Control.blockAllocateFromBegin]
      simp only [Control.renew_firstBlock, Control.renew_freeList] at splitValue
      simp only [takeStats] at splitValue
      simp only [splitValue, Control.allocateStats, whole]
      rfl
    · simpa [Control.allocateBlocks, Control.allocateNodes, whole] using rep
    · exact settledBlocks
  · have offset := mt freeZero.mpr whole
    obtain ⟨memory, splitValue, rep⟩ :=
      allocate_from_end (heap.renew detached (takeStats port heap.stats size))
        _ start allocSize rep prevUsed rfl settled freePage (by tauto) freeEnd rest
        (by omega)
    have rep := rep.congr_stats
      (heap.allocateStats (heap.firstBlock + total front) size start allocSize)
    refine ⟨memory, ?_, ?_, ?_⟩
    · simp only [Control.blockAllocate, areaValue, offsetValue, sizeValue, nextPlace, nextFree,
        anchor, detachedValue, Control.countStats_renew, Control.renew_pageSize, offset,
        Bool.false_eq_true, if_false]
      simp only [Control.renew_firstBlock, Control.renew_freeList] at splitValue
      simp only [takeStats] at splitValue
      simp only [splitValue, Control.allocateStats, whole]
      rfl
    · simpa [Control.allocateBlocks, Control.allocateNodes, whole] using rep
    · exact settledBlocks

end Allocate

end Rtems.Heap
