import Rtems.Heap.Free

/-!
# Resizing a block

`_Heap_Resize_block` keeps the address of the allocation. It first absorbs a free
successor into the block and then lets `_Heap_Block_allocate` carve the new size
out of the block, which is used already and therefore on no list. The amount that
is available is a difference of addresses; it is right only if the address does
not lie beyond the end of its block by more than one word.
-/

namespace Rtems.Heap

open ByteMemory LinkRing Alignment
open Function (update_of_ne update_self)

variable {port : Port} {link : Nat → Nat}

/-- `Heap_Resize_status`. -/
inductive ResizeStatus where
  | successful
  | unsatisfied
  | fatalError
  deriving DecidableEq

/-- The results of `_Heap_Resize_block`. -/
structure Resized (port : Port) where
  status : ResizeStatus
  oldSize : Nat
  newSize : Nat
  heap : Control port

namespace Control

/-- The part of `_Heap_Resize_block_checked` that joins the block with its free
successor. -/
def absorbNext (heap : Control port) (block nextBlock blockSize nextBlockSize : Nat) :
    Control port :=
  let heap := heap.blockSetSize block blockSize
  let heap := heap.freeListRemove nextBlock
  let nextBlock := blockAt port block blockSize
  let heap := heap.setSizeAndFlag nextBlock (heap.sizeAndFlag nextBlock ||| prevBlockUsed)
  heap.countStats fun stats =>
    { stats with
      freeBlocks := decrement stats.freeBlocks
      freeSize := port.sub stats.freeSize nextBlockSize }

/-- `_Heap_Resize_block_checked`. -/
def resizeBlockChecked (heap : Control port) (block allocBegin newAllocSize : Nat) :
    Resized port :=
  let blockSize := heap.blockSize block
  let blockEnd := port.add block blockSize
  let allocSize := port.add (port.sub blockEnd allocBegin) port.allocBonus
  let nextBlock := blockAt port block blockSize
  let nextBlockSize := heap.blockSize nextBlock
  let nextBlockIsFree := heap.isFree nextBlock
  let oldSize := allocSize
  let blockSize := if nextBlockIsFree then port.add blockSize nextBlockSize else blockSize
  let allocSize := if nextBlockIsFree then port.add allocSize nextBlockSize else allocSize
  if allocSize < newAllocSize then
    { status := .unsatisfied, oldSize, newSize := 0, heap }
  else
    let heap :=
      if nextBlockIsFree then heap.absorbNext block nextBlock blockSize nextBlockSize else heap
    let (block, heap) := heap.blockAllocate block allocBegin newAllocSize
    let blockSize := heap.blockSize block
    let nextBlock := blockAt port block blockSize
    let newSize := port.add (port.sub nextBlock allocBegin) port.allocBonus
    { status := .successful, oldSize, newSize
      heap := heap.countStats fun stats => { stats with resizes := increment stats.resizes } }

/-- `_Heap_Resize_block`. -/
def resizeBlock (heap : Control port) (allocBegin newAllocSize : Nat) : Resized port :=
  let block := blockOfAllocArea port allocBegin heap.pageSize
  if heap.isBlockInHeap block then heap.resizeBlockChecked block allocBegin newAllocSize
  else { status := .fatalError, oldSize := 0, newSize := 0, heap }

end Control

namespace Represents

variable {heap : Control port} {tail : Ends} {front back : List Block} {size nextSize : Nat}
  {nodes before after : List Nat}

/-- Absorbing a free successor removes it from the free list and leaves one used
block. -/
theorem absorb_next (rep : Represents heap (front ++ ⟨size, .used⟩ :: ⟨nextSize, .free⟩ :: back)
      (before ++ (heap.firstBlock + total front + size) :: after) tail) :
    ∃ memory, heap.absorbNext (heap.firstBlock + total front)
        (heap.firstBlock + total front + size) (size + nextSize) nextSize =
        heap.renew memory { heap.stats with
          freeBlocks := decrement heap.stats.freeBlocks
          freeSize := port.sub heap.stats.freeSize nextSize } ∧
      ∀ stats, Represents (heap.renew memory stats) (front ++ ⟨size + nextSize, .used⟩ :: back)
        (before ++ after) tail := by
  have shape := rep.geometry
  have word := port.wordSize_pos
  have positive : 0 < size := shape.positive ⟨size, .used⟩ (by simp)
  have sizeEven : 2 ∣ size := shape.sizeEven ⟨size, .used⟩ (by simp)
  have wholeEven : 2 ∣ size + nextSize :=
    Nat.dvd_add sizeEven (shape.sizeEven ⟨nextSize, .free⟩ (by simp))
  obtain ⟨outer, inner, decoded⟩ := rep.decode
  obtain ⟨bounded, _, rfl, followingWord⟩ := decode_behind [⟨size, .used⟩] rep
  simp only [total_cons, total_nil, Nat.add_zero] at bounded followingWord
  have headEven : 2 ∣ headSize tail back :=
    headSize_even (front ++ [⟨size, .used⟩, ⟨nextSize, .free⟩]) (by simpa using rep)
  have afterSized : heap.firstBlock + total front + (size + nextSize) ∈
      sizedBlocks heap (front ++ ⟨size, .used⟩ :: ⟨nextSize, .free⟩ :: back) := by
    have cut := Geometry.cut_sized (front ++ [⟨size, .used⟩, ⟨nextSize, .free⟩]) back
      (by simpa using shape)
    simpa [Nat.add_assoc] using cut
  have place : blockAt port (heap.firstBlock + total front) (size + nextSize) =
      heap.firstBlock + total front + (size + nextSize) := port.add_of_lt _ _ (by omega)
  obtain ⟨linked, aheadLinked, behindLinked⟩ := rep.neighbours_linked
  obtain ⟨resized, resizedValue, view⟩ := (view_self heap _ _).block_set_size heap shape.apart _ size
    (size + nextSize) outer (Geometry.cut_sized front _ shape) decoded.header.1 sizeEven wholeEven
    (by omega)
  obtain ⟨removed, removedValue, view⟩ := View.free_list_remove
    (heap.renew resized heap.stats) view shape.apart _ linked aheadLinked behindLinked
  obtain ⟨memory, flagged, view⟩ := View.set_flag (heap.renew removed heap.stats) view
    shape.apart _ _ false afterSized ((update_of_ne (by omega) _ _).trans followingWord) headEven
  refine ⟨memory, ?_, ?_⟩
  · simp only [Control.absorbNext, resizedValue, removedValue, place, Control.renew_renew,
      Control.renew_stats, flagged, Control.countStats_renew]
  · apply merge ⟨size + nextSize, .used⟩ [⟨size, .used⟩, ⟨nextSize, .free⟩] rep (by simp)
      (by simp) (by simp) (by simp) decoded.header.1 rfl nofun view
    · exact ring_remove _ _ _ _ _ rep.ring
    · have listed := rep.listed
      simp only [freeAddresses_append, freeAddresses_cons, if_false, List.nil_append] at listed ⊢
      rw [← Nat.add_assoc]
      exact List.perm_inv_core listed
    · exact (update_of_ne (by omega) _ _).trans (update_self _ _ _)
    · exact update_self _ _ _
    · exact nofun
    · intro address outside
      simp only at outside
      exact (update_of_ne (by omega) _ _).trans (update_of_ne (by omega) _ _)
    · exact fun _ _ => rfl

end Represents

section Reallocate

variable {heap : Control port} {front back : List Block} {size : Nat} {nodes : List Nat}

/-- `_Heap_Block_allocate` of a block that is used already carves the allocation out
of it at its begin. -/
theorem blockAllocate_used (heap : Control port) (start allocSize : Nat)
    (sound : Consistent link heap (front ++ ⟨size, .used⟩ :: back) nodes)
    (nextSettled : ∀ next ∈ back.head?, next.use ≠ .free)
    (above : heap.firstBlock + total front + 2 * port.wordSize ≤ start)
    (near : start < heap.firstBlock + total front + 2 * port.wordSize + heap.pageSize)
    (below : start + allocSize ≤ heap.firstBlock + total front + size + port.wordSize) :
    ∃ memory, heap.blockAllocate (heap.firstBlock + total front) start allocSize =
        (heap.firstBlock + total front, heap.renew memory (leastStats (heap.carveStats heap.stats size
          (allocSize + (start - (heap.firstBlock + total front + 2 * port.wordSize)))))) ∧
      ∀ stats, Consistent link (heap.renew memory stats) (front ++ (heap.carve size
          (allocSize + (start - (heap.firstBlock + total front + 2 * port.wordSize))) ++ back))
        (heap.carveNodes (heap.firstBlock + total front) size
          (allocSize + (start - (heap.firstBlock + total front + 2 * port.wordSize))) ++ nodes) := by
  have rep := sound.represents
  have bounded := rep.size_bound
  have header : port.headerSize = 2 * port.wordSize := rfl
  have settled := sound.next_settled nextSettled
  obtain ⟨outer, inner, decoded⟩ := rep.decode
  have sizeValue : heap.blockSize (heap.firstBlock + total front) = size := decoded.blockSize rep
  have nextUsed : heap.isPrevUsed (heap.firstBlock + total front + size) = true :=
    (decoded.next_isPrevUsed rep).trans decoded.marks
  have areaValue : allocAreaOfBlock port (heap.firstBlock + total front) =
      heap.firstBlock + total front + 2 * port.wordSize := port.add_of_lt _ _ (by omega)
  have offsetValue : port.sub start (heap.firstBlock + total front + 2 * port.wordSize) =
      start - (heap.firstBlock + total front + 2 * port.wordSize) :=
    port.sub_of_le _ _ above (by omega)
  have nextPlace : blockAt port (heap.firstBlock + total front) size =
      heap.firstBlock + total front + size := port.add_of_lt _ _ (by omega)
  have offset : start - (heap.firstBlock + total front + 2 * port.wordSize) < heap.pageSize := by
    omega
  have sum : port.add allocSize (start - (heap.firstBlock + total front +
      2 * port.wordSize)) = allocSize + (start - (heap.firstBlock + total front +
      2 * port.wordSize)) := port.add_of_lt _ _ (by omega)
  obtain ⟨memory, splitValue, kept⟩ := Represents.split heap front [] nodes
    rep (.inr rfl) (allocSize + (start - (heap.firstBlock + total front + 2 * port.wordSize)))
    (by omega) rfl settled
  refine ⟨memory, ?_, fun stats => ⟨kept.congr_stats stats, ?_⟩⟩
  · simp only [final] at splitValue
    simp only [Control.blockAllocate, areaValue, offsetValue, sizeValue, nextPlace, nextUsed,
      if_true, offset, sum, Control.blockAllocateFromBegin, splitValue]
    rfl
  · intro block member
    simp only [List.mem_append] at member
    rcases member with member | member | member
    · exact sound.settled block (by simp [member])
    · exact carve_settled heap _ _ block member
    · exact sound.settled block (by simp [member])

end Reallocate

/-! ## The whole resize -/

/-- An address lies in the first page of the allocation area of a block. -/
def Locates (port : Port) (pageSize block allocBegin : Nat) : Prop :=
  block + 2 * port.wordSize ≤ allocBegin ∧ allocBegin < block + 2 * port.wordSize + pageSize

/-- The block of an allocation is found from its address by rounding down. -/
theorem Locates.block {heap : Control port} {nodes : List Nat} {tail : Ends} {front back : List Block}
    {start : Nat} (rep : Represents heap (front ++ back) nodes tail)
    (bounded : start < port.modulus)
    (locates : Locates port heap.pageSize (heap.firstBlock + total front) start) :
    blockOfAllocArea port start heap.pageSize = heap.firstBlock + total front := by
  have aligned := rep.block_aligned
  have rounded : down start heap.pageSize = heap.firstBlock + total front + 2 * port.wordSize := by
    have lower := le_down start heap.pageSize _ aligned locates.1
    have upper := down_le start heap.pageSize
    by_contra different
    have step := add_unit_le _ _ heap.pageSize aligned (down_dvd start heap.pageSize) (by omega)
    have near := locates.2
    omega
  have above := locates.1
  rw [blockOfAllocArea, alignDown, rounded, Port.headerSize, port.sub_of_le _ _ (by omega) (by omega)]
  omega

/-- The statistics of a successful resize. -/
def resizeStats (stats : Statistics) : Statistics :=
  { leastStats stats with resizes := increment stats.resizes }

/-- The outcomes of a resize of an allocation in terms of the block list: there is
not enough room, the block alone is carved, or it first absorbs its free successor. -/
inductive Resizing (heap : Control port) (allocBegin newSize : Nat) :
    List Block → List Nat → Nat → ResizeStatus → Control port → List Block → List Nat → Prop where
  | unsatisfied (blocks : List Block) (nodes : List Nat) (block : Nat) :
      Resizing heap allocBegin newSize blocks nodes block .unsatisfied heap blocks nodes
  | alone (front back : List Block) (size : Nat) (nodes : List Nat) (memory : Memory)
      (below : allocBegin + newSize ≤ heap.firstBlock + total front + size + port.wordSize)
      (notFree : ∀ next ∈ back.head?, next.use ≠ .free) :
      Resizing heap allocBegin newSize (front ++ ⟨size, .used⟩ :: back) nodes
        (heap.firstBlock + total front) .successful
        (heap.renew memory (resizeStats (heap.carveStats heap.stats size
          (newSize + (allocBegin - (heap.firstBlock + total front + 2 * port.wordSize))))))
        (front ++ (heap.carve size
          (newSize + (allocBegin - (heap.firstBlock + total front + 2 * port.wordSize))) ++ back))
        (heap.carveNodes (heap.firstBlock + total front) size
          (newSize + (allocBegin - (heap.firstBlock + total front + 2 * port.wordSize))) ++ nodes)
  | absorbing (front back : List Block) (size nextSize : Nat) (before after : List Nat)
      (memory : Memory)
      (below : allocBegin + newSize ≤
        heap.firstBlock + total front + (size + nextSize) + port.wordSize) :
      Resizing heap allocBegin newSize (front ++ ⟨size, .used⟩ :: ⟨nextSize, .free⟩ :: back)
        (before ++ (heap.firstBlock + total front + size) :: after)
        (heap.firstBlock + total front) .successful
        (heap.renew memory (resizeStats (heap.carveStats
          { heap.stats with
            freeBlocks := decrement heap.stats.freeBlocks
            freeSize := port.sub heap.stats.freeSize nextSize } (size + nextSize)
          (newSize + (allocBegin - (heap.firstBlock + total front + 2 * port.wordSize))))))
        (front ++ (heap.carve (size + nextSize)
          (newSize + (allocBegin - (heap.firstBlock + total front + 2 * port.wordSize))) ++ back))
        (heap.carveNodes (heap.firstBlock + total front) (size + nextSize)
          (newSize + (allocBegin - (heap.firstBlock + total front + 2 * port.wordSize))) ++
          (before ++ after))

section Resize

variable {heap : Control port} {front back : List Block} {size : Nat} {nodes : List Nat}

/-- `_Heap_Is_free` of the successor of a block. -/
theorem Consistent.isFree_next {block : Block}
    (sound : Consistent link heap (front ++ block :: back) nodes) :
    heap.isFree (heap.firstBlock + total front + block.size) = true ↔
      ∃ nextSize rest, back = ⟨nextSize, .free⟩ :: rest := by
  rw [← sound.next_is_free]
  simp only [Control.isFree, Control.isUsed, Bool.and_eq_true, decide_eq_true_eq]
  constructor
  · intro free
    refine ⟨fun place => ?_, free⟩
    -- The last block leads back to the first block, whose flag is set.
    have rep := sound.represents
    have positive := rep.geometry.positive
    have last := rep.geometry.last
    have empty : back = [] := by
      cases back with
      | nil => rfl
      | cons next rest =>
        have nonempty := positive next (by simp)
        simp only [total_append, total_cons] at last
        omega
    subst empty
    obtain ⟨follower, -, followerPlace, used⟩ := rep.follower_used rfl (by simp)
    rw [followerPlace, used] at free
    simp at free
  · exact fun both => both.2

/-- `_Heap_Resize_block` of an allocation that does not lie beyond its block, or
whose next block is free, keeps the heap consistent. -/
theorem resizeBlock_spec (sound : Consistent link heap (front ++ ⟨size, .used⟩ :: back) nodes)
    (start newSize : Nat)
    (locates : Locates port heap.pageSize (heap.firstBlock + total front) start)
    (reach : start ≤ heap.firstBlock + total front + size + port.wordSize ∨
      ∃ nextSize rest, back = ⟨nextSize, .free⟩ :: rest) :
    ∃ blocks' nodes', Resizing heap start newSize (front ++ ⟨size, .used⟩ :: back) nodes
        (heap.firstBlock + total front) (heap.resizeBlock start newSize).status
        (heap.resizeBlock start newSize).heap blocks' nodes' ∧
      Consistent link (heap.resizeBlock start newSize).heap blocks' nodes' := by
  have rep := sound.represents
  have geometry := rep.geometry
  have large := geometry.minLarge
  have pageMin := geometry.page_le_min
  have shape := geometry.shape ⟨size, .used⟩ (by simp)
  simp only at shape
  have last := geometry.last
  simp only [total_append] at last
  have blockBound := rep.size_bound
  obtain ⟨above, near⟩ := locates
  have bonus : port.allocBonus = port.wordSize := rfl
  have located : blockOfAllocArea port start heap.pageSize = heap.firstBlock + total front :=
    Locates.block rep (by omega) ⟨above, near⟩
  have blockIn : heap.isBlockInHeap (heap.firstBlock + total front) = true := by
    simp only [Control.isBlockInHeap, Bool.and_eq_true, decide_eq_true_eq]
    omega
  obtain ⟨outer, inner, decoded⟩ := rep.decode
  have sizeValue : heap.blockSize (heap.firstBlock + total front) = size := decoded.blockSize rep
  have nextPlace : port.add (heap.firstBlock + total front) size =
      heap.firstBlock + total front + size := port.add_of_lt _ _ (by omega)
  have isFree := sound.isFree_next
  simp only [Control.resizeBlock, located, blockIn, if_true, Control.resizeBlockChecked, sizeValue,
    nextPlace, blockAt, bonus]
  cases free : heap.isFree (heap.firstBlock + total front + size) with
  | false =>
    have notFree := head_not_free fun next => by
      rw [isFree.mpr next] at free
      cases free
    have inside : start ≤ heap.firstBlock + total front + size + port.wordSize := by
      rcases reach with inside | next
      · exact inside
      · have found := isFree.mpr next
        rw [free] at found
        simp at found
    have available : port.add (port.sub (heap.firstBlock + total front + size) start)
        port.wordSize = heap.firstBlock + total front + size + port.wordSize - start :=
      wrapAdd_wrapSub_of_le _ _ _ _ inside (by omega)
    simp only [Bool.false_eq_true, if_false]
    split
    · exact ⟨_, _, .unsatisfied _ _ _, sound⟩
    · obtain ⟨memory, value, kept⟩ := blockAllocate_used heap start newSize sound notFree above
        (by omega) (by omega)
      simp only [value]
      exact ⟨_, _, .alone front back size nodes memory (by omega) notFree, kept _⟩
  | true =>
    obtain ⟨nextSize, rest, rfl⟩ := isFree.mp free
    have upper : Consistent link heap ((front ++ [⟨size, .used⟩]) ++ ⟨nextSize, .free⟩ :: rest) nodes := by
      simpa using sound
    have place : heap.firstBlock + total (front ++ [⟨size, .used⟩]) =
        heap.firstBlock + total front + size := by simp [Nat.add_assoc]
    obtain ⟨before, after, rfl⟩ := upper.listed_split
    obtain ⟨nextOuter, nextInner, nextDecoded⟩ := upper.represents.decode
    have nextValue := nextDecoded.blockSize upper.represents
    have nextBound := upper.represents.block_bound
    have nextShape := geometry.shape ⟨nextSize, .free⟩ (by simp)
    rw [place] at nextValue nextBound sound rep ⊢
    simp only at nextValue nextBound nextShape
    have whole : port.add size nextSize = size + nextSize := port.add_of_lt _ _ (by omega)
    have available : port.add (port.add (port.sub (heap.firstBlock + total front + size) start)
        port.wordSize) nextSize =
        heap.firstBlock + total front + (size + nextSize) + port.wordSize - start := by
      have regrouped : port.add (port.add (port.sub (heap.firstBlock + total front + size)
          start) port.wordSize) nextSize =
          port.add (port.sub (heap.firstBlock + total front + size) start)
            (port.wordSize + nextSize) := by
        simp only [Port.add, wrapAdd, Nat.mod_add_mod, Nat.add_assoc]
      rw [regrouped, Port.add, Port.sub, wrapAdd_wrapSub_of_le _ _ _ _ (by omega) (by omega)]
      omega
    simp only [nextValue, whole, if_true]
    split
    · exact ⟨_, _, .unsatisfied _ _ _, sound⟩
    · rename_i fits
      obtain ⟨absorbed, absorbedValue, kept⟩ := rep.absorb_next
      have notFree := upper.represents.next_not_free rfl
      have below : start + newSize ≤
          heap.firstBlock + total front + (size + nextSize) + port.wordSize := by omega
      obtain ⟨memory, value, carved⟩ := blockAllocate_used (heap.renew absorbed { heap.stats with
            freeBlocks := decrement heap.stats.freeBlocks
            freeSize := port.sub heap.stats.freeSize nextSize })
        start newSize (.merge [⟨size, .used⟩, ⟨nextSize, .free⟩]
          sound (kept _) (by simp)) notFree above near below
      simp only [Control.renew_firstBlock] at value
      simp only [absorbedValue, value]
      exact ⟨_, _, .absorbing front rest size nextSize before after memory below, carved _⟩

end Resize

end Rtems.Heap
