import Rtems.Heap.BlockAllocate

/-!
# Freeing a block

`_Heap_Free` finds the block below the address, decides from the flags of three
neighbouring headers which of the two neighbours are free, and merges with them.
The four cases edit the block list and the free list in different ways: a block
without free neighbours enters the free list at its head, a block below a free
block takes its place in the list, a block above a free block changes nothing in
the list, and a block between two free blocks removes the upper one.
-/

namespace Rtems.Heap

open ByteMemory LinkRing Alignment
open Function (update_of_ne update_self)
open List (mem_append mem_cons)

variable {port : Port} {link : Nat → Nat}

namespace Control

/-- The "coalesce both" branch of `_Heap_Free`. -/
def coalesceBoth (heap : Control port) (prevBlock nextBlock size : Nat) : Control port :=
  let heap := heap.freeListRemove nextBlock
  let heap := heap.countStats fun stats =>
    { stats with freeBlocks := decrement stats.freeBlocks }
  let heap := heap.setSizeAndFlag prevBlock (size ||| prevBlockUsed)
  let nextBlock := blockAt port prevBlock size
  heap.setPrevSize nextBlock size

/-- The "coalesce prev" branch of `_Heap_Free`. -/
def coalescePrev (heap : Control port) (prevBlock nextBlock size : Nat) : Control port :=
  let heap := heap.setSizeAndFlag prevBlock (size ||| prevBlockUsed)
  let heap := heap.setSizeAndFlag nextBlock (clearFlag (heap.sizeAndFlag nextBlock))
  heap.setPrevSize nextBlock size

/-- The "coalesce next" branch of `_Heap_Free`. -/
def coalesceNext (heap : Control port) (block nextBlock size : Nat) : Control port :=
  let heap := heap.freeListReplace nextBlock block
  let heap := heap.setSizeAndFlag block (size ||| prevBlockUsed)
  let nextBlock := blockAt port block size
  heap.setPrevSize nextBlock size

/-- The "no coalesce" branch of `_Heap_Free`. -/
def noCoalesce (heap : Control port) (block nextBlock blockSize : Nat) : Control port :=
  let heap := heap.freeListInsertAfter heap.freeList block
  let heap := heap.setSizeAndFlag block (blockSize ||| prevBlockUsed)
  let heap := heap.setSizeAndFlag nextBlock (clearFlag (heap.sizeAndFlag nextBlock))
  let heap := heap.setPrevSize nextBlock blockSize
  let heap := heap.countStats fun stats =>
    { stats with freeBlocks := increment stats.freeBlocks }
  heap.countStats fun stats =>
    { stats with maxFreeBlocks := max stats.maxFreeBlocks stats.freeBlocks }

/-- The statistics at the end of `_Heap_Free`. -/
def countFree (heap : Control port) (blockSize : Nat) : Control port :=
  heap.countStats fun stats =>
    { stats with
      usedBlocks := decrement stats.usedBlocks
      frees := increment stats.frees
      freeSize := port.add stats.freeSize blockSize
      lifetimeFreed := wrapAdd (2 ^ 64) stats.lifetimeFreed blockSize }

/-- `_Heap_Free`. -/
def heapFree (heap : Control port) (allocBegin : Nat) : Bool × Control port :=
  if allocBegin = 0 then (true, heap)
  else
    let block := blockOfAllocArea port allocBegin heap.pageSize
    if ¬ heap.isBlockInHeap block then (false, heap)
    else
      let blockSize := heap.blockSize block
      let nextBlock := blockAt port block blockSize
      if ¬ heap.isBlockInHeap nextBlock then (false, heap)
      else if ¬ heap.isPrevUsed nextBlock then (false, heap)
      else
        let nextBlockSize := heap.blockSize nextBlock
        let nextIsFree := decide (nextBlock ≠ heap.lastBlock) &&
          !heap.isPrevUsed (blockAt port nextBlock nextBlockSize)
        if ¬ heap.isPrevUsed block then
          let prevSize := heap.prevSize block
          let prevBlock := blockAt port block (port.sub 0 prevSize)
          if ¬ heap.isBlockInHeap prevBlock then (false, heap)
          -- As we always coalesce free blocks, the block that precedes prevBlock must have been used.
          else if ¬ heap.isPrevUsed prevBlock then (false, heap)
          else if nextIsFree then
            let size := port.add (port.add blockSize prevSize) nextBlockSize
            (true, (heap.coalesceBoth prevBlock nextBlock size).countFree blockSize)
          else
            let size := port.add blockSize prevSize
            (true, (heap.coalescePrev prevBlock nextBlock size).countFree blockSize)
        else if nextIsFree then
          let size := port.add blockSize nextBlockSize
          (true, (heap.coalesceNext block nextBlock size).countFree blockSize)
        else (true, (heap.noCoalesce block nextBlock blockSize).countFree blockSize)

end Control

/-! ## The four merges -/

namespace Represents

variable {heap : Control port} {tail : Ends} {front back : List Block}
  {size prevSize nextSize : Nat}
  {nodes before after : List Nat}

/-- A region of blocks without gaps behind a used block is merged into one free block, after its
free blocks have left the free list. The flag of the following block is cleared if it is set. -/
theorem release (whole : Nat) (middle : List Block)
    (rep : Represents heap (front ++ (middle ++ back)) nodes tail)
    (covered : total middle = whole) (solid : ∀ block ∈ middle, block.use ≠ .gap)
    (nonempty : middle ≠ []) (prevUsed :
      heap.sizeAndFlag (heap.firstBlock + total front) = headSize tail (middle ++ back) + true.toNat)
    (marked : Bool) (following : heap.sizeAndFlag (heap.firstBlock + total front + whole) =
      headSize tail back + marked.toNat) (nextSettled : ∀ next ∈ back.head?, next.use ≠ .free)
    {listed : Memory} {links : Links Nat} {merged : List Nat} (view : View port listed
      (sizedBlocks heap (front ++ (middle ++ back))) (linkedBlocks heap (front ++ (middle ++ back)))
      { heap.headers with links }) (ring : Ring links heap.freeList merged)
    (members : merged.Perm (freeAddresses heap.firstBlock (front ++ ⟨whole, .free⟩ :: back))) :
    ∃ memory, (let block := heap.firstBlock + total front
      let heap := (heap.renew listed heap.stats).setSizeAndFlag block (whole ||| prevBlockUsed)
      let heap := if marked then
          heap.setSizeAndFlag (block + whole) (clearFlag (heap.sizeAndFlag (block + whole)))
        else heap
      heap.setPrevSize (block + whole) whole) = heap.renew memory heap.stats ∧
      ∀ stats, Represents (heap.renew memory stats) (front ++ ⟨whole, .free⟩ :: back) merged tail := by
  have shape := rep.geometry
  have word := port.wordSize_pos
  obtain ⟨edited, -, -⟩ := shape.merge ⟨whole, .free⟩ covered solid nonempty (by simp)
  have even : 2 ∣ whole := edited.sizeEven ⟨whole, .free⟩ (by simp)
  have pos : 0 < whole := edited.positive ⟨whole, .free⟩ (by simp)
  have last := edited.last
  have bounded := edited.bounded
  simp only [total_append, total_cons] at last
  have nextSized : heap.firstBlock + total front + whole ∈
      sizedBlocks heap (front ++ (middle ++ back)) := by
    simpa [covered, Nat.add_assoc] using
      Geometry.cut_sized (front ++ middle) back (by simpa using shape)
  have headEven : 2 ∣ headSize tail back := headSize_even (front ++ middle) (by simpa using rep)
  have view := view.write_sizeAndFlag shape.apart _ (whole + 1)
    (Geometry.cut_sized front _ shape) (by omega)
  have flagged : whole ||| prevBlockUsed = whole + 1 := or_flag _ even true
  dsimp only
  rw [flagged, Control.renew_setSizeAndFlag]
  generalize store listed _ _ _ = written at view
  obtain ⟨cleared, value, view⟩ := View.clear_marked (heap.renew written heap.stats) view
    shape.apart _ _ marked nextSized ((update_of_ne (by omega) _ _).trans following) headEven
  rw [value]
  have view := view.write_prevSize shape.apart _ whole nextSized (by omega)
  refine ⟨_, rfl, merge ⟨whole, .free⟩ middle rep covered solid nonempty (by simp) prevUsed
    rfl (fun _ => nextSettled) view ring members ?_ (update_self _ _ _)
    (fun _ => ⟨rfl, update_self _ _ _⟩) ?_ ?_⟩
  · simp only
    rw [update_of_ne (by omega), update_self, Bool.toNat_true]
  · intro address outside
    simp only at outside
    exact (update_of_ne (by omega) _ _).trans (update_of_ne (by omega) _ _)
  · intro address outside
    exact update_of_ne (by simp only at outside; omega) _ _

/-- A used block between two blocks that are not free becomes free and the first
member of the free list. -/
theorem no_coalesce (rep : Represents heap (front ++ ⟨size, .used⟩ :: back) nodes tail)
    (prevUsed : heap.isPrevUsed (heap.firstBlock + total front) = true)
    (nextSettled : ∀ next ∈ back.head?, next.use ≠ .free) :
    ∃ memory, heap.noCoalesce (heap.firstBlock + total front)
        (heap.firstBlock + total front + size) size =
        heap.renew memory { heap.stats with
          freeBlocks := increment heap.stats.freeBlocks
          maxFreeBlocks := max heap.stats.maxFreeBlocks (increment heap.stats.freeBlocks) } ∧
      ∀ stats, Represents (heap.renew memory stats) (front ++ ⟨size, .free⟩ :: back)
        ((heap.firstBlock + total front) :: nodes) tail := by
  have shape := rep.geometry
  have word := port.wordSize_pos
  have bounded := rep.size_bound
  have pos : 0 < size := shape.positive ⟨size, .used⟩ (by simp)
  obtain ⟨outer, inner, decoded⟩ := rep.decode
  obtain rfl : outer = true := (decoded.isPrevUsed rep).symm.trans prevUsed
  obtain rfl : inner = true := decoded.marks
  have freshNode := rep.fresh (by simp) (by simp) 0 pos
  obtain ⟨anchorLinked, aheadLinked⟩ := anchor_linked [] nodes rep
  obtain ⟨listed, listedValue, view⟩ := (view_self heap _ _).free_list_insert_after heap shape.apart
    heap.freeList (heap.firstBlock + total front) anchorLinked
    (.inr ⟨⟨size, .used⟩, by simp, by simp⟩) aheadLinked
    (shape.linked_bound _ anchorLinked) (by omega)
  have ring := ring_insert_after _ _ _ [] nodes rep.ring freshNode
  have members := rep.listed
  simp only [freeAddresses_append, freeAddresses_cons, reduceCtorEq, if_false, List.nil_append]
    at members
  obtain ⟨memory, value, merged⟩ := release size [⟨size, .used⟩] rep (by simp) (by simp)
    (by simp) decoded.header.1 true decoded.next_word nextSettled view ring (by
      simp only [freeAddresses_append, freeAddresses_cons, if_true, List.singleton_append]
      exact perm_insert _ [] _ _ _ members)
  refine ⟨memory, ?_, merged⟩
  simp only [if_true] at value
  simp only [Control.noCoalesce, listedValue, value, Control.countStats_renew]

/-- A used block below a free block takes the place of the free block. -/
theorem coalesce_next (rep : Represents heap (front ++ ⟨size, .used⟩ :: ⟨nextSize, .free⟩ ::
      back) (before ++ (heap.firstBlock + total front + size) :: after) tail)
    (prevUsed : heap.isPrevUsed (heap.firstBlock + total front) = true) :
    ∃ memory, heap.coalesceNext (heap.firstBlock + total front)
        (heap.firstBlock + total front + size) (size + nextSize) = heap.renew memory heap.stats ∧
      ∀ stats, Represents (heap.renew memory stats) (front ++ ⟨size + nextSize, .free⟩ :: back)
        (before ++ (heap.firstBlock + total front) :: after) tail := by
  have shape := rep.geometry
  have word := port.wordSize_pos
  have upper : Represents heap ((front ++ [⟨size, .used⟩]) ++ ⟨nextSize, .free⟩ :: back)
      (before ++ (heap.firstBlock + total front + size) :: after) tail := by
    simpa using rep
  have pos : 0 < size := shape.positive ⟨size, .used⟩ (by simp)
  obtain ⟨outer, inner, decoded⟩ := rep.decode
  obtain rfl : outer = true := (decoded.isPrevUsed rep).symm.trans prevUsed
  obtain ⟨bounded, _, rfl, followingWord⟩ := decode_behind [⟨size, .used⟩] rep
  simp only [total_cons, total_nil, Nat.add_zero] at bounded followingWord
  have freshNode := rep.fresh (by simp) (by simp) 0 pos
  have place : blockAt port (heap.firstBlock + total front) (size + nextSize) =
      heap.firstBlock + total front + (size + nextSize) := port.add_of_lt _ _ (by omega)
  obtain ⟨linked, aheadLinked, behindLinked⟩ := rep.neighbours_linked
  obtain ⟨replaced, replacedValue, view⟩ := (view_self heap _ _).free_list_replace shape.apart
    _ (heap.firstBlock + total front) linked (.inr ⟨⟨size, .used⟩, by simp, by simp⟩) aheadLinked
    behindLinked (by omega)
  have ring := ring_replace _ _ _ _ _ _ rep.ring (by
    simp only [mem_cons, mem_append, not_or] at freshNode ⊢
    tauto)
  have members := rep.listed
  simp only [freeAddresses_append, freeAddresses_cons, reduceCtorEq, if_false, if_true,
    List.nil_append, List.singleton_append] at members
  have removed := List.perm_inv_core members
  rw [Nat.add_assoc (heap.firstBlock + total front)] at removed
  obtain ⟨memory, value, merged⟩ := release (size + nextSize) [⟨size, .used⟩, ⟨nextSize, .free⟩]
    rep (by simp) (by simp) (by simp) decoded.header.1 false followingWord
    (upper.next_not_free rfl) view ring (by
      simp only [freeAddresses_append, freeAddresses_cons, if_true, List.singleton_append]
      exact perm_insert _ _ _ _ _ removed)
  refine ⟨memory, ?_, merged⟩
  simpa only [Control.coalesceNext, replacedValue, place, Bool.false_eq_true, if_false] using value

/-- A used block above a free block is added to the free block. -/
theorem coalesce_prev (rep : Represents heap (front ++ ⟨prevSize, .free⟩ :: ⟨size, .used⟩ ::
      back) nodes tail) (nextSettled : ∀ next ∈ back.head?, next.use ≠ .free) :
    ∃ memory, heap.coalescePrev (heap.firstBlock + total front)
        (heap.firstBlock + total front + prevSize + size) (prevSize + size) =
        heap.renew memory heap.stats ∧
      ∀ stats, Represents (heap.renew memory stats) (front ++ ⟨prevSize + size, .free⟩ :: back)
        nodes tail := by
  obtain ⟨outer, inner, decoded⟩ := rep.decode
  obtain rfl : outer = true := (decoded.header.2.1 rfl).1
  obtain ⟨-, _, rfl, followingWord⟩ := decode_behind [⟨prevSize, .free⟩] rep
  simp only [total_cons, total_nil, Nat.add_zero] at followingWord
  have members := rep.listed
  obtain ⟨memory, value, merged⟩ := release (prevSize + size) [⟨prevSize, .free⟩, ⟨size, .used⟩]
    rep (by simp) (by simp) (by simp) decoded.header.1 true followingWord nextSettled
    (view_self heap _ _) rep.ring (by simpa [freeAddresses_cons, Nat.add_assoc] using members)
  refine ⟨memory, ?_, merged⟩
  rw [Nat.add_assoc (heap.firstBlock + total front)]
  exact value

/-- A used block between two free blocks joins them. -/
theorem coalesce_both (rep : Represents heap
      (front ++ ⟨prevSize, .free⟩ :: ⟨size, .used⟩ :: ⟨nextSize, .free⟩ :: back)
      (before ++ (heap.firstBlock + total front + prevSize + size) :: after) tail) :
    ∃ memory, heap.coalesceBoth (heap.firstBlock + total front)
        (heap.firstBlock + total front + prevSize + size) (prevSize + size + nextSize) =
        heap.renew memory { heap.stats with freeBlocks := decrement heap.stats.freeBlocks } ∧
      ∀ stats, Represents (heap.renew memory stats)
        (front ++ ⟨prevSize + size + nextSize, .free⟩ :: back) (before ++ after) tail := by
  have upper : Represents heap ((front ++ [⟨prevSize, .free⟩, ⟨size, .used⟩]) ++
      ⟨nextSize, .free⟩ :: back)
      (before ++ (heap.firstBlock + total front + prevSize + size) :: after) tail := by
    simpa using rep
  obtain ⟨outer, inner, decoded⟩ := rep.decode
  obtain rfl : outer = true := (decoded.header.2.1 rfl).1
  obtain ⟨bounded, _, rfl, followingWord⟩ := decode_behind [⟨prevSize, .free⟩, ⟨size, .used⟩] rep
  simp only [total_cons, total_nil, Nat.add_zero] at bounded followingWord
  have place : blockAt port (heap.firstBlock + total front) (prevSize + size + nextSize) =
      heap.firstBlock + total front + (prevSize + size + nextSize) := port.add_of_lt _ _ (by omega)
  obtain ⟨linked, aheadLinked, behindLinked⟩ := rep.neighbours_linked
  obtain ⟨removed, removedValue, view⟩ := (view_self heap _ _).free_list_remove heap
    rep.geometry.apart _ linked aheadLinked behindLinked
  have listed := rep.listed
  have regrouped : freeAddresses heap.firstBlock
      (front ++ ⟨prevSize, .free⟩ :: ⟨size, .used⟩ :: ⟨nextSize, .free⟩ :: back) =
      (freeAddresses heap.firstBlock front ++ [heap.firstBlock + total front]) ++
        (heap.firstBlock + total front + prevSize + size) ::
          freeAddresses (heap.firstBlock + total front + prevSize + size + nextSize) back := by
    simp [freeAddresses_cons]
  rw [regrouped] at listed
  have kept := List.perm_inv_core listed
  obtain ⟨memory, value, merged⟩ := release (prevSize + size + nextSize)
    [⟨prevSize, .free⟩, ⟨size, .used⟩, ⟨nextSize, .free⟩] rep (by simp [Nat.add_assoc])
    (by simp) (by simp) decoded.header.1 false followingWord (upper.next_not_free rfl) view
    (ring_remove _ _ _ _ _ rep.ring)
    (by simpa [freeAddresses_cons, Nat.add_assoc] using kept)
  refine ⟨_, ?_, merged⟩
  simp only [Bool.false_eq_true, if_false] at value
  simp only [Control.coalesceBoth, removedValue, place, Control.countStats_setSizeAndFlag,
    Control.countStats_setPrevSize]
  rw [value, Control.countStats_renew]

end Represents

/-! ## The decision between the merges -/

/-- The statistics at the end of a successful free. -/
def freeStats (port : Port) (stats : Statistics) (size : Nat) : Statistics :=
  { stats with
    usedBlocks := decrement stats.usedBlocks
    frees := increment stats.frees
    freeSize := port.add stats.freeSize size
    lifetimeFreed := wrapAdd (2 ^ 64) stats.lifetimeFreed size }

/-- The outcomes of freeing a used block in terms of the block list. -/
inductive Release (heap : Control port) : List Block → List Nat → Nat → Nat →
    Control port → List Block → List Nat → Prop where
  | alone (front back : List Block) (size : Nat) (nodes : List Nat) (memory : Memory) :
      Release heap (front ++ ⟨size, .used⟩ :: back) nodes (heap.firstBlock + total front) size
        (heap.renew memory (freeStats port { heap.stats with
          freeBlocks := increment heap.stats.freeBlocks
          maxFreeBlocks := max heap.stats.maxFreeBlocks (increment heap.stats.freeBlocks) } size))
        (front ++ ⟨size, .free⟩ :: back) ((heap.firstBlock + total front) :: nodes)
  | next (front back : List Block) (size nextSize : Nat) (before after : List Nat)
      (memory : Memory) :
      Release heap (front ++ ⟨size, .used⟩ :: ⟨nextSize, .free⟩ :: back)
        (before ++ (heap.firstBlock + total front + size) :: after) (heap.firstBlock + total front)
        size (heap.renew memory (freeStats port heap.stats size))
        (front ++ ⟨size + nextSize, .free⟩ :: back)
        (before ++ (heap.firstBlock + total front) :: after)
  | prev (front back : List Block) (prevSize size : Nat) (nodes : List Nat) (memory : Memory) :
      Release heap (front ++ ⟨prevSize, .free⟩ :: ⟨size, .used⟩ :: back) nodes
        (heap.firstBlock + total front + prevSize) size
        (heap.renew memory (freeStats port heap.stats size))
        (front ++ ⟨prevSize + size, .free⟩ :: back) nodes
  | both (front back : List Block) (prevSize size nextSize : Nat) (before after : List Nat)
      (memory : Memory) :
      Release heap (front ++ ⟨prevSize, .free⟩ :: ⟨size, .used⟩ :: ⟨nextSize, .free⟩ :: back)
        (before ++ (heap.firstBlock + total front + prevSize + size) :: after)
        (heap.firstBlock + total front + prevSize) size
        (heap.renew memory (freeStats port
          { heap.stats with freeBlocks := decrement heap.stats.freeBlocks } size))
        (front ++ ⟨prevSize + size + nextSize, .free⟩ :: back) (before ++ after)

section Free

variable {heap : Control port} {front back : List Block} {size : Nat} {nodes : List Nat}

section

variable {block : Block} (sound : Consistent link heap (front ++ block :: back) nodes)
include sound

/-- A cleared flag means that the preceding block is free. -/
theorem Consistent.prev_free (flag : heap.isPrevUsed (heap.firstBlock + total front) = false) :
    ∃ rest prevSize, front = rest ++ [⟨prevSize, .free⟩] := by
  have rep := sound.represents
  rcases List.eq_nil_or_concat front with rfl | ⟨rest, prev, rfl⟩
  · obtain ⟨outer, inner, decoded⟩ := rep.decode
    have first : outer = true := decoded.before
    have read := decoded.isPrevUsed rep
    rw [first, flag] at read
    exact absurd read (by simp)
  · simp only [List.concat_eq_append] at *
    have regrouped : rest ++ [prev] ++ block :: back = rest ++ prev :: block :: back := by simp
    rw [regrouped] at rep
    obtain ⟨outer, inner, decoded⟩ := rep.decode
    have read := decoded.next_isPrevUsed rep
    have place : heap.firstBlock + total (rest ++ [prev]) =
        heap.firstBlock + total rest + prev.size := by simp [Nat.add_assoc]
    rw [← place, flag] at read
    subst read
    have marks := decoded.marks
    have settled := sound.settled prev (by simp)
    obtain ⟨prevSize, use⟩ := prev
    cases use with
    | free => exact ⟨rest, prevSize, rfl⟩
    | used | gap => exact absurd marks (by simp [Marks])
    | pending => exact absurd rfl settled

/-- The test for a free successor. -/
theorem Consistent.next_is_free :
    (decide (heap.firstBlock + total front + block.size ≠ heap.lastBlock) &&
      !heap.isPrevUsed (blockAt port (heap.firstBlock + total front + block.size)
        (heap.blockSize (heap.firstBlock + total front + block.size)))) = true ↔
      ∃ nextSize rest, back = ⟨nextSize, .free⟩ :: rest := by
  have rep := sound.represents
  have shape := rep.geometry
  have last := shape.last
  cases back with
  | nil =>
    have place : heap.firstBlock + total front + block.size = heap.lastBlock := by
      simp only [total_append, total_cons, total_nil] at last
      omega
    simp [place]
  | cons next rest =>
    have upper : Represents heap ((front ++ [block]) ++ next :: rest) nodes
        ⟨port.sub heap.firstBlock heap.lastBlock, link⟩ := by simpa using rep
    have place : heap.firstBlock + total (front ++ [block]) =
        heap.firstBlock + total front + block.size := by simp [Nat.add_assoc]
    have pos := shape.positive next (by simp)
    have below : heap.firstBlock + total front + block.size ≠ heap.lastBlock := by
      simp only [total_append, total_cons] at last
      omega
    obtain ⟨outer, inner, decoded⟩ := upper.decode
    have sizeValue := decoded.blockSize upper
    have flag := decoded.next_isPrevUsed upper
    have bounded := upper.block_bound
    rw [place] at sizeValue flag bounded
    have follower : blockAt port (heap.firstBlock + total front + block.size) next.size =
        heap.firstBlock + total front + block.size + next.size := port.add_of_lt _ _ (by omega)
    rw [sizeValue, follower, flag]
    have marks := decoded.marks
    have settled := sound.settled next (by simp)
    obtain ⟨nextSize, use⟩ := next
    cases use with
    | free | used | gap => simpa [below, Marks] using marks
    | pending => exact absurd rfl settled

end

/-- The distance back to the previous block, taken as a wrapped offset. -/
theorem blockAt_neg (block distance : Nat) (pos : 0 < distance) (below : distance ≤ block)
    (bounded : block < port.modulus) :
    blockAt port block (port.sub 0 distance) = block - distance := by
  have negative : port.sub 0 distance = port.modulus - distance := by
    rw [Port.sub, wrapSub_of_lt _ _ _ pos (by omega)]
    omega
  rw [negative, blockAt, Port.add, wrapAdd, show block + (port.modulus - distance) =
    block - distance + port.modulus by omega, Nat.add_mod_right]
  exact Nat.mod_eq_of_lt (by omega)

/-- A merge keeps the list free of pending blocks. -/
theorem Consistent.merge {res : Control port} {block : Block} {nodes' : List Nat}
    (middle : List Block) (sound : Consistent link heap (front ++ (middle ++ back)) nodes)
    (rep : Represents res (front ++ block :: back) nodes'
      ⟨port.sub res.firstBlock res.lastBlock, link⟩) (settled : block.use ≠ .pending) :
    Consistent link res (front ++ block :: back) nodes' := by
  refine ⟨rep, fun other member => ?_⟩
  have kept := sound.settled other
  simp only [mem_append, mem_cons] at member kept
  rcases member with inside | rfl | inside
  · exact kept (.inl inside)
  · exact settled
  · exact kept (.inr (.inr inside))

/-- The block behind is not free if no free one heads the rest. -/
theorem head_not_free (none : ¬ ∃ nextSize rest, back = ⟨nextSize, .free⟩ :: rest) :
    ∀ next ∈ back.head?, next.use ≠ .free := by
  rintro ⟨nextSize, use⟩ member rfl
  exact none ⟨nextSize, back.tail, (List.cons_head?_tail member).symm⟩

/-- A free block of the list is a member of the free list. -/
theorem Consistent.listed_split {nextSize : Nat}
    (sound : Consistent link heap (front ++ ⟨nextSize, .free⟩ :: back) nodes) :
    ∃ before after, nodes = before ++ (heap.firstBlock + total front) :: after := by
  have member : heap.firstBlock + total front ∈ nodes := by
    rw [sound.represents.listed.mem_iff, mem_freeAddresses]
    exact ⟨nextSize, by simp⟩
  exact List.append_of_mem member

/-- Freeing a block whose predecessor is used. -/
theorem free_without_prev (sound : Consistent link heap (front ++ ⟨size, .used⟩ :: back) nodes)
    (prevUsed : heap.isPrevUsed (heap.firstBlock + total front) = true) :
    ∃ res blocks' nodes', (if (decide (heap.firstBlock + total front + size ≠ heap.lastBlock) &&
          !heap.isPrevUsed (blockAt port (heap.firstBlock + total front + size)
            (heap.blockSize (heap.firstBlock + total front + size)))) = true then
        (heap.coalesceNext (heap.firstBlock + total front) (heap.firstBlock + total front + size)
          (port.add size (heap.blockSize (heap.firstBlock + total front + size)))).countFree size
      else (heap.noCoalesce (heap.firstBlock + total front)
        (heap.firstBlock + total front + size) size).countFree size) = res ∧
      Release heap (front ++ ⟨size, .used⟩ :: back) nodes (heap.firstBlock + total front) size
        res blocks' nodes' ∧ Consistent link res blocks' nodes' := by
  have rep := sound.represents
  have nextFree := sound.next_is_free
  split
  · rename_i free
    obtain ⟨nextSize, rest, rfl⟩ := nextFree.mp free
    have upper : Consistent link heap ((front ++ [⟨size, .used⟩]) ++ ⟨nextSize, .free⟩ :: rest) nodes := by
      simpa using sound
    have place : heap.firstBlock + total (front ++ [⟨size, .used⟩]) =
        heap.firstBlock + total front + size := by simp [Nat.add_assoc]
    obtain ⟨before, after, rfl⟩ := upper.listed_split
    obtain ⟨outer, inner, decoded⟩ := upper.represents.decode
    have sizeValue := decoded.blockSize upper.represents
    have bounded := upper.represents.block_bound
    rw [place] at sizeValue bounded sound rep ⊢
    simp only at sizeValue bounded
    have sum : port.add size nextSize = size + nextSize := port.add_of_lt _ _ (by omega)
    obtain ⟨memory, value, kept⟩ := rep.coalesce_next prevUsed
    refine ⟨_, _, _, ?_, .next front rest size nextSize before after memory, ?_⟩
    · rw [sizeValue, sum, value]
      rfl
    · exact Consistent.merge [⟨size, .used⟩, ⟨nextSize, .free⟩] sound (kept _) (by simp)
  · rename_i notFree
    have settled := head_not_free (mt nextFree.mpr notFree)
    obtain ⟨memory, value, kept⟩ := rep.no_coalesce prevUsed settled
    refine ⟨_, _, _, ?_, .alone front back size nodes memory, ?_⟩
    · rw [value]
      rfl
    · exact Consistent.merge [⟨size, .used⟩] sound (kept _) (by simp)

/-- Freeing a block whose predecessor is free. -/
theorem free_with_prev {prevSize : Nat} (sound : Consistent link heap (front ++ ⟨prevSize,
      .free⟩ :: ⟨size, .used⟩ :: back) nodes) :
    ∃ res blocks' nodes',
      (if (decide (heap.firstBlock + total front + prevSize + size ≠ heap.lastBlock) &&
          !heap.isPrevUsed (blockAt port (heap.firstBlock + total front + prevSize + size)
            (heap.blockSize (heap.firstBlock + total front + prevSize + size)))) = true then
        (heap.coalesceBoth (heap.firstBlock + total front)
          (heap.firstBlock + total front + prevSize + size) (port.add (port.add size prevSize)
            (heap.blockSize (heap.firstBlock + total front + prevSize + size)))).countFree size
      else (heap.coalescePrev (heap.firstBlock + total front)
        (heap.firstBlock + total front + prevSize + size) (port.add size prevSize)).countFree
          size) = res ∧ Release heap (front ++ ⟨prevSize, .free⟩ :: ⟨size, .used⟩ :: back) nodes
        (heap.firstBlock + total front + prevSize) size res blocks' nodes' ∧
      Consistent link res blocks' nodes' := by
  have rep := sound.represents
  have upper : Consistent link heap ((front ++ [⟨prevSize, .free⟩]) ++ ⟨size, .used⟩ :: back) nodes := by
    simpa using sound
  have place : heap.firstBlock + total (front ++ [⟨prevSize, .free⟩]) =
      heap.firstBlock + total front + prevSize := by simp [Nat.add_assoc]
  have nextFree := upper.next_is_free
  have bounded := upper.represents.block_bound
  rw [place] at nextFree bounded
  simp only at nextFree bounded
  have sum : port.add size prevSize = prevSize + size := by
    rw [port.add_of_lt _ _ (by omega)]
    omega
  split
  · rename_i free
    obtain ⟨nextSize, rest, rfl⟩ := nextFree.mp free
    have next : Consistent link heap ((front ++ [⟨prevSize, .free⟩, ⟨size, .used⟩]) ++
        ⟨nextSize, .free⟩ :: rest) nodes := by
      simpa using sound
    have nextPlace : heap.firstBlock + total (front ++ [⟨prevSize, .free⟩, ⟨size, .used⟩]) =
        heap.firstBlock + total front + prevSize + size := by simp [Nat.add_assoc]
    obtain ⟨before, after, rfl⟩ := next.listed_split
    obtain ⟨outer, inner, decoded⟩ := next.represents.decode
    have sizeValue := decoded.blockSize next.represents
    have bounded := next.represents.block_bound
    rw [nextPlace] at sizeValue bounded sound rep ⊢
    simp only at sizeValue bounded
    have whole : port.add (prevSize + size) nextSize = prevSize + size + nextSize :=
      port.add_of_lt _ _ (by omega)
    obtain ⟨memory, value, kept⟩ := rep.coalesce_both
    refine ⟨_, _, _, ?_, .both front rest prevSize size nextSize before after memory, ?_⟩
    · rw [sizeValue, sum, whole, value]
      rfl
    · exact Consistent.merge [⟨prevSize, .free⟩, ⟨size, .used⟩, ⟨nextSize, .free⟩] sound (kept _) (by simp)
  · rename_i notFree
    have settled := head_not_free (mt nextFree.mpr notFree)
    obtain ⟨memory, value, kept⟩ := rep.coalesce_prev settled
    refine ⟨_, _, _, ?_, .prev front back prevSize size nodes memory, ?_⟩
    · rw [sum, value]
      rfl
    · exact Consistent.merge [⟨prevSize, .free⟩, ⟨size, .used⟩] sound (kept _) (by simp)

/-- `_Heap_Free` of an address in a used block succeeds with one of the four merges
and keeps the heap consistent. -/
theorem heapFree_spec (sound : Consistent link heap (front ++ ⟨size, .used⟩ :: back) nodes)
    (allocBegin : Nat) (nonzero : allocBegin ≠ 0)
    (located : blockOfAllocArea port allocBegin heap.pageSize = heap.firstBlock + total front) :
    ∃ res blocks' nodes', heap.heapFree allocBegin = (true, res) ∧
      Release heap (front ++ ⟨size, .used⟩ :: back) nodes (heap.firstBlock + total front) size
        res blocks' nodes' ∧ Consistent link res blocks' nodes' := by
  have rep := sound.represents
  have shape := rep.geometry
  have last := shape.last
  simp only [total_append, total_cons] at last
  have bounded := rep.size_bound
  obtain ⟨outer, inner, decoded⟩ := rep.decode
  have sizeValue : heap.blockSize (heap.firstBlock + total front) = size := decoded.blockSize rep
  have nextPlace : blockAt port (heap.firstBlock + total front) size =
      heap.firstBlock + total front + size := port.add_of_lt _ _ (by omega)
  have nextUsed : heap.isPrevUsed (heap.firstBlock + total front + size) = true :=
    (decoded.next_isPrevUsed rep).trans decoded.marks
  have inHeap : ∀ address, heap.firstBlock ≤ address → address ≤ heap.lastBlock →
      heap.isBlockInHeap address = true := by
    intro address lower upper
    simp [Control.isBlockInHeap, lower, upper]
  have blockIn := inHeap (heap.firstBlock + total front) (by omega) (by omega)
  have nextIn := inHeap (heap.firstBlock + total front + size) (by omega) (by omega)
  simp only [Control.heapFree, nonzero, located, blockIn, sizeValue, nextPlace, nextIn, nextUsed]
  cases flag : heap.isPrevUsed (heap.firstBlock + total front) with
  | true =>
    obtain ⟨res, blocks', nodes', value, release, kept⟩ := free_without_prev sound flag
    refine ⟨res, blocks', nodes', ?_, release, kept⟩
    rw [← value]
    simp only [not_true_eq_false, if_false]
    split <;> rfl
  | false =>
    obtain ⟨rest, prevSize, rfl⟩ := sound.prev_free flag
    have regrouped : rest ++ [⟨prevSize, .free⟩] ++ ⟨size, .used⟩ :: back =
        rest ++ ⟨prevSize, .free⟩ :: ⟨size, .used⟩ :: back := by simp
    have place : heap.firstBlock + total (rest ++ [⟨prevSize, .free⟩]) =
        heap.firstBlock + total rest + prevSize := by simp [Nat.add_assoc]
    have length : total (rest ++ [⟨prevSize, .free⟩]) = total rest + prevSize := by simp
    simp only [regrouped, place] at *
    obtain ⟨prevOuter, prevInner, prevDecoded⟩ := rep.decode
    obtain ⟨prevUsed, repeated⟩ := prevDecoded.header.2.1 rfl
    have prevFlag := prevDecoded.isPrevUsed rep
    rw [prevUsed] at prevFlag
    have prevValue : heap.prevSize (heap.firstBlock + total rest + prevSize) = prevSize := repeated
    have pos : 0 < prevSize := shape.positive ⟨prevSize, .free⟩ (by simp)
    have prevPlace : blockAt port (heap.firstBlock + total rest + prevSize)
        (port.sub 0 prevSize) = heap.firstBlock + total rest := by
      rw [blockAt_neg _ _ pos (by omega) (by omega)]
      omega
    have prevIn := inHeap (heap.firstBlock + total rest) (by omega) (by omega)
    obtain ⟨res, blocks', nodes', value, release, kept⟩ := free_with_prev sound
    refine ⟨res, blocks', nodes', ?_, release, kept⟩
    rw [← value]
    simp only [Bool.false_eq_true, not_false_eq_true, if_true, prevValue, prevPlace, prevIn,
      prevFlag, not_true_eq_false, if_false]
    split <;> rfl

end Free

end Rtems.Heap
