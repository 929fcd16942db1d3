import Rtems.Heap.Runs

/-!
# Extending a heap

A heap can consist of several areas. The areas form a ring: the repeated size word
of the first block of an area, which no predecessor needs, holds the end of the
area, and the last block of an area has the size up to the first block of the next
one, so that it looks like a used block, a gap. `_Heap_Extend` follows this ring to
find the neighbours of the new area, then joins it with an adjacent area or links it
in, and hands its memory out with `_Heap_Free`.
-/

namespace Rtems.Heap

open ByteMemory LinkRing Alignment Transition

variable {port : Port} {link : Nat → Nat}

/-- The neighbours of an extension area. A zero is a null pointer. -/
structure Neighbours where
  mergeBelow : Nat := 0
  mergeAbove : Nat := 0
  linkBelow : Nat := 0
  linkAbove : Nat := 0

namespace Control

/-- `_Heap_Free_block`. -/
def freeBlock (heap : Control port) (block : Nat) : Control port :=
  let heap := heap.countStats fun stats =>
    { stats with
      usedBlocks := increment stats.usedBlocks
      frees := decrement stats.frees }
  let heap := (heap.heapFree (allocAreaOfBlock port block)).2
  let firstFree := heap.freeListFirst
  let heap := heap.freeListRemove firstFree
  heap.freeListInsertBefore heap.freeList firstFree

/-- `_Heap_Merge_below`. -/
def mergeBelow (heap : Control port) (extendAreaBegin firstBlock : Nat) : Control port :=
  let newFirstBlockAllocBegin :=
    alignUp port (port.add extendAreaBegin port.headerSize) heap.pageSize
  let newFirstBlock := port.sub newFirstBlockAllocBegin port.headerSize
  let newFirstBlockSize := port.sub firstBlock newFirstBlock
  let heap := heap.setPrevSize newFirstBlock (heap.prevSize firstBlock)
  let heap := heap.setSizeAndFlag newFirstBlock (newFirstBlockSize ||| prevBlockUsed)
  heap.freeBlock newFirstBlock

/-- `_Heap_Merge_above`. -/
def mergeAbove (heap : Control port) (lastBlock extendAreaEnd : Nat) : Control port :=
  let lastBlockNewSize :=
    alignDown (port.sub (port.sub extendAreaEnd lastBlock) port.headerSize) heap.pageSize
  let newLastBlock := blockAt port lastBlock lastBlockNewSize
  let heap := heap.setSizeAndFlag newLastBlock
    (port.sub (heap.sizeAndFlag lastBlock) lastBlockNewSize ||| prevBlockUsed)
  let heap := heap.blockSetSize lastBlock lastBlockNewSize
  heap.freeBlock lastBlock

/-- `_Heap_Link_below`. -/
def linkBelow (heap : Control port) (link lastBlock : Nat) : Control port :=
  heap.setSizeAndFlag lastBlock (port.sub link lastBlock ||| prevBlockUsed)

/-- `_Heap_Link_above`. -/
def linkAbove (heap : Control port) (link firstBlock lastBlock : Nat) : Control port :=
  let heap := heap.blockSetSize link (port.sub firstBlock link)
  heap.setSizeAndFlag lastBlock (heap.sizeAndFlag lastBlock ||| prevBlockUsed)

/-- The loop of `_Heap_Extend` over the areas. The result has no neighbours where the
routine returns zero because the areas overlap. -/
def findNeighbours (heap : Control port) (extendAreaBegin extendAreaEnd : Nat) :
    Nat → Nat → Neighbours → Option (Option Neighbours × Control port)
  | fuel, startBlock, found =>
    let subAreaBegin := if startBlock ≠ heap.firstBlock then startBlock else heap.areaBegin
    let subAreaEnd := heap.prevSize startBlock
    let endBlock := blockOfAllocArea port subAreaEnd heap.pageSize
    if extendAreaBegin < subAreaEnd ∧ subAreaBegin < extendAreaEnd then some (none, heap)
    else
      let found :=
        if extendAreaEnd = subAreaBegin then { found with mergeBelow := startBlock }
        else if extendAreaEnd < subAreaEnd then { found with linkBelow := startBlock }
        else found
      let heap :=
        if subAreaEnd = extendAreaBegin then heap.setPrevSize startBlock extendAreaEnd else heap
      let found :=
        if subAreaEnd = extendAreaBegin then { found with mergeAbove := endBlock }
        else if subAreaEnd < extendAreaBegin then { found with linkAbove := endBlock }
        else found
      let startBlock := blockAt port endBlock (heap.blockSize endBlock)
      if startBlock = heap.firstBlock then some (some found, heap)
      else
        match fuel with
        | 0 => none
        | fuel + 1 => heap.findNeighbours extendAreaBegin extendAreaEnd fuel startBlock found

/-- The writes of `_Heap_Extend` to the new area before it is joined or linked. -/
def placeArea (heap : Control port)
    (extendAreaBegin extendAreaEnd extendFirstBlock extendLastBlock : Nat) : Control port :=
  let heap :=
    if extendAreaBegin < heap.areaBegin then { heap with areaBegin := extendAreaBegin }
    else if heap.areaEnd < extendAreaEnd then { heap with areaEnd := extendAreaEnd }
    else heap
  let extendFirstBlockSize := port.sub extendLastBlock extendFirstBlock
  let heap := heap.setPrevSize extendFirstBlock extendAreaEnd
  let heap := heap.setSizeAndFlag extendFirstBlock (extendFirstBlockSize ||| prevBlockUsed)
  let heap := heap.setPrevSize extendLastBlock extendFirstBlockSize
  let heap := heap.setSizeAndFlag extendLastBlock 0
  if extendFirstBlock < heap.firstBlock then { heap with firstBlock := extendFirstBlock }
  else if heap.lastBlock < extendLastBlock then { heap with lastBlock := extendLastBlock }
  else heap

/-- The end of `_Heap_Extend`, which joins or links the new area. -/
def joinArea (heap : Control port) (found : Neighbours)
    (extendAreaBegin extendAreaEnd extendFirstBlock extendLastBlock : Nat) : Control port :=
  let heap :=
    if found.mergeBelow ≠ 0 then heap.mergeBelow extendAreaBegin found.mergeBelow
    else if found.linkBelow ≠ 0 then heap.linkBelow found.linkBelow extendLastBlock
    else heap
  let heap :=
    if found.mergeAbove ≠ 0 then heap.mergeAbove found.mergeAbove extendAreaEnd
    else if found.linkAbove ≠ 0 then
      heap.linkAbove found.linkAbove extendFirstBlock extendLastBlock
    else heap
  let heap :=
    if found.mergeBelow = 0 ∧ found.mergeAbove = 0 then heap.freeBlock extendFirstBlock else heap
  heap.setLastBlockSize

/-- `_Heap_Extend`: the size by which the heap grew, or zero. -/
def extend (heap : Control port) (extendAreaBegin extendAreaSize : Nat) :
    Option (Nat × Control port) :=
  let freeSize := heap.stats.freeSize
  let extendAreaEnd := port.add extendAreaBegin extendAreaSize
  if extendAreaEnd < extendAreaBegin then some (0, heap)
  else
    match getFirstAndLastBlock port extendAreaBegin extendAreaSize heap.pageSize
        heap.minBlockSize with
    | none => some (0, heap)
    | some (extendFirstBlock, extendLastBlock) =>
      (heap.findNeighbours extendAreaBegin extendAreaEnd port.modulus heap.firstBlock {}).map fun
        | (none, heap) => (0, heap)
        | (some found, heap) =>
          let heap := heap.placeArea extendAreaBegin extendAreaEnd extendFirstBlock extendLastBlock
          let heap := heap.joinArea found extendAreaBegin extendAreaEnd extendFirstBlock
            extendLastBlock
          let extendedSize := port.sub heap.stats.freeSize freeSize
          (extendedSize, heap.countStats fun stats =>
            { stats with size := port.add stats.size extendedSize })

end Control

/-- The operations on a heap that can also grow. -/
inductive GrowingOperation (port : Port) where
  | basic (operation : Operation port)
  | extend (areaBegin areaSize : Fin port.modulus)

/-- One call or one write of a user, or a successful extension by an area that does
not contain the control block. -/
def System.grow (state : System port) : GrowingOperation port → Option (System port)
  | .basic operation => state.step operation
  | .extend areaBegin areaSize =>
      if state.heap.freeList + port.blockStructSize ≤ areaBegin ∨
          areaBegin + areaSize ≤ state.heap.freeList then
        (state.heap.extend areaBegin areaSize).bind fun result =>
          if result.1 = 0 then none else some { state with heap := result.2 }
      else none

end Rtems.Heap
