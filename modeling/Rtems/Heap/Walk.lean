import Rtems.Heap.Allocate
import Rtems.Heap.Free

/-!
# Walking a heap

`_Heap_Walk` checks the control block, the free list and every block; it is the
routine that the tests call after each operation. `_Heap_Iterate` visits the
blocks from the first block up to the last. Both follow what the memory says, so
they are loops with fuel here; a consistent heap has fewer blocks than there are
addresses, and on it both loops end.
-/

namespace Rtems.Heap

open ByteMemory LinkRing Alignment

variable {port : Port} {link : Nat → Nat}

/-- A failure message: the format and its arguments. -/
structure Report where
  format : String
  arguments : List Nat
  deriving DecidableEq

/-- A walk fails with a report, or without one if the fuel runs out. -/
abbrev Walk := Except (Option Report)

/-- One check of a walk. -/
def require (condition : Bool) (format : String) (arguments : List Nat) : Walk Unit :=
  if condition then .ok () else .error (some ⟨format, arguments⟩)

@[simp] theorem require_true (format : String) (arguments : List Nat) :
    require true format arguments = .ok () := rfl

namespace Control

/-- `_Heap_Free_list_last`. -/
def freeListLast (heap : Control port) : Nat := heap.prev heap.freeList

/-- `_Heap_Walk_check_free_list`. -/
def walkCheckFreeList (heap : Control port) : Nat → Nat → Nat → Walk Unit
  | fuel, prevBlock, freeBlock =>
    if freeBlock = heap.freeList then .ok ()
    else
      match fuel with
      | 0 => .error none
      | fuel + 1 => do
        require (heap.isBlockInHeap freeBlock) "free block 0x%08x: not in heap\n" [freeBlock]
        require (isAligned (allocAreaOfBlock port freeBlock) heap.pageSize)
          "free block 0x%08x: alloc area not page aligned\n" [freeBlock]
        require (!heap.isUsed freeBlock) "free block 0x%08x: is used\n" [freeBlock]
        require (heap.prev freeBlock == prevBlock)
          "free block 0x%08x: invalid previous block 0x%08x\n" [freeBlock, heap.prev freeBlock]
        heap.walkCheckFreeList fuel freeBlock (heap.next freeBlock)

/-- `_Heap_Walk_is_in_free_list`. -/
def walkIsInFreeList (heap : Control port) (block : Nat) : Nat → Nat → Walk Bool
  | fuel, freeBlock =>
    if freeBlock = heap.freeList then .ok false
    else
      match fuel with
      | 0 => .error none
      | fuel + 1 =>
        if freeBlock = block then .ok true
        else heap.walkIsInFreeList block fuel (heap.next freeBlock)

/-- `_Heap_Walk_check_control`. -/
def walkCheckControl (heap : Control port) : Walk Unit := do
  require (heap.pageSize != 0) "page size is zero\n" []
  require (heap.pageSize % port.cpuAlignment == 0) "page size %u not CPU aligned\n" [heap.pageSize]
  require (isAligned heap.minBlockSize heap.pageSize) "min block size %u not page aligned\n"
    [heap.minBlockSize]
  require (isAligned (allocAreaOfBlock port heap.firstBlock) heap.pageSize)
    "first block 0x%08x: alloc area not page aligned\n" [heap.firstBlock]
  require (heap.isPrevUsed heap.firstBlock) "first block: HEAP_PREV_BLOCK_USED is cleared\n" []
  require (!heap.isFree heap.lastBlock) "last block: is free\n" []
  require (blockAt port heap.lastBlock (heap.blockSize heap.lastBlock) == heap.firstBlock)
    "last block: next block is not the first block\n" []
  heap.walkCheckFreeList port.modulus heap.freeList heap.freeListFirst

/-- `_Heap_Walk_check_free_block`. -/
def walkCheckFreeBlock (heap : Control port) (block : Nat) : Walk Unit := do
  let prevUsed := heap.isPrevUsed block
  let blockSize := heap.blockSize block
  let nextBlock := blockAt port block blockSize
  require (blockSize == heap.prevSize nextBlock)
    "block 0x%08x: size %u != size %u (in next block 0x%08x)\n"
    [block, blockSize, heap.prevSize nextBlock, nextBlock]
  require prevUsed "block 0x%08x: two consecutive blocks are free\n" [block]
  let listed ← heap.walkIsInFreeList block port.modulus heap.freeListFirst
  require listed "block 0x%08x: free block not in free list\n" [block]

/-- The body of the block loop of `_Heap_Walk`; the result is the next block. -/
def walkBlock (heap : Control port) (block : Nat) : Walk Nat := do
  let blockSize := heap.blockSize block
  let nextBlock := blockAt port block blockSize
  let isNotLastBlock := block != heap.lastBlock
  require (heap.isBlockInHeap nextBlock) "block 0x%08x: next block 0x%08x not in heap\n"
    [block, nextBlock]
  require (!(!isAligned blockSize heap.pageSize && isNotLastBlock))
    "block 0x%08x: block size %u not page aligned\n" [block, blockSize]
  require (!(decide (blockSize < heap.minBlockSize) && isNotLastBlock))
    "block 0x%08x: size %u < min block size %u\n" [block, blockSize, heap.minBlockSize]
  require (!(decide (nextBlock ≤ block) && isNotLastBlock))
    "block 0x%08x: next block 0x%08x is not a successor\n" [block, nextBlock]
  if !heap.isPrevUsed nextBlock then heap.walkCheckFreeBlock block
  return nextBlock

/-- The block loop of `_Heap_Walk`. -/
def walkBlocks (heap : Control port) : Nat → Nat → Walk Unit
  | 0, _ => .error none
  | fuel + 1, block => do
    let nextBlock ← heap.walkBlock block
    if nextBlock = heap.firstBlock then .ok () else heap.walkBlocks fuel nextBlock

/-- `_Heap_Walk` on a system that is up. -/
def walk (heap : Control port) : Walk Unit := do
  heap.walkCheckControl
  heap.walkBlocks port.modulus heap.firstBlock

/-- `_Heap_Iterate`. The visitor has a state and says whether to stop. -/
def iterate {σ : Type} (heap : Control port) (visitor : σ → Nat → Nat → Bool → Bool × σ) :
    Nat → Nat → σ → Option σ
  | fuel, current, state =>
    if current = heap.lastBlock then some state
    else
      match fuel with
      | 0 => none
      | fuel + 1 =>
        let size := heap.blockSize current
        let next := blockAt port current size
        let used := heap.isPrevUsed next
        let (stop, state) := visitor state current size used
        if stop then some state else heap.iterate visitor fuel next state

/-- The visits of `_Heap_Iterate` with a visitor that collects and never stops. -/
def visits (heap : Control port) : Option (List (Nat × Nat × Bool)) :=
  heap.iterate (fun seen block size used => (false, seen ++ [(block, size, used)])) port.modulus
    heap.firstBlock []

end Control

/-! ## A consistent heap passes the walk -/

section Accept

variable {heap : Control port} {blocks : List Block} {nodes : List Nat}

theorem isAligned_of_dvd (value alignment : Nat) (divides : alignment ∣ value) :
    isAligned value alignment = true := by
  simp [isAligned, Nat.mod_eq_zero_of_dvd divides]

/-- The free list passes its checks.

Induction on the remaining members, with the previous member as the loop's memory. -/
theorem walkCheckFreeList_ok (sound : Consistent link heap blocks nodes) (before rest : List Nat)
    (split : nodes = before ++ rest) (fuel : Nat) (enough : rest.length ≤ fuel) :
    heap.walkCheckFreeList fuel (final heap.freeList before) (entry rest heap.freeList) = .ok () := by
  have rep := sound.represents
  induction rest generalizing before fuel with
  | nil =>
    unfold Control.walkCheckFreeList
    simp
  | cons node after ih =>
    obtain ⟨fuel, rfl⟩ : ∃ smaller, fuel = smaller + 1 := ⟨fuel - 1, by simp at enough; omega⟩
    have mem : node ∈ nodes := by simp [split]
    obtain ⟨ahead, behind⟩ := ring_split _ _ _ before after (split ▸ rep.ring)
    have ahead : heap.next node = entry after heap.freeList := ahead
    have behind : heap.prev node = final heap.freeList before := behind
    obtain ⟨front, size, back, rfl, place⟩ := rep.node_block node mem
    have last := rep.geometry.last
    simp only [total_append] at last
    have bounded := rep.block_bound
    simp only at bounded
    obtain ⟨outer, inner, decoded⟩ := rep.decode
    have sizeValue := decoded.blockSize rep
    have nextFlag := (decoded.next_isPrevUsed rep).trans decoded.marks
    rw [← place] at sizeValue nextFlag bounded
    simp only at sizeValue nextFlag
    have inHeap : heap.isBlockInHeap node = true := by
      simp only [Control.isBlockInHeap, Bool.and_eq_true, decide_eq_true_eq]
      omega
    have aligned : isAligned (allocAreaOfBlock port node) heap.pageSize = true := by
      rw [allocAreaOfBlock, Port.headerSize, port.add_of_lt _ _ (by omega), place]
      exact isAligned_of_dvd _ _ rep.block_aligned
    have unused : heap.isUsed node = false := by
      rw [Control.isUsed, sizeValue, blockAt, port.add_of_lt _ _ (by omega)]
      exact nextFlag
    have later := ih (before ++ [node]) (by simp [split]) fuel (by simp at enough; omega)
    rw [final_append] at later
    rw [Control.walkCheckFreeList]
    simp [inHeap, aligned, unused, behind, ahead, later, bind, Except.bind]

/-- Every free list member is found. -/
theorem walkIsInFreeList_ok (sound : Consistent link heap blocks nodes) (node : Nat)
    (before rest : List Nat) (split : nodes = before ++ rest) (mem : node ∈ rest) (fuel : Nat)
    (enough : rest.length ≤ fuel) :
    heap.walkIsInFreeList node fuel (entry rest heap.freeList) = .ok true := by
  have rep := sound.represents
  induction rest generalizing before fuel with
  | nil => simp at mem
  | cons other after ih =>
    obtain ⟨fuel, rfl⟩ : ∃ smaller, fuel = smaller + 1 := ⟨fuel - 1, by simp at enough; omega⟩
    have notHead : other ≠ heap.freeList := by
      rintro rfl
      exact (List.nodup_cons.mp rep.ring.nodup).1 (by simp [split])
    have ahead : heap.next other = entry after heap.freeList :=
      (ring_split _ _ _ before after (split ▸ rep.ring)).1
    rw [Control.walkIsInFreeList]
    by_cases same : other = node
    · subst same
      simp [notHead]
    · have later := ih (before ++ [other]) (by simp [split])
        ((List.mem_cons.mp mem).resolve_left (Ne.symm same)) fuel (by simp at enough; omega)
      simp [notHead, ahead, later]

/-- Between operations the flag behind a block says whether the block is free. -/
theorem Consistent.marked {front back : List Block} {block : Block} {tail : Ends}
    {outer inner : Bool} (sound : Consistent link heap (front ++ block :: back) nodes)
    (decoded : Decoded heap tail front block back outer inner) :
    inner = decide (block.use ≠ .free) := by
  have marks := decoded.marks
  have settled := sound.settled block (by simp)
  cases use : block.use with
  | pending => exact absurd use settled
  | free | used | gap => simpa [use, Marks] using marks

/-- The checks of one block that is not the last. -/
theorem walkBlock_ok {front back : List Block} {block : Block}
    (sound : Consistent link heap (front ++ block :: back) nodes) :
    heap.walkBlock (heap.firstBlock + total front) =
      .ok (heap.firstBlock + total front + block.size) := by
  have rep := sound.represents
  have geometry := rep.geometry
  have last := geometry.last
  simp only [total_append, total_cons] at last
  have positive := geometry.positive block (by simp)
  have shape := geometry.shape block (by simp)
  have bounded := rep.block_bound
  obtain ⟨outer, inner, decoded⟩ := rep.decode
  have sizeValue := decoded.blockSize rep
  have prevFlag := decoded.isPrevUsed rep
  have nextFlag := decoded.next_isPrevUsed rep
  have place : blockAt port (heap.firstBlock + total front) block.size =
      heap.firstBlock + total front + block.size := port.add_of_lt _ _ (by omega)
  have inHeap : heap.isBlockInHeap (heap.firstBlock + total front + block.size) = true := by
    simp only [Control.isBlockInHeap, Bool.and_eq_true, decide_eq_true_eq]
    omega
  have aligned := isAligned_of_dvd _ _ shape.1
  have large : ¬ block.size < heap.minBlockSize := by omega
  have free : inner = false → heap.walkCheckFreeBlock (heap.firstBlock + total front) = .ok () := by
    intro cleared
    have use : block.use = .free := by simpa [cleared] using sound.marked decoded
    obtain ⟨prevUsed, repeated⟩ := decoded.header.2.1 use
    have repeated : heap.prevSize (heap.firstBlock + total front + block.size) = block.size := repeated
    obtain ⟨size, kind⟩ := block
    subst use
    obtain ⟨before, after, rfl⟩ := sound.listed_split
    have count := rep.nodes_length
    have listed := walkIsInFreeList_ok sound (heap.firstBlock + total front) []
      (before ++ (heap.firstBlock + total front) :: after) rfl (by simp) port.modulus (by omega)
    have first : heap.freeListFirst = entry (before ++ (heap.firstBlock + total front) :: after)
        heap.freeList := (ring_head _ _ _ rep.ring).1
    simp [Control.walkCheckFreeBlock, sizeValue, place, repeated, prevFlag, prevUsed, first, listed,
      bind, Except.bind]
  cases inner with
  | true =>
    simp [Control.walkBlock, sizeValue, place, inHeap, aligned, large, positive.ne', nextFlag, bind,
      Except.bind, pure, Except.pure]
  | false =>
    simp [Control.walkBlock, sizeValue, place, inHeap, aligned, large, positive.ne', free rfl, bind,
      Except.bind, pure, Except.pure]

theorem walkBlock_last_ok (sound : Consistent link heap blocks nodes) :
    heap.blockSize heap.lastBlock = port.sub heap.firstBlock heap.lastBlock ∧
      blockAt port heap.lastBlock (heap.blockSize heap.lastBlock) = heap.firstBlock ∧
      heap.isPrevUsed heap.firstBlock = true ∧ heap.walkBlock heap.lastBlock = .ok heap.firstBlock := by
  have rep := sound.represents
  have shape := rep.geometry
  have last := shape.last
  have bounded := shape.bounded
  obtain ⟨flag, -, stored⟩ := (tiles_append _ _ _ _ blocks []).mp (by simpa using rep.tiles)
  rw [← last] at stored
  have sizeValue := blockSize_of_word heap _ _ flag rep.tailEven stored
  have place : blockAt port heap.lastBlock (heap.blockSize heap.lastBlock) = heap.firstBlock := by
    rw [sizeValue]
    exact wrapAdd_wrapSub _ _ _ (by omega) (by omega)
  have firstFlag : heap.isPrevUsed heap.firstBlock = true :=
    isPrevUsed_of_word heap _ _ true (rep.headSize_even []) (tiles_head _ _ _ _ _ rep.tiles)
  refine ⟨sizeValue, place, firstFlag, ?_⟩
  have inHeap : heap.isBlockInHeap heap.firstBlock = true := by simp [Control.isBlockInHeap, last]
  simp [Control.walkBlock, place, inHeap, firstFlag, bind, Except.bind, pure, Except.pure]

/-- The block loop passes over the remaining blocks and the last block. -/
theorem walkBlocks_ok (front rest : List Block)
    (sound : Consistent link heap (front ++ rest) nodes) (fuel : Nat) (enough : rest.length < fuel) :
    heap.walkBlocks fuel (heap.firstBlock + total front) = .ok () := by
  have last := sound.represents.geometry.last
  induction rest generalizing front fuel with
  | nil =>
    obtain ⟨fuel, rfl⟩ : ∃ smaller, fuel = smaller + 1 := ⟨fuel - 1, by omega⟩
    have place : heap.firstBlock + total front = heap.lastBlock := by simpa using last.symm
    rw [place, Control.walkBlocks, (walkBlock_last_ok sound).2.2.2]
    simp [bind, Except.bind]
  | cons block after ih =>
    obtain ⟨fuel, rfl⟩ : ∃ smaller, fuel = smaller + 1 := ⟨fuel - 1, by omega⟩
    have later := ih (front ++ [block]) (by simpa using sound) fuel
      (by simp at enough; omega) (by simpa using last)
    have place : heap.firstBlock + total (front ++ [block]) =
        heap.firstBlock + total front + block.size := by simp [Nat.add_assoc]
    rw [place] at later
    rw [Control.walkBlocks, walkBlock_ok sound]
    simp [bind, Except.bind, later]

/-- `_Heap_Walk` accepts every consistent heap. -/
theorem walk_ok (sound : Consistent link heap blocks nodes) : heap.walk = .ok () := by
  have rep := sound.represents
  have shape := rep.geometry
  have bounded := shape.bounded
  have last := shape.last
  have count := rep.nodes_length
  obtain ⟨-, lastPlace, firstFlag, -⟩ := walkBlock_last_ok sound
  have first : heap.freeListFirst = entry nodes heap.freeList := (ring_head _ _ _ rep.ring).1
  have list := walkCheckFreeList_ok sound [] nodes rfl port.modulus (by omega)
  rw [← first] at list
  have list : heap.walkCheckFreeList port.modulus heap.freeList heap.freeListFirst = .ok () := list
  have nonzero : (heap.pageSize != 0) = true := by simpa using shape.pagePositive.ne'
  have cpu := Nat.mod_eq_zero_of_dvd shape.pageCpu
  have aligned : isAligned (allocAreaOfBlock port heap.firstBlock) heap.pageSize = true := by
    rw [allocAreaOfBlock, Port.headerSize, port.add_of_lt _ _ (by omega)]
    exact isAligned_of_dvd _ _ shape.aligned
  have lastUsed : heap.isFree heap.lastBlock = false := by
    simp [Control.isFree, Control.isUsed, lastPlace, firstFlag]
  have loop := walkBlocks_ok [] blocks sound port.modulus (by omega)
  simp only [total_nil, Nat.add_zero] at loop
  simp [Control.walk, Control.walkCheckControl, nonzero, cpu, isAligned_of_dvd _ _ shape.minPage,
    aligned, firstFlag, lastUsed, lastPlace, list, loop, bind, Except.bind]

end Accept

/-! ## The visits of an iteration -/

/-- What an iteration sees of placed blocks. -/
def visible (start : Nat) (blocks : List Block) : List (Nat × Nat × Bool) :=
  (placed start blocks).map fun entry => (entry.1, entry.2.size, decide (entry.2.use ≠ .free))

variable {heap : Control port} {blocks : List Block}

/-- `_Heap_Iterate` visits every block before the last one once, in address order,
with its size and use. -/
theorem visits_ok {nodes : List Nat} (sound : Consistent link heap blocks nodes) :
    heap.visits = some (visible heap.firstBlock blocks) := by
  have last := sound.represents.geometry.last
  have general : ∀ (front rest : List Block) (fuel : Nat) (seen : List (Nat × Nat × Bool)),
      blocks = front ++ rest → rest.length ≤ fuel →
      heap.iterate (fun seen block size used => (false, seen ++ [(block, size, used)])) fuel
        (heap.firstBlock + total front) seen =
        some (seen ++ visible (heap.firstBlock + total front) rest) := by
    intro front rest
    induction rest generalizing front with
    | nil =>
      intro fuel seen split _
      have place : heap.firstBlock + total front = heap.lastBlock := by
        rw [last, split]
        simp
      unfold Control.iterate
      simp [place, visible]
    | cons block after ih =>
      intro fuel seen split enough
      obtain ⟨fuel, rfl⟩ : ∃ smaller, fuel = smaller + 1 := ⟨fuel - 1, by simp at enough; omega⟩
      subst split
      have rep := sound.represents
      have positive := rep.geometry.positive block (by simp)
      have bounded := rep.block_bound
      simp only [total_append, total_cons] at last
      obtain ⟨outer, inner, decoded⟩ := rep.decode
      have sizeValue := decoded.blockSize rep
      have nextFlag := decoded.next_isPrevUsed rep
      have flag := sound.marked decoded
      have notLast : heap.firstBlock + total front ≠ heap.lastBlock := by omega
      have place : blockAt port (heap.firstBlock + total front) block.size =
          heap.firstBlock + total front + block.size := port.add_of_lt _ _ (by omega)
      have later := ih (front ++ [block]) fuel
        (seen ++ [(heap.firstBlock + total front, block.size, inner)]) (by simp)
        (by simp at enough; omega)
      have next : heap.firstBlock + total (front ++ [block]) =
          heap.firstBlock + total front + block.size := by simp [Nat.add_assoc]
      rw [next] at later
      rw [Control.iterate]
      simp only [notLast, sizeValue, place, nextFlag, later]
      simp [visible, flag]
  have count := sound.represents.nodes_length
  have all := general [] blocks port.modulus [] rfl (by omega)
  simpa [Control.visits] using all

/-! ## The block structure -/

/-- The block structure of a heap, in terms of what an iteration sees: it reaches the
last block over ascending blocks of valid size and position, no two neighbours are
free, the flag and the repeated size behind every block agree with its use, and the
free list holds exactly the free blocks. -/
structure Structured (heap : Control port) (seen : List (Nat × Nat × Bool)) : Prop where
  reached : heap.visits = some seen
  ascending : (seen.map Prod.fst ++ [heap.lastBlock]).Pairwise (· < ·)
  sizes : ∀ entry ∈ seen, heap.pageSize ∣ entry.2.1 ∧ heap.minBlockSize ≤ entry.2.1 ∧
    heap.pageSize ∣ entry.1 + port.headerSize
  separated : seen.IsChain fun left right => left.2.2 = true ∨ right.2.2 = true
  flagged : ∀ entry ∈ seen, heap.isPrevUsed (entry.1 + entry.2.1) = entry.2.2 ∧
    (entry.2.2 = false → heap.prevSize (entry.1 + entry.2.1) = entry.2.1)
  listed : ∃ nodes, Ring heap.headers.links heap.freeList nodes ∧
    nodes.Perm ((seen.filter fun entry => !entry.2.2).map Prod.fst)
  accepted : heap.walk = .ok ()

theorem visible_cons (start : Nat) (block : Block) (rest : List Block) :
    visible start (block :: rest) =
      (start, block.size, decide (block.use ≠ .free)) :: visible (start + block.size) rest := rfl

theorem mem_visible (start : Nat) (blocks : List Block) (entry : Nat × Nat × Bool) :
    entry ∈ visible start blocks ↔ ∃ address block, (address, block) ∈ placed start blocks ∧
      entry = (address, block.size, decide (block.use ≠ .free)) := by
  simp only [visible, List.mem_map, Prod.exists]
  constructor
  iterate 2
    · rintro ⟨address, block, mem, rfl⟩
      exact ⟨address, block, mem, rfl⟩

/-- Blocks that are not empty ascend to their end. -/
theorem visible_ascending (start : Nat) (blocks : List Block)
    (positive : ∀ block ∈ blocks, 0 < block.size) :
    ((visible start blocks).map Prod.fst ++ [start + total blocks]).Pairwise (· < ·) := by
  induction blocks generalizing start with
  | nil => simp [visible]
  | cons block rest ih =>
    have nonempty := positive block (by simp)
    have later := ih (start + block.size) fun other mem => positive other (by simp [mem])
    rw [visible_cons, List.map_cons, total_cons, List.cons_append, List.pairwise_cons,
      ← Nat.add_assoc]
    refine ⟨?_, later⟩
    intro address mem
    rcases List.mem_append.mp mem with mem | mem
    · obtain ⟨entry, inside, rfl⟩ := List.mem_map.mp mem
      obtain ⟨address, other, place, rfl⟩ := (mem_visible _ _ _).mp inside
      have bounds := placed_bounds _ _ _ _ place
      omega
    · obtain rfl : address = start + block.size + total rest := by simpa using mem
      omega

/-- Two free blocks never follow each other. -/
theorem visible_separated (fields : Headers) (tail : Ends) (start : Nat) (flag : Bool)
    (blocks : List Block) (tiles : Tiles fields tail start flag blocks) :
    (visible start blocks).IsChain fun left right => left.2.2 = true ∨ right.2.2 = true := by
  induction blocks generalizing start flag with
  | nil => exact .nil
  | cons block rest ih =>
    obtain ⟨-, inner, marks, after⟩ := tiles
    have later := ih (start + block.size) inner after
    cases rest with
    | nil => exact .singleton _
    | cons next others =>
      refine .cons_cons ?_ later
      by_contra both
      simp only [decide_not, Bool.not_eq_eq_eq_not, Bool.not_true, decide_eq_false_iff_not, not_or,
        not_not] at both
      have cleared : inner = false := by
        rw [both.1] at marks
        exact marks
      have set := (after.1.2.1 both.2).1
      simp [cleared] at set

theorem visible_free (start : Nat) (blocks : List Block) :
    ((visible start blocks).filter fun entry => !entry.2.2).map Prod.fst =
      freeAddresses start blocks := by
  induction blocks generalizing start with
  | nil => rfl
  | cons block rest ih =>
    rw [visible_cons, freeAddresses_cons, ← ih]
    by_cases free : block.use = .free <;> simp [free]

theorem Consistent.structured {nodes : List Nat} (sound : Consistent link heap blocks nodes) :
    Structured heap (visible heap.firstBlock blocks) := by
  have rep := sound.represents
  have geometry := rep.geometry
  refine
    { reached := visits_ok sound
      ascending := ?_
      sizes := ?_
      separated := visible_separated _ _ _ _ _ rep.tiles
      flagged := ?_
      listed := ⟨nodes, rep.ring, ?_⟩
      accepted := walk_ok sound }
  · rw [geometry.last]
    exact visible_ascending _ _ geometry.positive
  · intro entry mem
    obtain ⟨address, block, inside, rfl⟩ := (mem_visible _ _ _).mp mem
    obtain ⟨front, back, rfl, rfl⟩ := placed_split _ _ _ _ inside
    have shape := geometry.shape block (by simp)
    exact ⟨shape.1, shape.2, rep.block_aligned⟩
  · intro entry mem
    obtain ⟨address, block, inside, rfl⟩ := (mem_visible _ _ _).mp mem
    obtain ⟨front, back, rfl, rfl⟩ := placed_split _ _ _ _ inside
    obtain ⟨outer, inner, decoded⟩ := rep.decode
    refine ⟨(decoded.next_isPrevUsed rep).trans (sound.marked decoded), ?_⟩
    intro free
    exact (decoded.header.2.1 (by simpa using free)).2
  · rw [visible_free]
    exact rep.listed

end Rtems.Heap
