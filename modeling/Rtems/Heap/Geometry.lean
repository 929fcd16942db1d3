import Rtems.Heap.Blocks

/-!
# Geometry of the managed area and the represented heap

`Geometry` collects what does not depend on the memory: the page and minimum
sizes, the position of the first and the last block, the shape of every block and
the distance of the blocks from the free list head. It is what makes the header
words of different blocks disjoint, and it survives every edit that replaces some
neighbouring blocks by others of the same total size.

`Represents` is the invariant of the allocator: the geometry, the size words, the
free list ring and the agreement of the ring with the free blocks.
-/

namespace Rtems.Heap

open ByteMemory LinkRing
open List (mem_append mem_cons)

variable {port : Port}

/-- A block stays clear of the free list head: a gap with its size words, any
other block with all of its bytes. -/
def Clear (port : Port) (freeList address : Nat) (block : Block) : Prop :=
  freeList + 4 * port.wordSize ≤ address ∨
    address + (if block.use = .gap then 2 * port.wordSize else block.size) ≤ freeList

/-- The memory independent part of the heap invariant. -/
structure Geometry (heap : Control port) (blocks : List Block) : Prop where
  pagePositive : 0 < heap.pageSize
  pageCpu : port.cpuAlignment ∣ heap.pageSize
  minPage : heap.pageSize ∣ heap.minBlockSize
  minLarge : 4 * port.wordSize ≤ heap.minBlockSize
  aligned : heap.pageSize ∣ heap.firstBlock + 2 * port.wordSize
  shape : ∀ block ∈ blocks, heap.pageSize ∣ block.size ∧ heap.minBlockSize ≤ block.size
  last : heap.lastBlock = heap.firstBlock + total blocks
  bounded : heap.lastBlock + 2 * port.wordSize < port.modulus
  control : heap.freeList + 4 * port.wordSize ≤ port.modulus
  clear : ∀ entry ∈ placed heap.firstBlock blocks, Clear port heap.freeList entry.1 entry.2
  clearLast : heap.freeList + 4 * port.wordSize ≤ heap.lastBlock ∨
    heap.lastBlock + 2 * port.wordSize ≤ heap.freeList

/-- The blocks whose size words are in use: all blocks and the last block. -/
def sizedBlocks (heap : Control port) (blocks : List Block) : Set Nat :=
  {address | address = heap.lastBlock ∨ ∃ block, (address, block) ∈ placed heap.firstBlock blocks}

/-- The blocks whose link words may be in use: all but the gaps, and the head. -/
def linkedBlocks (heap : Control port) (blocks : List Block) : Set Nat :=
  {address | address = heap.freeList ∨
    ∃ block, (address, block) ∈ placed heap.firstBlock blocks ∧ block.use ≠ .gap}

/-- The heap holds exactly these blocks, with the free list in this order and the
given values at its two ends. -/
structure Represents (heap : Control port) (blocks : List Block) (nodes : List Nat)
    (tail : Ends) : Prop where
  geometry : Geometry heap blocks
  tailEven : 2 ∣ tail.last
  firstLink : heap.headers.prevSize heap.firstBlock = tail.link heap.firstBlock
  tiles : Tiles heap.headers tail heap.firstBlock true blocks
  ring : Ring heap.headers.links heap.freeList nodes
  listed : nodes.Perm (freeAddresses heap.firstBlock blocks)

namespace Geometry

variable {heap : Control port} {blocks : List Block}

section

variable (geom : Geometry heap blocks)
include geom

/-- The geometry does not depend on the memory or the statistics. -/
theorem congr (memory : Memory) (stats : Statistics) : Geometry (heap.renew memory stats) blocks :=
  { geom with }

theorem pageEven : 2 ∣ heap.pageSize := port.cpuAlignment_even.trans geom.pageCpu

theorem minPositive : 0 < heap.minBlockSize := by
  have positive := port.wordSize_pos
  have large := geom.minLarge
  omega

theorem page_le_min : heap.pageSize ≤ heap.minBlockSize :=
  Nat.le_of_dvd geom.minPositive geom.minPage

theorem positive : ∀ block ∈ blocks, 0 < block.size := by
  intro block mem
  exact geom.minPositive.trans_le (geom.shape block mem).2

theorem sizeEven (block : Block) (mem : block ∈ blocks) :
    2 ∣ block.size := geom.pageEven.trans (geom.shape block mem).1

/-- Every part of the block list covers a multiple of the page size. -/
theorem partPage (part : List Block)
    (inside : ∀ block ∈ part, block ∈ blocks) : heap.pageSize ∣ total part := by
  induction part with
  | nil => simp
  | cons block rest ih =>
    exact Nat.dvd_add (geom.shape block (inside block (by simp))).1
      (ih fun other mem => inside other (by simp [mem]))

/-- The header words of the blocks and the free list head never overlap. -/
theorem apart : Apart port (sizedBlocks heap blocks) (linkedBlocks heap blocks) := by
  have large := geom.minLarge
  have size : ∀ entry ∈ placed heap.firstBlock blocks, 4 * port.wordSize ≤ entry.2.size := by
    intro entry mem
    exact large.trans (geom.shape _ (placed_mem _ entry.1 entry.2 blocks mem)).2
  have upper : ∀ entry ∈ placed heap.firstBlock blocks,
      entry.1 + entry.2.size ≤ heap.lastBlock := by
    intro entry mem
    rw [geom.last]
    exact (placed_bounds _ entry.1 entry.2 blocks mem).2
  have clearLast := geom.clearLast
  refine ⟨?_, ?_, ?_⟩
  · rintro left (rfl | ⟨first, leftPlaced⟩) right (rfl | ⟨second, rightPlaced⟩)
    · exact .inl rfl
    · have := size _ rightPlaced
      have := upper _ rightPlaced
      omega
    · have := size _ leftPlaced
      have := upper _ leftPlaced
      omega
    · have := size _ leftPlaced
      have := size _ rightPlaced
      rcases placed_apart _ _ _ _ leftPlaced rightPlaced with same | far
      · exact .inl (Prod.mk.inj same).1
      · omega
  · rintro left (rfl | ⟨first, leftPlaced, leftUse⟩) right (rfl | ⟨second, rightPlaced, rightUse⟩)
    · exact .inl rfl
    · have clear := geom.clear _ rightPlaced
      have := size _ rightPlaced
      simp only [Clear, rightUse, if_false] at *
      omega
    · have clear := geom.clear _ leftPlaced
      have := size _ leftPlaced
      simp only [Clear, leftUse, if_false] at *
      omega
    · have := size _ leftPlaced
      have := size _ rightPlaced
      rcases placed_apart _ _ _ _ leftPlaced rightPlaced with same | far
      · exact .inl (Prod.mk.inj same).1
      · omega
  · rintro left (rfl | ⟨first, leftPlaced⟩) right (rfl | ⟨second, rightPlaced, rightUse⟩)
    · omega
    · have := size _ rightPlaced
      have := upper _ rightPlaced
      omega
    · have clear := geom.clear _ leftPlaced
      simp only [Clear] at clear
      omega
    · have := size _ rightPlaced
      rcases placed_apart _ _ _ _ leftPlaced rightPlaced with same | far
      · exact .inl (Prod.mk.inj same).1.le
      · omega

end

/-- A run of neighbouring blocks without gaps lies on one side of the head. -/
theorem clear_region (port : Port) (freeList start : Nat) (blocks : List Block)
    (clear : ∀ entry ∈ placed start blocks, Clear port freeList entry.1 entry.2)
    (solid : ∀ block ∈ blocks, block.use ≠ .gap) (nonempty : blocks ≠ []) :
    freeList + 4 * port.wordSize ≤ start ∨ start + total blocks ≤ freeList := by
  have word := port.wordSize_pos
  induction blocks generalizing start with
  | nil => exact absurd rfl nonempty
  | cons block rest ih =>
    have here := clear (start, block) (by simp)
    have use := solid block (by simp)
    simp only [Clear, use, if_false] at here
    by_cases empty : rest = []
    · subst empty
      simpa using here
    · have later := ih (start + block.size) (fun entry mem => clear entry (by simp [mem]))
        (fun other mem => solid other (by simp [mem])) empty
      simp only [total_cons]
      omega

/-- Replacing neighbouring blocks without gaps by others of the same total size
and of valid shape keeps the geometry. -/
theorem edit (front middle replacement back : List Block)
    (geom : Geometry heap (front ++ (middle ++ back)))
    (sameTotal : total replacement = total middle) (shape : ∀ block ∈ replacement, heap.pageSize ∣
      block.size ∧ heap.minBlockSize ≤ block.size ∧ block.use ≠ .gap)
    (solid : ∀ block ∈ middle, block.use ≠ .gap) (nonempty : middle ≠ []) :
    Geometry heap (front ++ (replacement ++ back)) := by
  refine { geom with shape := ?_, last := ?_, clear := ?_ }
  · intro block mem
    rcases List.mem_append.mp mem with mem | mem
    · exact geom.shape block (by simp [mem])
    · rcases List.mem_append.mp mem with mem | mem
      · exact ⟨(shape block mem).1, (shape block mem).2.1⟩
      · exact geom.shape block (by simp [mem])
  · rw [geom.last]
    simp [sameTotal]
  · have region := clear_region port heap.freeList (heap.firstBlock + total front) middle
      (fun entry mem => geom.clear entry (by simp [mem])) solid nonempty
    intro entry mem
    simp only [placed_append, mem_append, sameTotal] at mem
    rcases mem with mem | mem | mem
    · exact geom.clear entry (by simp [mem])
    · have use := (shape entry.2 (placed_mem _ entry.1 entry.2 _ mem)).2.2
      have bounds := placed_bounds _ entry.1 entry.2 _ mem
      simp only [Clear, use, if_false]
      omega
    · exact geom.clear entry (by simp [mem])

/-- Every point where the block list can be cut is the address of a block or of
the last block. -/
theorem cut_sized (front back : List Block) (geom : Geometry heap (front ++ back)) :
    heap.firstBlock + total front ∈ sizedBlocks heap (front ++ back) := by
  cases back with
  | nil => exact .inl (by simp [geom.last])
  | cons block rest => exact .inr ⟨block, by simp⟩

theorem linked_bound (geom : Geometry heap blocks) (addr : Nat)
    (mem : addr ∈ linkedBlocks heap blocks) : addr < port.modulus := by
  have word := port.wordSize_pos
  have control := geom.control
  have bounded := geom.bounded
  rcases mem with rfl | ⟨block, mem, -⟩
  · omega
  · have bounds := placed_bounds _ _ _ _ mem
    have last := geom.last
    omega

end Geometry

section Edit

variable {heap : Control port} (front middle replacement back : List Block)

/-- An edit adds no size words beyond those of its own blocks. -/
theorem sized_edit (sameTotal : total replacement = total middle) (inside : ∀ entry ∈ placed
      (heap.firstBlock + total front) replacement, entry.1 ∈ sizedBlocks heap (front ++ (middle ++
      back))) :
    sizedBlocks heap (front ++ (replacement ++ back)) ⊆ sizedBlocks heap (front ++ (middle ++ back)) := by
  rintro addr (rfl | ⟨block, mem⟩)
  · exact .inl rfl
  · simp only [placed_append, mem_append, sameTotal] at mem
    rcases mem with mem | mem | mem
    · exact .inr ⟨block, by simp [mem]⟩
    · exact inside _ mem
    · exact .inr ⟨block, by simp [mem]⟩

/-- An edit adds no link words beyond those of its own blocks. -/
theorem linked_edit (sameTotal : total replacement = total middle)
    (inside : ∀ entry ∈ placed (heap.firstBlock + total front) replacement,
      entry.1 ∈ linkedBlocks heap (front ++ (middle ++ back))) :
    linkedBlocks heap (front ++ (replacement ++ back)) ⊆
      linkedBlocks heap (front ++ (middle ++ back)) := by
  rintro addr (rfl | ⟨block, mem, solid⟩)
  · exact .inl rfl
  · simp only [placed_append, mem_append, sameTotal] at mem
    rcases mem with mem | mem | mem
    · exact .inr ⟨block, by simp [mem], solid⟩
    · exact inside _ mem
    · exact .inr ⟨block, by simp [mem], solid⟩

end Edit

variable {front back : List Block}

variable {heap : Control port}

/-- Cutting a block that is no gap into two valid ones keeps the geometry, and all words of
the old blocks are words of the new ones. -/
theorem Geometry.cut {whole : Block} (first second : Block)
    (geom : Geometry heap (front ++ whole :: back)) (sum : first.size + second.size = whole.size)
    (solid : whole.use ≠ .gap)
    (shape : ∀ block ∈ [first, second], heap.pageSize ∣ block.size ∧ heap.minBlockSize ≤ block.size ∧ block.use ≠ .gap)
    :
    Geometry heap (front ++ first :: second :: back) ∧ sizedBlocks heap (front ++ whole :: back) ⊆
        sizedBlocks heap (front ++ first :: second :: back) ∧
      linkedBlocks heap (front ++ whole :: back) ⊆
        linkedBlocks heap (front ++ first :: second :: back) := by
  have same : total [whole] = total [first, second] := by simp [← sum]
  refine ⟨?_, ?_, ?_⟩
  · exact Geometry.edit front [whole] [first, second] back geom same.symm shape
      (by simpa using solid) (by simp)
  · apply sized_edit front [first, second] [whole] back same
    simp only [placed_cons, placed_nil, List.mem_singleton, forall_eq]
    exact .inr ⟨first, by simp⟩
  · apply linked_edit front [first, second] [whole] back same
    simp only [placed_cons, placed_nil, List.mem_singleton, forall_eq]
    exact .inr ⟨first, by simp, (shape first (by simp)).2.2⟩

/-- Joining neighbouring blocks without gaps into one keeps the geometry, and all words of the new
block are words of the old ones. -/
theorem Geometry.merge {middle : List Block} (block : Block)
    (geom : Geometry heap (front ++ (middle ++ back))) (covered : total middle = block.size)
    (solid : ∀ block ∈ middle, block.use ≠ .gap) (nonempty : middle ≠ []) (use : block.use ≠ .gap) :
    Geometry heap (front ++ block :: back) ∧
      sizedBlocks heap (front ++ block :: back) ⊆ sizedBlocks heap (front ++ (middle ++ back)) ∧
      linkedBlocks heap (front ++ block :: back) ⊆ linkedBlocks heap (front ++ (middle ++ back)) := by
  obtain ⟨head, rest, rfl⟩ := List.exists_cons_of_ne_nil nonempty
  have page := geom.partPage (head :: rest) fun block mem => by
    simp only [mem_append]
    exact .inr (.inl mem)
  have minimum := (geom.shape head (by simp)).2
  have same : total [block] = total (head :: rest) := by simp [← covered]
  refine ⟨?_, ?_, ?_⟩
  · apply Geometry.edit front (head :: rest) [block] back geom same _ solid nonempty
    simp only [total_cons] at covered
    simp only [List.mem_singleton, forall_eq]
    exact ⟨covered ▸ page, by omega, use⟩
  · apply sized_edit front (head :: rest) [block] back same
    simpa using Geometry.cut_sized front _ geom
  · apply linked_edit front (head :: rest) [block] back same
    simp only [placed_cons, placed_nil, List.mem_singleton, forall_eq]
    exact .inr ⟨head, by simp, solid head (by simp)⟩

/-- A heap whose memory agrees with encoded field maps represents the block list. -/
theorem represents_of_view (heap : Control port) (memory : Memory) (stats : Statistics)
    (sized linked : Set Nat) (fields : Headers) (blocks : List Block) (nodes : List Nat)
    (tail : Ends) (geom : Geometry heap blocks) (tailEven : 2 ∣ tail.last)
    (view : View port memory sized linked fields) (sizedCovered : sizedBlocks heap blocks ⊆ sized)
    (linkedCovered : linkedBlocks heap blocks ⊆ linked)
    (tiles : Tiles fields tail heap.firstBlock true blocks)
    (ring : Ring fields.links heap.freeList nodes)
    (listed : nodes.Perm (freeAddresses heap.firstBlock blocks))
    (firstLink : fields.prevSize heap.firstBlock = tail.link heap.firstBlock) :
    Represents (heap.renew memory stats) blocks nodes tail := by
  have successor : ∀ entry ∈ placed heap.firstBlock blocks,
      entry.1 + entry.2.size ∈ sizedBlocks heap blocks := by
    rintro ⟨addr, block⟩ mem
    obtain ⟨front, back, split, rfl⟩ := placed_split _ _ _ _ mem
    cases back with
    | nil => exact .inl (by simp [geom.last, split, Nat.add_assoc])
    | cons other rest => exact .inr ⟨other, by simp [split, Nat.add_assoc]⟩
  have nodeLinked : ∀ node ∈ heap.freeList :: nodes, node ∈ linked := by
    intro node mem
    apply linkedCovered
    rcases List.mem_cons.mp mem with rfl | mem
    · exact .inl rfl
    · obtain ⟨size, place⟩ := (mem_freeAddresses _ _ _).mp (listed.mem_iff.mp mem)
      exact .inr ⟨_, place, by simp⟩
  have firstSized : heap.firstBlock ∈ sizedBlocks heap blocks := by
    simpa using geom.cut_sized [] blocks
  refine ⟨geom.congr memory stats, tailEven, ?_, ?_, ?_, listed⟩
  · exact (view.prevSize _ (sizedCovered firstSized)).trans firstLink
  · apply tiles_agree fields _ tail _ _ blocks tiles
    · intro entry mem
      exact view.sizeAndFlag _ (sizedCovered (.inr ⟨entry.2, mem⟩))
    · intro entry mem _
      exact view.prevSize _ (sizedCovered (successor entry mem))
    · exact view.sizeAndFlag _ (sizedCovered (.inl geom.last.symm))
  · apply ring_congr fields.links _ _ _ ring
    · intro node mem
      exact view.next node (nodeLinked node mem)
    · intro node mem
      exact view.prev node (nodeLinked node mem)

namespace Represents

variable {heap : Control port} {blocks : List Block} {nodes : List Nat} {tail : Ends}

theorem node_linked (rep : Represents heap blocks nodes tail) (node : Nat)
    (mem : node ∈ heap.freeList :: nodes) : node ∈ linkedBlocks heap blocks := by
  rcases List.mem_cons.mp mem with rfl | mem
  · exact .inl rfl
  · obtain ⟨size, place⟩ := (mem_freeAddresses _ _ _).mp (rep.listed.mem_iff.mp mem)
    exact .inr ⟨_, place, by simp⟩

/-- A free list member and its two neighbours have link words. -/
theorem neighbours_linked (node : Nat) (before after : List Nat)
    (rep : Represents heap blocks (before ++ node :: after) tail) :
    node ∈ linkedBlocks heap blocks ∧ heap.headers.links.next node ∈ linkedBlocks heap blocks ∧
      heap.headers.links.prev node ∈ linkedBlocks heap blocks := by
  obtain ⟨ahead, behind⟩ := ring_split _ _ _ _ _ rep.ring
  refine ⟨rep.node_linked node (by simp), ?_, ?_⟩
  · rw [ahead]
    have mem := entry_member after heap.freeList
    apply rep.node_linked
    simp only [mem_append, mem_cons] at mem ⊢
    tauto
  · rw [behind]
    have mem := final_member heap.freeList before
    apply rep.node_linked
    simp only [mem_append, mem_cons] at mem ⊢
    tauto

/-- A place to insert into the free list has link words, and so has what follows. -/
theorem anchor_linked (before after : List Nat)
    (rep : Represents heap blocks (before ++ after) tail) :
    final heap.freeList before ∈ linkedBlocks heap blocks ∧
      heap.headers.links.next (final heap.freeList before) ∈ linkedBlocks heap blocks := by
  have ahead := path_next_final _ _ _ before after rep.ring.path
  constructor
  · have mem := final_member heap.freeList before
    apply rep.node_linked
    simp only [mem_append, mem_cons] at mem ⊢
    tauto
  · rw [ahead]
    have mem := entry_member after heap.freeList
    apply rep.node_linked
    simp only [mem_append, mem_cons] at mem ⊢
    tauto

/-- A region of blocks without gaps becomes one block. The view gives the words after the change;
only the three header words of the block may differ from the words before. -/
theorem merge (block : Block) (middle : List Block)
    (rep : Represents heap (front ++ (middle ++ back)) nodes tail)
    (covered : total middle = block.size) (solid : ∀ block ∈ middle, block.use ≠ .gap)
    (nonempty : middle ≠ []) (use : block.use ≠ .gap) {flag mark : Bool}
    (stored : heap.sizeAndFlag (heap.firstBlock + total front) = headSize tail (middle ++ back) + flag.toNat)
    (marks : Marks block.use mark)
    (separated : mark = false → ∀ next ∈ back.head?, next.use ≠ .free) {memory : Memory}
    {merged : List Nat} {fields : Headers}
    (view : View port memory (sizedBlocks heap (front ++ (middle ++ back))) (linkedBlocks heap (front ++ (middle ++ back))) fields)
    (ring : Ring fields.links heap.freeList merged)
    (listed : merged.Perm (freeAddresses heap.firstBlock (front ++ block :: back)))
    (first : fields.sizeAndFlag (heap.firstBlock + total front) = block.size + flag.toNat)
    (following : fields.sizeAndFlag (heap.firstBlock + total front + block.size) = headSize tail back + mark.toNat)
    (repeated : block.use = .free → flag = true ∧ fields.prevSize (heap.firstBlock + total front + block.size) = block.size)
    (sizes : ∀ addr, addr < heap.firstBlock + total front ∨ heap.firstBlock + total front + block.size < addr → fields.sizeAndFlag addr = heap.sizeAndFlag addr)
    (repeats : ∀ addr, addr ≤ heap.firstBlock + total front ∨ heap.firstBlock + total front + block.size < addr → fields.prevSize addr = heap.prevSize addr)
    (stats : Statistics) :
    Represents (heap.renew memory stats) (front ++ block :: back) merged tail := by
  have geom := rep.geometry
  obtain ⟨edited, sizedCovered, linkedCovered⟩ := geom.merge block covered solid nonempty use
  exact represents_of_view heap memory stats _ _ fields _ _ _ edited rep.tailEven view
    sizedCovered linkedCovered
    (tiles_merge heap.headers fields tail heap.firstBlock front middle back block flag mark covered
      geom.positive rep.tiles stored use marks separated first following repeated sizes
      repeats) ring listed ((repeats _ (.inl (by omega))).trans rep.firstLink)

/-- The statistics play no role in the representation. -/
theorem congr_stats (rep : Represents heap blocks nodes tail) (stats : Statistics) :
    Represents (heap.renew heap.memory stats) blocks nodes tail :=
  { rep with geometry := rep.geometry.congr heap.memory stats }

section

variable {front back : List Block} {block : Block}
  (rep : Represents heap (front ++ block :: back) nodes tail)
include rep

/-- Block addresses and the space behind them do not wrap. -/
theorem block_bound :
    heap.firstBlock + total front + block.size + 2 * port.wordSize < port.modulus := by
  have last := rep.geometry.last
  have bound := rep.geometry.bounded
  simp only [total_append, total_cons] at last
  omega

/-- The successor of a block has size words. -/
theorem next_sized :
    heap.firstBlock + total front + block.size ∈ sizedBlocks heap (front ++ block :: back) := by
  have cut := Geometry.cut_sized (front ++ [block]) back (by simpa using rep.geometry)
  simpa [Nat.add_assoc] using cut

end

theorem size_bound {size : Nat} {use : Use}
    (rep : Represents heap (front ++ ⟨size, use⟩ :: back) nodes tail) :
    heap.firstBlock + total front + size + 2 * port.wordSize < port.modulus :=
  rep.block_bound

/-- The allocation area of every block starts on a page. -/
theorem block_aligned (rep : Represents heap (front ++ back) nodes tail) :
    heap.pageSize ∣ heap.firstBlock + total front + 2 * port.wordSize := by
  have part := rep.geometry.partPage front (fun block mem => by simp [mem])
  have sum := Nat.dvd_add rep.geometry.aligned part
  rwa [show heap.firstBlock + 2 * port.wordSize + total front =
    heap.firstBlock + total front + 2 * port.wordSize by omega] at sum

end Represents

/-! ## Reading a represented heap -/

section Words

variable (heap : Control port) (block size : Nat) (flag : Bool)

theorem blockSize_of_word (even : 2 ∣ size) (stored : heap.sizeAndFlag block = size + flag.toNat) :
    heap.blockSize block = size := by
  rw [Control.blockSize, stored, clearFlag_of_even size even flag]

theorem isPrevUsed_of_word (even : 2 ∣ size)
    (stored : heap.sizeAndFlag block = size + flag.toNat) : heap.isPrevUsed block = flag := by
  rw [Control.isPrevUsed, stored, flag_of_even size even flag]
  cases flag <;> rfl

end Words

/-- The size words around one block of the list. -/
structure Decoded (heap : Control port) (tail : Ends) (front : List Block) (block : Block)
    (back : List Block) (outer inner : Bool) : Prop where
  before : Front heap.headers tail heap.firstBlock true front outer
  header : Header heap.headers tail (heap.firstBlock + total front) outer block
  marks : Marks block.use inner
  after : Tiles heap.headers tail (heap.firstBlock + total front + block.size) inner back

namespace Represents

variable {heap : Control port} {nodes : List Nat} {tail : Ends} {front back : List Block}
  {block : Block}

theorem decode (rep : Represents heap (front ++ block :: back) nodes tail) :
    ∃ outer inner, Decoded heap tail front block back outer inner := by
  obtain ⟨outer, before, header, inner, marks, after⟩ :=
    (tiles_append _ _ _ _ front (block :: back)).mp rep.tiles
  exact ⟨outer, inner, before, header, marks, after⟩

/-- The value in the first size word of what follows is even. -/
theorem headSize_even (front : List Block)
    (rep : Represents heap (front ++ back) nodes tail) : 2 ∣ headSize tail back := by
  cases back with
  | nil => exact rep.tailEven
  | cons next rest => exact rep.geometry.sizeEven next (by simp)

/-- An address inside a block that is not free is neither the free list head nor a
free block. -/
theorem fresh (rep : Represents heap (front ++ block :: back) nodes tail)
    (notFree : block.use ≠ .free) (solid : block.use ≠ .gap) (offset : Nat)
    (inside : offset < block.size) :
    heap.firstBlock + total front + offset ∉ heap.freeList :: nodes := by
  have word := port.wordSize_pos
  have place : (heap.firstBlock + total front, block) ∈
      placed heap.firstBlock (front ++ block :: back) := by simp
  rw [mem_cons, rep.listed.mem_iff, mem_freeAddresses]
  rintro (head | ⟨size, free⟩)
  · have clear := rep.geometry.clear _ place
    simp only [Clear, solid, if_false] at clear
    omega
  · have positive := rep.geometry.positive _ (placed_mem _ _ _ _ free)
    rcases placed_apart _ _ _ _ place free with same | far
    · obtain ⟨-, rfl⟩ := Prod.mk.inj same
      exact notFree rfl
    · simp only at far positive
      omega

end Represents

namespace Decoded

variable {heap : Control port} {nodes : List Nat} {tail : Ends} {front back : List Block}
  {block : Block} {outer inner : Bool}

section

variable (decoded : Decoded heap tail front block back outer inner)
include decoded

theorem blockSize (rep : Represents heap (front ++ block :: back) nodes tail) :
    heap.blockSize (heap.firstBlock + total front) = block.size :=
  blockSize_of_word heap _ _ outer (rep.geometry.sizeEven block (by simp)) decoded.header.1

theorem isPrevUsed (rep : Represents heap (front ++ block :: back) nodes tail) :
    heap.isPrevUsed (heap.firstBlock + total front) = outer :=
  isPrevUsed_of_word heap _ _ outer (rep.geometry.sizeEven block (by simp)) decoded.header.1

theorem next_word :
    heap.sizeAndFlag (heap.firstBlock + total front + block.size) = headSize tail back + inner.toNat :=
  tiles_head _ _ _ _ _ decoded.after

theorem next_isPrevUsed (rep : Represents heap (front ++ block :: back) nodes tail) :
    heap.isPrevUsed (heap.firstBlock + total front + block.size) = inner := by
  have split : front ++ block :: back = (front ++ [block]) ++ back := by simp
  rw [split] at rep
  exact isPrevUsed_of_word heap _ _ inner (rep.headSize_even _) decoded.next_word

end

end Decoded

/-- The word behind a block that ends a region of the list. -/
theorem Represents.decode_behind {nodes : List Nat} {tail : Ends} {block : Block}
    (middle : List Block) (rep : Represents heap (front ++ (middle ++ block :: back)) nodes tail) :
    heap.firstBlock + total front + (total middle + block.size) + 2 * port.wordSize < port.modulus ∧
      ∃ inner, Marks block.use inner ∧
        heap.sizeAndFlag (heap.firstBlock + total front + (total middle + block.size)) =
          headSize tail back + inner.toNat := by
  rw [← List.append_assoc] at rep
  have place : heap.firstBlock + total front + (total middle + block.size) =
      heap.firstBlock + total (front ++ middle) + block.size := by simp [Nat.add_assoc]
  obtain ⟨outer, inner, decoded⟩ := rep.decode
  rw [place]
  exact ⟨rep.block_bound, inner, decoded.marks, decoded.next_word⟩

end Rtems.Heap
