import Rtems.Heap.Allocate
import Rtems.Heap.Resize

/-!
# Used blocks and the allocations that own them

Every operation changes the set of used blocks in the way its caller expects: an
allocation adds the block of the returned address, a free removes one block and a
resize keeps all of them. The lemmas state this for the addresses of the used
blocks, and for the user data that may be written into a used block.
-/

namespace Rtems.Heap

open ByteMemory LinkRing Alignment

variable {port : Port} {link : Nat → Nat}

/-- The used blocks in address order, with their addresses and sizes. Gaps are not
among them. -/
def usedPlaces (start : Nat) (blocks : List Block) : List (Nat × Nat) :=
  ((placed start blocks).filter fun entry => entry.2.use == .used).map
    fun entry => (entry.1, entry.2.size)

@[simp] theorem usedPlaces_nil (start : Nat) : usedPlaces start [] = [] := rfl

theorem usedPlaces_cons (start : Nat) (block : Block) (rest : List Block) :
    usedPlaces start (block :: rest) = (if block.use = .used then [(start, block.size)] else []) ++
        usedPlaces (start + block.size) rest := by
  by_cases used : block.use = .used <;> simp [usedPlaces, used]

@[simp] theorem usedPlaces_append (start : Nat) (front back : List Block) :
    usedPlaces start (front ++ back) =
      usedPlaces start front ++ usedPlaces (start + total front) back := by
  simp [usedPlaces]

theorem mem_usedPlaces (start addr size : Nat) (blocks : List Block) :
    (addr, size) ∈ usedPlaces start blocks ↔ (addr, ⟨size, .used⟩) ∈ placed start blocks := by
  simp only [usedPlaces, List.mem_map, List.mem_filter, beq_iff_eq, Prod.exists, Prod.mk.injEq]
  constructor
  · rintro ⟨place, ⟨size, use⟩, ⟨mem, rfl⟩, rfl, rfl⟩
    exact mem
  · intro mem
    exact ⟨addr, ⟨size, .used⟩, ⟨mem, rfl⟩, rfl, rfl⟩

/-! ## Effect of the operations on the used blocks -/

section Effect

variable {heap result : Control port} {blocks blocks' : List Block} {nodes nodes' : List Nat}

/-- The parts of a carved block cover it. -/
theorem carve_total (heap : Control port) (size allocSize : Nat)
    (fits : heap.Splits size allocSize → heap.usedBlockSize allocSize ≤ size) :
    total (heap.carve size allocSize) = size := by
  unfold Control.carve
  split
  · rename_i splits
    have below := fits splits
    simp
    omega
  · simp

/-- Carving leaves the used block at the begin. -/
theorem carve_used (heap : Control port) (start size allocSize : Nat) :
    usedPlaces start (heap.carve size allocSize) = [(start, heap.carvedSize size allocSize)] := by
  unfold Control.carve Control.carvedSize
  split <;> simp [usedPlaces_cons]

variable {size : Nat}

/-- Whatever a block is carved for fits into the used block that is left, counted
from the begin of its allocation area. -/
theorem carvedSize_fits (allocSize : Nat) (shape : Geometry heap blocks)
    (page : heap.pageSize ∣ size) (bounded : size < port.modulus)
    (fits : allocSize + port.wordSize ≤ size) :
    allocSize + port.wordSize ≤ heap.carvedSize size allocSize := by
  unfold Control.carvedSize
  split
  · rename_i splits
    have spec := usedBlockSize_spec shape size allocSize page bounded splits
    omega
  · exact fits

/-- A resize keeps the used blocks apart from the size of its own block, into which
the new size fits. -/
theorem Resizing.used_same {start newSize block : Nat} {status : ResizeStatus}
    (sound : Consistent link heap blocks nodes)
    (located : Locates port heap.pageSize block start)
    (resizing : Resizing heap start newSize blocks nodes block status result blocks' nodes') :
    (status = .unsatisfied ∧ blocks' = blocks ∧ result = heap) ∨
      ∃ oldSize size others, status = .successful ∧
        (usedPlaces heap.firstBlock blocks).Perm ((block, oldSize) :: others) ∧
        (usedPlaces heap.firstBlock blocks').Perm ((block, size) :: others) ∧
        start + newSize ≤ block + size + port.wordSize := by
  have geom := sound.represents.geometry
  have above := located.1
  cases resizing with
  | unsatisfied => exact .inl ⟨rfl, rfl, rfl⟩
  | alone front back size nodes memory below =>
    have bounded := sound.represents.size_bound
    have page : heap.pageSize ∣ size := (geom.shape ⟨size, .used⟩ (by simp)).1
    generalize amount : newSize +
      (start - (heap.firstBlock + total front + 2 * port.wordSize)) = allocSize
    have fits := carvedSize_fits allocSize geom page (by omega) (by omega)
    have covered := carve_total heap size allocSize fun splits => by
      have spec := usedBlockSize_spec geom size _ page (by omega) splits
      omega
    refine .inr ⟨size, heap.carvedSize size allocSize, usedPlaces heap.firstBlock front ++
      usedPlaces (heap.firstBlock + total front + size) back, rfl, ?_, ?_, by omega⟩
    · simp only [usedPlaces_append]
      exact List.perm_middle
    · simp only [usedPlaces_append, carve_used, covered]
      exact List.perm_middle
  | absorbing front back size nextSize before after memory below =>
    have upper : Represents heap ((front ++ [⟨size, .used⟩]) ++ ⟨nextSize, .free⟩ :: back)
        (before ++ (heap.firstBlock + total front + size) :: after)
        ⟨port.sub heap.firstBlock heap.lastBlock, link⟩ := by
      simpa using sound.represents
    have bounded := upper.block_bound
    simp only [total_append, total_cons] at bounded
    have page : heap.pageSize ∣ size + nextSize :=
      Nat.dvd_add (geom.shape ⟨size, .used⟩ (by simp)).1 (geom.shape ⟨nextSize, .free⟩ (by simp)).1
    generalize amount : newSize +
      (start - (heap.firstBlock + total front + 2 * port.wordSize)) = allocSize
    have fits := carvedSize_fits allocSize geom page (by omega) (by omega)
    have covered := carve_total heap (size + nextSize) allocSize fun splits => by
      have spec := usedBlockSize_spec geom (size + nextSize) _ page (by omega) splits
      omega
    refine .inr ⟨size, heap.carvedSize (size + nextSize) allocSize,
      usedPlaces heap.firstBlock front ++
        usedPlaces (heap.firstBlock + total front + size + nextSize) back, rfl, ?_, ?_, by omega⟩
    · simp only [usedPlaces_append]
      exact List.perm_middle
    · simp only [usedPlaces_append, carve_used, covered]
      rw [← Nat.add_assoc]
      exact List.perm_middle

/-- A free removes its block. -/
theorem Release.used_removed {block : Nat}
    (release : Release heap blocks nodes block size result blocks' nodes') :
    (usedPlaces heap.firstBlock blocks).Perm ((block, size) :: usedPlaces heap.firstBlock blocks') := by
  cases release with
  | alone front back size nodes memory =>
    simp [usedPlaces_cons]
  | next | prev | both =>
    simp [usedPlaces_cons, Nat.add_assoc]

/-- A successful allocation adds one block, and the returned address lies in the
first page of its allocation area. -/
theorem Allocation.used_added {allocSize alignment boundary start : Nat}
    (sound : Consistent link heap blocks nodes) (allocation : Allocation heap blocks nodes
      allocSize alignment boundary start result blocks' nodes') :
    (start = 0 ∧ blocks' = blocks) ∨
      ∃ front size back block, start ≠ 0 ∧ blocks = front ++ ⟨size, .free⟩ :: back ∧
        heap.firstFit allocSize alignment boundary = some (heap.firstBlock + total front, start) ∧
        Suitable heap allocSize alignment boundary (heap.firstBlock + total front) size start ∧
        block + 2 * port.wordSize = alignDown start heap.pageSize ∧
        Locates port heap.pageSize block start ∧ (usedPlaces heap.firstBlock blocks').Perm
          ((block, heap.allocatedSize (heap.firstBlock + total front) size start allocSize) ::
            usedPlaces heap.firstBlock blocks) := by
  cases allocation with
  | rejected | failed => exact .inl ⟨rfl, rfl⟩
  | placed front back size before after start searchCount memory blocksSplit nodesSplit nonzero
      chosen suitable =>
    subst blocksSplit
    have rep := sound.represents
    have geom := rep.geometry
    have bounded := rep.size_bound
    have shape := geom.shape ⟨size, .free⟩ (by simp)
    simp only at shape
    obtain ⟨above, below, freeValid, rest⟩ := suitable.admissible
    obtain ⟨freePage, freeEnd, freeBelow, freeZero⟩ := beginSize_spec heap.pageSize
      (heap.firstBlock + total front) start geom.pagePositive rep.block_aligned above
    have near := lt_down_add start heap.pageSize geom.pagePositive
    have rounded : down start heap.pageSize = alignDown start heap.pageSize := rfl
    refine .inr ⟨front, size, back, heap.firstBlock + total front +
      beginSize port heap.pageSize (heap.firstBlock + total front) start, nonzero, rfl, chosen,
      suitable, by omega, ⟨by omega, by omega⟩, ?_⟩
    by_cases whole : beginSize port heap.pageSize (heap.firstBlock + total front) start = 0
    · have covered := carve_total heap size
        (allocSize + (start - (heap.firstBlock + total front + 2 * port.wordSize)))
        fun splits => by
          have spec := usedBlockSize_spec geom size _ shape.1 (by omega) splits
          omega
      simp [Control.allocateBlocks, Control.allocatedSize, whole, usedPlaces_cons, carve_used,
        covered]
    · have covered := carve_total heap
        (size - beginSize port heap.pageSize (heap.firstBlock + total front) start) allocSize
        fun splits => by
          have spec := usedBlockSize_spec geom _ _ (Nat.dvd_sub shape.1 freePage) (by omega) splits
          omega
      have place : heap.firstBlock + total front +
          (beginSize port heap.pageSize (heap.firstBlock + total front) start +
            (size - beginSize port heap.pageSize (heap.firstBlock + total front) start)) =
          heap.firstBlock + total front + size := by omega
      simp only [Control.allocateBlocks, Control.allocatedSize, whole, if_false, List.cons_append,
        usedPlaces_append, usedPlaces_cons, reduceCtorEq, List.nil_append, carve_used, covered,
        Nat.add_assoc] at place ⊢
      rw [place]
      exact List.perm_middle

/-! ## User data -/

/-- A byte written into the allocation area of a used block, which reaches one word
into its successor, changes nothing that the heap reads. -/
theorem Represents.write {tail : Ends} {front back : List Block}
    (rep : Represents heap (front ++ ⟨size, .used⟩ :: back) nodes tail) (place : Nat)
    (byte : UInt8) (stats : Statistics)
    (above : heap.firstBlock + total front + 2 * port.wordSize ≤ place)
    (below : place < heap.firstBlock + total front + size + port.wordSize) :
    Represents (heap.renew (poke heap.memory place byte) stats)
      (front ++ ⟨size, .used⟩ :: back) nodes tail := by
  have geom := rep.geometry
  have large := geom.minLarge
  have here : (heap.firstBlock + total front, (⟨size, .used⟩ : Block)) ∈
      placed heap.firstBlock (front ++ ⟨size, .used⟩ :: back) := by simp
  have least : ∀ entry ∈ placed heap.firstBlock (front ++ ⟨size, .used⟩ :: back),
      4 * port.wordSize ≤ entry.2.size := fun entry mem =>
    large.trans (geom.shape _ (placed_mem _ entry.1 entry.2 _ mem)).2
  have unread : ∀ addr, addr + port.wordSize ≤ place ∨ place < addr →
      (heap.renew (poke heap.memory place byte) stats).word addr = heap.word addr :=
    fun addr apart => load_poke_disjoint heap.memory place byte addr port.wordSize apart
  have linkWords : ∀ node ∈ heap.freeList :: nodes,
      node + 4 * port.wordSize ≤ place ∨ place < node + 2 * port.wordSize := by
    intro node mem
    rcases List.mem_cons.mp mem with rfl | mem
    · have clear := geom.clear _ here
      simp only [Clear, reduceCtorEq, if_false] at clear
      omega
    · obtain ⟨other, free⟩ := (mem_freeAddresses _ _ _).mp (rep.listed.mem_iff.mp mem)
      have room := least _ free
      rcases placed_apart _ _ _ _ here free with same | far
      · simp at same
      · simp only at far room
        omega
  refine ⟨geom.congr _ _, rep.tailEven, ?_, ?_, ?_, rep.listed⟩
  · exact (unread heap.firstBlock (by omega)).trans rep.firstLink
  · apply tiles_agree heap.headers _ tail _ _ _ rep.tiles
    · intro entry mem
      apply unread
      rcases placed_apart _ _ _ _ here mem with rfl | far
      · omega
      · simp only at far
        omega
    · intro entry mem notUsed
      have room := least _ mem
      apply unread
      rcases placed_apart _ _ _ _ here mem with rfl | far
      · exact absurd rfl notUsed
      · simp only at far
        omega
    · apply unread
      simp only [total_append, total_cons]
      omega
  · apply ring_congr heap.headers.links _ _ _ rep.ring
    iterate 2
      · intro node mem
        have apart := linkWords node mem
        exact unread _ (by omega)

/-- User data does not affect the consistency of the heap. -/
theorem Consistent.write {front back : List Block}
    (sound : Consistent link heap (front ++ ⟨size, .used⟩ :: back) nodes) (place : Nat)
    (byte : UInt8) (above : heap.firstBlock + total front + 2 * port.wordSize ≤ place)
    (below : place < heap.firstBlock + total front + size + port.wordSize) :
    Consistent link (heap.renew (poke heap.memory place byte) heap.stats)
      (front ++ ⟨size, .used⟩ :: back) nodes :=
  ⟨sound.represents.write place byte heap.stats above below, sound.settled⟩

end Effect

end Rtems.Heap
