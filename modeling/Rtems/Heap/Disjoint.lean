import Rtems.Heap.Runs

/-!
# Where allocations lie

`_Heap_Check_block` chooses the address of an allocation and `_Heap_Block_allocate`
cuts the block. If the address lies in the first page of the free block, the cut
takes the offset of the address in its page into account. If the block is cut from
the end it does not: the used block is cut for the size alone, and the allocation
can end behind it. `DropsOffset` is the exact condition for this; without it the
allocations in use lie in their blocks and overlap neither each other nor anything
that the heap reads.
-/

namespace Rtems.Heap

open ByteMemory LinkRing Alignment Transition
open List (mem_cons mem_cons_self mem_map)
open Prod (fst mk)

variable {port : Port} {link : Nat → Nat}

/-- A free block is cut from its end and split, and the used part of it, which is cut
for the size of the allocation only, is too short for the offset of the address in
its page. -/
def Control.DropsOffset (heap : Control port) (block size allocBegin allocSize : Nat) : Prop :=
  beginSize port heap.pageSize block allocBegin ≠ 0 ∧
    heap.Splits (size - beginSize port heap.pageSize block allocBegin) allocSize ∧
    heap.usedBlockSize allocSize + port.allocBonus <
      port.headerSize + allocBegin % heap.pageSize + allocSize
deriving Decidable

/-- The free block that an allocation finds first is not cut too short. -/
def Control.Careful (heap : Control port) (allocSize alignment boundary : Nat) : Prop :=
  match heap.firstFit allocSize alignment boundary with
  | none => True
  | some (block, allocBegin) =>
      allocBegin ≠ 0 → ¬ heap.DropsOffset block (heap.blockSize block) allocBegin allocSize

instance (heap : Control port) (allocSize alignment boundary : Nat) :
    Decidable (heap.Careful allocSize alignment boundary) :=
  match fits : heap.firstFit allocSize alignment boundary with
  | none => .isTrue (by simp [Control.Careful, fits])
  | some (block, allocBegin) =>
    decidable_of_iff (allocBegin ≠ 0 →
      ¬ heap.DropsOffset block (heap.blockSize block) allocBegin allocSize)
      (by simp [Control.Careful, fits])

/-- No allocation drops its offset. -/
def CarefulStep (state : System port) : Operation port → Prop
  | .allocate size alignment boundary => state.heap.Careful size alignment boundary
  | _ => True

instance (state : System port) (operation : Operation port) :
    Decidable (CarefulStep state operation) :=
  match operation with
  | .allocate size alignment boundary =>
    inferInstanceAs (Decidable (state.heap.Careful size alignment boundary))
  | .resize .. | .free _ | .write .. => .isTrue trivial

/-- An address range lies in the allocation area of a block. -/
def Control.Contains (heap : Control port) (block address size : Nat) : Prop :=
  block + port.headerSize ≤ address ∧
    address + size ≤ block + heap.blockSize block + port.allocBonus

/-- Two address ranges, given by begin and size, do not overlap. -/
def Beside (left leftSize right rightSize : Nat) : Prop :=
  left + leftSize ≤ right ∨ right + rightSize ≤ left

/-- The allocations in use lie in the areas of their used blocks. They overlap neither
each other, nor a size field, nor the links of a free block, nor a repeated size in
use, which is the one behind a free block and the one of the first block. -/
structure WellPlaced (state : System port) (seen : List (Nat × Nat × Bool)) : Prop where
  contained : ∀ grant ∈ state.live, ∃ size, (state.owner grant.address, size, true) ∈ seen ∧
    state.heap.Contains (state.owner grant.address) grant.address grant.size
  disjoint : state.live.Pairwise fun left right =>
    Beside left.address left.size right.address right.size
  sizes : ∀ grant ∈ state.live, ∀ block ∈ seen.map fst ++ [state.heap.lastBlock],
    Beside grant.address grant.size (block + port.wordSize) port.wordSize
  links : ∀ grant ∈ state.live, ∀ entry ∈ seen, entry.2.2 = false →
    Beside grant.address grant.size (entry.1 + port.wordSize) (3 * port.wordSize)
  repeats : ∀ grant ∈ state.live, ∀ entry ∈ seen, entry.2.2 = false →
    Beside grant.address grant.size (entry.1 + entry.2.1) port.wordSize
  first : ∀ grant ∈ state.live,
    Beside grant.address grant.size state.heap.firstBlock port.wordSize

/-! ## One allocation -/

section Allocation

variable {heap : Control port} {front back : List Block} {nodes : List Nat}
  {size allocSize align edge start : Nat}

/-- An allocation ends inside its used block exactly if it does not drop its offset. -/
theorem allocatedSize_fits (sound : Consistent link heap (front ++ ⟨size, .free⟩ :: back) nodes)
    (suitable : Suitable heap allocSize align edge (heap.firstBlock + total front) size start) :
    start + allocSize + 2 * port.wordSize ≤ alignDown start heap.pageSize +
        heap.allocatedSize (heap.firstBlock + total front) size start allocSize + port.wordSize ↔
      ¬ heap.DropsOffset (heap.firstBlock + total front) size start allocSize := by
  have rep := sound.represents
  have geometry := rep.geometry
  have bounded := rep.size_bound
  have page : heap.pageSize ∣ size := (geometry.shape ⟨size, .free⟩ (by simp)).1
  obtain ⟨above, below, freeValid, rest⟩ := suitable.admissible
  obtain ⟨freePage, freeEnd, freeBelow, freeZero⟩ := beginSize_spec heap.pageSize
    (heap.firstBlock + total front) start geometry.pagePositive rep.block_aligned above
  have offset : alignDown start heap.pageSize + start % heap.pageSize = start := by
    have whole := Nat.mod_le start heap.pageSize
    unfold alignDown down
    omega
  have header : port.headerSize = 2 * port.wordSize := rfl
  have bonus : port.allocBonus = port.wordSize := rfl
  by_cases whole : beginSize port heap.pageSize (heap.firstBlock + total front) start = 0
  · have fits := carvedSize_fits (allocSize + (start -
      (heap.firstBlock + total front + 2 * port.wordSize))) geometry page (by omega) (by omega)
    simp only [Control.DropsOffset, Control.allocatedSize, whole, if_true, not_true_eq_false,
      false_and, not_false_eq_true, iff_true]
    omega
  · simp only [Control.DropsOffset, Control.allocatedSize, whole, if_false, ne_eq,
      not_false_eq_true, true_and, Control.carvedSize]
    split
    · rename_i splits
      simp only [splits, true_and]
      omega
    · rename_i unsplit
      simp only [unsplit, false_and, not_false_eq_true, iff_true]
      omega

end Allocation

/-! ## The allocations in use -/

/-- The run invariant together with the ends of the allocations in use. -/
structure Fitting (link : Nat → Nat) (state : System port) (blocks : List Block)
    (nodes : List Nat) : Prop where
  sound : Sound link state blocks nodes
  fits : ∀ grant ∈ state.live, ∀ size,
    (state.owner grant.address, size) ∈ usedPlaces state.heap.firstBlock blocks →
      grant.address + grant.size ≤ state.owner grant.address + size + port.wordSize

/-- Used blocks are in the order of their addresses. -/
theorem usedPlaces_ascending (start : Nat) (blocks : List Block)
    (positive : ∀ block ∈ blocks, 0 < block.size) :
    ((usedPlaces start blocks).map fst).Pairwise (· < ·) := by
  have ascending := (List.pairwise_append.mp (visible_ascending start blocks positive)).1
  have same : (visible start blocks).map fst = (placed start blocks).map fst := by
    simp [visible]
  rw [same] at ascending
  have part : (usedPlaces start blocks).map fst =
      ((placed start blocks).filter fun entry => entry.2.use == .used).map fst := by
    simp [usedPlaces]
  rw [part]
  exact ascending.sublist (List.filter_sublist.map fst)

/-- Used blocks have different addresses. -/
theorem usedPlaces_nodup (start : Nat) (blocks : List Block)
    (positive : ∀ block ∈ blocks, 0 < block.size) :
    ((usedPlaces start blocks).map fst).Nodup :=
  (usedPlaces_ascending start blocks positive).imp Nat.ne_of_lt

section Step

variable {st next : System port} {blocks blocks' : List Block} {nodes nodes' : List Nat}

/-- The size of a used block is determined by its address. -/
theorem Sound.used_unique (sound : Sound link st blocks nodes) (block size other : Nat)
    (first : (block, size) ∈ usedPlaces st.heap.firstBlock blocks)
    (second : (block, other) ∈ usedPlaces st.heap.firstBlock blocks) : size = other := by
  have nodup := usedPlaces_nodup st.heap.firstBlock blocks
    sound.consistent.represents.geometry.positive
  exact (mk.inj (List.inj_on_of_nodup_map nodup first second rfl)).2

/-- An allocation in use that is found in the same block is the same one. -/
theorem Sound.owner_unique (sound : Sound link st blocks nodes) (left right : Grant)
    (first : left ∈ st.live) (second : right ∈ st.live)
    (same : st.owner left.address = st.owner right.address) : left = right := by
  have nodup := sound.owners.nodup_iff.mpr (usedPlaces_nodup st.heap.firstBlock blocks
    sound.consistent.represents.geometry.positive)
  exact List.inj_on_of_nodup_map nodup first second same

/-- Allocations that fit into their blocks reach them. -/
theorem Fitting.reaches (fitting : Fitting link st blocks nodes) (op : Operation port)
    (taken : st.step op = some next) : ResizeReaches st op := by
  cases op with
  | resize addr size =>
    simp only [System.step] at taken
    split at taken
    · rename_i live
      obtain ⟨front, blockSize, back, rfl, owner, -, -⟩ := fitting.sound.live_block addr live
      obtain ⟨grant, mem, rfl⟩ := mem_map.mp live
      have value := fitting.sound.consistent.blockSize
      have fits := fitting.fits grant mem blockSize ((mem_usedPlaces _ _ _ _).mpr (by simp [owner]))
      refine .inl ?_
      rw [owner, value]
      simp only [Port.allocBonus]
      omega
    · simp at taken
  | allocate | free | write => trivial

/-- A careful step keeps the allocations in use inside their blocks. -/
theorem Fitting.step (fitting : Fitting link st blocks nodes) (op : Operation port)
    (careful : CarefulStep st op) (taken : st.step op = some next) :
    ∃ blocks' nodes', Fitting link next blocks' nodes' := by
  have sound := fitting.sound
  obtain ⟨blocks', nodes', effect, kept⟩ := sound.step op (fitting.reaches op taken) taken
  refine ⟨blocks', nodes', kept, ?_⟩
  cases effect with
  | allocate size align edge addr heap blocks' nodes' allocation =>
    obtain ⟨memory, stats, renewed⟩ :=
      (Effect.allocate size align edge addr heap blocks' nodes' allocation).renewed
    obtain rfl : heap = st.heap.renew memory stats := renewed
    rcases allocation.used_added sound.consistent with
      ⟨zero, rfl⟩ | ⟨front, blockSize, back, block, nonzero, rfl, chosen, suitable, place, located, used⟩
    · simp only [zero]
      exact fitting.fits
    · simp only [nonzero, if_false] at kept ⊢
      have owner : st.owner addr = block :=
        kept.consistent.block_of_used block _ addr (used.mem_iff.mpr mem_cons_self) located
      have value : st.heap.blockSize (st.heap.firstBlock + total front) = blockSize :=
        sound.consistent.blockSize
      have careful : st.heap.Careful size align edge := careful
      rw [Control.Careful, chosen] at careful
      simp only [value] at careful
      have fits := (allocatedSize_fits sound.consistent suitable).mpr (careful nonzero)
      intro grant mem granted inside
      have inside : (st.owner grant.address, granted) ∈ _ := used.mem_iff.mp inside
      rcases mem_cons.mp mem with rfl | mem
      · have same := kept.used_unique block granted _ (used.mem_iff.mpr (owner ▸ inside))
          (used.mem_iff.mpr mem_cons_self)
        have grantOwner : System.owner ⟨st.heap.renew memory stats,
            ⟨addr, ↑size⟩ :: st.live⟩ addr = block := owner
        simp only [grantOwner]
        omega
      · rcases mem_cons.mp inside with equal | inside
        · -- The new block was not used before, so no other allocation lies in it.
          have different := kept.owner_unique grant ⟨addr, size⟩ (by simp [mem]) (by simp)
            ((mk.inj equal).1.trans owner.symm)
          have nodup := (kept.owners.nodup_iff.mpr (usedPlaces_nodup _ _
            kept.consistent.represents.geometry.positive))
          rw [List.map_cons, List.nodup_cons] at nodup
          exact absurd (mem_map.mpr ⟨grant, mem, by rw [different]⟩) nodup.1
        · exact fitting.fits grant mem granted inside
  | free addr size heap blocks' nodes' live release =>
    obtain ⟨memory, stats, renewed⟩ :=
      (Effect.free addr size heap blocks' nodes' live release).renewed
    obtain rfl : heap = st.heap.renew memory stats := renewed
    intro grant mem granted inside
    exact fitting.fits grant (List.mem_of_mem_eraseP mem) granted
      (release.used_removed.mem_iff.mpr (List.mem_cons_of_mem _ inside))
  | resize addr size status heap blocks' nodes' live resizing =>
    obtain ⟨memory, stats, renewed⟩ :=
      (Effect.resize addr size status heap blocks' nodes' live resizing).renewed
    obtain rfl : heap = st.heap.renew memory stats := renewed
    obtain ⟨original, originalLive, rfl⟩ := mem_map.mp live
    rcases resizing.used_same sound.consistent (sound.granted original originalLive).2 with
      ⟨rfl, rfl, -⟩ | ⟨oldSize, newSize, others, rfl, before, after, below⟩
    · exact fitting.fits
    · intro grant mem granted inside
      obtain ⟨old, oldLive, rfl⟩ := mem_map.mp mem
      by_cases same : old.address = original.address
      · simp only [same] at inside ⊢
        have equal := kept.used_unique (st.owner original.address) granted newSize inside
          (after.mem_iff.mpr mem_cons_self)
        rw [equal]
        exact below
      · simp only [same] at inside ⊢
        have inside : (st.owner old.address, granted) ∈ _ := after.mem_iff.mp inside
        rcases mem_cons.mp inside with equal | inside
        · exact absurd (congrArg Grant.address (sound.owner_unique old original oldLive originalLive
            (mk.inj equal).1)) same
        · exact fitting.fits old oldLive granted
            (before.mem_iff.mpr (List.mem_cons_of_mem _ inside))
  | write addr place byte live inside => exact fitting.fits

theorem Fitting.initial (st : System port) (initial : Initial st) :
    ∃ link blocks nodes, Fitting link st blocks nodes := by
  obtain ⟨link, size, sound, -⟩ := initial.sound
  obtain ⟨memory, freeList, areaBegin, areaSize, requested, size, heap⟩ := initial
  exact ⟨link, _, _, sound, by simp⟩

/-- Allocations inside their blocks are well placed. -/
theorem Fitting.placed (fitting : Fitting link st blocks nodes) :
    WellPlaced st (visible st.heap.firstBlock blocks) := by
  have sound := fitting.sound
  have rep := sound.consistent.represents
  have geometry := rep.geometry
  have large := geometry.minLarge
  have last := geometry.last
  -- The range of an allocation, in terms of its block.
  have range : ∀ grant ∈ st.live, ∃ block size,
      (block, (⟨size, .used⟩ : Block)) ∈ Heap.placed st.heap.firstBlock blocks ∧
        st.owner grant.address = block ∧ st.heap.blockSize block = size ∧
        block + 2 * port.wordSize ≤ grant.address ∧
        grant.address + grant.size ≤ block + size + port.wordSize := by
    intro grant mem
    obtain ⟨front, size, back, rfl, owner, -, located⟩ :=
      sound.live_block grant.address (mem_map.mpr ⟨grant, mem, rfl⟩)
    have inside : (st.heap.firstBlock + total front, (⟨size, .used⟩ : Block)) ∈
        Heap.placed st.heap.firstBlock (front ++ ⟨size, .used⟩ :: back) := by simp
    have fits := fitting.fits grant mem size
      ((mem_usedPlaces _ _ _ _).mpr (by rw [owner]; exact inside))
    rw [owner] at fits
    exact ⟨_, size, inside, owner, sound.consistent.blockSize, located.1, fits⟩
  have least : ∀ entry ∈ Heap.placed st.heap.firstBlock blocks,
      4 * port.wordSize ≤ entry.2.size := fun entry mem =>
    large.trans (geometry.shape _ (placed_mem _ entry.1 entry.2 _ mem)).2
  refine ⟨?_, ?_, ?_, ?_, ?_, ?_⟩
  · intro grant mem
    obtain ⟨block, size, inside, owner, value, above, below⟩ := range grant mem
    refine ⟨size, ?_, ?_⟩
    · rw [owner]
      exact (mem_visible _ _ _).mpr ⟨_, _, inside, by simp⟩
    · rw [owner]
      exact ⟨above, by rw [value]; exact below⟩
  · have nodup := (sound.owners.nodup_iff.mpr (usedPlaces_nodup _ _ geometry.positive))
    rw [List.Nodup, List.pairwise_map] at nodup
    refine nodup.imp_of_mem ?_
    intro left right first second different
    obtain ⟨block, size, inside, owner, -, above, below⟩ := range left first
    obtain ⟨other, otherSize, otherInside, otherOwner, -, otherAbove, otherBelow⟩ := range right second
    rcases placed_apart _ _ _ _ inside otherInside with same | far
    · exact absurd (owner.trans ((mk.inj same).1.trans otherOwner.symm)) different
    · unfold Beside
      simp only at far
      omega
  · intro grant mem block inside
    obtain ⟨own, size, ownInside, -, -, above, below⟩ := range grant mem
    have bounds := placed_bounds _ _ _ _ ownInside
    unfold Beside
    rcases List.mem_append.mp inside with inside | inside
    · obtain ⟨entry, seen, rfl⟩ := mem_map.mp inside
      obtain ⟨addr, other, place, rfl⟩ := (mem_visible _ _ _).mp seen
      have room := least _ place
      rcases placed_apart _ _ _ _ ownInside place with same | far
      · obtain ⟨rfl, -⟩ := mk.inj same
        omega
      · simp only at far room ⊢
        omega
    · obtain rfl : block = st.heap.lastBlock := by simpa using inside
      simp only at bounds
      omega
  iterate 2
    · intro grant mem entry inside free
      obtain ⟨own, size, ownInside, -, -, above, below⟩ := range grant mem
      obtain ⟨addr, other, place, rfl⟩ := (mem_visible _ _ _).mp inside
      have room := least _ place
      unfold Beside
      rcases placed_apart _ _ _ _ ownInside place with same | far
      · obtain ⟨-, rfl⟩ := mk.inj same
        simp at free
      · simp only at far room ⊢
        omega
  · intro grant mem
    obtain ⟨own, size, ownInside, -, -, above, below⟩ := range grant mem
    have bounds := placed_bounds _ _ _ _ ownInside
    unfold Beside
    omega

end Step

end Rtems.Heap
