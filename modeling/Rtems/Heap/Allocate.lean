import Rtems.Heap.BlockAllocate

/-!
# Searching the free list

`_Heap_Allocate_aligned_with_boundary` walks the free list and takes the first
block for which `_Heap_Check_block` names an address. That routine works from the
end of the block downwards: it aligns, moves below the last position that leaves a
minimum block, steps over boundary lines and finally rejects an address that would
leave less than a minimum block at the begin. No sum or difference in it wraps as
long as the block is large enough for the allocation, which the caller checks with
one comparison against the stored size.

The two loops carry fuel. `checkBlock_spec` and `allocate_total` show that it never
runs out, so the modelled routine always returns.
-/

namespace Rtems.Heap

open ByteMemory LinkRing Alignment

variable {port : Port} {link : Nat → Nat}

/-- The boundary loop of `_Heap_Check_block`. The outer option is empty when the
fuel runs out, the inner one where the routine returns zero from inside the loop. -/
def boundaryLoop (port : Port) (allocSize alignment boundary boundaryFloor : Nat) :
    Nat → Nat → Option (Option Nat)
  | fuel, allocBegin =>
    let allocEnd := port.add allocBegin allocSize
    let boundaryLine := alignDown allocEnd boundary
    if allocBegin < boundaryLine ∧ boundaryLine < allocEnd then
      match fuel with
      | 0 => none
      | fuel + 1 =>
        if boundaryLine < boundaryFloor then some none
        else
          boundaryLoop port allocSize alignment boundary boundaryFloor fuel
            (alignDown (port.sub boundaryLine allocSize) alignment)
    else some (some allocBegin)

namespace Control

/-- The end of `_Heap_Check_block`, which ensures a valid new block at the begin. -/
def checkBegin (heap : Control port) (block allocBegin : Nat) : Nat :=
  if allocAreaOfBlock port block ≤ allocBegin then
    let allocBlockBegin := blockOfAllocArea port allocBegin heap.pageSize
    let freeSize := port.sub allocBlockBegin block
    if heap.minBlockSize ≤ freeSize ∨ freeSize = 0 then allocBegin else 0
  else 0

/-- `_Heap_Check_block`: an address for the allocation, or zero. -/
def checkBlock (heap : Control port) (block allocSize alignment boundary : Nat) : Option Nat :=
  let blockEnd := port.add block (heap.blockSize block)
  let allocBeginFloor := allocAreaOfBlock port block
  let allocBeginCeiling :=
    port.sub (port.add (port.add (port.sub blockEnd heap.minBlockSize) port.headerSize)
      heap.pageSize) 1
  let allocEnd := port.add blockEnd port.allocBonus
  let allocBegin := alignDown (port.sub allocEnd allocSize) alignment
  let allocBegin :=
    if allocBeginCeiling < allocBegin then alignDown allocBeginCeiling alignment else allocBegin
  let bounded :=
    if boundary ≠ 0 then
      boundaryLoop port allocSize alignment boundary (port.add allocBeginFloor allocSize)
        port.modulus allocBegin
    else some (some allocBegin)
  bounded.map fun
    | none => 0
    | some allocBegin => heap.checkBegin block allocBegin

/-- The test of one block in the free list search. -/
def tryBlock (heap : Control port) (blockSizeFloor allocSize alignment boundary block : Nat) :
    Option Nat :=
  if blockSizeFloor < heap.sizeAndFlag block then
    if alignment = 0 then some (allocAreaOfBlock port block)
    else heap.checkBlock block allocSize alignment boundary
  else some 0

/-- The free list search: the block where it stops, the address and the number of
visited blocks. -/
def searchFreeList (heap : Control port) (blockSizeFloor allocSize alignment boundary : Nat) :
    Nat → Nat → Nat → Option (Nat × Nat × Nat)
  | fuel, block, searchCount =>
    if block = heap.freeList then some (block, 0, searchCount)
    else
      match fuel with
      | 0 => none
      | fuel + 1 =>
        (heap.tryBlock blockSizeFloor allocSize alignment boundary block).bind fun allocBegin =>
          let searchCount := increment searchCount
          if allocBegin ≠ 0 then some (block, allocBegin, searchCount)
          else
            heap.searchFreeList blockSizeFloor allocSize alignment boundary fuel (heap.next block)
              searchCount

/-- The statistics of a successful allocation of a block. -/
def countAllocation (heap : Control port) (block searchCount : Nat) : Control port :=
  heap.countStats fun stats =>
    { stats with
      allocs := increment stats.allocs
      searches := wrapAdd (2 ^ 32) stats.searches searchCount
      lifetimeAllocated := wrapAdd (2 ^ 64) stats.lifetimeAllocated (heap.blockSize block) }

/-- `_Heap_Allocate_aligned_with_boundary`: the address of the allocation, or zero. -/
def allocateAlignedWithBoundary (heap : Control port) (allocSize alignment boundary : Nat) :
    Option (Nat × Control port) :=
  let blockSizeFloor := port.sub (port.add allocSize port.headerSize) port.allocBonus
  -- Integer overflow occurred
  if blockSizeFloor < allocSize then some (0, heap)
  else if boundary ≠ 0 ∧ boundary < allocSize then some (0, heap)
  else
    let alignment := if boundary ≠ 0 ∧ alignment = 0 then heap.pageSize else alignment
    (heap.searchFreeList blockSizeFloor allocSize alignment boundary port.modulus
      heap.freeListFirst 0).map fun (block, allocBegin, searchCount) =>
        let heap :=
          if allocBegin ≠ 0 then
            let (block, heap) := heap.blockAllocate block allocBegin allocSize
            heap.countAllocation block searchCount
          else heap.countStats fun stats =>
            { stats with failedAllocs := increment stats.failedAllocs }
        (allocBegin, heap.countStats fun stats =>
          { stats with maxSearch := max stats.maxSearch searchCount })

end Control

/-! ## The address chosen in one block -/

/-- No multiple of the boundary lies strictly inside the allocation. -/
def Uncrossed (boundary allocBegin allocSize : Nat) : Prop :=
  ∀ line, boundary ∣ line → ¬ (allocBegin < line ∧ line < allocBegin + allocSize)

/-- If the last boundary line up to the end does not lie strictly inside, none does. -/
theorem uncrossed_of_last (edge allocBegin allocSize : Nat) (wide : allocSize ≤ edge) (last
      : ¬ (allocBegin < down (allocBegin + allocSize) edge ∧ down (allocBegin + allocSize)
      edge < allocBegin + allocSize)) : Uncrossed edge allocBegin allocSize := by
  rintro line multiple ⟨above, below⟩
  have highest := le_down (allocBegin + allocSize) edge line multiple below.le
  have upper := down_le (allocBegin + allocSize) edge
  -- The last line is then the end itself, and the line before it is at or below the begin.
  have step := add_unit_le line (down (allocBegin + allocSize) edge) edge multiple
    (down_dvd _ _) (by omega)
  omega

/-- The loop ends before the fuel does, because the line moves down with every
step, and it only moves the allocation down by aligned steps. -/
theorem boundaryLoop_spec (port : Port) (allocSize align edge floor : Nat)
    (wide : allocSize ≤ edge) (fuel allocBegin : Nat)
    (enough : allocBegin < fuel) (aligned : align ∣ allocBegin)
    (bounded : allocBegin + allocSize < port.modulus) (holds : allocSize ≤ floor) :
    boundaryLoop port allocSize align edge floor fuel allocBegin = some none ∨
      ∃ chosen, boundaryLoop port allocSize align edge floor fuel allocBegin = some (some chosen) ∧
        align ∣ chosen ∧ chosen ≤ allocBegin ∧ Uncrossed edge chosen allocSize := by
  induction fuel generalizing allocBegin with
  | zero => omega
  | succ fuel ih =>
    have endValue : port.add allocBegin allocSize = allocBegin + allocSize :=
      port.add_of_lt _ _ bounded
    unfold boundaryLoop
    simp only [endValue, alignDown]
    split
    · split
      · exact .inl rfl
      · have value : port.sub (down (allocBegin + allocSize) edge) allocSize =
            down (allocBegin + allocSize) edge - allocSize :=
          port.sub_of_le _ _ (by omega) (by omega)
        rw [value]
        have lower := down_le (down (allocBegin + allocSize) edge - allocSize) align
        rcases ih (down (down (allocBegin + allocSize) edge - allocSize)
          align) (by omega) (down_dvd _ _) (by omega) with nothing | ⟨chosen, found, rest⟩
        · exact .inl nothing
        · exact .inr ⟨chosen, found, rest.1, by omega, rest.2.2⟩
    · rename_i uncrossed
      exact .inr ⟨allocBegin, rfl, aligned, le_refl _,
        uncrossed_of_last edge allocBegin allocSize wide uncrossed⟩

section Check

variable {heap : Control port} {front back : List Block} {block : Block} {nodes : List Nat}
  {tail : Ends}

section

variable (rep : Represents heap (front ++ block :: back) nodes tail)
include rep

/-- An address at or below the ceiling leaves a minimum block above its page. -/
theorem beginSize_of_ceiling
    (allocBegin : Nat) (above : heap.firstBlock + total front + 2 * port.wordSize ≤ allocBegin)
      (ceiling : allocBegin ≤ heap.firstBlock + total front + block.size - heap.minBlockSize + 2 *
      port.wordSize + heap.pageSize - 1) :
    beginSize port heap.pageSize (heap.firstBlock + total front) allocBegin + heap.minBlockSize ≤
      block.size := by
  have geometry := rep.geometry
  have shape := geometry.shape block (by simp)
  obtain ⟨page, finish, below, -⟩ := beginSize_spec heap.pageSize
    (heap.firstBlock + total front) allocBegin geometry.pagePositive rep.block_aligned above
  by_contra beyond
  -- Both sides are page multiples, so the addr would lie a page above the ceiling.
  have step := add_unit_le block.size
    (beginSize port heap.pageSize (heap.firstBlock + total front) allocBegin + heap.minBlockSize)
    heap.pageSize shape.1 (Nat.dvd_add page geometry.minPage) (by omega)
  omega

/-- An address that passes the last check is admissible if it is low enough. -/
theorem checkBegin_spec (allocBegin allocSize : Nat) (ceiling : allocBegin ≤ heap.firstBlock + total
      front + block.size - heap.minBlockSize + 2 * port.wordSize + heap.pageSize - 1)
    (below : allocBegin + allocSize ≤ heap.firstBlock + total front + block.size + port.wordSize)
    (found : heap.checkBegin (heap.firstBlock + total front) allocBegin ≠ 0) :
    heap.checkBegin (heap.firstBlock + total front) allocBegin = allocBegin ∧
      Admissible heap (heap.firstBlock + total front) block.size allocBegin allocSize := by
  have bounded := rep.block_bound
  have header : port.headerSize = 2 * port.wordSize := rfl
  have floorValue : allocAreaOfBlock port (heap.firstBlock + total front) =
      heap.firstBlock + total front + 2 * port.wordSize := port.add_of_lt _ _ (by omega)
  simp only [Control.checkBegin, floorValue] at found ⊢
  split at found
  · rename_i above
    obtain ⟨-, finish, pageBelow, -⟩ := beginSize_spec heap.pageSize
      (heap.firstBlock + total front) allocBegin rep.geometry.pagePositive
      rep.block_aligned above
    have freeValue : port.sub (blockOfAllocArea port allocBegin heap.pageSize)
        (heap.firstBlock + total front) =
        beginSize port heap.pageSize (heap.firstBlock + total front) allocBegin := by
      rw [blockOfAllocArea, ← finish, header,
        port.sub_of_le _ (2 * port.wordSize) (by omega) (by omega),
        port.sub_of_le _ (heap.firstBlock + total front) (by omega) (by omega)]
      omega
    rw [freeValue] at found ⊢
    split at found
    · rename_i valid
      simp only [above, valid, if_true, true_and]
      exact ⟨above, below, valid.symm, beginSize_of_ceiling rep allocBegin above ceiling⟩
    · exact absurd rfl found
  · exact absurd rfl found

/-- `_Heap_Check_block` always returns, and an address that it returns is
admissible, aligned and crosses no boundary. -/
theorem checkBlock_spec (allocSize align edge : Nat)
    (fits : allocSize + port.wordSize ≤ block.size) (wide : edge ≠ 0 → allocSize ≤ edge) :
    ∃ allocBegin, heap.checkBlock (heap.firstBlock + total front) allocSize align edge =
        some allocBegin ∧ (allocBegin ≠ 0 →
        Admissible heap (heap.firstBlock + total front) block.size allocBegin allocSize ∧
          align ∣ allocBegin ∧ (edge ≠ 0 → Uncrossed edge allocBegin allocSize)) := by
  have geometry := rep.geometry
  have word := port.wordSize_pos
  have pageMin := geometry.page_le_min
  have minimum := (geometry.shape block (by simp)).2
  have bounded := rep.block_bound
  obtain ⟨outer, inner, decoded⟩ := rep.decode
  have sizeValue := decoded.blockSize rep
  have header : port.headerSize = 2 * port.wordSize := rfl
  have bonus : port.allocBonus = port.wordSize := rfl
  have endValue : port.add (heap.firstBlock + total front) block.size =
      heap.firstBlock + total front + block.size := port.add_of_lt _ _ (by omega)
  have floorValue : allocAreaOfBlock port (heap.firstBlock + total front) =
      heap.firstBlock + total front + 2 * port.wordSize := port.add_of_lt _ _ (by omega)
  have ceilingValue : port.sub (port.add (port.add (port.sub
      (heap.firstBlock + total front + block.size) heap.minBlockSize) port.headerSize)
      heap.pageSize) 1 = heap.firstBlock + total front + block.size - heap.minBlockSize +
        2 * port.wordSize + heap.pageSize - 1 := by
    rw [header, port.sub_of_le _ heap.minBlockSize (by omega) (by omega),
      port.add_of_lt _ (2 * port.wordSize) (by omega), port.add_of_lt _ heap.pageSize (by omega),
      port.sub_of_le _ 1 (by omega) (by omega)]
  have beginValue : port.sub (port.add (heap.firstBlock + total front + block.size)
      port.allocBonus) allocSize =
      heap.firstBlock + total front + block.size + port.wordSize - allocSize := by
    rw [bonus, port.add_of_lt _ _ (by omega), port.sub_of_le _ _ (by omega) (by omega)]
  have boundaryFloor : port.add (heap.firstBlock + total front + 2 * port.wordSize) allocSize =
      heap.firstBlock + total front + 2 * port.wordSize + allocSize := port.add_of_lt _ _ (by omega)
  simp only [Control.checkBlock, sizeValue, endValue, floorValue, ceilingValue, beginValue,
    boundaryFloor, alignDown]
  generalize ceilingName : heap.firstBlock + total front + block.size - heap.minBlockSize +
    2 * port.wordSize + heap.pageSize - 1 = ceiling
  -- The candidate before the edge loop is aligned and below both limits.
  obtain ⟨candidate, candidateValue, candidateAligned, candidateCeiling, candidateEnd⟩ :
      ∃ candidate, (if ceiling < down (heap.firstBlock + total front + block.size + port.wordSize -
          allocSize) align then down ceiling align
        else down (heap.firstBlock + total front + block.size + port.wordSize - allocSize)
          align) = candidate ∧ align ∣ candidate ∧ candidate ≤ ceiling ∧
        candidate + allocSize ≤ heap.firstBlock + total front + block.size + port.wordSize := by
    have first := down_le ceiling align
    have second := down_le (heap.firstBlock + total front + block.size + port.wordSize - allocSize)
      align
    split
    · exact ⟨_, rfl, down_dvd _ _, first, by omega⟩
    · exact ⟨_, rfl, down_dvd _ _, by omega, by omega⟩
  rw [candidateValue]
  have final : ∀ chosen, align ∣ chosen → chosen ≤ candidate →
      (edge ≠ 0 → Uncrossed edge chosen allocSize) →
      heap.checkBegin (heap.firstBlock + total front) chosen ≠ 0 →
      Admissible heap (heap.firstBlock + total front) block.size
          (heap.checkBegin (heap.firstBlock + total front) chosen) allocSize ∧
        align ∣ heap.checkBegin (heap.firstBlock + total front) chosen ∧
        (edge ≠ 0 → Uncrossed edge
          (heap.checkBegin (heap.firstBlock + total front) chosen) allocSize) := by
    intro chosen aligned lower uncrossed found
    obtain ⟨same, admissible⟩ := checkBegin_spec rep chosen allocSize (by omega) (by omega) found
    rw [same]
    exact ⟨admissible, aligned, uncrossed⟩
  by_cases unbounded : edge = 0
  · simp only [unbounded]
    refine ⟨_, rfl, fun found => ?_⟩
    simpa [unbounded] using final candidate candidateAligned (le_refl _) (by simp [unbounded]) found
  · simp only [ne_eq, unbounded]
    rcases boundaryLoop_spec port allocSize align edge
        (heap.firstBlock + total front + 2 * port.wordSize + allocSize) (wide unbounded)
        port.modulus candidate (by omega) candidateAligned (by omega) (by omega) with
      nothing | ⟨chosen, found, aligned, lower, uncrossed⟩
    · exact ⟨0, by simp [nothing], by simp⟩
    · refine ⟨heap.checkBegin (heap.firstBlock + total front) chosen, by simp [found], ?_⟩
      simpa [unbounded] using final chosen aligned lower (fun _ => uncrossed)

end

end Check

/-! ## The free list search -/

/-- What an allocation address promises to the caller, in a block of some size. -/
structure Suitable (heap : Control port) (allocSize alignment boundary block size allocBegin : Nat) :
    Prop where
  admissible : Admissible heap block size allocBegin allocSize
  aligned : alignment ≠ 0 → alignment ∣ allocBegin
  uncrossed : boundary ≠ 0 → Uncrossed boundary allocBegin allocSize

section Search

variable {heap : Control port} {blocks : List Block} {nodes : List Nat} {tail : Ends}

/-- A member of the free list is a free block of the block list. -/
theorem Represents.node_block (rep : Represents heap blocks nodes tail) (node : Nat)
    (member : node ∈ nodes) :
    ∃ front size back, blocks = front ++ ⟨size, .free⟩ :: back ∧
      node = heap.firstBlock + total front := by
  obtain ⟨size, place⟩ := (mem_freeAddresses _ _ _).mp (rep.listed.mem_iff.mp member)
  obtain ⟨front, back, split, addr⟩ := placed_split _ _ _ _ place
  exact ⟨front, size, back, split, addr⟩

/-- Testing a free block always gives an answer, and a found address is suitable. -/
theorem tryBlock_spec {front back : List Block} {size : Nat}
    (rep : Represents heap (front ++ ⟨size, .free⟩ :: back) nodes tail)
    (allocSize align edge : Nat) (wide : edge ≠ 0 → allocSize ≤ edge)
    (defaulted : align = 0 → edge = 0) :
    ∃ allocBegin, heap.tryBlock (allocSize + port.wordSize) allocSize align edge
        (heap.firstBlock + total front) = some allocBegin ∧
      (allocBegin ≠ 0 → Suitable heap allocSize align edge
        (heap.firstBlock + total front) size allocBegin) := by
  have bounded := rep.size_bound
  obtain ⟨outer, inner, decoded⟩ := rep.decode
  have stored : heap.sizeAndFlag (heap.firstBlock + total front) = size + 1 := by
    have used := (decoded.header.2.1 rfl).1
    have word := decoded.header.1
    rwa [used] at word
  simp only [Control.tryBlock]
  split
  · have fits : allocSize + port.wordSize ≤ size := by omega
    split
    · rename_i unaligned
      have floorValue : allocAreaOfBlock port (heap.firstBlock + total front) =
          heap.firstBlock + total front + 2 * port.wordSize :=
        port.add_of_lt _ _ (by simp only [Port.headerSize]; omega)
      have nothing : beginSize port heap.pageSize (heap.firstBlock + total front)
          (heap.firstBlock + total front + 2 * port.wordSize) = 0 := by
        simp [beginSize, alignDown, down]
      have minimum := (rep.geometry.shape ⟨size, .free⟩ (by simp)).2
      refine ⟨_, rfl, fun _ => ?_⟩
      rw [floorValue]
      refine ⟨⟨le_refl _, by omega, .inl nothing, by simpa [nothing] using minimum⟩, ?_, ?_⟩
      · exact fun aligned => absurd unaligned aligned
      · exact fun bounded => absurd (defaulted unaligned) bounded
    · obtain ⟨allocBegin, found, promise⟩ := checkBlock_spec rep allocSize align edge fits wide
      exact ⟨allocBegin, found, fun nonzero =>
        ⟨(promise nonzero).1, fun _ => (promise nonzero).2.1, (promise nonzero).2.2⟩⟩
  · exact ⟨0, rfl, by simp⟩

/-- The search visits the remaining members in order and stops at the first one
for which the test names an address.

Induction on the remaining members; each step follows one link of the ring. -/
theorem searchFreeList_spec (rep : Represents heap blocks nodes tail)
    (floor allocSize align edge : Nat) (before rest : List Nat) (split : nodes = before ++ rest)
    (answers : ∀ node ∈ rest, ∃ allocBegin,
      heap.tryBlock floor allocSize align edge node = some allocBegin)
    (fuel searchCount : Nat) (enough : rest.length ≤ fuel) :
    (∃ count, heap.searchFreeList floor allocSize align edge fuel
        (entry rest heap.freeList) searchCount = some (heap.freeList, 0, count) ∧
      ∀ node ∈ rest, heap.tryBlock floor allocSize align edge node = some 0) ∨
    ∃ skipped node after allocBegin count, rest = skipped ++ node :: after ∧ allocBegin ≠ 0 ∧
      heap.tryBlock floor allocSize align edge node = some allocBegin ∧
      (∀ other ∈ skipped, heap.tryBlock floor allocSize align edge other = some 0) ∧
      heap.searchFreeList floor allocSize align edge fuel (entry rest heap.freeList)
        searchCount = some (node, allocBegin, count) := by
  induction rest generalizing before fuel searchCount with
  | nil =>
    refine .inl ⟨searchCount, ?_, by simp⟩
    unfold Control.searchFreeList
    simp [entry]
  | cons node after ih =>
    obtain ⟨fuel, rfl⟩ : ∃ smaller, fuel = smaller + 1 := ⟨fuel - 1, by simp at enough; omega⟩
    have member : node ∈ nodes := by simp [split]
    have notHead : node ≠ heap.freeList := by
      rintro rfl
      exact (List.nodup_cons.mp rep.ring.nodup).1 member
    have ahead : heap.next node = entry after heap.freeList :=
      (ring_split _ _ _ before after (split ▸ rep.ring)).1
    obtain ⟨allocBegin, found⟩ := answers node (by simp)
    have unfolded : heap.searchFreeList floor allocSize align edge (fuel + 1) node
        searchCount = if allocBegin ≠ 0 then some (node, allocBegin, increment searchCount)
          else heap.searchFreeList floor allocSize align edge fuel
            (entry after heap.freeList) (increment searchCount) := by
      rw [Control.searchFreeList]
      simp [notHead, found, ahead]
    by_cases zero : allocBegin = 0
    · subst zero
      rcases ih (before ++ [node]) (by simp [split])
          (fun other inside => answers other (by simp [inside])) fuel (increment searchCount)
          (by simp at enough; omega) with ⟨count, res, none⟩ | ⟨skipped, other, later, place, count,
            rfl, nonzero, tried, none, res⟩
      · refine .inl ⟨count, unfolded.trans res, ?_⟩
        simpa [found] using none
      · refine .inr ⟨node :: skipped, other, later, place, count, by simp, nonzero, tried, ?_,
          unfolded.trans res⟩
        simpa [found] using none
    · simp only [ne_eq, zero] at unfolded
      exact .inr ⟨[], node, after, allocBegin, _, rfl, zero, found, by simp, unfolded⟩

/-- There are fewer free blocks than addresses. -/
theorem Represents.nodes_length (rep : Represents heap blocks nodes tail) :
    nodes.length ≤ blocks.length ∧ blocks.length < port.modulus := by
  constructor
  · rw [rep.listed.length_eq]
    have placedLength : ∀ start (list : List Block), (placed start list).length = list.length := by
      intro start list
      induction list generalizing start with
      | nil => rfl
      | cons block rest ih => simp [ih]
    have filtered := List.length_filter_le (fun entry => entry.2.use == .free)
      (placed heap.firstBlock blocks)
    rw [placedLength] at filtered
    simpa [freeAddresses] using filtered
  · have covered : ∀ list : List Block, (∀ block ∈ list, 0 < block.size) → list.length ≤ total list := by
      intro list positive
      induction list with
      | nil => simp
      | cons block rest ih =>
        have nonempty := positive block (by simp)
        have tail := ih fun other member => positive other (by simp [member])
        simp only [List.length_cons, total_cons]
        omega
    have count := covered blocks rep.geometry.positive
    have last := rep.geometry.last
    have bounded := rep.geometry.bounded
    omega

end Search

/-! ## The whole allocation -/

/-- The statistics after a search without success. -/
def failStats (stats : Statistics) (searchCount : Nat) : Statistics :=
  { stats with
    failedAllocs := increment stats.failedAllocs
    maxSearch := max stats.maxSearch searchCount }

/-- The statistics after a successful search. -/
def successStats (stats : Statistics) (allocatedSize searchCount : Nat) : Statistics :=
  { stats with
    allocs := increment stats.allocs
    searches := wrapAdd (2 ^ 32) stats.searches searchCount
    lifetimeAllocated := wrapAdd (2 ^ 64) stats.lifetimeAllocated allocatedSize
    maxSearch := max stats.maxSearch searchCount }

/-- Where an allocation will be placed: the first block of the free list in which
`_Heap_Check_block` names an address, and that address. -/
def Control.firstFit (heap : Control port) (allocSize alignment boundary : Nat) :
    Option (Nat × Nat) :=
  let blockSizeFloor := port.sub (port.add allocSize port.headerSize) port.allocBonus
  if blockSizeFloor < allocSize ∨ (boundary ≠ 0 ∧ boundary < allocSize) then none
  else
    (heap.searchFreeList blockSizeFloor allocSize
      (if boundary ≠ 0 ∧ alignment = 0 then heap.pageSize else alignment) boundary port.modulus
      heap.freeListFirst 0).map fun found => (found.1, found.2.1)

/-- The possible outcomes of an allocation in terms of the block list: an overflow
or boundary check fails, no free block is suitable, or one is. -/
inductive Allocation (heap : Control port) (blocks : List Block) (nodes : List Nat)
    (allocSize alignment boundary : Nat) :
    Nat → Control port → List Block → List Nat → Prop where
  | rejected (refused : heap.firstFit allocSize alignment boundary = none) :
      Allocation heap blocks nodes allocSize alignment boundary 0 heap blocks nodes
  | failed (searchCount : Nat)
      (nothing : heap.firstFit allocSize alignment boundary = some (heap.freeList, 0)) :
      Allocation heap blocks nodes allocSize alignment boundary 0
        (heap.renew heap.memory (failStats heap.stats searchCount)) blocks nodes
  | placed (front back : List Block) (size : Nat) (before after : List Nat)
      (allocBegin searchCount : Nat) (memory : Memory)
      (blocksSplit : blocks = front ++ ⟨size, .free⟩ :: back)
      (nodesSplit : nodes = before ++ (heap.firstBlock + total front) :: after)
      (nonzero : allocBegin ≠ 0)
      (chosen : heap.firstFit allocSize alignment boundary =
        some (heap.firstBlock + total front, allocBegin))
      (suitable : Suitable heap allocSize alignment boundary (heap.firstBlock + total front) size
        allocBegin) :
      Allocation heap blocks nodes allocSize alignment boundary allocBegin
        (heap.renew memory (successStats
          (heap.allocateStats (heap.firstBlock + total front) size allocBegin allocSize)
          (heap.allocatedSize (heap.firstBlock + total front) size allocBegin allocSize)
          searchCount))
        (front ++ (heap.allocateBlocks (heap.firstBlock + total front) size allocBegin allocSize ++
          back))
        (before ++ (heap.allocateNodes (heap.firstBlock + total front) size allocBegin allocSize ++
          after))

section Allocate

variable {heap : Control port} {blocks : List Block} {nodes : List Nat}

/-- The used block of an allocation can be read from its header. -/
theorem allocated_blockSize {front back : List Block} (size allocBegin allocSize : Nat)
    (sound : Consistent link heap (front ++ (heap.allocateBlocks (heap.firstBlock + total front)
      size allocBegin allocSize ++ back)) nodes) :
    heap.blockSize (heap.firstBlock + total front +
        beginSize port heap.pageSize (heap.firstBlock + total front) allocBegin) =
      heap.allocatedSize (heap.firstBlock + total front) size allocBegin allocSize := by
  have rep := sound.represents
  by_cases whole : beginSize port heap.pageSize (heap.firstBlock + total front) allocBegin = 0
  · simp only [Control.allocateBlocks, whole, carve_eq] at rep
    obtain ⟨outer, inner, decoded⟩ := rep.decode
    simpa [whole, Control.allocatedSize] using decoded.blockSize rep
  · simp only [Control.allocateBlocks, whole, if_false, carve_eq, List.cons_append] at rep
    have regrouped : ∀ (block : Block) (rest : List Block),
        front ++ block :: rest = (front ++ [block]) ++ rest := by simp
    rw [regrouped] at rep
    obtain ⟨outer, inner, decoded⟩ := rep.decode
    have value := decoded.blockSize rep
    simpa [whole, Control.allocatedSize, Nat.add_assoc] using value

/-- `_Heap_Allocate_aligned_with_boundary` always returns, with one of the possible
outcomes, and keeps the heap consistent. -/
theorem allocate_spec (sound : Consistent link heap blocks nodes) (allocSize align edge : Nat)
    (bounded : allocSize < port.modulus) :
    ∃ allocBegin res blocks' nodes',
      heap.allocateAlignedWithBoundary allocSize align edge = some (allocBegin, res) ∧
        Allocation heap blocks nodes allocSize align edge allocBegin res blocks' nodes' ∧
        Consistent link res blocks' nodes' := by
  have rep := sound.represents
  have space := port.space
  have floorValue : port.sub (port.add allocSize port.headerSize) port.allocBonus =
      (allocSize + port.wordSize) % port.modulus := by
    rw [Port.add, Port.sub, wrapAdd, show allocSize + port.headerSize =
      allocSize + port.wordSize + port.allocBonus by simp only [Port.headerSize, Port.allocBonus]; omega]
    exact wrapSub_mod_add _ _ _ (by simp only [Port.allocBonus]; omega)
  simp only [Control.allocateAlignedWithBoundary, floorValue]
  split
  · rename_i overflow
    refine ⟨0, heap, blocks, nodes, rfl, .rejected ?_, sound⟩
    rw [Control.firstFit, floorValue, if_pos (.inl overflow)]
  rename_i overflow
  split
  · rename_i narrow
    refine ⟨0, heap, blocks, nodes, rfl, .rejected ?_, sound⟩
    rw [Control.firstFit, if_pos (.inr narrow)]
  rename_i narrow
  have wide : edge ≠ 0 → allocSize ≤ edge := by
    intro nonzero
    simp only [not_and, Nat.not_lt] at narrow
    exact narrow nonzero
  have noWrap : allocSize + port.wordSize < port.modulus := by
    by_contra wraps
    rw [Nat.mod_eq_sub_mod (by omega), Nat.mod_eq_of_lt (by omega)] at overflow
    omega
  rw [Nat.mod_eq_of_lt noWrap] at floorValue ⊢
  have accepted : ¬ (allocSize + port.wordSize < allocSize ∨ (edge ≠ 0 ∧ edge < allocSize)) := by
    rintro (short | crossing)
    · omega
    · exact narrow crossing
  generalize chosen : (if edge ≠ 0 ∧ align = 0 then heap.pageSize else align) = effective
  have defaulted : effective = 0 → edge = 0 := by
    intro zero
    by_contra nonzero
    have positive := rep.geometry.pagePositive
    split at chosen
    · omega
    · rename_i explicit
      exact explicit ⟨nonzero, by omega⟩
  have aligned : align ≠ 0 → effective = align := by
    intro nonzero
    simp [← chosen, nonzero]
  have answers : ∀ node ∈ nodes, ∃ allocBegin, heap.tryBlock (allocSize + port.wordSize) allocSize
      effective edge node = some allocBegin := by
    intro node member
    obtain ⟨front, size, back, rfl, rfl⟩ := rep.node_block node member
    obtain ⟨allocBegin, found, -⟩ := tryBlock_spec rep allocSize effective edge wide defaulted
    exact ⟨allocBegin, found⟩
  have count := rep.nodes_length
  have first : heap.freeListFirst = entry nodes heap.freeList := (ring_head _ _ _ rep.ring).1
  rw [first]
  rcases searchFreeList_spec rep (allocSize + port.wordSize) allocSize effective edge [] nodes
      rfl answers port.modulus 0 (by omega) with
    ⟨searchCount, res, -⟩ | ⟨before, node, after, allocBegin, searchCount, nodesSplit, nonzero,
      found, -, res⟩
  · have nothing : heap.firstFit allocSize align edge = some (heap.freeList, 0) := by
      rw [Control.firstFit, floorValue, if_neg accepted, chosen, first, res]
      rfl
    rw [res]
    exact ⟨0, _, blocks, nodes, rfl, .failed searchCount nothing,
      ⟨rep.congr_stats _, sound.settled⟩⟩
  · rw [res]
    obtain ⟨front, size, back, rfl, rfl⟩ := rep.node_block node (by simp [nodesSplit])
    subst nodesSplit
    obtain ⟨other, sameFound, suitable⟩ := tryBlock_spec rep allocSize effective edge wide defaulted
    obtain rfl : allocBegin = other := Option.some.inj (found.symm.trans sameFound)
    have suitable := suitable nonzero
    have fits : heap.firstFit allocSize align edge =
        some (heap.firstBlock + total front, allocBegin) := by
      rw [Control.firstFit, floorValue, if_neg accepted, chosen, first, res]
      rfl
    obtain ⟨memory, allocated, kept⟩ :=
      blockAllocate_spec allocBegin allocSize sound suitable.admissible
    have sizeValue : (heap.renew memory (heap.allocateStats (heap.firstBlock + total front) size
        allocBegin allocSize)).blockSize (heap.firstBlock + total front +
          beginSize port heap.pageSize (heap.firstBlock + total front) allocBegin) =
        heap.allocatedSize (heap.firstBlock + total front) size allocBegin allocSize :=
      allocated_blockSize size allocBegin allocSize kept
    have promise : Suitable heap allocSize align edge (heap.firstBlock + total front) size
        allocBegin :=
      ⟨suitable.admissible, fun nonzero => aligned nonzero ▸ suitable.aligned (by
        rw [aligned nonzero]
        exact nonzero), suitable.uncrossed⟩
    refine ⟨allocBegin, _, _, _, ?_, .placed front back size before after allocBegin searchCount memory
      rfl rfl nonzero fits promise, kept.represents.congr_stats _, kept.settled⟩
    simp only [Option.map_some, ne_eq, nonzero, not_false_eq_true, if_true, allocated,
      Control.countAllocation, Control.countStats_renew, sizeValue, successStats]

end Allocate

end Rtems.Heap
