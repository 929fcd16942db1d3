import Rtems.Heap.Geometry

/-!
# Initialization of a heap

`getFirstAndLastBlock` places the first block so that its allocation area starts
on a page boundary and the last block so that its header still fits. All of its
intermediate values are computed before any check and may wrap; the checks reject
exactly the areas for which some of them did. A successful initialization leaves
one free block between the first and the last block.
-/

namespace Rtems.Heap

open ByteMemory LinkRing Alignment

variable {port : Port}

/-- `_Heap_Get_first_and_last_block`. -/
def getFirstAndLastBlock (port : Port) (heapAreaBegin heapAreaSize pageSize minBlockSize : Nat) :
    Option (Nat × Nat) :=
  let heapAreaEnd := port.add heapAreaBegin heapAreaSize
  let allocAreaBegin := alignUp port (port.add heapAreaBegin port.headerSize) pageSize
  let firstBlockBegin := port.sub allocAreaBegin port.headerSize
  let overhead := port.add port.headerSize (port.sub firstBlockBegin heapAreaBegin)
  let firstBlockSize := alignDown (port.sub heapAreaSize overhead) pageSize
  let firstBlock := firstBlockBegin
  let lastBlock := blockAt port firstBlock firstBlockSize
  if heapAreaEnd < heapAreaBegin ∨ heapAreaSize ≤ overhead ∨ firstBlockSize < minBlockSize then
    none
  else some (firstBlock, lastBlock)

/-- The block and free list writes of `_Heap_Initialize`, whose results depend only
on the placement of the two blocks. -/
def Control.initializeBlocks (heap : Control port) : Control port :=
  let firstBlock := heap.firstBlock
  let lastBlock := heap.lastBlock
  let firstBlockSize := port.sub lastBlock firstBlock
  -- First block
  let heap := heap.setPrevSize firstBlock heap.areaEnd
  let heap := heap.setSizeAndFlag firstBlock (firstBlockSize ||| prevBlockUsed)
  let heap := heap.setNext firstBlock heap.freeList
  let heap := heap.setPrev firstBlock heap.freeList
  -- Heap control
  let heap := heap.setNext heap.freeList firstBlock
  let heap := heap.setPrev heap.freeList firstBlock
  -- Last block
  let heap := heap.setPrevSize lastBlock firstBlockSize
  let heap := heap.setSizeAndFlag lastBlock 0
  heap.setLastBlockSize

/-- `_Heap_Initialize`. The result is the size of the first block with the
initialized control block, or nothing where the routine returns zero. -/
def heapInitialize (memory : Memory) (freeList heapAreaBegin heapAreaSize pageSize : Nat) :
    Option (Nat × Control port) :=
  let heapAreaEnd := port.add heapAreaBegin heapAreaSize
  let pageSize :=
    if pageSize = 0 then port.cpuAlignment else alignUp port pageSize port.cpuAlignment
  if pageSize < port.cpuAlignment then none
  else
    let minBlockSize := minBlockSize port pageSize
    match getFirstAndLastBlock port heapAreaBegin heapAreaSize pageSize minBlockSize with
    | none => none
    | some (firstBlock, lastBlock) =>
      let firstBlockSize := port.sub lastBlock firstBlock
      let stats : Statistics :=
        { size := firstBlockSize
          freeSize := firstBlockSize
          minFreeSize := firstBlockSize
          freeBlocks := 1
          maxFreeBlocks := 1 }
      let heap : Control port :=
        { memory, freeList, pageSize, minBlockSize, areaBegin := heapAreaBegin,
          areaEnd := heapAreaEnd, firstBlock, lastBlock, stats }
      some (firstBlockSize, heap.initializeBlocks)

/-- Where the first and the last block lie in an accepted area. -/
structure Placement (port : Port) (areaBegin areaEnd pageSize minBlockSize first last : Nat) :
    Prop where
  begin_le : areaBegin ≤ first
  first_lt : first < areaBegin + pageSize
  aligned : pageSize ∣ first + 2 * port.wordSize
  large : first + minBlockSize ≤ last
  page : pageSize ∣ last - first
  inside : last + 2 * port.wordSize ≤ areaEnd
  tight : areaEnd < last + 2 * port.wordSize + pageSize
  bounded : areaEnd < port.modulus

/-- The distance from the area begin to the first block is the rounding amount,
whether or not the rounding wrapped. -/
theorem first_block_distance (port : Port) (areaBegin pageSize : Nat) (pos : 0 < pageSize)
    (pageBound : pageSize < port.modulus) (noWrap : areaBegin + 2 * port.wordSize < port.modulus) :
    ∃ distance, distance < pageSize ∧ pageSize ∣ areaBegin + 2 * port.wordSize + distance ∧
      (distance = 0 ∨ (areaBegin + 2 * port.wordSize) % pageSize + distance = pageSize) ∧
      port.sub (port.sub (alignUp port (port.add areaBegin port.headerSize) pageSize)
        port.headerSize) areaBegin = distance ∧
      (areaBegin + 2 * port.wordSize + distance < port.modulus →
        port.sub (alignUp port (port.add areaBegin port.headerSize) pageSize) port.headerSize =
          areaBegin + distance) := by
  have value : port.add areaBegin port.headerSize = areaBegin + 2 * port.wordSize :=
    port.add_of_lt _ _ noWrap
  have small : (areaBegin + 2 * port.wordSize) % pageSize < pageSize := Nat.mod_lt _ pos
  have whole := Nat.mod_le (areaBegin + 2 * port.wordSize) pageSize
  -- In both branches the rounded address is the sum reduced modulo the address space.
  obtain ⟨distance, near, multiple, rounding, up⟩ : ∃ distance, distance < pageSize ∧
      pageSize ∣ areaBegin + 2 * port.wordSize + distance ∧
      (distance = 0 ∨ (areaBegin + 2 * port.wordSize) % pageSize + distance = pageSize) ∧
      alignUp port (areaBegin + 2 * port.wordSize) pageSize =
        (areaBegin + distance + 2 * port.wordSize) % port.modulus := by
    by_cases aligned : (areaBegin + 2 * port.wordSize) % pageSize = 0
    · refine ⟨0, pos, by simpa using Nat.dvd_of_mod_eq_zero aligned, .inl rfl, ?_⟩
      simp [alignUp, aligned, Nat.mod_eq_of_lt noWrap]
    · refine ⟨pageSize - (areaBegin + 2 * port.wordSize) % pageSize, by omega, ?_,
        .inr (by omega), ?_⟩
      · have multiple := Nat.dvd_sub_mod (n := pageSize) (areaBegin + 2 * port.wordSize)
        rw [show areaBegin + 2 * port.wordSize +
          (pageSize - (areaBegin + 2 * port.wordSize) % pageSize) = areaBegin + 2 * port.wordSize -
            (areaBegin + 2 * port.wordSize) % pageSize + pageSize by omega]
        exact Nat.dvd_add multiple (Nat.dvd_refl _)
      · simp only [alignUp, ne_eq, aligned, not_false_eq_true, if_true, Port.add, wrapAdd]
        congr 1
        omega
  have first : port.sub (alignUp port (port.add areaBegin port.headerSize) pageSize)
      port.headerSize = (areaBegin + distance) % port.modulus := by
    rw [value, up]
    exact wrapSub_mod_add _ _ _ (by omega)
  refine ⟨distance, near, multiple, rounding, ?_, ?_⟩
  · rw [first, Nat.add_comm areaBegin distance, Port.sub, wrapSub_mod_add _ _ _ (by omega)]
    exact Nat.mod_eq_of_lt (by omega)
  · intro fits
    rw [first]
    exact Nat.mod_eq_of_lt (by omega)

/-- An accepted area has its first and last block placed without any wrap.

The area end does not wrap because of the first check. If the header did not fit
above the area begin, the remaining size would be below two words; if rounding up
to the page boundary wrapped, the overhead would exceed the area or the page would
be larger than what is left. Both leave less than a minimum block. -/
theorem getFirstAndLastBlock_spec (port : Port)
    (areaBegin areaSize pageSize minSize first last : Nat) (pos : 0 < pageSize)
    (pageBound : pageSize < port.modulus) (beginBound : areaBegin < port.modulus)
    (sizeBound : areaSize < port.modulus) (minLarge : 4 * port.wordSize ≤ minSize) (accepted :
      getFirstAndLastBlock port areaBegin areaSize pageSize minSize = some (first, last)) :
    Placement port areaBegin (areaBegin + areaSize) pageSize minSize first last := by
  simp only [getFirstAndLastBlock] at accepted
  split at accepted
  · simp at accepted
  rename_i checks
  simp only [not_or] at checks
  obtain ⟨endCheck, overheadCheck, sizeCheck⟩ := checks
  cases accepted
  have endBound : areaBegin + areaSize < port.modulus := by
    by_contra wraps
    have reduced : port.add areaBegin areaSize = areaBegin + areaSize - port.modulus := by
      simp only [Port.add, wrapAdd]
      rw [Nat.mod_eq_sub_mod (by omega), Nat.mod_eq_of_lt (by omega)]
    omega
  rw [port.sub_of_le areaSize _ (by omega) sizeBound, alignDown] at sizeCheck
  have sizeLe := down_le (areaSize - port.add port.headerSize (port.sub (port.sub
    (alignUp port (port.add areaBegin port.headerSize) pageSize) port.headerSize) areaBegin)) pageSize
  have noWrap : areaBegin + 2 * port.wordSize < port.modulus := by omega
  obtain ⟨distance, small, multiple, rounding, distanceValue, firstValue⟩ :=
    first_block_distance port areaBegin pageSize pos pageBound noWrap
  rw [distanceValue] at overheadCheck sizeCheck sizeLe
  have header : port.headerSize = 2 * port.wordSize := rfl
  have overheadValue : port.add port.headerSize distance = 2 * port.wordSize + distance := by
    apply port.add_of_lt
    by_contra wraps
    -- The page is then so large that nothing of the area is left above its first multiple.
    have tiny : areaSize - port.add port.headerSize distance < pageSize := by
      by_contra huge
      have remainder : (areaBegin + 2 * port.wordSize) % pageSize = areaBegin + 2 * port.wordSize :=
        Nat.mod_eq_of_lt (by omega)
      omega
    have nothing : down (areaSize - port.add port.headerSize distance) pageSize = 0 := by
      simp [down, Nat.mod_eq_of_lt tiny]
    omega
  rw [overheadValue] at overheadCheck sizeCheck sizeLe
  have firstPlace := firstValue (by omega)
  have lastPlace : port.add (areaBegin + distance)
      (down (areaSize - (2 * port.wordSize + distance)) pageSize) =
      areaBegin + distance + down (areaSize - (2 * port.wordSize + distance)) pageSize :=
    port.add_of_lt _ _ (by omega)
  simp only [distanceValue, overheadValue, alignDown]
  rw [port.sub_of_le areaSize _ (by omega) sizeBound, firstPlace, blockAt, lastPlace]
  have upper := lt_down_add (areaSize - (2 * port.wordSize + distance)) pageSize pos
  refine ⟨by omega, by omega, ?_, by omega, ?_, by omega, by omega, endBound⟩
  · rwa [show areaBegin + distance + 2 * port.wordSize = areaBegin + 2 * port.wordSize + distance by
      omega]
  · rw [Nat.add_sub_cancel_left]
    exact down_dvd _ _

/-- The minimum block size is the number of pages that hold a block header. -/
theorem minBlockSize_spec (port : Port) (pageSize : Nat) (pos : 0 < pageSize)
    (bounded : pageSize < port.modulus) :
    pageSize ∣ minBlockSize port pageSize ∧ 4 * port.wordSize ≤ minBlockSize port pageSize := by
  have word := port.wordSize_pos
  have space := port.space
  have struct : port.blockStructSize = 4 * port.wordSize := rfl
  unfold minBlockSize
  rw [struct]
  rcases Nat.lt_or_ge (4 * port.wordSize) pageSize with larger | smaller
  · have up : alignUp port (4 * port.wordSize) pageSize = pageSize := by
      have remainder : 4 * port.wordSize % pageSize = 4 * port.wordSize := Nat.mod_eq_of_lt larger
      have nonzero : 4 * port.wordSize ≠ 0 := by omega
      simp only [alignUp, remainder, ne_eq, nonzero, not_false_eq_true, if_true, Nat.sub_self]
      rw [port.add_of_lt _ _ (by omega), Nat.zero_add]
    rw [up]
    exact ⟨Nat.dvd_refl _, larger.le⟩
  · obtain ⟨multiple, above, -⟩ := alignUp_spec port (4 * port.wordSize) pageSize pos (by omega)
    exact ⟨multiple, above⟩

/-- A page size that survives the overflow check is a multiple of the processor
alignment. -/
theorem page_size_spec (port : Port) (requested pageSize : Nat) (bounded : requested < port.modulus)
    (chosen : pageSize =
      if requested = 0 then port.cpuAlignment else alignUp port requested port.cpuAlignment)
    (checked : ¬ pageSize < port.cpuAlignment) :
    0 < pageSize ∧ port.cpuAlignment ∣ pageSize ∧ pageSize < port.modulus := by
  have pos := port.cpuAlignment_pos
  have small := port.cpuAlignment_lt
  have modulusValue : port.modulus = 256 ^ port.wordSize := rfl
  refine ⟨by omega, ?_, ?_⟩
  · by_cases none : requested = 0
    · simp [chosen, none]
    · simp only [none, if_false] at chosen
      by_cases aligned : requested % port.cpuAlignment = 0
      · simp only [alignUp, aligned] at chosen
        rw [chosen]
        exact Nat.dvd_of_mod_eq_zero aligned
      rcases Nat.lt_or_ge (requested - requested % port.cpuAlignment + port.cpuAlignment)
        port.modulus with fits | wraps
      · rw [chosen]
        exact alignUp_dvd port requested port.cpuAlignment fits
      · have value : alignUp port requested port.cpuAlignment =
            requested - requested % port.cpuAlignment + port.cpuAlignment - port.modulus := by
          simp only [alignUp, ne_eq, aligned, Port.add, wrapAdd]
          rw [Nat.mod_eq_sub_mod wraps]
          exact Nat.mod_eq_of_lt (by omega)
        omega
  · rw [chosen]
    split
    · omega
    · exact alignUp_lt port requested port.cpuAlignment bounded

/-- The block writes leave one free block that reaches up to the last block. -/
theorem initializeBlocks_spec (heap : Control port) (blocks : List Block)
    (single : blocks = [⟨heap.lastBlock - heap.firstBlock, .free⟩]) (geom : Geometry heap blocks)
    (endBound : heap.areaEnd < port.modulus) :
    ∃ memory, heap.initializeBlocks = heap.renew memory heap.stats ∧
      Represents heap.initializeBlocks blocks [heap.firstBlock]
        ⟨port.sub heap.firstBlock heap.lastBlock, fun _ => heap.areaEnd⟩ := by
  have word := port.wordSize_pos
  have shape := geom.shape ⟨heap.lastBlock - heap.firstBlock, .free⟩ (by simp [single])
  have large := geom.minLarge
  have bounded := geom.bounded
  have control := geom.control
  have modulusEven := port.modulus_even
  simp only at shape
  have sizeEven : 2 ∣ heap.lastBlock - heap.firstBlock := geom.pageEven.trans shape.1
  have place : heap.firstBlock + (heap.lastBlock - heap.firstBlock) = heap.lastBlock := by omega
  have sizeValue : port.sub heap.lastBlock heap.firstBlock = heap.lastBlock - heap.firstBlock :=
    port.sub_of_le _ _ (by omega) (by omega)
  have flagged : (heap.lastBlock - heap.firstBlock) ||| prevBlockUsed =
      heap.lastBlock - heap.firstBlock + 1 := or_flag _ sizeEven true
  have wrapped : port.sub heap.firstBlock heap.lastBlock =
      heap.firstBlock + port.modulus - heap.lastBlock := wrapSub_of_lt _ _ _ (by omega) (by omega)
  have wrappedEven : 2 ∣ port.sub heap.firstBlock heap.lastBlock := by omega
  have firstSized : heap.firstBlock ∈ sizedBlocks heap blocks :=
    .inr ⟨⟨heap.lastBlock - heap.firstBlock, .free⟩, by simp [single]⟩
  have lastSized : heap.lastBlock ∈ sizedBlocks heap blocks := .inl rfl
  have firstLinked : heap.firstBlock ∈ linkedBlocks heap blocks :=
    .inr ⟨⟨heap.lastBlock - heap.firstBlock, .free⟩, by simp [single], by simp⟩
  have headLinked : heap.freeList ∈ linkedBlocks heap blocks := .inl rfl
  have firstBound : heap.firstBlock < port.modulus := by omega
  have headBound : heap.freeList < port.modulus := by omega
  have apart := geom.apart
  have lastApart : heap.firstBlock ≠ heap.lastBlock := by omega
  have headApart : heap.firstBlock ≠ heap.freeList := by
    have clear := geom.clear (heap.firstBlock, ⟨heap.lastBlock - heap.firstBlock, .free⟩)
      (by simp [single])
    simp only [Clear, reduceCtorEq, if_false] at clear
    omega
  -- The field writes in the order of the source.
  have view := view_self heap (sizedBlocks heap blocks) (linkedBlocks heap blocks)
  have view := view.write_prevSize apart _ _ firstSized endBound
  have view := view.write_sizeAndFlag apart _ (heap.lastBlock - heap.firstBlock + 1) firstSized
    (by omega)
  have view := view.write_next apart _ _ firstLinked headBound
  have view := view.write_prev apart _ _ firstLinked headBound
  have view := view.write_next apart _ _ headLinked firstBound
  have view := view.write_prev apart _ _ headLinked firstBound
  have view := view.write_prevSize apart _ (heap.lastBlock - heap.firstBlock) lastSized (by omega)
  have view := view.write_sizeAndFlag apart _ 0 lastSized (by omega)
  obtain ⟨memory, memoryValue, view⟩ := View.block_set_size (heap.renew _ heap.stats) view
    apart heap.lastBlock 0 (port.sub heap.firstBlock heap.lastBlock) false lastSized (by simp)
    (by omega) wrappedEven (by omega)
  have result : heap.initializeBlocks = heap.renew memory heap.stats := by
    rw [Control.initializeBlocks, sizeValue, flagged]
    exact memoryValue
  refine ⟨memory, result, ?_⟩
  · rw [result]
    apply represents_of_view heap memory heap.stats _ _ _ blocks _ _ geom wrappedEven view
      (fun _ member => member) (fun _ member => member)
    · subst single
      refine ⟨⟨?_, ?_⟩, false, rfl, ?_⟩
      · simp [lastApart]
      · simp [place]
      · simp [Tiles, place]
    · refine ⟨⟨?_, ?_, ?_, ?_⟩, ?_⟩
      all_goals simp [headApart, Ne.symm headApart]
    · simp [single, freeAddresses_cons]
    · simp [lastApart]

/-- The heap that a successful initialization leaves. -/
structure Initialized (heap : Control port) (freeList areaBegin areaSize size : Nat) : Prop where
  represents : Represents heap [⟨size, .free⟩] [heap.firstBlock]
    ⟨port.sub heap.firstBlock heap.lastBlock, fun _ => areaBegin + areaSize⟩
  placement : Placement port areaBegin (areaBegin + areaSize) heap.pageSize heap.minBlockSize
    heap.firstBlock heap.lastBlock
  minimum : heap.minBlockSize = minBlockSize port heap.pageSize
  freeList_eq : heap.freeList = freeList
  areaBegin_eq : heap.areaBegin = areaBegin
  areaEnd_eq : heap.areaEnd = areaBegin + areaSize
  stats_eq : heap.stats = { size, freeSize := size, minFreeSize := size, freeBlocks := 1,
                            maxFreeBlocks := 1 }

/-- A successful initialization leaves one free block that fills the area. The
control block must lie outside of the area. -/
theorem heapInitialize_spec (memory : Memory) (freeList areaBegin areaSize requested size : Nat)
    (heap : Control port) (beginBound : areaBegin < port.modulus)
    (sizeBound : areaSize < port.modulus) (requestedBound : requested < port.modulus)
    (control : freeList + 4 * port.wordSize ≤ port.modulus)
    (outside : freeList + 4 * port.wordSize ≤ areaBegin ∨ areaBegin + areaSize ≤ freeList)
    (accepted : heapInitialize memory freeList areaBegin areaSize requested = some (size, heap)) :
    Initialized heap freeList areaBegin areaSize size := by
  simp only [heapInitialize] at accepted
  generalize chosen : (if requested = 0 then port.cpuAlignment
    else alignUp port requested port.cpuAlignment) = pageSize at accepted
  split at accepted
  · simp at accepted
  rename_i checked
  obtain ⟨pos, pageCpu, pageBound⟩ :=
    page_size_spec port requested pageSize requestedBound chosen.symm checked
  obtain ⟨minPage, minLarge⟩ := minBlockSize_spec port pageSize pos pageBound
  split at accepted
  · simp at accepted
  rename_i first last found
  have placement := getFirstAndLastBlock_spec port areaBegin areaSize pageSize _ first last pos
    pageBound beginBound sizeBound minLarge found
  obtain ⟨begin_le, first_lt, aligned, large, page, inside, tight, bounded⟩ := placement
  have sizeValue : port.sub last first = last - first := port.sub_of_le _ _ (by omega) (by omega)
  have endValue : port.add areaBegin areaSize = areaBegin + areaSize := port.add_of_lt _ _ bounded
  cases accepted
  rw [endValue, sizeValue]
  have geom : @Geometry port
      { memory, freeList, pageSize, minBlockSize := minBlockSize port pageSize,
        areaBegin, areaEnd := areaBegin + areaSize, firstBlock := first, lastBlock := last,
        stats := { size := last - first, freeSize := last - first, minFreeSize := last - first,
                   freeBlocks := 1, maxFreeBlocks := 1 } }
      [⟨last - first, .free⟩] := by
    refine
      { pagePositive := pos, pageCpu := pageCpu, minPage := minPage, minLarge := minLarge,
        aligned := aligned, shape := ?_, last := ?_, bounded := ?_, control := control,
        clear := ?_, clearLast := ?_ }
    · simp only [List.mem_singleton, forall_eq]
      exact ⟨page, by omega⟩
    · simp only [total_cons, total_nil]
      omega
    · simp only
      omega
    · simp only [placed_cons, placed_nil, List.mem_singleton, forall_eq, Clear, reduceCtorEq,
        if_false]
      omega
    · simp only
      omega
  obtain ⟨final, result, represents⟩ := initializeBlocks_spec _ _ rfl geom bounded
  exact
    { represents := represents
      placement := ⟨begin_le, first_lt, aligned, large, page, inside, tight, bounded⟩
      minimum := rfl, freeList_eq := rfl, areaBegin_eq := rfl, areaEnd_eq := rfl
      stats_eq := rfl }

end Rtems.Heap
