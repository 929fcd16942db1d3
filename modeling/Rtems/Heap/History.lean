import Rtems.Heap.Extend
import Rtems.Heap.Statistics

/-!
# The historical statistics of a heap

`max_free_blocks` is brought up to date where `_Heap_Free` adds a free block, and the
lifetime counters where a block is allocated or freed. An allocation that leaves a
free block on both sides also adds a free block, a resize changes the size of a used
block, and an extension frees a block that nobody allocated. `Tracked` excludes these
steps; along runs of tracked steps the historical statistics are right.
-/

namespace Rtems.Heap

open ByteMemory LinkRing Alignment Transition

variable {port : Port} {link : Nat → Nat}

/-- An allocation leaves free blocks below and above its block. -/
def Control.CutsTwice (heap : Control port) (block size allocBegin allocSize : Nat) : Prop :=
  beginSize port heap.pageSize block allocBegin ≠ 0 ∧
    heap.Splits (size - beginSize port heap.pageSize block allocBegin) allocSize
deriving Decidable

/-- The number of free blocks has been larger before, or the free block that an
allocation finds first is not cut twice. -/
def Control.KeepsRecord (heap : Control port) (allocSize alignment boundary : Nat) : Prop :=
  heap.stats.freeBlocks < heap.stats.maxFreeBlocks ∨
    match heap.firstFit allocSize alignment boundary with
    | none => True
    | some (block, allocBegin) =>
        allocBegin ≠ 0 → ¬ heap.CutsTwice block (heap.blockSize block) allocBegin allocSize

instance (heap : Control port) (allocSize alignment boundary : Nat) :
    Decidable (heap.KeepsRecord allocSize alignment boundary) :=
  match fits : heap.firstFit allocSize alignment boundary with
  | none => .isTrue (by simp [Control.KeepsRecord, fits])
  | some (block, allocBegin) =>
    decidable_of_iff (heap.stats.freeBlocks < heap.stats.maxFreeBlocks ∨ (allocBegin ≠ 0 →
      ¬ heap.CutsTwice block (heap.blockSize block) allocBegin allocSize))
      (by simp [Control.KeepsRecord, fits])

/-- The size that is available to a resize of the allocation in a block. -/
def Control.availableSize (heap : Control port) (block : Nat) : Nat :=
  if heap.isFree (blockAt port block (heap.blockSize block)) then
    heap.blockSize block + heap.blockSize (blockAt port block (heap.blockSize block))
  else heap.blockSize block

/-- A resize finds not enough room or leaves the size of the block as it is. -/
def System.KeepsSize (state : System port) (address newSize : Nat) : Prop :=
  let block := state.owner address
  block + state.heap.availableSize block + port.allocBonus < address + newSize ∨
    state.heap.carvedSize (state.heap.availableSize block)
      (newSize + (address - (block + port.headerSize))) = state.heap.blockSize block
deriving Decidable

/-- The steps after which the historical statistics are still right. -/
def Tracked (state : System port) : GrowingOperation port → Prop
  | .basic (.allocate size alignment boundary) => state.heap.KeepsRecord size alignment boundary
  | .basic (.free _) => state.heap.stats.freeBlocks + 1 < 2 ^ 32
  | .basic (.resize address size) => state.Reaches address ∧ state.KeepsSize address size
  | .basic (.write ..) => True
  | .extend .. => False

instance (state : System port) (operation : GrowingOperation port) :
    Decidable (Tracked state operation) :=
  match operation with
  | .basic (.allocate size alignment boundary) =>
    inferInstanceAs (Decidable (state.heap.KeepsRecord size alignment boundary))
  | .basic (.free _) => inferInstanceAs (Decidable (_ < _))
  | .basic (.resize address size) =>
    inferInstanceAs (Decidable (state.Reaches address ∧ state.KeepsSize address size))
  | .basic (.write ..) => .isTrue trivial
  | .extend .. => inferInstanceAs (Decidable False)

/-- The number of free blocks that an iteration finds. -/
def Control.freeCount (heap : Control port) : Nat :=
  ((heap.visits.getD []).filter fun entry => !entry.2.2).length

/-! ## The historical statistics of one step -/

/-- The historical statistics agree with a block list and its past. -/
structure Recorded (stats : Statistics) (blocks : List Block) : Prop where
  lifetime : wrapSub (2 ^ 64) stats.lifetimeAllocated stats.lifetimeFreed = bytesOf .used blocks
  freed : stats.lifetimeFreed < 2 ^ 64
  count : stats.freeBlocks = countUse .free blocks
  below : countUse .free blocks ≤ stats.maxFreeBlocks
  bounded : stats.maxFreeBlocks < 2 ^ 32

/-- The used bytes that an iteration finds, if there is no gap. -/
theorem visible_usedBytes (start : Nat) (blocks : List Block)
    (solid : ∀ block ∈ blocks, block.use = .free ∨ block.use = .used) :
    (((visible start blocks).filter fun entry => entry.2.2).map fun entry => entry.2.1).sum =
      bytesOf .used blocks := by
  induction blocks generalizing start with
  | nil => rfl
  | cons block rest ih =>
    rw [visible_cons, bytesOf_cons, ← ih (start + block.size)
      fun other member => solid other (by simp [member])]
    rcases solid block (by simp) with use | use <;> simp [use]

section

variable (allocated freed bytes size : Nat) (small : freed < 2 ^ 64)
  (bounded : bytes + size < 2 ^ 64)
include small bounded

/-- A difference of lifetime counters follows an addition to the first of them. -/
theorem lifetime_allocated (difference : wrapSub (2 ^ 64) allocated freed = bytes) :
    wrapSub (2 ^ 64) (wrapAdd (2 ^ 64) allocated size) freed = bytes + size := by
  unfold wrapSub wrapAdd at *
  omega

/-- A difference of lifetime counters follows an addition to the second of them. -/
theorem lifetime_freed (difference : wrapSub (2 ^ 64) allocated freed = bytes + size) :
    wrapSub (2 ^ 64) allocated (wrapAdd (2 ^ 64) freed size) = bytes := by
  unfold wrapSub wrapAdd at *
  omega

end

section Step

variable {heap res : Control port} {blocks blocks' : List Block} {nodes nodes' : List Nat}

section

variable (heap : Control port) (stats : Statistics) (size allocSize : Nat)

@[simp] theorem Control.carveStats_maxFreeBlocks :
    (heap.carveStats stats size allocSize).maxFreeBlocks = stats.maxFreeBlocks := by
  unfold Control.carveStats
  split <;> rfl

@[simp] theorem Control.carveStats_lifetimeAllocated :
    (heap.carveStats stats size allocSize).lifetimeAllocated = stats.lifetimeAllocated := by
  unfold Control.carveStats
  split <;> rfl

@[simp] theorem Control.carveStats_lifetimeFreed :
    (heap.carveStats stats size allocSize).lifetimeFreed = stats.lifetimeFreed := by
  unfold Control.carveStats
  split <;> rfl

end

/-- The used bytes of a consistent heap fit into a lifetime counter. -/
theorem Consistent.used_bound (sound : Consistent link heap blocks nodes) :
    bytesOf .used blocks < 2 ^ 64 := by
  have below := bytesOf_le .used blocks
  have last := sound.represents.geometry.last
  have bounded := sound.represents.geometry.bounded
  have width : port.modulus ≤ 2 ^ 64 := by
    calc port.modulus = 256 ^ port.wordSize := rfl
      _ ≤ 256 ^ 8 := Nat.pow_le_pow_right (by decide) port.wordSize_le
      _ = 2 ^ 64 := by norm_num
  omega

section

variable (heap : Control port)

theorem carve_usedBytes (size allocSize : Nat) :
    bytesOf .used (heap.carve size allocSize) = heap.carvedSize size allocSize := by
  unfold Control.carve Control.carvedSize
  split <;> simp

theorem carve_freeCount (size allocSize : Nat) :
    countUse .free (heap.carve size allocSize) = if heap.Splits size allocSize then 1 else 0 := by
  unfold Control.carve
  split <;> simp

theorem allocateBlocks_usedBytes (block size start allocSize : Nat) :
    bytesOf .used (heap.allocateBlocks block size start allocSize) =
      heap.allocatedSize block size start allocSize := by
  unfold Control.allocateBlocks Control.allocatedSize
  simp only
  split <;> simp [carve_usedBytes]

/-- An allocation leaves at most one free block, or two if it cuts twice. -/
theorem allocateBlocks_freeCount (block size start allocSize : Nat) :
    countUse .free (heap.allocateBlocks block size start allocSize) ≤
      if heap.CutsTwice block size start allocSize then 2 else 1 := by
  unfold Control.allocateBlocks Control.CutsTwice
  simp only
  split
  · rename_i whole
    simp only [whole, ne_eq, not_true_eq_false, false_and, if_false, carve_freeCount]
    split <;> omega
  · rename_i part
    simp only [part, ne_eq, not_false_eq_true, true_and, countUse_cons, if_true, carve_freeCount]
    split <;> omega

end

variable {start : Nat}

theorem Recorded.allocation {allocSize alignment boundary : Nat}
    (recorded : Recorded heap.stats blocks) (sound : Consistent link heap blocks nodes)
    (kept : Consistent link res blocks' nodes') (counts : Counts res.stats blocks')
    (keeps : heap.KeepsRecord allocSize alignment boundary) (allocation : Allocation heap blocks
      nodes allocSize alignment boundary start res blocks' nodes') :
    Recorded res.stats blocks' ∧ res.stats.maxFreeBlocks = heap.stats.maxFreeBlocks := by
  obtain ⟨lifetime, freed, count, below, bounded⟩ := id recorded
  cases allocation with
  | rejected => exact ⟨recorded, rfl⟩
  | failed searchCount => exact ⟨⟨lifetime, freed, count, below, bounded⟩, rfl⟩
  | placed front back size before after start searchCount memory blocksSplit nodesSplit nonzero
      chosen suitable =>
    subst blocksSplit
    have sizeValue : heap.blockSize (heap.firstBlock + total front) = size := sound.blockSize
    have limit := kept.used_bound
    have parts := allocateBlocks_freeCount heap (heap.firstBlock + total front) size start allocSize
    rw [Control.KeepsRecord, chosen] at keeps
    simp only [sizeValue, nonzero, ne_eq, not_false_eq_true, true_implies] at keeps
    have same : (successStats (heap.allocateStats (heap.firstBlock + total front) size start
        allocSize) (heap.allocatedSize (heap.firstBlock + total front) size start allocSize)
        searchCount).maxFreeBlocks = heap.stats.maxFreeBlocks ∧
        (heap.allocateStats (heap.firstBlock + total front) size start
          allocSize).lifetimeFreed = heap.stats.lifetimeFreed ∧
        (heap.allocateStats (heap.firstBlock + total front) size start
          allocSize).lifetimeAllocated = heap.stats.lifetimeAllocated := by
      simp only [successStats, Control.allocateStats, leastStats]
      split <;> simp [takeStats, enlistStats]
    have fewer : countUse .free (front ++ (heap.allocateBlocks (heap.firstBlock + total front) size
        start allocSize ++ back)) ≤ heap.stats.maxFreeBlocks := by
      simp only [countUse_append, countUse_cons, if_true] at below count ⊢
      rcases keeps with earlier | once
      · split at parts <;> omega
      · rw [if_neg once] at parts
        omega
    simp only [bytesOf_append, bytesOf_cons, reduceCtorEq, if_false,
      allocateBlocks_usedBytes] at lifetime limit
    refine ⟨⟨?_, ?_, ?_, ?_, ?_⟩, same.1⟩
    · simp only [Control.renew_stats, successStats, same.2, bytesOf_append, allocateBlocks_usedBytes]
      rw [lifetime_allocated _ _ _ _ freed (by omega) lifetime]
      omega
    · simp only [successStats, same.2]
      exact freed
    · rw [counts.freeBlocks]
      exact Nat.mod_eq_of_lt (by omega)
    · rw [Control.renew_stats, same.1]
      exact fewer
    · rw [Control.renew_stats, same.1]
      exact bounded

variable {block : Nat}

/-- Freeing is recorded as long as the counter of free blocks has not reached its end. -/
theorem Recorded.release {size : Nat} (recorded : Recorded heap.stats blocks)
    (sound : Consistent link heap blocks nodes) (room : heap.stats.freeBlocks + 1 < 2 ^ 32)
    (release : Release heap blocks nodes block size res blocks' nodes') :
    Recorded res.stats blocks' ∧
      res.stats.maxFreeBlocks = max heap.stats.maxFreeBlocks (countUse .free blocks') := by
  obtain ⟨lifetime, freed, count, below, bounded⟩ := recorded
  have limit := sound.used_bound
  have more := increment_spec heap.stats.freeBlocks
  have less := decrement_spec heap.stats.freeBlocks
  have shrinks : bytesOf .used blocks = bytesOf .used blocks' + size := by
    cases release <;> simp <;> omega
  have history : res.stats.lifetimeAllocated = heap.stats.lifetimeAllocated ∧
      res.stats.lifetimeFreed = wrapAdd (2 ^ 64) heap.stats.lifetimeFreed size := by
    cases release <;> exact ⟨rfl, rfl⟩
  have counted : res.stats.freeBlocks = countUse .free blocks' ∧
      countUse .free blocks' < 2 ^ 32 ∧
      res.stats.maxFreeBlocks = max heap.stats.maxFreeBlocks (countUse .free blocks') := by
    cases release
    all_goals
      simp only [countUse_append, countUse_cons, if_true, reduceCtorEq, if_false] at count below ⊢
      simp only [Control.renew_stats, freeStats]
      omega
  obtain ⟨freeBlocks, small, maximum⟩ := counted
  refine ⟨⟨?_, ?_, freeBlocks, ?_, ?_⟩, maximum⟩
  · rw [history.1, history.2]
    rw [shrinks] at lifetime limit
    exact lifetime_freed _ _ _ _ freed limit lifetime
  · rw [history.2]
    exact wrapAdd_lt _ _ _ (by decide)
  · omega
  · omega

variable {status : ResizeStatus}

theorem Resizing.same_blocks {newSize : Nat} (sound : Consistent link heap blocks nodes)
    (resizing : Resizing heap start newSize blocks nodes block status res blocks' nodes')
    (keeps : block + heap.availableSize block + port.allocBonus < start + newSize ∨ heap.carvedSize (heap.availableSize block) (newSize + (start - (block + port.headerSize))) = heap.blockSize block)
    : blocks' = blocks := by
  have geometry := sound.represents.geometry
  have positive := geometry.minPositive
  have bonus : port.allocBonus = port.wordSize := rfl
  have header : port.headerSize = 2 * port.wordSize := rfl
  cases resizing with
  | unsatisfied => rfl
  | alone front back size nodes memory below notFree =>
    have bounded := sound.represents.size_bound
    have sizeValue : heap.blockSize (heap.firstBlock + total front) = size := sound.blockSize
    have nextPlace : blockAt port (heap.firstBlock + total front) size =
        heap.firstBlock + total front + size := port.add_of_lt _ _ (by omega)
    have notFree : heap.isFree (heap.firstBlock + total front + size) = false := by
      rw [Bool.eq_false_iff]
      intro free
      obtain ⟨nextSize, rest, rfl⟩ := sound.isFree_next.mp free
      exact notFree ⟨nextSize, .free⟩ (by simp) rfl
    have available : heap.availableSize (heap.firstBlock + total front) = size := by
      simp [Control.availableSize, sizeValue, nextPlace, notFree]
    rw [available, sizeValue, bonus, header] at keeps
    have carved := keeps.resolve_left (by omega)
    have unsplit : ¬ heap.Splits size
        (newSize + (start - (heap.firstBlock + total front + 2 * port.wordSize))) := by
      intro splits
      have spec := usedBlockSize_spec geometry size _
        (geometry.shape ⟨size, .used⟩ (by simp)).1 (by omega) splits
      rw [Control.carvedSize, if_pos splits] at carved
      omega
    simp [Control.carve, unsplit]
  | absorbing front back size nextSize before after memory below =>
    have upper : Consistent link heap ((front ++ [⟨size, .used⟩]) ++ ⟨nextSize, .free⟩ :: back)
        (before ++ (heap.firstBlock + total front + size) :: after) := by
      simpa using sound
    have bounded := sound.represents.size_bound
    have sizeValue : heap.blockSize (heap.firstBlock + total front) = size := sound.blockSize
    have nextValue := upper.blockSize
    simp only [total_append, total_cons, total_nil, Nat.add_zero, ← Nat.add_assoc] at nextValue
    have nextPlace : blockAt port (heap.firstBlock + total front) size =
        heap.firstBlock + total front + size := port.add_of_lt _ _ (by omega)
    have free : heap.isFree (heap.firstBlock + total front + size) = true :=
      sound.isFree_next.mpr ⟨nextSize, back, rfl⟩
    have available : heap.availableSize (heap.firstBlock + total front) = size + nextSize := by
      simp [Control.availableSize, sizeValue, nextPlace, free, nextValue]
    have nextPositive : 0 < nextSize := geometry.positive ⟨nextSize, .free⟩ (by simp)
    rw [available, sizeValue, bonus, header] at keeps
    have carved := keeps.resolve_left (by omega)
    have splits : heap.Splits (size + nextSize)
        (newSize + (start - (heap.firstBlock + total front + 2 * port.wordSize))) := by
      by_contra unsplit
      rw [Control.carvedSize, if_neg unsplit] at carved
      omega
    rw [Control.carvedSize, if_pos splits] at carved
    simp [Control.carve, splits, carved]

/-- A resize that keeps the size of the block is recorded. -/
theorem Recorded.resizing {newSize : Nat} (recorded : Recorded heap.stats blocks)
    (counts : Counts res.stats blocks') (same : blocks' = blocks)
    (resizing : Resizing heap start newSize blocks nodes block status res blocks' nodes') :
    Recorded res.stats blocks' ∧ res.stats.maxFreeBlocks = heap.stats.maxFreeBlocks := by
  obtain ⟨lifetime, freed, count, below, bounded⟩ := recorded
  have history : res.stats.lifetimeAllocated = heap.stats.lifetimeAllocated ∧
      res.stats.lifetimeFreed = heap.stats.lifetimeFreed ∧
      res.stats.maxFreeBlocks = heap.stats.maxFreeBlocks := by
    cases resizing <;> simp [resizeStats, leastStats]
  subst same
  refine ⟨⟨?_, ?_, ?_, ?_, ?_⟩, history.2.2⟩
  · rw [history.1, history.2.1]
    exact lifetime
  · rw [history.2.1]
    exact freed
  · rw [counts.freeBlocks]
    exact Nat.mod_eq_of_lt (by omega)
  · rw [history.2.2]
    exact below
  · rw [history.2.2]
    exact bounded

end Step

/-! ## Runs of tracked steps -/

/-- The run invariant together with current and historical statistics. -/
structure Historic (link : Nat → Nat) (state : System port) (blocks : List Block)
    (nodes : List Nat) : Prop where
  tallied : Tallied link state blocks nodes
  recorded : Recorded state.heap.stats blocks

section Run

variable {st next : System port} {blocks blocks' : List Block} {nodes nodes' : List Nat}

/-- A tracked step keeps the historical statistics right. -/
theorem Historic.step (historic : Historic link st blocks nodes)
    (op : GrowingOperation port) (tracked : Tracked st op)
    (taken : st.grow op = some next) :
    ∃ blocks' nodes', Historic link next blocks' nodes' ∧ next.heap.stats.maxFreeBlocks =
        max st.heap.stats.maxFreeBlocks (countUse .free blocks') := by
  obtain ⟨tallied, recorded⟩ := historic
  cases op with
  | extend areaBegin areaSize => exact absurd tracked id
  | basic op =>
    have reaches : ResizeReaches st op := by
      cases op with
      | resize addr size => exact tracked.1
      | allocate | free | write => trivial
    obtain ⟨blocks', nodes', effect, kept, -⟩ := tallied.step op reaches taken
    have sound := tallied.sound
    have history : Recorded next.heap.stats blocks' ∧
        next.heap.stats.maxFreeBlocks =
          max st.heap.stats.maxFreeBlocks (countUse .free blocks') := by
      cases effect with
      | allocate size alignment boundary addr heap blocks' nodes' allocation =>
        obtain ⟨after, maximum⟩ := recorded.allocation sound.consistent kept.sound.consistent
          kept.counts tracked allocation
        have below := after.below
        exact ⟨after, by simp only at maximum below ⊢; omega⟩
      | free addr size heap blocks' nodes' live release =>
        exact recorded.release sound.consistent tracked release
      | resize addr size status heap blocks' nodes' live resizing =>
        have same := resizing.same_blocks sound.consistent tracked.2
        obtain ⟨after, maximum⟩ := recorded.resizing kept.counts same resizing
        have below := after.below
        exact ⟨after, by simp only at maximum below ⊢; omega⟩
      | write addr place byte live inside =>
        exact ⟨recorded, (Nat.max_eq_left recorded.below).symm⟩
    exact ⟨blocks', nodes', ⟨kept, history.1⟩, history.2⟩

/-- What an iteration finds agrees with the historical statistics. -/
theorem Historic.visible (historic : Historic link st blocks nodes) :
    st.heap.freeCount = countUse .free blocks ∧
      (((visible st.heap.firstBlock blocks).filter fun entry => entry.2.2).map
        fun entry => entry.2.1).sum = bytesOf .used blocks := by
  have consistent := historic.tallied.sound.consistent
  constructor
  · rw [Control.freeCount, visits_ok consistent, Option.getD_some, visible_freeCount]
  · exact visible_usedBytes _ _ historic.tallied.free_or_used

end Run

/-- In every run of tracked steps, the greatest number of free blocks is the greatest
one of all states so far, and the lifetime counters differ by the size of the used
blocks. -/
theorem runs_keep_history {past : List (System port)} {state : System port}
    (run : Trace Initial Tracked System.grow past state) :
    IsGreatest {count | ∃ passed ∈ state :: past, passed.heap.freeCount = count}
        state.heap.stats.maxFreeBlocks ∧ ∃ seen, state.heap.visits = some seen ∧
        wrapSub (2 ^ 64) state.heap.stats.lifetimeAllocated state.heap.stats.lifetimeFreed =
          ((seen.filter fun entry => entry.2.2).map fun entry => entry.2.1).sum := by
  have invariant : (∃ link blocks nodes, Historic link state blocks nodes) ∧
      IsGreatest {count | ∃ passed ∈ state :: past, passed.heap.freeCount = count}
        state.heap.stats.maxFreeBlocks := by
    induction run with
    | start state begins =>
      obtain ⟨link, size, tallied, -⟩ := begins.tallied
      obtain ⟨-, other, -, stats⟩ := begins.sound
      have historic : Historic link state [⟨size, .free⟩] [state.heap.firstBlock] := by
        refine ⟨tallied, ?_⟩
        rw [stats]
        exact ⟨by simp [wrapSub], by simp, by simp, by simp, by simp⟩
      refine ⟨⟨link, _, _, historic⟩, ?_⟩
      simp only [List.mem_singleton, exists_eq_left, historic.visible.1, stats]
      exact ⟨by simp, fun count same => by simpa using same.ge⟩
    | step past state next operation run tracked taken ih =>
      obtain ⟨⟨link, blocks, nodes, historic⟩, greatest⟩ := ih
      obtain ⟨blocks', nodes', kept, follows⟩ := historic.step operation tracked taken
      refine ⟨⟨link, blocks', nodes', kept⟩, ?_⟩
      have counts : {count | ∃ passed ∈ next :: state :: past, passed.heap.freeCount = count} =
          insert (countUse .free blocks')
            {count | ∃ passed ∈ state :: past, passed.heap.freeCount = count} := by
        apply Set.ext
        intro count
        rw [Set.mem_ofPred_eq, Set.mem_insert_iff, List.exists_mem_cons_iff, kept.visible.1,
          eq_comm (a := count), Set.mem_ofPred_eq]
      rw [counts, follows, max_comm]
      exact greatest.insert (countUse .free blocks')
  obtain ⟨⟨link, blocks, nodes, historic⟩, greatest⟩ := invariant
  refine ⟨greatest, _, visits_ok historic.tallied.sound.consistent, ?_⟩
  rw [historic.visible.2]
  exact historic.recorded.lifetime

/-- An allocation that cuts twice leaves two free blocks while the record stays at
one; after a resize, and after an extension, the lifetime counters no longer tell the
size of the used blocks. -/
theorem history_misses_steps :
    (∃ past state, Trace Initial (fun _ _ => True) (@System.grow .x86_64) past state ∧
      state.heap.stats.maxFreeBlocks = 1 ∧ state.heap.freeCount = 2) ∧
    (∃ past state, Trace Initial (fun _ _ => True) (@System.grow .x86_64) past state ∧
      state.heap.visits = some [(6064, 48, true), (6112, 928, false)] ∧
      wrapSub (2 ^ 64) state.heap.stats.lifetimeAllocated state.heap.stats.lifetimeFreed = 128) ∧
    ∃ past state, Trace Initial (fun _ _ => True) (@System.grow .x86_64) past state ∧
      state.heap.visits = some [(6064, 1984, false)] ∧
      wrapSub (2 ^ 64) state.heap.stats.lifetimeAllocated state.heap.stats.lifetimeFreed =
        2 ^ 64 - 1008 := by
  refine ⟨?_, ?_, ?_⟩
  · obtain ⟨past, state, run, view⟩ := session_trace (fun _ _ => True) (@System.grow .x86_64)
      (fun state => (state.heap.stats.maxFreeBlocks, state.heap.freeCount)) (1, 2) (fun _ => 0) 16
      6064 1000 16 [.basic (.allocate 1 256 0)] (by decide)
      (by decide) (by decide) (by decide) (by decide +kernel)
    exact ⟨past, state, run, Prod.mk.inj view⟩
  · obtain ⟨past, state, run, view⟩ := session_trace (fun _ _ => True) (@System.grow .x86_64)
      (fun state => (state.heap.visits, wrapSub (2 ^ 64) state.heap.stats.lifetimeAllocated
        state.heap.stats.lifetimeFreed)) (some [(6064, 48, true), (6112, 928, false)], 128)
      (fun _ => 0) 16 6064 1000 16
      [.basic (.allocate 100 0 0),
        .basic (.resize 6080 20)] (by decide) (by decide) (by decide) (by decide)
      (by decide +kernel)
    exact ⟨past, state, run, Prod.mk.inj view⟩
  · obtain ⟨past, state, run, view⟩ := session_trace (fun _ _ => True) (@System.grow .x86_64)
      (fun state => (state.heap.visits, wrapSub (2 ^ 64) state.heap.stats.lifetimeAllocated
        state.heap.stats.lifetimeFreed)) (some [(6064, 1984, false)], 2 ^ 64 - 1008)
      (fun _ => 0) 16 6064 1000 16 [.extend 7064 1000] (by decide)
      (by decide) (by decide) (by decide) (by decide +kernel)
    exact ⟨past, state, run, Prod.mk.inj view⟩

/-- Allocations and a free that reach the record and pass it. -/
theorem runs_keep_history_record :
    ∃ past state, Trace Initial Tracked (@System.grow .x86_64) past state ∧
      state.heap.stats.maxFreeBlocks = 2 ∧
      IsGreatest {count | ∃ passed ∈ state :: past, passed.heap.freeCount = count}
        state.heap.stats.maxFreeBlocks := by
  obtain ⟨past, state, run, record⟩ := session_trace Tracked (@System.grow .x86_64)
      (fun state => state.heap.stats.maxFreeBlocks) 2 (fun _ => 0) 16 6064 1000
    16 [.basic (.allocate 100 0 0), .basic (.allocate 100 0 0), .basic (.free 6080),
      .basic (.allocate 1 0 0)] (by decide) (by decide)
    (by decide) (by decide +kernel) (by decide +kernel)
  exact ⟨past, state, run, record, (runs_keep_history run).1⟩

end Rtems.Heap
