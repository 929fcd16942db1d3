import Rtems.Heap.Disjoint
import Rtems.Heap.Statistics

/-!
# The free space of a heap

A free joins the neighbouring free blocks at once. So the free blocks are what the used blocks leave
of the area, and a free undoes an allocation.
-/

namespace Rtems.Heap

open ByteMemory LinkRing Transition
open Prod (fst)

variable {port : Port} {link : Nat → Nat}

/-- The coarsest partition of an area around some used blocks, as an iteration visits it. There is one
free block in every place that they leave. -/
def coarsest (start stop : Nat) : List (Nat × Nat) → List (Nat × Nat × Bool)
  | [] => if start < stop then [(start, stop - start, false)] else []
  | (block, size) :: rest =>
      (if start < block then [(start, block - start, false)] else []) ++
        (block, size, true) :: coarsest (block + size) stop rest

/-- An iteration over two heaps visits the same blocks, and their current statistics agree. -/
structure Control.SeenLike (heap other : Control port) : Prop where
  visits : heap.visits = other.visits
  freeSize : heap.stats.freeSize = other.stats.freeSize
  freeBlocks : heap.stats.freeBlocks = other.stats.freeBlocks
  usedBlocks : heap.stats.usedBlocks = other.stats.usedBlocks

/-- Blocks that are free or used are the coarsest partition, since the flag of a used predecessor is
set for a free block and not set behind it. -/
theorem Tiles.coarsest {fields : Headers} {tail : Ends} {start : Nat} {flag : Bool} {blocks : List Block}
    (tiles : Tiles fields tail start flag blocks) (pos : ∀ block ∈ blocks, 0 < block.size)
    (plain : ∀ block ∈ blocks, block.use = .free ∨ block.use = .used) : visible start blocks =
      Heap.coarsest start (start + total blocks) (usedPlaces start blocks) := by
  induction blocks generalizing start flag with
  | nil => simp [visible, Heap.coarsest]
  | cons block rest ih =>
    obtain ⟨-, inner, marks, tiles⟩ := tiles
    have same := ih tiles (fun next mem => pos next (.tail _ mem)) fun next mem => plain next (.tail _ mem)
    rw [Nat.add_assoc, ← total_cons] at same
    rw [visible_cons, same, usedPlaces_cons]
    rcases plain block (.head _) with free | used
    · rw [if_neg (by simp [free])]
      cases rest with
      | nil => simp [Heap.coarsest, free, pos block (.head _)]
      | cons next after =>
        -- the next block is used
        have taken := (plain next (by simp)).resolve_left fun other => by
          rw [free] at marks
          exact absurd (marks.symm.trans (tiles.1.2.1 other).1) (by simp)
        simp [usedPlaces_cons, taken, free, Heap.coarsest, pos block (.head _)]
    · simp [used, Heap.coarsest]

variable {st : System port} {blocks : List Block} {nodes : List Nat}

/-- An iteration visits the coarsest partition. -/
theorem Tallied.coarsest (tallied : Tallied link st blocks nodes) : st.heap.visits = some
    (Heap.coarsest st.heap.firstBlock st.heap.lastBlock (usedPlaces st.heap.firstBlock blocks)) := by
  have consistent := tallied.sound.consistent
  have geom := consistent.represents.geometry
  rw [visits_ok consistent, geom.last,
    consistent.represents.tiles.coarsest geom.positive tallied.free_or_used]

variable {next : System port} {blocks' : List Block} {nodes' : List Nat}

/-- Heaps over the same area with the same used blocks show the same blocks and statistics. -/
theorem Tallied.determined (tallied : Tallied link st blocks nodes) (again : Tallied link next blocks' nodes')
    (first : next.heap.firstBlock = st.heap.firstBlock) (last : next.heap.lastBlock = st.heap.lastBlock)
    (same : (usedPlaces st.heap.firstBlock blocks').Perm (usedPlaces st.heap.firstBlock blocks)) :
    next.heap.SeenLike st.heap := by
  have used : usedPlaces st.heap.firstBlock blocks' = usedPlaces st.heap.firstBlock blocks := by
    have one := usedPlaces_ascending st.heap.firstBlock _ tallied.sound.consistent.represents.geometry.positive
    have two := usedPlaces_ascending st.heap.firstBlock _ again.sound.consistent.represents.geometry.positive
    rw [List.pairwise_map] at one two
    exact same.eq_of_pairwise (fun _ _ _ _ below above => absurd (below.trans above) (Nat.lt_irrefl _)) two one
  have visits : next.heap.visits = st.heap.visits := by
    rw [tallied.coarsest, again.coarsest, first, last, used]
  have found := visits
  rw [visits_ok tallied.sound.consistent, visits_ok again.sound.consistent, Option.some_inj] at found
  obtain ⟨size, free, count, -⟩ := tallied.exact.1
  obtain ⟨size', free', count', -⟩ := again.exact.1
  rw [found] at size' free' count'
  exact ⟨visits, size'.trans size.symm, free'.trans free.symm, count'.trans count.symm⟩

/-- Every run keeps the current statistics. -/
theorem Tallied.run {past : List (System port)} (run : Trace Initial ResizeReaches System.step past st) :
    ∃ link blocks nodes, Tallied link st blocks nodes := by
  refine run.invariant (fun state => ∃ link blocks nodes, Tallied link state blocks nodes) ?_ ?_
  · intro state initial
    obtain ⟨link, size, tallied, -⟩ := initial.tallied
    exact ⟨link, _, _, tallied⟩
  · rintro state op next ⟨link, blocks, nodes, tallied⟩ reaches taken
    obtain ⟨blocks', nodes', -, kept, -⟩ := tallied.step op reaches taken
    exact ⟨link, blocks', nodes', kept⟩

/-- In every run an iteration visits the coarsest partition of the area around the blocks of the
allocations in use. -/
theorem runs_keep_free_space_whole {past : List (System port)} {state : System port}
    (run : Trace Initial ResizeReaches System.step past state) : ∃ used,
      (used.map fst).Perm (state.live.map fun grant => state.owner grant.address) ∧
      (used.map fst).Pairwise (· < ·) ∧
      state.heap.visits = some (coarsest state.heap.firstBlock state.heap.lastBlock used) := by
  obtain ⟨link, blocks, nodes, tallied⟩ := Tallied.run run
  exact ⟨_, tallied.sound.owners.symm,
    usedPlaces_ascending _ _ tallied.sound.consistent.represents.geometry.positive, tallied.coarsest⟩

/-- One of two allocations is freed, and the other one is between two free blocks. -/
theorem runs_keep_free_space_whole_between : ∃ past state,
    Trace Initial ResizeReaches (@System.step .x86_64) past state ∧ state.live = [⟨6204, 1⟩] ∧ ∃ block size,
      state.heap.visits = some (coarsest state.heap.firstBlock state.heap.lastBlock [(block, size)]) := by
  obtain ⟨past, state, run, live⟩ := session_trace ResizeReaches (@System.step .x86_64)
      (fun state => state.live) [⟨6204, 1⟩] (fun _ => 0) 16 6064 272 64
    (overrun ++ [.free 6208]) (by decide) (by decide) (by decide)
    (by decide +kernel) (by decide +kernel)
  obtain ⟨used, owners, -, seen⟩ := runs_keep_free_space_whole run
  rw [live] at owners
  obtain ⟨⟨block, size⟩, rfl⟩ := List.length_eq_one_iff.mp
    ((List.length_map ..).symm.trans owners.length_eq)
  exact ⟨past, state, run, live, block, size, seen⟩

/-- In every reachable state an allocation returns, and a free of what it returns is accepted and
brings the blocks and the current statistics back. An allocation that fails leaves them alone. -/
theorem free_undoes_allocate {past : List (System port)} {state : System port}
    (run : Trace Initial ResizeReaches System.step past state)
    (size alignment boundary : Fin port.modulus) : ∃ address heap freed,
      state.heap.allocateAlignedWithBoundary size alignment boundary = some (address, heap) ∧
      (if address = 0 then freed = heap else heap.heapFree address = (true, freed)) ∧
      freed.SeenLike state.heap := by
  obtain ⟨link, blocks, nodes, tallied⟩ := Tallied.run run
  obtain ⟨address, heap, blocks', nodes', value, allocation, consistent⟩ :=
    allocate_spec tallied.sound.consistent size alignment boundary size.isLt
  have kept := tallied.sound.allocated size alignment boundary address heap allocation consistent
  have effect := Effect.allocate size alignment boundary address heap blocks' nodes' allocation
  have allocated := tallied.after effect kept
  obtain ⟨memory, stats, renewed⟩ := effect.renewed
  obtain rfl : heap = state.heap.renew memory stats := renewed
  refine ⟨address, state.heap.renew memory stats, ?_⟩
  rcases allocation.used_added tallied.sound.consistent with
    ⟨zero, rfl⟩ | ⟨_, _, _, block, nonzero, -, -, -, -, located, added⟩
  · exact ⟨_, value, if_pos zero ▸ rfl, tallied.determined allocated rfl rfl .rfl⟩
  · rw [if_neg nonzero] at kept allocated
    have live : System.Live ⟨state.heap.renew memory stats, ⟨address, size⟩ :: state.live⟩ address := by
      simp [System.Live]
    have found := consistent.block_of_used block _ address (added.mem_iff.mpr (.head _)) located
    obtain ⟨front, blockSize, back, rfl, owner, -, -⟩ := kept.live_block address live
    obtain ⟨freed, blocks'', nodes'', accepted, release, last⟩ :=
      heapFree_spec consistent address nonzero owner
    have removed := release.used_removed
    rw [show _ = block from owner.symm.trans found] at removed
    rw [← owner] at release
    have again := allocated.after (.free address blockSize freed blocks'' nodes'' live release)
      (kept.freed address blockSize live freed release last)
    obtain ⟨memory', stats', renewed⟩ :=
      (Effect.free address blockSize freed blocks'' nodes'' live release).renewed
    obtain rfl : freed = state.heap.renew memory' stats' := renewed
    have same := kept.used_unique block _ _ (removed.mem_iff.mpr (.head _)) (added.mem_iff.mpr (.head _))
    rw [← same] at added
    refine ⟨_, value, (if_neg nonzero).symm ▸ accepted, tallied.determined again rfl rfl ?_⟩
    exact (List.perm_cons _).mp (removed.symm.trans added)

/-- A third allocation next to two others, and its free. -/
theorem free_undoes_allocate_third : ∃ past state,
    Trace Initial ResizeReaches (@System.step .x86_64) past state ∧ ∃ address heap freed,
      state.heap.allocateAlignedWithBoundary 8 0 0 = some (address, heap) ∧ address = 6080 ∧
      heap.heapFree address = (true, freed) ∧ freed.SeenLike state.heap := by
  obtain ⟨past, state, run, seen⟩ := session_trace ResizeReaches (@System.step .x86_64)
      (fun state => (state.heap.allocateAlignedWithBoundary 8 0 0).map fst) (some 6080) (fun _ => 0) 16 6064
    272 64 overrun (by decide) (by decide) (by decide) (by decide +kernel) (by decide +kernel)
  obtain ⟨address, heap, freed, value, accepted, same⟩ := free_undoes_allocate run 8 0 0
  have value : state.heap.allocateAlignedWithBoundary 8 0 0 = some (address, heap) := value
  obtain rfl : address = 6080 := by
    rw [value] at seen
    exact Option.some.inj seen
  exact ⟨past, state, run, _, heap, freed, value, rfl, accepted, same⟩

end Rtems.Heap
