import Mathlib.Order.Bounds.Basic
import Rtems.Heap.Runs

/-!
# The statistics of a heap

The current statistics are adjusted at every place that adds, removes or joins free
blocks. `Counts` states what they should be for a block list; there is one lemma for
each kind of edit, and the operations are compositions of these edits. The sizes are
`uintptr_t` values and exact, the counters have 32 bits and are exact modulo `2 ^ 32`.
-/

namespace Rtems.Heap

open ByteMemory LinkRing Alignment Transition
open List (mem_cons replicate)

variable {port : Port} {link : Nat → Nat}

/-- The number of blocks with a use. -/
def countUse (use : Use) (blocks : List Block) : Nat :=
  blocks.countP fun block => block.use == use

/-- The number of bytes in blocks with a use. -/
def bytesOf (use : Use) (blocks : List Block) : Nat :=
  total (blocks.filter fun block => block.use == use)

section

variable (use : Use)

@[simp] theorem countUse_nil : countUse use [] = 0 := rfl

@[simp] theorem countUse_cons (block : Block) (rest : List Block) :
    countUse use (block :: rest) = (if block.use = use then 1 else 0) + countUse use rest := by
  simp [countUse, List.countP_cons, Nat.add_comm]

@[simp] theorem countUse_append (front back : List Block) :
    countUse use (front ++ back) = countUse use front + countUse use back := by
  simp [countUse]

@[simp] theorem bytesOf_nil : bytesOf use [] = 0 := rfl

@[simp] theorem bytesOf_cons (block : Block) (rest : List Block) :
    bytesOf use (block :: rest) = (if block.use = use then block.size else 0) + bytesOf use rest := by
  by_cases same : block.use = use <;> simp [bytesOf, same]

@[simp] theorem bytesOf_append (front back : List Block) :
    bytesOf use (front ++ back) = bytesOf use front + bytesOf use back := by
  simp [bytesOf]

theorem bytesOf_le (blocks : List Block) : bytesOf use blocks ≤ total blocks := by
  induction blocks with
  | nil => simp
  | cons block rest ih =>
    rw [bytesOf_cons, total_cons]
    split <;> omega

end

/-- The current statistics agree with a block list. -/
structure Counts (stats : Statistics) (blocks : List Block) : Prop where
  freeSize : stats.freeSize = bytesOf .free blocks
  freeBlocks : stats.freeBlocks = countUse .free blocks % 2 ^ 32
  usedBlocks : stats.usedBlocks = countUse .used blocks % 2 ^ 32

theorem increment_spec (count : Nat) :
    increment count < 2 ^ 32 ∧ increment count = (count + 1) % 2 ^ 32 := by
  exact ⟨Nat.mod_lt _ (by decide), rfl⟩

theorem decrement_spec (count : Nat) :
    decrement count < 2 ^ 32 ∧ (decrement count + 1) % 2 ^ 32 = count % 2 ^ 32 := by
  unfold decrement wrapSub
  refine ⟨Nat.mod_lt _ (by decide), ?_⟩
  omega

/-! ## The edits -/

namespace Counts

variable {stats others : Statistics} {front middle replacement back : List Block} {size : Nat}

variable {blocks : List Block}

/-- Fields that are not counted do not matter. -/
theorem congr (counts : Counts stats blocks) (freeSize : others.freeSize = stats.freeSize)
    (freeBlocks : others.freeBlocks = stats.freeBlocks)
    (usedBlocks : others.usedBlocks = stats.usedBlocks) : Counts others blocks :=
  ⟨freeSize.trans counts.freeSize, freeBlocks.trans counts.freeBlocks,
    usedBlocks.trans counts.usedBlocks⟩

/-- Some blocks are replaced by others, and the statistics change by the difference. -/
theorem edit (middle replacement : List Block) (counts : Counts stats (front ++ (middle ++ back)))
      (freeSize : others.freeSize + bytesOf .free middle = stats.freeSize + bytesOf .free
      replacement) (freeBlocks : others.freeBlocks < 2 ^ 32 ∧ (others.freeBlocks + countUse .free
      middle) % 2 ^ 32 = (stats.freeBlocks + countUse .free replacement) % 2 ^ 32) (usedBlocks :
      others.usedBlocks < 2 ^ 32 ∧ (others.usedBlocks + countUse .used middle) % 2 ^ 32 =
      (stats.usedBlocks + countUse .used replacement) % 2 ^ 32) :
    Counts others (front ++ (replacement ++ back)) := by
  obtain ⟨oldSize, oldFree, oldUsed⟩ := counts
  simp only [bytesOf_append, countUse_append] at oldSize oldFree oldUsed
  refine ⟨?_, ?_, ?_⟩
  · simp only [bytesOf_append]
    omega
  · simp only [countUse_append]
    omega
  · simp only [countUse_append]
    omega

/-- The free bytes of a part are among those that are counted. -/
theorem part_le (middle : List Block) (counts : Counts stats (front ++ (middle ++ back))) :
    bytesOf .free middle ≤ stats.freeSize := by
  rw [counts.freeSize]
  simp only [bytesOf_append]
  omega

theorem freeBlocks_lt (counts : Counts stats blocks) : stats.freeBlocks < 2 ^ 32 := by
  rw [counts.freeBlocks]
  exact Nat.mod_lt _ (by decide)

theorem usedBlocks_lt (counts : Counts stats blocks) : stats.usedBlocks < 2 ^ 32 := by
  rw [counts.usedBlocks]
  exact Nat.mod_lt _ (by decide)

/-- A free block is taken. -/
theorem take (port : Port) (counts : Counts stats (front ++ ⟨size, .free⟩ :: back))
    (bounded : stats.freeSize < port.modulus) :
    Counts (takeStats port stats size) (front ++ ⟨size, .used⟩ :: back) := by
  have part : size ≤ stats.freeSize := by simpa using part_le [⟨size, .free⟩] counts
  apply edit [⟨size, .free⟩] [⟨size, .used⟩] counts
  · simp only [takeStats, port.sub_of_le _ _ part bounded, bytesOf_cons, if_true, reduceCtorEq,
      if_false]
    omega
  · have fewer := decrement_spec stats.freeBlocks
    simp only [takeStats, countUse_cons, if_true, reduceCtorEq, if_false]
    omega
  · have more := increment_spec stats.usedBlocks
    simp only [takeStats, countUse_cons, if_true, reduceCtorEq, if_false]
    omega

/-- One free block more, of some size. -/
theorem enlist (middle replacement : List Block) {free : Nat} (counts : Counts stats (front ++ (middle ++ back)))
    (bounded : stats.freeSize + free < port.modulus)
    (bytes : bytesOf .free replacement = bytesOf .free middle + free)
    (freeCount : countUse .free replacement = countUse .free middle + 1)
    (usedCount : countUse .used replacement = countUse .used middle) :
    Counts (enlistStats port stats free) (front ++ (replacement ++ back)) := by
  have used := counts.usedBlocks_lt
  apply edit middle replacement counts
  · simp only [enlistStats, port.add_of_lt _ _ bounded]
    omega
  · have more := increment_spec stats.freeBlocks
    simp only [enlistStats]
    omega
  · simp only [enlistStats, usedCount, and_true]
    exact used

/-- A used block is carved. -/
theorem carve (heap : Control port) (allocSize : Nat)
    (counts : Counts stats (front ++ ⟨size, .used⟩ :: back))
    (bounded : stats.freeSize + size < port.modulus) :
    Counts (heap.carveStats stats size allocSize) (front ++ (heap.carve size allocSize ++ back)) := by
  unfold Control.carveStats Control.carve
  split
  · apply enlist [⟨size, .used⟩] _ counts (by omega) <;> simp
  · exact counts

/-- A used block is freed, and its free neighbours are joined with it. -/
theorem release (middle replacement : List Block) (counts : Counts stats (front ++ (middle ++ back)))
    (bounded : stats.freeSize + size < port.modulus) (freeSize : others.freeSize = stats.freeSize)
    (usedBlocks : others.usedBlocks = stats.usedBlocks)
    (bytes : bytesOf .free replacement = bytesOf .free middle + size)
    (freeBlocks : others.freeBlocks < 2 ^ 32 ∧ (others.freeBlocks + countUse .free middle) % 2 ^ 32 =
      (stats.freeBlocks + countUse .free replacement) % 2 ^ 32)
    (usedCount : countUse .used middle = countUse .used replacement + 1) :
    Counts (freeStats port others size) (front ++ (replacement ++ back)) := by
  have fewer := decrement_spec stats.usedBlocks
  apply edit middle replacement counts
  · simp only [freeStats, freeSize, port.add_of_lt _ _ bounded]
    omega
  · exact freeBlocks
  · simp only [freeStats, usedBlocks]
    omega

/-- A used block is joined with the free block behind it. -/
theorem absorb {nextSize : Nat}
    (counts : Counts stats (front ++ ⟨size, .used⟩ :: ⟨nextSize, .free⟩ :: back))
    (bounded : stats.freeSize < port.modulus) :
    Counts { stats with
        freeBlocks := decrement stats.freeBlocks
        freeSize := port.sub stats.freeSize nextSize }
      (front ++ ⟨size + nextSize, .used⟩ :: back) := by
  have part : nextSize ≤ stats.freeSize := by
    simpa using part_le [⟨size, .used⟩, ⟨nextSize, .free⟩] counts
  have used := counts.usedBlocks_lt
  apply edit [⟨size, .used⟩, ⟨nextSize, .free⟩] [⟨size + nextSize, .used⟩] counts
  · simp only [port.sub_of_le _ _ part bounded, bytesOf_cons, if_true, reduceCtorEq, if_false]
    omega
  · have fewer := decrement_spec stats.freeBlocks
    simp only [countUse_cons, if_true]
    omega
  · simpa only [countUse_cons, countUse_nil, reduceCtorEq, if_false, and_true] using used

end Counts

section Effects

variable {heap result : Control port} {blocks blocks' : List Block} {nodes nodes' : List Nat}

/-- The free bytes and what a used block holds together fit into the address space. -/
theorem Counts.bounded (front back : List Block) (block : Block)
    (counts : Counts heap.stats (front ++ block :: back))
    (sound : Consistent link heap (front ++ block :: back) nodes) :
    heap.stats.freeSize < port.modulus ∧
      (block.use ≠ .free → heap.stats.freeSize + block.size < port.modulus) := by
  have geometry := sound.represents.geometry
  have last := geometry.last
  have bounded := geometry.bounded
  have frontBytes := bytesOf_le .free front
  have backBytes := bytesOf_le .free back
  rw [counts.freeSize]
  simp only [bytesOf_append, bytesOf_cons, total_append, total_cons] at last ⊢
  constructor
  · split <;> omega
  · intro used
    rw [if_neg used]
    omega

/-- An allocation keeps the current statistics right. -/
theorem Allocation.counts {allocSize alignment boundary start : Nat}
    (sound : Consistent link heap blocks nodes) (allocation : Allocation heap blocks nodes
      allocSize alignment boundary start result blocks' nodes')
    (counts : Counts heap.stats blocks) : Counts result.stats blocks' := by
  cases allocation with
  | rejected => exact counts
  | failed searchCount => exact counts.congr rfl rfl rfl
  | placed front back size before after start searchCount memory blocksSplit nodesSplit nonzero
      chosen suitable =>
    subst blocksSplit
    have rest := suitable.admissible.rest
    have limit := (counts.bounded _ _ _ sound).1
    have taken := counts.take port limit
    have room : (takeStats port heap.stats size).freeSize + size < port.modulus := by
      have part : size ≤ heap.stats.freeSize := by simpa using Counts.part_le [⟨size, .free⟩] counts
      simp only [takeStats, port.sub_of_le _ _ part limit]
      omega
    by_cases whole : beginSize port heap.pageSize (heap.firstBlock + total front) start = 0
    · have carved := taken.carve heap
        (allocSize + (start - (heap.firstBlock + total front + 2 * port.wordSize))) room
      simp only [Control.allocateStats, Control.allocateBlocks, whole]
      exact carved.congr rfl rfl rfl
    · simp only [Control.allocateStats, Control.allocateBlocks, whole]
      generalize beginSize port heap.pageSize (heap.firstBlock + total front) start = free at *
      have begun : Counts (enlistStats port (takeStats port heap.stats size) free)
          ((front ++ [⟨free, .free⟩]) ++ ⟨size - free, .used⟩ :: back) := by
        have edited : Counts (enlistStats port (takeStats port heap.stats size) free)
            (front ++ ([⟨free, .free⟩, ⟨size - free, .used⟩] ++ back)) := by
          apply Counts.enlist [⟨size, .used⟩] _ taken (by omega) <;> simp
        simpa using edited
      have sum : (enlistStats port (takeStats port heap.stats size) free).freeSize =
          (takeStats port heap.stats size).freeSize + free := port.add_of_lt _ _ (by omega)
      have carved := begun.carve heap allocSize (by omega)
      rw [List.append_assoc, List.singleton_append, ← List.cons_append] at carved
      exact carved.congr rfl rfl rfl

/-- Freeing keeps the current statistics right. -/
theorem Release.counts {block size : Nat} (sound : Consistent link heap blocks nodes)
    (release : Release heap blocks nodes block size result blocks' nodes')
    (counts : Counts heap.stats blocks) : Counts result.stats blocks' := by
  cases release with
  | alone front back size nodes memory =>
    have limit := (counts.bounded _ _ _ sound).2 (by simp)
    have more := increment_spec heap.stats.freeBlocks
    exact counts.release [⟨size, .used⟩] [⟨size, .free⟩] limit rfl rfl (by simp)
      (by simp; omega) (by simp)
  | next front back size nextSize before after memory =>
    have limit := (counts.bounded _ _ _ sound).2 (by simp)
    exact counts.release [⟨size, .used⟩, ⟨nextSize, .free⟩] [⟨size + nextSize, .free⟩] limit rfl rfl
      (by simp [Nat.add_comm]) ⟨counts.freeBlocks_lt, by simp⟩ (by simp)
  | prev front back prevSize size nodes memory =>
    have limit := (Counts.bounded (front ++ [⟨prevSize, .free⟩]) _ ⟨size, .used⟩
      (by simpa using counts) (by simpa using sound)).2 (by simp)
    exact counts.release [⟨prevSize, .free⟩, ⟨size, .used⟩] [⟨prevSize + size, .free⟩] limit rfl rfl
      (by simp) ⟨counts.freeBlocks_lt, by simp⟩ (by simp)
  | both front back prevSize size nextSize before after memory =>
    have limit := (Counts.bounded (front ++ [⟨prevSize, .free⟩]) _ ⟨size, .used⟩
      (by simpa using counts) (by simpa using sound)).2 (by simp)
    have less := decrement_spec heap.stats.freeBlocks
    exact counts.release [⟨prevSize, .free⟩, ⟨size, .used⟩, ⟨nextSize, .free⟩]
      [⟨prevSize + size + nextSize, .free⟩] limit rfl rfl (by simp; omega) (by simp; omega) (by simp)

/-- A resize keeps the current statistics right. -/
theorem Resizing.counts {start newSize block : Nat} {status : ResizeStatus}
    (sound : Consistent link heap blocks nodes)
    (resizing : Resizing heap start newSize blocks nodes block status result blocks' nodes')
    (counts : Counts heap.stats blocks) : Counts result.stats blocks' := by
  cases resizing with
  | unsatisfied => exact counts
  | alone front back size nodes memory below =>
    have limit := (counts.bounded _ _ _ sound).2 (by simp)
    exact (counts.carve heap _ limit).congr rfl rfl rfl
  | absorbing front back size nextSize before after memory below =>
    have limits := counts.bounded _ _ _ sound
    have part : nextSize ≤ heap.stats.freeSize := by
      simpa using Counts.part_le [⟨size, .used⟩, ⟨nextSize, .free⟩] counts
    have absorbed := counts.absorb limits.1
    refine (absorbed.carve heap _ ?_).congr rfl rfl rfl
    have limit := limits.2 (by simp)
    simp only [port.sub_of_le _ _ part limits.1] at limit ⊢
    omega

end Effects

/-! ## Runs of a heap with a single area -/

/-- The size of the free blocks that an iteration finds. -/
def Control.freeTotal (heap : Control port) : Nat :=
  (((heap.visits.getD []).filter fun entry => !entry.2.2).map fun entry => entry.2.1).sum

/-- The current statistics agree with what an iteration finds. The counters have
thirty-two bits. -/
structure Exact (stats : Statistics) (seen : List (Nat × Nat × Bool)) : Prop where
  freeSize : stats.freeSize =
    ((seen.filter fun entry => !entry.2.2).map fun entry => entry.2.1).sum
  freeBlocks : stats.freeBlocks = (seen.filter fun entry => !entry.2.2).length % 2 ^ 32
  usedBlocks : stats.usedBlocks = (seen.filter fun entry => entry.2.2).length % 2 ^ 32
  size : stats.size = (seen.map fun entry => entry.2.1).sum

section

variable (start : Nat) (blocks : List Block)

theorem visible_freeBytes :
    (((visible start blocks).filter fun entry => !entry.2.2).map fun entry => entry.2.1).sum =
      bytesOf .free blocks := by
  induction blocks generalizing start with
  | nil => rfl
  | cons block rest ih =>
    rw [visible_cons, bytesOf_cons, ← ih (start + block.size)]
    by_cases free : block.use = .free <;> simp [free]

theorem visible_freeCount :
    ((visible start blocks).filter fun entry => !entry.2.2).length = countUse .free blocks := by
  induction blocks generalizing start with
  | nil => rfl
  | cons block rest ih =>
    rw [visible_cons, countUse_cons, ← ih (start + block.size)]
    by_cases free : block.use = .free <;> simp [free, Nat.add_comm]

theorem visible_total : ((visible start blocks).map fun entry => entry.2.1).sum = total blocks := by
  induction blocks generalizing start with
  | nil => rfl
  | cons block rest ih =>
    rw [visible_cons, total_cons, ← ih (start + block.size)]
    simp

/-- The used blocks that an iteration finds, if there is no gap. -/
theorem visible_usedCount (solid : ∀ block ∈ blocks, block.use = .free ∨ block.use = .used) :
    ((visible start blocks).filter fun entry => entry.2.2).length = countUse .used blocks := by
  induction blocks generalizing start with
  | nil => rfl
  | cons block rest ih =>
    rw [visible_cons, countUse_cons, ← ih (start + block.size)
      fun other mem => solid other (by simp [mem])]
    rcases solid block (by simp) with use | use <;> simp [use, Nat.add_comm]

end

/-- No block is a gap. -/
def Solid (blocks : List Block) : Prop := ∀ block ∈ blocks, block.use ≠ .gap

variable {op : Operation port}

section Solid

variable {front middle replacement back : List Block}

theorem Solid.edit (middle replacement : List Block) (solid : Solid (front ++ (middle ++ back)))
    (new : Solid replacement) : Solid (front ++ (replacement ++ back)) := by
  intro block mem
  simp only [List.mem_append] at mem
  rcases mem with mem | mem | mem
  · exact solid block (by simp [mem])
  · exact new block mem
  · exact solid block (by simp [mem])

theorem carve_solid (heap : Control port) (size allocSize : Nat) :
    Solid (heap.carve size allocSize) := by
  intro block mem
  unfold Control.carve at mem
  split at mem <;> simp only [mem_cons, List.not_mem_nil, or_false] at mem
  · rcases mem with rfl | rfl <;> simp
  · subst mem
    simp

variable {st next : System port} {blocks blocks' : List Block} {nodes nodes' : List Nat}

/-- No operation makes a gap. -/
theorem Effect.solid (effect : Effect st blocks nodes op next blocks' nodes') (solid : Solid blocks) :
    Solid blocks' := by
  cases effect with
  | allocate size alignment boundary addr heap blocks' nodes' allocation =>
    cases allocation with
    | rejected => exact solid
    | failed searchCount => exact solid
    | placed front back blockSize before after addr searchCount memory blocksSplit =>
      subst blocksSplit
      apply Solid.edit [⟨blockSize, .free⟩] _ solid
      unfold Control.allocateBlocks
      simp only
      split
      · exact carve_solid _ _ _
      · intro block mem
        rcases mem_cons.mp mem with rfl | mem
        · simp
        · exact carve_solid _ _ _ block mem
  | free addr size heap blocks' nodes' live release =>
    generalize st.owner addr = block at release
    cases release with
    | alone front back size nodes memory =>
      exact Solid.edit [⟨size, .used⟩] [⟨size, .free⟩] solid (by simp [Solid])
    | next front back size nextSize before after memory =>
      exact Solid.edit [⟨size, .used⟩, ⟨nextSize, .free⟩] [⟨size + nextSize, .free⟩] solid
        (by simp [Solid])
    | prev front back prevSize size nodes memory =>
      exact Solid.edit [⟨prevSize, .free⟩, ⟨size, .used⟩] [⟨prevSize + size, .free⟩] solid
        (by simp [Solid])
    | both front back prevSize size nextSize before after memory =>
      exact Solid.edit [⟨prevSize, .free⟩, ⟨size, .used⟩, ⟨nextSize, .free⟩]
        [⟨prevSize + size + nextSize, .free⟩] solid (by simp [Solid])
  | resize addr size status heap blocks' nodes' live resizing =>
    generalize st.owner addr = block at resizing
    cases resizing with
    | unsatisfied => exact solid
    | alone front back size nodes memory below =>
      exact Solid.edit [⟨size, .used⟩] _ solid (carve_solid _ _ _)
    | absorbing front back size nextSize before after memory below =>
      exact Solid.edit [⟨size, .used⟩, ⟨nextSize, .free⟩] _ solid (carve_solid _ _ _)
  | write addr place byte live inside => exact solid

end Solid

/-- The run invariant together with the current statistics. -/
structure Tallied (link : Nat → Nat) (state : System port) (blocks : List Block) (nodes : List Nat) :
    Prop where
  sound : Sound link state blocks nodes
  solid : Solid blocks
  counts : Counts state.heap.stats blocks
  size : state.heap.firstBlock + state.heap.stats.size = state.heap.lastBlock
  least : state.heap.stats.minFreeSize ≤ state.heap.stats.freeSize

section Step

variable {st next : System port} {blocks blocks' : List Block} {nodes nodes' : List Nat}

section

variable (heap : Control port) (stats : Statistics) (size allocSize : Nat)

@[simp] theorem Control.carveStats_size : (heap.carveStats stats size allocSize).size = stats.size := by
  unfold Control.carveStats
  split <;> rfl

@[simp] theorem Control.carveStats_minFreeSize :
    (heap.carveStats stats size allocSize).minFreeSize = stats.minFreeSize := by
  unfold Control.carveStats
  split <;> rfl

end

/-- The total size stays the same, and the least free size follows the free size. -/
theorem Tallied.sizes (tallied : Tallied link st blocks nodes)
    (effect : Effect st blocks nodes op next blocks' nodes')
    (counts : Counts next.heap.stats blocks') :
    next.heap.stats.size = st.heap.stats.size ∧ next.heap.stats.minFreeSize =
        min st.heap.stats.minFreeSize next.heap.stats.freeSize := by
  have least := tallied.least
  cases effect with
  | allocate size alignment boundary addr heap blocks' nodes' allocation =>
    cases allocation with
    | rejected | failed => exact ⟨rfl, (Nat.min_eq_left least).symm⟩
    | placed front back blockSize before after addr searchCount memory =>
      simp only [successStats, Control.allocateStats, leastStats]
      split <;> simp [takeStats, enlistStats]
  | free addr size heap blocks' nodes' live release =>
    have before := tallied.counts.freeSize
    have after := counts.freeSize
    generalize st.owner addr = block at release
    have grown : bytesOf .free blocks' = bytesOf .free blocks + size := by
      cases release <;> simp <;> omega
    have same : heap.stats.size = st.heap.stats.size ∧
        heap.stats.minFreeSize = st.heap.stats.minFreeSize := by
      cases release <;> exact ⟨rfl, rfl⟩
    refine ⟨same.1, same.2.trans (Nat.min_eq_left ?_).symm⟩
    omega
  | resize addr size status heap blocks' nodes' live resizing =>
    generalize st.owner addr = block at resizing
    cases resizing with
    | unsatisfied => exact ⟨rfl, (Nat.min_eq_left least).symm⟩
    | alone | absorbing =>
      simp [resizeStats, leastStats]
  | write addr place byte live inside => exact ⟨rfl, (Nat.min_eq_left least).symm⟩

/-- A step keeps the current statistics right. -/
theorem Effect.counts (effect : Effect st blocks nodes op next blocks' nodes')
    (sound : Sound link st blocks nodes) (counts : Counts st.heap.stats blocks) :
    Counts next.heap.stats blocks' := by
  cases effect with
  | allocate size alignment boundary addr heap blocks' nodes' allocation =>
    exact allocation.counts sound.consistent counts
  | free addr size heap blocks' nodes' live release =>
    exact release.counts sound.consistent counts
  | resize addr size status heap blocks' nodes' live resizing =>
    exact resizing.counts sound.consistent counts
  | write addr place byte live inside => exact counts

/-- A step that keeps the run invariant keeps the statistics right. -/
theorem Tallied.after (tallied : Tallied link st blocks nodes)
    (effect : Effect st blocks nodes op next blocks' nodes') (kept : Sound link next blocks' nodes') :
    Tallied link next blocks' nodes' := by
  have counts := effect.counts tallied.sound tallied.counts
  obtain ⟨size, least⟩ := tallied.sizes effect counts
  obtain ⟨memory, stats, renewed⟩ := effect.renewed
  refine ⟨kept, effect.solid tallied.solid, counts, ?_, least.trans_le (Nat.min_le_right _ _)⟩
  rw [size, renewed]
  exact tallied.size

theorem Tallied.step (tallied : Tallied link st blocks nodes) (op : Operation port)
    (reaches : ResizeReaches st op) (taken : st.step op = some next) :
    ∃ blocks' nodes', Effect st blocks nodes op next blocks' nodes' ∧
      Tallied link next blocks' nodes' ∧ next.heap.stats.minFreeSize =
        min st.heap.stats.minFreeSize next.heap.stats.freeSize := by
  obtain ⟨blocks', nodes', effect, kept⟩ := tallied.sound.step op reaches taken
  have counts := effect.counts tallied.sound tallied.counts
  exact ⟨blocks', nodes', effect, tallied.after effect kept, (tallied.sizes effect counts).2⟩

/-- Without gaps every block is free or used. -/
theorem Tallied.free_or_used (tallied : Tallied link st blocks nodes) :
    ∀ block ∈ blocks, block.use = .free ∨ block.use = .used := by
  intro block mem
  have first := tallied.solid block mem
  have second := tallied.sound.consistent.settled block mem
  cases use : block.use with
  | free => exact .inl rfl
  | used => exact .inr rfl
  | gap => exact absurd use first
  | pending => exact absurd use second

/-- What an iteration finds agrees with the statistics. -/
theorem Tallied.exact (tallied : Tallied link st blocks nodes) :
    Exact st.heap.stats (visible st.heap.firstBlock blocks) ∧
      st.heap.freeTotal = st.heap.stats.freeSize := by
  have consistent := tallied.sound.consistent
  obtain ⟨freeSize, freeBlocks, usedBlocks⟩ := tallied.counts
  have size := tallied.size
  have last := consistent.represents.geometry.last
  refine ⟨⟨?_, ?_, ?_, ?_⟩, ?_⟩
  · rw [visible_freeBytes, freeSize]
  · rw [visible_freeCount, freeBlocks]
  · rw [visible_usedCount _ _ tallied.free_or_used, usedBlocks]
  · rw [visible_total]
    omega
  · rw [Control.freeTotal, visits_ok consistent, Option.getD_some, visible_freeBytes, freeSize]

end Step

/-- The statistics after an initialization. -/
theorem Initial.tallied {st : System port} (initial : Initial st) :
    ∃ link size, Tallied link st [⟨size, .free⟩] [st.heap.firstBlock] ∧
      st.heap.stats.size = size := by
  obtain ⟨link, size, sound, stats⟩ := initial.sound
  have last := sound.consistent.represents.geometry.last
  refine ⟨link, size, ⟨sound, by simp [Solid], ?_, ?_, ?_⟩, ?_⟩ <;> rw [stats]
  · exact ⟨by simp, by simp, by simp⟩
  · exact last.symm

/-- In every run in which resized allocations reach their blocks, the current
statistics are what an iteration finds, and the least free size is the least one of
all states so far. -/
theorem runs_keep_statistics {past : List (System port)} {state : System port}
    (run : Trace Initial ResizeReaches System.step past state) :
    (∃ seen, state.heap.visits = some seen ∧ Exact state.heap.stats seen) ∧
      IsLeast {size | ∃ passed ∈ state :: past, passed.heap.freeTotal = size}
        state.heap.stats.minFreeSize := by
  have invariant : (∃ link blocks nodes, Tallied link state blocks nodes) ∧
      IsLeast {size | ∃ passed ∈ state :: past, passed.heap.freeTotal = size}
        state.heap.stats.minFreeSize := by
    induction run with
    | start state begins =>
      obtain ⟨link, size, tallied, -⟩ := begins.tallied
      obtain ⟨-, other, -, stats⟩ := begins.sound
      refine ⟨⟨link, _, _, tallied⟩, ?_⟩
      have value := tallied.exact.2
      simp only [List.mem_singleton, exists_eq_left, value, stats]
      exact ⟨rfl, fun other same => same.le⟩
    | step past state next operation run reaches taken ih =>
      obtain ⟨⟨link, blocks, nodes, tallied⟩, least⟩ := ih
      obtain ⟨blocks', nodes', -, kept, follows⟩ := tallied.step operation reaches taken
      refine ⟨⟨link, blocks', nodes', kept⟩, ?_⟩
      have sizes : {size | ∃ passed ∈ next :: state :: past, passed.heap.freeTotal = size} =
          insert next.heap.stats.freeSize
            {size | ∃ passed ∈ state :: past, passed.heap.freeTotal = size} := by
        apply Set.ext
        intro size
        rw [Set.mem_ofPred_eq, Set.mem_insert_iff, List.exists_mem_cons_iff, kept.exact.2,
          eq_comm (a := size), Set.mem_ofPred_eq]
      rw [sizes, follows, min_comm]
      exact least.insert next.heap.stats.freeSize
  obtain ⟨⟨link, blocks, nodes, tallied⟩, least⟩ := invariant
  exact ⟨⟨_, visits_ok tallied.sound.consistent, tallied.exact.1⟩, least⟩

/-- A run with two allocations, a resize and a free. -/
theorem runs_keep_statistics_resized :
    ∃ past state, Trace Initial ResizeReaches (@System.step .x86_64) past state ∧
      state.live = [⟨6208, 20⟩] ∧
      ∃ seen, state.heap.visits = some seen ∧ Exact state.heap.stats seen := by
  obtain ⟨past, state, run, live⟩ := session_trace ResizeReaches (@System.step .x86_64)
      (fun state => state.live) [⟨6208, 20⟩] (fun _ => 0) 16 6064 272 64
    (overrun ++ [.resize 6208 20, .free 6204]) (by decide) (by decide) (by decide)
    (by decide +kernel) (by decide +kernel)
  exact ⟨past, state, run, live, (runs_keep_statistics run).1⟩

/-! ## The width of the counters

On a 64-bit port a heap can hold more than `2 ^ 32` minimum blocks. -/

section Width

variable {st : System .x86_64}
variable {state : System .x86_64} {nodes : List Nat} {count size : Nat}

/-- An allocation of size zero. -/
def allocateNothing : Operation .x86_64 :=
  .allocate ⟨0, by decide⟩ ⟨0, by decide⟩ ⟨0, by decide⟩

/-- Used minimum blocks followed by one free block. -/
def minimumBlocks (count size : Nat) : List Block :=
  replicate count ⟨32, .used⟩ ++ [⟨size, .free⟩]

/-- The free block is the only place where the list of blocks can be split at a free
block. -/
theorem minimumBlocks_split (front back : List Block) (other : Nat)
    (split : minimumBlocks count size = front ++ ⟨other, .free⟩ :: back) :
    front = replicate count ⟨32, .used⟩ ∧ other = size ∧ back = [] := by
  rcases List.append_eq_append_iff.mp split with ⟨middle, rfl, single⟩ | ⟨middle, all, rest⟩
  · cases middle with
    | nil => simpa [and_assoc, eq_comm] using single
    | cons block more => simp at single
  · cases middle with
    | nil =>
      rw [List.append_nil] at all
      refine ⟨all.symm, ?_⟩
      simpa [eq_comm] using rest
    | cons block more =>
      have used : block ∈ replicate count (⟨32, .used⟩ : Block) := by simp [all]
      rw [List.eq_of_mem_replicate used] at rest
      simp at rest

/-- An allocation of nothing takes the begin of the free block. -/
theorem firstFit_nothing (sound : Sound link st (minimumBlocks count size) nodes)
    (large : 64 ≤ size) :
    st.heap.firstFit 0 0 0 = some (st.heap.firstBlock + total (replicate count ⟨32, .used⟩),
        st.heap.firstBlock + total (replicate count ⟨32, .used⟩) + 16) := by
  have rep : Represents st.heap (replicate count ⟨32, .used⟩ ++ ⟨size, .free⟩ :: [])
      nodes _ := sound.consistent.represents
  have listed := rep.listed
  have nothing : ∀ start number, freeAddresses start (replicate number ⟨32, .used⟩) = [] := by
    intro start number
    induction number generalizing start with
    | zero => rfl
    | succ number ih =>
      rw [List.replicate_succ, freeAddresses_cons, ih]
      simp
  simp only [freeAddresses_append, nothing, List.nil_append] at listed
  have nodesValue := List.perm_singleton.mp listed
  have first := (ring_head _ _ _ rep.ring).1
  have apart := (List.nodup_cons.mp rep.ring.nodup).1
  rw [nodesValue] at first apart
  generalize place : st.heap.firstBlock + total (replicate count ⟨32, .used⟩) = block at *
  have first : st.heap.freeListFirst = block := first
  have notHead : block ≠ st.heap.freeList := by simpa [eq_comm] using apart
  obtain ⟨outer, inner, decoded⟩ := rep.decode
  have bounded : block + size + 2 * 8 < Port.modulus .x86_64 := by
    rw [← place]
    exact rep.block_bound
  have stored : st.heap.sizeAndFlag block = size + outer.toNat := by
    rw [← place]
    exact decoded.header.1
  have areaValue : allocAreaOfBlock .x86_64 block = block + 16 := by
    have header : Port.headerSize .x86_64 = 16 := rfl
    exact Port.add_of_lt _ _ _ (by omega)
  have tried : st.heap.tryBlock 8 0 0 0 block = some (block + 16) := by
    simp only [Control.tryBlock, areaValue, if_true]
    rw [if_pos (by omega)]
  have floorValue : Port.sub .x86_64 (Port.add .x86_64 0 (Port.headerSize .x86_64))
      (Port.allocBonus .x86_64) = 8 := by decide
  obtain ⟨fuel, positive⟩ : ∃ fuel, Port.modulus .x86_64 = fuel + 1 :=
    ⟨_, (Nat.succ_pred_eq_of_pos (Port.modulus_pos _)).symm⟩
  simp only [Control.firstFit, floorValue, first, positive]
  rw [Control.searchFreeList]
  simp [notHead, tried]

/-- An allocation of nothing makes one more used minimum block. -/
theorem Tallied.allocate_nothing (tallied : Tallied link st (minimumBlocks count size) nodes)
    (page : st.heap.pageSize = 16) (minimum : st.heap.minBlockSize = 32) (large : 64 ≤ size) :
    ∃ next nodes', st.step allocateNothing = some next ∧
      Tallied link next (minimumBlocks (count + 1) (size - 32)) nodes' ∧
      next.heap.pageSize = 16 ∧ next.heap.minBlockSize = 32 := by
  obtain ⟨next, taken⟩ : ∃ next, st.step allocateNothing = some next := by
    obtain ⟨addr, heap, -, -, value, -⟩ := allocate_spec tallied.sound.consistent 0 0 0 (by decide)
    exact ⟨⟨heap, if addr = 0 then st.live else ⟨addr, 0⟩ :: st.live⟩,
      by simp only [allocateNothing, System.step, value, Option.map_some]⟩
  obtain ⟨blocks', nodes', effect, kept, -⟩ := tallied.step allocateNothing trivial taken
  obtain ⟨memory, stats, renewed⟩ := effect.renewed
  have fits := firstFit_nothing tallied.sound large
  have shape : blocks' = minimumBlocks (count + 1) (size - 32) := by
    cases effect with
    | allocate _ _ _ addr heap blocks' nodes' allocation =>
      cases allocation with
      | rejected refused => simp [fits] at refused
      | failed searchCount nothing => simp [fits] at nothing
      | placed front back other before after addr searchCount memory blocksSplit nodesSplit
          nonzero chosen suitable =>
        obtain ⟨rfl, rfl, rfl⟩ := minimumBlocks_split front back other blocksSplit
        have rep : Represents st.heap (replicate count ⟨32, .used⟩ ++ [⟨other, .free⟩]) _ _ :=
          tallied.sound.consistent.represents
        have aligned := rep.block_aligned
        have place := (Prod.mk.inj (Option.some.inj (chosen.symm.trans fits))).2
        subst place
        generalize st.heap.firstBlock + total (replicate count ⟨32, .used⟩) = block at *
        have word : Port.wordSize .x86_64 = 8 := rfl
        rw [page, word] at aligned
        have none : beginSize .x86_64 st.heap.pageSize block (block + 16) = 0 := by
          rw [beginSize, page, word, alignDown, down_of_dvd _ _ aligned]
          omega
        have used : st.heap.usedBlockSize 0 = 32 := by
          rw [Control.usedBlockSize, page, minimum]
          rfl
        have splits : st.heap.Splits other 0 := by
          rw [Control.Splits, minimum, word]
          omega
        simp only [Control.allocateBlocks, none, word, Nat.sub_self, Control.carve, splits, used,
          minimumBlocks, List.replicate_succ']
        simp
  rw [shape] at kept
  refine ⟨next, nodes', taken, kept, ?_, ?_⟩
  · rw [renewed]
    exact page
  · rw [renewed]
    exact minimum

/-- After `2 ^ 32` allocations of nothing there are as many used blocks, and the
counter is zero again. -/
theorem used_blocks_counter_wraps :
    ∃ past state seen, Trace Initial ResizeReaches (@System.step .x86_64) past state ∧
      state.heap.visits = some seen ∧ (seen.filter fun entry => entry.2.2).length = 2 ^ 32 ∧
      state.heap.stats.usedBlocks = 0 := by
  have ended : (@heapInitialize .x86_64 (fun _ => 0) 16 64 (2 ^ 38) 16).map
      (fun result => (result.2.pageSize, result.2.minBlockSize, result.2.stats.size)) =
      some (16, 32, 2 ^ 38 - 16) := by decide +kernel
  obtain ⟨⟨size, heap⟩, accepted, view⟩ := Option.map_eq_some_iff.mp ended
  simp only [Prod.mk.injEq] at view
  have initial : Initial (⟨heap, []⟩ : System .x86_64) := .intro _ _ _ _ _ size heap (by decide)
    (by decide) (by decide) (by decide) (by decide) accepted
  obtain ⟨link, size, tallied, sizeValue⟩ := initial.tallied
  have sizeValue : size = 2 ^ 38 - 16 := sizeValue.symm.trans view.2.2
  -- Induction on the number of allocations; every one of them takes a minimum block.
  have grown : ∀ count, count ≤ 2 ^ 32 → ∃ past state nodes,
      Trace Initial ResizeReaches (@System.step .x86_64) past state ∧
        Tallied link state (minimumBlocks count (size - 32 * count)) nodes ∧
        state.heap.pageSize = 16 ∧ state.heap.minBlockSize = 32 := by
    intro count bound
    induction count with
    | zero => exact ⟨[], _, _, .start _ initial, tallied, view.1, view.2.1⟩
    | succ count ih =>
      obtain ⟨past, state, nodes, run, tallied, page, minimum⟩ := ih (by omega)
      obtain ⟨next, nodes', taken, kept, page, minimum⟩ :=
        tallied.allocate_nothing page minimum (by omega)
      exact ⟨_, next, nodes', .step past state next allocateNothing run trivial taken, kept, page,
        minimum⟩
  obtain ⟨past, state, nodes, run, tallied, -, -⟩ := grown (2 ^ 32) (le_refl _)
  have used : countUse .used (minimumBlocks (2 ^ 32) (size - 32 * 2 ^ 32)) = 2 ^ 32 := by
    rw [minimumBlocks, countUse_append, countUse, List.countP_replicate]
    simp
  refine ⟨past, state, _, run, visits_ok tallied.sound.consistent, ?_, ?_⟩
  · rw [visible_usedCount _ _ tallied.free_or_used, used]
  · rw [tallied.counts.usedBlocks, used, Nat.mod_self]

end Width

end Rtems.Heap
