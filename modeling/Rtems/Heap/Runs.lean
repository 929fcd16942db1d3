import Rtems.Heap.Initialize
import Rtems.Heap.Ownership
import Rtems.Heap.Walk
import Rtems.Library.Transition

/-!
# Runs of a heap and its users

The state of a run is the heap together with the allocations that its users hold.
Users allocate with any size, alignment and boundary, free and resize what they
hold, and write into the allocation areas of their blocks between the calls. The
run invariant `Sound` connects the two sides: the heap is consistent and its used
blocks are exactly the blocks of the held allocations.
-/

namespace Rtems.Heap

open ByteMemory LinkRing Alignment Transition
open List (mem_map)
open Prod (fst)

variable {port : Port} {link : Nat → Nat}

/-- An allocation in use: its address and the size last granted for it. -/
structure Grant where
  address : Nat
  size : Nat
  deriving DecidableEq

/-- The heap and the allocations in use. -/
structure System (port : Port) where
  heap : Control port
  live : List Grant

/-- What the users of a heap do. Sizes are `uintptr_t` values. -/
inductive Operation (port : Port) where
  | allocate (size alignment boundary : Fin port.modulus)
  | free (address : Nat)
  | resize (address : Nat) (size : Fin port.modulus)
  | write (address place : Nat) (byte : UInt8)

namespace System

/-- The block in which the heap looks for an allocation. -/
def owner (state : System port) (address : Nat) : Nat :=
  blockOfAllocArea port address state.heap.pageSize

/-- The address belongs to an allocation in use. -/
def Live (state : System port) (address : Nat) : Prop :=
  address ∈ state.live.map Grant.address
deriving Decidable

/-- A place in the allocation area of the block of an allocation. -/
def Inside (state : System port) (address place : Nat) : Prop :=
  state.owner address + port.headerSize ≤ place ∧
    place < state.owner address + state.heap.blockSize (state.owner address) + port.allocBonus
deriving Decidable

/-- One call or one write of a user. Only addresses in use are freed, resized and
written through. -/
def step (state : System port) : Operation port → Option (System port)
  | .allocate size alignment boundary =>
      (state.heap.allocateAlignedWithBoundary size alignment boundary).map fun result =>
        { heap := result.2
          live := if result.1 = 0 then state.live else ⟨result.1, size⟩ :: state.live }
  | .free address =>
      if state.Live address then
        let result := state.heap.heapFree address
        some
          { heap := result.2
            live := if result.1 then state.live.eraseP (fun grant => grant.address == address)
              else state.live }
      else none
  | .resize address size =>
      if state.Live address then
        let result := state.heap.resizeBlock address size
        some
          { heap := result.heap
            live := if result.status = .successful then
                state.live.map fun grant => if grant.address = address then ⟨address, size⟩ else grant
              else state.live }
      else none
  | .write address place byte =>
      if state.Live address ∧ state.Inside address place then
        some { state with heap := state.heap.renew (poke state.heap.memory place byte) state.heap.stats }
      else none

end System

/-- A heap after a successful initialization, with nothing allocated. The control
block lies outside of the area, and all arguments are `uintptr_t` values. -/
inductive Initial : System port → Prop where
  | intro (memory : Memory) (freeList areaBegin areaSize requested size : Nat) (heap : Control port)
      (beginBound : areaBegin < port.modulus) (sizeBound : areaSize < port.modulus)
      (requestedBound : requested < port.modulus)
      (control : freeList + 4 * port.wordSize ≤ port.modulus)
      (outside : freeList + 4 * port.wordSize ≤ areaBegin ∨ areaBegin + areaSize ≤ freeList)
      (accepted : heapInitialize memory freeList areaBegin areaSize requested = some (size, heap)) :
      Initial ⟨heap, []⟩

/-! ## The run invariant -/

/-- The heap is consistent, every allocation in use lies in the first page of its
block, and these blocks are the used blocks. -/
structure Sound (link : Nat → Nat) (state : System port) (blocks : List Block) (nodes : List Nat) :
    Prop where
  consistent : Consistent link state.heap blocks nodes
  granted : ∀ grant ∈ state.live, grant.address ≠ 0 ∧
    Locates port state.heap.pageSize (state.owner grant.address) grant.address
  owners : (state.live.map fun grant => state.owner grant.address).Perm
    ((usedPlaces state.heap.firstBlock blocks).map fst)

/-- The allocation can be resized: it does not lie beyond its block by more than the
word it may use there, or the next block is free. -/
def System.Reaches (state : System port) (address : Nat) : Prop :=
  address ≤ state.owner address + state.heap.blockSize (state.owner address) + port.allocBonus ∨
    state.heap.isFree (blockAt port (state.owner address)
      (state.heap.blockSize (state.owner address))) = true
deriving Decidable

/-- Every allocation that is resized reaches its block. -/
def ResizeReaches (state : System port) : Operation port → Prop
  | .resize address _ => state.Reaches address
  | _ => True

instance (state : System port) (operation : Operation port) :
    Decidable (ResizeReaches state operation) :=
  match operation with
  | .resize address _ => inferInstanceAs (Decidable (state.Reaches address))
  | .allocate .. | .free _ | .write .. => .isTrue trivial

/-- What a step does to the block list and the free list. -/
inductive Effect (state : System port) (blocks : List Block) (nodes : List Nat) :
    Operation port → System port → List Block → List Nat → Prop where
  | allocate (size alignment boundary : Fin port.modulus) (address : Nat) (heap : Control port)
      (blocks' : List Block) (nodes' : List Nat)
      (allocation : Allocation state.heap blocks nodes size alignment boundary address heap blocks'
        nodes') :
      Effect state blocks nodes (.allocate size alignment boundary)
        ⟨heap, if address = 0 then state.live else ⟨address, size⟩ :: state.live⟩ blocks' nodes'
  | free (address size : Nat) (heap : Control port) (blocks' : List Block) (nodes' : List Nat)
      (live : state.Live address)
      (release : Release state.heap blocks nodes (state.owner address) size heap blocks' nodes') :
      Effect state blocks nodes (.free address)
        ⟨heap, state.live.eraseP fun grant => grant.address == address⟩ blocks' nodes'
  | resize (address : Nat) (size : Fin port.modulus) (status : ResizeStatus) (heap : Control port)
      (blocks' : List Block) (nodes' : List Nat) (live : state.Live address)
      (resizing : Resizing state.heap address size blocks nodes (state.owner address) status heap
        blocks' nodes') :
      Effect state blocks nodes (.resize address size)
        ⟨heap, if status = .successful then
            state.live.map fun grant => if grant.address = address then ⟨address, ↑size⟩ else grant
          else state.live⟩ blocks' nodes'
  | write (address place : Nat) (byte : UInt8) (live : state.Live address)
      (inside : state.Inside address place) :
      Effect state blocks nodes (.write address place byte)
        { state with heap := state.heap.renew (poke state.heap.memory place byte) state.heap.stats }
        blocks nodes

section Step

variable {st next : System port} {blocks blocks' : List Block} {nodes nodes' : List Nat}

theorem Sound.live_block (sound : Sound link st blocks nodes) (addr : Nat)
    (live : st.Live addr) :
    ∃ front size back, blocks = front ++ ⟨size, .used⟩ :: back ∧
      st.owner addr = st.heap.firstBlock + total front ∧ addr ≠ 0 ∧
      Locates port st.heap.pageSize (st.heap.firstBlock + total front) addr := by
  obtain ⟨grant, mem, rfl⟩ := mem_map.mp live
  obtain ⟨nonzero, located⟩ := sound.granted grant mem
  have used := sound.owners.mem_iff.mp (mem_map.mpr ⟨grant, mem, rfl⟩)
  obtain ⟨⟨place, size⟩, used, rfl⟩ := mem_map.mp used
  obtain ⟨front, back, split, addr⟩ := placed_split _ _ _ _ ((mem_usedPlaces _ _ _ _).mp used)
  rw [addr] at located
  exact ⟨front, size, back, split, addr, nonzero, located⟩

variable {heap : Control port}

/-- The size of a block can be read from its header. -/
theorem Consistent.blockSize {front back : List Block} {block : Block}
    (sound : Consistent link heap (front ++ block :: back) nodes) :
    heap.blockSize (heap.firstBlock + total front) = block.size := by
  obtain ⟨outer, inner, decoded⟩ := sound.represents.decode
  exact decoded.blockSize sound.represents

/-- The heap after a step differs from the one before in the memory and the
statistics only. -/
theorem Effect.renewed {op : Operation port}
    (effect : Effect st blocks nodes op next blocks' nodes') :
    ∃ memory stats, next.heap = st.heap.renew memory stats := by
  cases effect with
  | allocate size alignment boundary addr heap blocks' nodes' allocation =>
    cases allocation with
    | rejected | failed | placed => exact ⟨_, _, rfl⟩
  | free addr size heap blocks' nodes' live release =>
    generalize st.owner addr = block at release
    cases release <;> exact ⟨_, _, rfl⟩
  | resize addr size status heap blocks' nodes' live resizing =>
    generalize st.owner addr = block at resizing
    cases resizing <;> exact ⟨_, _, rfl⟩
  | write addr place byte live inside => exact ⟨_, _, rfl⟩

/-- The block of an address in the first page of a used block is found by rounding. -/
theorem Consistent.block_of_used (block size addr : Nat) (sound : Consistent link heap blocks nodes)
    (used : (block, size) ∈ usedPlaces heap.firstBlock blocks)
    (located : Locates port heap.pageSize block addr) :
    blockOfAllocArea port addr heap.pageSize = block := by
  obtain ⟨front, back, rfl, rfl⟩ := placed_split _ _ _ _ ((mem_usedPlaces _ _ _ _).mp used)
  have represents := sound.represents
  have bounded := represents.size_bound
  have pageMin := represents.geometry.page_le_min
  have large : heap.minBlockSize ≤ size := (represents.geometry.shape ⟨size, .used⟩ (by simp)).2
  have near := located.2
  exact Locates.block represents (by omega) located

section

variable (sound : Sound link st blocks nodes)
include sound

/-- An allocation keeps the run invariant. -/
theorem Sound.allocated (size alignment boundary : Fin port.modulus) (addr : Nat)
    (heap : Control port) (allocation : Allocation st.heap blocks nodes size alignment boundary
      addr heap blocks' nodes') (kept : Consistent link heap blocks' nodes') :
    Sound link ⟨heap, if addr = 0 then st.live else ⟨addr, size⟩ :: st.live⟩ blocks'
      nodes' := by
  obtain ⟨memory, stats, renewed⟩ :=
    (Effect.allocate size alignment boundary addr heap blocks' nodes' allocation).renewed
  obtain rfl : heap = st.heap.renew memory stats := renewed
  rcases allocation.used_added sound.consistent with
    ⟨zero, rfl⟩ | ⟨front, blockSize, back, block, nonzero, -, -, -, -, located, used⟩
  · rw [if_pos zero]
    exact ⟨kept, sound.granted, sound.owners⟩
  · rw [if_neg nonzero]
    have owner : st.owner addr = block :=
      kept.block_of_used block _ addr (used.mem_iff.mpr List.mem_cons_self) located
    refine ⟨kept, ?_, ?_⟩
    · intro grant mem
      rcases List.mem_cons.mp mem with rfl | mem
      · refine ⟨nonzero, ?_⟩
        rw [← owner] at located
        exact located
      · exact sound.granted grant mem
    · have more := (sound.owners.cons block).trans (used.map fst).symm
      rw [← owner] at more
      exact more

/-- A free keeps the run invariant. -/
theorem Sound.freed (addr size : Nat) (live : st.Live addr) (heap : Control port)
    (release : Release st.heap blocks nodes (st.owner addr) size heap blocks' nodes')
    (kept : Consistent link heap blocks' nodes') :
    Sound link ⟨heap, st.live.eraseP fun grant => grant.address == addr⟩ blocks' nodes' := by
  obtain ⟨memory, stats, renewed⟩ :=
    (Effect.free addr size heap blocks' nodes' live release).renewed
  obtain rfl : heap = st.heap.renew memory stats := renewed
  obtain ⟨grant, mem, rfl⟩ := mem_map.mp live
  obtain ⟨other, front, back, -, sameAddress, split, erased⟩ :=
    List.exists_of_eraseP (p := fun other => other.address == grant.address) mem (by simp)
  have sameAddress : other.address = grant.address := by simpa using sameAddress
  rw [erased]
  refine ⟨kept, ?_, ?_⟩
  · intro tested inside
    have old : tested ∈ st.live := by
      rw [split]
      simp only [List.mem_append] at inside ⊢
      tauto
    exact sound.granted tested old
  · have owners := sound.owners
    have removed := release.used_removed.map fst
    rw [split, List.map_append, List.map_cons, sameAddress] at owners
    have rest := List.perm_middle.symm.trans (owners.trans removed)
    rw [← List.map_append] at rest
    exact (List.perm_cons (st.owner grant.address)).mp rest

/-- A resize keeps the run invariant. -/
theorem Sound.resized (addr : Nat) (size : Fin port.modulus) (status : ResizeStatus)
    (heap : Control port) (live : st.Live addr) (resizing : Resizing st.heap addr size
      blocks nodes (st.owner addr) status heap blocks' nodes')
    (kept : Consistent link heap blocks' nodes') :
    Sound link ⟨heap, if status = .successful then
        st.live.map fun grant => if grant.address = addr then ⟨addr, ↑size⟩ else grant
      else st.live⟩ blocks' nodes' := by
  obtain ⟨memory, stats, renewed⟩ :=
    (Effect.resize addr size status heap blocks' nodes' live resizing).renewed
  obtain rfl : heap = st.heap.renew memory stats := renewed
  have located : Locates port st.heap.pageSize (st.owner addr) addr := by
    obtain ⟨grant, mem, rfl⟩ := mem_map.mp live
    exact (sound.granted grant mem).2
  have used : ((usedPlaces st.heap.firstBlock blocks).map fst).Perm
      ((usedPlaces st.heap.firstBlock blocks').map fst) := by
    rcases resizing.used_same sound.consistent located with
      ⟨-, rfl, -⟩ | ⟨oldSize, newSize, others, -, before, after, -⟩
    · exact List.Perm.refl _
    · exact (before.map fst).trans (after.map fst).symm
  generalize updated : (if status = .successful then
    st.live.map fun grant => if grant.address = addr then ⟨addr, ↑size⟩ else grant
    else st.live) = grants
  have addresses : grants.map Grant.address = st.live.map Grant.address := by
    rw [← updated]
    split
    · rw [List.map_map]
      apply List.map_congr_left
      intro grant _
      simp only [Function.comp_apply]
      split <;> simp [*]
    · rfl
  refine ⟨kept, ?_, ?_⟩
  · intro grant mem
    have old : grant.address ∈ st.live.map Grant.address := by
      rw [← addresses]
      exact mem_map.mpr ⟨grant, mem, rfl⟩
    obtain ⟨original, mem, sameAddress⟩ := mem_map.mp old
    have kept := sound.granted original mem
    rw [sameAddress] at kept
    exact kept
  · have owners := sound.owners
    have through : ∀ list : List Grant, list.map (fun grant => st.owner grant.address) =
        (list.map Grant.address).map st.owner := by simp
    rw [through, ← addresses, ← through] at owners
    exact owners.trans used

end

/-- Every step that is taken has one of the described effects and keeps the run
invariant, provided that a resized allocation reaches its block. -/
theorem Sound.step (sound : Sound link st blocks nodes) (op : Operation port)
    (reaches : ResizeReaches st op) (taken : st.step op = some next) :
    ∃ blocks' nodes', Effect st blocks nodes op next blocks' nodes' ∧
      Sound link next blocks' nodes' := by
  have consistent := sound.consistent
  cases op with
  | allocate size alignment boundary =>
    obtain ⟨addr, heap, blocks', nodes', value, allocation, kept⟩ :=
      allocate_spec consistent size alignment boundary size.isLt
    simp only [System.step, value, Option.map_some, Option.some.injEq] at taken
    rw [← taken]
    exact ⟨blocks', nodes', .allocate size alignment boundary addr heap blocks' nodes' allocation,
      sound.allocated size alignment boundary addr heap allocation kept⟩
  | free addr =>
    simp only [System.step] at taken
    split at taken
    · rename_i live
      obtain ⟨front, size, back, rfl, owner, nonzero, located⟩ := sound.live_block addr live
      obtain ⟨heap, blocks', nodes', value, release, kept⟩ :=
        heapFree_spec consistent addr nonzero owner
      simp only [value, Option.some.injEq] at taken
      rw [← owner] at release
      rw [← taken]
      exact ⟨blocks', nodes', .free addr size heap blocks' nodes' live release,
        sound.freed addr size live heap release kept⟩
    · simp at taken
  | resize addr size =>
    simp only [System.step] at taken
    split at taken
    · rename_i live
      obtain ⟨front, blockSize, back, rfl, owner, nonzero, located⟩ := sound.live_block addr live
      have sizeValue : st.heap.blockSize (st.heap.firstBlock + total front) = blockSize :=
        consistent.blockSize
      have bounded := consistent.represents.size_bound
      have reach : addr ≤ st.heap.firstBlock + total front + blockSize + port.wordSize ∨
          ∃ nextSize rest, back = ⟨nextSize, .free⟩ :: rest := by
        have reaches : st.Reaches addr := reaches
        rw [System.Reaches, owner, sizeValue, blockAt, port.add_of_lt _ _ (by omega)] at reaches
        exact reaches.imp_right consistent.isFree_next.mp
      obtain ⟨blocks', nodes', resizing, kept⟩ :=
        resizeBlock_spec consistent addr size located reach
      simp only [Option.some.injEq] at taken
      rw [← owner] at resizing
      rw [← taken]
      exact ⟨blocks', nodes', .resize addr size _ _ blocks' nodes' live resizing,
        sound.resized addr size _ _ live resizing kept⟩
    · simp at taken
  | write addr place byte =>
    simp only [System.step] at taken
    split at taken
    · rename_i permitted
      obtain ⟨live, inside⟩ := permitted
      obtain ⟨front, blockSize, back, rfl, owner, nonzero, located⟩ := sound.live_block addr live
      cases taken
      have area := inside
      rw [System.Inside, owner] at area
      obtain ⟨above, below⟩ := area
      rw [consistent.blockSize] at below
      exact ⟨_, _, .write addr place byte live inside,
        consistent.write place byte above below, sound.granted, sound.owners⟩
    · simp at taken

end Step

/-! ## Whole runs -/

variable {state : System port}

/-- The fixed members of the control block after an initialization. -/
theorem Initial.sound (initial : Initial state) :
    ∃ link size, Sound link state [⟨size, .free⟩] [state.heap.firstBlock] ∧
      state.heap.stats = { size, freeSize := size, minFreeSize := size, freeBlocks := 1,
                           maxFreeBlocks := 1 } := by
  obtain ⟨memory, freeList, areaBegin, areaSize, requested, size, heap, beginBound, sizeBound,
    requestedBound, control, outside, accepted⟩ := initial
  have initialized := heapInitialize_spec memory freeList areaBegin areaSize requested size heap
    beginBound sizeBound requestedBound control outside accepted
  refine ⟨fun _ => areaBegin + areaSize, size, ⟨⟨initialized.represents, by simp⟩, by simp, ?_⟩,
    initialized.stats_eq⟩
  simp [usedPlaces_cons]

/-- In every run in which resized allocations reach their blocks, the run invariant
holds. -/
theorem Sound.run {past : List (System port)}
    (run : Trace Initial ResizeReaches System.step past state) :
    ∃ link blocks nodes, Sound link state blocks nodes := by
  refine run.invariant (fun state => ∃ link blocks nodes, Sound link state blocks nodes) ?_ ?_
  · intro state initial
    obtain ⟨link, size, sound, -⟩ := initial.sound
    exact ⟨link, _, _, sound⟩
  · rintro state op next ⟨link, blocks, nodes, sound⟩ reaches taken
    obtain ⟨blocks', nodes', -, kept⟩ := sound.step op reaches taken
    exact ⟨link, blocks', nodes', kept⟩

/-- In every run in which resized allocations reach their blocks, the heap keeps its
block structure, `_Heap_Walk` accepts it, and the next allocation returns. -/
theorem runs_keep_structure {past : List (System port)} {state : System port}
    (run : Trace Initial ResizeReaches System.step past state) :
    (∃ seen, Structured state.heap seen) ∧
      ∀ size alignment boundary, (state.step (.allocate size alignment boundary)).isSome := by
  obtain ⟨link, blocks, nodes, sound⟩ := Sound.run run
  refine ⟨⟨_, sound.consistent.structured⟩, ?_⟩
  intro size alignment boundary
  obtain ⟨address, heap, -, -, value, -⟩ :=
    allocate_spec sound.consistent size alignment boundary size.isLt
  simp [System.step, value]

/-! ## Concrete runs -/

/-- A heap that is set up in an area and then used by some operations. -/
def session {ι : Type} (step : System port → ι → Option (System port)) (memory : Memory)
    (freeList areaBegin areaSize requested : Nat) (operations : List ι) : Option (System port) :=
  (heapInitialize memory freeList areaBegin areaSize requested).bind fun result =>
    feed step ⟨result.2, []⟩ operations

/-- A session of permitted operations is a run, and what is observed at the end of the
session is observed at the end of the run. -/
theorem session_trace {ι β : Type} (permitted : System port → ι → Prop)
    (step : System port → ι → Option (System port)) (view : System port → β) (value : β)
    (memory : Memory) (freeList areaBegin areaSize requested : Nat) (operations : List ι)
    (bounds : areaBegin < port.modulus ∧ areaSize < port.modulus ∧ requested < port.modulus)
    (control : freeList + 4 * port.wordSize ≤ port.modulus)
    (outside : freeList + 4 * port.wordSize ≤ areaBegin ∨ areaBegin + areaSize ≤ freeList) (allowed
      : ∀ res ∈ heapInitialize memory freeList areaBegin areaSize requested, Allowed permitted
      step ⟨res.2, []⟩ operations) (observed : (session step memory freeList areaBegin areaSize
      requested operations).map view = some value) :
    ∃ past state, Trace Initial permitted step past state ∧ view state = value := by
  obtain ⟨state, final, seen⟩ := Option.map_eq_some_iff.mp observed
  obtain ⟨⟨size, heap⟩, accepted, fed⟩ := Option.bind_eq_some_iff.mp final
  have begins : Initial (⟨heap, []⟩ : System port) :=
    .intro memory freeList areaBegin areaSize requested size heap bounds.1 bounds.2.1 bounds.2.2
      control outside accepted
  exact Trace.observe permitted step _ begins operations view value (allowed _ accepted)
    (by rw [fed, Option.map_some, seen])

/-- An area of 272 bytes with pages of 64 bytes. The first allocation is placed in
the second page of the area at an offset of 60 bytes, of which its block knows
nothing: the block is cut for one byte. -/
def overrun : List (Operation .x86_64) :=
  [.allocate 1 188 0,
    .allocate 100 0 0]

/-- Resizing an allocation that lies beyond its block destroys the heap. -/
theorem resize_beyond_block_breaks_structure :
    ∃ past state, Trace Initial (fun _ _ => True) (@System.step .x86_64) past state ∧
      state.heap.walk = .error (some
        ⟨"block 0x%08x: next block 0x%08x is not a successor\n", [6256, 6192]⟩) ∧
      ¬ ∃ seen, Structured state.heap seen := by
  obtain ⟨past, state, run, report⟩ := session_trace (fun _ _ => True) (@System.step .x86_64)
      (fun state => state.heap.walk) (.error (some
      ⟨"block 0x%08x: next block 0x%08x is not a successor\n", [6256, 6192]⟩))
    (fun _ => 0) 16 6064 272 64 (overrun ++ [.resize 6204 1]) (by decide) (by decide)
    (by decide) (by decide) (by decide +kernel)
  refine ⟨past, state, run, report, ?_⟩
  rintro ⟨seen, structured⟩
  have accepted := structured.accepted
  rw [report] at accepted
  simp at accepted

/-- The same allocations, one of them resized within its block and one freed. -/
theorem runs_keep_structure_overrun :
    ∃ past state, Trace Initial ResizeReaches (@System.step .x86_64) past state ∧
      state.live = [⟨6208, 20⟩] ∧ (∃ seen, Structured state.heap seen) ∧
      ∀ size alignment boundary, (state.step (.allocate size alignment boundary)).isSome := by
  obtain ⟨past, state, run, live⟩ := session_trace ResizeReaches (@System.step .x86_64)
      (fun state => state.live) [⟨6208, 20⟩] (fun _ => 0) 16 6064 272 64
    (overrun ++ [.resize 6208 20, .free 6204]) (by decide) (by decide) (by decide)
    (by decide +kernel) (by decide +kernel)
  exact ⟨past, state, run, live, runs_keep_structure run⟩

end Rtems.Heap
