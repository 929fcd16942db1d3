import Mathlib.Data.List.Perm.Basic
import Rtems.Scheduler.BitMap

/-!
# Ready queues with a bit map

There is one chain for each priority, and the bit map marks the chains that are not
empty. A node caches its priority, its chain and the masks of its priority, so that a
node can be put on a chain and taken off it without a computation. `Filed` says that
every node lies on the chain of its priority only, and that the bit map agrees with the
chains; each operation has one law that gives the new chains.
-/

namespace Rtems.Scheduler

open Function (update update_of_ne update_self)

universe u
variable {N : Type u}

/-- `Scheduler_priority_Ready_queue`. The pointer to the ready chain is its index. -/
structure ReadyQueue where
  currentPriority : Nat
  readyChain : Nat
  priorityMap : Information

/-- The bit map and the ready chains of a `Scheduler_priority_Context`. -/
structure ReadyQueues (N : Type u) where
  bitMap : BitMap
  ready : Nat → List N

/-- `_Scheduler_priority_Ready_queue_initialize` with `_Priority_bit_map_Initialize`. -/
def ReadyQueues.empty : ReadyQueues N :=
  { bitMap := .empty, ready := fun _ => [] }

/-- `_Scheduler_priority_Ready_queue_update`. -/
def ReadyQueue.update (newPriority : Nat) : ReadyQueue :=
  { currentPriority := newPriority
    readyChain := newPriority
    priorityMap := initializeInformation newPriority }

/-- `_Scheduler_priority_Ready_queue_enqueue`. -/
def ReadyQueues.enqueue (queues : ReadyQueues N) (node : N) (queue : ReadyQueue) : ReadyQueues N :=
  { ready := update queues.ready queue.readyChain
      (queues.ready queue.readyChain ++ [node])
    bitMap := queues.bitMap.add queue.priorityMap }

/-- `_Scheduler_priority_Ready_queue_enqueue_first`. -/
def ReadyQueues.enqueueFirst (queues : ReadyQueues N) (node : N) (queue : ReadyQueue) :
    ReadyQueues N :=
  { ready := update queues.ready queue.readyChain
      (node :: queues.ready queue.readyChain)
    bitMap := queues.bitMap.add queue.priorityMap }

/-- `_Chain_Has_only_one_node`. -/
def hasOnlyOneNode (chain : List N) : Bool :=
  chain.length == 1

variable [DecidableEq N]

/-- `_Chain_Extract_unprotected`: a node is unlinked from the chain it is on. -/
def chainExtract (ready : Nat → List N) (node : N) (index : Nat) : List N :=
  (ready index).erase node

/-- `_Scheduler_priority_Ready_queue_extract`. -/
def ReadyQueues.extract (queues : ReadyQueues N) (node : N) (queue : ReadyQueue) :
    ReadyQueues N :=
  if hasOnlyOneNode (queues.ready queue.readyChain) then
    { ready := update queues.ready queue.readyChain []
      bitMap := queues.bitMap.remove queue.priorityMap }
  else { queues with ready := chainExtract queues.ready node }

/-- `_Scheduler_priority_Ready_queue_first`; the source asserts that there is a node. -/
def ReadyQueues.first (queues : ReadyQueues N) : Option N :=
  (queues.ready queues.bitMap.getHighest).head?

/-- The first node of the chain that is not empty and has the smallest number. -/
def Foremost (ready : Nat → List N) (node : N) : Prop :=
  ∃ priority, (∀ higher < priority, ready higher = []) ∧ (ready priority).head? = some node

/-- Every node is on the chain of its level and on no other, and the bit map marks the
chains that are not empty. -/
structure Filed (queues : ReadyQueues N) (level : N → Nat) : Prop where
  marks : Marks queues.bitMap fun priority => queues.ready priority ≠ []
  placed : ∀ priority, ∀ node ∈ queues.ready priority, level node = priority
  nodup : ∀ priority, (queues.ready priority).Nodup
  range : ∀ priority, queues.ready priority ≠ [] → priority < 256

namespace Filed

variable {queues : ReadyQueues N} {level : N → Nat}

section

omit [DecidableEq N]

theorem empty (level : N → Nat) : Filed .empty level := by
  refine ⟨Marks.empty.congr ?_, ?_, ?_, ?_⟩ <;> simp [ReadyQueues.empty]

/-- Only the levels of the nodes on the chains matter. -/
theorem relevel {other : N → Nat} (filed : Filed queues level)
    (same : ∀ prio, ∀ node ∈ queues.ready prio, other node = level node) :
    Filed queues other :=
  ⟨filed.marks, fun prio node mem =>
    (same prio node mem).trans (filed.placed prio node mem), filed.nodup, filed.range⟩

/-- A node is on the chain of its level if it is on any. -/
theorem absent (filed : Filed queues level) (node : N) (outside : node ∉ queues.ready (level node))
    (prio : Nat) : node ∉ queues.ready prio := by
  intro mem
  have same := filed.placed prio node mem
  exact outside (same ▸ mem)

end

/-- Putting an absent node somewhere on a chain. -/
theorem insert (filed : Filed queues level) (node : N) (prio : Nat) (bound : prio < 256)
    (outside : ∀ index, node ∉ queues.ready index) (chain : List N)
    (perm : chain.Perm (node :: queues.ready prio)) :
    Filed ⟨queues.bitMap.add (initializeInformation prio),
      update queues.ready prio chain⟩ (update level node prio) := by
  have nonempty : chain ≠ [] := by
    rintro rfl
    simpa using perm.length_eq
  refine ⟨?_, ?_, ?_, ?_⟩
  · refine (filed.marks.add prio bound).congr ?_
    intro index small
    by_cases same : index = prio
    · simp [same, nonempty]
    · simp [same]
  · intro index other mem
    have mem : other ∈ update queues.ready prio chain index := mem
    by_cases same : index = prio
    · rw [same, update_self, perm.mem_iff, List.mem_cons] at mem
      rcases mem with rfl | mem
      · rw [update_self, same]
      · have different : other ≠ node := by
          rintro rfl
          exact outside prio mem
        rw [update_of_ne different, same]
        exact filed.placed prio other mem
    · rw [update_of_ne same] at mem
      have different : other ≠ node := by
        rintro rfl
        exact outside index mem
      rw [update_of_ne different]
      exact filed.placed index other mem
  · intro index
    show (update queues.ready prio chain index).Nodup
    by_cases same : index = prio
    · rw [same, update_self, perm.nodup_iff, List.nodup_cons]
      exact ⟨outside prio, filed.nodup prio⟩
    · rw [update_of_ne same]
      exact filed.nodup index
  · intro index nonempty
    have nonempty : update queues.ready prio chain index ≠ [] := nonempty
    by_cases same : index = prio
    · omega
    · rw [update_of_ne same] at nonempty
      exact filed.range index nonempty

section

variable (filed : Filed queues level) (node : N)
include filed

section

variable (prio : Nat) (bound : prio < 256) (outside : ∀ index, node ∉ queues.ready index)
include bound outside

/-- The law of the enqueue operation. -/
theorem enqueue : (queues.enqueue node (.update prio)).ready =
        update queues.ready prio (queues.ready prio ++ [node]) ∧
      Filed (queues.enqueue node (.update prio)) (update level node prio) :=
  ⟨rfl, filed.insert node prio bound outside _ (List.perm_append_singleton node _)⟩

/-- The law of the enqueue operation at the front. -/
theorem enqueueFirst : (queues.enqueueFirst node (.update prio)).ready =
        update queues.ready prio (node :: queues.ready prio) ∧
      Filed (queues.enqueueFirst node (.update prio)) (update level node prio) :=
  ⟨rfl, filed.insert node prio bound outside _ (.refl _)⟩

end

/-- Unlinking a node changes its own chain only. -/
theorem chainExtract_eq : chainExtract queues.ready node =
      update queues.ready (level node) ((queues.ready (level node)).erase node) := by
  funext index
  by_cases same : index = level node
  · rw [same, update_self]
    rfl
  · rw [update_of_ne same]
    apply List.erase_of_not_mem
    intro mem
    exact same (filed.placed index node mem).symm

/-- The law of the extract operation. -/
theorem extract (mem : node ∈ queues.ready (level node)) :
    (queues.extract node (.update (level node))).ready =
        update queues.ready (level node) ((queues.ready (level node)).erase node) ∧
      Filed (queues.extract node (.update (level node))) level := by
  have bound := filed.range (level node) (List.ne_nil_of_mem mem)
  have ready : (queues.extract node (.update (level node))).ready =
      update queues.ready (level node) ((queues.ready (level node)).erase node) := by
    unfold ReadyQueues.extract
    split
    case isTrue single =>
      obtain ⟨only, chain⟩ := List.length_eq_one_iff.mp (by simpa [hasOnlyOneNode] using single)
      have chain : queues.ready (level node) = [only] := chain
      obtain rfl : node = only := by simpa [chain] using mem
      simp [chain, ReadyQueue.update]
    case isFalse several => exact filed.chainExtract_eq node
  refine ⟨ready, ?_, ?_, ?_, ?_⟩
  · rw [ready]
    unfold ReadyQueues.extract
    split
    case isTrue single =>
      obtain ⟨only, chain⟩ := List.length_eq_one_iff.mp (by simpa [hasOnlyOneNode] using single)
      have chain : queues.ready (level node) = [only] := chain
      obtain rfl : node = only := by simpa [chain] using mem
      refine (filed.marks.remove (level node) bound).congr ?_
      intro index small
      by_cases same : index = level node
      · simp [same, chain]
      · simp [same]
    case isFalse several =>
      refine filed.marks.congr ?_
      intro index small
      by_cases same : index = level node
      · have long : (queues.ready (level node)).length ≠ 1 := by
          simpa [hasOnlyOneNode, ReadyQueue.update] using several
        have left : ((queues.ready (level node)).erase node).length =
            (queues.ready (level node)).length - 1 := List.length_erase_of_mem mem
        have positive := List.length_pos_of_mem mem
        rw [same, update_self]
        refine iff_of_true (List.ne_nil_of_mem mem) ?_
        intro empty
        rw [empty, List.length_nil] at left
        omega
      · rw [update_of_ne same]
  · rw [ready]
    intro index other inside
    by_cases same : index = level node
    · rw [same, update_self] at inside
      rw [same]
      exact filed.placed _ other (List.mem_of_mem_erase inside)
    · rw [update_of_ne same] at inside
      exact filed.placed index other inside
  · rw [ready]
    intro index
    by_cases same : index = level node
    · rw [same, update_self]
      exact (filed.nodup _).erase node
    · rw [update_of_ne same]
      exact filed.nodup index
  · rw [ready]
    intro index nonempty
    by_cases same : index = level node
    · omega
    · rw [update_of_ne same] at nonempty
      exact filed.range index nonempty

end

omit [DecidableEq N] in
/-- The law of the first operation: if there is a node at all, the foremost one is
found. -/
theorem first (filed : Filed queues level) (some : ∃ prio, queues.ready prio ≠ []) :
    ∃ node, queues.first = Option.some node ∧ Foremost queues.ready node := by
  obtain ⟨prio, nonempty⟩ := some
  obtain ⟨small, occupied, least⟩ :=
    filed.marks.getHighest ⟨prio, filed.range prio nonempty, nonempty⟩
  obtain ⟨node, head⟩ := Option.isSome_iff_exists.mp (List.isSome_head?.mpr occupied)
  refine ⟨node, head, _, ?_, head⟩
  intro higher before
  by_contra filled
  have late := least higher (by omega) filled
  omega

end Filed

end Rtems.Scheduler
