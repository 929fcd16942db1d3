import Mathlib.Data.List.Nodup
import Rtems.Library.Transition
import Rtems.Scheduler.ReadyQueue
import Rtems.Scheduler.Uniprocessor

/-!
# The deterministic priority scheduler

The ready threads are kept in one chain for each priority. Over every run that keeps
the idle thread ready, the chains, the bit map and the data cached in the nodes agree,
and the heir is the first thread of the first chain that is not empty. The unblock
operation compares with the heir only, and the extraction touches the bit map only if
its chain becomes empty: both are right because of this invariant.
-/

namespace Rtems.Scheduler.Priority

open Transition
open Function (update update_of_ne update_self)

universe u
variable {T : Type u} [DecidableEq T]

/-- The processor, the scheduler context and the ready queue data of the nodes. -/
structure System (T : Type u) where
  processor : Processor T
  queues : ReadyQueues T
  node : T → ReadyQueue

/-- `_Scheduler_priority_Block`. -/
def System.block (system : System T) (thread : T) : Option (System T) :=
  let queues := system.queues.extract thread (system.node thread)
  (system.processor.block thread queues.first).map fun processor =>
    { system with processor, queues }

/-- `_Scheduler_priority_Unblock`. -/
def System.unblock (system : System T) (thread : T) : System T :=
  let priority := (system.processor.thread thread).priority
  let unmappedPriority := priorityUnmap priority
  let node :=
    if unmappedPriority ≠ (system.node thread).currentPriority then
      Function.update system.node thread (.update unmappedPriority)
    else system.node
  { processor := system.processor.unblock thread priority
    queues := system.queues.enqueue thread (node thread)
    node }

/-- `_Scheduler_priority_Update_priority`. -/
def System.updatePriority (system : System T) (thread : T) : Option (System T) :=
  if (system.processor.thread thread).isReady then
    let newPriority := (system.processor.thread thread).priority
    let unmappedPriority := priorityUnmap newPriority
    if unmappedPriority = (system.node thread).currentPriority then some system
    else
      let extracted := system.queues.extract thread (system.node thread)
      let queue := ReadyQueue.update unmappedPriority
      let queues :=
        if priorityIsAppend newPriority then extracted.enqueue thread queue
        else extracted.enqueueFirst thread queue
      (system.processor.schedule queues.first).map fun processor =>
        { processor, queues, node := Function.update system.node thread queue }
  else some system

/-- `_Scheduler_priority_Yield`. -/
def System.yield (system : System T) (thread : T) : Option (System T) :=
  let readyChain := (system.node thread).readyChain
  let queues :=
    if hasOnlyOneNode (system.queues.ready readyChain) then system.queues
    else
      let ready := chainExtract system.queues.ready thread
      { system.queues with
        ready := Function.update ready readyChain (ready readyChain ++ [thread]) }
  (system.processor.yield queues.first).map fun processor => { system with processor, queues }

/-- One operation, with the change of the thread that it is about. -/
def System.step (system : System T) : Operation T → Option (System T)
  | .block thread =>
      { system with processor := system.processor.setReady thread false }.block thread
  | .unblock thread =>
      some ({ system with processor := system.processor.setReady thread true }.unblock thread)
  | .updatePriority thread priority order =>
      { system with
        processor := system.processor.setPriority thread priority order }.updatePriority thread
  | .yield thread => system.yield thread

/-- The scheduler is empty except for the idle thread, which is the heir, and the nodes
are initialized. -/
structure Initial (idle : T) (system : System T) : Prop where
  mapped : ∀ thread, (system.processor.thread thread).Mapped
  preemptible : ∀ thread, (system.processor.thread thread).isPreemptible = true
  ready : ∀ thread, (system.processor.thread thread).isReady = decide (thread = idle)
  node : ∀ thread, system.node thread =
    .update (priorityUnmap (system.processor.thread thread).priority)
  queues : system.queues = ReadyQueues.empty.enqueue idle (system.node idle)
  heir : system.processor.heir = idle

/-- The idle thread never blocks. -/
def Permitted (idle : T) (system : System T) (operation : Operation T) : Prop :=
  system.processor.Admits operation ∧ operation ≠ .block idle

instance (idle : T) (system : System T) (operation : Operation T) :
    Decidable (Permitted idle system operation) :=
  inferInstanceAs (Decidable (_ ∧ _))

/-- The level of a thread is the priority that its node caches. -/
def System.level (system : System T) (thread : T) : Nat :=
  (system.node thread).currentPriority

/-- The invariant of the ready queues and the threads. -/
structure Stored (system : System T) : Prop where
  filed : Filed system.queues system.level
  cached : ∀ thread, system.node thread = .update (system.level thread)
  mapped : ∀ thread, (system.processor.thread thread).Mapped
  listed : ∀ thread, (system.processor.thread thread).isReady = true ↔
    thread ∈ system.queues.ready (system.level thread)
  current : ∀ thread, (system.processor.thread thread).isReady = true →
    system.level thread = priorityUnmap (system.processor.thread thread).priority

/-- The invariant of a run of preemptible threads with an idle thread. -/
structure Sound (idle : T) (system : System T) : Prop where
  stored : Stored system
  preemptible : ∀ thread, (system.processor.thread thread).isPreemptible = true
  idleReady : (system.processor.thread idle).isReady = true
  heir : Foremost system.queues.ready system.processor.heir

/-- How an operation changes the ready chains. A thread that becomes ready or yields is
the last of its chain; a thread that is ready and gets another priority is the first or
the last of its new chain, as the group order says. -/
def Placement (system : System T) (after : Nat → List T) : Operation T → Prop
  | .block thread =>
      after = Function.update system.queues.ready (system.level thread)
        ((system.queues.ready (system.level thread)).erase thread)
  | .unblock thread =>
      let priority := priorityUnmap (system.processor.thread thread).priority
      after = Function.update system.queues.ready priority
        (system.queues.ready priority ++ [thread])
  | .updatePriority thread priority order =>
      if (system.processor.thread thread).isReady = true ∧ priority ≠ system.level thread then
        after = Function.update
          (Function.update system.queues.ready (system.level thread)
            ((system.queues.ready (system.level thread)).erase thread))
          priority (order.place thread (system.queues.ready priority))
      else after = system.queues.ready
  | .yield thread =>
      after = Function.update system.queues.ready (system.level thread)
        ((system.queues.ready (system.level thread)).erase thread ++ [thread])

/-- An update moves a thread if it is ready and gets another priority. -/
def System.Moves (system : System T) : Operation T → Prop
  | .updatePriority thread priority _ =>
      (system.processor.thread thread).isReady = true ∧ priority ≠ system.level thread
  | _ => True

instance (system : System T) (operation : Operation T) : Decidable (system.Moves operation) :=
  match operation with
  | .block _ | .unblock _ => .isTrue trivial
  | .updatePriority .. => inferInstanceAs (Decidable (_ ∧ _))
  | .yield _ => .isTrue trivial

namespace Stored

variable {sys : System T}

omit [DecidableEq T] in
/-- A thread that is not ready is on no chain. -/
theorem absent (stored : Stored sys) (thread : T)
    (blocked : (sys.processor.thread thread).isReady = false) (priority : Nat) :
    thread ∉ sys.queues.ready priority := by
  apply stored.filed.absent
  intro mem
  have ready := (stored.listed thread).mpr mem
  simp [blocked] at ready

/-- The outcome of an operation: the new chains, and the invariant with any heir. -/
def Outcome (system : System T) (operation : Operation T) : Prop :=
  ∃ queues node,
    system.step operation =
      ((system.processor.prepare operation).elect queues.first (system.Moves operation)
        operation).map (fun processor => ⟨processor, queues, node⟩) ∧
    Placement system queues.ready operation ∧
    ∀ heir, Stored ⟨⟨(system.processor.prepare operation).thread, heir⟩, queues, node⟩

theorem block (stored : Stored sys) (thread : T)
    (ready : (sys.processor.thread thread).isReady = true) : Outcome sys (.block thread) := by
  have cached := stored.cached thread
  have mem := (stored.listed thread).mp ready
  obtain ⟨chains, filed⟩ := stored.filed.extract thread mem
  rw [← cached] at chains filed
  refine ⟨sys.queues.extract thread (sys.node thread), sys.node, rfl, chains, ?_⟩
  intro heir
  refine ⟨filed, stored.cached, ?_, ?_, ?_⟩
  · exact sys.processor.prepare_mapped (.block thread) ready stored.mapped
  · intro tested
    show ((sys.processor.setReady thread false).thread tested).isReady = true ↔
      tested ∈ (sys.queues.extract thread (sys.node thread)).ready (sys.level tested)
    rw [chains]
    by_cases same : tested = thread
    · subst same
      simp [Processor.setReady, (stored.filed.nodup _).not_mem_erase]
    · simp only [Processor.setReady, update_of_ne same, stored.listed tested]
      by_cases level : sys.level tested = sys.level thread
      · rw [level, update_self, List.mem_erase_of_ne same]
      · rw [update_of_ne level]
  · intro tested isReady
    have isReady : ((sys.processor.setReady thread false).thread tested).isReady = true := isReady
    show sys.level tested =
      priorityUnmap ((sys.processor.setReady thread false).thread tested).priority
    by_cases same : tested = thread
    · simp [Processor.setReady, same] at isReady
    · simp only [Processor.setReady, update_of_ne same] at isReady ⊢
      exact stored.current tested isReady

/-- Giving a node a new priority changes its level. -/
theorem level_update (sys : System T) (thread : T) (priority : Nat) :
    (fun tested => (update sys.node thread (.update priority) tested).currentPriority) =
      update sys.level thread priority := by
  funext tested
  by_cases same : tested = thread
  · rw [same, update_self, update_self]
    rfl
  · rw [update_of_ne same, update_of_ne same]
    rfl

section

variable (stored : Stored sys)
include stored

/-- A thread that was on no chain was put on one, and its node was updated: the
invariant follows from that of the chains. -/
theorem put (thread : T) (priority : Nat) (queues : ReadyQueues T) (threads : T → Thread)
    (chain : List T) (filed : Filed queues (update sys.level thread priority)) (chains : ∀ index,
      queues.ready index = if index = priority then chain else (sys.queues.ready index).erase
      thread) (perm : chain.Perm (thread :: (sys.queues.ready priority).erase thread))
    (mapped : ∀ tested, (threads tested).Mapped) (ready : (threads thread).isReady = true)
    (unmapped : priorityUnmap (threads thread).priority = priority)
    (others : ∀ tested, tested ≠ thread → threads tested = sys.processor.thread tested)
    (heir : T) :
    Stored ⟨⟨threads, heir⟩, queues, update sys.node thread (.update priority)⟩ := by
  have level := level_update sys thread priority
  refine ⟨?_, ?_, mapped, ?_, ?_⟩
  · show Filed queues (fun tested =>
      (update sys.node thread (.update priority) tested).currentPriority)
    rw [level]
    exact filed
  · intro tested
    show update sys.node thread (.update priority) tested =
      .update (update sys.node thread (.update priority) tested).currentPriority
    by_cases same : tested = thread
    · rw [same, update_self]
      rfl
    · rw [update_of_ne same]
      exact stored.cached tested
  · intro tested
    show (threads tested).isReady = true ↔ tested ∈ queues.ready
      (update sys.node thread (.update priority) tested).currentPriority
    by_cases same : tested = thread
    · subst same
      rw [update_self]
      refine iff_of_true ready ?_
      show tested ∈ queues.ready priority
      rw [chains, if_pos rfl, perm.mem_iff]
      exact List.mem_cons_self
    · rw [update_of_ne same, others tested same, stored.listed tested]
      show _ ↔ tested ∈ queues.ready (sys.level tested)
      rw [chains]
      split
      case isTrue equal =>
        rw [perm.mem_iff, List.mem_cons, List.mem_erase_of_ne same, equal]
        simp [same]
      case isFalse => rw [List.mem_erase_of_ne same]
  · intro tested isReady
    have isReady : (threads tested).isReady = true := isReady
    show (update sys.node thread (.update priority) tested).currentPriority =
      priorityUnmap (threads tested).priority
    by_cases same : tested = thread
    · rw [same, update_self, unmapped]
      rfl
    · rw [others tested same] at isReady ⊢
      rw [update_of_ne same]
      exact stored.current tested isReady

theorem unblock (thread : T) (blocked : (sys.processor.thread thread).isReady = false) :
    Outcome sys (.unblock thread) := by
  have absent := stored.absent thread blocked
  have range := (stored.mapped thread).2
  have mapped := sys.processor.prepare_mapped (.unblock thread) blocked stored.mapped
  generalize name : priorityUnmap (sys.processor.thread thread).priority = priority at range
  have same : priorityUnmap ((sys.processor.setReady thread true).thread thread).priority =
      priority := by simpa [Processor.setReady] using name
  -- whether the cached priority is out of date or not, the node is up to date after it
  have node : (if priority ≠ (sys.node thread).currentPriority then
      update sys.node thread (.update priority) else sys.node) =
      update sys.node thread (.update priority) := by
    split
    case isTrue => rfl
    case isFalse equal =>
      have equal : priority = sys.level thread := not_not.mp equal
      rw [equal, ← stored.cached thread, Function.update_eq_self]
  obtain ⟨chains, filed⟩ := stored.filed.enqueue thread priority range absent
  refine ⟨sys.queues.enqueue thread (.update priority),
    update sys.node thread (.update priority), ?_, ?_, ?_⟩
  · have compare := Processor.unblock_priority (sys.processor.setReady thread true) thread mapped
    simp only [System.step, System.unblock, same, node, update_self, compare]
    rfl
  · simp only [Placement, name]
    exact chains
  · intro heir
    refine stored.put thread priority _ _ (sys.queues.ready priority ++ [thread]) filed ?_ ?_
      mapped ?_ same ?_ heir
    · intro index
      rw [chains, List.erase_of_not_mem (absent index)]
      by_cases equal : index = priority
      · rw [equal, update_self, if_pos rfl]
      · rw [update_of_ne equal, if_neg equal]
    · rw [List.erase_of_not_mem (absent priority)]
      exact List.perm_append_singleton thread _
    · simp [Processor.prepare, Processor.setReady]
    · intro tested ne
      simp [Processor.prepare, Processor.setReady, ne]

/-- An update that moves no thread changes at most the group order of a ready thread or
the priority of a blocked one. -/
theorem update_unmoved (thread : T) (priority : Nat) (order : GroupOrder)
    (range : priority < 256) (unmoved : ¬ sys.Moves (.updatePriority thread priority order)) :
    Outcome sys (.updatePriority thread priority order) := by
  have mapped := sys.processor.prepare_mapped (.updatePriority thread priority order) range
    stored.mapped
  have same : priorityUnmap
      ((sys.processor.setPriority thread priority order).thread thread).priority = priority := by
    simp [Processor.setPriority, priorityUnmap_mapped]
  have isReady : ∀ tested, ((sys.processor.setPriority thread priority order).thread
      tested).isReady = (sys.processor.thread tested).isReady := by
    intro tested
    by_cases equal : tested = thread <;> simp [Processor.setPriority, equal]
  have unmoved' : ¬ ((sys.processor.thread thread).isReady = true ∧
      priority ≠ sys.level thread) := unmoved
  refine ⟨sys.queues, sys.node, ?_, ?_, ?_⟩
  · simp only [Processor.elect, System.step, System.updatePriority, same, isReady]
    split
    case isTrue ready =>
      have equal : priority = (sys.node thread).currentPriority := by
        by_contra ne
        exact unmoved' ⟨ready, ne⟩
      rw [if_pos equal]
      rfl
    case isFalse => rfl
  · simp only [Placement, if_neg unmoved']
  · intro heir
    refine ⟨stored.filed, stored.cached, mapped, ?_, ?_⟩
    · intro tested
      show ((sys.processor.setPriority thread priority order).thread tested).isReady = true ↔ _
      rw [isReady]
      exact stored.listed tested
    · intro tested ready
      have ready : ((sys.processor.setPriority thread priority order).thread
        tested).isReady = true := ready
      rw [isReady] at ready
      show sys.level tested = priorityUnmap
        ((sys.processor.setPriority thread priority order).thread tested).priority
      by_cases equal : tested = thread
      · rw [equal] at ready ⊢
        rw [same]
        by_contra ne
        exact unmoved' ⟨ready, Ne.symm ne⟩
      · simp only [Processor.setPriority, update_of_ne equal]
        exact stored.current tested ready

/-- An update that moves a thread takes it from its chain and puts it on another one. -/
theorem update_moved (thread : T) (priority : Nat) (order : GroupOrder)
    (range : priority < 256) (moved : sys.Moves (.updatePriority thread priority order)) :
    Outcome sys (.updatePriority thread priority order) := by
  obtain ⟨ready, ne⟩ := id moved
  have mapped := sys.processor.prepare_mapped (.updatePriority thread priority order) range
    stored.mapped
  have mem := (stored.listed thread).mp ready
  obtain ⟨taken, filed⟩ := stored.filed.extract thread mem
  rw [← stored.cached thread] at taken filed
  have away : ∀ index, (sys.queues.extract thread (sys.node thread)).ready index =
      (sys.queues.ready index).erase thread := by
    intro index
    rw [taken, ← stored.filed.chainExtract_eq thread]
    rfl
  have absent : ∀ index, thread ∉ (sys.queues.extract thread (sys.node thread)).ready index := by
    intro index
    rw [away index]
    exact (stored.filed.nodup index).not_mem_erase
  have other : (sys.queues.extract thread (sys.node thread)).ready priority =
      sys.queues.ready priority := by rw [taken, update_of_ne ne]
  have newPriority : ((sys.processor.setPriority thread priority order).thread
      thread).priority = priorityMap priority ||| order.bit := by simp [Processor.setPriority]
  have isReady : ((sys.processor.setPriority thread priority order).thread
      thread).isReady = true := by simpa [Processor.setPriority] using ready
  have stale : ¬ priority = (sys.node thread).currentPriority := ne
  -- the group order decides the end of the chain at which the thread is put
  obtain ⟨queues, chosen, chains, kept⟩ : ∃ queues,
      (if priorityIsAppend (priorityMap priority ||| order.bit) then
        (sys.queues.extract thread (sys.node thread)).enqueue thread (.update priority)
      else (sys.queues.extract thread (sys.node thread)).enqueueFirst thread
        (.update priority)) = queues ∧
      queues.ready = update (sys.queues.extract thread (sys.node thread)).ready priority
        (order.place thread (sys.queues.ready priority)) ∧
      Filed queues (update sys.level thread priority) := by
    rw [priorityIsAppend_mapped]
    cases order with
    | first =>
      obtain ⟨chains, kept⟩ := filed.enqueueFirst thread priority range absent
      rw [other] at chains
      exact ⟨_, rfl, chains, kept⟩
    | last =>
      obtain ⟨chains, kept⟩ := filed.enqueue thread priority range absent
      rw [other] at chains
      exact ⟨_, rfl, chains, kept⟩
  refine ⟨queues, update sys.node thread (.update priority), ?_, ?_, ?_⟩
  · simp only [System.step, System.updatePriority, Processor.elect, Processor.prepare, newPriority,
      isReady, priorityUnmap_mapped, stale, chosen, moved, if_true, if_false]
  · simp only [Placement, if_pos (And.intro ready ne)]
    rw [chains, taken]
  · intro heir
    refine stored.put thread priority queues _ (order.place thread (sys.queues.ready priority))
      kept ?_ ?_ mapped isReady ?_ ?_ heir
    · intro index
      rw [chains]
      by_cases equal : index = priority
      · rw [equal, update_self, if_pos rfl]
      · rw [update_of_ne equal, if_neg equal, away index]
    · rw [← away priority, other]
      exact order.place_perm thread _
    · simp only [Processor.prepare, newPriority, priorityUnmap_mapped]
    · intro tested apart
      simp [Processor.prepare, Processor.setPriority, apart]

/-- A chain with one thread is left as it is by a yield; in any other the thread moves to
the end. -/
theorem yield (thread : T)
    (ready : (sys.processor.thread thread).isReady = true) : Outcome sys (.yield thread) := by
  have mem := (stored.listed thread).mp ready
  have chain : (sys.node thread).readyChain = sys.level thread := by
    rw [stored.cached thread]
    rfl
  have perm : ((sys.queues.ready (sys.level thread)).erase thread ++ [thread]).Perm
      (sys.queues.ready (sys.level thread)) :=
    (List.perm_append_singleton thread _).trans (List.perm_cons_erase mem).symm
  have same : ∀ index, (update sys.queues.ready (sys.level thread)
      ((sys.queues.ready (sys.level thread)).erase thread ++ [thread]) index).Perm
      (sys.queues.ready index) := by
    intro index
    by_cases equal : index = sys.level thread
    · rw [equal, update_self]
      exact perm
    · rw [update_of_ne equal]
  have empty : ∀ index, update sys.queues.ready (sys.level thread)
      ((sys.queues.ready (sys.level thread)).erase thread ++ [thread]) index = [] ↔
      sys.queues.ready index = [] := by
    intro index
    rw [← List.length_eq_zero_iff, (same index).length_eq, List.length_eq_zero_iff]
  refine ⟨{ sys.queues with
      ready := update sys.queues.ready (sys.level thread)
        ((sys.queues.ready (sys.level thread)).erase thread ++ [thread]) },
    sys.node, ?_, rfl, ?_⟩
  · simp only [System.step, System.yield, Processor.elect, Processor.prepare, chain]
    split
    case isTrue single =>
      obtain ⟨only, listed⟩ := List.length_eq_one_iff.mp (by simpa [hasOnlyOneNode] using single)
      obtain rfl : thread = only := by simpa [listed] using mem
      have unchanged : update sys.queues.ready (sys.level thread)
          ((sys.queues.ready (sys.level thread)).erase thread ++ [thread]) =
          sys.queues.ready := by
        rw [Function.update_eq_self_iff, listed]
        simp
      rw [unchanged]
    case isFalse several =>
      rw [stored.filed.chainExtract_eq thread, update_self, Function.update_idem]
  · intro heir
    refine ⟨⟨?_, ?_, ?_, ?_⟩, stored.cached, stored.mapped, ?_, stored.current⟩
    · refine stored.filed.marks.congr ?_
      intro index small
      exact not_congr (empty index).symm
    · intro index tested inside
      exact stored.filed.placed index tested ((same index).mem_iff.mp inside)
    · intro index
      exact (same index).nodup_iff.mpr (stored.filed.nodup index)
    · intro index filled
      exact stored.filed.range index (mt (empty index).mpr filled)
    · intro tested
      rw [show (⟨⟨(sys.processor.prepare (.yield thread)).thread, heir⟩, _, sys.node⟩ :
        System T).level tested = sys.level tested from rfl, (same _).mem_iff]
      exact stored.listed tested

/-- The law of the operations. -/
theorem outcome (op : Operation T) (admitted : sys.processor.Admits op) : Outcome sys op := by
  cases op with
  | block thread => exact stored.block thread admitted
  | unblock thread => exact stored.unblock thread admitted
  | updatePriority thread priority order =>
    by_cases moved : sys.Moves (.updatePriority thread priority order)
    · exact stored.update_moved thread priority order admitted moved
    · exact stored.update_unmoved thread priority order admitted moved
  | yield thread => exact stored.yield thread admitted

end

end Stored

variable {ready : Nat → List T}

/-- A foremost thread stays foremost if another thread leaves its chain. -/
theorem foremost_erase {heir : T} (thread : T) (level : Nat) (foremost : Foremost ready heir)
    (other : heir ≠ thread) :
    Foremost (update ready level ((ready level).erase thread)) heir := by
  obtain ⟨priority, empty, head⟩ := foremost
  refine ⟨priority, ?_, ?_⟩
  · intro higher before
    by_cases same : higher = level
    · rw [same, update_self, ← same, empty higher before]
      rfl
    · rw [update_of_ne same]
      exact empty higher before
  · by_cases same : priority = level
    · rw [same, update_self]
      rw [same] at head
      obtain ⟨rest, chain⟩ := List.head?_eq_some_iff.mp head
      rw [chain, List.erase_cons_tail (by simpa using other)]
      rfl
    · rw [update_of_ne same]
      exact head

omit [DecidableEq T] in
/-- A thread appended to a chain becomes the foremost one if its priority is higher than
that of the foremost thread, and changes nothing otherwise. -/
theorem foremost_append {heir : T} (thread : T) (priority cur : Nat)
    (empty : ∀ higher < cur, ready higher = []) (head : (ready cur).head? = some heir) :
    Foremost (update ready priority (ready priority ++ [thread]))
      (if priority < cur then thread else heir) := by
  split
  case isTrue before =>
    refine ⟨priority, ?_, ?_⟩
    · intro higher less
      rw [update_of_ne (Nat.ne_of_lt less)]
      exact empty higher (by omega)
    · rw [update_self, empty priority before]
      rfl
  case isFalse late =>
    refine ⟨cur, ?_, ?_⟩
    · intro higher less
      rw [update_of_ne (by omega)]
      exact empty higher less
    · by_cases same : cur = priority
      · subst same
        rw [update_self, List.head?_append, head]
        rfl
      · rw [update_of_ne same]
        exact head

namespace Sound

variable {idle : T} {sys : System T}

omit [DecidableEq T] in
/-- The priority of the heir is the number of the first chain that is not empty. -/
theorem heir_level (sound : Sound idle sys) :
    ∃ cur, (∀ higher < cur, sys.queues.ready higher = []) ∧
      (sys.queues.ready cur).head? = some sys.processor.heir ∧
      (sys.processor.thread sys.processor.heir).waitPriority = 2 * cur := by
  obtain ⟨cur, empty, head⟩ := sound.heir
  have mem : sys.processor.heir ∈ sys.queues.ready cur := List.mem_of_head? head
  have level := sound.stored.filed.placed cur _ mem
  have ready := (sound.stored.listed sys.processor.heir).mpr (by rwa [level])
  have own := sound.stored.current _ ready
  exact ⟨cur, empty, head, by rw [(sound.stored.mapped _).1, ← own, level]⟩

/-- An unblocked thread becomes the heir exactly if its priority is higher. -/
theorem unblock_heir (sound : Sound idle sys) (thread : T) (cur : Nat)
    (wait : (sys.processor.thread sys.processor.heir).waitPriority = 2 * cur) :
    ((sys.processor.setReady thread true).unblock thread
        ((sys.processor.setReady thread true).thread thread).waitPriority).heir =
      if priorityUnmap (sys.processor.thread thread).priority < cur then thread
      else sys.processor.heir := by
  have own := (sound.stored.mapped thread).1
  have threadWait : ((sys.processor.setReady thread true).thread thread).waitPriority =
      2 * priorityUnmap (sys.processor.thread thread).priority := by
    simpa [Processor.setReady] using own
  have heirWait : ((sys.processor.setReady thread true).thread
      sys.processor.heir).waitPriority = 2 * cur := by
    by_cases same : sys.processor.heir = thread
    · simpa [same] using wait
    · simpa [same] using wait
  have kept : (sys.processor.setReady thread true).heir = sys.processor.heir := rfl
  have preemptible : ((sys.processor.setReady thread true).thread
      (sys.processor.setReady thread true).heir).isPreemptible = true := by
    have prepared := sys.processor.prepare_isPreemptible (.unblock thread) sys.processor.heir
    exact prepared.trans (sound.preemptible _)
  unfold Processor.unblock
  rw [threadWait, kept, heirWait]
  by_cases before : priorityUnmap (sys.processor.thread thread).priority < cur
  · rw [if_pos (by omega), if_pos before]
    exact Processor.updateHeirIfPreemptible_heir _ thread preemptible
  · rw [if_neg (by omega), if_neg before, kept]

/-- The heir is foremost after every operation: the rules for the heir find the foremost
thread, or the foremost thread is the old one. -/
theorem elect (sound : Sound idle sys) (op : Operation T) (queues : ReadyQueues T)
    (first : T) (found : queues.first = some first) (foremost : Foremost queues.ready first)
    (placement : Placement sys queues.ready op) :
    ∃ cpu, (sys.processor.prepare op).elect queues.first (sys.Moves op)
        op = some cpu ∧ Foremost queues.ready cpu.heir := by
  rw [found]
  cases op with
  | block thread =>
    by_cases same : sys.processor.heir = thread
    · refine ⟨⟨(sys.processor.setReady thread false).thread, first⟩, ?_, foremost⟩
      simp [Processor.elect, Processor.prepare, Processor.block, Processor.setReady, same]
    · refine ⟨sys.processor.setReady thread false, ?_, ?_⟩
      · simp [Processor.elect, Processor.prepare, Processor.block, Processor.setReady, same]
      · have chains : queues.ready = _ := placement
        rw [chains]
        exact foremost_erase thread _ sound.heir same
  | unblock thread =>
    obtain ⟨cur, empty, head, wait⟩ := sound.heir_level
    have chains : queues.ready = _ := placement
    refine ⟨_, rfl, ?_⟩
    rw [chains]
    show Foremost _ ((sys.processor.setReady thread true).unblock thread
      ((sys.processor.setReady thread true).thread thread).waitPriority).heir
    rw [sound.unblock_heir thread cur wait]
    exact foremost_append thread _ cur empty head
  | updatePriority thread priority order =>
    by_cases moved : sys.Moves (.updatePriority thread priority order)
    · refine ⟨(sys.processor.setPriority thread priority order).updateHeirIfPreemptible first,
        ?_, ?_⟩
      · simp only [Processor.elect, Processor.prepare, moved, if_true, Processor.schedule,
          Option.map_some]
      · rw [Processor.updateHeirIfPreemptible_heir]
        · exact foremost
        · have prepared := sys.processor.prepare_isPreemptible
            (.updatePriority thread priority order) sys.processor.heir
          exact prepared.trans (sound.preemptible _)
    · have unmoved : ¬ ((sys.processor.thread thread).isReady = true ∧
          priority ≠ sys.level thread) := moved
      have still : queues.ready = sys.queues.ready := by
        simpa only [Placement, if_neg unmoved] using placement
      refine ⟨sys.processor.setPriority thread priority order, ?_, ?_⟩
      · simp only [Processor.elect, Processor.prepare, moved, if_false]
      · rw [still]
        exact sound.heir
  | yield thread =>
    refine ⟨sys.processor.updateHeirIfNecessary first, rfl, ?_⟩
    rw [Processor.updateHeirIfNecessary_heir]
    exact foremost

omit [DecidableEq T] in
/-- Some chain is not empty as long as the idle thread is ready. -/
theorem occupied (stored : Stored sys) (idleReady : (sys.processor.thread idle).isReady = true) :
    ∃ node, sys.queues.first = some node ∧ Foremost sys.queues.ready node :=
  stored.filed.first ⟨_, List.ne_nil_of_mem ((stored.listed idle).mp idleReady)⟩

/-- Every permitted operation is accepted, places its thread and keeps the invariant. -/
theorem step (sound : Sound idle sys) (op : Operation T) (permitted : Permitted idle sys op) :
    ∃ next, sys.step op = some next ∧ Placement sys next.queues.ready op ∧
      Sound idle next := by
  obtain ⟨admitted, notIdle⟩ := permitted
  obtain ⟨queues, node, stepped, placement, stored⟩ := sound.stored.outcome op admitted
  have idleReady := sys.processor.prepare_isReady op idle sound.idleReady notIdle
  obtain ⟨first, found, foremost⟩ := occupied (stored sys.processor.heir) idleReady
  obtain ⟨cpu, elected, heir⟩ := sound.elect op queues first found foremost placement
  have threads := Processor.elect_thread elected
  refine ⟨⟨cpu, queues, node⟩, ?_, placement, ?_⟩
  · rw [stepped, elected]
    rfl
  · have same : cpu = ⟨(sys.processor.prepare op).thread, cpu.heir⟩ := by
      rw [← threads]
    refine ⟨?_, ?_, ?_, heir⟩
    · rw [same]
      exact stored cpu.heir
    · intro tested
      rw [threads, Processor.prepare_isPreemptible]
      exact sound.preemptible tested
    · simpa only [threads] using idleReady

end Sound

/-- The initial state has the idle thread on its chain and nothing else. -/
theorem Initial.sound {idle : T} {sys : System T} (initial : Initial idle sys) :
    Sound idle sys := by
  have level : ∀ thread, sys.level thread =
      priorityUnmap (sys.processor.thread thread).priority := by
    intro thread
    rw [System.level, initial.node thread]
    rfl
  have range := (initial.mapped idle).2
  obtain ⟨chains, filed⟩ := (Filed.empty sys.level).enqueue idle
    (priorityUnmap (sys.processor.thread idle).priority) range (by simp [ReadyQueues.empty])
  rw [← initial.node idle, ← initial.queues] at chains filed
  have chain : ∀ priority, sys.queues.ready priority =
      if priority = priorityUnmap (sys.processor.thread idle).priority then [idle] else [] := by
    intro priority
    rw [chains]
    by_cases same : priority = priorityUnmap (sys.processor.thread idle).priority
    · rw [same, update_self, if_pos rfl]
      rfl
    · rw [update_of_ne same, if_neg same]
      rfl
  refine ⟨⟨?_, ?_, initial.mapped, ?_, fun thread _ => level thread⟩, initial.preemptible, ?_, ?_⟩
  · refine filed.relevel ?_
    intro priority node mem
    by_cases same : node = idle
    · rw [same, update_self, level]
    · rw [update_of_ne same]
  · intro thread
    rw [level, initial.node thread]
  · intro thread
    rw [initial.ready, chain, level]
    by_cases same : thread = idle
    · simp [same]
    · split <;> simp [same]
  · rw [initial.ready]
    simp
  · rw [initial.heir]
    refine ⟨priorityUnmap (sys.processor.thread idle).priority, ?_, ?_⟩
    · intro higher before
      rw [chain, if_neg (Nat.ne_of_lt before)]
    · rw [chain, if_pos rfl]
      rfl

/-- Every run keeps the invariant. -/
theorem Sound.run {idle : T} {past : List (System T)} {sys : System T}
    (run : Trace (Initial idle) (Permitted idle) System.step past sys) : Sound idle sys := by
  refine run.invariant (Sound idle) (fun _ initial => initial.sound) ?_
  intro state op next sound permitted taken
  obtain ⟨reached, stepped, -, kept⟩ := sound.step op permitted
  cases taken.symm.trans stepped
  exact kept

/-- In every reachable state the bit map marks exactly the ready chains that are not
empty, a ready thread is on the chain of its current priority only and once, a thread
that is not ready is on no chain, and the heir is the first thread of the chain with the
smallest number that is not empty. Every permitted operation is accepted and puts its
thread where `Placement` says. -/
theorem runs_pick_heir (idle : T) (past : List (System T)) (system : System T)
    (run : Trace (Initial idle) (Permitted idle) System.step past system) :
    (∀ priority < 256, (system.queues.bitMap.bitMap (priorityMajor priority) &&&
        priorityMask (priorityMinor priority) ≠ 0 ↔ system.queues.ready priority ≠ [])) ∧
    (∀ major < 16, system.queues.bitMap.majorBitMap &&& priorityMask major ≠ 0 ↔
      ∃ priority < 256, priorityMajor priority = major ∧ system.queues.ready priority ≠ []) ∧
    (∀ thread, (system.processor.thread thread).isReady = true →
      (system.node thread).currentPriority =
        priorityUnmap (system.processor.thread thread).priority ∧
      (∀ priority, thread ∈ system.queues.ready priority ↔
        priority = (system.node thread).currentPriority) ∧
      (system.queues.ready (system.node thread).currentPriority).count thread = 1) ∧
    (∀ thread, (system.processor.thread thread).isReady = false →
      ∀ priority, thread ∉ system.queues.ready priority) ∧
    Foremost system.queues.ready system.processor.heir ∧
    ∀ operation, Permitted idle system operation → ∃ next, system.step operation = some next ∧
        Placement system next.queues.ready operation := by
  have sound := Sound.run run
  have marks := sound.stored.filed.marks
  refine ⟨?_, ?_, ?_, ?_, sound.heir, ?_⟩
  · intro priority bound
    have minor : priorityMinor priority < 16 := Nat.mod_lt _ (by decide)
    rw [and_mask_ne_zero _ _ minor, marks.minor priority bound]
  · intro major bound
    rw [and_mask_ne_zero _ _ bound, marks.major_iff major bound]
  · intro thread ready
    have member := (sound.stored.listed thread).mp ready
    refine ⟨sound.stored.current thread ready, ?_, ?_⟩
    · intro priority
      constructor
      · exact fun inside => (sound.stored.filed.placed priority thread inside).symm
      · rintro rfl
        exact member
    · exact List.count_eq_one_of_mem (sound.stored.filed.nodup _) member
  · intro thread blocked
    exact sound.stored.absent thread blocked
  · intro operation permitted
    obtain ⟨next, stepped, placement, -⟩ := sound.step operation permitted
    exact ⟨next, stepped, placement⟩

/-- Thread 0 is the idle thread of priority 255; all others have priority 10. -/
def booted : System Nat :=
  let priority : Nat → Nat := fun thread => if thread = 0 then 255 else 10
  { processor :=
      { thread := fun thread =>
          { priority := priorityMap (priority thread) ||| GroupOrder.last.bit
            waitPriority := priorityMap (priority thread)
            isReady := decide (thread = 0)
            isPreemptible := true }
        heir := 0 }
    queues := ReadyQueues.empty.enqueue 0 (.update 255)
    node := fun thread => .update (priority thread) }

theorem booted_initial : Initial 0 booted := by
  refine ⟨?_, fun _ => rfl, fun _ => rfl, ?_, rfl, rfl⟩
  · intro thread
    by_cases same : thread = 0 <;>
      simp [booted, same, Thread.Mapped, priorityMap, priorityUnmap, GroupOrder.bit]
  · intro thread
    by_cases same : thread = 0 <;> simp [booted, same, priorityMap, priorityUnmap, GroupOrder.bit]

/-- Two threads of one priority become ready and the first of them yields; a third one
gets a higher priority while it is blocked and is then unblocked, lowered into the group of the
two others at its front, and blocked. -/
def rotation : List (Operation Nat) :=
  [.unblock 1, .unblock 2, .yield 1, .updatePriority 3 5 .last, .unblock 3,
    .updatePriority 3 10 .first, .block 3]

/-- At the end of the session the thread that did not yield is the heir. -/
theorem runs_pick_heir_rotation :
    ∃ past system, Trace (Initial 0) (Permitted 0) System.step past system ∧
      system.queues.ready 10 = [2, 1] ∧ Foremost system.queues.ready system.processor.heir ∧
      ∃ next, system.step (.yield 2) = some next ∧ next.queues.ready 10 = [1, 2] := by
  obtain ⟨past, system, run, seen⟩ := Trace.observe (Permitted 0) System.step booted
    booted_initial rotation
    (fun system => (system.queues.ready 10, (system.processor.thread 2).isReady,
      (system.node 2).currentPriority)) ([2, 1], true, 10) (by decide +kernel) (by decide +kernel)
  obtain ⟨chain, ready, current⟩ : system.queues.ready 10 = [2, 1] ∧
      (system.processor.thread 2).isReady = true ∧ (system.node 2).currentPriority = 10 := by
    simpa using seen
  obtain ⟨-, -, -, -, heir, placed⟩ := runs_pick_heir 0 past system run
  obtain ⟨next, stepped, placement⟩ := placed (.yield 2) ⟨ready, by simp⟩
  have placement : next.queues.ready = Function.update system.queues.ready
    (system.node 2).currentPriority _ := placement
  refine ⟨past, system, run, chain, heir, next, stepped, ?_⟩
  rw [placement, current, Function.update_self, System.level, current, chain]
  rfl

end Rtems.Scheduler.Priority
