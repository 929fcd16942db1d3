import Rtems.Library.Transition
import Rtems.Library.TreeInsertion
import Rtems.Scheduler.Uniprocessor

/-!
# The earliest deadline first scheduler

The scheduler keeps the ready threads in a red-black tree. Its nodes carry the priority
without the bit of the group order; an insertion passes the nodes whose priority is
less than the key of the insertion, and the key may have the bit. So a key with the bit
leads behind the threads of the same priority and one without it leads before them.
A yield inserts with a key without the bit.
-/

namespace Rtems.Scheduler.Edf

open RedBlack OrderedChain Transition
open Function (update update_of_ne update_self)

universe u
variable {T : Type u} [DecidableEq T]

/-- The processor, the priorities of the `Scheduler_EDF_Node`s and the tree of the ready
threads. -/
structure System (T : Type u) where
  processor : Processor T
  priority : T → Nat
  ready : RedBlack.Tree T

/-- `SCHEDULER_PRIORITY_PURIFY`. -/
def priorityPurify (priority : Nat) : Nat := priority - priority % 2

/-- The ready threads from left to right. -/
def System.sequence (system : System T) : List T := system.ready.inorder

/-- `_Scheduler_EDF_Get_highest_ready` with `_RBTree_Minimum`. -/
def System.getHighestReady (system : System T) : Option T := system.ready.minimum

section Operations

variable (insertColor extractNode : RedBlack.Tree T → T → RedBlack.Tree T)

/-- `_Scheduler_EDF_Enqueue` with `_Scheduler_EDF_Priority_less_equal`. -/
def System.enqueue (system : System T) (node : T) (insertPriority : Nat) : System T :=
  { system with
    ready := insertColor
      (hang (fun next => insertPriority ≤ system.priority next) node system.ready) node }

/-- `_Scheduler_EDF_Extract`. -/
def System.extract (system : System T) (node : T) : System T :=
  { system with ready := extractNode system.ready node }

/-- `_Scheduler_EDF_Block`. -/
def System.block (system : System T) (thread : T) : Option (System T) :=
  let extracted := system.extract extractNode thread
  (system.processor.block thread extracted.getHighestReady).map fun processor =>
    { extracted with processor }

/-- `_Scheduler_EDF_Unblock`. -/
def System.unblock (system : System T) (thread : T) : System T :=
  let priority := priorityPurify (system.processor.thread thread).priority
  let insertPriority := priorityAppend priority
  let marked := { system with priority := Function.update system.priority thread priority }
  let inserted := marked.enqueue insertColor thread insertPriority
  { inserted with processor := system.processor.unblock thread priority }

/-- `_Scheduler_EDF_Update_priority`. -/
def System.updatePriority (system : System T) (thread : T) : Option (System T) :=
  if (system.processor.thread thread).isReady then
    let insertPriority := (system.processor.thread thread).priority
    let priority := priorityPurify insertPriority
    if priority = system.priority thread then some system
    else
      let marked := { system with priority := Function.update system.priority thread priority }
      let inserted := (marked.extract extractNode thread).enqueue insertColor thread insertPriority
      (system.processor.schedule inserted.getHighestReady).map fun processor =>
        { inserted with processor }
  else some system

/-- `_Scheduler_EDF_Yield`. -/
def System.yield (system : System T) (thread : T) : Option (System T) :=
  let inserted := (system.extract extractNode thread).enqueue insertColor thread (system.priority thread)
  (system.processor.yield inserted.getHighestReady).map fun processor =>
    { inserted with processor }

/-- One operation, with the change of the thread that it is about. -/
def System.step (system : System T) : Operation T → Option (System T)
  | .block thread =>
      { system with processor := system.processor.setReady thread false }.block extractNode thread
  | .unblock thread =>
      some ({ system with
        processor := system.processor.setReady thread true }.unblock insertColor thread)
  | .updatePriority thread priority order =>
      { system with
        processor := system.processor.setPriority thread priority order }.updatePriority insertColor
          extractNode thread
  | .yield thread => system.yield insertColor extractNode thread

end Operations

/-- The idle thread is ready and the heir, and the nodes carry priorities of their wait
queues up to the group order. -/
structure Initial (idle : T) (system : System T) : Prop where
  mapped : ∀ thread, (system.processor.thread thread).waitPriority =
    priorityPurify (system.processor.thread thread).priority
  isReady : ∀ thread, (system.processor.thread thread).isReady = decide (thread = idle)
  ready : system.ready = .node .black .leaf idle .leaf
  priority : system.priority idle = (system.processor.thread idle).waitPriority
  heir : system.processor.heir = idle

/-- A ready thread may block or yield, and one that is not ready may be unblocked. The
priority may change at any time. -/
def Admits (system : System T) : Operation T → Prop
  | .block thread => (system.processor.thread thread).isReady = true
  | .unblock thread => (system.processor.thread thread).isReady = false
  | .updatePriority _ _ _ => True
  | .yield thread => (system.processor.thread thread).isReady = true

instance (system : System T) (operation : Operation T) : Decidable (Admits system operation) :=
  match operation with
  | .block _ => inferInstanceAs (Decidable (_ = true))
  | .unblock _ => inferInstanceAs (Decidable (_ = false))
  | .updatePriority .. => .isTrue trivial
  | .yield _ => inferInstanceAs (Decidable (_ = true))

/-- A tree of threads in the order of their priorities. -/
structure Ordered (priority : T → Nat) (tree : RedBlack.Tree T) : Prop where
  valid : Valid tree
  nodup : tree.inorder.Nodup
  sorted : tree.inorder.Pairwise fun one other => priority one ≤ priority other

/-- The invariant: the tree has the ready threads, and their nodes carry the current
priorities. -/
structure Sound (system : System T) : Prop where
  ordered : Ordered system.priority system.ready
  mapped : ∀ thread, (system.processor.thread thread).waitPriority =
    priorityPurify (system.processor.thread thread).priority
  listed : ∀ thread, (system.processor.thread thread).isReady = true ↔ thread ∈ system.sequence
  current : ∀ thread ∈ system.sequence,
    system.priority thread = (system.processor.thread thread).waitPriority

/-- What a yield of a thread is for: the thread is behind the ready threads of the same
priority, another one of them is the heir if the thread was, and the other threads keep
their order. -/
structure GivesWay (system : System T) (thread : T) (next : System T) : Prop where
  behind : ∀ other ∈ system.sequence, other ≠ thread →
    (system.processor.thread other).waitPriority = (system.processor.thread thread).waitPriority →
    next.sequence.idxOf other < next.sequence.idxOf thread
  heir : system.processor.heir = thread →
    (∀ other ∈ system.sequence, (system.processor.thread thread).waitPriority ≤
      (system.processor.thread other).waitPriority) →
    (∃ other ∈ system.sequence, other ≠ thread ∧
      (system.processor.thread other).waitPriority =
        (system.processor.thread thread).waitPriority) →
    next.processor.heir ≠ thread
  others : next.sequence.erase thread = system.sequence.erase thread

/-- No other ready thread has the priority of the thread. -/
def Alone (system : System T) (thread : T) : Prop :=
  ∀ other ∈ system.sequence, other ≠ thread →
    (system.processor.thread other).waitPriority ≠ (system.processor.thread thread).waitPriority

instance (system : System T) (thread : T) : Decidable (Alone system thread) :=
  inferInstanceAs (Decidable (∀ other ∈ _, _ → _))

theorem priorityPurify_mapped (prio : Nat) (order : GroupOrder) :
    priorityPurify (priorityMap prio ||| order.bit) = priorityMap prio := by
  rw [mapped_or_bit, priorityMap_eq, priorityPurify]
  cases order <;> simp only [GroupOrder.bit] <;> omega

/-- A key is the purified priority or the number behind it. -/
theorem priorityPurify_bounds (prio : Nat) :
    priorityPurify prio ≤ prio ∧ prio ≤ priorityPurify prio + 1 := by
  unfold priorityPurify
  omega

theorem priorityAppend_purified (prio : Nat) :
    priorityPurify prio ≤ priorityAppend (priorityPurify prio) ∧
      priorityAppend (priorityPurify prio) ≤ priorityPurify prio + 1 := by
  have whole : priorityPurify prio = priorityMap (prio / 2) := by
    rw [priorityMap_eq, priorityPurify]
    omega
  have joined : priorityAppend (priorityMap (prio / 2)) = 2 * (prio / 2) + GroupOrder.last.bit :=
    mapped_or_bit (prio / 2) .last
  rw [whole, joined, priorityMap_eq]
  simp only [GroupOrder.bit]
  omega

variable {thread : T}

section Trees

variable {insertColor extractNode : RedBlack.Tree T → T → RedBlack.Tree T}
  {prio : T → Nat} {tree : RedBlack.Tree T}

section

variable (ordered : Ordered prio tree)
include ordered

theorem Ordered.extract (lawful : Lawful insertColor extractNode)
    {taken : T} (mem : taken ∈ tree.inorder) :
    Ordered prio (extractNode tree taken) ∧
      (extractNode tree taken).inorder = tree.inorder.erase taken := by
  have erased := lawful.extract_inorder tree taken ordered.valid ordered.nodup mem
  refine ⟨⟨lawful.extract_valid tree taken ordered.valid ordered.nodup mem, ?_, ?_⟩, erased⟩
  · rw [erased]
    exact ordered.nodup.erase taken
  · rw [erased]
    exact ordered.sorted.sublist List.erase_sublist

/-- Another priority of a thread outside the tree does not matter. -/
theorem Ordered.mark (absent : thread ∉ tree.inorder)
    (changed : Nat) : Ordered (update prio thread changed) tree := by
  refine ⟨ordered.valid, ordered.nodup, ordered.sorted.imp_of_mem ?_⟩
  intro one other first second before
  rw [update_of_ne (ne_of_mem_of_not_mem first absent),
    update_of_ne (ne_of_mem_of_not_mem second absent)]
  exact before

/-- An insertion divides the sequence into the threads with priorities below the key and
those with priorities from the key on. -/
theorem Ordered.enqueue (lawful : Lawful insertColor extractNode) (absent : thread ∉ tree.inorder)
    (key : Nat) (least : prio thread ≤ key) (most : key ≤ prio thread + 1) :
    ∃ front back, tree.inorder = front ++ back ∧
      (insertColor (hang (fun next => key ≤ prio next) thread tree) thread).inorder =
        front ++ thread :: back ∧
      (∀ other ∈ front, prio other < key) ∧ (∀ other ∈ back, key ≤ prio other) ∧
      Ordered prio (insertColor (hang (fun next => key ≤ prio next) thread tree) thread) := by
  have hung := hang_hung (fun next => decide (key ≤ prio next)) thread tree
  have inserted := lawful.insert_inorder tree _ thread ordered.valid hung
  rw [hang_inorder] at inserted
  · obtain ⟨front, back, split, placed, passed, stop⟩ :=
      insertOrdered_split (fun next => decide (key ≤ prio next)) thread tree.inorder
    have sorted := ordered.sorted
    rw [split] at sorted
    obtain ⟨sortedFront, sortedBack, across⟩ := List.pairwise_append.mp sorted
    have before : ∀ other ∈ front, prio other < key := by
      intro other mem
      have refused := passed other mem
      simpa using refused
    have after : ∀ other ∈ back, key ≤ prio other := by
      intro other mem
      cases back with
      | nil => cases mem
      | cons next rest =>
        have first : key ≤ prio next := by
          have accepted := stop next (by simp)
          simpa using accepted
        rcases List.mem_cons.mp mem with rfl | later
        · exact first
        · exact Nat.le_trans first ((List.pairwise_cons.mp sortedBack).1 other later)
    rw [placed] at inserted
    refine ⟨front, back, split, inserted, before, after, ?_⟩
    refine ⟨lawful.insert_valid tree _ thread ordered.valid hung, ?_, ?_⟩
    · rw [inserted]
      refine List.nodup_middle.mpr (List.nodup_cons.mpr ⟨?_, ?_⟩)
      · rw [← split]
        exact absent
      · rw [← split]
        exact ordered.nodup
    · rw [inserted]
      refine List.pairwise_append.mpr ⟨sortedFront, List.pairwise_cons.mpr ⟨?_, sortedBack⟩, ?_⟩
      · exact fun other mem => Nat.le_trans least (after other mem)
      · intro one mem other memberOther
        rcases List.mem_cons.mp memberOther with rfl | memberOther
        · have small := before one mem
          omega
        · exact across one mem other memberOther
  · refine ordered.sorted.imp ?_
    intro one other below accepted
    have bound : key ≤ prio one := by simpa using accepted
    exact decide_eq_true (Nat.le_trans bound below)

/-- A thread that is taken out and inserted again with a priority and a key. -/
theorem Ordered.reinsert
    (lawful : Lawful insertColor extractNode) (mem : thread ∈ tree.inorder) (changed key : Nat)
    (least : changed ≤ key) (most : key ≤ changed + 1) :
    ∃ after, after = insertColor (hang (fun next => key ≤ update prio thread changed next) thread
          (extractNode tree thread)) thread ∧ Ordered (update prio thread changed) after ∧
      ∃ front back, tree.inorder.erase thread = front ++ back ∧
        after.inorder = front ++ thread :: back ∧
        (∀ other ∈ front, prio other < key) ∧ ∀ other ∈ back, key ≤ prio other := by
  obtain ⟨taken, erased⟩ := ordered.extract lawful mem
  have absent : thread ∉ (extractNode tree thread).inorder := by
    rw [erased]
    exact ordered.nodup.not_mem_erase
  have own : update prio thread changed thread = changed := update_self _ _ _
  obtain ⟨front, back, split, inserted, before, behind, again⟩ :=
    (taken.mark absent changed).enqueue lawful absent key (own.symm ▸ least) (own.symm ▸ most)
  have others : ∀ other ∈ front ++ back, other ≠ thread := by
    rintro other inside rfl
    exact absent (split ▸ inside)
  refine ⟨_, rfl, again, front, back, erased ▸ split, inserted, ?_, ?_⟩
  · intro other inside
    have small := before other inside
    rwa [update_of_ne (others other (List.mem_append_left _ inside))] at small
  · intro other inside
    have large := behind other inside
    rwa [update_of_ne (others other (List.mem_append_right _ inside))] at large

end

end Trees

theorem unblock_thread (processor : Processor T) (thread : T) (prio : Nat) :
    (processor.unblock thread prio).thread = processor.thread := by
  unfold Processor.unblock Processor.updateHeirIfPreemptible
  split
  · split <;> rfl
  · rfl

variable {processor : Processor T}

variable {highestReady : Option T}

theorem schedule_thread {next : Processor T}
    (scheduled : processor.schedule highestReady = some next) : next.thread = processor.thread := by
  obtain ⟨newHeir, -, rfl⟩ := Option.map_eq_some_iff.mp scheduled
  unfold Processor.updateHeirIfPreemptible
  split <;> rfl

theorem yield_thread {next : Processor T} (yielded : processor.yield highestReady = some next) :
    next.thread = processor.thread := by
  obtain ⟨newHeir, -, rfl⟩ := Option.map_eq_some_iff.mp yielded
  unfold Processor.updateHeirIfNecessary
  split <;> rfl

namespace Sound

variable {insertColor extractNode : RedBlack.Tree T → T → RedBlack.Tree T} {sys : System T}

omit [DecidableEq T] in
/-- Only the threads of the processor matter. -/
theorem elect (sound : Sound sys) (same : processor.thread = sys.processor.thread) :
    Sound { sys with processor } := by
  refine ⟨sound.ordered, ?_, ?_, ?_⟩
  · exact fun thread => same ▸ sound.mapped thread
  · exact fun thread => same ▸ sound.listed thread
  · exact fun thread mem => same ▸ sound.current thread mem

theorem block (sound : Sound sys) (lawful : Lawful insertColor extractNode)
    (ready : (sys.processor.thread thread).isReady = true) :
    Sound { sys with
      processor := sys.processor.setReady thread false
      ready := extractNode sys.ready thread } := by
  obtain ⟨taken, erased⟩ := sound.ordered.extract lawful ((sound.listed thread).mp ready)
  have mem (other : T) : other ∈ (extractNode sys.ready thread).inorder ↔
      other ≠ thread ∧ other ∈ sys.sequence := by
    rw [erased]
    exact sound.ordered.nodup.mem_erase_iff
  refine ⟨taken, ?_, ?_, ?_⟩
  · intro other
    by_cases same : other = thread
    · simpa [Processor.setReady, same] using sound.mapped thread
    · simpa [Processor.setReady, same] using sound.mapped other
  · intro other
    refine Iff.trans ?_ (mem other).symm
    by_cases same : other = thread
    · simp [Processor.setReady, same]
    · simpa [Processor.setReady, same] using sound.listed other
  · intro other inside
    obtain ⟨ne, inside⟩ := (mem other).mp inside
    simpa [ne] using sound.current other inside

theorem unblock (sound : Sound sys) (lawful : Lawful insertColor extractNode)
    (ready : (sys.processor.thread thread).isReady = false) (key : Nat)
    (least : priorityPurify (sys.processor.thread thread).priority ≤ key)
    (most : key ≤ priorityPurify (sys.processor.thread thread).priority + 1) :
    Sound {
      processor := sys.processor.setReady thread true
      priority := update sys.priority thread (priorityPurify (sys.processor.thread thread).priority)
      ready := insertColor (hang (fun next => key ≤ update sys.priority thread
        (priorityPurify (sys.processor.thread thread).priority) next) thread sys.ready) thread } := by
  have absent : thread ∉ sys.ready.inorder := by
    intro mem
    have listed := (sound.listed thread).mpr mem
    rw [ready] at listed
    cases listed
  have own : update sys.priority thread
      (priorityPurify (sys.processor.thread thread).priority) thread =
        priorityPurify (sys.processor.thread thread).priority := update_self _ _ _
  obtain ⟨front, back, split, inserted, -, -, ordered⟩ :=
    (sound.ordered.mark absent (priorityPurify (sys.processor.thread thread).priority)).enqueue lawful
      absent key (own.symm ▸ least) (own.symm ▸ most)
  have mem (other : T) : other ∈ front ++ thread :: back ↔
      other = thread ∨ other ∈ sys.sequence := by
    rw [System.sequence, split]
    simp only [List.mem_append, List.mem_cons]
    exact or_left_comm
  refine ⟨ordered, ?_, ?_, ?_⟩
  · intro other
    by_cases same : other = thread
    · simpa [Processor.setReady, same] using sound.mapped thread
    · simpa [Processor.setReady, same] using sound.mapped other
  · intro other
    rw [System.sequence, inserted, mem]
    by_cases same : other = thread
    · simp [Processor.setReady, same]
    · simpa [Processor.setReady, same] using sound.listed other
  · intro other inside
    rw [System.sequence, inserted, mem] at inside
    by_cases same : other = thread
    · subst same
      simpa [Processor.setReady] using (sound.mapped other).symm
    · have there : other ∈ sys.sequence := inside.resolve_left same
      simpa [same] using sound.current other there

/-- A thread that is not ready, or whose priority stays the same, stays where it is. -/
theorem setPriority (sound : Sound sys) (thread : T) (prio : Nat) (order : GroupOrder)
    (stays : thread ∈ sys.sequence → sys.priority thread = priorityMap prio) :
    Sound { sys with processor := sys.processor.setPriority thread prio order } := by
  refine ⟨sound.ordered, ?_, ?_, ?_⟩
  · intro other
    by_cases same : other = thread
    · simp [Processor.setPriority, same, priorityPurify_mapped]
    · simpa [Processor.setPriority, same] using sound.mapped other
  · intro other
    refine Iff.trans ?_ (sound.listed other)
    by_cases same : other = thread <;> simp [Processor.setPriority, same]
  · intro other inside
    by_cases same : other = thread
    · subst same
      simpa [Processor.setPriority] using stays inside
    · simpa [Processor.setPriority, same] using sound.current other inside

/-- A ready thread gets a priority and a new place. -/
theorem reinsert (sound : Sound sys) (lawful : Lawful insertColor extractNode)
    (processor : Processor T) (mem : thread ∈ sys.sequence) (changed key : Nat)
    (least : changed ≤ key) (most : key ≤ changed + 1)
    (others : ∀ other, other ≠ thread → processor.thread other = sys.processor.thread other)
    (isReady : (processor.thread thread).isReady = true)
    (mapped : (processor.thread thread).waitPriority =
      priorityPurify (processor.thread thread).priority)
    (current : (processor.thread thread).waitPriority = changed) :
    Sound {
      processor
      priority := update sys.priority thread changed
      ready := insertColor (hang (fun next => key ≤ update sys.priority thread changed next)
        thread (extractNode sys.ready thread)) thread } := by
  obtain ⟨after, same, ordered, front, back, split, inserted, -, -⟩ :=
    sound.ordered.reinsert lawful mem changed key least most
  rw [← same]
  have listed (other : T) : other ∈ after.inorder ↔ other = thread ∨ other ∈ sys.sequence := by
    rw [inserted, List.mem_append, List.mem_cons, or_left_comm, ← List.mem_append, ← split]
    by_cases here : other = thread
    · simp [here]
    · rw [List.mem_erase_of_ne here]
      rfl
  refine ⟨ordered, ?_, ?_, ?_⟩
  · intro other
    by_cases here : other = thread
    · exact here ▸ mapped
    · exact others other here ▸ sound.mapped other
  · intro other
    refine Iff.trans ?_ (listed other).symm
    by_cases here : other = thread
    · simp [here, isReady]
    · rw [show (processor.thread other).isReady = _ from congrArg _ (others other here),
        sound.listed other]
      simp [here]
  · intro other inside
    by_cases here : other = thread
    · subst here
      exact (update_self _ _ _).trans current.symm
    · have there : other ∈ sys.sequence := ((listed other).mp inside).resolve_left here
      exact (update_of_ne here _ _).trans
        ((sound.current other there).trans (congrArg _ (others other here).symm))

/-- Every operation keeps the invariant. -/
theorem step (sound : Sound sys) (lawful : Lawful insertColor extractNode)
    (op : Operation T) (admitted : Admits sys op) {next : System T}
    (taken : sys.step insertColor extractNode op = some next) : Sound next := by
  cases op with
  | block thread =>
    obtain ⟨processor, elected, rfl⟩ := Option.map_eq_some_iff.mp taken
    exact (sound.block lawful admitted).elect
      (@Processor.elect_thread T _ _ processor _ True _ (.block thread) elected)
  | unblock thread =>
    cases taken
    have kept : ((sys.processor.setReady thread true).thread thread).priority =
        (sys.processor.thread thread).priority := by simp [Processor.setReady]
    obtain ⟨least, most⟩ := priorityAppend_purified (sys.processor.thread thread).priority
    have inserted := sound.unblock lawful admitted _ least most
    simp only [System.unblock, kept]
    exact inserted.elect (unblock_thread _ _ _)
  | updatePriority thread prio order =>
    have isReady : ((sys.processor.setPriority thread prio order).thread thread).isReady =
        (sys.processor.thread thread).isReady := by simp [Processor.setPriority]
    have key : ((sys.processor.setPriority thread prio order).thread thread).priority =
        priorityMap prio ||| order.bit := by simp [Processor.setPriority]
    simp only [System.step, System.updatePriority, isReady, key, priorityPurify_mapped] at taken
    split at taken
    case isFalse blocked =>
      cases taken
      exact sound.setPriority thread prio order
        fun mem => absurd ((sound.listed thread).mpr mem) blocked
    case isTrue ready =>
      split at taken
      case isTrue same =>
        cases taken
        exact sound.setPriority thread prio order fun _ => same.symm
      case isFalse =>
        obtain ⟨processor, scheduled, rfl⟩ := Option.map_eq_some_iff.mp taken
        obtain ⟨least, most⟩ := priorityPurify_bounds (priorityMap prio ||| order.bit)
        rw [priorityPurify_mapped] at least most
        have placed := sound.reinsert lawful (sys.processor.setPriority thread prio order)
          ((sound.listed thread).mp ready) (priorityMap prio) (priorityMap prio ||| order.bit)
          least most
          (fun other ne => by simp [Processor.setPriority, ne])
          (isReady.trans ready)
          (by simp [Processor.setPriority, priorityPurify_mapped])
          (by simp [Processor.setPriority])
        exact placed.elect (schedule_thread scheduled)
  | yield thread =>
    obtain ⟨processor, yielded, rfl⟩ := Option.map_eq_some_iff.mp taken
    have mem := (sound.listed thread).mp admitted
    have placed := sound.reinsert lawful sys.processor mem (sys.priority thread)
      (sys.priority thread) (Nat.le_refl _) (Nat.le_succ _) (fun _ _ => rfl) admitted
      (sound.mapped thread) (sound.current thread mem).symm
    rw [Function.update_eq_self] at placed
    exact placed.elect (yield_thread yielded)

end Sound

/-- The initial state has the idle thread in its tree. -/
theorem Initial.sound {idle : T} {sys : System T} (initial : Initial idle sys) :
    Sound sys := by
  have chain : sys.ready.inorder = [idle] := by rw [initial.ready]; rfl
  refine ⟨⟨?_, ?_, ?_⟩, initial.mapped, ?_, ?_⟩
  · rw [initial.ready]
    exact ⟨1, .black idle .leaf .leaf⟩
  · rw [chain]
    exact List.nodup_singleton idle
  · rw [chain]
    exact List.pairwise_singleton _ idle
  · intro thread
    rw [initial.isReady, System.sequence, chain, List.mem_singleton, decide_eq_true_iff]
  · intro thread mem
    rw [System.sequence, chain, List.mem_singleton] at mem
    exact mem ▸ initial.priority

section Runs

variable {insertColor extractNode : RedBlack.Tree T → T → RedBlack.Tree T} {idle : T}
  {past : List (System T)}
  {sys : System T}

/-- Every run keeps the invariant. -/
theorem Sound.run (lawful : Lawful insertColor extractNode)
    (run : Trace (Initial idle) Admits (System.step insertColor extractNode) past sys) :
    Sound sys :=
  run.invariant Sound (fun _ initial => initial.sound)
    fun _ op _ sound admitted taken => sound.step lawful op admitted taken

/-- A yield puts the thread before the ready threads of the same priority. -/
theorem Sound.yielded (sound : Sound sys) (lawful : Lawful insertColor extractNode)
    (ready : (sys.processor.thread thread).isReady = true) :
    ∃ next, sys.step insertColor extractNode (.yield thread) = some next ∧
      ∃ front back, sys.sequence.erase thread = front ++ back ∧
        next.sequence = front ++ thread :: back ∧
        (∀ other ∈ front, (sys.processor.thread other).waitPriority <
          (sys.processor.thread thread).waitPriority) ∧
        (∀ other ∈ back, (sys.processor.thread thread).waitPriority ≤
          (sys.processor.thread other).waitPriority) ∧
        next.sequence.head? = some next.processor.heir := by
  have mem := (sound.listed thread).mp ready
  obtain ⟨after, same, ordered, front, back, split, inserted, before, behind⟩ :=
    sound.ordered.reinsert lawful mem (sys.priority thread) (sys.priority thread)
      (Nat.le_refl _) (Nat.le_succ _)
  rw [Function.update_eq_self] at same
  have inside : ∀ other ∈ front ++ back, other ∈ sys.sequence :=
    fun other listed => List.mem_of_mem_erase (split ▸ listed)
  obtain ⟨first, head⟩ : ∃ first, after.inorder.head? = some first := by
    rw [inserted]
    cases front with
    | nil => exact ⟨thread, rfl⟩
    | cons next rest => exact ⟨next, rfl⟩
  have highest : after.minimum = some first := (RedBlack.Tree.minimum_eq_head after).trans head
  have stepped : sys.step insertColor extractNode (.yield thread) =
      (sys.processor.yield after.minimum).map fun processor =>
        ⟨processor, sys.priority, after⟩ := by
    rw [same]
    rfl
  refine ⟨⟨sys.processor.updateHeirIfNecessary first, sys.priority, after⟩, ?_, front, back, split,
    inserted, ?_, ?_, ?_⟩
  · rw [stepped, highest]
    rfl
  · intro other listed
    have small := before other listed
    rwa [sound.current other (inside other (List.mem_append_left _ listed)),
      sound.current thread mem] at small
  · intro other listed
    have large := behind other listed
    rwa [sound.current other (inside other (List.mem_append_right _ listed)),
      sound.current thread mem] at large
  · exact head.trans (congrArg some (sys.processor.updateHeirIfNecessary_heir first).symm)

/-- In every reachable state a yield gives way to the other threads of the priority group
exactly if there are none. -/
theorem edf_yield_gives_way_iff (lawful : Lawful insertColor extractNode) (idle : T)
    (past : List (System T)) (system : System T)
    (run : Trace (Initial idle) Admits (System.step insertColor extractNode) past system)
    (thread : T) (ready : (system.processor.thread thread).isReady = true) :
    ∃ next, system.step insertColor extractNode (.yield thread) = some next ∧
      (GivesWay system thread next ↔ Alone system thread) := by
  have sound := Sound.run lawful run
  obtain ⟨next, stepped, front, back, split, sequence, before, behind, -⟩ := sound.yielded lawful ready
  have distinct : (front ++ thread :: back).Nodup := by
    refine List.nodup_middle.mpr (List.nodup_cons.mpr ⟨?_, ?_⟩)
    · rw [← split]
      exact sound.ordered.nodup.not_mem_erase
    · rw [← split]
      exact sound.ordered.nodup.erase thread
  have outside : thread ∉ front := fun member =>
    (List.nodup_append.mp distinct).2.2 thread member thread List.mem_cons_self rfl
  refine ⟨next, stepped, ?_, ?_⟩
  · -- another thread of the group is behind the one that yields
    intro gives other member different same
    have rest : other ∈ front ++ back := split ▸ (List.mem_erase_of_ne different).mpr member
    have passed := gives.behind other member different same
    rw [sequence, List.idxOf_append_of_notMem outside, List.idxOf_cons_self] at passed
    rcases List.mem_append.mp rest with inside | inside
    · have small := before other inside
      omega
    · have missing : other ∉ front := fun first =>
        (List.nodup_append.mp distinct).2.2 other first other (List.mem_cons_of_mem _ inside) rfl
      rw [List.idxOf_append_of_notMem missing] at passed
      omega
  · intro alone
    refine ⟨?_, ?_, ?_⟩
    · exact fun other member different same => absurd same (alone other member different)
    · rintro - - ⟨other, member, different, same⟩
      exact absurd same (alone other member different)
    · rw [sequence, split, List.erase_append_right _ outside, List.erase_cons_head]

end Runs

/-- The idle thread has number zero, and all other threads have the same priority. -/
def booted : System Nat :=
  let priority := fun thread => priorityMap (if thread = 0 then 255 else 10)
  { processor :=
      { thread := fun thread => ⟨priority thread, priority thread, thread = 0, true⟩
        heir := 0 }
    priority
    ready := .node .black .leaf 0 .leaf }

theorem booted_initial : Initial 0 booted := by
  refine ⟨?_, fun _ => rfl, rfl, rfl, rfl⟩
  intro thread
  have purified := priorityPurify_mapped (if thread = 0 then 255 else 10) .first
  rw [GroupOrder.bit, Nat.or_zero] at purified
  exact purified.symm

/-- A reached state as it is observed. -/
theorem booted_reaches (operations : List (Operation Nat)) {β : Type} (view : System Nat → β)
    (value : β) (allowed : Allowed Admits (System.step (fun tree (_ : Nat) => rebuild tree.inorder)
      (fun tree taken => rebuild (tree.inorder.erase taken))) booted operations) (observed : (feed
      (System.step (fun tree (_ : Nat) => rebuild tree.inorder) (fun tree taken => rebuild
      (tree.inorder.erase taken))) booted operations).map view = some value) :
    ∃ past sys, Trace (Initial 0) Admits (System.step (fun tree (_ : Nat) => rebuild tree.inorder)
      (fun tree taken => rebuild (tree.inorder.erase taken))) past sys ∧ view sys = value :=
  Trace.observe Admits _ booted booted_initial operations view value allowed observed

/-- A thread that is alone in its priority group yields to a thread of a higher priority. -/
theorem edf_yield_gives_way_alone :
    ∃ past system, Trace (Initial 0) Admits
        (System.step (fun tree (_ : Nat) => rebuild tree.inorder)
          (fun tree taken => rebuild (tree.inorder.erase taken))) past system ∧
      system.sequence = [2, 1, 0] ∧ ∃ next, system.step (fun tree (_ : Nat) => rebuild tree.inorder)
          (fun tree taken => rebuild (tree.inorder.erase taken)) (.yield 1) = some next ∧
        GivesWay system 1 next := by
  obtain ⟨past, system, run, seen⟩ := booted_reaches
    [.unblock 1, .unblock 2, .updatePriority 2 9 .last]
    (fun system => (system.sequence, (system.processor.thread 1).isReady, decide (Alone system 1)))
    ([2, 1, 0], true, true) (by decide +kernel) (by decide +kernel)
  obtain ⟨sequence, ready, alone⟩ : system.sequence = [2, 1, 0] ∧
      (system.processor.thread 1).isReady = true ∧ Alone system 1 := by simpa using seen
  obtain ⟨next, stepped, gives⟩ := edf_yield_gives_way_iff rebuild_lawful 0 past system run 1 ready
  exact ⟨past, system, run, sequence, next, stepped, gives.mpr alone⟩

/-- Of two threads of the same priority the heir yields, and it stays the heir. -/
theorem edf_yield_keeps_the_heir :
    ¬ ∀ (insertColor extractNode : RedBlack.Tree Nat → Nat → RedBlack.Tree Nat),
      Lawful insertColor extractNode →
      ∀ (idle : Nat) (past : List (System Nat)) (system : System Nat),
        Trace (Initial idle) Admits (System.step insertColor extractNode) past system →
        ∀ thread, (system.processor.thread thread).isReady = true →
        ∀ next, system.step insertColor extractNode (.yield thread) = some next →
          GivesWay system thread next := by
  intro claim
  obtain ⟨past, system, run, seen⟩ := booted_reaches [.unblock 1, .unblock 2]
    (fun system => ((system.sequence, system.processor.heir,
      [0, 1, 2].map fun thread => (system.processor.thread thread).waitPriority),
      (system.processor.thread 1).isReady,
      (system.step (fun tree (_ : Nat) => rebuild tree.inorder)
        (fun tree taken => rebuild (tree.inorder.erase taken)) (.yield 1)).map
          fun next => next.processor.heir))
    (([1, 2, 0], 1, [510, 20, 20]), true, some 1) (by decide +kernel) (by decide +kernel)
  obtain ⟨sequence, heir, lowest, one, two, ready, yielded⟩ : system.sequence = [1, 2, 0] ∧
      system.processor.heir = 1 ∧ (system.processor.thread 0).waitPriority = 510 ∧
      (system.processor.thread 1).waitPriority = 20 ∧ (system.processor.thread 2).waitPriority = 20 ∧
      (system.processor.thread 1).isReady = true ∧
      ∃ next, system.step (fun tree (_ : Nat) => rebuild tree.inorder)
        (fun tree taken => rebuild (tree.inorder.erase taken)) (.yield 1) = some next ∧
          next.processor.heir = 1 := by
    simpa [and_assoc] using seen
  obtain ⟨next, stepped, stays⟩ := yielded
  have gives := claim _ _ rebuild_lawful 0 past system run 1 ready next stepped
  refine gives.heir heir ?_ ⟨2, by simp [sequence], by decide, by rw [one, two]⟩ stays
  intro other member
  rw [sequence] at member
  rcases List.mem_cons.mp member with rfl | member
  · exact Nat.le_refl _
  rcases List.mem_cons.mp member with rfl | member
  · rw [one, two]
  · obtain rfl := List.mem_singleton.mp member
    rw [one, lowest]
    decide

end Rtems.Scheduler.Edf
