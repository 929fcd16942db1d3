import Rtems.ThreadQueue.PriorityActions

/-!
# Priority inheritance

Threads seize and surrender recursive mutexes with priority inheritance, wait for them,
time out and change their own priorities. Each operation changes the queue of one mutex or
one contributor of one thread and performs the actions that follow from it; it completes,
and the contributors are again those that the owners and the queues demand.
-/

namespace Rtems.PriorityInherit

open Transition Successor
open Option (bind_eq_bind bind_some)
open Rtems.Priority
open Rtems.ThreadQueue
open Function (update update update_of_ne update_self)

universe u
variable {T M P : Type u}

/-- The operations. -/
inductive Operation (T M P : Type u) where
  | seize (mutex : M) (thread : T) (wait : Bool)
  | surrender (mutex : M) (thread : T)
  | timeout (thread : T)
  | changePriority (thread : T) (priority : P)

section Operations

variable [DecidableEq T] [DecidableEq M] [LinearOrder P]

/-- The operation returns to a thread. -/
def System.return (system : System T M P) (thread : T) (status : Deadlock.Status) :
    System T M P :=
  { system with returnCode := update system.returnCode thread status }

/-- `_Thread_Priority_update`. -/
def System.update (system : System T M P) (updates : List T) : System T M P :=
  { system with threads := system.threads.update updates, updated := updates }

/-- `_Thread_queue_Priority_inherit_do_initialize` for an empty queue, else
`_Thread_queue_Priority_inherit_do_enqueue`. -/
def System.inheritEnqueue [Fintype T] (system : System T M P) (mutex : M) (thread owner : T) :
    Option (System T M P × List T) :=
  let priority := system.threads.effective thread
  if (system.queue mutex).contributors.isEmpty then
    { system with
      queue := Function.update system.queue mutex
        (.initializeOne thread priority) }.performActions [] (Fintype.card T) owner
          (.add (some mutex) priority)
  else
    let inserted := (system.queue mutex).nonEmptyInsert thread priority
    let system := { system with queue := Function.update system.queue mutex inserted.1 }
    if inserted.2 then
      system.performActions [] (Fintype.card T) owner (.change (some mutex) inserted.1.priority)
    else some (system, [])

/-- `_CORE_mutex_Seize_slow` with `_Thread_queue_Enqueue`. -/
def System.seizeSlow [Fintype T] (system : System T M P) (mutex : M) (thread owner : T)
    (wait : Bool) : Option (System T M P) :=
  if wait then
    match (system.graph.claim mutex thread).pathAcquire thread (Fintype.card T) mutex with
    | none => none
    | some .deadlockDetected => some (system.return thread .deadlock)
    | some .noDeadlock => do
        let (system, updates) ← { system with
          waitQueue := Function.update system.waitQueue thread (some mutex) }.inheritEnqueue mutex
            thread owner
        let system := { system with threads := system.threads.block thread }
        some ((system.update updates).return thread .successful)
  else some (system.return thread .unavailable)

/-- `_CORE_recursive_mutex_Seize` with `_CORE_recursive_mutex_Seize_nested`. -/
def System.seize [Fintype T] (system : System T M P) (mutex : M) (thread : T) (wait : Bool) :
    Option (System T M P) :=
  match system.owner mutex with
  | none =>
      some ({ system with
        owner := Function.update system.owner mutex (some thread) }.return thread .successful)
  | some owner =>
      if owner = thread then
        some ({ system with
          nestLevel := Function.update system.nestLevel mutex
            ((system.nestLevel mutex + 1) % 2 ^ 32) }.return thread .successful)
      else system.seizeSlow mutex thread owner wait

/-- An action of `_Thread_queue_Priority_inherit_do_surrender` on the priority of a thread. -/
def surrenderAction (threads : Threads T (Option M) P) (updates : List T) (thread : T)
    (action : Action (Option M) P) : Option (Threads T (Option M) P × List T) :=
  let performed := threads.perform thread action
  if performed.2 then (addPriorityUpdate updates thread).map fun updates => (performed.1, updates)
  else some (performed.1, updates)

/-- `_Thread_queue_Priority_inherit_do_surrender`. -/
def System.inheritSurrender (system : System T M P) (mutex : M) (thread newOwner : T) :
    Option (System T M P × List T) := do
  let (threads, updates) ← surrenderAction system.threads [] thread
    (.remove (some mutex) (system.queue mutex).priority)
  let extracted := (system.queue mutex).extractNonEmpty newOwner (threads.effective newOwner)
  let system := { system with
    threads := threads
    queue := Function.update system.queue mutex extracted.1 }
  if extracted.1.contributors.isEmpty then some (system, updates)
  else do
    let (threads, updates) ← surrenderAction threads updates newOwner
      (.add (some mutex) extracted.1.priority)
    some ({ system with threads := threads }, updates)

/-- `_CORE_recursive_mutex_Surrender` with `_Thread_queue_Surrender`. -/
def System.surrender (system : System T M P) (mutex : M) (thread : T) : Option (System T M P) :=
  if system.owner mutex ≠ some thread then some (system.return thread .notOwner)
  else if system.nestLevel mutex > 0 then
    some ({ system with
      nestLevel := Function.update system.nestLevel mutex
        (system.nestLevel mutex - 1) }.return thread .successful)
  else
    match (system.queue mutex).contributors.head? with
    | none =>
        some ({ system with
          owner := Function.update system.owner mutex none }.return thread .successful)
    | some (newOwner, _) => do
        let (system, updates) ← system.inheritSurrender mutex thread newOwner
        let system := { system with
          owner := Function.update system.owner mutex (some newOwner)
          waitQueue := Function.update system.waitQueue newOwner none }
        let system := system.update updates
        some ({ system with threads := system.threads.unblock newOwner }.return thread .successful)

/-- `_Thread_queue_Priority_inherit_extract`. -/
def System.extract [Fintype T] (system : System T M P) (mutex : M) (thread : T) :
    Option (System T M P × List T) :=
  let extracted := (system.queue mutex).extract thread (system.threads.effective thread)
    (some mutex)
  let system := { system with queue := Function.update system.queue mutex extracted.1 }
  match extracted.2 with
  | none => some (system, [])
  | some action => do
      let owner ← system.owner mutex
      system.performActions [] (Fintype.card T) owner action

/-- `_Thread_Continue` with `STATUS_TIMEOUT` for a waiting thread. -/
def System.timeout [Fintype T] (system : System T M P) (thread : T) : Option (System T M P) :=
  match system.waitQueue thread with
  | none => some system
  | some mutex => do
      let (system, updates) ← system.extract mutex thread
      let system := { system with waitQueue := Function.update system.waitQueue thread none }
      let system := (system.return thread .timeout).update updates
      some { system with threads := system.threads.unblock thread }

/-- `_RTEMS_tasks_Set_priority`. -/
def System.changePriority [Fintype T] (system : System T M P) (thread : T) (priority : P) :
    Option (System T M P) := do
  let (system, updates) ←
    { system with realPriority := Function.update system.realPriority thread priority }.apply []
      thread (.change none priority)
  some (system.update updates)

/-- One operation. It starts with no updates. -/
def System.step [Fintype T] (system : System T M P) (operation : Operation T M P) :
    Option (System T M P) :=
  let system := { system with updated := [] }
  match operation with
  | .seize mutex thread wait => system.seize mutex thread wait
  | .surrender mutex thread => system.surrender mutex thread
  | .timeout thread => system.timeout thread
  | .changePriority thread priority => system.changePriority thread priority

end Operations

/-- A waiting thread calls nothing and no other thread times out. -/
def Permitted (system : System T M P) : Operation T M P → Prop
  | .seize _ thread _ => system.waitQueue thread = none
  | .surrender _ thread => system.waitQueue thread = none
  | .timeout thread => system.waitQueue thread ≠ none
  | .changePriority _ _ => True

/-- All mutexes are free and all threads are ready with their own priorities. -/
structure Initial [LinearOrder P] (system : System T M P) : Prop where
  aggregation : ∀ thread, system.threads.aggregation thread =
    .initializeOne none (system.realPriority thread)
  value : ∀ thread, system.threads.value thread = system.realPriority thread
  ready : ∀ thread, system.threads.ready thread = true
  kept : ∀ thread, system.threads.kept thread = system.realPriority thread
  owner : ∀ mutex, system.owner mutex = none
  nestLevel : ∀ mutex, system.nestLevel mutex = 0
  queue : ∀ mutex, (system.queue mutex).contributors = []
  waitQueue : ∀ thread, system.waitQueue thread = none

/-- No action is pending and the waiting threads are blocked. -/
structure Steady [LinearOrder P] (system : System T M P) : Prop
    extends Coherent system.waitQueue system where
  graph : Deadlock.Sound system.graph
  blocked : ∀ thread mutex, system.waitQueue thread = some mutex →
    system.threads.ready thread = false

/-- The invariant of a run, up to the priorities under which the threads are kept. -/
structure Sound [LinearOrder P] (system : System T M P) : Prop
    extends Coherent system.waitQueue system where
  graph : Deadlock.Sound system.graph
  ready : ∀ thread, system.threads.ready thread = true ↔ system.waitQueue thread = none

variable {sys : System T M P}

theorem Initial.sound [LinearOrder P] (initial : Initial sys) : Sound sys := by
  refine ⟨⟨⟨?_, ?_, ?_⟩, ⟨?_, ?_⟩, ?_⟩, ?_, ?_⟩
  · intro mutex filled
    exact absurd (initial.queue mutex) filled
  · simp [initial.queue, initial.waitQueue]
  · simp [initial.queue]
  · intro thread
    rw [initial.aggregation]
    exact Aggregation.initializeOne_sound ..
  · intro thread
    rw [initial.value, Threads.effective, initial.aggregation]
    rfl
  · intro thread node prio
    rw [initial.aggregation]
    cases node with
    | none => simp [Aggregation.initializeOne, System.Contributes]
    | some mutex => simp [Aggregation.initializeOne, System.Contributes, initial.owner]
  · apply Deadlock.Initial.sound
    exact ⟨initial.owner, initial.nestLevel, by simp [System.graph, initial.queue],
      initial.waitQueue⟩
  · simp [initial.ready, initial.waitQueue]

theorem Initial.kept_all [LinearOrder P] (initial : Initial sys) : sys.threads.Kept [] := by
  intro thread _ _
  rw [initial.kept, Threads.effective, initial.aggregation]
  rfl

section Queues

variable [DecidableEq T] [DecidableEq M] [LinearOrder P] {waits : T → Option M}
  {sys : System T M P} {mutex : M} {thread : T}

/-- A thread with a place in the queue of a mutex. -/
theorem Queued.enter (queued : Queued waits sys) (idle : waits thread = none)
    (queue : Aggregation T P) (waitQueue : T → Option M) (sound : queue.Sound)
    (shuffled : queue.contributors.Perm
      ((thread, sys.threads.effective thread) :: (sys.queue mutex).contributors)) :
    Queued (update waits thread (some mutex)) { sys with
      queue := update sys.queue mutex queue
      waitQueue := waitQueue } := by
  have outside : ∀ tested prio, (thread, prio) ∉ (sys.queue tested).contributors := by
    intro tested prio inside
    rw [queued.waiting, idle] at inside
    cases inside.1
  refine ⟨?_, ?_, ?_⟩
  · intro tested
    show (update sys.queue mutex queue tested).contributors ≠ [] →
      (update sys.queue mutex queue tested).Sound
    by_cases here : tested = mutex
    · subst here
      rw [update_self]
      exact fun _ => sound
    · rw [update_of_ne here]
      exact queued.queues tested
  · intro tested other prio
    show _ ∈ (update sys.queue mutex queue tested).contributors ↔ _
    by_cases self : other = thread
    · subst self
      by_cases here : tested = mutex
      · subst here
        rw [update_self, shuffled.mem_iff]
        simp [outside]
      · rw [update_of_ne here]
        simp [outside, Ne.symm here]
    · rw [update_of_ne self]
      by_cases here : tested = mutex
      · subst here
        rw [update_self, shuffled.mem_iff, ← queued.waiting]
        simp [self]
      · rw [update_of_ne here]
        exact queued.waiting tested other prio
  · intro tested
    show ((update sys.queue mutex queue tested).contributors.map Prod.fst).Nodup
    by_cases here : tested = mutex
    · subst here
      rw [update_self, (shuffled.map Prod.fst).nodup_iff, List.map_cons, List.nodup_cons]
      refine ⟨?_, queued.once tested⟩
      intro inside
      obtain ⟨⟨other, prio⟩, member, rfl⟩ := List.mem_map.mp inside
      exact outside tested prio member
    · rw [update_of_ne here]
      exact queued.once tested

theorem Queued.leave (queued : Queued waits sys) (here : waits thread = some mutex)
    (queue : Aggregation T P) (sound : queue.contributors ≠ [] → queue.Sound)
    (removed : queue.contributors = KeyedChain.remove thread (sys.queue mutex).contributors) :
    Queued (update waits thread none) { sys with
      queue := update sys.queue mutex queue } := by
  refine ⟨?_, ?_, ?_⟩
  · intro tested
    show (update sys.queue mutex queue tested).contributors ≠ [] →
      (update sys.queue mutex queue tested).Sound
    by_cases same : tested = mutex
    · subst same
      rw [update_self]
      exact sound
    · rw [update_of_ne same]
      exact queued.queues tested
  · intro tested other prio
    show _ ∈ (update sys.queue mutex queue tested).contributors ↔ _
    by_cases same : tested = mutex
    · subst same
      rw [update_self, removed, KeyedChain.mem_remove, queued.waiting]
      by_cases self : other = thread
      · simp [self]
      · simp [self]
    · rw [update_of_ne same, queued.waiting]
      by_cases self : other = thread
      · subst self
        simp [here, Ne.symm same]
      · simp [self]
  · intro tested
    show ((update sys.queue mutex queue tested).contributors.map Prod.fst).Nodup
    by_cases same : tested = mutex
    · subst same
      rw [update_self, removed, KeyedChain.remove_nodes _ _ (queued.once tested)]
      exact (queued.once tested).erase thread
    · rw [update_of_ne same]
      exact queued.once tested

omit [DecidableEq T] [DecidableEq M] in
/-- The node of a mutex for which threads wait can be removed from its owner. -/
theorem Coherent.removable {owner : T} (coherent : Coherent waits sys)
    (owns : sys.owner mutex = some owner) (filled : (sys.queue mutex).contributors ≠ []) :
    (Action.remove (some mutex) (sys.queue mutex).priority).Valid
      (sys.threads.aggregation owner).contributors := by
  refine ⟨?_, (none, sys.realPriority owner), ?_, by simp⟩
  · intro key
    rw [coherent.contributors]
    simp [System.Contributes, owns, filled]
  · rw [coherent.contributors]
    rfl

section Requeue

variable {owner : T} {later : T → Option M} {queue : Aggregation T P} {waitQueue : T → Option M}

omit [DecidableEq T] [LinearOrder P] in
/-- Another queue of a mutex is noticed by its owner only. -/
theorem contributes_elsewhere (tested : T) (node : Option M) (prio : P)
    (away : node = some mutex → sys.owner mutex ≠ some tested) :
    { sys with
      queue := update sys.queue mutex queue
      waitQueue := waitQueue }.Contributes tested node prio ↔
        sys.Contributes tested node prio := by
  cases node with
  | none => rfl
  | some other =>
    by_cases same : other = mutex
    · subst same
      simp [System.Contributes, away rfl]
    · simp [System.Contributes, same]

section

omit [DecidableEq T]

section

variable (coherent : Coherent waits sys) (owns : sys.owner mutex = some owner)
  (queued : Queued later { sys with
    queue := update sys.queue mutex queue
    waitQueue := waitQueue })
include coherent owns queued

/-- An action on the owner is pending if it gives the contributor of the mutex. -/
theorem Coherent.requeue (action : Action (Option M) P)
    (valid : action.Valid (sys.threads.aggregation owner).contributors)
    (others : ∀ node prio, node ≠ some mutex →
      ((node, prio) ∈ action.apply (sys.threads.aggregation owner).contributors ↔
        (node, prio) ∈ (sys.threads.aggregation owner).contributors))
    (own : ∀ prio, (some mutex, prio) ∈ action.apply (sys.threads.aggregation owner).contributors ↔
        queue.contributors ≠ [] ∧ prio = queue.priority) :
    Pending later { sys with
      queue := update sys.queue mutex queue
      waitQueue := waitQueue } owner action := by
  refine ⟨queued, coherent.threads, ?_, ?_, valid⟩
  · intro node prio
    by_cases same : node = some mutex
    · subst same
      rw [own]
      simp [System.Contributes, owns]
    · rw [others node prio same, coherent.contributors,
        contributes_elsewhere owner node prio fun equal => absurd equal same]
  · intro other ne node prio
    rw [coherent.contributors, contributes_elsewhere]
    rintro - held
    exact ne (Option.some.inj (held.symm.trans owns))

/-- The first thread waits for a mutex. -/
theorem Coherent.requeue_add (before : (sys.queue mutex).contributors = []) (filled : queue.contributors ≠ []) :
    Pending later { sys with
      queue := update sys.queue mutex queue
      waitQueue := waitQueue } owner (.add (some mutex) queue.priority) := by
  refine coherent.requeue owns queued _ trivial ?_ ?_
  · intro node prio ne
    simp [ne]
  · intro prio
    rw [Action.mem_add, coherent.contributors]
    simp [System.Contributes, before, filled]

/-- The threads that wait for a mutex are others. -/
theorem Coherent.requeue_change (filled : queue.contributors ≠ []) : Pending later { sys with
      queue := update sys.queue mutex queue
      waitQueue := waitQueue } owner (.change (some mutex) queue.priority) := by
  refine coherent.requeue owns queued _ trivial ?_ ?_
  · intro node prio ne
    simp [ne]
  · simp [filled]

/-- No thread waits any more for a mutex. -/
theorem Coherent.requeue_remove (before : (sys.queue mutex).contributors ≠ []) (empty : queue.contributors = []) :
    Pending later { sys with
      queue := update sys.queue mutex queue
      waitQueue := waitQueue } owner (.remove (some mutex) (sys.queue mutex).priority) := by
  refine coherent.requeue owns queued _ (coherent.removable owns before) ?_ ?_
  · intro node prio ne
    simp [ne]
  · simp [empty]

end

/-- The priority of the mutex is the same as before. -/
theorem Coherent.requeue_same (coherent : Coherent waits sys) (queued : Queued later { sys with
      queue := update sys.queue mutex queue
      waitQueue := waitQueue })
    (before : (sys.queue mutex).contributors ≠ []) (filled : queue.contributors ≠ [])
    (same : queue.priority = (sys.queue mutex).priority) :
    Coherent later { sys with
      queue := update sys.queue mutex queue
      waitQueue := waitQueue } := by
  refine ⟨queued, coherent.threads, ?_⟩
  intro tested node prio
  rw [coherent.contributors]
  cases node with
  | none => rfl
  | some other =>
    by_cases here : other = mutex
    · subst here
      simp [System.Contributes, before, filled, same]
    · simp [System.Contributes, here]

end

end Requeue

omit [DecidableEq T] [DecidableEq M] in
/-- The graph of the owners and the waiting threads. -/
theorem Queued.graph (queued : Queued sys.waitQueue sys)
    (acyclic : Acyclic sys.graph.blocker) (owned : ∀ thread mutex, sys.waitQueue thread = some
      mutex → ∃ owner, sys.owner mutex = some owner) : Deadlock.Sound sys.graph := by
  have member : ∀ mutex thread, thread ∈ (sys.queue mutex).contributors.map Prod.fst ↔
        sys.waitQueue thread = some mutex := by
    intro mutex thread
    rw [List.mem_map]
    constructor
    · rintro ⟨⟨other, prio⟩, inside, rfl⟩
      exact ((queued.waiting mutex other prio).mp inside).1
    · intro here
      exact ⟨(thread, _), (queued.waiting mutex thread _).mpr ⟨here, rfl⟩, rfl⟩
  refine ⟨acyclic, member, queued.once, ?_⟩
  intro mutex filled
  obtain ⟨thread, inside⟩ := List.exists_mem_of_ne_nil _ filled
  exact owned thread mutex ((member mutex thread).mp inside)

end Queues

section Steps

variable [DecidableEq T] [DecidableEq M] [LinearOrder P] {sys : System T M P}

/-- What an operation does: the invariant holds, the ready threads are kept under their
effective priorities, and the scheduler was told of those that are kept under another
one. -/
structure Completed (system after : System T M P) : Prop where
  sound : Sound after
  kept : after.threads.Kept []
  told : ∀ thread, system.threads.ready thread = true → thread ∉ after.updated →
    after.threads.kept thread = system.threads.kept thread

section

omit [DecidableEq M] [LinearOrder P]

/-- The threads outside of the set are kept as before. -/
theorem System.update_kept (sys : System T M P) (updates : List T) (thread : T)
    (outside : thread ∉ updates) :
    (sys.update updates).threads.kept thread = sys.threads.kept thread := by
  rw [System.update, Threads.update_eq]
  exact if_neg fun both => outside both.1

/-- The scheduler changes nothing but the priorities under which threads are kept. -/
theorem System.update_shape (sys : System T M P) (updates : List T) :
    ∃ kept, sys.update updates = { sys with
      threads := { sys.threads with kept := kept }, updated := updates } := by
  rw [System.update, Threads.update_eq]
  exact ⟨_, rfl⟩

theorem System.update_ready (sys : System T M P) (updates : List T) :
    (sys.update updates).threads.ready = sys.threads.ready := by
  obtain ⟨kept, shape⟩ := sys.update_shape updates
  rw [shape]

end

variable {waits : T → Option M}

omit [DecidableEq M] in
theorem Coherent.update (coherent : Coherent waits sys) (updates : List T) :
    Coherent waits (sys.update updates) := by
  obtain ⟨kept, shape⟩ := sys.update_shape updates
  rw [shape]
  exact ⟨{ coherent with },
    ⟨coherent.threads.aggregation, coherent.threads.value⟩, coherent.contributors⟩

variable {after : System T M P}

section

omit [DecidableEq T] [DecidableEq M]

theorem Coherent.withThreads (coherent : Coherent waits sys) (ready : T → Bool) (kept : T → P) :
    Coherent waits { sys with
      threads := { sys.threads with ready := ready, kept := kept } } :=
  ⟨{ coherent with },
    ⟨coherent.threads.aggregation, coherent.threads.value⟩, coherent.contributors⟩

/-- A queue is no part of the frame. -/
theorem Settled.requeued {updates later : List T} {queue : M → Aggregation T P}
    (settled : Settled waits { sys with queue := queue } updates after later) :
    Settled waits sys updates after later :=
  { settled with frame := { settled.frame with } }

/-- A coherent system whose owners and waiting threads are those of a sound graph. -/
theorem Coherent.sound {Q : Type*} {graph : Deadlock.System T M Q}
    (coherent : Coherent sys.waitQueue sys) (sound : Deadlock.Sound graph)
    (owner : sys.owner = graph.owner) (waitQueue : sys.waitQueue = graph.waitQueue)
    (ready : ∀ thread, sys.threads.ready thread = true ↔ sys.waitQueue thread = none) :
    Sound sys := by
  have blocker : sys.graph.blocker = graph.blocker := by
    funext thread
    simp [Deadlock.System.blocker, System.graph, owner, waitQueue]
  refine ⟨coherent, coherent.toQueued.graph (blocker ▸ sound.acyclic) ?_, ready⟩
  intro thread mutex here
  rw [waitQueue] at here
  rw [owner]
  exact sound.blocked here

end

namespace Sound

omit [DecidableEq T] [DecidableEq M] in
/-- A waiting thread is not ready. -/
theorem blocked (sound : Sound sys) {thread : T} {mutex : M}
    (here : sys.waitQueue thread = some mutex) : sys.threads.ready thread = false := by
  cases ready : sys.threads.ready thread with
  | false => rfl
  | true =>
    rw [(sound.ready thread).mp ready] at here
    cases here

omit [DecidableEq M] in
/-- The scheduler does not change the effective priorities. -/
theorem rescheduled (sound : Sound sys) (updates : List T) : Sound (sys.update updates) := by
  refine ⟨sound.toCoherent.update updates, sound.graph.congr rfl rfl fun _ => .refl _, ?_⟩
  obtain ⟨kept, shape⟩ := sys.update_shape updates
  rw [shape]
  exact sound.ready

/-- The enqueue operation of the queue completes. -/
theorem inheritEnqueue [Fintype T] (sound : Sound sys) (mutex : M) (thread owner : T)
    (idle : sys.waitQueue thread = none) (owns : sys.owner mutex = some owner)
    (acyclic : Acyclic (sys.graph.claim mutex thread).blocker) :
    ∃ after updates, { sys with
        waitQueue := update sys.waitQueue thread (some mutex) }.inheritEnqueue mutex
          thread owner = some (after, updates) ∧
      Settled (update sys.waitQueue thread (some mutex)) { sys with
        waitQueue := update sys.waitQueue thread (some mutex) } [] after updates := by
  have claimed : update sys.waitQueue thread (some mutex) thread = some mutex := update_self ..
  have blocked : ∀ other tested, other ≠ thread →
      update sys.waitQueue thread (some mutex) other = some tested →
      sys.threads.ready other = false := by
    intro other tested ne here
    rw [update_of_ne ne] at here
    exact sound.blocked here
  have owned : ∀ other tested, update sys.waitQueue thread (some mutex) other = some tested →
      ∃ holder, sys.owner tested = some holder := by
    intro other tested here
    by_cases same : other = thread
    · subst same
      rw [update_self] at here
      cases here
      exact ⟨owner, owns⟩
    · rw [update_of_ne same] at here
      exact sound.graph.blocked here
  unfold System.inheritEnqueue
  by_cases empty : (sys.queue mutex).contributors = []
  · simp only [empty]
    have queued := sound.toQueued.enter idle (.initializeOne thread (sys.threads.effective thread))
      (update sys.waitQueue thread (some mutex))
      (Aggregation.initializeOne_sound ..) (by rw [empty]; exact .refl _)
    have pending := sound.toCoherent.requeue_add owns queued empty (List.cons_ne_nil _ _)
    obtain ⟨after, later, res, settled⟩ := pending.run [] (by simp) acyclic thread mutex claimed
      owns (fun _ _ => rfl) blocked owned
    exact ⟨after, later, res, settled.requeued⟩
  · have filled : (sys.queue mutex).contributors.isEmpty = false := by simpa using empty
    simp only [filled, Bool.false_eq_true, if_false]
    obtain ⟨inserted, contributors, flag⟩ := (sound.queues mutex empty).perform
      (.add thread (sys.threads.effective thread)) trivial
    have shuffled : ((sys.queue mutex).perform
        (.add thread (sys.threads.effective thread))).1.contributors.Perm
          ((thread, sys.threads.effective thread) :: (sys.queue mutex).contributors) := by
      rw [contributors]
      exact KeyedChain.insert_perm ..
    have queued := sound.toQueued.enter idle _
      (update sys.waitQueue thread (some mutex)) inserted shuffled
    have longer : ((sys.queue mutex).perform
        (.add thread (sys.threads.effective thread))).1.contributors ≠ [] := by
      rw [contributors]
      exact KeyedChain.insert_ne_nil _ _ _
    split
    case isTrue changed =>
      have pending := sound.toCoherent.requeue_change owns queued longer
      obtain ⟨after, later, res, settled⟩ := pending.run [] (by simp) acyclic thread mutex
        claimed owns (fun _ _ => rfl) blocked owned
      exact ⟨after, later, res, settled.requeued⟩
    case isFalse unchanged =>
      have same : ((sys.queue mutex).perform
          (.add thread (sys.threads.effective thread))).1.priority =
            (sys.queue mutex).priority := by
        by_contra ne
        exact unchanged (flag.mpr ne)
      refine ⟨_, _, rfl, ⟨⟨rfl, rfl, rfl, rfl, rfl, rfl, rfl⟩,
        sound.toCoherent.requeue_same queued empty longer same, id⟩⟩

omit [DecidableEq M] in
/-- A status is no part of the invariant. -/
theorem answer (sound : Sound sys) (thread : T) (status : Deadlock.Status) :
    Sound (sys.return thread status) :=
  ⟨⟨{ sound with }, sound.threads, sound.contributors⟩,
    sound.graph.congr rfl rfl fun _ => .refl _, sound.ready⟩

end Sound

omit [DecidableEq M] in
/-- An operation that only returns a status. -/
theorem Completed.answer (completed : Completed sys after) (thread : T)
    (status : Deadlock.Status) : Completed sys (after.return thread status) :=
  ⟨completed.sound.answer thread status, completed.kept, completed.told⟩

/-- An action completes if there is room in the set. -/
theorem surrenderAction_spec (threads : Threads T (Option M) P) (updates : List T) (thread : T)
    (action : Action (Option M) P) (sound : threads.Sound)
    (valid : action.Valid (threads.aggregation thread).contributors) (room : updates.length < 2) :
    ∃ after later changed, surrenderAction threads updates thread action = some (after, later) ∧
      Threads.Performed threads thread action after changed ∧
      (threads.Kept updates → after.Kept later) ∧ (later = updates ∨ later = updates ++ [thread]) := by
  have performed := sound.perform thread action valid
  unfold surrenderAction
  cases changed : (threads.perform thread action).2 with
  | false =>
    rw [changed] at performed
    simp only [changed]
    exact ⟨_, _, _, rfl, performed, fun kept => performed.kept_unchanged kept, .inl rfl⟩
  | true =>
    have added : addPriorityUpdate updates thread = some (updates ++ [thread]) := by
      simp [addPriorityUpdate, room]
    simp only [changed, added]
    exact ⟨_, _, _, rfl, performed, fun kept => performed.kept_changed kept, .inr rfl⟩

namespace Sound

/-- `_CORE_mutex_Seize_slow` completes. -/
theorem seizeSlow [Fintype T] (sound : Sound sys) (kept : sys.threads.Kept []) (mutex : M)
    (thread owner : T) (wait : Bool) (idle : sys.waitQueue thread = none)
    (owns : sys.owner mutex = some owner) :
    ∃ after, sys.seizeSlow mutex thread owner wait = some after ∧ Completed sys after := by
  have unchanged : Completed sys sys := ⟨sound, kept, fun _ _ _ => rfl⟩
  unfold System.seizeSlow
  cases wait with
  | false => exact ⟨_, rfl, unchanged.answer thread .unavailable⟩
  | true =>
    obtain ⟨status, res, meaning⟩ := sound.graph.path mutex thread idle
    simp only [res]
    cases status with
    | deadlockDetected => exact ⟨_, rfl, unchanged.answer thread .deadlock⟩
    | noDeadlock =>
      have acyclic : Acyclic (sys.graph.claim mutex thread).blocker := by
        by_contra cyclic
        exact absurd (meaning.mpr cyclic) (by simp)
      obtain ⟨after, updates, res, settled⟩ :=
        sound.inheritEnqueue mutex thread owner idle owns acyclic
      simp only [res]
      have waitQueue : after.waitQueue = update sys.waitQueue thread (some mutex) :=
        settled.frame.waitQueue
      have coherent : Coherent after.waitQueue after := waitQueue ▸ settled.coherent
      have blocked : Sound { after with threads := after.threads.block thread } := by
        refine (coherent.withThreads (after.threads.block thread).ready after.threads.kept).sound
          (sound.graph.wait mutex thread owner 0 () idle owns acyclic) settled.frame.owner
          waitQueue ?_
        intro tested
        show update after.threads.ready thread false tested = true ↔ after.waitQueue tested = none
        rw [waitQueue, settled.frame.ready]
        by_cases same : tested = thread
        · simp [same]
        · simp [same, sound.ready]
      refine ⟨_, rfl, Completed.answer ⟨blocked.rescheduled updates,
        ((settled.kept kept).block thread).update blocked.threads, ?_⟩ thread .successful⟩
      intro tested _ outside
      exact (System.update_kept _ updates tested outside).trans (congrFun settled.frame.kept tested)

omit [DecidableEq T] in
/-- A mutex without waiting threads changes its owner. -/
theorem own (sound : Sound sys) {mutex : M} (empty : (sys.queue mutex).contributors = [])
    (owner : Option T) : Sound { sys with owner := update sys.owner mutex owner } := by
  have graph := sound.graph.own mutex owner () (by simp [System.graph, empty])
  refine Coherent.sound ⟨{ sound with }, sound.threads, ?_⟩ graph rfl rfl sound.ready
  intro tested node prio
  rw [sound.contributors]
  cases node with
  | none => rfl
  | some other =>
    by_cases here : other = mutex
    · simp [System.Contributes, here, empty]
    · simp [System.Contributes, here]

omit [DecidableEq T] in
theorem nest (sound : Sound sys) (mutex : M) (nestLevel : Nat) :
    Sound { sys with nestLevel := update sys.nestLevel mutex nestLevel } :=
  Coherent.sound ⟨{ sound with }, sound.threads, sound.contributors⟩ sound.graph rfl rfl sound.ready

/-- `_CORE_recursive_mutex_Seize` completes. -/
theorem seize [Fintype T] (sound : Sound sys) (kept : sys.threads.Kept []) (mutex : M)
    (thread : T) (wait : Bool) (idle : sys.waitQueue thread = none) :
    ∃ after, sys.seize mutex thread wait = some after ∧ Completed sys after := by
  unfold System.seize
  cases owns : sys.owner mutex with
  | none =>
    have empty : (sys.queue mutex).contributors = [] := by
      by_contra filled
      obtain ⟨owner, held⟩ := sound.graph.owned mutex (by simpa [System.graph] using filled)
      rw [show sys.graph.owner mutex = none from owns] at held
      cases held
    exact ⟨_, rfl, (sound.own empty _).answer thread .successful, kept, fun _ _ _ => rfl⟩
  | some owner =>
    simp only
    split
    · exact ⟨_, rfl, (sound.nest mutex _).answer thread .successful, kept, fun _ _ _ => rfl⟩
    · exact sound.seizeSlow kept mutex thread owner wait idle owns

omit [DecidableEq T] [DecidableEq M] in
theorem steady (sound : Sound sys) : Steady sys :=
  ⟨sound.toCoherent, sound.graph, fun _ _ here => sound.blocked here⟩

end Sound

namespace Steady

omit [DecidableEq M] in
/-- What `_Priority_Extract` leaves of the queue of a mutex. -/
theorem extracted (sound : Steady sys) (mutex : M) (thread : T)
    (here : sys.waitQueue thread = some mutex) :
    let left := (sys.queue mutex).extractNonEmpty thread (sys.threads.effective thread)
    left.1.contributors = KeyedChain.remove thread (sys.queue mutex).contributors ∧
    (left.1.contributors ≠ [] → left.1.Sound ∧
      (left.2 = true ↔ left.1.priority ≠ (sys.queue mutex).priority)) ∧
    (left.1.contributors = [] → left.1.priority = (sys.queue mutex).priority) := by
  intro left
  have member : (thread, sys.threads.effective thread) ∈ (sys.queue mutex).contributors :=
    (sound.waiting mutex thread _).mpr ⟨here, rfl⟩
  have whole := sound.queues mutex (List.ne_nil_of_mem member)
  have own : ∀ key, (thread, key) ∈ (sys.queue mutex).contributors ↔
      key = sys.threads.effective thread := by
    intro key
    rw [sound.waiting]
    simp [here]
  by_cases empty : KeyedChain.remove thread (sys.queue mutex).contributors = []
  · have shape : left = (⟨[], (sys.queue mutex).priority⟩, false) := by
      simp [left, Aggregation.extractNonEmpty, empty]
    rw [shape]
    exact ⟨empty.symm, fun filled => absurd rfl filled, fun _ => rfl⟩
  · obtain ⟨other, inside⟩ := List.exists_mem_of_ne_nil _ empty
    have valid : (Action.remove thread (sys.threads.effective thread)).Valid
        (sys.queue mutex).contributors :=
      ⟨own, other, (KeyedChain.mem_remove ..).mp inside⟩
    obtain ⟨kept, contributors, flag⟩ := whole.perform
      (.remove thread (sys.threads.effective thread)) valid
    refine ⟨contributors, fun _ => ⟨kept, flag⟩, ?_⟩
    intro none
    exact absurd (contributors.symm.trans none) empty

/-- The extract operation of the queue completes. -/
theorem extract [Fintype T] (sound : Steady sys) (mutex : M) (thread : T)
    (here : sys.waitQueue thread = some mutex) :
    ∃ after updates, sys.extract mutex thread = some (after, updates) ∧
      Settled (update sys.waitQueue thread none) sys [] after updates := by
  obtain ⟨removed, filled, drained⟩ := sound.extracted mutex thread here
  obtain ⟨owner, owns⟩ : ∃ owner, sys.owner mutex = some owner := sound.graph.blocked here
  have before : (sys.queue mutex).contributors ≠ [] :=
    List.ne_nil_of_mem ((sound.waiting mutex thread _).mpr ⟨here, rfl⟩)
  have queued := sound.toQueued.leave here _ (fun some => (filled some).1) removed
  have agree : ∀ other, other ≠ thread →
      sys.waitQueue other = update sys.waitQueue thread none other :=
    fun other ne => (update_of_ne ne ..).symm
  have blocked : ∀ other tested, other ≠ thread →
      update sys.waitQueue thread none other = some tested →
      sys.threads.ready other = false := by
    intro other tested ne waits
    rw [update_of_ne ne] at waits
    exact sound.blocked other tested waits
  have owned : ∀ other tested, update sys.waitQueue thread none other = some tested →
      ∃ holder, sys.owner tested = some holder := by
    intro other tested waits
    by_cases same : other = thread
    · simp [same] at waits
    · rw [update_of_ne same] at waits
      exact sound.graph.blocked waits
  unfold System.extract Aggregation.extract
  by_cases empty : ((sys.queue mutex).extractNonEmpty thread
      (sys.threads.effective thread)).1.contributors = []
  · have pending := sound.toCoherent.requeue_remove owns queued before empty
    rw [← drained empty] at pending
    obtain ⟨after, later, res, settled⟩ := pending.run [] (by simp) sound.graph.acyclic thread
      mutex here owns agree blocked owned
    simp only [empty, owns]
    exact ⟨after, later, res, settled.requeued⟩
  · obtain ⟨-, flag⟩ := filled empty
    have isEmpty : ((sys.queue mutex).extractNonEmpty thread
        (sys.threads.effective thread)).1.contributors.isEmpty = false := by simpa using empty
    simp only [isEmpty]
    cases changed : ((sys.queue mutex).extractNonEmpty thread (sys.threads.effective thread)).2 with
    | true =>
      have pending := sound.toCoherent.requeue_change owns queued empty
      obtain ⟨after, later, res, settled⟩ := pending.run [] (by simp) sound.graph.acyclic thread
        mutex here owns agree blocked owned
      simp only [owns]
      exact ⟨after, later, res, settled.requeued⟩
    | false =>
      have same : ((sys.queue mutex).extractNonEmpty thread
          (sys.threads.effective thread)).1.priority = (sys.queue mutex).priority := by
        by_contra ne
        rw [flag.mpr ne] at changed
        cases changed
      exact ⟨_, _, rfl, ⟨⟨rfl, rfl, rfl, rfl, rfl, rfl, rfl⟩,
        sound.toCoherent.requeue_same queued before empty same, id⟩⟩

end Steady

namespace Sound

omit [DecidableEq M] in
/-- A thread that waited for a mutex is unblocked after the updates; nothing else is left to
do. -/
theorem wake {Q : Type*} {graph : Deadlock.System T M Q} (sound : Sound sys)
    (mutex : M) (thread : T)
    (here : sys.waitQueue thread = some mutex) (after : System T M P) (updates : List T)
    (coherent : Coherent after.waitQueue after) (told : after.threads.Kept updates)
    (ready : after.threads.ready = sys.threads.ready)
    (same : after.threads.kept = sys.threads.kept)
    (waitQueue : after.waitQueue = update sys.waitQueue thread none)
    (free : Deadlock.Sound graph) (owner : after.owner = graph.owner)
    (waits : after.waitQueue = graph.waitQueue) :
    Completed sys { after.update updates with
      threads := (after.update updates).threads.unblock thread } := by
  have updated := coherent.update updates
  refine ⟨?_, (told.update coherent.threads).unblock updated.threads thread, ?_⟩
  · refine (updated.withThreads ((after.update updates).threads.unblock thread).ready
      ((after.update updates).threads.unblock thread).kept).sound free owner waits ?_
    intro tested
    show update (after.update updates).threads.ready thread true tested = true ↔
      after.waitQueue tested = none
    rw [System.update_ready, ready, waitQueue]
    by_cases self : tested = thread
    · simp [self]
    · simp [self, sound.ready]
  · intro tested active outside
    have ne : tested ≠ thread := by
      rintro rfl
      rw [sound.blocked here] at active
      cases active
    refine (update_of_ne ne ..).trans ?_
    exact (System.update_kept _ updates tested outside).trans (congrFun same tested)

/-- A timeout of a waiting thread completes. -/
theorem timeout [Fintype T] (sound : Sound sys) (kept : sys.threads.Kept []) (thread : T) :
    ∃ after, sys.timeout thread = some after ∧ Completed sys after := by
  unfold System.timeout
  cases here : sys.waitQueue thread with
  | none => exact ⟨_, rfl, sound, kept, fun _ _ _ => rfl⟩
  | some mutex =>
    obtain ⟨after, updates, res, settled⟩ := sound.steady.extract mutex thread here
    simp only [res]
    have waitQueue : update after.waitQueue thread none =
        update sys.waitQueue thread none := by rw [settled.frame.waitQueue]
    have owner : after.owner = update sys.graph.owner mutex (sys.owner mutex) := by
      rw [settled.frame.owner]
      exact (Function.update_eq_self ..).symm
    have coherent : Coherent (update after.waitQueue thread none) { after with
          waitQueue := update after.waitQueue thread none
          returnCode := update after.returnCode thread .timeout } := by
      rw [waitQueue]
      exact ⟨{ settled.coherent with },
        settled.coherent.threads, settled.coherent.contributors⟩
    exact ⟨_, rfl, sound.wake mutex thread here _ updates coherent (settled.kept kept)
      settled.frame.ready settled.frame.kept waitQueue
      (sound.graph.leave mutex thread () (sys.owner mutex) here (.inr rfl)) owner waitQueue⟩

omit [DecidableEq T] in
/-- The node of a mutex moves to the new owner, if there are still waiting threads. -/
theorem handover (queue : Aggregation T P) (waitQueue : T → Option M) (mutex : M) (newOwner : T)
    (threads : Threads T (Option M) P)
    (queued : Queued waits { sys with queue := update sys.queue mutex queue })
    (coherent : threads.Sound)
    (same : ∀ thread tested, waits thread = some tested → threads.effective thread = sys.threads.effective thread)
    (contributors : ∀ tested node key, (node, key) ∈ (threads.aggregation tested).contributors ↔ sys.Contributes tested node key ∧ node ≠ some mutex ∨ tested = newOwner ∧ node = some mutex ∧ queue.contributors ≠ [] ∧ key = queue.priority)
    :
    Coherent waits { sys with
      threads := threads
      queue := update sys.queue mutex queue
      owner := update sys.owner mutex (some newOwner)
      waitQueue := waitQueue } := by
  have moved := queued.congr threads same
  refine ⟨{ moved with }, coherent, ?_⟩
  intro tested node key
  rw [contributors]
  cases node with
  | none => simp [System.Contributes]
  | some other =>
    by_cases here : other = mutex
    · subst here
      simp [System.Contributes, @eq_comm T tested newOwner]
    · simp [System.Contributes, here]

/-- The mutex is handed over to a waiting thread, with the priority of the others that
wait. -/
theorem inheritSurrender (sound : Sound sys) (mutex : M) (thread newOwner : T)
    (idle : sys.waitQueue thread = none) (owns : sys.owner mutex = some thread)
    (here : sys.waitQueue newOwner = some mutex) :
    ∃ after updates, sys.inheritSurrender mutex thread newOwner = some (after, updates) ∧
      Frame sys after ∧ (sys.threads.Kept [] → after.threads.Kept updates) ∧
      Coherent (update sys.waitQueue newOwner none) { after with
        owner := update after.owner mutex (some newOwner)
        waitQueue := update after.waitQueue newOwner none } := by
  have ne : newOwner ≠ thread := by
    rintro rfl
    rw [idle] at here
    cases here
  have before : (sys.queue mutex).contributors ≠ [] :=
    List.ne_nil_of_mem ((sound.waiting mutex newOwner _).mpr ⟨here, rfl⟩)
  obtain ⟨threads, updates, changed, res, performed, kept, collected⟩ :=
    surrenderAction_spec sys.threads [] thread
      (.remove (some mutex) (sys.queue mutex).priority) sound.threads
      (sound.toCoherent.removable owns before) (by simp)
  have prio : threads.effective newOwner = sys.threads.effective newOwner := by
    rw [Threads.effective, Threads.effective, performed.others newOwner ne]
  have released : ∀ tested node key, (node, key) ∈ (threads.aggregation tested).contributors ↔
        sys.Contributes tested node key ∧ node ≠ some mutex := by
    intro tested node key
    rw [performed.mem_iff, Action.mem_remove, sound.contributors, sound.contributors]
    by_cases same : tested = thread
    · simp [same]
    · simp only [same, false_and, false_or, ne_eq, not_false_eq_true, true_and, iff_self_and]
      rintro contributes rfl
      exact same (Option.some.inj (contributes.1.symm.trans owns))
  have waiting : ∀ other tested, update sys.waitQueue newOwner none other = some tested →
      other ≠ newOwner ∧ other ≠ thread := by
    intro other tested waits
    constructor
    · rintro rfl
      simp at waits
    · rintro rfl
      rw [update_of_ne (Ne.symm ne), idle] at waits
      cases waits
  obtain ⟨removed, filled, -⟩ := sound.steady.extracted mutex newOwner here
  have queued := sound.toQueued.leave here _ (fun some => (filled some).1) removed
  simp only [System.inheritSurrender, res, bind_eq_bind, bind_some, prio]
  by_cases empty : ((sys.queue mutex).extractNonEmpty newOwner
      (sys.threads.effective newOwner)).1.contributors = []
  · simp only [empty]
    refine ⟨_, _, rfl, ⟨rfl, rfl, rfl, rfl, rfl, performed.ready, performed.kept⟩, kept, ?_⟩
    refine handover _ _ mutex newOwner threads queued performed.sound ?_ ?_
    · intro other tested waits
      rw [Threads.effective, Threads.effective,
        performed.others other (waiting other tested waits).2]
    · intro tested node key
      rw [released]
      simp [empty]
  · have isEmpty : ((sys.queue mutex).extractNonEmpty newOwner
        (sys.threads.effective newOwner)).1.contributors.isEmpty = false := by simpa using empty
    have room : updates.length < 2 := by rcases collected with rfl | rfl <;> simp
    obtain ⟨last, later, changed, res, given, kept', -⟩ := surrenderAction_spec threads updates
      newOwner (.add (some mutex) ((sys.queue mutex).extractNonEmpty newOwner
        (sys.threads.effective newOwner)).1.priority) performed.sound trivial room
    simp only [isEmpty, res]
    refine ⟨_, _, rfl, ⟨rfl, rfl, rfl, rfl, rfl, given.ready.trans performed.ready,
      given.kept.trans performed.kept⟩, fun before => kept' (kept before), ?_⟩
    refine handover _ _ mutex newOwner last queued given.sound ?_ ?_
    · intro other tested waits
      rw [Threads.effective, Threads.effective, given.others other (waiting other tested waits).1,
        performed.others other (waiting other tested waits).2]
    · intro tested node key
      rw [given.mem_iff, Action.mem_add, released, released]
      by_cases same : tested = newOwner
      · simp [same, empty, or_comm]
      · simp [same]

/-- `_CORE_recursive_mutex_Surrender` completes. -/
theorem surrender (sound : Sound sys) (kept : sys.threads.Kept []) (mutex : M) (thread : T)
    (idle : sys.waitQueue thread = none) :
    ∃ after, sys.surrender mutex thread = some after ∧ Completed sys after := by
  unfold System.surrender
  split
  · exact ⟨_, rfl, sound.answer thread .notOwner, kept, fun _ _ _ => rfl⟩
  next held =>
  have owns : sys.owner mutex = some thread := not_not.mp held
  split
  · exact ⟨_, rfl, (sound.nest mutex _).answer thread .successful, kept, fun _ _ _ => rfl⟩
  cases first : (sys.queue mutex).contributors.head? with
  | none =>
    have empty : (sys.queue mutex).contributors = [] := List.head?_eq_none_iff.mp first
    exact ⟨_, rfl, (sound.own empty none).answer thread .successful, kept, fun _ _ _ => rfl⟩
  | some head =>
    obtain ⟨newOwner, prio⟩ := head
    have here : sys.waitQueue newOwner = some mutex :=
      ((sound.waiting mutex newOwner prio).mp (List.mem_of_mem_head? first)).1
    obtain ⟨after, updates, res, frame, told, coherent⟩ :=
      sound.inheritSurrender mutex thread newOwner idle owns here
    simp only [res]
    have waitQueue : update after.waitQueue newOwner none =
        update sys.waitQueue newOwner none := by rw [frame.waitQueue]
    have owner : update after.owner mutex (some newOwner) =
        update sys.owner mutex (some newOwner) := by rw [frame.owner]
    rw [← waitQueue] at coherent
    have woken := sound.wake mutex newOwner here { after with
      owner := update after.owner mutex (some newOwner)
      waitQueue := update after.waitQueue newOwner none } updates coherent (told kept)
      frame.ready frame.kept waitQueue
      (sound.graph.leave mutex newOwner () (some newOwner) here (.inl rfl)) owner waitQueue
    exact ⟨_, rfl, woken.answer thread .successful⟩

/-- `_RTEMS_tasks_Set_priority` completes. -/
theorem changePriority [Fintype T] (sound : Sound sys) (kept : sys.threads.Kept [])
    (thread : T) (prio : P) :
    ∃ after, sys.changePriority thread prio = some after ∧ Completed sys after := by
  have pending : Pending sys.waitQueue { sys with
      realPriority := update sys.realPriority thread prio } thread
      (.change none prio) := by
    refine ⟨{ sound with }, sound.threads, ?_, ?_, trivial⟩
    · intro node key
      rw [Action.mem_change, sound.contributors]
      cases node with
      | none | some => simp [System.Contributes]
    · intro other ne node key
      rw [sound.contributors]
      cases node with
      | none => simp [System.Contributes, ne]
      | some mutex => simp [System.Contributes]
  obtain ⟨after, later, res, settled⟩ := Pending.apply
    { sys with realPriority := update sys.realPriority thread prio } pending
    sound.graph.acyclic
    (fun _ _ here => sound.blocked here) (fun _ _ here => sound.graph.blocked here)
  unfold System.changePriority
  simp only [res]
  have waitQueue : after.waitQueue = sys.waitQueue := settled.frame.waitQueue
  have coherent : Coherent after.waitQueue after := waitQueue ▸ settled.coherent
  have made : Sound after := by
    refine coherent.sound sound.graph settled.frame.owner waitQueue ?_
    rw [settled.frame.ready, waitQueue]
    exact sound.ready
  refine ⟨_, rfl, made.rescheduled later, (settled.kept kept).update made.threads, ?_⟩
  intro tested _ outside
  exact (System.update_kept _ later tested outside).trans (congrFun settled.frame.kept tested)

omit [DecidableEq T] [DecidableEq M] in
/-- The set of updates is no part of the invariant. -/
theorem withUpdated (sound : Sound sys) (updated : List T) :
    Sound { sys with updated := updated } :=
  Coherent.sound ⟨{ sound with }, sound.threads, sound.contributors⟩ sound.graph rfl rfl sound.ready

/-- One operation completes. -/
theorem step [Fintype T] (sound : Sound sys) (kept : sys.threads.Kept [])
    (op : Operation T M P) (permitted : Permitted sys op) :
    ∃ after, sys.step op = some after ∧ Completed sys after := by
  have clear := sound.withUpdated []
  have answers : ∀ after, Completed { sys with updated := [] } after → Completed sys after :=
    fun after completed => { completed with }
  cases op with
  | seize mutex thread wait =>
    obtain ⟨after, res, completed⟩ := clear.seize kept mutex thread wait permitted
    exact ⟨after, res, answers after completed⟩
  | surrender mutex thread =>
    obtain ⟨after, res, completed⟩ := clear.surrender kept mutex thread permitted
    exact ⟨after, res, answers after completed⟩
  | timeout thread =>
    obtain ⟨after, res, completed⟩ := clear.timeout kept thread
    exact ⟨after, res, answers after completed⟩
  | changePriority thread prio =>
    obtain ⟨after, res, completed⟩ := clear.changePriority kept thread prio
    exact ⟨after, res, answers after completed⟩

end Sound

end Steps

end Rtems.PriorityInherit
