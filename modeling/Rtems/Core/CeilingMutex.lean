import Rtems.Thread.Priority
import Rtems.ThreadQueue.Deadlock

/-!
# Priority ceiling mutexes

The priority node of an owned mutex contributes its ceiling to the priority of the owner.
The threads wait in the order of their priorities; a handover moves the node to the new
owner. Each operation collects the threads whose priority changed in its queue context and
passes them to the scheduler at its end. The ceiling of a mutex can be set at any time;
then the changes are collected in one queue context and passed on from another one.
-/

namespace Rtems.CeilingMutex

open Transition Successor
open Option (bind_eq_bind bind_some)
open Rtems.Priority
open Rtems.ThreadQueue
open Function (update update_of_ne update_self)
open Prod (fst mk)

universe u
variable {T M P : Type u}

/-- The mutexes and the threads. The own node of a thread has no mutex. -/
structure System (T M P : Type u) where
  threads : Threads T (Option M) P
  realPriority : T → P
  priorityCeiling : M → P
  owner : M → Option T
  nestLevel : M → Nat
  queue : M → List (T × P)
  waitQueue : T → Option M
  returnCode : T → Deadlock.Status

/-- The operations. -/
inductive Operation (T M P : Type u) where
  | seize (mutex : M) (thread : T) (wait : Bool)
  | surrender (mutex : M) (thread : T)
  | timeout (thread : T)
  | changePriority (thread : T) (priority : P)
  | setPriority (mutex : M) (priority : P)

/-- The owners and the waiting threads. -/
def System.graph (system : System T M P) : ThreadQueue.Deadlock.System T M Unit where
  owner := system.owner
  nestLevel := system.nestLevel
  queue := fun mutex => (system.queue mutex).map fst
  waitQueue := system.waitQueue
  returnCode := system.returnCode
  priorities := ()

section Operations

variable [DecidableEq T] [DecidableEq M] [LinearOrder P]

section

variable (system : System T M P)

/-- The operation returns to a thread. -/
def System.return (thread : T) (status : Deadlock.Status) : System T M P :=
  { system with returnCode := update system.returnCode thread status }

/-- `_Thread_Priority_apply`. A change of the priority moves a waiting thread in its queue
(`_Thread_queue_Priority_priority_actions`) and goes no further. -/
def System.apply (updates : List T) (thread : T) (action : Action (Option M) P) : Option
    (System T M P × List T) :=
  let result := system.threads.perform thread action
  if result.2 then do
    let updates ← addPriorityUpdate updates thread
    match system.waitQueue thread with
    | none => some ({ system with threads := result.1 }, updates)
    | some mutex =>
        some ({ system with
          threads := result.1
          queue := update system.queue mutex
            (KeyedChain.insert thread (result.1.effective thread)
              (KeyedChain.remove thread (system.queue mutex))) }, updates)
  else some ({ system with threads := result.1 }, updates)

/-- `_Thread_Priority_update`. -/
def System.update (system : System T M P) (updates : List T) : System T M P :=
  { system with threads := system.threads.update updates }

/-- `_CORE_ceiling_mutex_Set_owner`. -/
def System.setOwner (mutex : M) (thread : T) : Option (System T M P) :=
  if system.threads.effective thread < system.priorityCeiling mutex then
    some (system.return thread .refused)
  else do
    let (system, updates) ←
      { system with owner := Function.update system.owner mutex (some thread) }.apply [] thread
        (.add (some mutex) (system.priorityCeiling mutex))
    some ((system.update updates).return thread .successful)

/-- `_CORE_mutex_Seize_slow` with `_Thread_queue_Enqueue`. -/
def System.seizeSlow [Fintype T] (system : System T M P) (mutex : M) (thread : T) (wait : Bool) :
    Option (System T M P) :=
  if wait then
    match (system.graph.claim mutex thread).pathAcquire thread (Fintype.card T) mutex with
    | none => none
    | some .deadlockDetected => some (system.return thread .deadlock)
    | some .noDeadlock =>
        some ({ system with
          threads := system.threads.block thread
          queue := Function.update system.queue mutex
            (KeyedChain.insert thread (system.threads.effective thread) (system.queue mutex))
          waitQueue := Function.update system.waitQueue thread (some mutex) }.return thread
            .successful)
  else some (system.return thread .unavailable)

/-- `_CORE_ceiling_mutex_Seize` with `_CORE_recursive_mutex_Seize_nested`. -/
def System.seize [Fintype T] (system : System T M P) (mutex : M) (thread : T) (wait : Bool) :
    Option (System T M P) :=
  match system.owner mutex with
  | none => system.setOwner mutex thread
  | some owner =>
      if owner = thread then
        some ({ system with
          nestLevel := Function.update system.nestLevel mutex
            ((system.nestLevel mutex + 1) % 2 ^ 32) }.return thread .successful)
      else system.seizeSlow mutex thread wait

/-- `_Thread_queue_Surrender_priority_ceiling`. -/
def System.surrenderPriorityCeiling (mutex : M) (thread : T) : Option (System T M P) := do
  let (system, updates) ← system.apply [] thread
    (.remove (some mutex) (system.priorityCeiling mutex))
  match (system.queue mutex).head? with
  | none =>
      let system := { system with owner := Function.update system.owner mutex none }
      some ((system.update updates).return thread .successful)
  | some (newOwner, _) =>
      let system := { system with
        queue := Function.update system.queue mutex
          (KeyedChain.remove newOwner (system.queue mutex))
        owner := Function.update system.owner mutex (some newOwner)
        waitQueue := Function.update system.waitQueue newOwner none }
      let (system, updates) ← system.apply updates newOwner
        (.add (some mutex) (system.priorityCeiling mutex))
      let system := system.update updates
      some ({ system with threads := system.threads.unblock newOwner }.return thread .successful)

/-- `_CORE_ceiling_mutex_Surrender`. -/
def System.surrender (mutex : M) (thread : T) : Option (System T M P) :=
  if system.owner mutex ≠ some thread then some (system.return thread .notOwner)
  else if system.nestLevel mutex > 0 then
    some ({ system with
      nestLevel := Function.update system.nestLevel mutex
        (system.nestLevel mutex - 1) }.return thread .successful)
  else system.surrenderPriorityCeiling mutex thread

/-- `_Thread_Continue` with `STATUS_TIMEOUT` for a waiting thread. -/
def System.timeout (system : System T M P) (thread : T) : System T M P :=
  match system.waitQueue thread with
  | none => system
  | some mutex =>
      { system with
        threads := system.threads.unblock thread
        queue := Function.update system.queue mutex
          (KeyedChain.remove thread (system.queue mutex))
        waitQueue := Function.update system.waitQueue thread none }.return thread .timeout

/-- `_RTEMS_tasks_Set_priority`. -/
def System.changePriority (thread : T) (priority : P) : Option (System T M P) := do
  let (system, updates) ←
    { system with realPriority := Function.update system.realPriority thread priority }.apply []
      thread (.change none priority)
  some (system.update updates)

/-- `_CORE_ceiling_mutex_Set_priority`. The queue context that collects the updates is a
local one. -/
def System.ceilingMutexSetPriority (mutex : M) (priority : P) : Option (System T M P) :=
  let changed := { system with
    priorityCeiling := Function.update system.priorityCeiling mutex priority }
  match system.owner mutex with
  | none => some changed
  | some owner => do
      let (system, _) ← changed.apply [] owner (.change (some mutex) priority)
      some system

/-- `_Semaphore_Set_priority` with another priority. -/
def System.setPriority (mutex : M) (priority : P) : Option (System T M P) := do
  let updates := []
  let system ← system.ceilingMutexSetPriority mutex priority
  some (system.update updates)

end

/-- One operation. -/
def System.step [Fintype T] (system : System T M P) : Operation T M P → Option (System T M P)
  | .seize mutex thread wait => system.seize mutex thread wait
  | .surrender mutex thread => system.surrender mutex thread
  | .timeout thread => some (system.timeout thread)
  | .changePriority thread priority => system.changePriority thread priority
  | .setPriority mutex priority => system.setPriority mutex priority

end Operations

/-- A waiting thread calls nothing and no other thread times out. -/
def Permitted (system : System T M P) : Operation T M P → Prop
  | .seize _ thread _ => system.waitQueue thread = none
  | .surrender _ thread => system.waitQueue thread = none
  | .timeout thread => system.waitQueue thread ≠ none
  | .changePriority _ _ => True
  | .setPriority _ _ => True

/-- All mutexes are free and all threads are ready with their own priorities. -/
structure Initial [LinearOrder P] (system : System T M P) : Prop where
  aggregation : ∀ thread, system.threads.aggregation thread =
    .initializeOne none (system.realPriority thread)
  value : ∀ thread, system.threads.value thread = system.realPriority thread
  ready : ∀ thread, system.threads.ready thread = true
  kept : ∀ thread, system.threads.kept thread = system.realPriority thread
  owner : ∀ mutex, system.owner mutex = none
  nestLevel : ∀ mutex, system.nestLevel mutex = 0
  queue : ∀ mutex, system.queue mutex = []
  waitQueue : ∀ thread, system.waitQueue thread = none

/-- The nodes that contribute to the priority of a thread. -/
def System.Contributes (system : System T M P) (thread : T) : Option M → P → Prop
  | none, priority => priority = system.realPriority thread
  | some mutex, priority =>
      system.owner mutex = some thread ∧ priority = system.priorityCeiling mutex

/-- The aggregations and the queues are those of the owners and the waiting threads. -/
structure Exact [LinearOrder P] (system : System T M P) : Prop where
  threads : system.threads.Sound
  contributors : ∀ thread node priority,
    (node, priority) ∈ (system.threads.aggregation thread).contributors ↔
      system.Contributes thread node priority
  graph : ThreadQueue.Deadlock.Sound system.graph

/-- The invariant of a run, up to the priorities under which the threads are kept. -/
structure Sound [LinearOrder P] (system : System T M P) : Prop extends Exact system where
  ready : ∀ thread, system.threads.ready thread = true ↔ system.waitQueue thread = none

variable {sys : System T M P}

theorem Initial.sound [LinearOrder P] (initial : Initial sys) : Sound sys := by
  refine ⟨⟨⟨?_, ?_⟩, ?_, ?_⟩, ?_⟩
  · intro thread
    rw [initial.aggregation]
    exact Aggregation.initializeOne_sound ..
  · intro thread
    rw [initial.value, Threads.effective, initial.aggregation]
    rfl
  · intro thread node prio
    rw [initial.aggregation]
    cases node with
    | none => simp [Aggregation.initializeOne, System.Contributes]
    | some mutex => simp [Aggregation.initializeOne, System.Contributes, initial.owner]
  · apply ThreadQueue.Deadlock.Initial.sound
    exact ⟨initial.owner, initial.nestLevel, by simp [System.graph, initial.queue],
      initial.waitQueue⟩
  · simp [initial.ready, initial.waitQueue]

theorem Initial.kept_all [LinearOrder P] (initial : Initial sys) : sys.threads.Kept [] := by
  intro thread _ _
  rw [initial.kept, Threads.effective, initial.aggregation]
  rfl

section Steps

variable [DecidableEq T] [DecidableEq M] [LinearOrder P]

/-- What `_Thread_Priority_apply` does. -/
structure Applied (system : System T M P) (updates : List T) (thread : T)
    (action : Action (Option M) P) (after : System T M P) (later : List T) : Prop where
  performed : ∃ changed, Threads.Performed system.threads thread action after.threads changed
  kept : system.threads.Kept updates → after.threads.Kept later
  frame : after = { system with threads := after.threads, queue := after.queue }
  queue : ∀ mutex, ((after.queue mutex).map fst).Perm ((system.queue mutex).map fst)
  idle : system.waitQueue thread = none → after.queue = system.queue
  later : later = updates ∨ later = updates ++ [thread]

/-- `_Thread_Priority_apply` completes if there is room in the set. -/
theorem System.apply_spec (sys : System T M P) (updates : List T) (thread : T)
    (action : Action (Option M) P) (sound : sys.threads.Sound)
    (queued : ∀ mutex, sys.waitQueue thread = some mutex →
      ((sys.queue mutex).map fst).Nodup ∧ thread ∈ (sys.queue mutex).map fst)
    (valid : action.Valid (sys.threads.aggregation thread).contributors)
    (room : updates.length < 2) :
    ∃ after later, sys.apply updates thread action = some (after, later) ∧
      Applied sys updates thread action after later := by
  have performed := sound.perform thread action valid
  unfold System.apply
  cases changed : (sys.threads.perform thread action).2 with
  | false =>
    rw [changed] at performed
    simp only [changed]
    exact ⟨_, _, rfl, ⟨⟨false, performed⟩, fun kept => performed.kept_unchanged kept, rfl,
      fun _ => .refl _, fun _ => rfl, .inl rfl⟩⟩
  | true =>
    rw [changed] at performed
    have added : addPriorityUpdate updates thread = some (updates ++ [thread]) := by
      simp [addPriorityUpdate, room]
    simp only [changed, added]
    cases waits : sys.waitQueue thread with
    | none =>
      exact ⟨_, _, rfl, ⟨⟨true, performed⟩, fun kept => performed.kept_changed kept, rfl,
        fun _ => .refl _, fun _ => rfl, .inr rfl⟩⟩
    | some mutex =>
      refine ⟨_, _, rfl, ⟨⟨true, performed⟩, fun kept => performed.kept_changed kept, rfl, ?_,
        ?_, .inr rfl⟩⟩
      · intro tested
        obtain ⟨once, member⟩ := queued mutex waits
        by_cases here : tested = mutex
        · subst here
          show ((Function.update sys.queue tested _ tested).map fst).Perm _
          rw [update_self]
          exact KeyedChain.replace_nodes thread _ (sys.queue tested) once member
        · show ((Function.update sys.queue mutex _ tested).map fst).Perm _
          rw [update_of_ne here]
      · intro idle
        rw [waits] at idle
        cases idle

variable {after : System T M P} {updates later : List T} {thread : T} {action : Action (Option M) P}

omit [DecidableEq T] in
/-- Only the priorities change if the thread does not wait. -/
theorem Applied.shape (applied : Applied sys updates thread action after later)
    (idle : sys.waitQueue thread = none) : after = { sys with threads := after.threads } := by
  have shape := applied.frame
  rwa [applied.idle idle] at shape

omit [DecidableEq T] in
/-- The ready threads after the action. -/
theorem Applied.ready (applied : Applied sys updates thread action after later) :
    after.threads.ready = sys.threads.ready := by
  obtain ⟨changed, performed⟩ := applied.performed
  exact performed.ready

/-- An action after which the contributors are those of the system. -/
theorem Applied.exact (applied : Applied sys updates thread action after later)
    (graph : ThreadQueue.Deadlock.Sound sys.graph)
    (own : ∀ node prio, (node, prio) ∈ action.apply (sys.threads.aggregation thread).contributors ↔ sys.Contributes thread node prio)
    (others : ∀ other, other ≠ thread → ∀ node prio, (node, prio) ∈ (sys.threads.aggregation other).contributors ↔ sys.Contributes other node prio)
    :
    Exact after := by
  obtain ⟨changed, performed⟩ := applied.performed
  have owner : after.owner = sys.owner := by rw [applied.frame]
  have waitQueue : after.waitQueue = sys.waitQueue := by rw [applied.frame]
  have contributes : after.Contributes = sys.Contributes := by
    rw [applied.frame]
    rfl
  refine ⟨performed.sound, ?_, graph.congr owner waitQueue applied.queue⟩
  intro tested node prio
  rw [contributes]
  by_cases same : tested = thread
  · subst same
    rw [performed.contributors]
    exact own node prio
  · rw [performed.others tested same]
    exact others tested same node prio

omit [DecidableEq M] in
/-- The scheduler does not change the effective priorities. -/
theorem Exact.update (exact : Exact sys) (updates : List T) : Exact (sys.update updates) := by
  have same := sys.threads.update_eq updates
  refine ⟨⟨?_, ?_⟩, ?_, exact.graph.congr rfl rfl fun _ => .refl _⟩
  · rw [System.update, same]
    exact exact.threads.aggregation
  · rw [System.update, same]
    exact exact.threads.value
  · rw [System.update, same]
    exact exact.contributors

namespace Sound

variable {sys : System T M P}

omit [DecidableEq M] in
/-- A status is no part of the invariant. -/
theorem answer (sound : Sound sys) (thread : T) (status : Deadlock.Status) :
    Sound (sys.return thread status) :=
  ⟨⟨sound.threads, sound.contributors, sound.graph.congr rfl rfl fun _ => .refl _⟩, sound.ready⟩

omit [DecidableEq T] in
theorem nest (sound : Sound sys) (mutex : M) (nestLevel : Nat) :
    Sound { sys with nestLevel := update sys.nestLevel mutex nestLevel } :=
  ⟨⟨sound.threads, sound.contributors, sound.graph.congr rfl rfl fun _ => .refl _⟩, sound.ready⟩

omit [DecidableEq M] in
/-- The scheduler does not change which threads are ready. -/
theorem rescheduled (sound : Sound sys) (updates : List T) : Sound (sys.update updates) := by
  refine ⟨sound.toExact.update updates, ?_⟩
  rw [System.update, sys.threads.update_eq updates]
  exact sound.ready

section

omit [DecidableEq T] [DecidableEq M]

/-- A waiting thread is in the queue, once. -/
theorem queued (sound : Sound sys) (thread : T) (mutex : M)
    (waits : sys.waitQueue thread = some mutex) :
    ((sys.queue mutex).map fst).Nodup ∧ thread ∈ (sys.queue mutex).map fst :=
  ⟨sound.graph.once mutex, (sound.graph.queued mutex thread).mpr waits⟩

/-- No thread waits for a free mutex. -/
theorem free (sound : Sound sys) (mutex : M) (free : sys.owner mutex = none) :
    sys.graph.queue mutex = [] := by
  by_contra filled
  obtain ⟨owner, owns⟩ := sound.graph.owned mutex filled
  rw [show sys.graph.owner mutex = none from free] at owns
  cases owns

end

/-- `_CORE_ceiling_mutex_Set_owner` completes. -/
theorem setOwner (sound : Sound sys) (kept : sys.threads.Kept []) (mutex : M) (thread : T)
    (free : sys.owner mutex = none) :
    ∃ after, sys.setOwner mutex thread = some after ∧ Sound after ∧ after.threads.Kept [] := by
  unfold System.setOwner
  split
  · exact ⟨_, rfl, sound.answer thread .refused, kept⟩
  obtain ⟨after, later, res, applied⟩ := System.apply_spec
    { sys with owner := update sys.owner mutex (some thread) } [] thread
    (.add (some mutex) (sys.priorityCeiling mutex)) sound.threads
    (fun tested waits => sound.queued thread tested waits) trivial (by simp)
  have graph := sound.graph.own mutex (some thread) () (sound.free mutex free)
  have made : Sound after := by
    refine ⟨applied.exact (graph.congr rfl rfl fun _ => .refl _) ?_ ?_, ?_⟩
    · intro node prio
      rw [Action.mem_add, sound.contributors]
      cases node with
      | none => simp [System.Contributes]
      | some tested =>
        by_cases here : tested = mutex
        · subst here
          simp [System.Contributes]
        · simp [System.Contributes, here]
    · intro other ne node prio
      rw [sound.contributors]
      cases node with
      | none => simp [System.Contributes]
      | some tested =>
        by_cases here : tested = mutex
        · subst here
          simp [System.Contributes, free, Ne.symm ne]
        · simp [System.Contributes, here]
    · rw [applied.ready, applied.frame]
      exact sound.ready
  simp only [res]
  exact ⟨_, rfl, (made.rescheduled later).answer thread .successful,
    (applied.kept kept).update made.threads⟩

/-- A thread waits for an owned mutex without a cycle. -/
theorem wait (sound : Sound sys) (mutex : M) (thread owner : T)
    (idle : sys.waitQueue thread = none) (owns : sys.owner mutex = some owner)
    (acyclic : Acyclic (sys.graph.claim mutex thread).blocker) :
    Sound { sys with
      threads := sys.threads.block thread
      queue := update sys.queue mutex
        (KeyedChain.insert thread (sys.threads.effective thread) (sys.queue mutex))
      waitQueue := update sys.waitQueue thread (some mutex) } := by
  have graph := sound.graph.wait mutex thread owner 0 () idle owns acyclic
  refine ⟨⟨⟨sound.threads.aggregation, sound.threads.value⟩, sound.contributors,
    graph.congr rfl rfl ?_⟩, ?_⟩
  · intro tested
    show ((update sys.queue mutex _ tested).map fst).Perm (update sys.graph.queue mutex _ tested)
    by_cases here : tested = mutex
    · subst here
      rw [update_self, update_self]
      exact KeyedChain.insert_nodes ..
    · rw [update_of_ne here, update_of_ne here]
      exact .refl _
  · intro tested
    show update sys.threads.ready thread false tested = true ↔
      update sys.waitQueue thread (some mutex) tested = none
    by_cases same : tested = thread
    · simp [same]
    · simp [same, sound.ready]

/-- `_CORE_mutex_Seize_slow` completes. -/
theorem seizeSlow [Fintype T] (sound : Sound sys) (kept : sys.threads.Kept []) (mutex : M)
    (thread owner : T) (wait : Bool) (idle : sys.waitQueue thread = none)
    (owns : sys.owner mutex = some owner) :
    ∃ after, sys.seizeSlow mutex thread wait = some after ∧ Sound after ∧ after.threads.Kept [] := by
  unfold System.seizeSlow
  cases wait with
  | false => exact ⟨_, rfl, sound.answer thread .unavailable, kept⟩
  | true =>
    obtain ⟨status, res, meaning⟩ := sound.graph.path mutex thread idle
    simp only [res]
    cases status with
    | deadlockDetected => exact ⟨_, rfl, sound.answer thread .deadlock, kept⟩
    | noDeadlock =>
      have acyclic : Acyclic (sys.graph.claim mutex thread).blocker := by
        by_contra cyclic
        exact absurd (meaning.mpr cyclic) (by simp)
      refine ⟨_, rfl, (sound.wait mutex thread owner idle owns acyclic).answer thread .successful,
        kept.block thread⟩

/-- `_CORE_ceiling_mutex_Seize` completes. -/
theorem seize [Fintype T] (sound : Sound sys) (kept : sys.threads.Kept []) (mutex : M)
    (thread : T) (wait : Bool) (idle : sys.waitQueue thread = none) :
    ∃ after, sys.seize mutex thread wait = some after ∧ Sound after ∧ after.threads.Kept [] := by
  unfold System.seize
  cases owns : sys.owner mutex with
  | none => exact sound.setOwner kept mutex thread owns
  | some owner =>
    simp only
    split
    · exact ⟨_, rfl, (sound.nest mutex _).answer thread .successful, kept⟩
    · exact sound.seizeSlow kept mutex thread owner wait idle owns

omit [DecidableEq T] [DecidableEq M] in
/-- The node of an owned mutex can be removed. -/
theorem removable (sound : Sound sys) (mutex : M) (thread : T)
    (owns : sys.owner mutex = some thread) :
    (Action.remove (some mutex) (sys.priorityCeiling mutex)).Valid
      (sys.threads.aggregation thread).contributors := by
  refine ⟨?_, (none, sys.realPriority thread), ?_, by simp⟩
  · intro key
    rw [sound.contributors]
    simp [System.Contributes, owns]
  · rw [sound.contributors]
    rfl

section

variable (sound : Sound sys)
include sound

/-- The threads that wait for a mutex are in its queue without the one that leaves it. -/
theorem remove_queue (mutex : M) (thread : T) (tested : M) : ((update sys.queue mutex
      (KeyedChain.remove thread (sys.queue mutex)) tested).map fst).Perm
      (update sys.graph.queue mutex ((sys.graph.queue mutex).erase thread) tested) := by
  by_cases here : tested = mutex
  · subst here
    rw [update_self, update_self,
      KeyedChain.remove_nodes thread (sys.queue tested) (sound.graph.once tested)]
    exact .refl _
  · rw [update_of_ne here, update_of_ne here]
    exact .refl _

/-- The first waiting thread becomes the owner, gets the node of the mutex and is
unblocked. -/
theorem handover (mutex : M) (newOwner : T)
    (waits : sys.waitQueue newOwner = some mutex) (threads : Threads T (Option M) P)
    (updates : List T) (room : updates.length < 2) (coherent : threads.Sound)
    (ready : threads.ready = sys.threads.ready)
    (contributors : ∀ tested node prio, (node, prio) ∈ (threads.aggregation tested).contributors ↔
        sys.Contributes tested node prio ∧ node ≠ some mutex)
    (kept : threads.Kept updates) :
    ∃ after later, { sys with
        threads := threads
        queue := update sys.queue mutex (KeyedChain.remove newOwner (sys.queue mutex))
        owner := update sys.owner mutex (some newOwner)
        waitQueue := update sys.waitQueue newOwner none }.apply updates newOwner
          (.add (some mutex) (sys.priorityCeiling mutex)) = some (after, later) ∧
      Sound { after.update later with
        threads := (after.update later).threads.unblock newOwner } ∧
      ((after.update later).threads.unblock newOwner).Kept [] := by
  obtain ⟨after, later, res, applied⟩ := System.apply_spec { sys with
    threads := threads
    queue := update sys.queue mutex (KeyedChain.remove newOwner (sys.queue mutex))
    owner := update sys.owner mutex (some newOwner)
    waitQueue := update sys.waitQueue newOwner none } updates newOwner
    (.add (some mutex) (sys.priorityCeiling mutex)) coherent
    (fun tested claims => by simp at claims) trivial room
  have graph := sound.graph.leave mutex newOwner () (some newOwner) waits (.inl rfl)
  have made : Exact after := by
    refine applied.exact (graph.congr rfl rfl (sound.remove_queue mutex newOwner)) ?_ ?_
    · intro node prio
      rw [Action.mem_add, contributors]
      cases node with
      | none => simp [System.Contributes]
      | some tested =>
        by_cases here : tested = mutex
        · simp [System.Contributes, here]
        · simp [System.Contributes, here]
    · intro other ne node prio
      rw [contributors]
      cases node with
      | none => simp [System.Contributes]
      | some tested =>
        by_cases here : tested = mutex
        · simp [System.Contributes, here, Ne.symm ne]
        · simp [System.Contributes, here]
  have updated := made.update later
  refine ⟨after, later, res, ⟨⟨⟨updated.threads.aggregation, updated.threads.value⟩,
    updated.contributors, updated.graph.congr rfl rfl fun _ => .refl _⟩, ?_⟩,
    ((applied.kept kept).update made.threads).unblock updated.threads newOwner⟩
  intro tested
  have before : (after.update later).threads.ready = sys.threads.ready := by
    rw [System.update, after.threads.update_eq]
    exact applied.ready.trans ready
  have idle : after.waitQueue = update sys.waitQueue newOwner none := by
    rw [applied.frame]
  show update (after.update later).threads.ready newOwner true tested = true ↔
    after.waitQueue tested = none
  rw [before, idle]
  by_cases same : tested = newOwner
  · simp [same]
  · simp [same, sound.ready]

theorem surrenderPriorityCeiling (kept : sys.threads.Kept []) (mutex : M) (thread : T)
    (idle : sys.waitQueue thread = none) (owns : sys.owner mutex = some thread) :
    ∃ after, sys.surrenderPriorityCeiling mutex thread = some after ∧ Sound after ∧
      after.threads.Kept [] := by
  obtain ⟨released, updates, res, applied⟩ := System.apply_spec sys [] thread
    (.remove (some mutex) (sys.priorityCeiling mutex)) sound.threads
    (fun tested waits => sound.queued thread tested waits)
    (sound.removable mutex thread owns) (by simp)
  obtain ⟨threads, rfl⟩ : ∃ threads, released = { sys with threads := threads } :=
    ⟨_, applied.shape idle⟩
  obtain ⟨changed, performed⟩ := applied.performed
  have kept : threads.Kept updates := applied.kept kept
  -- The contributors without the node of the mutex.
  have contributors : ∀ tested node prio, (node, prio) ∈ (threads.aggregation tested).contributors ↔
        sys.Contributes tested node prio ∧ node ≠ some mutex := by
    intro tested node prio
    rw [performed.mem_iff, Action.mem_remove, sound.contributors, sound.contributors]
    by_cases same : tested = thread
    · simp [same]
    · simp only [same, false_and, false_or, ne_eq, not_false_eq_true, true_and, iff_self_and]
      rintro contributes rfl
      exact same (Option.some.inj (contributes.1.symm.trans owns))
  unfold System.surrenderPriorityCeiling
  simp only [res, bind_eq_bind, bind_some]
  cases first : (sys.queue mutex).head? with
  | none =>
    have empty : sys.graph.queue mutex = [] := by
      simp [System.graph, List.head?_eq_none_iff.mp first]
    have made : Sound { sys with
        threads := threads
        owner := update sys.owner mutex none } := by
      refine ⟨⟨performed.sound, ?_, ?_⟩, ?_⟩
      · intro tested node prio
        rw [contributors]
        cases node with
        | none => simp [System.Contributes]
        | some other =>
          by_cases here : other = mutex
          · simp [System.Contributes, here]
          · simp [System.Contributes, here]
      · exact (sound.graph.own mutex none () empty).congr rfl rfl fun _ => .refl _
      · rw [performed.ready]
        exact sound.ready
    exact ⟨_, rfl, (made.rescheduled updates).answer thread .successful, kept.update made.threads⟩
  | some head =>
    obtain ⟨newOwner, prio⟩ := head
    have waits : sys.waitQueue newOwner = some mutex := by
      refine (sound.graph.queued mutex newOwner).mp ?_
      exact List.mem_map.mpr ⟨_, List.mem_of_mem_head? first, rfl⟩
    have room : updates.length < 2 := by rcases applied.later with rfl | rfl <;> simp
    obtain ⟨after, later, res, made, kept⟩ := sound.handover mutex newOwner waits threads updates
      room performed.sound performed.ready contributors kept
    simp only [res]
    exact ⟨_, rfl, made.answer thread .successful, kept⟩

/-- `_CORE_ceiling_mutex_Surrender` completes. -/
theorem surrender (kept : sys.threads.Kept []) (mutex : M) (thread : T)
    (idle : sys.waitQueue thread = none) :
    ∃ after, sys.surrender mutex thread = some after ∧ Sound after ∧ after.threads.Kept [] := by
  unfold System.surrender
  split
  · exact ⟨_, rfl, sound.answer thread .notOwner, kept⟩
  next owns =>
  split
  · exact ⟨_, rfl, (sound.nest mutex _).answer thread .successful, kept⟩
  · exact sound.surrenderPriorityCeiling kept mutex thread idle (not_not.mp owns)

/-- A timeout of a waiting thread. -/
theorem timeout (kept : sys.threads.Kept []) (thread : T) :
    Sound (sys.timeout thread) ∧ (sys.timeout thread).threads.Kept [] := by
  unfold System.timeout
  cases waits : sys.waitQueue thread with
  | none => exact ⟨sound, kept⟩
  | some mutex =>
    have graph := sound.graph.leave mutex thread () (sys.owner mutex) waits (.inr rfl)
    have owner : update sys.graph.owner mutex (sys.owner mutex) =
        sys.graph.owner := Function.update_eq_self ..
    rw [owner] at graph
    have left : Sound { sys with
        threads := sys.threads.unblock thread
        queue := update sys.queue mutex (KeyedChain.remove thread (sys.queue mutex))
        waitQueue := update sys.waitQueue thread none } := by
      refine ⟨⟨⟨sound.threads.aggregation, sound.threads.value⟩, sound.contributors,
        graph.congr rfl rfl (sound.remove_queue mutex thread)⟩, ?_⟩
      intro tested
      show update sys.threads.ready thread true tested = true ↔
        update sys.waitQueue thread none tested = none
      by_cases same : tested = thread
      · simp [same]
      · simp [same, sound.ready]
    exact ⟨left.answer thread .timeout, kept.unblock sound.threads thread⟩

theorem changePriority (kept : sys.threads.Kept []) (thread : T) (prio : P) :
    ∃ after, sys.changePriority thread prio = some after ∧ Sound after ∧ after.threads.Kept [] := by
  obtain ⟨after, later, res, applied⟩ := System.apply_spec
    { sys with realPriority := update sys.realPriority thread prio } [] thread
    (.change none prio) sound.threads
    (fun tested waits => sound.queued thread tested waits) trivial (by simp)
  have made : Sound after := by
    refine ⟨applied.exact (sound.graph.congr rfl rfl fun _ => .refl _) ?_ ?_, ?_⟩
    · intro node tested
      rw [Action.mem_change, sound.contributors]
      cases node with
      | none | some => simp [System.Contributes]
    · intro other ne node tested
      rw [sound.contributors]
      cases node with
      | none => simp [System.Contributes, ne]
      | some mutex => simp [System.Contributes]
    · rw [applied.ready, applied.frame]
      exact sound.ready
  unfold System.changePriority
  simp only [res]
  exact ⟨_, rfl, made.rescheduled later, (applied.kept kept).update made.threads⟩

end

end Sound

/-- The new ceiling of a mutex keeps the effective priority of a thread: it is not lower,
and it or another contributor has this priority. -/
def System.Retains (system : System T M P) (mutex : M) (priority : P) (thread : T) : Prop :=
  system.threads.effective thread ≤ priority ∧
    (priority = system.threads.effective thread ∨
      ∃ other ∈ (system.threads.aggregation thread).contributors,
        other.1 ≠ some mutex ∧ other.2 = system.threads.effective thread)

/-- If the ceiling of a mutex is set, then the mutex is free, or its owner waits, or the
ceiling keeps the effective priority of the owner. -/
def Timely (system : System T M P) : Operation T M P → Prop
  | .setPriority mutex priority =>
      ∀ owner, system.owner mutex = some owner →
        system.waitQueue owner ≠ none ∨ system.Retains mutex priority owner
  | _ => True

namespace Sound

variable {sys : System T M P}

omit [DecidableEq T] in
/-- When a change of a node keeps the effective priority. -/
theorem retains_iff (sound : Sound sys) (mutex : M) (prio : P) (thread : T)
    {threads : Threads T (Option M) P} {changed : Bool} (performed : Threads.Performed
      sys.threads thread (.change (some mutex) prio) threads changed) :
    threads.effective thread = sys.threads.effective thread ↔
      sys.Retains mutex prio thread := by
  have least := (performed.sound.aggregation thread).least
  have before := (sound.threads.aggregation thread).least
  rw [performed.contributors] at least
  constructor
  · intro same
    rw [show (threads.aggregation thread).priority = sys.threads.effective thread from same]
      at least
    refine ⟨least.2 ⟨some mutex, by simp⟩, ?_⟩
    obtain ⟨node, member⟩ := least.1
    rcases (Action.mem_change ..).mp member with new | ⟨member, ne⟩
    · exact .inl (mk.inj new).2.symm
    · exact .inr ⟨_, member, ne, rfl⟩
  · rintro ⟨lower, reached⟩
    refine least.unique ⟨?_, ?_⟩
    · rcases reached with same | ⟨⟨node, key⟩, member, ne, same⟩
      · exact ⟨some mutex, by simp [same]⟩
      · subst same
        exact ⟨node, (Action.mem_change ..).mpr (.inr ⟨member, ne⟩)⟩
    · rintro key ⟨node, member⟩
      rcases (Action.mem_change ..).mp member with new | ⟨member, -⟩
      · rw [(mk.inj new).2]
        exact lower
      · exact before.2 ⟨node, member⟩

/-- `_Semaphore_Set_priority` completes. The owner is kept under its effective priority if
the operation is timely, and only then. -/
theorem setPriority (sound : Sound sys) (kept : sys.threads.Kept []) (mutex : M) (prio : P) :
    ∃ after, sys.setPriority mutex prio = some after ∧ Sound after ∧
      (after.threads.Kept [] ↔ Timely sys (.setPriority mutex prio)) := by
  unfold System.setPriority System.ceilingMutexSetPriority
  cases owns : sys.owner mutex with
  | none =>
    have made : Sound { sys with
        priorityCeiling := update sys.priorityCeiling mutex prio } := by
      refine ⟨⟨sound.threads, ?_, sound.graph.congr rfl rfl fun _ => .refl _⟩, sound.ready⟩
      intro tested node key
      rw [sound.contributors]
      cases node with
      | none => simp [System.Contributes]
      | some other =>
        by_cases here : other = mutex
        · simp [System.Contributes, here, owns]
        · simp [System.Contributes, here]
    refine ⟨_, rfl, made.rescheduled [], ?_⟩
    simp only [Timely, owns, reduceCtorEq, false_implies, implies_true, iff_true]
    exact kept.update sound.threads
  | some owner =>
    obtain ⟨after, later, res, applied⟩ := System.apply_spec
      { sys with priorityCeiling := update sys.priorityCeiling mutex prio } []
      owner (.change (some mutex) prio) sound.threads
      (fun tested waits => sound.queued owner tested waits) trivial (by simp)
    obtain ⟨changed, performed⟩ := applied.performed
    have made : Sound after := by
      refine ⟨applied.exact (sound.graph.congr rfl rfl fun _ => .refl _) ?_ ?_, ?_⟩
      · intro node key
        rw [Action.mem_change, sound.contributors]
        cases node with
        | none => simp [System.Contributes]
        | some other =>
          by_cases here : other = mutex
          · simp [System.Contributes, here, owns]
          · simp [System.Contributes, here]
      · intro tested ne node key
        rw [sound.contributors]
        cases node with
        | none => simp [System.Contributes]
        | some other =>
          by_cases here : other = mutex
          · simp [System.Contributes, here, owns, Ne.symm ne]
          · simp [System.Contributes, here]
      · rw [applied.ready, applied.frame]
        exact sound.ready
    simp only [res]
    refine ⟨_, rfl, made.rescheduled [], ?_⟩
    have retains := sound.retains_iff mutex prio owner performed
    simp only [Timely, owns, Option.some.injEq, forall_eq', ← retains]
    constructor
    · intro agrees
      by_cases waits : sys.waitQueue owner = none
      · have ready := (sound.ready owner).mpr waits
        have told := agrees owner (by rwa [← performed.ready] at ready) (by simp)
        rw [System.update, Threads.update_eq] at told
        simp only [List.not_mem_nil] at told
        rw [performed.kept, kept owner ready (by simp)] at told
        exact .inr told.symm
      · exact .inl waits
    · intro timely
      have told : after.threads.Kept [] := by
        intro tested ready _
        rw [performed.ready] at ready
        rw [performed.kept, kept tested ready (by simp)]
        by_cases same : tested = owner
        · subst same
          rcases timely with waits | same
          · exact absurd ((sound.ready tested).mp ready) waits
          · exact same.symm
        · rw [Threads.effective, Threads.effective, performed.others tested same]
      exact told.update made.threads

/-- One operation completes and keeps the invariant; the scheduler knows the effective
priorities if the operation is timely, and only then. -/
theorem step [Fintype T] (sound : Sound sys) (kept : sys.threads.Kept [])
    (op : Operation T M P) (permitted : Permitted sys op) :
    ∃ after, sys.step op = some after ∧ Sound after ∧ (after.threads.Kept [] ↔ Timely sys op) := by
  cases op with
  | seize mutex thread wait =>
    obtain ⟨after, res, made, told⟩ := sound.seize kept mutex thread wait permitted
    exact ⟨after, res, made, by simp [told, Timely]⟩
  | surrender mutex thread =>
    obtain ⟨after, res, made, told⟩ := sound.surrender kept mutex thread permitted
    exact ⟨after, res, made, by simp [told, Timely]⟩
  | timeout thread =>
    obtain ⟨made, told⟩ := sound.timeout kept thread
    exact ⟨_, rfl, made, by simp [told, Timely]⟩
  | changePriority thread prio =>
    obtain ⟨after, res, made, told⟩ := sound.changePriority kept thread prio
    exact ⟨after, res, made, by simp [told, Timely]⟩
  | setPriority mutex prio => exact sound.setPriority kept mutex prio

end Sound

end Steps

/-- The effective priorities are the minima of the own priorities and the ceilings of the
owned mutexes, whose nodes are where they belong, and the ready threads are kept under
their effective priorities. -/
structure Agrees [LinearOrder P] (system : System T M P) : Prop where
  effective : ∀ thread, IsLeast ({system.realPriority thread} ∪
    {priority | ∃ mutex, system.owner mutex = some thread ∧
      system.priorityCeiling mutex = priority}) (system.threads.effective thread)
  nodes : ∀ mutex thread,
    (∃ priority, (some mutex, priority) ∈ (system.threads.aggregation thread).contributors) ↔
      system.owner mutex = some thread
  kept : ∀ thread, system.threads.ready thread = true →
    system.threads.kept thread = system.threads.effective thread

/-- A sound system agrees exactly if the scheduler knows the effective priorities. -/
theorem Sound.agrees [LinearOrder P] (sound : Sound sys) : Agrees sys ↔ sys.threads.Kept [] := by
  constructor
  · intro agrees thread ready _
    exact agrees.kept thread ready
  · intro kept
    refine ⟨?_, ?_, fun thread ready => kept thread ready (by simp)⟩
    · intro thread
      have least := (sound.threads.aggregation thread).least
      suffices same : KeyedChain.keys (sys.threads.aggregation thread).contributors =
          {sys.realPriority thread} ∪ {prio | ∃ mutex, sys.owner mutex = some thread ∧
            sys.priorityCeiling mutex = prio} by
        rwa [same] at least
      ext key
      simp only [KeyedChain.keys, sound.contributors]
      constructor
      · rintro ⟨node, contributes⟩
        cases node with
        | none => exact .inl contributes
        | some mutex => exact .inr ⟨mutex, contributes.1, contributes.2.symm⟩
      · rintro (own | ⟨mutex, owns, ceiling⟩)
        · exact ⟨none, own⟩
        · exact ⟨some mutex, owns, ceiling.symm⟩
    · simp [sound.contributors, System.Contributes]

/-- Along every run in which the ceiling of a mutex is set only while the mutex is free, its
owner waits, or the effective priority of its owner stays the same, the threads, the
mutexes and the scheduler agree. Every operation completes, and the next one keeps the
agreement exactly if it is such an operation. -/
theorem runs_agree_with_ceilings [Fintype T] [DecidableEq T] [DecidableEq M] [LinearOrder P]
    (past : List (System T M P)) (system : System T M P) (run : Trace Initial (fun state operation
      => Permitted state operation ∧ Timely state operation) System.step past system) :
    Agrees system ∧ ∀ operation, Permitted system operation →
      ∃ next, system.step operation = some next ∧ (Agrees next ↔ Timely system operation) := by
  obtain ⟨sound, kept⟩ : Sound system ∧ system.threads.Kept [] := by
    refine run.invariant (fun state => Sound state ∧ state.threads.Kept [])
      (fun _ initial => ⟨initial.sound, initial.kept_all⟩) ?_
    rintro state operation next ⟨sound, kept⟩ ⟨permitted, timely⟩ taken
    obtain ⟨after, result, made, told⟩ := sound.step kept operation permitted
    cases taken.symm.trans result
    exact ⟨made, told.mpr timely⟩
  refine ⟨sound.agrees.mpr kept, ?_⟩
  intro operation permitted
  obtain ⟨after, result, made, told⟩ := sound.step kept operation permitted
  exact ⟨after, result, made.agrees.trans told⟩

instance [DecidableEq M] (system : System T M P) (operation : Operation T M P) :
    Decidable (Permitted system operation) :=
  match operation with
  | .seize _ thread _ => inferInstanceAs (Decidable (system.waitQueue thread = none))
  | .surrender _ thread => inferInstanceAs (Decidable (system.waitQueue thread = none))
  | .timeout thread => inferInstanceAs (Decidable (system.waitQueue thread ≠ none))
  | .changePriority .. | .setPriority .. => .isTrue trivial

instance [DecidableEq M] [LinearOrder P] (system : System T M P) (mutex : M) (priority : P)
    (thread : T) : Decidable (system.Retains mutex priority thread) :=
  inferInstanceAs (Decidable (_ ∧ _))

instance [Fintype T] [DecidableEq T] [DecidableEq M] [LinearOrder P] (system : System T M P)
    (operation : Operation T M P) : Decidable (Timely system operation) :=
  match operation with
  | .setPriority mutex priority => inferInstanceAs (Decidable (∀ owner,
      system.owner mutex = some owner →
        system.waitQueue owner ≠ none ∨ system.Retains mutex priority owner))
  | .seize .. | .surrender .. | .timeout _ | .changePriority .. => .isTrue trivial

/-- Two threads of priority 10 and two mutexes with the ceilings 5 and 7. -/
def start : System (Fin 2) (Fin 2) Nat where
  threads := ⟨fun _ => .initializeOne none 10, fun _ => 10, fun _ => true, fun _ => 10⟩
  realPriority := fun _ => 10
  priorityCeiling := fun mutex => if mutex = 0 then 5 else 7
  owner := fun _ => none
  nestLevel := fun _ => 0
  queue := fun _ => []
  waitQueue := fun _ => none
  returnCode := fun _ => .successful

theorem start_initial : Initial start :=
  ⟨fun _ => rfl, fun _ => rfl, fun _ => rfl, fun _ => rfl, fun _ => rfl, fun _ => rfl,
    fun _ => rfl, fun _ => rfl⟩

/-- The ceiling of the second mutex is set below the ceiling of the first one, both owned by
a thread, and the first mutex is handed over. -/
theorem runs_agree_with_ceilings_handover :
    ∃ (past : List (System (Fin 2) (Fin 2) Nat)) (system : System (Fin 2) (Fin 2) Nat),
      Trace Initial (fun state operation => Permitted state operation ∧ Timely state operation)
        System.step past system ∧
      system.owner 0 = some 1 ∧ system.threads.kept 1 = 5 ∧ system.threads.kept 0 = 6 ∧
      Agrees system := by
  obtain ⟨past, system, run, seen⟩ := Trace.observe
    (fun state operation => Permitted state operation ∧ Timely state operation) System.step start
    start_initial
    [.seize 1 0 true, .seize 0 0 true, .seize 0 1 true, .setPriority 1 6, .surrender 0 0]
    (fun system => (system.owner 0, system.threads.kept 1, system.threads.kept 0))
    (some 1, 5, 6) (by decide +kernel) (by decide +kernel)
  simp only [mk.injEq] at seen
  obtain ⟨owner, first, second⟩ := seen
  exact ⟨past, system, run, owner, first, second, (runs_agree_with_ceilings past system run).1⟩

/-- A thread owns a mutex while its ceiling is raised: the effective priority of the thread
is the new ceiling and the scheduler keeps it under the old one. -/
theorem raised_ceiling_unknown_to_scheduler :
    ∃ (past : List (System (Fin 2) (Fin 2) Nat)) (system : System (Fin 2) (Fin 2) Nat),
      Trace Initial Permitted System.step past system ∧
      system.threads.effective 0 = 3 ∧ system.threads.kept 0 = 5 ∧ ¬Agrees system := by
  obtain ⟨past, system, run, seen⟩ := Trace.observe Permitted System.step start start_initial
    [.seize 0 0 true, .setPriority 0 3]
    (fun system => (system.threads.effective 0, system.threads.kept 0, system.threads.ready 0))
    (3, 5, true) (by decide +kernel) (by decide +kernel)
  simp only [mk.injEq] at seen
  obtain ⟨effective, kept, ready⟩ := seen
  refine ⟨past, system, run, effective, kept, ?_⟩
  intro agrees
  have same := agrees.kept 0 ready
  omega

end Rtems.CeilingMutex
