import Rtems.Thread.Priority
import Rtems.ThreadQueue.Deadlock

/-!
# Priority actions along the owners

The priority of a thread that waits for a priority inheritance mutex contributes to the
priority of the mutex, and this one contributes to the priority of its owner. An action on
the aggregation of a thread changes its place in the queue of the mutex for which it
waits; if the priority of the mutex changes then, an action on the aggregation of the
owner follows, and so on to the end of the owners. While an action is pending, exactly one
contributor of one thread is not the one it should be.
-/

namespace Rtems.PriorityInherit

open Successor
open Rtems.Priority
open Rtems.ThreadQueue
open Function (update update_of_ne update_self)

universe u
variable {T M P : Type u}

/-- The mutexes and the threads. The own node of a thread has no mutex. The last operation
passed a list of threads to the scheduler. -/
structure System (T M P : Type u) where
  threads : Threads T (Option M) P
  realPriority : T → P
  owner : M → Option T
  nestLevel : M → Nat
  queue : M → Aggregation T P
  waitQueue : T → Option M
  returnCode : T → Deadlock.Status
  updated : List T

/-- The owners and the waiting threads. -/
def System.graph (system : System T M P) : Deadlock.System T M Unit where
  owner := system.owner
  nestLevel := system.nestLevel
  queue := fun mutex => (system.queue mutex).contributors.map Prod.fst
  waitQueue := system.waitQueue
  returnCode := system.returnCode
  priorities := ()

section Actions

variable [DecidableEq T] [DecidableEq M] [LinearOrder P]

/-- `_Thread_Priority_do_perform_actions` with
`_Thread_queue_Priority_inherit_priority_actions`: the mutex has a new priority if it is
returned, and an action on its owner is pending. -/
def System.doPerformActions (system : System T M P) (updates : List T) (thread : T)
    (action : Action (Option M) P) : Option (System T M P × List T × Option M) :=
  let performed := system.threads.perform thread action
  let system := { system with threads := performed.1 }
  if performed.2 then do
    let updates ← addPriorityUpdate updates thread
    match system.waitQueue thread with
    | none => some (system, updates, none)
    | some mutex =>
        let changed := (system.queue mutex).changed thread (system.threads.effective thread)
        let system := { system with queue := Function.update system.queue mutex changed.1 }
        some (system, updates, if changed.2 then some mutex else none)
  else some (system, updates, none)

/-- The loop of `_Thread_Priority_perform_actions`, for a number of rounds at most. The set
of updates is restored before the next round. -/
def System.performActions (updates : List T) :
    Nat → System T M P → T → Action (Option M) P → Option (System T M P × List T)
  | 0, _, _, _ => none
  | rounds + 1, system, thread, action => do
      let (system, added, pending) ← system.doPerformActions updates thread action
      match pending with
      | none => some (system, added)
      | some mutex => do
          let owner ← system.owner mutex
          performActions updates rounds system owner
            (.change (some mutex) (system.queue mutex).priority)

/-- `_Thread_Priority_apply`. -/
def System.apply [Fintype T] (system : System T M P) (updates : List T) (thread : T)
    (action : Action (Option M) P) : Option (System T M P × List T) := do
  let (system, updates, pending) ← system.doPerformActions updates thread action
  match pending with
  | none => some (system, updates)
  | some mutex => do
      let owner ← system.owner mutex
      system.performActions updates (Fintype.card T) owner
        (.change (some mutex) (system.queue mutex).priority)

end Actions

/-- The nodes that contribute to the priority of a thread. -/
def System.Contributes (system : System T M P) (thread : T) : Option M → P → Prop
  | none, priority => priority = system.realPriority thread
  | some mutex, priority => system.owner mutex = some thread ∧
      (system.queue mutex).contributors ≠ [] ∧ priority = (system.queue mutex).priority

/-- The queues of the mutexes hold the given waiting threads with their priorities. -/
structure Queued [LinearOrder P] (waits : T → Option M) (system : System T M P) : Prop where
  queues : ∀ mutex, (system.queue mutex).contributors ≠ [] → (system.queue mutex).Sound
  waiting : ∀ mutex thread priority, (thread, priority) ∈ (system.queue mutex).contributors ↔
    waits thread = some mutex ∧ priority = system.threads.effective thread
  once : ∀ mutex, ((system.queue mutex).contributors.map Prod.fst).Nodup

/-- The contributors of all threads are the ones that the owners and the queues demand. -/
structure Coherent [LinearOrder P] (waits : T → Option M) (system : System T M P) : Prop
    extends Queued waits system where
  threads : system.threads.Sound
  contributors : ∀ thread node priority,
    (node, priority) ∈ (system.threads.aggregation thread).contributors ↔
      system.Contributes thread node priority

/-- An action is pending: the contributors of one thread are right once it is done. -/
structure Pending [LinearOrder P] [DecidableEq M] (waits : T → Option M) (system : System T M P)
    (thread : T) (action : Action (Option M) P) : Prop extends Queued waits system where
  threads : system.threads.Sound
  own : ∀ node priority,
    (node, priority) ∈ action.apply (system.threads.aggregation thread).contributors ↔
      system.Contributes thread node priority
  others : ∀ other, other ≠ thread → ∀ node priority,
    (node, priority) ∈ (system.threads.aggregation other).contributors ↔
      system.Contributes other node priority
  valid : action.Valid (system.threads.aggregation thread).contributors

/-- What actions leave as it is. -/
structure Frame (system after : System T M P) : Prop where
  realPriority : after.realPriority = system.realPriority
  owner : after.owner = system.owner
  nestLevel : after.nestLevel = system.nestLevel
  waitQueue : after.waitQueue = system.waitQueue
  returnCode : after.returnCode = system.returnCode
  ready : after.threads.ready = system.threads.ready
  kept : after.threads.kept = system.threads.kept

theorem Frame.trans {one another last : System T M P} (first : Frame one another)
    (second : Frame another last) : Frame one last :=
  ⟨second.realPriority.trans first.realPriority, second.owner.trans first.owner,
    second.nestLevel.trans first.nestLevel, second.waitQueue.trans first.waitQueue,
    second.returnCode.trans first.returnCode, second.ready.trans first.ready,
    second.kept.trans first.kept⟩

section Rounds

variable [DecidableEq T] [DecidableEq M] [LinearOrder P]

variable {waits : T → Option M} {sys : System T M P} {thread : T}

/-- The priority of a waiting thread changes its place in the queue. -/
theorem Queued.replace {mutex : M} (queued : Queued waits sys) (here : waits thread = some mutex)
    (threads : Threads T (Option M) P)
    (others : ∀ other, other ≠ thread → threads.effective other = sys.threads.effective other) :
    let changed := (sys.queue mutex).changed thread (threads.effective thread)
    Queued waits { sys with
      threads := threads
      queue := update sys.queue mutex changed.1 } ∧
    changed.1.contributors ≠ [] ∧
    (changed.2 = true ↔ changed.1.priority ≠ (sys.queue mutex).priority) := by
  intro changed
  have member : (thread, sys.threads.effective thread) ∈ (sys.queue mutex).contributors :=
    (queued.waiting mutex thread _).mpr ⟨here, rfl⟩
  obtain ⟨sound, contributors, flag⟩ := (queued.queues mutex (List.ne_nil_of_mem member)).perform
    (.change thread (threads.effective thread)) trivial
  have filled : changed.1.contributors ≠ [] := by
    show ((sys.queue mutex).perform (.change thread (threads.effective thread))).1.contributors ≠ []
    rw [contributors]
    exact KeyedChain.insert_ne_nil _ _ _
  refine ⟨⟨?_, ?_, ?_⟩, filled, flag⟩
  · intro tested
    show (update sys.queue mutex changed.1 tested).contributors ≠ [] →
      (update sys.queue mutex changed.1 tested).Sound
    by_cases same : tested = mutex
    · subst same
      rw [update_self]
      exact fun _ => sound
    · rw [update_of_ne same]
      exact queued.queues tested
  · intro tested other prio
    show _ ∈ (update sys.queue mutex changed.1 tested).contributors ↔
      _ ∧ prio = threads.effective other
    by_cases same : tested = mutex
    · subst same
      rw [update_self]
      show _ ∈ ((sys.queue tested).perform
        (.change thread (threads.effective thread))).1.contributors ↔ _
      rw [contributors, Action.mem_change, queued.waiting]
      by_cases self : other = thread
      · subst self
        simp [here]
      · simp [self, others other self]
    · rw [update_of_ne same, queued.waiting]
      by_cases self : other = thread
      · subst self
        have elsewhere : waits other ≠ some tested := by
          rw [here]
          exact fun equal => same (Option.some.inj equal).symm
        simp [elsewhere]
      · rw [others other self]
  · intro tested
    show ((update sys.queue mutex changed.1 tested).contributors.map Prod.fst).Nodup
    by_cases same : tested = mutex
    · subst same
      rw [update_self]
      show (((sys.queue tested).perform
        (.change thread (threads.effective thread))).1.contributors.map Prod.fst).Nodup
      rw [contributors]
      exact (KeyedChain.replace_nodes thread _ _ (queued.once tested)
        (List.mem_map.mpr ⟨_, member, rfl⟩)).nodup_iff.mpr (queued.once tested)
    · rw [update_of_ne same]
      exact queued.once tested

omit [DecidableEq T] [DecidableEq M] in
/-- The priorities of the threads that do not wait do not matter. -/
theorem Queued.congr (queued : Queued waits sys) (threads : Threads T (Option M) P)
    (same : ∀ thread mutex, waits thread = some mutex →
      threads.effective thread = sys.threads.effective thread) :
    Queued waits { sys with threads := threads } := by
  refine ⟨queued.queues, ?_, queued.once⟩
  intro mutex thread prio
  rw [queued.waiting]
  constructor
  · rintro ⟨here, rfl⟩
    exact ⟨here, (same thread mutex here).symm⟩
  · rintro ⟨here, rfl⟩
    exact ⟨here, same thread mutex here⟩

variable {action : Action (Option M) P}

variable {threads : Threads T (Option M) P}

omit [DecidableEq T] in
/-- The contributors after an action that was pending. -/
theorem Pending.performed (pending : Pending waits sys thread action) {changed : Bool}
    (performed : Threads.Performed sys.threads thread action threads changed) (tested : T)
    (node : Option M) (prio : P) :
    (node, prio) ∈ (threads.aggregation tested).contributors ↔
      sys.Contributes tested node prio := by
  by_cases same : tested = thread
  · subst same
    rw [performed.contributors]
    exact pending.own node prio
  · rw [performed.others tested same]
    exact pending.others tested same node prio

/-- What one round of the loop does. -/
structure Round (waits : T → Option M) (system : System T M P) (updates : List T) (thread : T)
    (after : System T M P) (added : List T) (pending : Option M) : Prop where
  frame : Frame system after
  collected : added = updates ∨ added = updates ++ [thread]
  kept : system.threads.Kept updates → after.threads.Kept added
  done : pending = none → Coherent waits after
  next : ∀ mutex, pending = some mutex → waits thread = some mutex ∧
    ∀ owner, system.owner mutex = some owner →
      Pending waits after owner (.change (some mutex) (after.queue mutex).priority)

/-- The new priority of a mutex is pending for its owner. -/
theorem Pending.forward {mutex : M} (pending : Pending waits sys thread action)
    (here : waits thread = some mutex) (threads : Threads T (Option M) P) {changed : Bool}
    (performed : Threads.Performed sys.threads thread action threads changed)
    (apart : sys.owner mutex ≠ some thread) :
    let moved := (sys.queue mutex).changed thread (threads.effective thread)
    let after := { sys with
      threads := threads
      queue := update sys.queue mutex moved.1 }
    (moved.2 = false → Coherent waits after) ∧
    (moved.2 = true → ∀ owner, sys.owner mutex = some owner →
      Pending waits after owner (.change (some mutex) moved.1.priority)) := by
  intro moved after
  have others : ∀ other, other ≠ thread →
      threads.effective other = sys.threads.effective other := by
    intro other ne
    rw [Threads.effective, Threads.effective, performed.others other ne]
  obtain ⟨queued, filled, flag⟩ : Queued waits after ∧ moved.1.contributors ≠ [] ∧
      (moved.2 = true ↔ moved.1.priority ≠ (sys.queue mutex).priority) :=
    pending.toQueued.replace here threads others
  have contributors := pending.performed performed
  have before : (sys.queue mutex).contributors ≠ [] :=
    List.ne_nil_of_mem ((pending.waiting mutex thread _).mpr ⟨here, rfl⟩)
  -- Only the prio of the mutex can be another one.
  have elsewhere : ∀ tested node prio, (node = some mutex → sys.owner mutex ≠ some tested) →
      (after.Contributes tested node prio ↔ sys.Contributes tested node prio) := by
    intro tested node prio away
    cases node with
    | none => rfl
    | some other =>
      by_cases same : other = mutex
      · subst same
        simp [System.Contributes, after, away rfl]
      · simp [System.Contributes, after, same]
  constructor
  · intro unchanged
    have same : moved.1.priority = (sys.queue mutex).priority := by
      by_contra ne
      rw [flag.mpr ne] at unchanged
      cases unchanged
    refine ⟨queued, performed.sound, ?_⟩
    intro tested node prio
    rw [contributors]
    cases node with
    | none => rfl
    | some other =>
      by_cases equal : other = mutex
      · subst equal
        simp [System.Contributes, after, same, filled, before]
      · simp [System.Contributes, after, equal]
  · intro _ owner owns
    refine ⟨queued, performed.sound, ?_, ?_, trivial⟩
    · intro node prio
      rw [Action.mem_change, contributors]
      by_cases equal : node = some mutex
      · subst equal
        simp [System.Contributes, after, owns, filled]
      · rw [elsewhere owner node prio fun same => absurd same equal]
        simp [equal]
    · intro other away node prio
      rw [contributors, elsewhere other node prio]
      rintro - held
      exact away (Option.some.inj (held.symm.trans owns))

/-- A round completes if there is room in the set. -/
theorem Pending.round (pending : Pending waits sys thread action) (updates : List T)
    (room : updates.length < 2) (same : sys.waitQueue thread = waits thread)
    (apart : ∀ mutex, waits thread = some mutex → sys.owner mutex ≠ some thread) :
    ∃ after added mutex, sys.doPerformActions updates thread action =
        some (after, added, mutex) ∧ Round waits sys updates thread after added mutex := by
  have performed := pending.threads.perform thread action pending.valid
  unfold System.doPerformActions
  cases changed : (sys.threads.perform thread action).2 with
  | false =>
    rw [changed] at performed
    simp only [changed]
    refine ⟨_, _, _, rfl, ⟨⟨rfl, rfl, rfl, rfl, rfl, performed.ready, performed.kept⟩, .inl rfl,
      fun kept => performed.kept_unchanged kept, fun _ => ⟨?_, performed.sound, ?_⟩, by simp⟩⟩
    · refine pending.toQueued.congr _ ?_
      intro tested _ _
      by_cases self : tested = thread
      · subst self
        by_contra ne
        exact absurd (performed.changed.mpr ne) (by simp)
      · rw [Threads.effective, Threads.effective, performed.others tested self]
    · intro tested node prio
      rw [pending.performed performed]
      cases node <;> rfl
  | true =>
    have added : addPriorityUpdate updates thread = some (updates ++ [thread]) := by
      simp [addPriorityUpdate, room]
    simp only [changed, added]
    cases place : sys.waitQueue thread with
    | none =>
      refine ⟨_, _, _, rfl, ⟨⟨rfl, rfl, rfl, rfl, rfl, performed.ready, performed.kept⟩, .inr rfl,
        fun kept => performed.kept_changed kept, fun _ => ⟨?_, performed.sound, ?_⟩, by simp⟩⟩
      · refine pending.toQueued.congr _ ?_
        intro tested mutex here
        have self : tested ≠ thread := by
          rintro rfl
          rw [← same, place] at here
          cases here
        rw [Threads.effective, Threads.effective, performed.others tested self]
      · intro tested node prio
        rw [pending.performed performed]
        cases node <;> rfl
    | some mutex =>
      have here : waits thread = some mutex := same.symm.trans place
      obtain ⟨stay, forward⟩ := pending.forward here _ performed (apart mutex here)
      refine ⟨_, _, _, rfl, ⟨⟨rfl, rfl, rfl, rfl, rfl, performed.ready, performed.kept⟩, .inr rfl,
        fun kept => performed.kept_changed kept, ?_, ?_⟩⟩
      · intro done
        apply stay
        by_contra moved
        simp [moved] at done
      · intro tested next
        cases moved : ((sys.queue mutex).changed thread
            ((sys.threads.perform thread action).1.effective thread)).2 with
        | false => simp [moved] at next
        | true =>
          simp only [moved, if_true, Option.some.injEq] at next
          subst next
          refine ⟨here, ?_⟩
          intro owner owns
          have pushed := forward moved owner owns
          simpa using pushed

/-- The path of the owners goes down below a bound, and the waiting threads on it are
blocked. -/
structure Path (waits : T → Option M) (height : T → Nat) (bound : Nat) (system : System T M P) :
    Prop where
  waitQueue : ∀ thread, height thread < bound → system.waitQueue thread = waits thread
  blocked : ∀ thread mutex, height thread < bound → waits thread = some mutex →
    system.threads.ready thread = false
  down : ∀ thread mutex owner, height thread < bound → waits thread = some mutex →
    system.owner mutex = some owner → height owner < height thread
  owned : ∀ thread mutex, waits thread = some mutex → ∃ owner, system.owner mutex = some owner

omit [DecidableEq T] [DecidableEq M] [LinearOrder P] in
theorem Path.frame {height : T → Nat} {bound : Nat}
    {after : System T M P} (path : Path waits height bound sys)
    (frame : Frame sys after) : Path waits height bound after := by
  refine ⟨?_, ?_, ?_, ?_⟩
  · rw [frame.waitQueue]
    exact path.waitQueue
  · rw [frame.ready]
    exact path.blocked
  · rw [frame.owner]
    exact path.down
  · rw [frame.owner]
    exact path.owned

/-- What the loop does. -/
structure Settled (waits : T → Option M) (system : System T M P) (updates : List T)
    (after : System T M P) (later : List T) : Prop where
  frame : Frame system after
  coherent : Coherent waits after
  kept : system.threads.Kept updates → after.threads.Kept later

omit [DecidableEq T] [DecidableEq M] [LinearOrder P] in
/-- A thread that is not ready need not be in the set. -/
theorem kept_of_blocked {updates added : List T}
    (collected : added = updates ∨ added = updates ++ [thread])
    (blocked : threads.ready thread = false) (kept : threads.Kept added) :
    threads.Kept updates := by
  rcases collected with rfl | rfl
  · exact kept
  · intro tested ready outside
    refine kept tested ready ?_
    simp only [List.mem_append, List.mem_singleton, not_or]
    refine ⟨outside, ?_⟩
    rintro rfl
    rw [ready] at blocked
    cases blocked

/-- The loop completes and no action is pending any more. -/
theorem Pending.loop {height : T → Nat} {bound : Nat} (updates : List T)
    (room : updates.length < 2) (rounds : Nat) (sys : System T M P) (thread : T)
    (action : Action (Option M) P) (pending : Pending waits sys thread action)
    (path : Path waits height bound sys) (start : height thread < bound)
    (enough : height thread < rounds) :
    ∃ after later, System.performActions updates rounds sys thread action =
        some (after, later) ∧ Settled waits sys updates after later := by
  induction rounds generalizing sys thread action with
  | zero => omega
  | succ rounds ih =>
    have apart : ∀ mutex, waits thread = some mutex → sys.owner mutex ≠ some thread := by
      intro mutex here owns
      exact absurd (path.down thread mutex thread start here owns) (Nat.lt_irrefl _)
    obtain ⟨after, added, mutex, result, round⟩ :=
      pending.round updates room (path.waitQueue thread start) apart
    simp only [System.performActions, result, Option.bind_eq_bind, Option.bind_some]
    cases mutex with
    | none => exact ⟨_, _, rfl, ⟨round.frame, round.done rfl, round.kept⟩⟩
    | some mutex =>
      obtain ⟨here, forward⟩ := round.next mutex rfl
      obtain ⟨owner, owns⟩ := path.owned thread mutex here
      have lower := path.down thread mutex owner start here owns
      have owns' : after.owner mutex = some owner := by
        rw [round.frame.owner]
        exact owns
      obtain ⟨last, later, result, settled⟩ := ih after owner
        (.change (some mutex) (after.queue mutex).priority) (forward owner owns)
        (path.frame round.frame) (lower.trans start) (by omega)
      simp only [owns']
      refine ⟨last, later, result, ⟨round.frame.trans settled.frame, settled.coherent, ?_⟩⟩
      intro kept
      refine settled.kept (kept_of_blocked round.collected ?_ (round.kept kept))
      rw [round.frame.ready]
      exact path.blocked thread mutex start here

/-- The loop completes from the owner of a mutex for which a thread waits, if no other
thread is out of step. -/
theorem Pending.run [Fintype T] {owner : T} (pending : Pending waits sys owner action)
    (updates : List T) (room : updates.length < 2) (acyclic : Acyclic sys.graph.blocker)
    (thread : T) (mutex : M) (here : sys.waitQueue thread = some mutex)
    (owns : sys.owner mutex = some owner)
    (agree : ∀ other, other ≠ thread → sys.waitQueue other = waits other) (blocked : ∀ other
      tested, other ≠ thread → waits other = some tested → sys.threads.ready other = false)
      (owned : ∀ other tested, waits other = some tested → ∃ holder, sys.owner tested = some
      holder) :
    ∃ after later, System.performActions updates (Fintype.card T) sys owner action =
        some (after, later) ∧ Settled waits sys updates after later := by
  obtain ⟨height, below, decreases⟩ := acyclic.height
  have down : ∀ one tested holder, sys.waitQueue one = some tested →
      sys.owner tested = some holder → height holder < height one := by
    intro one tested holder waiting held
    exact decreases one holder (by simp [Deadlock.System.blocker, System.graph, waiting, held])
  have ne : ∀ other, height other < height thread → other ≠ thread := by
    rintro other lower rfl
    exact absurd lower (Nat.lt_irrefl _)
  have path : Path waits height (height thread) sys := by
    refine ⟨?_, ?_, ?_, owned⟩
    · intro other lower
      exact agree other (ne other lower)
    · intro other tested lower
      exact blocked other tested (ne other lower)
    · intro other tested holder lower waiting
      rw [← agree other (ne other lower)] at waiting
      exact down other tested holder waiting
  exact pending.loop updates room (Fintype.card T) sys owner action path
    (down thread mutex owner here owns) (below owner)

/-- `_Thread_Priority_apply` completes. -/
theorem Pending.apply [Fintype T] (sys : System T M P)
    (pending : Pending sys.waitQueue sys thread action)
    (acyclic : Acyclic sys.graph.blocker) (blocked : ∀ other tested, sys.waitQueue other =
      some tested → sys.threads.ready other = false) (owned : ∀ other tested, sys.waitQueue
      other = some tested → ∃ holder, sys.owner tested = some holder) :
    ∃ after later, sys.apply [] thread action = some (after, later) ∧
      Settled sys.waitQueue sys [] after later := by
  have apart : ∀ mutex, sys.waitQueue thread = some mutex → sys.owner mutex ≠ some thread := by
    intro mutex here owns
    refine acyclic thread (.step ?_)
    simp [Deadlock.System.blocker, System.graph, here, owns]
  obtain ⟨first, added, mutex, result, round⟩ := pending.round [] (by simp) rfl apart
  simp only [System.apply, result, Option.bind_eq_bind, Option.bind_some]
  cases mutex with
  | none => exact ⟨_, _, rfl, ⟨round.frame, round.done rfl, round.kept⟩⟩
  | some mutex =>
    obtain ⟨here, forward⟩ := round.next mutex rfl
    obtain ⟨owner, owns⟩ := owned thread mutex here
    have blocker : first.graph.blocker = sys.graph.blocker := by
      funext tested
      simp [Deadlock.System.blocker, System.graph, round.frame.owner, round.frame.waitQueue]
    have room : added.length < 2 := by rcases round.collected with rfl | rfl <;> simp
    obtain ⟨after, later, result, settled⟩ := (forward owner owns).run added room
      (blocker ▸ acyclic) thread mutex (by rw [round.frame.waitQueue]; exact here)
      (by rw [round.frame.owner]; exact owns)
      (fun other _ => by rw [round.frame.waitQueue])
      (fun other tested _ waits => by rw [round.frame.ready]; exact blocked other tested waits)
      (fun other tested waits => by rw [round.frame.owner]; exact owned other tested waits)
    have owns' : first.owner mutex = some owner := by
      rw [round.frame.owner]
      exact owns
    simp only [owns']
    exact ⟨after, later, result, round.frame.trans settled.frame, settled.coherent,
      fun kept => settled.kept (round.kept kept)⟩

end Rounds

end Rtems.PriorityInherit
