import Rtems.ThreadQueue.PriorityInherit

/-!
# Effective priorities

The contributors of the threads and the order of the queues determine the effective
priorities: each one is the minimum of the own priority and the effective priorities of the
threads that wait, directly or through other owners. Every run of the operations keeps
this, tells the scheduler of every change for a ready thread, and hands a mutex to a
waiting thread with the least priority.
-/

namespace Rtems.PriorityInherit

open Transition Successor
open Rtems.Priority
open Rtems.ThreadQueue

universe u
variable {T M P : Type u}

section Effective

variable [LinearOrder P] {sys : System T M P}

namespace Sound

section

variable (sound : Sound sys)
include sound

/-- The priority of a mutex is the least one of its waiting threads. -/
theorem mutex_least (mutex : M) (filled : (sys.queue mutex).contributors ≠ []) :
    IsLeast {prio | ∃ thread, sys.waitQueue thread = some mutex ∧
      sys.threads.effective thread = prio} (sys.queue mutex).priority := by
  have least := (sound.queues mutex filled).least
  suffices same : KeyedChain.keys (sys.queue mutex).contributors =
      {prio | ∃ thread, sys.waitQueue thread = some mutex ∧ sys.threads.effective thread = prio} by
    rwa [same] at least
  ext prio
  simp only [KeyedChain.keys, sound.waiting]
  constructor
  iterate 2
    · rintro ⟨thread, here, rfl⟩
      exact ⟨thread, here, rfl⟩

theorem filled_iff (mutex : M) :
    (sys.queue mutex).contributors ≠ [] ↔ ∃ thread, sys.waitQueue thread = some mutex := by
  constructor
  · intro filled
    obtain ⟨⟨thread, prio⟩, member⟩ := List.exists_mem_of_ne_nil _ filled
    exact ⟨thread, ((sound.waiting mutex thread prio).mp member).1⟩
  · rintro ⟨thread, here⟩
    exact List.ne_nil_of_mem ((sound.waiting mutex thread _).mpr ⟨here, rfl⟩)

/-- A thread inherits the priority of a thread that waits for it. -/
theorem inherits {one another : T} (edge : sys.graph.blocker one = some another) :
    sys.threads.effective another ≤ sys.threads.effective one := by
  obtain ⟨mutex, here, owns⟩ := Option.bind_eq_some_iff.mp edge
  have filled := (sound.filled_iff mutex).mpr ⟨one, here⟩
  have contributes : (some mutex, (sys.queue mutex).priority) ∈
      (sys.threads.aggregation another).contributors :=
    (sound.contributors another (some mutex) _).mpr ⟨owns, filled, rfl⟩
  calc sys.threads.effective another ≤ (sys.queue mutex).priority :=
        (sound.threads.aggregation another).least.2 ⟨some mutex, contributes⟩
    _ ≤ sys.threads.effective one := (sound.mutex_least mutex filled).2 ⟨one, here, rfl⟩

/-- A thread inherits the priorities of all threads that wait for it through a chain of
owners. -/
theorem inherits_all {one last : T} (walk : Leads sys.graph.blocker one last) :
    sys.threads.effective last ≤ sys.threads.effective one := by
  induction walk with
  | single edge => exact sound.inherits edge
  | tail _ edge ih => exact (sound.inherits edge).trans ih

/-- The effective priority is the own one or that of a thread that waits. -/
theorem reached (thread : T) : sys.threads.effective thread = sys.realPriority thread ∨
      ∃ other, sys.graph.blocker other = some thread ∧
        sys.threads.effective other = sys.threads.effective thread := by
  obtain ⟨node, member⟩ := (sound.threads.aggregation thread).least.1
  have contributes := (sound.contributors thread node _).mp member
  cases node with
  | none => exact .inl contributes
  | some mutex =>
    obtain ⟨owns, filled, same⟩ := contributes
    obtain ⟨other, here, equal⟩ := (sound.mutex_least mutex filled).1
    refine .inr ⟨other, ?_, equal.trans same.symm⟩
    simp [Deadlock.System.blocker, System.graph, here, owns]

end

/-- The effective priority is the least own priority of the thread and of the threads that
wait for it through any number of owners. -/
theorem effective_own [Finite T] (sound : Sound sys) (thread : T) :
    IsLeast {prio | ∃ source, (source = thread ∨ Leads sys.graph.blocker source thread) ∧
      sys.realPriority source = prio} (sys.threads.effective thread) := by
  have below : ∀ tested, sys.threads.effective tested ≤ sys.realPriority tested := by
    intro tested
    exact (sound.threads.aggregation tested).least.2
      ⟨none, (sound.contributors tested none _).mpr rfl⟩
  constructor
  · -- By induction along the waiting threads, which do not come back.
    induction thread using sound.graph.acyclic.wellFounded.induction with
    | _ thread ih =>
      rcases sound.reached thread with own | ⟨other, edge, same⟩
      · exact ⟨thread, .inl rfl, own.symm⟩
      · obtain ⟨source, reached, equal⟩ := ih other (.step edge)
        refine ⟨source, .inr ?_, equal.trans same⟩
        rcases reached with rfl | walk
        · exact .step edge
        · exact .tail walk edge
  · rintro prio ⟨source, reached, rfl⟩
    rcases reached with rfl | walk
    · exact below source
    · exact (sound.inherits_all walk).trans (below source)

end Sound

/-- The priorities are inherited exactly: by the threads from the threads that wait for them
through any number of owners, by the mutexes from the threads that wait for them and by the
owners from the mutexes; and the ready threads are kept under their effective
priorities. -/
structure Inherited (system : System T M P) : Prop where
  effective : ∀ thread, IsLeast ({system.realPriority thread} ∪
    {priority | ∃ other, Leads system.graph.blocker other thread ∧
      system.threads.effective other = priority}) (system.threads.effective thread)
  mutex : ∀ mutex, (∃ thread, system.waitQueue thread = some mutex) →
    IsLeast {priority | ∃ thread, system.waitQueue thread = some mutex ∧
      system.threads.effective thread = priority} (system.queue mutex).priority
  contained : ∀ mutex thread priority,
    (some mutex, priority) ∈ (system.threads.aggregation thread).contributors ↔
      system.owner mutex = some thread ∧
      (∃ other, system.waitQueue other = some mutex) ∧ priority = (system.queue mutex).priority
  kept : ∀ thread, system.threads.ready thread = true →
    system.threads.kept thread = system.threads.effective thread

theorem Sound.inherited (sound : Sound sys) (kept : sys.threads.Kept []) :
    Inherited sys := by
  refine ⟨?_, ?_, ?_, fun thread ready => kept thread ready (by simp)⟩
  · intro thread
    constructor
    · rcases sound.reached thread with own | ⟨other, edge, same⟩
      · exact .inl own
      · exact .inr ⟨other, .step edge, same⟩
    · rintro prio (own | ⟨other, walk, rfl⟩)
      · rw [Set.mem_singleton_iff.mp own]
        exact (sound.threads.aggregation thread).least.2
          ⟨none, (sound.contributors thread none _).mpr rfl⟩
      · exact sound.inherits_all walk
  · intro mutex waiting
    exact sound.mutex_least mutex ((sound.filled_iff mutex).mpr waiting)
  · intro mutex thread prio
    rw [sound.contributors, ← sound.filled_iff]
    rfl

/-- A sound system inherits exactly if the scheduler knows the effective priorities. -/
theorem Sound.inherited_iff (sound : Sound sys) : Inherited sys ↔ sys.threads.Kept [] :=
  ⟨fun inherited thread ready _ => inherited.kept thread ready, sound.inherited⟩

end Effective

section Runs

variable [Fintype T] [DecidableEq T] [DecidableEq M] [LinearOrder P] {sys : System T M P}

omit [Fintype T] in
/-- A surrender makes the first waiting thread the owner, and its priority is the least
one. -/
theorem Sound.surrender_first (sound : Sound sys) (mutex : M) (thread : T)
    (idle : sys.waitQueue thread = none) (owns : sys.owner mutex = some thread)
    (single : sys.nestLevel mutex = 0) (waiting : ∃ other, sys.waitQueue other = some mutex) :
    ∃ newOwner after, sys.surrender mutex thread = some after ∧
      after.owner mutex = some newOwner ∧ sys.waitQueue newOwner = some mutex ∧
      ∀ other, sys.waitQueue other = some mutex →
        sys.threads.effective newOwner ≤ sys.threads.effective other := by
  have filled := (sound.filled_iff mutex).mpr waiting
  obtain ⟨⟨newOwner, prio⟩, first, least⟩ := (sound.queues mutex filled).head
  obtain ⟨here, same⟩ := (sound.waiting mutex newOwner prio).mp (List.mem_of_mem_head? first)
  obtain ⟨after, updates, result, -⟩ := sound.inheritSurrender mutex thread newOwner idle owns here
  simp only [System.surrender, owns, ne_eq, not_true_eq_false, if_false, single, gt_iff_lt,
    Nat.lt_irrefl, first, result, Option.bind_eq_bind, Option.bind_some]
  refine ⟨newOwner, _, rfl, Function.update_self .., here, ?_⟩
  intro other waits
  rw [← same, show prio = (sys.queue mutex).priority from least]
  exact (sound.mutex_least mutex filled).2 ⟨other, waits, rfl⟩

/-- The invariant holds along every run. -/
theorem run_sound {past : List (System T M P)}
    (run : Trace Initial Permitted System.step past sys) :
    Sound sys ∧ sys.threads.Kept [] := by
  refine run.invariant (fun state => Sound state ∧ state.threads.Kept [])
    (fun _ initial => ⟨initial.sound, initial.kept_all⟩) ?_
  rintro state op next ⟨sound, kept⟩ permitted taken
  obtain ⟨after, result, completed⟩ := sound.step kept op permitted
  cases taken.symm.trans result
  exact ⟨completed.sound, completed.kept⟩

/-- Along every run the priorities are inherited exactly. Every operation completes, so the
two entries of the set of updates are enough, and it passes every thread that stays ready
with another effective priority to the scheduler. A surrender hands the mutex to a waiting
thread with the least effective priority. -/
theorem runs_inherit_priorities (past : List (System T M P)) (system : System T M P)
    (run : Trace Initial Permitted System.step past system) :
    Inherited system ∧ (∀ operation, Permitted system operation →
      ∃ next, system.step operation = some next ∧ ∀ thread,
        system.threads.ready thread = true → next.threads.ready thread = true →
        next.threads.effective thread ≠ system.threads.effective thread → thread ∈ next.updated) ∧
    ∀ mutex thread, system.waitQueue thread = none → system.owner mutex = some thread →
      system.nestLevel mutex = 0 → (∃ other, system.waitQueue other = some mutex) →
      ∃ newOwner next, system.step (.surrender mutex thread) = some next ∧
        next.owner mutex = some newOwner ∧ system.waitQueue newOwner = some mutex ∧
        ∀ other, system.waitQueue other = some mutex →
          system.threads.effective newOwner ≤ system.threads.effective other := by
  obtain ⟨sound, kept⟩ := run_sound run
  refine ⟨sound.inherited kept, ?_, ?_⟩
  · intro operation permitted
    obtain ⟨next, result, completed⟩ := sound.step kept operation permitted
    refine ⟨next, result, ?_⟩
    intro thread before after different
    by_contra outside
    apply different
    rw [← completed.kept thread after (by simp), completed.told thread before outside,
      kept thread before (by simp)]
  · intro mutex thread idle owns single waiting
    exact (sound.withUpdated []).surrender_first mutex thread idle owns single waiting

end Runs

instance [DecidableEq M] (system : System T M P) (operation : Operation T M P) :
    Decidable (Permitted system operation) :=
  match operation with
  | .seize _ thread _ => inferInstanceAs (Decidable (system.waitQueue thread = none))
  | .surrender _ thread => inferInstanceAs (Decidable (system.waitQueue thread = none))
  | .timeout thread => inferInstanceAs (Decidable (system.waitQueue thread ≠ none))
  | .changePriority .. => .isTrue trivial

/-- Four threads with the priorities 40, 30, 20 and 10, and three mutexes. -/
def start : System (Fin 4) (Fin 3) Nat where
  threads := ⟨fun thread => .initializeOne none (40 - 10 * thread.val),
    fun thread => 40 - 10 * thread.val, fun _ => true, fun thread => 40 - 10 * thread.val⟩
  realPriority := fun thread => 40 - 10 * thread.val
  owner := fun _ => none
  nestLevel := fun _ => 0
  queue := fun _ => ⟨[], 0⟩
  waitQueue := fun _ => none
  returnCode := fun _ => .successful
  updated := []

theorem start_initial : Initial start :=
  ⟨fun _ => rfl, fun _ => rfl, fun _ => rfl, fun _ => rfl, fun _ => rfl, fun _ => rfl,
    fun _ => rfl, fun _ => rfl⟩

/-- Three threads wait in a chain for the first one, the priority of the last one is raised
and the thread before it times out. -/
theorem runs_inherit_priorities_chain :
    ∃ (past : List (System (Fin 4) (Fin 3) Nat)) (system : System (Fin 4) (Fin 3) Nat),
      Trace Initial Permitted System.step past system ∧
      system.threads.effective 0 = 30 ∧ system.threads.effective 2 = 5 ∧
      system.threads.kept 0 = 30 ∧ Inherited system := by
  obtain ⟨past, system, run, seen⟩ := Trace.observe Permitted System.step start start_initial
    [.seize 0 0 true, .seize 1 1 true, .seize 2 2 true, .seize 0 1 true, .seize 1 2 true,
      .seize 2 3 true, .changePriority 3 5, .timeout 2]
    (fun system => (system.threads.effective 0, system.threads.effective 2, system.threads.kept 0))
    (30, 5, 30) (by decide +kernel) (by decide +kernel)
  simp only [Prod.mk.injEq] at seen
  obtain ⟨first, third, kept⟩ := seen
  exact ⟨past, system, run, first, third, kept, (runs_inherit_priorities past system run).1⟩

end Rtems.PriorityInherit
