import Mathlib.Data.Fintype.EquivFin
import Rtems.ThreadQueue.Inheritance

/-!
# Flush of a priority inheritance mutex

All threads that wait for a mutex are extracted one after another, each with the actions
along the owners that follow from it. The updates of the single extractions are only
counted; after the threads are unblocked, the scheduler is told of the owner of the mutex.
If the owner waits for another mutex, then the priority of the thread at the end of the
owners may change as well, and the scheduler does not know of it.
-/

namespace Rtems.PriorityInherit

open Transition Successor
open Rtems.Priority
open Rtems.ThreadQueue
open Function (update)

universe u
variable {T M P : Type u}

section Operations

variable [Fintype T] [DecidableEq T] [DecidableEq M] [LinearOrder P]

/-- The first loop of `_Thread_queue_Flush_critical` with the filter
`_Thread_queue_Flush_status_unavailable`, for a number of rounds at most: the threads to
unblock and the number of priority updates. -/
def System.flushLoop (mutex : M) :
    Nat → System T M P → List T → Nat → Option (System T M P × List T × Nat)
  | 0, _, _, _ => none
  | rounds + 1, system, unblock, priorityUpdates =>
      match (system.queue mutex).contributors.head? with
      | none => some (system, unblock, priorityUpdates)
      | some (first, _) => do
          let (system, updates) ← (system.return first .unavailable).extract mutex first
          let system := { system with waitQueue := Function.update system.waitQueue first none }
          flushLoop mutex rounds system (unblock ++ [first]) (priorityUpdates + updates.length)

/-- `_Thread_queue_Flush_critical`. -/
def System.flush (system : System T M P) (mutex : M) : Option (System T M P) := do
  let (system, unblock, priorityUpdates) ← system.flushLoop mutex (Fintype.card T + 1) [] 0
  if unblock.isEmpty then some system
  else
    let system := { system with threads := unblock.foldl Threads.unblock system.threads }
    if priorityUpdates ≠ 0 then do
      let owner ← system.owner mutex
      some (system.update [owner])
    else some system

/-- The operations on the mutexes, and the flush. -/
inductive Command (T M P : Type u) where
  | operate (operation : Operation T M P)
  | flush (mutex : M)

/-- One command. It starts with no updates. -/
def System.command (system : System T M P) : Command T M P → Option (System T M P)
  | .operate operation => system.step operation
  | .flush mutex => { system with updated := [] }.flush mutex

end Operations

/-- Whether a command is an operation on the mutexes. -/
def Command.isOperate : Command T M P → Bool
  | .operate _ => true
  | .flush _ => false

/-- A thread waits for a mutex, directly or through a chain of owners. -/
def System.Through (system : System T M P) (mutex : M) (thread : T) : Prop :=
  system.waitQueue thread = some mutex ∨
    ∃ other, Leads system.graph.blocker thread other ∧ system.waitQueue other = some mutex

/-- A flush is contained if the owner of the mutex does not wait, or a thread that does not
wait through the mutex has the effective priority of the thread at the end of the owners
and leads to it. -/
def Contained (system : System T M P) : Command T M P → Prop
  | .operate _ => True
  | .flush mutex => ∀ owner last, system.owner mutex = some owner →
      Leads system.graph.blocker owner last → system.waitQueue last = none →
      ∃ source, (source = last ∨ Leads system.graph.blocker source last) ∧
        ¬system.Through mutex source ∧
        system.realPriority source = system.threads.effective last

/-- A flush is always permitted. -/
def Allows (system : System T M P) : Command T M P → Prop
  | .operate operation => Permitted system operation
  | .flush _ => True

variable {sys : System T M P}

section Loop

variable [Fintype T] [DecidableEq T] [DecidableEq M] [LinearOrder P]

/-- What the loop of a flush does. -/
structure Drained (mutex : M) (system : System T M P) (unblock : List T) (count : Nat)
    (after : System T M P) (woken : List T) (total : Nat) : Prop where
  steady : Steady after
  waitQueue : ∀ thread, after.waitQueue thread =
    if system.waitQueue thread = some mutex then none else system.waitQueue thread
  owner : after.owner = system.owner
  realPriority : after.realPriority = system.realPriority
  ready : after.threads.ready = system.threads.ready
  same : after.threads.kept = system.threads.kept
  returnCode : ∀ thread, after.returnCode thread =
    if system.waitQueue thread = some mutex then .unavailable else system.returnCode thread
  woken : ∀ thread, thread ∈ woken ↔ thread ∈ unblock ∨ system.waitQueue thread = some mutex
  kept : total = 0 → count = 0 ∧ (system.threads.Kept [] → after.threads.Kept [])
  idle : (∀ thread, system.waitQueue thread ≠ some mutex) → total = count

theorem Steady.round (steady : Steady sys) (mutex : M) (first : T)
    (here : sys.waitQueue first = some mutex) :
    ∃ after updates, (sys.return first .unavailable).extract mutex first = some (after, updates) ∧
      Frame (sys.return first .unavailable) after ∧
      (sys.threads.Kept [] → after.threads.Kept updates) ∧
      Steady { after with waitQueue := update after.waitQueue first none } := by
  have marked : Steady (sys.return first .unavailable) :=
    ⟨⟨{ steady with }, steady.threads, steady.contributors⟩,
      steady.graph.congr rfl rfl fun _ => .refl _, steady.blocked⟩
  obtain ⟨after, updates, res, settled⟩ := marked.extract mutex first here
  refine ⟨after, updates, res, settled.frame, settled.kept, ?_⟩
  have waitQueue : update after.waitQueue first none = update sys.waitQueue first none := by
    rw [settled.frame.waitQueue]
    rfl
  have graph := steady.graph.leave mutex first () (sys.owner mutex) here (.inr rfl)
  have owner : after.owner = update sys.graph.owner mutex (sys.owner mutex) := by
    rw [settled.frame.owner]
    exact (Function.update_eq_self ..).symm
  have coherent : Coherent (update after.waitQueue first none)
      { after with waitQueue := update after.waitQueue first none } := by
    rw [waitQueue]
    exact ⟨{ settled.coherent with },
      settled.coherent.threads, settled.coherent.contributors⟩
  have blocker : { after with
      waitQueue := update after.waitQueue first none }.graph.blocker = ({ sys.graph with
          owner := update sys.graph.owner mutex (sys.owner mutex)
          queue := update sys.graph.queue mutex ((sys.graph.queue mutex).erase first)
          priorities := () }.restoreDefault first).blocker := by
    funext tested
    rw [waitQueue, owner]
    rfl
  refine ⟨coherent, coherent.toQueued.graph (blocker ▸ graph.acyclic) ?_, ?_⟩
  · intro thread tested waits
    have waits : update sys.waitQueue first none thread = some tested := by
      rw [← waitQueue]
      exact waits
    rw [owner]
    exact graph.blocked waits
  · intro thread tested waits
    have waits : update sys.waitQueue first none thread = some tested := by
      rw [← waitQueue]
      exact waits
    rw [settled.frame.ready]
    by_cases same : thread = first
    · simp [same] at waits
    · rw [Function.update_of_ne same] at waits
      exact steady.blocked thread tested waits

/-- The loop of a flush completes. -/
theorem Steady.drain (mutex : M) (rounds : Nat) (sys : System T M P) (unblock : List T)
    (count : Nat) (steady : Steady sys) (enough : (Finset.univ.filter fun thread =>
      sys.waitQueue thread = some mutex).card < rounds) :
    ∃ after woken total, System.flushLoop mutex rounds sys unblock count =
        some (after, woken, total) ∧ Drained mutex sys unblock count after woken total := by
  induction rounds generalizing sys unblock count with
  | zero => omega
  | succ rounds ih =>
    unfold System.flushLoop
    cases head : (sys.queue mutex).contributors.head? with
    | none =>
      have nobody : ∀ thread, sys.waitQueue thread ≠ some mutex := by
        intro thread here
        have inside := (steady.waiting mutex thread _).mpr ⟨here, rfl⟩
        rw [List.head?_eq_none_iff.mp head] at inside
        cases inside
      exact ⟨sys, unblock, count, rfl, steady, by simp [nobody], rfl, rfl, rfl, rfl,
        by simp [nobody], by simp [nobody], fun none => ⟨none, id⟩, fun _ => rfl⟩
    | some entry =>
      obtain ⟨first, prio⟩ := entry
      have here : sys.waitQueue first = some mutex :=
        ((steady.waiting mutex first prio).mp (List.mem_of_mem_head? head)).1
      obtain ⟨after, updates, res, frame, kept, next⟩ := steady.round mutex first here
      have waitQueue : update after.waitQueue first none = update sys.waitQueue first none := by
        rw [frame.waitQueue]
        rfl
      have fewer : (Finset.univ.filter fun thread =>
          update after.waitQueue first none thread = some mutex).card < rounds := by
        refine lt_of_lt_of_le (Finset.card_lt_card ?_) (Nat.le_of_lt_succ enough)
        refine Finset.ssubset_iff_subset_ne.mpr ⟨?_, ?_⟩
        · intro thread inside
          rw [waitQueue] at inside
          by_cases same : thread = first
          · simp [same] at inside
          · simpa [same] using inside
        · intro same
          have inside : first ∈ Finset.univ.filter fun thread =>
              sys.waitQueue thread = some mutex := by simpa using here
          rw [← same] at inside
          simp at inside
      obtain ⟨last, woken, total, fed, drained⟩ := ih _ (unblock ++ [first])
        (count + updates.length) next fewer
      simp only [res]
      refine ⟨last, woken, total, fed, drained.steady, ?_, drained.owner.trans frame.owner,
        drained.realPriority.trans frame.realPriority, drained.ready.trans frame.ready,
        drained.same.trans frame.kept, ?_, ?_, ?_, fun nobody => absurd here (nobody first)⟩
      · intro thread
        rw [drained.waitQueue]
        rw [waitQueue]
        by_cases same : thread = first
        · simp [same, here]
        · simp [same]
      · intro thread
        rw [drained.returnCode]
        rw [waitQueue, frame.returnCode]
        by_cases same : thread = first
        · simp [same, here, System.return]
        · simp [same, System.return]
      · intro thread
        rw [drained.woken]
        rw [waitQueue]
        by_cases same : thread = first
        · simp [same, here]
        · simp [same]
      · intro none
        obtain ⟨zero, later⟩ := drained.kept none
        obtain ⟨zero, empty⟩ : count = 0 ∧ updates.length = 0 := by omega
        refine ⟨zero, fun before => later ?_⟩
        have told := kept before
        rw [List.length_eq_zero_iff.mp empty] at told
        exact told

/-- What a flush does: all threads that wait for the mutex are ready, and the scheduler knows
the priorities of these and of the owner; of the others it knows what it knew before. -/
structure Flushed (mutex : M) (system after : System T M P) : Prop where
  sound : Sound after
  waitQueue : ∀ thread, after.waitQueue thread =
    if system.waitQueue thread = some mutex then none else system.waitQueue thread
  owner : after.owner = system.owner
  realPriority : after.realPriority = system.realPriority
  woken : ∀ thread, system.waitQueue thread = some mutex →
    after.threads.ready thread = true ∧ after.returnCode thread = .unavailable
  told : ∀ thread, after.threads.ready thread = true →
    system.waitQueue thread = some mutex ∨ system.owner mutex = some thread →
    after.threads.kept thread = after.threads.effective thread
  same : ∀ thread, system.threads.ready thread = true → system.owner mutex ≠ some thread →
    after.threads.kept thread = system.threads.kept thread

omit [Fintype T] in
/-- The threads that were extracted are unblocked. -/
theorem Drained.unblocked {mutex : M} {after : System T M P} {woken : List T} {total : Nat}
    (drained : Drained mutex sys [] 0 after woken total) (sound : Sound sys) :
    Sound { after with threads := woken.foldl Threads.unblock after.threads } := by
  rw [Threads.unblock_eq]
  have coherent := drained.steady.toCoherent.withThreads
    (fun thread => if thread ∈ woken then true else after.threads.ready thread)
    (fun thread => if thread ∈ woken then after.threads.value thread else after.threads.kept thread)
  refine coherent.sound drained.steady.graph rfl rfl ?_
  intro thread
  show (if thread ∈ woken then true else after.threads.ready thread) = true ↔
    after.waitQueue thread = none
  rw [drained.waitQueue, drained.ready]
  have inside := drained.woken thread
  by_cases here : sys.waitQueue thread = some mutex
  · simp [here, inside]
  · simp [here, inside, sound.ready]

theorem Sound.flush (sound : Sound sys) (kept : sys.threads.Kept []) (mutex : M) :
    ∃ after, sys.flush mutex = some after ∧ Flushed mutex sys after := by
  have enough : (Finset.univ.filter fun thread => sys.waitQueue thread = some mutex).card <
      Fintype.card T + 1 := Nat.lt_succ_of_le (Finset.card_le_univ _)
  obtain ⟨after, woken, total, res, drained⟩ :=
    Steady.drain mutex (Fintype.card T + 1) sys [] 0 sound.steady enough
  have unblocked := drained.unblocked sound
  have shape := Threads.unblock_eq after.threads woken
  have inside : ∀ thread, thread ∈ woken ↔ sys.waitQueue thread = some mutex := by
    simp [drained.woken]
  have awake : ∀ thread, sys.threads.ready thread = true → thread ∉ woken := by
    intro thread ready member
    rw [sound.blocked ((inside thread).mp member)] at ready
    cases ready
  have codes : ∀ thread, sys.waitQueue thread = some mutex →
      after.returnCode thread = .unavailable := by
    intro thread here
    rw [drained.returnCode, if_pos here]
  simp only [System.flush, res, Option.bind_eq_bind, Option.bind_some]
  by_cases empty : woken = []
  · subst empty
    have nobody : ∀ thread, sys.waitQueue thread ≠ some mutex := by
      intro thread here
      exact absurd ((inside thread).mpr here) List.not_mem_nil
    refine ⟨after, rfl, unblocked, drained.waitQueue, drained.owner, drained.realPriority,
      fun thread here => absurd here (nobody thread), ?_, ?_⟩
    · intro thread ready _
      exact (drained.kept (drained.idle nobody)).2 kept thread ready (by simp)
    · intro thread _ _
      rw [drained.same]
  have isEmpty : woken.isEmpty = false := by simpa using empty
  simp only [isEmpty]
  by_cases silent : total = 0
  · simp only [silent]
    refine ⟨_, rfl, unblocked, drained.waitQueue, drained.owner, drained.realPriority, ?_, ?_, ?_⟩
    · intro thread here
      refine ⟨?_, codes thread here⟩
      rw [shape]
      simp [inside, here]
    · intro thread ready _
      rw [shape] at ready ⊢
      show (if thread ∈ woken then after.threads.value thread else after.threads.kept thread) =
        after.threads.effective thread
      split
      case isTrue => exact drained.steady.threads.value thread
      case isFalse outside =>
        refine (drained.kept silent).2 kept thread ?_ (by simp)
        simpa [outside] using ready
    · intro thread ready _
      rw [shape]
      simp [awake thread ready, drained.same]
  · obtain ⟨first, member⟩ := List.exists_mem_of_ne_nil woken empty
    obtain ⟨owner, owns⟩ : ∃ owner, sys.owner mutex = some owner :=
      sound.graph.blocked ((inside first).mp member)
    have held : after.owner mutex = some owner := by rw [drained.owner, owns]
    simp only [ne_eq, silent, held]
    refine ⟨_, rfl, unblocked.rescheduled [owner], drained.waitQueue, drained.owner,
      drained.realPriority, ?_, ?_, ?_⟩
    · intro thread here
      refine ⟨?_, codes thread here⟩
      rw [System.update_ready, shape]
      simp [inside, here]
    · intro thread ready reason
      rw [System.update_ready, shape] at ready
      rw [System.update, Threads.update_eq, shape]
      show (if thread ∈ [owner] ∧
          (if thread ∈ woken then true else after.threads.ready thread) = true
        then after.threads.value thread
        else if thread ∈ woken then after.threads.value thread else after.threads.kept thread) =
          after.threads.effective thread
      rw [← drained.steady.threads.value thread]
      rcases reason with here | here
      · simp [(inside thread).mpr here]
      · cases here.symm.trans owns
        rw [if_pos ⟨List.mem_singleton_self _, ready⟩]
    · intro thread ready other
      have outside : thread ∉ [owner] := by
        intro same
        exact other (by rw [List.mem_singleton.mp same]; exact owns)
      rw [System.update_kept _ _ _ outside, shape]
      simp [awake thread ready, drained.same]

end Loop

section Priorities

variable [Fintype T] [DecidableEq T] [DecidableEq M] [LinearOrder P] {mutex : M}
  {sys after : System T M P}

variable {last : T}

omit [Fintype T] [DecidableEq T] in
/-- The walks that are left after a flush. -/
theorem Flushed.leads_iff (flushed : Flushed mutex sys after) {source : T}
    (idle : sys.waitQueue last = none) :
    Leads after.graph.blocker source last ↔
      Leads sys.graph.blocker source last ∧ ¬sys.Through mutex source := by
  have blocker : after.graph.blocker = fun thread =>
      if sys.waitQueue thread = some mutex then none else sys.graph.blocker thread := by
    funext thread
    show (after.waitQueue thread).bind after.owner = _
    rw [flushed.waitQueue, flushed.owner]
    split
    · rfl
    · rfl
  have stop : sys.graph.blocker last = none := by
    simp [Deadlock.System.blocker, System.graph, idle]
  rw [blocker, leads_cut (fun thread => sys.waitQueue thread = some mutex) stop (by simp [idle])]
  simp only [System.Through, not_or, not_exists, not_and]

section

omit [DecidableEq T]

/-- When a flush keeps the effective priority of a thread that does not wait. -/
theorem Flushed.effective_iff (flushed : Flushed mutex sys after) (sound : Sound sys)
    (idle : sys.waitQueue last = none) :
    after.threads.effective last = sys.threads.effective last ↔
      ∃ source, (source = last ∨ Leads sys.graph.blocker source last) ∧
        ¬sys.Through mutex source ∧ sys.realPriority source = sys.threads.effective last := by
  have stop : sys.graph.blocker last = none := by
    simp [Deadlock.System.blocker, System.graph, idle]
  have clear : ¬sys.Through mutex last := by
    rintro (here | ⟨other, walk, -⟩)
    · rw [idle] at here
      cases here
    · exact not_leads stop walk
  have least := flushed.sound.effective_own last
  rw [flushed.realPriority] at least
  constructor
  · intro same
    obtain ⟨source, reached, equal⟩ := least.1
    refine ⟨source, ?_⟩
    rcases reached with rfl | walk
    · exact ⟨.inl rfl, clear, equal.trans same⟩
    · obtain ⟨walk, away⟩ := (flushed.leads_iff idle).mp walk
      exact ⟨.inr walk, away, equal.trans same⟩
  · rintro ⟨source, reached, away, equal⟩
    refine least.unique ⟨⟨source, ?_, equal⟩, ?_⟩
    · rcases reached with same | walk
      · exact .inl same
      · exact .inr ((flushed.leads_iff idle).mpr ⟨walk, away⟩)
    · rintro prio ⟨other, reached, rfl⟩
      refine (sound.effective_own last).2 ⟨other, ?_, rfl⟩
      rcases reached with same | walk
      · exact .inl same
      · exact .inr ((flushed.leads_iff idle).mp walk).1

/-- The priority of a thread that is not behind the owner stays the same. -/
theorem Flushed.unaffected (flushed : Flushed mutex sys after) (sound : Sound sys)
    (idle : sys.waitQueue last = none) (apart : ∀ owner, sys.owner mutex = some owner → owner
      ≠ last ∧ ¬Leads sys.graph.blocker owner last) :
    after.threads.effective last = sys.threads.effective last := by
  have stop : sys.graph.blocker last = none := by
    simp [Deadlock.System.blocker, System.graph, idle]
  -- A thread that waits for the mutex leads to its owner and not to the last thread.
  have away : ∀ thread, sys.waitQueue thread = some mutex →
      ¬Leads sys.graph.blocker thread last := by
    intro thread here walk
    obtain ⟨owner, owns⟩ : ∃ owner, sys.owner mutex = some owner := sound.graph.blocked here
    obtain ⟨another, edge, rest⟩ := Successor.leads_iff.mp walk
    obtain rfl : owner = another := by
      have blocked : sys.graph.blocker thread = some owner := by
        simp [Deadlock.System.blocker, System.graph, here, owns]
      exact Option.some.inj (blocked.symm.trans edge)
    rcases rest with same | rest
    · exact (apart owner owns).1 same
    · exact (apart owner owns).2 rest
  obtain ⟨source, reached, equal⟩ := (sound.effective_own last).1
  refine (flushed.effective_iff sound idle).mpr ⟨source, reached, ?_, equal⟩
  rintro (here | ⟨other, walk, here⟩)
  · rcases reached with rfl | rest
    · rw [idle] at here
      cases here
    · exact away source here rest
  · rcases reached with rfl | rest
    · exact not_leads stop walk
    · rcases walk.compare rest with rfl | behind | before
      · rw [idle] at here
        cases here
      · exact away other here behind
      · exact not_leads stop before

/-- The scheduler knows all priorities after a flush exactly if it is contained. -/
theorem Flushed.kept_iff (flushed : Flushed mutex sys after) (sound : Sound sys)
    (kept : sys.threads.Kept []) : after.threads.Kept [] ↔ Contained sys (.flush mutex) := by
  constructor
  · intro told owner last owns walk idle
    have ready := (sound.ready last).mpr idle
    have different : sys.owner mutex ≠ some last := by
      intro same
      cases owns.symm.trans same
      exact sound.graph.acyclic owner walk
    refine (flushed.effective_iff sound idle).mp ?_
    have active : after.threads.ready last = true := by
      rw [flushed.sound.ready, flushed.waitQueue]
      simp [idle]
    rw [← told last active (by simp), flushed.same last ready different, kept last ready (by simp)]
  · intro contained thread active _
    by_cases here : sys.waitQueue thread = some mutex
    · exact flushed.told thread active (.inl here)
    by_cases owns : sys.owner mutex = some thread
    · exact flushed.told thread active (.inr owns)
    have idle : sys.waitQueue thread = none := by
      have free := (flushed.sound.ready thread).mp active
      rwa [flushed.waitQueue, if_neg here] at free
    have ready := (sound.ready thread).mpr idle
    rw [flushed.same thread ready owns, kept thread ready (by simp)]
    by_cases behind : ∃ owner, sys.owner mutex = some owner ∧ Leads sys.graph.blocker owner thread
    · obtain ⟨owner, held, walk⟩ := behind
      exact ((flushed.effective_iff sound idle).mpr (contained owner thread held walk idle)).symm
    · refine (flushed.unaffected sound idle ?_).symm
      intro owner held
      refine ⟨?_, fun walk => behind ⟨owner, held, walk⟩⟩
      rintro rfl
      exact owns held

end

end Priorities

section Runs

variable [Fintype T] [DecidableEq T] [DecidableEq M] [LinearOrder P]

/-- One command completes and keeps the invariant; the scheduler knows the effective
priorities if the command is contained. -/
theorem Sound.command (sound : Sound sys) (kept : sys.threads.Kept [])
    (command : Command T M P) (allows : Allows sys command) :
    ∃ after, sys.command command = some after ∧ Sound after ∧
      (Contained sys command → after.threads.Kept []) := by
  cases command with
  | operate op =>
    obtain ⟨after, res, completed⟩ := sound.step kept op allows
    exact ⟨after, res, completed.sound, fun _ => completed.kept⟩
  | flush mutex =>
    obtain ⟨after, res, flushed⟩ := (sound.withUpdated []).flush kept mutex
    exact ⟨after, res, flushed.sound, (flushed.kept_iff (sound.withUpdated []) kept).mpr⟩

/-- Along every run in which the flushes are contained the priorities are inherited exactly.
A flush completes, no thread waits for the mutex any more, and the threads that waited for
it are ready with a status; the priorities are inherited exactly, as far as the scheduler
knows, exactly if the flush is contained. -/
theorem runs_flush_inherited_priorities (past : List (System T M P)) (system : System T M P)
    (run : Trace Initial (fun state command => Allows state command ∧ Contained state command)
      System.command past system) :
    Inherited system ∧ ∀ mutex, ∃ next, system.command (.flush mutex) = some next ∧
      (∀ thread, next.waitQueue thread ≠ some mutex) ∧
      (∀ thread, system.waitQueue thread = some mutex →
        next.threads.ready thread = true ∧ next.returnCode thread = .unavailable) ∧
      (Inherited next ↔ Contained system (.flush mutex)) := by
  obtain ⟨sound, kept⟩ : Sound system ∧ system.threads.Kept [] := by
    refine run.invariant (fun state => Sound state ∧ state.threads.Kept [])
      (fun _ initial => ⟨initial.sound, initial.kept_all⟩) ?_
    rintro state command next ⟨sound, kept⟩ ⟨allows, contained⟩ taken
    obtain ⟨after, result, made, told⟩ := sound.command kept command allows
    cases taken.symm.trans result
    exact ⟨made, told contained⟩
  refine ⟨sound.inherited kept, ?_⟩
  intro mutex
  obtain ⟨next, result, flushed⟩ := (sound.withUpdated []).flush kept mutex
  refine ⟨next, result, ?_, flushed.woken, ?_⟩
  · intro thread here
    rw [flushed.waitQueue] at here
    split at here
    case isTrue => cases here
    case isFalse away => exact away here
  · exact flushed.sound.inherited_iff.trans (flushed.kept_iff (sound.withUpdated []) kept)

end Runs

instance [DecidableEq M] (system : System T M P) (command : Command T M P) :
    Decidable (Allows system command) :=
  match command with
  | .operate operation => inferInstanceAs (Decidable (Permitted system operation))
  | .flush _ => .isTrue trivial

/-- Two threads wait for a mutex whose owner does not wait, and it is flushed. -/
theorem runs_flush_inherited_priorities_single :
    ∃ (past : List (System (Fin 4) (Fin 3) Nat)) (system next : System (Fin 4) (Fin 3) Nat),
      Trace Initial (fun state command => Allows state command ∧ Contained state command)
        System.command past system ∧ system.waitQueue 2 = some 1 ∧ system.waitQueue 3 = some 1 ∧
      system.command (.flush 1) = some next ∧ next.threads.ready 3 = true ∧ Inherited next := by
  obtain ⟨past, system, run, seen⟩ := Trace.observe
    (fun (state : System (Fin 4) (Fin 3) Nat) command => Allows state command ∧
      command.isOperate = true)
    System.command start start_initial
    [.operate (.seize 1 1 true), .operate (.seize 1 2 true), .operate (.seize 1 3 true)]
    (fun system => (system.waitQueue 1, system.waitQueue 2, system.waitQueue 3, system.owner 1))
    (none, some 1, some 1, some 1) (by decide +kernel) (by decide +kernel)
  simp only [Prod.mk.injEq] at seen
  obtain ⟨idle, second, third, owns⟩ := seen
  have run : Trace Initial (fun state command => Allows state command ∧ Contained state command)
      System.command past system := by
    refine run.mono ?_
    rintro state (operation | mutex) ⟨allows, kind⟩
    · exact ⟨allows, trivial⟩
    · cases kind
  obtain ⟨-, flushes⟩ := runs_flush_inherited_priorities past system run
  obtain ⟨next, result, -, woken, exact⟩ := flushes 1
  refine ⟨past, system, next, run, second, third, result, (woken 3 third).1, exact.mpr ?_⟩
  intro owner last held walk _
  cases owns.symm.trans held
  refine absurd walk (not_leads ?_)
  simp [Deadlock.System.blocker, System.graph, idle]

/-- The owner of a flushed mutex waits for another one: its owner loses the inherited
priority and the scheduler keeps it under this priority. -/
theorem flush_unknown_to_scheduler :
    ∃ (past : List (System (Fin 4) (Fin 3) Nat)) (system : System (Fin 4) (Fin 3) Nat),
      Trace Initial Allows System.command past system ∧
      system.threads.effective 0 = 30 ∧ system.threads.kept 0 = 10 ∧ ¬Inherited system := by
  obtain ⟨past, system, run, seen⟩ := Trace.observe Allows System.command start start_initial
    [.operate (.seize 0 0 true), .operate (.seize 1 1 true), .operate (.seize 0 1 true),
      .operate (.seize 1 3 true), .flush 1]
    (fun system => (system.threads.effective 0, system.threads.kept 0, system.threads.ready 0))
    (30, 10, true) (by decide +kernel) (by decide +kernel)
  simp only [Prod.mk.injEq] at seen
  obtain ⟨effective, kept, ready⟩ := seen
  refine ⟨past, system, run, effective, kept, ?_⟩
  intro inherited
  have same := inherited.kept 0 ready
  omega

end Rtems.PriorityInherit
