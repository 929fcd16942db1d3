import Rtems.Classic.TimerFires

/-!
# Runs of the timers

The sections of the interface, the tick and the timer server are interleaved in any order.
-/

namespace Rtems.Timer

open Transition

universe u v w x
variable {T : Type u} {C : Type v} {R : Type w} {U : Type x}

/-- The timer server works, has its event, or is about to get it. -/
def System.Awake (system : System T C R U) : Prop :=
  system.server ≠ .receiving ∨ system.event = true ∨ 0 < system.sending

/-- Timers are in their places and their fires are accounted for, and the timer server is awake while timers
are pending. -/
structure Sound (system : System T C R U) : Prop where
  placed : Placed system
  accounted : Accounted system
  awake : system.pending ≠ [] → system.Awake

variable {sys : System T C R U}
variable {system : System T C R U}

variable {next : System T C R U}

/-- A system that differs in the times, the event and the place of the server only. -/
theorem Sound.relabel (sound : Sound sys) (timer : next.timer = sys.timer)
    (tree : next.tree = sys.tree) (calls : next.calls = sys.calls)
    (pending : next.pending = sys.pending) (fires : next.fires = sys.fires)
    (started : next.started.Perm sys.started) (cancelled : next.cancelled = sys.cancelled)
    (awake : sys.Awake → next.Awake) :
    Sound next := by
  constructor
  case placed =>
    constructor
    case each =>
      intro timer'
      exact (sound.placed.each timer').untouched (by rw [timer]) (by rw [tree]) (by rw [pending])
        fun call mem _ => calls ▸ mem
    case treeOnce => exact tree ▸ sound.placed.treeOnce
    case pendingOnce => exact pending ▸ sound.placed.pendingOnce
  case accounted =>
    refine sound.accounted.keep fires started cancelled ?_ ?_ (calls ▸ sound.accounted.callsOnce)
    · intro timer' fire owes
      rw [timer]
      exact ⟨owes.before (by rw [timer]) fun call mem _ => calls ▸ mem, rfl, rfl⟩
    · rw [timer, calls]
      exact sound.accounted.active
  case awake =>
    rw [pending]
    exact fun active => awake (sound.awake active)

/-- A cancelled fire does not lead to a run. -/
theorem Accounted.prevented (accounted : Accounted sys) {fire : Nat}
    (mem : fire ∈ sys.cancelled) : ∀ run ∈ sys.runs, run.fire ≠ fire := by
  intro run begun same
  have once := (List.nodup_append.mp accounted.endedOnce).2.2
  have began : run ∈ sys.started := List.mem_append_right _ begun
  exact once run.fire (List.mem_map.mpr ⟨run, began, rfl⟩) fire mem same

section Runs

variable [DecidableEq T] {sys : System T C R U}

/-- A cancel does not make a timer pending, and does not put the timer server to sleep. -/
theorem Sound.cancel (sound : Sound sys) (timer : T) : Sound (sys.cancel timer) := by
  refine ⟨sound.placed.cancel timer, sound.accounted.cancel sound.placed timer, ?_⟩
  obtain ⟨_, cancel⟩ | ⟨_, cancel⟩ | ⟨_, cancel⟩ := sound.placed.cancel_cases timer
  · rw [cancel]
    exact sound.awake
  · rw [cancel]
    intro pending
    refine sound.awake fun empty => pending ?_
    simp [empty]
  · rw [cancel]
    exact sound.awake

variable {timer : T}

theorem Sound.fire (sound : Sound sys) (cpuOf : T → C) (interval : Nat) (routine : R)
    (userData : U) {theClass : Class} (class' : theClass ≠ .dormant)
    (unserved : sys.Unserved timer)
    (same : (∃ call ∈ sys.calls, call.timer = timer) → (sys.timer timer).routine = routine ∧ (sys.timer timer).userData = userData)
    :
    Sound (sys.fire cpuOf timer interval routine userData theClass) :=
  ⟨sound.placed.fire cpuOf interval routine userData class' unserved,
    sound.accounted.fire sound.placed cpuOf interval routine userData theClass same,
    (sound.cancel timer).awake⟩

theorem Sound.reset (sound : Sound sys) (cpuOf : T → C)
    (careful : (sys.timer timer).theClass.isInterval = false ∨ sys.Unserved timer) :
    Sound (sys.reset cpuOf timer) := by
  cases interval : (sys.timer timer).theClass.isInterval with
  | false => simpa [System.reset, interval] using sound
  | true =>
    have unserved := careful.resolve_left (by simp [interval])
    refine ⟨sound.placed.reset cpuOf interval unserved,
      sound.accounted.reset sound.placed cpuOf interval, ?_⟩
    rw [System.reset_eq cpuOf interval]
    exact (sound.cancel timer).awake

/-- The call of an adaptor keeps the system sound: the first timer that is pending wakes the server. -/
theorem Sound.callAdaptor (sound : Sound sys) {index : Nat} {call : Call T}
    (found : sys.calls[index]? = some call) :
    Sound ({ sys with calls := sys.calls.eraseIdx index }.callAdaptor call) := by
  have placed := sound.placed.callAdaptor found (sound.accounted.others_called found)
  cases which : call.adaptor with
  | timer =>
    refine ⟨placed, sound.accounted.callTimer found which, ?_⟩
    simp only [System.callAdaptor, which]
    exact sound.awake
  | server =>
    refine ⟨placed, sound.accounted.callServer sound.placed found which, ?_⟩
    simp only [System.callAdaptor, which]
    by_cases empty : sys.pending = []
    · simp [System.Awake, empty]
    · simpa [System.Awake, System.set, empty] using sound.awake empty

/-- A fetch keeps the system sound: the server only waits when no timer is pending. -/
theorem Sound.fetch (sound : Sound sys) (server : sys.server = .fetching) : Sound sys.fetch := by
  refine ⟨sound.placed.fetch, sound.accounted.fetch sound.placed server, ?_⟩
  unfold System.fetch
  cases pending : sys.pending with
  | nil => simp
  | cons timer rest => simp [System.Awake]

/-- A cancel records, and takes no record back. -/
theorem System.cancel_kept (sys : System T C R U) (timer : T) {fire : Nat}
    (mem : fire ∈ sys.cancelled) : fire ∈ (sys.cancel timer).cancelled := by
  simp only [System.cancel]
  split
  · exact List.mem_append_left _ mem
  · split
    · split
      · exact List.mem_append_left _ mem
      · exact mem
    · exact mem

/-- A cancel of a scheduled or pending timer cancels its fire. -/
theorem Placed.cancel_records (placed : Placed sys) (state : (sys.timer timer).state ≠ .inactive) :
    (sys.timer timer).fire ∈ (sys.cancel timer).cancelled := by
  obtain ⟨_, cancel⟩ | ⟨_, cancel⟩ | ⟨inactive, _⟩ := placed.cancel_cases timer
  iterate 2
    · rw [cancel]
      exact List.mem_append_right _ (List.mem_singleton_self _)
  · exact absurd inactive state

variable [DecidableEq C] {cpuOf : T → C}

variable {action : Action T C R U}

/-- A careful section keeps the system sound. -/
theorem Sound.step (sound : Sound sys) (careful : Careful sys action)
    (taken : step cpuOf sys action = some next) :
    Sound next := by
  cases action with
  | fire timer interval routine userData theClass =>
    simp only [Timer.step] at taken
    split at taken
    · cases taken
    · rename_i class'
      split at taken
      · cases taken
        exact sound
      · rename_i positive
        split at taken
        · cases taken
          exact sound
        · rename_i later
          cases taken
          obtain ⟨unserved, same⟩ := (careful.resolve_left positive).resolve_left later
          exact sound.fire cpuOf interval routine userData class' unserved same
  | reset timer =>
    cases taken
    exact sound.reset cpuOf careful
  | cancel timer =>
    cases taken
    exact sound.cancel timer
  | tick | second =>
    cases taken
    exact sound.relabel rfl rfl rfl rfl rfl (List.Perm.refl _) rfl id
  | expire timer =>
    simp only [Timer.step] at taken
    split at taken
    · rename_i expired
      cases taken
      exact ⟨sound.placed.expire expired.1, sound.accounted.expire sound.placed expired.1,
        sound.awake⟩
    · cases taken
  | call index =>
    simp only [Timer.step] at taken
    split at taken
    · rename_i call found
      cases taken
      exact sound.callAdaptor found
    · cases taken
  | send =>
    simp only [Timer.step] at taken
    split at taken
    · cases taken
      exact sound.relabel rfl rfl rfl rfl rfl (List.Perm.refl _) rfl fun _ => .inr (.inl rfl)
    · cases taken
  | fetch =>
    simp only [Timer.step] at taken
    split at taken
    · cases taken
      exact sound.fetch ‹_›
    · cases taken
  | run =>
    simp only [Timer.step] at taken
    split at taken
    · rename_i run server
      cases taken
      have begun : ([] ++ (sys.runs ++ [run])).Perm sys.started := by
        rw [System.started, server]
        exact List.perm_append_singleton _ _
      exact sound.relabel rfl rfl rfl rfl rfl begun rfl fun _ => .inl (by simp)
    · cases taken
  | receive =>
    simp only [Timer.step] at taken
    split at taken
    · rename_i server
      split at taken
      · cases taken
        have begun : ([] ++ sys.runs).Perm sys.started := by
          rw [System.started, server]
          exact List.Perm.refl _
        exact sound.relabel rfl rfl rfl rfl rfl begun rfl fun _ => .inl (by simp)
      · cases taken
    · cases taken

/-- Every run that fires and resets carefully leads to sound systems. -/
theorem Sound.trace {past : List (System T C R U)}
    (run : Trace Initial Careful (Timer.step cpuOf) past sys) : Sound sys := by
  refine run.invariant Sound (fun sys initial => ?_) fun sys action next sound careful taken =>
    sound.step careful taken
  refine ⟨.initial initial, .initial initial, fun active => ?_⟩
  obtain ⟨_, _, _, pending, _⟩ := initial
  exact absurd pending active

theorem step_cancelled {fire : Nat} (taken : step cpuOf sys action = some next)
    (mem : fire ∈ sys.cancelled) :
    fire ∈ next.cancelled := by
  cases action with
  | fire timer interval routine userData theClass =>
    simp only [Timer.step] at taken
    split at taken
    · cases taken
    · split at taken
      · exact Option.some.inj taken ▸ mem
      · split at taken
        · exact Option.some.inj taken ▸ mem
        · cases taken
          exact sys.cancel_kept timer mem
  | reset timer =>
    cases taken
    unfold System.reset
    split
    · exact sys.cancel_kept timer mem
    · exact mem
  | cancel timer =>
    cases taken
    exact sys.cancel_kept timer mem
  | call index =>
    simp only [Timer.step] at taken
    split at taken
    · cases taken
      unfold System.callAdaptor
      split <;> exact mem
    · cases taken
  | fetch =>
    simp only [Timer.step] at taken
    split at taken
    · cases taken
      unfold System.fetch
      split <;> exact mem
    · cases taken
  | tick | second => exact Option.some.inj taken ▸ mem
  | expire | send | run =>
    simp only [Timer.step] at taken
    split at taken
    · exact Option.some.inj taken ▸ mem
    · cases taken
  | receive =>
    simp only [Timer.step] at taken
    split at taken
    · split at taken
      · exact Option.some.inj taken ▸ mem
      · cases taken
    · cases taken

/-- The same for any number of sections. -/
theorem feed_cancelled {last : System T C R U} {actions : List (Action T C R U)} {fire : Nat}
    (fed : feed (Timer.step cpuOf) sys actions = some last) (mem : fire ∈ sys.cancelled) :
    fire ∈ last.cancelled := by
  induction actions generalizing sys with
  | nil => exact Option.some.inj fed ▸ mem
  | cons action actions ih =>
    obtain ⟨next, taken, fed⟩ := Option.bind_eq_some_iff.mp fed
    exact ih fed (step_cancelled taken mem)

end Runs

/-- What is promised of the timers at any time. -/
structure Orderly (system : System T C R U) : Prop where
  /-- A timer is in the tree, in the chain of the timer server or in neither, as its state says. -/
  tree : ∀ timer, timer ∈ system.tree ↔ (system.timer timer).state = .scheduled
  treeOnce : system.tree.Nodup
  pending : ∀ timer, timer ∈ system.pending ↔ (system.timer timer).state = .pending
  pendingOnce : system.pending.Nodup
  /-- A fire leads to at most one run, with the routine and the user data of the fire. -/
  runOnce : (system.runs.map Run.fire).Nodup
  runs : ∀ run ∈ system.runs, system.fires[run.fire]? = some run.toFire
  /-- The timer server does not sleep while a timer is pending. -/
  awake : system.pending ≠ [] → system.Awake

theorem Sound.orderly (sound : Sound sys) : Orderly sys := by
  constructor
  case tree => exact fun timer => (sound.placed.each timer).tree
  case treeOnce => exact sound.placed.treeOnce
  case pending => exact fun timer => (sound.placed.each timer).pending
  case pendingOnce => exact sound.placed.pendingOnce
  case runOnce =>
    have started := (List.nodup_append.mp sound.accounted.endedOnce).1
    rw [System.started, List.map_append] at started
    exact (List.nodup_append.mp started).2.1
  case runs => exact fun run begun => sound.accounted.started run (List.mem_append_right _ begun)
  case awake => exact sound.awake

variable [DecidableEq T] [DecidableEq C]

/-- In every run that does not fire or reset a timer while its removed watchdog waits for its adaptor, the timers
are orderly, and a cancel of a scheduled or pending timer prevents the run of its fire. -/
theorem careful_runs_are_orderly (cpuOf : T → C) {past : List (System T C R U)}
    {system : System T C R U} (run : Trace Initial Careful (step cpuOf) past system) :
    Orderly system ∧ ∀ timer, (system.timer timer).state ≠ .inactive → ∀ actions last,
      Allowed Careful (step cpuOf) (system.cancel timer) actions →
      feed (step cpuOf) (system.cancel timer) actions = some last →
      ∀ routine ∈ last.runs, routine.fire ≠ (system.timer timer).fire := by
  have sound := Sound.trace run
  refine ⟨sound.orderly, ?_⟩
  intro timer state actions last allowed fed
  have cancelled := feed_cancelled fed (sound.placed.cancel_records state)
  have next : Trace Initial Careful (step cpuOf) (system :: past) (system.cancel timer) :=
    .step past system _ (.cancel timer) run True.intro rfl
  obtain ⟨_, later⟩ := next.feed actions last allowed fed
  exact (Sound.trace later).accounted.prevented cancelled

/-- A system with one timer on one processor. -/
def single : System Unit Unit Nat Nat where
  ticks _ := 0
  seconds := 0
  timer _ := ⟨.inactive, .timer, 0, .dormant, 0, 0, 0, 0⟩
  tree := []
  calls := []
  pending := []
  sending := 0
  event := false
  server := .receiving
  fires := []
  runs := []
  cancelled := []

theorem single_initial : Initial single := ⟨fun _ => ⟨rfl, rfl⟩, rfl, rfl, rfl, rfl, rfl, rfl⟩

/-- A task-based timer expires, is taken by the server and is then fired again. -/
theorem careful_runs_are_orderly_single : ∃ past, ∃ system : System Unit Unit Nat Nat,
    Trace Initial Careful (step fun _ : Unit => ()) past system ∧
      (system.tree, system.runs.length, system.cancelled) = ([()], 1, []) ∧
      Orderly system ∧ ∀ timer, (system.timer timer).state ≠ .inactive → ∀ actions last,
        Allowed Careful (step fun _ => ()) (system.cancel timer) actions →
        feed (step fun _ => ()) (system.cancel timer) actions = some last →
        ∀ routine ∈ last.runs, routine.fire ≠ (system.timer timer).fire := by
  obtain ⟨past, system, run, seen⟩ := Trace.observe Careful (step fun _ : Unit => ()) single
    single_initial
    [.fire () 1 7 70 .intervalOnTask, .tick (), .expire (), .call 0, .send, .receive, .fetch, .run,
      .fire () 1 8 80 .intervalOnTask]
    (fun system => (system.tree, system.runs.length, system.cancelled)) ([()], 1, [])
    (by decide) rfl
  exact ⟨past, system, run, seen, careful_runs_are_orderly _ run⟩

/-- A timer that is fired again while its removed watchdog waits for the adaptor is in the tree and in the
chain of the timer server. The routine of a plain timer gets the user data of the second fire at the end of the
first. -/
theorem fire_in_gap_breaks_order :
    (∃ past, ∃ system : System Unit Unit Nat Nat,
      Trace Initial (fun _ _ => True) (step fun _ => ()) past system ∧
      (system.tree, system.pending, (system.timer ()).state) = ([()], [()], .pending)) ∧
    ∃ past, ∃ system : System Unit Unit Nat Nat,
      Trace Initial (fun _ _ => True) (step fun _ => ()) past system ∧
      (system.runs.map (fun run => (run.fire, run.userData)),
        system.fires.map Fire.userData) = ([(0, 80)], [70, 80]) := by
  constructor
  · exact Trace.observe (fun _ _ => True) (step fun _ => ()) single single_initial
      [.fire () 1 7 70 .intervalOnTask, .tick (), .expire (), .fire () 1 7 80 .intervalOnTask, .call 0]
      (fun system => (system.tree, system.pending, (system.timer ()).state))
      ([()], [()], .pending) (by decide) rfl
  · exact Trace.observe (fun _ _ => True) (step fun _ => ()) single single_initial
      [.fire () 1 7 70 .interval, .tick (), .expire (), .fire () 1 7 80 .interval, .call 0]
      (fun system => (system.runs.map (fun run => (run.fire, run.userData)),
        system.fires.map Fire.userData)) ([(0, 80)], [70, 80]) (by decide) rfl

end Rtems.Timer
