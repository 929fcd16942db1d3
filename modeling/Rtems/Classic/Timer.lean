import Mathlib.Data.List.Nodup
import Rtems.Library.Transition

/-!
# Timers of the Classic API

The watchdog of a timer is scheduled in a tree. When it expires, the tick removes it from the tree,
releases the lock and calls the service routine adaptor of the timer. The adaptor of a task-based timer
appends the timer to the chain of the timer server, which is a task that takes the timers from the chain
and calls their routines. The system records every successful fire and reset, every run of a routine with
the fire that led to it, and the fires that were cancelled.
-/

namespace Rtems.Timer

open Transition

universe u v w x
variable {T : Type u} {C : Type v} {R : Type w} {U : Type x}

/-- `Timer_Classes` -/
inductive Class where
  | dormant
  | interval
  | intervalOnTask
  | timeOfDay
  | timeOfDayOnTask
deriving DecidableEq, Repr

/-- `_Timer_Is_interval_class` -/
def Class.isInterval : Class → Bool
  | .interval => true
  | .intervalOnTask => true
  | _ => false

/-- `_Timer_Is_on_task_class` -/
def Class.isOnTask : Class → Bool
  | .intervalOnTask => true
  | .timeOfDayOnTask => true
  | _ => false

/-- `Watchdog_State` -/
inductive WatchdogState where
  | scheduled
  | inactive
  | pending
deriving DecidableEq, Repr

/-- `_Timer_Routine_adaptor` and `_Timer_server_Routine_adaptor`. -/
inductive Adaptor where
  | timer
  | server
deriving DecidableEq, Repr

/-- The adaptor that is used for a class. -/
def Class.adaptor (theClass : Class) : Adaptor := if theClass.isOnTask then .server else .timer

/-- `Timer_Control`: the state, the routine and the expiration time of its watchdog, the data of the last
fire, and the number of this fire. -/
structure Control (R : Type w) (U : Type x) where
  state : WatchdogState
  adaptor : Adaptor
  expire : Nat
  theClass : Class
  routine : R
  userData : U
  initial : Nat
  fire : Nat

/-- A watchdog that was removed because it is expired, before the call of its adaptor. -/
structure Call (T : Type u) where
  timer : T
  adaptor : Adaptor
  fire : Nat

/-- A successful fire or reset. -/
structure Fire (T : Type u) (R : Type w) (U : Type x) where
  timer : T
  routine : R
  userData : U

/-- A run of a routine, and the number of the fire whose expiration led to it. -/
structure Run (T : Type u) (R : Type w) (U : Type x) extends Fire T R U where
  fire : Nat

/-- Where the task of the timer server is: before a fetch, before the call of a routine or in the receive of
its event. -/
inductive Server (T : Type u) (R : Type w) (U : Type x) where
  | fetching
  | calling (run : Run T R U)
  | receiving

/-- The watchdogs of the processors, the timers and the timer server. -/
structure System (T : Type u) (C : Type v) (R : Type w) (U : Type x) where
  ticks : C → Nat
  seconds : Nat
  timer : T → Control R U
  tree : List T
  calls : List (Call T)
  pending : List T
  sending : Nat
  event : Bool
  server : Server T R U
  fires : List (Fire T R U)
  runs : List (Run T R U)
  cancelled : List Nat

/-- The locked sections. A section of the tick or of the timer server names what it works on. -/
inductive Action (T : Type u) (C : Type v) (R : Type w) (U : Type x) where
  | fire (timer : T) (interval : Nat) (routine : R) (userData : U) (theClass : Class)
  | reset (timer : T)
  | cancel (timer : T)
  | tick (cpu : C)
  | second
  | expire (timer : T)
  | call (index : Nat)
  | send
  | fetch
  | run
  | receive

section Sections

variable [DecidableEq T] [DecidableEq C]

variable (system : System T C R U)

/-- A change of one timer. -/
def System.set (timer : T) (control : Control R U) : System T C R U :=
  { system with timer := Function.update system.timer timer control }

/-- `_Timer_Cancel` -/
def System.cancel (timer : T) : System T C R U :=
  let control := system.timer timer
  if control.state = .scheduled then
    { system.set timer { control with state := .inactive } with
      tree := system.tree.erase timer
      cancelled := system.cancelled ++ [control.fire] }
  else if control.theClass.isOnTask then
    if control.state = .pending then
      { system.set timer { control with state := .inactive } with
        pending := system.pending.erase timer
        cancelled := system.cancelled ++ [control.fire] }
    else system
  else system

/-- `_Watchdog_Insert` for a new fire with the data of the timer. -/
def System.insert (timer : T) (expire : Nat) : System T C R U :=
  let control := system.timer timer
  { system.set timer { control with state := .scheduled, expire := expire, fire := system.fires.length } with
    tree := timer :: system.tree
    fires := system.fires ++ [⟨timer, control.routine, control.userData⟩] }

/-- `_Timer_Fire`. The ticks of the processor of the timer count for an interval, the seconds of the time
of day for the other classes. -/
def System.fire (cpuOf : T → C) (system : System T C R U) (timer : T) (interval : Nat) (routine : R)
    (userData : U) (theClass : Class) : System T C R U :=
  let system := system.cancel timer
  let control := { system.timer timer with
    state := .inactive
    adaptor := theClass.adaptor
    theClass := theClass
    routine := routine
    userData := userData
    initial := interval }
  (system.set timer control).insert timer
    (if theClass.isInterval then system.ticks (cpuOf timer) + interval else interval)

/-- `rtems_timer_reset` -/
def System.reset (cpuOf : T → C) (system : System T C R U) (timer : T) : System T C R U :=
  if (system.timer timer).theClass.isInterval then
    (system.cancel timer).insert timer (system.ticks (cpuOf timer) + (system.timer timer).initial)
  else system

/-- The time that counts for a class. -/
def System.now (cpu : C) (theClass : Class) : Nat :=
  if theClass.isInterval then system.ticks cpu else system.seconds

/-- The section of `_Watchdog_Do_tickle` that removes a watchdog. Which of the expired ones is the first of
its tree does not matter here. -/
def System.expire (timer : T) : System T C R U :=
  let control := system.timer timer
  { system.set timer { control with state := .inactive } with
    tree := system.tree.erase timer
    calls := system.calls ++ [⟨timer, control.adaptor, control.fire⟩] }

/-- The call of the adaptor of a timer. -/
def System.callAdaptor (call : Call T) : System T C R U :=
  let control := system.timer call.timer
  match call.adaptor with
  | .timer =>
    { system with runs := system.runs ++ [⟨⟨call.timer, control.routine, control.userData⟩, call.fire⟩] }
  | .server =>
    { system.set call.timer { control with state := .pending } with
      pending := system.pending ++ [call.timer]
      sending := if system.pending = [] then system.sending + 1 else system.sending }

/-- The locked section of the timer server. -/
def System.fetch : System T C R U :=
  match system.pending with
  | [] => { system with server := .receiving }
  | timer :: rest =>
    let control := system.timer timer
    { system.set timer { control with state := .inactive } with
      pending := rest
      server := .calling ⟨⟨timer, control.routine, control.userData⟩, control.fire⟩ }

/-- One section. -/
def step (cpuOf : T → C) (system : System T C R U) : Action T C R U → Option (System T C R U)
  | .fire timer interval routine userData theClass =>
    if theClass = .dormant then none
    else if interval = 0 then some system
    else if theClass.isInterval = false ∧ interval ≤ system.seconds then some system
    else some (system.fire cpuOf timer interval routine userData theClass)
  | .reset timer => some (system.reset cpuOf timer)
  | .cancel timer => some (system.cancel timer)
  | .tick cpu => some { system with ticks := Function.update system.ticks cpu (system.ticks cpu + 1) }
  | .second => some { system with seconds := system.seconds + 1 }
  | .expire timer =>
    let control := system.timer timer
    if timer ∈ system.tree ∧ control.expire ≤ system.now (cpuOf timer) control.theClass then
      some (system.expire timer)
    else none
  | .call index =>
    match system.calls[index]? with
    | some call => some ({ system with calls := system.calls.eraseIdx index }.callAdaptor call)
    | none => none
  | .send =>
    if 0 < system.sending then some { system with sending := system.sending - 1, event := true } else none
  | .fetch =>
    match system.server with
    | .fetching => some system.fetch
    | _ => none
  | .run =>
    match system.server with
    | .calling run => some { system with server := .fetching, runs := system.runs ++ [run] }
    | _ => none
  | .receive =>
    match system.server with
    | .receiving => if system.event then some { system with event := false, server := .fetching } else none
    | _ => none

end Sections

/-- The runs of the task of the timer server that are begun and not recorded. -/
def Server.running : Server T R U → List (Run T R U)
  | .calling run => [run]
  | _ => []

/-- No timer was ever fired, and the timer server is before a fetch or waits for its event. -/
def Initial (system : System T C R U) : Prop :=
  (∀ timer, (system.timer timer).state = .inactive ∧ (system.timer timer).theClass = .dormant) ∧
    system.tree = [] ∧ system.calls = [] ∧ system.pending = [] ∧ system.server.running = [] ∧
    system.runs = [] ∧ system.cancelled = []

/-- No watchdog of the timer waits for the call of the adaptor of the timer server. -/
def System.Unserved (system : System T C R U) (timer : T) : Prop :=
  ∀ call ∈ system.calls, call.timer = timer → call.adaptor = .timer

/-- A successful fire or reset does not come between the removal of the expired watchdog and the call of the
adaptor if the timer is task-based, and does not change the routine or the user data of the call otherwise. -/
def Careful (system : System T C R U) : Action T C R U → Prop
  | .fire timer interval routine userData theClass =>
    interval = 0 ∨ theClass.isInterval = false ∧ interval ≤ system.seconds ∨
      system.Unserved timer ∧ ((∃ call ∈ system.calls, call.timer = timer) →
        (system.timer timer).routine = routine ∧ (system.timer timer).userData = userData)
  | .reset timer => (system.timer timer).theClass.isInterval = false ∨ system.Unserved timer
  | _ => True

instance [DecidableEq T] (system : System T C R U) (timer : T) :
    Decidable (system.Unserved timer) :=
  inferInstanceAs (Decidable (∀ call ∈ system.calls, call.timer = timer → call.adaptor = .timer))

instance [DecidableEq T] [DecidableEq R] [DecidableEq U] (system : System T C R U)
    (action : Action T C R U) : Decidable (Careful system action) :=
  match action with
  | .fire timer interval routine userData theClass =>
    inferInstanceAs (Decidable (interval = 0 ∨
      theClass.isInterval = false ∧ interval ≤ system.seconds ∨
      system.Unserved timer ∧ ((∃ call ∈ system.calls, call.timer = timer) →
        (system.timer timer).routine = routine ∧ (system.timer timer).userData = userData)))
  | .reset timer =>
    inferInstanceAs (Decidable ((system.timer timer).theClass.isInterval = false ∨
      system.Unserved timer))
  | .cancel _ | .tick _ | .second | .expire _ | .call _ | .send | .fetch | .run | .receive => .isTrue trivial

end Rtems.Timer
