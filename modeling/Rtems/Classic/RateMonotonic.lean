import Mathlib.Algebra.Order.Ring.Nat
import Rtems.Library.Transition

/-!
# Rate-monotonic periods

A period object has a timer that expires at the end of every period. The owner of the
object concludes a period with a call; if the timer did not expire yet, the owner blocks
until it does, and if it did, the expiration was recorded as a postponed job, which the
call releases. The owner and the expiration handler exclude each other by the lock of the
period, so each of their critical sections is one step. Between the decision of the owner
to block and its blocking, the handler may find the intention in the wait flags. The
history of the calls and expirations is what the counters of the object are compared
with. Times are left out: an expiration may happen whenever the timer is scheduled.
-/

namespace Rtems.RateMonotonic

open Transition
open Function (update_self)
open List (count_cons_of_ne count_cons_self)

universe u v
variable {T : Type u} {P : Type v}

/-- `rtems_rate_monotonic_period_states`. -/
inductive PeriodState where
  | inactive
  | active
  | expired
deriving DecidableEq, Repr

/-- The status codes of a period call of the owner. -/
inductive Status where
  | successful
  | timeout
  | notDefined
deriving DecidableEq, Repr

/-- The wait flags of a thread: ready, or the class for periods with the intention to
block or blocked, or another class. -/
inductive WaitFlags where
  | ready
  | intendToBlock
  | blocked
  | other
deriving DecidableEq, Repr

/-- What the expiration handler of a period does next: nothing, its critical section, or
`_Thread_Unblock` of the owner after it. -/
inductive Handler where
  | idle
  | expired
  | unblocking
deriving DecidableEq, Repr

/-- What a thread does next in a call that blocks: nothing, `_Thread_Set_state`, the change
of the wait flags, waiting to be unblocked, or `_Thread_Unblock` of itself. -/
inductive Phase where
  | running
  | setState
  | tryChange
  | asleep
  | unblock
deriving DecidableEq, Repr

/-- `Rate_monotonic_Control`. The timer counts the insertions that did not expire yet: the
watchdog asserts that there is never more than one. -/
structure Period where
  state : PeriodState
  nextLength : Nat
  postponedJobs : Nat
  count : Nat
  missedCount : Nat
  timer : Nat
  handler : Handler

/-- The wait flags and the return argument of a thread, its progress in a call and whether
it is in the state of waiting for a period. -/
structure Thread (P : Type v) where
  flags : WaitFlags
  returnArgument : Option P
  phase : Phase
  blocking : Bool

/-- What happened to a period: its activation, an expiration that found the owner waiting
or not, a call that concluded a period, with its status, or a cancel. -/
inductive Event (P : Type v) where
  | activate (period : P)
  | restart (period : P)
  | overrun (period : P)
  | conclude (period : P) (status : Status)
  | cancel (period : P)
deriving DecidableEq

/-- The periods with their owners, the threads, and the events, the latest first. -/
structure System (T : Type u) (P : Type v) where
  owner : P → T
  period : P → Period
  thread : T → Thread P
  history : List (Event P)

/-- The calls of the owners with their further steps, the steps of the expirations, and
waiting for something else. -/
inductive Operation (T : Type u) (P : Type v) where
  | call (period : P) (length : Nat)
  | cancel (period : P)
  | advance (thread : T)
  | expire (period : P)
  | timeout (period : P)
  | unblock (period : P)
  | wait (thread : T)
  | resume (thread : T)
deriving DecidableEq

/-- `RTEMS_PERIOD_STATUS`. -/
def periodStatus : Nat := 0

/-- `_Rate_monotonic_Get_status_for_state`. -/
def PeriodState.status : PeriodState → Status
  | inactive => .notDefined
  | active => .successful
  | expired => .timeout

namespace Period

/-- `_Watchdog_Per_CPU_insert_ticks`. -/
def insertTimer (period : Period) : Period :=
  { period with timer := period.timer + 1 }

/-- `_Rate_monotonic_Update_statistics`. -/
def updateStatistics (period : Period) : Period :=
  { period with
    count := (period.count + 1) % 2 ^ 32
    missedCount :=
      if period.state = .expired then (period.missedCount + 1) % 2 ^ 32 else period.missedCount }

/-- `_Rate_monotonic_Activate` with `_Rate_monotonic_Restart`. -/
def activate (period : Period) (length : Nat) : Period :=
  { period with state := .active, nextLength := length }.insertTimer

/-- `_Rate_monotonic_Block_while_expired` with `_Rate_monotonic_Release_postponed_job`. -/
def blockWhileExpired (period : Period) (length : Nat) : Period :=
  let period := { period with state := .expired }.updateStatistics
  { period with
    state := .active
    nextLength := length
    postponedJobs := (period.postponedJobs + 2 ^ 32 - 1) % 2 ^ 32 }

/-- The part of `_Rate_monotonic_Block_while_active` that changes the period. -/
def blockWhileActive (period : Period) (length : Nat) : Period :=
  { period.updateStatistics with nextLength := length }

/-- `_Rate_monotonic_Renew_deadline`. -/
def renewDeadline (period : Period) : Period :=
  { period with
    postponedJobs :=
      if period.postponedJobs ≠ 2 ^ 32 - 1 then period.postponedJobs + 1 else period.postponedJobs
    state := .expired }.insertTimer

/-- `_Rate_monotonic_Cancel`. -/
def cancel (period : Period) : Period :=
  { period with timer := 0, postponedJobs := 0, state := .inactive }

end Period

variable [DecidableEq T] [DecidableEq P]

namespace System

section

variable (system : System T P)

/-- A period changes, and the events are recorded. -/
def change (period : P) (value : Period) (events : List (Event P)) : System T P :=
  { system with
    period := Function.update system.period period value
    history := events ++ system.history }

/-- A thread changes. -/
def setThread (thread : T) (value : Thread P) : System T P :=
  { system with thread := Function.update system.thread thread value }

/-- `_Rate_monotonic_Block_while_active` up to the release of the lock. -/
def blockWhileActive (system : System T P) (period : P) (length : Nat) : System T P :=
  let thread := system.owner period
  (system.change period ((system.period period).blockWhileActive length)
    [.conclude period .successful]).setThread thread
    { system.thread thread with
      flags := .intendToBlock
      returnArgument := some period
      phase := .setState }

/-- `_Rate_monotonic_Block_while_expired`. -/
def blockWhileExpired (system : System T P) (period : P) (length : Nat) : System T P :=
  system.change period ((system.period period).blockWhileExpired length)
    [.conclude period .timeout]

/-- `rtems_rate_monotonic_period` by the owner: the status, which a call that blocks returns
later, and the state after the critical section. -/
def periodCall (period : P) (length : Nat) : Status × System T P :=
  if length = periodStatus then ((system.period period).state.status, system)
  else
    match (system.period period).state with
    | .active =>
        if 0 < (system.period period).postponedJobs then
          (.timeout, system.blockWhileExpired period length)
        else (.successful, system.blockWhileActive period length)
    | .inactive =>
        (.successful,
          system.change period ((system.period period).activate length) [.activate period])
    | .expired => (.timeout, system.blockWhileExpired period length)

/-- The next step of `_Rate_monotonic_Block_while_active` after the release of the lock. A
thread that is asleep goes on when it was unblocked. -/
def advance (thread : T) : Option (System T P) :=
  let value := system.thread thread
  match value.phase with
  | .running => none
  | .setState => some (system.setThread thread { value with phase := .tryChange, blocking := true })
  | .tryChange =>
      if value.flags = .intendToBlock then
        some (system.setThread thread { value with phase := .asleep, flags := .blocked })
      else some (system.setThread thread { value with phase := .unblock })
  | .asleep =>
      if value.blocking then none
      else some (system.setThread thread { value with phase := .running })
  | .unblock =>
      some (system.setThread thread { value with phase := .running, blocking := false })

/-- The clock takes an expired timer and is going to call the handler. -/
def expire (period : P) : Option (System T P) :=
  let value := system.period period
  if 0 < value.timer ∧ value.handler = .idle then
    some (system.change period { value with timer := value.timer - 1, handler := .expired } [])
  else none

/-- The critical section of `_Rate_monotonic_Timeout`. -/
def timeout (period : P) : Option (System T P) :=
  let value := system.period period
  let thread := system.owner period
  let waiting := system.thread thread
  if value.handler = .expired then
    if (waiting.flags = .intendToBlock ∨ waiting.flags = .blocked) ∧
        waiting.returnArgument = some period then
      let handler := if waiting.flags = .intendToBlock then .idle else .unblocking
      some ((system.change period { value.insertTimer with handler } [.restart period]).setThread
        thread { waiting with flags := .ready, returnArgument := none })
    else some (system.change period { value.renewDeadline with handler := .idle } [.overrun period])
  else none

/-- `_Thread_Unblock` of the owner by the handler. -/
def unblock (period : P) : Option (System T P) :=
  let value := system.period period
  let thread := system.owner period
  if value.handler = .unblocking then
    some ((system.change period { value with handler := .idle } []).setThread thread
      { system.thread thread with blocking := false })
  else none

/-- One step. Calls are made by the owner while it runs. -/
def step : Operation T P → Option (System T P)
  | .call period length =>
      if (system.thread (system.owner period)).phase = .running then
        some (system.periodCall period length).2
      else none
  | .cancel period =>
      if (system.thread (system.owner period)).phase = .running then
        some (system.change period (system.period period).cancel [.cancel period])
      else none
  | .advance thread => system.advance thread
  | .expire period => system.expire period
  | .timeout period => system.timeout period
  | .unblock period => system.unblock period
  | .wait thread =>
      if (system.thread thread).phase = .running then
        some (system.setThread thread
          { system.thread thread with flags := .other, returnArgument := none })
      else none
  | .resume thread =>
      if (system.thread thread).flags = .other then
        some (system.setThread thread { system.thread thread with flags := .ready })
      else none

end

end System

/-- The periods are inactive, and no thread is in a call. -/
structure Initial (system : System T P) : Prop where
  period : ∀ period, (system.period period).state = .inactive ∧
    (system.period period).postponedJobs = 0 ∧ (system.period period).count = 0 ∧
    (system.period period).missedCount = 0 ∧ (system.period period).timer = 0 ∧
    (system.period period).handler = .idle
  thread : ∀ thread, (system.thread thread).phase = .running ∧
    (system.thread thread).flags = .ready
  history : system.history = []

/-- The owner runs, so it does not wait for something else, while it makes a call; the
number of postponed jobs stays below its limit. -/
def Permitted (system : System T P) : Operation T P → Prop
  | .call period _ => (system.thread (system.owner period)).flags ≠ .other
  | .cancel period => (system.thread (system.owner period)).flags ≠ .other
  | .timeout period => (system.period period).postponedJobs < 2 ^ 32 - 1
  | _ => True

/-- No period is cancelled between the expiration of its timer and the critical section of
its handler. -/
def Undisturbed (system : System T P) : Operation T P → Prop
  | .cancel period => (system.period period).handler ≠ .expired
  | _ => True

instance (system : System T P) (operation : Operation T P) :
    Decidable (Undisturbed system operation) :=
  match operation with
  | .cancel _ => inferInstanceAs (Decidable (_ ≠ _))
  | .call .. | .timeout _ | .advance _ | .expire _ | .unblock _ | .wait _ | .resume _ => .isTrue trivial

instance (system : System T P) (operation : Operation T P) :
    Decidable (Permitted system operation) :=
  match operation with
  | .call .. | .cancel _ => inferInstanceAs (Decidable (_ ≠ _))
  | .timeout _ => inferInstanceAs (Decidable (_ < _))
  | .advance _ | .expire _ | .unblock _ | .wait _ | .resume _ => .isTrue trivial

/-- The events since the latest activation of a period. -/
def since (period : P) (history : List (Event P)) : List (Event P) :=
  history.takeWhile fun event => event ≠ .activate period

/-- The expirations since the activation that found the owner not waiting for the period. -/
def overruns (period : P) (history : List (Event P)) : Nat :=
  (since period history).count (.overrun period)

/-- The calls since the activation that released a postponed job. -/
def releases (period : P) (history : List (Event P)) : Nat :=
  (since period history).count (.conclude period .timeout)

/-- The calls that concluded a period. -/
def conclusions (period : P) (history : List (Event P)) : Nat :=
  history.count (.conclude period .successful) + history.count (.conclude period .timeout)

/-- The calls that concluded a period late. -/
def misses (period : P) (history : List (Event P)) : Nat :=
  history.count (.conclude period .timeout)

/-- The counters of a period agree with the history, and its timer is scheduled or its
handler is going to run while the period is not inactive. -/
structure Accounted (system : System T P) (period : P) : Prop where
  inactive : (system.period period).state = .inactive →
    (system.period period).timer = 0 ∧ (system.period period).handler ≠ .expired ∧
      (system.period period).postponedJobs = 0
  scheduled : (system.period period).state ≠ .inactive →
    ((system.period period).timer = 1 ∧ (system.period period).handler ≠ .expired) ∨
      ((system.period period).timer = 0 ∧ (system.period period).handler = .expired)
  postponed : (system.period period).state ≠ .inactive →
    (system.period period).postponedJobs + releases period system.history =
      overruns period system.history
  bounded : (system.period period).postponedJobs < 2 ^ 32
  expired : (system.period period).state = .expired → 0 < (system.period period).postponedJobs
  count : (system.period period).count = conclusions period system.history % 2 ^ 32
  missed : (system.period period).missedCount = misses period system.history % 2 ^ 32

/-- The period that an event is about. -/
def Event.period : Event P → P
  | activate period | restart period | overrun period | conclude period _ | cancel period => period

theorem since_cons (period : P) (event : Event P) (history : List (Event P))
    (later : event ≠ .activate period) :
    since period (event :: history) = event :: since period history := by
  simp [since, later]

/-- Events of other periods do not count. -/
theorem counts_other (period : P) (events history : List (Event P))
    (others : ∀ event ∈ events, event.period ≠ period) :
    releases period (events ++ history) = releases period history ∧
      overruns period (events ++ history) = overruns period history ∧
      conclusions period (events ++ history) = conclusions period history ∧
      misses period (events ++ history) = misses period history := by
  induction events with
  | nil => exact ⟨rfl, rfl, rfl, rfl⟩
  | cons event rest ih =>
    have away := others event (by simp)
    have foreign : ∀ own : Event P, own.period = period → event ≠ own := by
      rintro own same rfl
      exact away same
    obtain ⟨released, overran, concluded, missed⟩ :=
      ih fun tested member => others tested (List.mem_cons_of_mem event member)
    rw [List.cons_append]
    refine ⟨?_, ?_, ?_, ?_⟩
    · rw [← released, releases, since_cons _ _ _ (foreign (.activate period) rfl),
        count_cons_of_ne (foreign (.conclude period .timeout) rfl)]
      rfl
    · rw [← overran, overruns, since_cons _ _ _ (foreign (.activate period) rfl),
        count_cons_of_ne (foreign (.overrun period) rfl)]
      rfl
    · rw [← concluded, conclusions, count_cons_of_ne (foreign (.conclude period .timeout) rfl),
        count_cons_of_ne (foreign (.conclude period .successful) rfl)]
      rfl
    · rw [← missed, misses, count_cons_of_ne (foreign (.conclude period .timeout) rfl)]
      rfl

namespace Accounted

variable {sys : System T P}

variable {period : P}

section

omit [DecidableEq T]

/-- Only the period and the history matter. -/
theorem congr {after : System T P} (accounted : Accounted sys period)
    (same : after.period period = sys.period period) (history : after.history = sys.history) :
    Accounted after period := by
  constructor
  · rw [same]
    exact accounted.inactive
  · rw [same]
    exact accounted.scheduled
  · rw [same, history]
    exact accounted.postponed
  · rw [same]
    exact accounted.bounded
  · rw [same]
    exact accounted.expired
  · rw [same, history]
    exact accounted.count
  · rw [same, history]
    exact accounted.missed

/-- A change of one period leaves the others accounted for. -/
theorem change (accounted : ∀ period, Accounted sys period) (period : P) (value : Period)
    (events : List (Event P)) (own : ∀ event ∈ events, event.period = period)
    (changed : Accounted (sys.change period value events) period) (tested : P) :
    Accounted (sys.change period value events) tested := by
  by_cases same : tested = period
  · exact same ▸ changed
  · have value : (sys.change period value events).period tested = sys.period tested :=
      Function.update_of_ne same ..
    obtain ⟨released, overran, concluded, missed⟩ := counts_other tested events sys.history
      fun event member equal => same (equal.symm.trans (own event member))
    have account := accounted tested
    constructor
    · rw [value]
      exact account.inactive
    · rw [value]
      exact account.scheduled
    · rw [value]
      show _ → _ + releases tested (events ++ sys.history) = overruns tested (events ++ sys.history)
      rw [released, overran]
      exact account.postponed
    · rw [value]
      exact account.bounded
    · rw [value]
      exact account.expired
    · rw [value, account.count, ← concluded]
      rfl
    · rw [value, account.missed, ← missed]
      rfl

variable (accounted : Accounted sys period)
include accounted

/-- The first call activates the period. -/
theorem activate (length : Nat) (inactive : (sys.period period).state = .inactive) :
    Accounted (sys.change period ((sys.period period).activate length) [.activate period])
      period := by
  obtain ⟨timer, handler, postponed⟩ := accounted.inactive inactive
  have counted := accounted.count
  have missed := accounted.missed
  constructor
  all_goals simp only [System.change, update_self, Period.activate, Period.insertTimer]
  · simp
  · simp [timer, handler]
  · simp [postponed, releases, overruns, since]
  · simp [postponed]
  · simp
  · simpa [conclusions] using counted
  · simpa [misses] using missed

/-- A call with postponed jobs releases one of them. -/
theorem blockWhileExpired (length : Nat) (late : 0 < (sys.period period).postponedJobs) :
    Accounted (sys.change period ((sys.period period).blockWhileExpired length)
      [.conclude period .timeout]) period := by
  have running : (sys.period period).state ≠ .inactive := by
    intro inactive
    have none := (accounted.inactive inactive).2.2
    omega
  have bounded := accounted.bounded
  have fewer : ((sys.period period).postponedJobs + 2 ^ 32 - 1) % 2 ^ 32 =
      (sys.period period).postponedJobs - 1 := by omega
  have scheduled := accounted.scheduled running
  have postponed := accounted.postponed running
  have counted := accounted.count
  have missed := accounted.missed
  constructor
  all_goals simp only [System.change, update_self, Period.blockWhileExpired,
    Period.updateStatistics, List.singleton_append, fewer]
  · simp
  · exact fun _ => scheduled
  · intro
    simp only [releases, overruns] at postponed ⊢
    rw [since_cons _ _ _ (by simp), count_cons_self, count_cons_of_ne (by simp)]
    omega
  · omega
  · simp
  · simp only [conclusions] at counted ⊢
    rw [counted, count_cons_self, count_cons_of_ne (by simp)]
    omega
  · simp only [misses, if_true] at missed ⊢
    rw [missed, count_cons_self]
    omega

/-- A call without postponed jobs only counts. -/
theorem blockWhileActive (length : Nat) (active : (sys.period period).state = .active) :
    Accounted (sys.change period ((sys.period period).blockWhileActive length)
      [.conclude period .successful]) period := by
  have scheduled := accounted.scheduled (by simp [active])
  have postponed := accounted.postponed (by simp [active])
  have bounded := accounted.bounded
  have counted := accounted.count
  have missed := accounted.missed
  constructor
  all_goals simp only [System.change, update_self, Period.blockWhileActive,
    Period.updateStatistics, List.singleton_append, active, reduceCtorEq, if_false]
  · simp
  · exact fun _ => scheduled
  · intro
    simp only [releases, overruns] at postponed ⊢
    rw [since_cons _ _ _ (by simp), count_cons_of_ne (by simp), count_cons_of_ne (by simp)]
    exact postponed
  · exact bounded
  · simp
  · simp only [conclusions] at counted ⊢
    rw [counted, count_cons_self, count_cons_of_ne (by simp)]
    omega
  · simp only [misses] at missed ⊢
    rw [count_cons_of_ne (by simp)]
    exact missed

/-- A cancel that does not meet an expiration. -/
theorem cancel (undisturbed : (sys.period period).handler ≠ .expired) :
    Accounted (sys.change period (sys.period period).cancel [.cancel period]) period := by
  have counted := accounted.count
  have missed := accounted.missed
  constructor
  all_goals simp only [System.change, update_self, Period.cancel]
  · simp [undisturbed]
  · simp
  · simp
  · simp
  · simp
  · simpa [conclusions] using counted
  · simpa [misses] using missed

/-- The expiration of the timer. -/
theorem expire (timer : 0 < (sys.period period).timer) : Accounted (sys.change period
      { sys.period period with
        timer := (sys.period period).timer - 1
        handler := .expired } []) period := by
  have running : (sys.period period).state ≠ .inactive := by
    intro inactive
    have none := (accounted.inactive inactive).1
    omega
  have single : (sys.period period).timer = 1 := by
    rcases accounted.scheduled running with ⟨one, -⟩ | ⟨none, -⟩
    · exact one
    · omega
  constructor
  all_goals simp only [System.change, update_self, List.nil_append]
  · exact fun inactive => absurd inactive running
  · simp [single]
  · exact accounted.postponed
  · exact accounted.bounded
  · exact accounted.expired
  · exact accounted.count
  · exact accounted.missed

/-- The timer of an expired period is stopped. -/
theorem stopped (expired : (sys.period period).handler = .expired) :
    (sys.period period).state ≠ .inactive ∧ (sys.period period).timer = 0 := by
  have running : (sys.period period).state ≠ .inactive := by
    intro inactive
    exact (accounted.inactive inactive).2.1 expired
  rcases accounted.scheduled running with ⟨-, other⟩ | ⟨none, -⟩
  · exact absurd expired other
  · exact ⟨running, none⟩

/-- The handler finds the owner waiting for the period. -/
theorem restart (handler : Handler) (expired : (sys.period period).handler = .expired)
    (done : handler ≠ .expired) :
    Accounted (sys.change period { (sys.period period).insertTimer with handler }
      [.restart period]) period := by
  obtain ⟨running, stopped⟩ := accounted.stopped expired
  have postponed := accounted.postponed running
  have counted := accounted.count
  have missed := accounted.missed
  constructor
  all_goals simp only [System.change, update_self, Period.insertTimer]
  · exact fun inactive => absurd inactive running
  · simp [stopped, done]
  · intro
    simpa [releases, overruns, since] using postponed
  · exact accounted.bounded
  · exact accounted.expired
  · simpa [conclusions] using counted
  · simpa [misses] using missed

/-- The handler finds the owner not waiting for the period. -/
theorem overrun (expired : (sys.period period).handler = .expired)
    (few : (sys.period period).postponedJobs < 2 ^ 32 - 1) :
    Accounted (sys.change period { (sys.period period).renewDeadline with handler := .idle }
      [.overrun period]) period := by
  obtain ⟨running, stopped⟩ := accounted.stopped expired
  have postponed := accounted.postponed running
  have counted := accounted.count
  have missed := accounted.missed
  have below : (sys.period period).postponedJobs ≠ 2 ^ 32 - 1 := by omega
  constructor
  all_goals simp only [System.change, update_self, Period.renewDeadline,
    Period.insertTimer, List.singleton_append, if_pos below]
  · simp
  · simp [stopped]
  · intro
    simp only [releases, overruns] at postponed ⊢
    rw [since_cons _ _ _ (by simp), count_cons_self, count_cons_of_ne (by simp)]
    omega
  · omega
  · simp
  · simpa [conclusions] using counted
  · simpa [misses] using missed

/-- The handler is done with the owner. -/
theorem unblock (unblocking : (sys.period period).handler = .unblocking) :
    Accounted (sys.change period { sys.period period with handler := .idle } [])
      period := by
  have scheduled := accounted.scheduled
  simp only [unblocking] at scheduled
  constructor
  all_goals simp only [System.change, update_self, List.nil_append]
  · intro inactive
    exact ⟨(accounted.inactive inactive).1, by simp, (accounted.inactive inactive).2.2⟩
  · intro running
    simpa using scheduled running
  · exact accounted.postponed
  · exact accounted.bounded
  · exact accounted.expired
  · exact accounted.count
  · exact accounted.missed

end

/-- The critical section of a call. -/
theorem call (accounted : ∀ period, Accounted sys period) (period : P) (length : Nat)
    (tested : P) : Accounted (sys.periodCall period length).2 tested := by
  have own := accounted period
  have late : ∀ tested, 0 < (sys.period period).postponedJobs →
      Accounted (sys.blockWhileExpired period length) tested := by
    intro tested positive
    exact change accounted period _ _ (by simp [Event.period]) (own.blockWhileExpired length positive)
      tested
  unfold System.periodCall
  split
  case isTrue => exact accounted tested
  case isFalse =>
    cases st : (sys.period period).state with
    | inactive =>
      exact change accounted period _ _ (by simp [Event.period]) (own.activate length st) tested
    | expired => exact late tested (own.expired st)
    | active =>
      simp only
      split
      case isTrue positive => exact late tested positive
      case isFalse =>
        have changed := change accounted period _ _ (by simp [Event.period])
          (own.blockWhileActive length st) tested
        exact changed.congr rfl rfl

/-- The critical section of the handler. -/
theorem timeout {next : System T P} (accounted : ∀ period, Accounted sys period) (period : P)
    (few : (sys.period period).postponedJobs < 2 ^ 32 - 1)
    (taken : sys.timeout period = some next) (tested : P) : Accounted next tested := by
  have own := accounted period
  unfold System.timeout at taken
  simp only at taken
  split at taken
  case isFalse => cases taken
  case isTrue expired =>
    split at taken
    case isTrue =>
      cases taken
      have done : (if (sys.thread (sys.owner period)).flags = .intendToBlock then Handler.idle
          else .unblocking) ≠ .expired := by
        split <;> simp
      have changed := change accounted period _ _ (by simp [Event.period])
        (own.restart _ expired done) tested
      exact changed.congr rfl rfl
    case isFalse =>
      cases taken
      exact change accounted period _ _ (by simp [Event.period]) (own.overrun expired few) tested

/-- A careful step keeps all periods accounted for. -/
theorem step {next : System T P} (accounted : ∀ period, Accounted sys period) (op : Operation T P)
    (careful : Permitted sys op ∧ Undisturbed sys op)
    (taken : sys.step op = some next) (tested : P) : Accounted next tested := by
  cases op with
  | call period length =>
    simp only [System.step] at taken
    split at taken
    · cases taken
      exact call accounted period length tested
    · cases taken
  | cancel period =>
    simp only [System.step] at taken
    split at taken
    · cases taken
      exact change accounted period _ _ (by simp [Event.period])
        ((accounted period).cancel careful.2) tested
    · cases taken
  | advance thread =>
    have frame : next.period tested = sys.period tested ∧ next.history = sys.history := by
      simp only [System.step, System.advance] at taken
      split at taken
      · cases taken
      · cases taken
        exact ⟨rfl, rfl⟩
      · split at taken
        · cases taken
          exact ⟨rfl, rfl⟩
        · cases taken
          exact ⟨rfl, rfl⟩
      · split at taken
        · cases taken
        · cases taken
          exact ⟨rfl, rfl⟩
      · cases taken
        exact ⟨rfl, rfl⟩
    exact (accounted tested).congr frame.1 frame.2
  | expire period =>
    simp only [System.step, System.expire] at taken
    split at taken
    case isTrue due =>
      cases taken
      exact change accounted period _ _ (by simp) ((accounted period).expire due.1) tested
    case isFalse => cases taken
  | timeout period => exact timeout accounted period careful.1 taken tested
  | unblock period =>
    simp only [System.step, System.unblock] at taken
    split at taken
    case isTrue unblocking =>
      cases taken
      have changed := change accounted period _ _ (by simp)
        ((accounted period).unblock unblocking) tested
      exact changed.congr rfl rfl
    case isFalse => cases taken
  | wait thread | resume thread =>
    simp only [System.step] at taken
    split at taken
    · cases taken
      exact (accounted tested).congr rfl rfl
    · cases taken

end Accounted

omit [DecidableEq T] in
theorem Initial.accounted {sys : System T P} (initial : Initial sys) (period : P) :
    Accounted sys period := by
  obtain ⟨st, postponed, count, missed, timer, handler⟩ := initial.period period
  have history := initial.history
  constructor
  all_goals simp [st, postponed, count, missed, timer, handler, history, conclusions, misses]

/-- Over every run in which no cancel comes between the expiration of a timer and its
handler: a period that is not inactive has exactly one scheduled expiration or its handler
is going to run, its postponed jobs are the overruns since its activation that no call
released yet, an expired period has postponed jobs, a call that is no status request
returns a timeout exactly if there are postponed jobs and a status request exactly if the
period is expired, and the statistics count the concluding calls and the late ones. -/
theorem runs_account_for_expirations (past : List (System T P)) (system : System T P) (run : Trace
      Initial (fun system operation => Permitted system operation ∧ Undisturbed system operation)
      System.step past system) (period : P) :
    ((system.period period).state ≠ .inactive →
      ((system.period period).timer = 1 ∧ (system.period period).handler ≠ .expired) ∨
        ((system.period period).timer = 0 ∧ (system.period period).handler = .expired)) ∧
    ((system.period period).state ≠ .inactive →
      (system.period period).postponedJobs + releases period system.history =
        overruns period system.history) ∧
    ((system.period period).state = .expired → 1 ≤ (system.period period).postponedJobs) ∧
    (∀ length, length ≠ periodStatus → ((system.periodCall period length).1 = .timeout ↔
      0 < (system.period period).postponedJobs)) ∧
    ((system.periodCall period periodStatus).1 = .timeout ↔
      (system.period period).state = .expired) ∧
    (system.period period).count = conclusions period system.history % 2 ^ 32 ∧
    (system.period period).missedCount = misses period system.history % 2 ^ 32 := by
  have accounted : ∀ period, Accounted system period :=
    run.invariant (fun system => ∀ period, Accounted system period)
      (fun _ initial => initial.accounted)
      (fun _ operation _ accounted careful taken =>
        Accounted.step accounted operation careful taken)
  have own := accounted period
  refine ⟨own.scheduled, own.postponed, own.expired, ?_, ?_, own.count, own.missed⟩
  · intro length call
    unfold System.periodCall
    rw [if_neg call]
    cases state : (system.period period).state with
    | inactive => simp [(own.inactive state).2.2]
    | expired => simpa using own.expired state
    | active =>
      simp only
      split
      case isTrue positive => simp [positive]
      case isFalse none => simp [none]
  · simp only [System.periodCall, if_true]
    cases (system.period period).state <;> simp [PeriodState.status]

/-- Two threads with one inactive period each. -/
def start : System (Fin 2) (Fin 2) where
  owner := id
  period := fun _ => ⟨.inactive, 0, 0, 0, 0, 0, .idle⟩
  thread := fun _ => ⟨.ready, none, .running, false⟩
  history := []

theorem start_initial : Initial start := by
  constructor
  · intro period
    exact ⟨rfl, rfl, rfl, rfl, rfl, rfl⟩
  · intro thread
    exact ⟨rfl, rfl⟩
  · rfl

/-- The first expiration meets the intention to block, the next two find the owner busy,
and one of the two postponed jobs is released. -/
theorem runs_account_for_expirations_overruns :
    ∃ (past : List (System (Fin 2) (Fin 2))) (system : System (Fin 2) (Fin 2)),
      Trace Initial (fun system operation =>
        Permitted system operation ∧ Undisturbed system operation) System.step past system ∧
      (system.period 0).state = .active ∧ (system.period 0).postponedJobs = 1 ∧
      overruns 0 system.history = 2 ∧ releases 0 system.history = 1 ∧
      (system.period 0).count = 2 % 2 ^ 32 ∧ (system.periodCall 0 10).1 = .timeout := by
  obtain ⟨past, system, run, seen⟩ := Trace.observe
    (fun system operation => Permitted system operation ∧ Undisturbed system operation)
    System.step start start_initial
    [.call 0 10, .call 0 10, .advance 0, .expire 0, .timeout 0, .advance 0, .advance 0,
      .expire 0, .timeout 0, .expire 0, .timeout 0, .call 0 10]
    (fun system => ((system.period 0).state, (system.period 0).postponedJobs,
      overruns 0 system.history, conclusions 0 system.history))
    (.active, 1, 2, 2) (by decide +kernel) (by decide +kernel)
  simp only [Prod.mk.injEq] at seen
  obtain ⟨state, postponed, overran, concluded⟩ := seen
  obtain ⟨-, jobs, -, late, -, count, -⟩ := runs_account_for_expirations past system run 0
  have balance := jobs (by simp [state])
  rw [concluded] at count
  exact ⟨past, system, run, state, postponed, overran, by omega, count,
    (late 10 (by decide)).mpr (by omega)⟩

/-- A status request of an active period is successful although a job is postponed. -/
theorem status_request_with_postponed_job :
    ∃ (past : List (System (Fin 2) (Fin 2))) (system : System (Fin 2) (Fin 2)),
      Trace Initial (fun system operation =>
        Permitted system operation ∧ Undisturbed system operation) System.step past system ∧
      0 < (system.period 0).postponedJobs ∧ (system.periodCall 0 periodStatus).1 = .successful := by
  obtain ⟨past, system, run, seen⟩ := Trace.observe
    (fun system operation => Permitted system operation ∧ Undisturbed system operation)
    System.step start start_initial
    [.call 0 10, .expire 0, .timeout 0, .expire 0, .timeout 0, .call 0 10]
    (fun system => ((system.period 0).postponedJobs, (system.periodCall 0 periodStatus).1))
    (1, .successful) (by decide +kernel) (by decide +kernel)
  obtain ⟨postponed, status⟩ := Prod.mk.inj seen
  exact ⟨past, system, run, by omega, status⟩

end Rtems.RateMonotonic
