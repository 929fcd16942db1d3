import Rtems.Library.Alignment
import Rtems.Library.Transition
import Rtems.Scheduler.Uniprocessor

/-!
# The constant bandwidth server scheduler

A thread that is attached to a server gets the budget of the server with each job. The
budget counts down at the clock ticks, and when the last tick of it is used up, the job
is cancelled, so that the thread goes to the background. An unblock cancels the job of a
thread that comes too late for the time that is left of its budget.
-/

namespace Rtems.Scheduler.Cbs

open Transition Alignment

/-- `Scheduler_CBS_Parameters`. -/
structure Parameters where
  deadline : Nat
  budget : Nat
deriving DecidableEq, Repr

/-- What `_Scheduler_CBS_Create_server` and `_Scheduler_CBS_Set_parameters` accept. -/
def Parameters.Accepted (params : Parameters) : Prop :=
  0 < params.budget ∧ 0 < params.deadline ∧ params.budget < 2 ^ 63 ∧ params.deadline < 2 ^ 63
deriving Decidable

/-- What the scheduler has of a thread: the server, the deadline of the job if there is
one, the priority without a job, the group order of the scheduler node, the CPU budget
that is left, and whether the thread is preemptible and ready. -/
structure Task where
  cbsServer : Option Parameters
  deadlineNode : Option Nat
  background : Nat
  order : GroupOrder
  available : Nat
  isPreemptible : Bool
  isReady : Bool
deriving DecidableEq, Repr

/-- `_Scheduler_Node_get_priority`: the least of the priorities of the thread, of which
the one of the job is its mapped deadline. -/
def Task.priority (task : Task) : Nat :=
  (match task.deadlineNode with
    | some deadline => min (priorityMap deadline) task.background
    | none => task.background) ||| task.order.bit

/-- `_Scheduler_CBS_Release_job` with `_Scheduler_EDF_Release_job`. The budget is kept in
32 bits. -/
def Task.releaseJob (task : Task) (deadline : Nat) : Task :=
  { task with
    available := match task.cbsServer with
      | some params => params.budget % 2 ^ 32
      | none => task.available
    deadlineNode := some deadline
    order := .last }

/-- `_Scheduler_CBS_Cancel_job` with `_Scheduler_EDF_Cancel_job`. -/
def Task.cancelJob (task : Task) : Task := { task with deadlineNode := none }

/-- The job is cancelled by `_Scheduler_CBS_Unblock`: the parameters of the server, the
budget that is left and the ticks since boot are combined in products of 64 bits. -/
def Task.cancels (task : Task) (ticksSinceBoot : Nat) : Bool :=
  let priority := task.priority - task.priority % 2
  match task.cbsServer with
  | none => false
  | some params =>
      if priority &&& 2 ^ 63 = 0 then
        let deadlineLeft := task.available
        let budgetLeft := wrapSub (2 ^ 64) priority ticksSinceBoot
        decide (params.budget * deadlineLeft % 2 ^ 64 < params.deadline * budgetLeft % 2 ^ 64)
      else false

/-- `_Scheduler_CBS_Unblock` before `_Scheduler_EDF_Unblock` is called. -/
def Task.unblock (task : Task) (ticksSinceBoot : Nat) : Task :=
  if task.cancels ticksSinceBoot then task.cancelJob else task

/-- `_Scheduler_CBS_Budget_callout`, apart from the callback of the application. -/
def Task.budgetCallout (task : Task) : Task := task.cancelJob

/-- `_Scheduler_CBS_Budget_at_tick` and whether it made the callout. -/
def Task.budgetAtTick (task : Task) : Task × Bool :=
  if task.isPreemptible = false then (task, false)
  else if task.isReady = false then (task, false)
  else if task.available = 1 then ({ task with available := 0 }.budgetCallout, true)
  else ({ task with available := wrapSub (2 ^ 32) task.available 1 }, false)

section LateUnblock

variable {task : Task} {params : Parameters} {deadline now : Nat}

/-- A thread with a job: its deadline is mapped to a priority below those of the
background, which have the highest bit. -/
structure Driven (task : Task) (params : Parameters) (deadline : Nat) : Prop where
  server : task.cbsServer = some params
  job : task.deadlineNode = some deadline
  range : deadline < 2 ^ 62
  background : 2 ^ 63 ≤ task.background

/-- The time that is left until the deadline does not suffice for the budget that is left
at the bandwidth of the server. -/
def Late (task : Task) (params : Parameters) (deadline now : Nat) : Prop :=
  params.budget * (deadline - now) < task.available * params.deadline
deriving Decidable

/-- The budget that is left is on the same side of two limits: of the one that the
bandwidth gives for the time to the deadline, and of the one that the inverse of the
bandwidth gives for that time and the deadline together. The products of the second
limit are reduced to 64 bits. -/
def SameSide (task : Task) (params : Parameters) (deadline now : Nat) : Prop :=
  if Late task params deadline now then
    params.budget * task.available % 2 ^ 64 < params.deadline * (deadline - now + deadline) % 2 ^ 64
  else
    params.deadline * (deadline - now + deadline) % 2 ^ 64 ≤ params.budget * task.available % 2 ^ 64
deriving Decidable

/-- The priority of a thread with a job is its mapped deadline. -/
theorem Driven.priority (driven : Driven task params deadline) :
    task.priority - task.priority % 2 = 2 * deadline := by
  have least : min (priorityMap deadline) task.background = priorityMap deadline := by
    have range := driven.range
    have background := driven.background
    rw [priorityMap_eq]
    omega
  have value : task.priority = 2 * deadline + task.order.bit := by
    rw [Task.priority, driven.job]
    exact (congrArg (· ||| task.order.bit) least).trans (mapped_or_bit deadline task.order)
  rw [value]
  cases task.order <;> simp only [GroupOrder.bit] <;> omega

/-- What the source compares for a thread with a job. -/
theorem Driven.cancels_iff (driven : Driven task params deadline) (before : now < deadline) :
    task.cancels now = true ↔ params.budget * task.available % 2 ^ 64 <
      params.deadline * (deadline - now + deadline) % 2 ^ 64 := by
  have range := driven.range
  have foreground : 2 * deadline &&& 2 ^ 63 = 0 := by
    rw [Nat.and_two_pow, Nat.testBit_lt_two_pow (by omega)]
    rfl
  have left : wrapSub (2 ^ 64) (2 * deadline) now = deadline - now + deadline := by
    rw [wrapSub_of_le _ _ _ (by omega) (by omega)]
    omega
  simp only [Task.cancels, driven.priority, driven.server, foreground, if_true, left,
    decide_eq_true_eq]

/-- An unblock cancels the job of a late thread and of no other exactly if the budget that
is left is on the same side of both limits. -/
theorem late_unblock_iff (task : Task) (params : Parameters) (deadline now : Nat)
    (driven : Driven task params deadline) (before : now < deadline) :
    ((task.unblock now).deadlineNode =
        if Late task params deadline now then none else some deadline) ↔
      SameSide task params deadline now := by
  have decision := driven.cancels_iff before
  have outcome : (task.unblock now).deadlineNode =
      if params.budget * task.available % 2 ^ 64 <
        params.deadline * (deadline - now + deadline) % 2 ^ 64 then none else some deadline := by
    unfold Task.unblock
    split
    case isTrue cancelled => rw [if_pos (decision.mp cancelled)]; rfl
    case isFalse kept => rw [if_neg (mt decision.mpr kept)]; exact driven.job
  rw [outcome]
  unfold SameSide
  by_cases late : Late task params deadline now
  · split
    case isTrue cancelled => exact iff_of_true rfl cancelled
    case isFalse kept => exact iff_of_false (by simp) kept
  · split
    case isTrue cancelled => exact iff_of_false (by simp) (Nat.not_le.mpr cancelled)
    case isFalse kept => exact iff_of_true rfl (Nat.not_lt.mp kept)

/-- A thread with a budget of two ticks in ten and one tick left of it. -/
def early : Task :=
  { cbsServer := some ⟨10, 2⟩, deadlineNode := some 100, background := 2 ^ 63 + 510, order := .last
    available := 1, isPreemptible := true, isReady := false }

theorem early_driven : Driven early ⟨10, 2⟩ 100 := ⟨rfl, rfl, by decide, by decide⟩

/-- A tick before the deadline the thread is late and loses its job. -/
theorem late_unblock_iff_early :
    (early.unblock 99).deadlineNode = if Late early ⟨10, 2⟩ 100 99 then none else some 100 :=
  (late_unblock_iff early ⟨10, 2⟩ 100 99 early_driven (by decide)).mpr (by decide)

/-- A hundred ticks before the deadline the thread has time enough, but it loses its job. -/
theorem early_unblock_cancels :
    ¬ ∀ (task : Task) (params : Parameters) (deadline now : Nat), params.Accepted →
      Driven task params deadline → task.available < 2 ^ 32 → now < deadline →
      (task.unblock now).deadlineNode =
        if Late task params deadline now then none else some deadline := by
  intro claim
  have kept := claim early ⟨10, 2⟩ 100 0 (by decide) early_driven (by decide) (by decide)
  revert kept
  decide

end LateUnblock

/-- A thread with its history: whether a job was released before, and how many callouts
there were since the last release. -/
structure Account where
  task : Task
  released : Bool
  callouts : Nat
deriving DecidableEq, Repr

/-- What happens to an attached thread. Its mode and its state may change at any time. -/
inductive Operation where
  | release (deadline : Nat)
  | cancel
  | tick
  | change (isPreemptible isReady : Bool)
deriving DecidableEq, Repr

/-- One operation on the thread. -/
def Account.step (account : Account) : Operation → Option Account
  | .release deadline =>
      some { task := account.task.releaseJob deadline, released := true, callouts := 0 }
  | .cancel => some { account with task := account.task.cancelJob }
  | .tick =>
      let (task, called) := account.task.budgetAtTick
      some { account with task, callouts := account.callouts + if called then 1 else 0 }
  | .change isPreemptible isReady =>
      some { account with task := { account.task with isPreemptible, isReady } }

/-- The thread was attached to a server, and no job was released yet. -/
structure Initial (params : Parameters) (account : Account) : Prop where
  accepted : params.Accepted
  server : account.task.cbsServer = some params
  available : account.task.available < 2 ^ 32
  released : account.released = false

/-- No tick that counts comes while the budget of a job is used up. -/
def Spared (account : Account) (operation : Operation) : Prop :=
  operation = .tick → account.released = true → account.task.isPreemptible = true →
    account.task.isReady = true → account.task.available ≠ 0
deriving Decidable

/-- The invariant after the first release: the budget is not above that of the server, and
after a callout nothing is left of it. -/
structure Within (params : Parameters) (account : Account) : Prop where
  server : account.task.cbsServer = some params
  range : account.task.available < 2 ^ 32
  budget : account.released = true → account.task.available ≤ params.budget
  callouts : account.released = true → account.callouts ≤ 1 ∧
    (account.callouts = 1 → account.task.available = 0)

theorem Task.budgetAtTick_cases (task : Task) :
    ((task.isPreemptible = false ∨ task.isReady = false) ∧ task.budgetAtTick = (task, false)) ∨
    (task.isPreemptible = true ∧ task.isReady = true ∧ task.available = 1 ∧
      task.budgetAtTick = ({ task with available := 0, deadlineNode := none }, true)) ∨
    (task.isPreemptible = true ∧ task.isReady = true ∧ task.available ≠ 1 ∧
      task.budgetAtTick = ({ task with available := wrapSub (2 ^ 32) task.available 1 }, false)) := by
  unfold Task.budgetAtTick
  cases preemptible : task.isPreemptible with
  | false => exact .inl ⟨.inl rfl, rfl⟩
  | true =>
    cases ready : task.isReady with
    | false => exact .inl ⟨.inr rfl, rfl⟩
    | true =>
      by_cases last : task.available = 1
      · exact .inr (.inl ⟨rfl, rfl, last, by simp [last, Task.budgetCallout, Task.cancelJob]⟩)
      · exact .inr (.inr ⟨rfl, rfl, last, by simp [last]⟩)

/-- A tick that counts takes one from a budget that is not used up. -/
theorem counted_down {available : Nat} (some_left : available ≠ 0) (range : available < 2 ^ 32) :
    wrapSub (2 ^ 32) available 1 = available - 1 :=
  wrapSub_of_le _ _ _ (Nat.one_le_iff_ne_zero.mpr some_left) range

namespace Within

variable {params : Parameters} {account next : Account}

section

variable (within : Within params account)
include within

/-- A release gives the budget of the server, reduced to 32 bits. -/
theorem release (deadline : Nat) : Within params ⟨account.task.releaseJob deadline, true, 0⟩ := by
  have given : (account.task.releaseJob deadline).available = params.budget % 2 ^ 32 := by
    simp only [Task.releaseJob, within.server]
  refine ⟨within.server, ?_, fun _ => ?_, fun _ => ⟨Nat.zero_le 1, fun one => absurd one (by simp)⟩⟩
  · rw [given]
    exact Nat.mod_lt _ (Nat.two_pow_pos 32)
  · rw [given]
    exact Nat.mod_le _ _

/-- A tick that counts takes one from a budget that is not used up. -/
theorem counted (left : account.released = true →
    account.task.available ≠ 0) {available : Nat} (range : available < 2 ^ 32)
    (decreased : account.released = true → available = account.task.available - 1) :
    Within params { account with task := { account.task with available } } where
  server := within.server
  range := range
  budget := by
    intro released
    have budget := within.budget released
    calc available = account.task.available - 1 := decreased released
      _ ≤ account.task.available := Nat.sub_le _ 1
      _ ≤ params.budget := budget
  callouts := by
    intro released
    obtain ⟨most, used_up⟩ := within.callouts released
    exact ⟨most, fun one => absurd (used_up one) (left released)⟩

/-- The callout comes with the last tick of the budget. -/
theorem called (last : account.task.available = 1) : Within params { account with
      task := { account.task with available := 0, deadlineNode := none }
      callouts := account.callouts + 1 } where
  server := within.server
  range := Nat.two_pow_pos 32
  budget := fun _ => Nat.zero_le _
  callouts := by
    intro released
    obtain ⟨most, used_up⟩ := within.callouts released
    have first : account.callouts = 0 := by omega
    exact ⟨(congrArg (· + 1) first).le, fun _ => rfl⟩

/-- A tick takes one from what is left, and a callout takes the last one. -/
theorem tick (spared : Spared account .tick) : Within params { account with
      task := account.task.budgetAtTick.1
      callouts := account.callouts + if account.task.budgetAtTick.2 then 1 else 0 } ∧
      (account.released = true →
        account.task.budgetAtTick.1.available ≤ account.task.available) := by
  obtain ⟨-, idle⟩ | ⟨-, -, last, called⟩ | ⟨preemptible, ready, more, counted⟩ :=
    account.task.budgetAtTick_cases
  · rw [idle]
    exact ⟨within, fun _ => Nat.le_refl _⟩
  · rw [called]
    exact ⟨within.called last, fun _ => Nat.zero_le _⟩
  · have left (released : account.released = true) : account.task.available ≠ 0 :=
      spared rfl released preemptible ready
    have decreased (released : account.released = true) :
        wrapSub (2 ^ 32) account.task.available 1 = account.task.available - 1 :=
      counted_down (left released) within.range
    have range : wrapSub (2 ^ 32) account.task.available 1 < 2 ^ 32 :=
      Nat.mod_lt _ (Nat.two_pow_pos 32)
    rw [counted]
    refine ⟨within.counted left range decreased, ?_⟩
    intro released
    exact (decreased released).le.trans (Nat.sub_le _ 1)

end

/-- Every spared operation keeps the invariant, and only a release adds to the budget. -/
theorem step (within : Within params account) (op : Operation)
    (spared : Spared account op) (taken : account.step op = some next) :
    Within params next ∧ (account.released = true → (∀ deadline, op ≠ .release deadline) →
      next.task.available ≤ account.task.available) := by
  cases op with
  | release deadline =>
    cases taken
    exact ⟨within.release deadline, fun _ other => absurd rfl (other deadline)⟩
  | cancel | change =>
    cases taken
    exact ⟨{ within with }, fun _ _ => Nat.le_refl _⟩
  | tick =>
    cases taken
    obtain ⟨kept, decreased⟩ := within.tick spared
    exact ⟨kept, fun released _ => decreased released⟩

/-- Every run without a tick on a budget that is used up keeps the invariant. -/
theorem run {past : List Account} (run : Trace (Initial params) Spared Account.step past account) :
    Within params account := by
  refine run.invariant (Within params) ?_ fun _ op _ within spared taken =>
    (within.step op spared taken).1
  intro start initial
  have fresh {conclusion : Prop} (released : start.released = true) : conclusion := by
    rw [initial.released] at released
    cases released
  exact ⟨initial.server, initial.available, fresh, fresh⟩

end Within

/-- In every run in which no tick counts on a budget that is used up, the budget that is
left stays between zero and that of the server after the first release, it grows at
releases only, and there is at most one callout between two releases. -/
theorem cbs_budget_stays_within (params : Parameters) (past : List Account) (account : Account)
    (run : Trace (Initial params) Spared Account.step past account) :
    (account.released = true → account.task.available ≤ params.budget ∧ account.callouts ≤ 1) ∧
    ∀ operation next, Spared account operation → account.step operation = some next →
      account.released = true → (∀ deadline, operation ≠ .release deadline) →
        next.task.available ≤ account.task.available := by
  have within := Within.run run
  refine ⟨fun released => ⟨within.budget released, (within.callouts released).1⟩, ?_⟩
  intro operation next spared taken
  exact (within.step operation spared taken).2

/-- A thread of a server with a budget of one tick. -/
def attached : Account :=
  { task :=
      { cbsServer := some ⟨10, 1⟩, deadlineNode := none, background := 2 ^ 63 + 510, order := .last
        available := 0, isPreemptible := true, isReady := true }
    released := false
    callouts := 0 }

theorem attached_initial : Initial ⟨10, 1⟩ attached := ⟨by decide, rfl, by decide, rfl⟩

/-- The budget is used up, and the thread waits for the next release. -/
theorem cbs_budget_stays_within_attached :
    ∃ past account, Trace (Initial ⟨10, 1⟩) Spared Account.step past account ∧
      account.callouts = 1 ∧ account.task.available ≤ 1 := by
  obtain ⟨past, account, run, seen⟩ := Trace.observe Spared Account.step attached attached_initial
    [.release 10, .tick, .change true false, .tick] (fun account => (account.released, account.callouts))
    (true, 1) (by decide) (by decide)
  obtain ⟨released, callouts⟩ := Prod.mk.inj seen
  exact ⟨past, account, run, callouts,
    ((cbs_budget_stays_within ⟨10, 1⟩ past account run).1 released).1⟩

/-- The tick after the callout gives the thread a budget of almost 2^32 ticks. -/
theorem budget_wraps_after_callout :
    ¬ ∀ (params : Parameters) (past : List Account) (account : Account),
      Trace (Initial params) (fun _ _ => True) Account.step past account → account.released = true →
        account.task.available ≤ params.budget := by
  intro claim
  obtain ⟨past, account, run, seen⟩ := Trace.observe (fun _ _ => True) Account.step attached
    attached_initial [.release 10, .tick, .tick]
    (fun account => (account.released, account.task.available)) (true, 4294967295) (by decide)
    (by decide)
  obtain ⟨released, available⟩ := Prod.mk.inj seen
  have most := claim ⟨10, 1⟩ past account run released
  rw [available] at most
  exact absurd most (by decide)

end Rtems.Scheduler.Cbs
