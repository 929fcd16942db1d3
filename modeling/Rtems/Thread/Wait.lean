import Mathlib.Tactic.Common

/-!
# Blocking operations

A thread that blocks takes several steps: under a lock it makes its request known and
sets its wait flags to the intention to block, then it inserts its timer, sets its
blocking state and tries to change the wait flags to blocked. Other parties may satisfy
the request or let it time out at any point. A party that finds the thread with the
intention to block only makes the wait flags ready, and the thread cancels the blocking
operation itself; a party that finds it blocked has to unblock it later, outside the lock.
The functions here are the parts of the blocking operations of events and of thread
queues that deal with the wait flags, the timer and the blocking state.
-/

namespace Rtems.Wait

/-- The wait state in the wait flags. -/
inductive Flags where
  | ready
  | intendToBlock
  | blocked
deriving DecidableEq, Repr

/-- What the thread does next in its blocking operation: it runs other code, inserts its
timer, sets its blocking state, tries to change the wait flags, is not dispatched before
it is unblocked, or cancels the operation in two steps. -/
inductive Phase where
  | running
  | callout
  | setState
  | tryChange
  | asleep
  | removeTimer
  | unblock
deriving DecidableEq, Repr

/-- The wait flags, the blocking state and the timer of a thread, the expirations of the
timer whose routine did not run yet, and the parties that made the thread ready and have
to remove its timer or to unblock it. The last field counts how often the blocking state
was cleared since the operation began. -/
structure Control where
  phase : Phase
  flags : Flags
  blocking : Bool
  timer : Bool
  expirations : Nat
  removers : Nat
  unblockers : Nat
  readied : Nat
deriving DecidableEq, Repr

/-- A thread that is not in a blocking operation. -/
def Control.initial : Control where
  phase := .running
  flags := .ready
  blocking := false
  timer := false
  expirations := 0
  removers := 0
  unblockers := 0
  readied := 0

variable (control : Control)

/-- `_Thread_Wait_flags_set` with the intention to block. -/
def Control.begin : Control :=
  { control with phase := .callout, flags := .intendToBlock, readied := 0 }

/-- `_Thread_Unblock`. -/
def Control.clear : Control :=
  { control with
    blocking := false
    readied := if control.blocking then control.readied + 1 else control.readied }

/-- The next step of the thread itself. A thread that is asleep goes on only without a
blocking state. -/
def Control.advance (timed : Bool) : Option Control :=
  match control.phase with
  | .running => none
  | .callout => some { control with phase := .setState, timer := timed || control.timer }
  | .setState => some { control with phase := .tryChange, blocking := true }
  | .tryChange =>
      if control.flags = .intendToBlock then
        some { control with phase := .asleep, flags := .blocked }
      else some { control with phase := .removeTimer }
  | .asleep => if control.blocking then none else some { control with phase := .running }
  | .removeTimer => some { control with phase := .unblock, timer := false }
  | .unblock => some { control.clear with phase := .running }

/-- The thread is made ready by a party that found it not ready: by a satisfied request,
whose party removes the timer before it unblocks a blocked thread, or by its timer. -/
def Control.settle (timeout : Bool) : Control :=
  match control.flags with
  | .ready => control
  | .intendToBlock => { control with flags := .ready }
  | .blocked =>
      if timeout then { control with flags := .ready, unblockers := control.unblockers + 1 }
      else { control with flags := .ready, removers := control.removers + 1 }

/-- The clock takes an expired timer and is going to call `_Thread_Timeout`. -/
def Control.expire : Option Control :=
  if control.timer then
    some { control with timer := false, expirations := control.expirations + 1 }
  else none

/-- `_Thread_Timer_remove` by another party. -/
def Control.removeTimer : Option Control :=
  if control.removers = 0 then none
  else some { control with
    timer := false
    removers := control.removers - 1
    unblockers := control.unblockers + 1 }

/-- `_Thread_Unblock` by another party. -/
def Control.unblock : Option Control :=
  if control.unblockers = 0 then none
  else some { control.clear with unblockers := control.unblockers - 1 }

/-- Nobody has to unblock the thread. -/
def Control.Alone : Prop := control.removers = 0 ∧ control.unblockers = 0

/-- What is known of the thread in each phase. -/
def Control.Coherent : Prop :=
  match control.phase with
  | .running => control.flags = .ready ∧ control.blocking = false ∧ control.Alone
  | .callout | .setState => control.flags ≠ .blocked ∧ control.blocking = false ∧
      control.Alone ∧ control.readied = 0
  | .tryChange => control.flags ≠ .blocked ∧ control.blocking = true ∧ control.Alone ∧
      control.readied = 0
  | .asleep =>
      (control.flags = .blocked ∧ control.blocking = true ∧ control.Alone ∧
        control.readied = 0) ∨
      (control.flags = .ready ∧ control.blocking = true ∧
        control.removers + control.unblockers = 1 ∧ control.readied = 0) ∨
      (control.flags = .ready ∧ control.blocking = false ∧ control.Alone ∧ control.readied = 1)
  | .removeTimer | .unblock => control.flags = .ready ∧ control.blocking = true ∧
      control.Alone ∧ control.readied = 0

variable {ctl next : Control}

/-- A step of the thread itself does not make it ready. -/
theorem Control.advance_flags {timed : Bool} (taken : ctl.advance timed = some next) :
    ctl.phase ≠ .running ∧ (next.flags = .ready ↔ ctl.flags = .ready) := by
  unfold Control.advance at taken
  cases phase : ctl.phase with
  | running => simp [phase] at taken
  | callout | setState | removeTimer | unblock =>
    simp only [phase, Option.some.injEq] at taken
    subst taken
    exact ⟨by simp, Iff.rfl⟩
  | tryChange =>
    simp only [phase] at taken
    split at taken
    · rename_i intends
      cases taken
      exact ⟨by simp, by simp [intends]⟩
    · cases taken
      exact ⟨by simp, Iff.rfl⟩
  | asleep =>
    simp only [phase] at taken
    split at taken
    · cases taken
    · cases taken
      exact ⟨by simp, Iff.rfl⟩

@[simp] theorem Control.settle_flags (ctl : Control) (timeout : Bool) :
    (ctl.settle timeout).flags = .ready := by
  unfold Control.settle
  cases flags : ctl.flags with
  | ready => exact flags
  | intendToBlock => rfl
  | blocked => cases timeout <;> rfl

@[simp] theorem Control.settle_phase (ctl : Control) (timeout : Bool) :
    (ctl.settle timeout).phase = ctl.phase := by
  unfold Control.settle
  cases flags : ctl.flags with
  | ready => rfl
  | intendToBlock => rfl
  | blocked => cases timeout <;> rfl

/-- The clock and the parties that unblock the thread change neither phase nor flags. -/
theorem Control.expire_frame (taken : ctl.expire = some next) :
    next.phase = ctl.phase ∧ next.flags = ctl.flags := by
  unfold Control.expire at taken
  split at taken
  · cases taken
    exact ⟨rfl, rfl⟩
  · cases taken

theorem Control.removeTimer_frame (taken : ctl.removeTimer = some next) :
    next.phase = ctl.phase ∧ next.flags = ctl.flags := by
  unfold Control.removeTimer at taken
  split at taken
  · cases taken
  · cases taken
    exact ⟨rfl, rfl⟩

theorem Control.unblock_frame (taken : ctl.unblock = some next) :
    next.phase = ctl.phase ∧ next.flags = ctl.flags := by
  unfold Control.unblock at taken
  split at taken
  · cases taken
  · cases taken
    exact ⟨rfl, rfl⟩

theorem Control.expire_readied (taken : ctl.expire = some next) : next.readied = ctl.readied := by
  unfold Control.expire at taken
  split at taken
  · cases taken
    rfl
  · cases taken

theorem Control.removeTimer_party (taken : ctl.removeTimer = some next) :
    ctl.removers + ctl.unblockers ≠ 0 := by
  unfold Control.removeTimer at taken
  split at taken
  · cases taken
  · omega

theorem Control.unblock_party (taken : ctl.unblock = some next) :
    ctl.removers + ctl.unblockers ≠ 0 := by
  unfold Control.unblock at taken
  split at taken
  · cases taken
  · omega

namespace Control.Coherent

variable {ctl next : Control}

/-- A thread that is not in a blocking operation is ready. -/
theorem running (coherent : ctl.Coherent) (phase : ctl.phase = .running) : ctl.flags = .ready := by
  unfold Coherent at coherent
  rw [phase] at coherent
  exact coherent.1

theorem initial : Control.initial.Coherent := ⟨rfl, rfl, rfl, rfl⟩

section

variable (coherent : ctl.Coherent)
include coherent

/-- A running thread begins to block. -/
theorem begin (running : ctl.phase = .running) : ctl.begin.Coherent := by
  unfold Coherent at coherent
  rw [running] at coherent
  obtain ⟨-, st, alone⟩ := coherent
  exact ⟨by simp [Control.begin], st, alone, rfl⟩

/-- The thread itself goes on. -/
theorem advance (timed : Bool) (taken : ctl.advance timed = some next) :
    next.Coherent ∧ (next.phase = .running → next.flags = .ready ∧ next.readied = 1) := by
  unfold Coherent at coherent
  unfold Control.advance at taken
  cases phase : ctl.phase with
  | running => simp [phase] at taken
  | callout | removeTimer =>
    simp only [phase, Option.some.injEq] at taken coherent
    subst taken
    exact ⟨coherent, by simp⟩
  | setState =>
    simp only [phase, Option.some.injEq] at taken coherent
    subst taken
    obtain ⟨flags, -, alone, none⟩ := coherent
    exact ⟨⟨flags, rfl, alone, none⟩, by simp⟩
  | tryChange =>
    simp only [phase] at taken coherent
    obtain ⟨flags, st, alone, none⟩ := coherent
    split at taken
    · cases taken
      exact ⟨.inl ⟨rfl, st, alone, none⟩, by simp⟩
    · cases taken
      have ready : ctl.flags = .ready := by cases found : ctl.flags <;> simp_all
      exact ⟨⟨ready, st, alone, none⟩, by simp⟩
  | asleep =>
    simp only [phase] at taken coherent
    split at taken
    · cases taken
    · rename_i clear
      cases taken
      obtain ⟨-, st, -, -⟩ | ⟨-, st, -, -⟩ | ⟨ready, st, alone, once⟩ := coherent
      · simp [clear] at st
      · simp [clear] at st
      · exact ⟨⟨ready, st, alone⟩, fun _ => ⟨ready, once⟩⟩
  | unblock =>
    simp only [phase, Option.some.injEq] at taken coherent
    subst taken
    obtain ⟨ready, st, alone, none⟩ := coherent
    refine ⟨⟨ready, rfl, alone⟩, fun _ => ⟨ready, ?_⟩⟩
    simp [Control.clear, st, none]

/-- Another party makes the thread ready. -/
theorem settle (timeout : Bool) : (ctl.settle timeout).Coherent := by
  unfold Control.settle
  cases flags : ctl.flags with
  | ready => exact coherent
  | intendToBlock =>
    unfold Coherent at coherent ⊢
    cases phase : ctl.phase with
    | running => simp [phase, flags] at coherent
    | callout | setState | tryChange =>
      simp only [phase] at coherent ⊢
      exact ⟨by simp, coherent.2⟩
    | asleep => simp [phase, flags] at coherent
    | removeTimer | unblock => simp [phase, flags] at coherent
  | blocked =>
    unfold Coherent at coherent
    cases phase : ctl.phase with
    | running => simp [phase, flags] at coherent
    | callout | setState | tryChange => simp [phase, flags] at coherent
    | removeTimer | unblock => simp [phase, flags] at coherent
    | asleep =>
      simp only [phase, flags, true_and, reduceCtorEq, false_and, or_false] at coherent
      obtain ⟨st, ⟨removers, unblockers⟩, none⟩ := coherent
      cases timeout with
      | true =>
        simp only [if_true, Coherent]
        exact .inr (.inl ⟨trivial, st, by simp [removers, unblockers], none⟩)
      | false =>
        simp only [Bool.false_eq_true, if_false, Coherent]
        exact .inr (.inl ⟨trivial, st, by simp [removers, unblockers], none⟩)

theorem expire (taken : ctl.expire = some next) : next.Coherent := by
  unfold Control.expire at taken
  split at taken
  · cases taken
    exact coherent
  · cases taken

/-- Only a thread that is asleep is unblocked by others. -/
theorem asleep (party : ctl.removers + ctl.unblockers ≠ 0) :
    ctl.phase = .asleep ∧ ctl.flags = .ready ∧ ctl.blocking = true ∧
      ctl.removers + ctl.unblockers = 1 ∧ ctl.readied = 0 := by
  have together : ¬ctl.Alone := by
    rintro ⟨removers, unblockers⟩
    exact party (by rw [removers, unblockers])
  unfold Coherent at coherent
  cases phase : ctl.phase <;> simp only [phase] at coherent <;> simp_all

theorem removeTimer (taken : ctl.removeTimer = some next) : next.Coherent := by
  unfold Control.removeTimer at taken
  split at taken
  · cases taken
  cases taken
  obtain ⟨phase, ready, st, one, none⟩ := coherent.asleep (by omega)
  simp only [Coherent, phase]
  exact .inr (.inl ⟨ready, st, by omega, none⟩)

/-- Another party unblocks the thread. -/
theorem unblock (taken : ctl.unblock = some next) : next.Coherent := by
  unfold Control.unblock at taken
  split at taken
  · cases taken
  cases taken
  obtain ⟨phase, ready, st, one, none⟩ := coherent.asleep (by omega)
  simp only [Coherent, Control.clear, Control.Alone, phase, st, none, if_true]
  exact .inr (.inr ⟨ready, trivial, ⟨by omega, by omega⟩, trivial⟩)

end

end Control.Coherent

/-- The timer of one blocking operation: it expires at most once, and it is not active
any more when the thread is unblocked. -/
structure Control.Timed (control : Control) : Prop where
  fresh : control.phase = .callout → control.timer = false ∧ control.expirations = 0
  once : control.expirations ≠ 0 → control.timer = false
  unblockers : control.unblockers ≠ 0 → control.timer = false
  woken : control.phase = .asleep → control.blocking = false → control.timer = false
  cancelled : control.phase = .unblock → control.timer = false
  returned : control.phase = .running → control.timer = false

namespace Control.Timed

variable {ctl next : Control}

theorem initial : Control.initial.Timed :=
  ⟨by simp [Control.initial], by simp [Control.initial], by simp [Control.initial],
    by simp [Control.initial], by simp [Control.initial], fun _ => rfl⟩

section

variable (timed : ctl.Timed)
include timed

/-- A thread begins to block with no expiration of its timer under way. -/
theorem begin (running : ctl.phase = .running) (none : ctl.expirations = 0) : ctl.begin.Timed :=
  ⟨fun _ => ⟨timed.returned running, none⟩, timed.once, timed.unblockers,
    by simp [Control.begin], by simp [Control.begin], by simp [Control.begin]⟩

theorem advance (coherent : ctl.Coherent) (ticks : Bool)
    (taken : ctl.advance ticks = some next) : next.Timed := by
  unfold Control.advance at taken
  unfold Coherent at coherent
  cases phase : ctl.phase with
  | running => simp [phase] at taken
  | callout =>
    simp only [phase, Option.some.injEq] at taken coherent
    subst taken
    obtain ⟨inactive, none⟩ := timed.fresh phase
    exact ⟨by simp, fun some => absurd none some, fun some => absurd coherent.2.2.1.2 some,
      by simp, by simp, by simp⟩
  | setState =>
    simp only [phase, Option.some.injEq] at taken
    subst taken
    exact ⟨by simp, timed.once, timed.unblockers, by simp, by simp, by simp⟩
  | tryChange =>
    simp only [phase] at taken coherent
    split at taken
    · cases taken
      exact ⟨by simp, timed.once, timed.unblockers, by simp [coherent.2.1], by simp, by simp⟩
    · cases taken
      exact ⟨by simp, timed.once, timed.unblockers, by simp, by simp, by simp⟩
  | asleep =>
    simp only [phase] at taken
    split at taken
    · cases taken
    · rename_i clear
      cases taken
      exact ⟨by simp, timed.once, timed.unblockers, by simp, by simp,
        fun _ => timed.woken phase (by simpa using clear)⟩
  | removeTimer =>
    simp only [phase, Option.some.injEq] at taken
    subst taken
    exact ⟨by simp, fun _ => rfl, fun _ => rfl, by simp, fun _ => rfl, by simp⟩
  | unblock =>
    simp only [phase, Option.some.injEq] at taken
    subst taken
    exact ⟨by simp, timed.once, timed.unblockers, by simp, by simp, fun _ => timed.cancelled phase⟩

/-- A thread is made ready by its timer only after the timer expired, or before it
blocked. -/
theorem settle (timeout : Bool)
    (expired : timeout = true → ctl.flags = .blocked → ctl.timer = false) :
    (ctl.settle timeout).Timed := by
  unfold Control.settle
  cases flags : ctl.flags with
  | ready => exact timed
  | intendToBlock => exact { timed with }
  | blocked =>
    cases timeout with
    | true => exact { timed with unblockers := fun _ => expired rfl flags }
    | false => exact { timed with }

/-- The routine of an expired timer runs. -/
theorem call : Control.Timed { ctl with expirations := ctl.expirations - 1 } := by
  refine { timed with
    fresh := fun phase => ⟨(timed.fresh phase).1, ?_⟩, once := fun some => timed.once ?_ }
  · have none := (timed.fresh phase).2
    simp [none]
  · have left : ctl.expirations - 1 ≠ 0 := some
    omega

theorem expire (taken : ctl.expire = some next) : next.Timed := by
  unfold Control.expire at taken
  split at taken
  · rename_i active
    cases taken
    refine ⟨fun phase => ?_, fun _ => rfl, fun _ => rfl, fun _ _ => rfl, fun _ => rfl, fun _ => rfl⟩
    have inactive := (timed.fresh phase).1
    simp [active] at inactive
  · cases taken

theorem removeTimer (taken : ctl.removeTimer = some next) : next.Timed := by
  unfold Control.removeTimer at taken
  split at taken
  · cases taken
  · cases taken
    exact ⟨fun phase => ⟨rfl, (timed.fresh phase).2⟩, fun _ => rfl, fun _ => rfl, fun _ _ => rfl,
      fun _ => rfl, fun _ => rfl⟩

theorem unblock (taken : ctl.unblock = some next) : next.Timed := by
  unfold Control.unblock at taken
  split at taken
  · cases taken
  · rename_i some
    cases taken
    have inactive := timed.unblockers some
    exact ⟨timed.fresh, timed.once, fun _ => inactive, fun _ _ => inactive, timed.cancelled,
      timed.returned⟩

end

end Control.Timed

/-- How many steps of the thread and of the parties that unblock it a decided blocking
operation still takes. -/
def Control.remaining : Nat :=
  match control.phase with
  | .running => 0
  | .callout => 5
  | .setState => 4
  | .tryChange => 3
  | .asleep => 1 + 2 * control.removers + control.unblockers
  | .removeTimer => 2
  | .unblock => 1

/-- A decided blocking operation does not get stuck. -/
theorem Control.Coherent.progress (coherent : ctl.Coherent) (ready : ctl.flags = .ready)
    (busy : ctl.phase ≠ .running) (timed : Bool) :
    (ctl.advance timed).isSome ∨ ctl.removeTimer.isSome ∨ ctl.unblock.isSome := by
  unfold Control.Coherent at coherent
  cases phase : ctl.phase with
  | running => exact absurd phase busy
  | callout | setState | removeTimer | unblock => exact .inl (by simp [Control.advance, phase])
  | tryChange => exact .inl (by simp [Control.advance, phase, ready])
  | asleep =>
    simp only [phase, ready, reduceCtorEq, false_and, true_and, false_or] at coherent
    obtain ⟨st, one, -⟩ | ⟨st, -, -⟩ := coherent
    · by_cases none : ctl.removers = 0
      · have some : ctl.unblockers ≠ 0 := by omega
        exact .inr (.inr (by simp [Control.unblock, some]))
      · exact .inr (.inl (by simp [Control.removeTimer, none]))
    · exact .inl (by simp [Control.advance, phase, st])

end Rtems.Wait
