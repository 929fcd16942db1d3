import Mathlib.Data.List.Basic
import Mathlib.Data.Nat.Bitwise

/-!
# The uniprocessor schedulers' common part

The uniprocessor schedulers differ in how they keep the ready threads and share the
rules for the heir of the processor. A thread carries the mapped priority of its
scheduler node, whose lowest bit asks for the last place of the priority group, and the
priority of its wait queue, which has no such bit. A change of the priority and the
update operation of the scheduler are one step, since the source calls the update
operation for every change.
-/

namespace Rtems.Scheduler

universe u
variable {T : Type u}

/-- `Priority_Group_order`. -/
inductive GroupOrder where
  | first
  | last
deriving DecidableEq, Repr

/-- `PRIORITY_GROUP_FIRST` and `PRIORITY_GROUP_LAST`. -/
def GroupOrder.bit : GroupOrder → Nat
  | first => 0
  | last => 1

/-- The place in a priority group that a group order asks for. -/
def GroupOrder.place (order : GroupOrder) (thread : T) (group : List T) : List T :=
  match order with
  | first => thread :: group
  | last => group ++ [thread]

/-- `SCHEDULER_PRIORITY_MAP`. -/
def priorityMap (priority : Nat) : Nat :=
  priority <<< 1

/-- `SCHEDULER_PRIORITY_UNMAP`. -/
def priorityUnmap (priority : Nat) : Nat :=
  priority >>> 1

/-- `SCHEDULER_PRIORITY_APPEND`. -/
def priorityAppend (priority : Nat) : Nat :=
  priority ||| GroupOrder.last.bit

/-- `SCHEDULER_PRIORITY_IS_APPEND`. -/
def priorityIsAppend (priority : Nat) : Bool :=
  priority &&& GroupOrder.last.bit != 0

/-- What the schedulers read of a thread: the priority of its scheduler node, the
priority of its wait queue, whether its state is ready and whether it is preemptible. -/
structure Thread where
  priority : Nat
  waitPriority : Nat
  isReady : Bool
  isPreemptible : Bool

/-- The threads and the heir of the processor. -/
structure Processor (T : Type u) where
  thread : T → Thread
  heir : T

/-- The operations of a uniprocessor scheduler. -/
inductive Operation (T : Type u) where
  | block (thread : T)
  | unblock (thread : T)
  | updatePriority (thread : T) (priority : Nat) (order : GroupOrder)
  | yield (thread : T)
deriving DecidableEq

variable [DecidableEq T]

section

variable (processor : Processor T)

/-- The state of a thread becomes ready or not ready, before the scheduler is told. -/
def Processor.setReady (thread : T) (isReady : Bool) : Processor T :=
  { processor with
    thread := Function.update processor.thread thread { processor.thread thread with isReady } }

/-- `_Scheduler_Node_set_priority` with the priority of the wait queue, before the
scheduler is told. -/
def Processor.setPriority (thread : T) (priority : Nat) (order : GroupOrder) : Processor T :=
  { processor with
    thread := Function.update processor.thread thread
      { processor.thread thread with
        priority := priorityMap priority ||| order.bit
        waitPriority := priorityMap priority } }

/-- `_Scheduler_uniprocessor_Update_heir_if_necessary`. -/
def Processor.updateHeirIfNecessary (newHeir : T) : Processor T :=
  if processor.heir ≠ newHeir then { processor with heir := newHeir } else processor

/-- `_Scheduler_uniprocessor_Update_heir_if_preemptible`. -/
def Processor.updateHeirIfPreemptible (newHeir : T) : Processor T :=
  if processor.heir ≠ newHeir ∧ (processor.thread processor.heir).isPreemptible then
    { processor with heir := newHeir }
  else processor

/-- `_Scheduler_uniprocessor_Block` after the extraction. The highest ready thread is
missing only if no thread is ready, which the source rules out. -/
def Processor.block (thread : T) (highestReady : Option T) : Option (Processor T) :=
  if processor.heir = thread then
    highestReady.map fun newHeir => { processor with heir := newHeir }
  else some processor

/-- `_Scheduler_uniprocessor_Unblock`. -/
def Processor.unblock (thread : T) (priority : Nat) : Processor T :=
  if priority < (processor.thread processor.heir).waitPriority then
    processor.updateHeirIfPreemptible thread
  else processor

/-- `_Scheduler_uniprocessor_Schedule`. -/
def Processor.schedule (highestReady : Option T) : Option (Processor T) :=
  highestReady.map processor.updateHeirIfPreemptible

/-- `_Scheduler_uniprocessor_Yield`. -/
def Processor.yield (highestReady : Option T) : Option (Processor T) :=
  highestReady.map processor.updateHeirIfNecessary

/-- The change of the thread that an operation is about. -/
def Processor.prepare : Operation T → Processor T
  | .block thread => processor.setReady thread false
  | .unblock thread => processor.setReady thread true
  | .updatePriority thread priority order => processor.setPriority thread priority order
  | .yield _ => processor

/-- The rule for the heir that an operation follows after the ready threads were
updated; an update that moved no thread leaves the heir alone. -/
def Processor.elect (highestReady : Option T) (moved : Prop) [Decidable moved] : Operation T →
    Option (Processor T)
  | .block thread => processor.block thread highestReady
  | .unblock thread => some (processor.unblock thread (processor.thread thread).waitPriority)
  | .updatePriority _ _ _ => if moved then processor.schedule highestReady else some processor
  | .yield _ => processor.yield highestReady

/-- When an operation may be requested: a ready thread may block or yield, a blocked
one may be unblocked, and priorities are in the range of the ready chains. -/
def Processor.Admits : Operation T → Prop
  | .block thread => (processor.thread thread).isReady = true
  | .unblock thread => (processor.thread thread).isReady = false
  | .updatePriority _ priority _ => priority < 256
  | .yield thread => (processor.thread thread).isReady = true

end

instance (processor : Processor T) (operation : Operation T) :
    Decidable (processor.Admits operation) :=
  match operation with
  | .block _ => inferInstanceAs (Decidable (_ = true))
  | .unblock _ => inferInstanceAs (Decidable (_ = false))
  | .updatePriority .. => inferInstanceAs (Decidable (_ < _))
  | .yield _ => inferInstanceAs (Decidable (_ = true))

/-- The priority of the node is that of the wait queue up to the group order. -/
def Thread.Mapped (thread : Thread) : Prop :=
  thread.waitPriority = 2 * priorityUnmap thread.priority ∧ priorityUnmap thread.priority < 256

omit [DecidableEq T] in
theorem GroupOrder.place_perm (order : GroupOrder) (thread : T) (group : List T) :
    (order.place thread group).Perm (thread :: group) := by
  cases order with
  | first => exact .refl _
  | last => exact List.perm_append_singleton thread group

section

variable (prio : Nat)

theorem priorityMap_eq : priorityMap prio = 2 * prio := by
  unfold priorityMap
  omega

theorem priorityUnmap_eq : priorityUnmap prio = prio / 2 := by
  unfold priorityUnmap
  omega

/-- A mapped priority with a group order. -/
theorem mapped_or_bit (order : GroupOrder) :
    priorityMap prio ||| order.bit = 2 * prio + order.bit := by
  rw [priorityMap_eq]
  cases order with
  | first => simp [GroupOrder.bit]
  | last =>
    have joined := Nat.two_pow_add_eq_or_of_lt (i := 1) (b := 1) (by decide) prio
    simpa [GroupOrder.bit] using joined.symm

theorem priorityUnmap_mapped (order : GroupOrder) :
    priorityUnmap (priorityMap prio ||| order.bit) = prio := by
  rw [mapped_or_bit, priorityUnmap_eq]
  cases order <;> simp only [GroupOrder.bit] <;> omega

theorem priorityIsAppend_mapped (order : GroupOrder) :
    priorityIsAppend (priorityMap prio ||| order.bit) = decide (order = .last) := by
  rw [mapped_or_bit]
  unfold priorityIsAppend
  cases order <;> simp [GroupOrder.bit]

end

section

variable (cpu : Processor T)

@[simp] theorem Processor.prepare_isPreemptible (op : Operation T) (tested : T) :
    ((cpu.prepare op).thread tested).isPreemptible = (cpu.thread tested).isPreemptible := by
  cases op with
  | block thread | unblock thread =>
    by_cases same : tested = thread <;> simp [prepare, setReady, same]
  | updatePriority thread prio order =>
    by_cases same : tested = thread <;> simp [prepare, setPriority, same]
  | yield thread => rfl

@[simp] theorem Processor.setReady_waitPriority (thread tested : T) (isReady : Bool) :
    ((cpu.setReady thread isReady).thread tested).waitPriority =
      (cpu.thread tested).waitPriority := by
  by_cases same : tested = thread <;> simp [setReady, same]

/-- Only the block operation makes a ready thread not ready. -/
theorem Processor.prepare_isReady (op : Operation T) (tested : T)
    (ready : (cpu.thread tested).isReady = true) (other : op ≠ .block tested) :
    ((cpu.prepare op).thread tested).isReady = true := by
  cases op with
  | block thread =>
    have different : tested ≠ thread := fun same => other (same ▸ rfl)
    simpa [prepare, setReady, different] using ready
  | unblock thread => by_cases same : tested = thread <;> simp [prepare, setReady, same, ready]
  | updatePriority thread prio order =>
    by_cases same : tested = thread
    · subst same
      simpa [prepare, setPriority] using ready
    · simpa [prepare, setPriority, same] using ready
  | yield thread => exact ready

theorem Processor.updateHeirIfPreemptible_heir (newHeir : T)
    (preemptible : (cpu.thread cpu.heir).isPreemptible = true) :
    (cpu.updateHeirIfPreemptible newHeir).heir = newHeir := by
  unfold updateHeirIfPreemptible
  split
  case isTrue => rfl
  case isFalse unchanged =>
    by_contra different
    exact unchanged ⟨different, preemptible⟩

theorem Processor.updateHeirIfNecessary_heir (newHeir : T) :
    (cpu.updateHeirIfNecessary newHeir).heir = newHeir := by
  unfold updateHeirIfNecessary
  split
  case isTrue => rfl
  case isFalse same => exact not_not.mp same

/-- The heir is compared with a priority of the wait queue, so the group order of the
unblocked thread does not matter. -/
theorem Processor.unblock_priority (thread : T) (mapped : ∀ thread, (cpu.thread thread).Mapped) :
    cpu.unblock thread (cpu.thread thread).priority =
      cpu.unblock thread (cpu.thread thread).waitPriority := by
  have own := (mapped thread).1
  have heir := (mapped cpu.heir).1
  rw [priorityUnmap_eq] at own heir
  unfold Processor.unblock
  by_cases before : (cpu.thread thread).priority < (cpu.thread cpu.heir).waitPriority
  · rw [if_pos before, if_pos (by omega)]
  · rw [if_neg before, if_neg (by omega)]

end

/-- The rules for the heir change no thread. -/
theorem Processor.elect_thread {cpu next : Processor T} {highestReady : Option T}
    {moved : Prop} [Decidable moved] {op : Operation T}
    (elected : cpu.elect highestReady moved op = some next) :
    next.thread = cpu.thread := by
  have preemptible : ∀ newHeir, (cpu.updateHeirIfPreemptible newHeir).thread =
      cpu.thread := by
    intro newHeir
    unfold updateHeirIfPreemptible
    split <;> rfl
  cases op with
  | block thread =>
    simp only [elect, Processor.block] at elected
    split at elected
    · obtain ⟨newHeir, -, rfl⟩ := Option.map_eq_some_iff.mp elected
      rfl
    · cases elected
      rfl
  | unblock thread =>
    cases elected
    unfold Processor.unblock
    split
    · exact preemptible thread
    · rfl
  | updatePriority thread prio order =>
    simp only [elect] at elected
    split at elected
    · obtain ⟨newHeir, -, rfl⟩ := Option.map_eq_some_iff.mp elected
      exact preemptible newHeir
    · cases elected
      rfl
  | yield thread =>
    obtain ⟨newHeir, -, rfl⟩ := Option.map_eq_some_iff.mp elected
    unfold updateHeirIfNecessary
    split <;> rfl

/-- Preparing an operation keeps the two priorities of every thread in agreement. -/
theorem Processor.prepare_mapped (cpu : Processor T) (op : Operation T)
    (admitted : cpu.Admits op) (mapped : ∀ thread, (cpu.thread thread).Mapped)
    (tested : T) : ((cpu.prepare op).thread tested).Mapped := by
  cases op with
  | block thread | unblock thread =>
    by_cases same : tested = thread
    · simpa [prepare, setReady, same, Thread.Mapped] using mapped thread
    · simpa [prepare, setReady, same] using mapped tested
  | updatePriority thread prio order =>
    by_cases same : tested = thread
    · subst same
      have range : prio < 256 := admitted
      simp only [prepare, setPriority, Function.update_self, Thread.Mapped, priorityUnmap_mapped]
      exact ⟨priorityMap_eq prio, range⟩
    · simpa [prepare, setPriority, same] using mapped tested
  | yield thread => exact mapped tested

end Rtems.Scheduler
