import Rtems.Library.OrderedChain
import Rtems.Scheduler.Priority

/-!
# The simple priority scheduler and its agreement with the deterministic one

The simple scheduler keeps all ready threads in one chain. It inserts a thread before
the first thread whose wait priority is not less than the insert priority; the lowest
bit of the insert priority decides between the two ends of the priority group. The
deterministic scheduler's chains one after another are this chain, operation by
operation, whatever the heir is and whether or not threads are preemptible, as long as
an update changes the priority: an update to the same priority moves the thread within
its group in the simple scheduler only.
-/

namespace Rtems.Scheduler.Simple

open OrderedChain Transition
open Function (update)

universe u
variable {T : Type u} [DecidableEq T]

/-- The processor and the ready chain. -/
structure System (T : Type u) where
  processor : Processor T
  ready : List T

/-- `_Scheduler_simple_Insert` with `_Scheduler_simple_Priority_less_equal`. -/
def System.insert (system : System T) (toInsert : T) (insertPriority : Nat) : System T :=
  { system with
    ready := insertOrdered
      (fun next => insertPriority ≤ (system.processor.thread next).waitPriority) toInsert
      system.ready }

/-- `_Scheduler_simple_Extract`. -/
def System.extract (system : System T) (thread : T) : System T :=
  { system with ready := system.ready.erase thread }

/-- `_Scheduler_simple_Get_highest_ready`; the source has a ready thread at any time. -/
def System.getHighestReady (system : System T) : Option T :=
  system.ready.head?

/-- `_Scheduler_simple_Block`. -/
def System.block (system : System T) (thread : T) : Option (System T) :=
  let extracted := system.extract thread
  (system.processor.block thread extracted.getHighestReady).map fun processor =>
    { extracted with processor }

/-- `_Scheduler_simple_Unblock`. -/
def System.unblock (system : System T) (thread : T) : System T :=
  let priority := (system.processor.thread thread).waitPriority
  let inserted := system.insert thread (priorityAppend priority)
  { inserted with processor := system.processor.unblock thread priority }

/-- `_Scheduler_simple_Update_priority`. -/
def System.updatePriority (system : System T) (thread : T) : Option (System T) :=
  if (system.processor.thread thread).isReady then
    let newPriority := (system.processor.thread thread).priority
    let inserted := (system.extract thread).insert thread newPriority
    (system.processor.schedule inserted.getHighestReady).map fun processor =>
      { inserted with processor }
  else some system

/-- `_Scheduler_simple_Yield`. -/
def System.yield (system : System T) (thread : T) : Option (System T) :=
  let insertPriority := priorityAppend (system.processor.thread thread).waitPriority
  let inserted := (system.extract thread).insert thread insertPriority
  (system.processor.yield inserted.getHighestReady).map fun processor =>
    { inserted with processor }

/-- One operation, with the change of the thread that it is about. -/
def System.step (system : System T) : Operation T → Option (System T)
  | .block thread =>
      { system with processor := system.processor.setReady thread false }.block thread
  | .unblock thread =>
      some ({ system with processor := system.processor.setReady thread true }.unblock thread)
  | .updatePriority thread priority order =>
      { system with
        processor := system.processor.setPriority thread priority order }.updatePriority thread
  | .yield thread => system.yield thread

/-- The ready chains of the deterministic scheduler by increasing priority. -/
def concatenation (ready : Nat → List T) : List T :=
  join 256 ready

/-- The two schedulers have the same threads and heir and the same ready threads in the
same order. -/
structure Agree (deterministic : Priority.System T) (simple : System T) : Prop where
  stored : Priority.Stored deterministic
  processor : simple.processor = deterministic.processor
  order : simple.ready = concatenation deterministic.queues.ready

/-- The operation may be requested, and an update changes the priority of the thread. -/
def Changing (processor : Processor T) (operation : Operation T) : Prop :=
  processor.Admits operation ∧
    match operation with
    | .updatePriority thread priority _ =>
        priority ≠ priorityUnmap (processor.thread thread).priority
    | _ => True

instance (processor : Processor T) (operation : Operation T) :
    Decidable (Changing processor operation) :=
  match operation with
  | .block _ => inferInstanceAs (Decidable (_ ∧ True))
  | .unblock _ => inferInstanceAs (Decidable (_ ∧ True))
  | .updatePriority .. => inferInstanceAs (Decidable (_ ∧ _ ≠ _))
  | .yield _ => inferInstanceAs (Decidable (_ ∧ True))

omit [DecidableEq T] in
/-- The first ready thread of the deterministic scheduler is the head of the
concatenation. -/
theorem first_eq_head {queues : ReadyQueues T} {level : T → Nat} (filed : Filed queues level) :
    queues.first = (concatenation queues.ready).head? := by
  by_cases occupied : ∃ prio, queues.ready prio ≠ []
  · obtain ⟨node, found, prio, empty, head⟩ := filed.first occupied
    have bound : prio < 256 := filed.range prio (by
      intro none
      simp [none] at head)
    rw [found]
    exact (join_head 256 queues.ready prio bound empty node head).symm
  · have empty : ∀ prio, queues.ready prio = [] := by
      intro prio
      by_contra filled
      exact occupied ⟨prio, filled⟩
    have none : concatenation queues.ready = [] := by
      rw [List.eq_nil_iff_forall_not_mem]
      intro node mem
      obtain ⟨prio, -, inside⟩ := (mem_join 256 queues.ready node).mp mem
      simp [empty prio] at inside
    rw [none, ReadyQueues.first, empty]

omit [DecidableEq T] in
/-- An ordered insertion into the concatenation puts the thread at the end of its group
that the lowest bit of the insert priority asks for. -/
theorem insert_place (ready : Nat → List T) (wait : T → Nat) (thread : T) (prio : Nat)
    (order : GroupOrder) (bound : prio < 256)
    (levels : ∀ index, ∀ other ∈ ready index, wait other = 2 * index) :
    insertOrdered (fun next => 2 * prio + order.bit ≤ wait next) thread (concatenation ready) =
      concatenation (update ready prio (order.place thread (ready prio))) := by
  have before : ∀ other ∈ join prio ready, wait other < 2 * prio := by
    intro other mem
    obtain ⟨index, less, inside⟩ := (mem_join prio ready other).mp mem
    have value := levels index other inside
    omega
  have after : ∀ other ∈ behind prio 256 ready, 2 * prio + 1 < wait other := by
    intro other mem
    obtain ⟨index, greater, -, inside⟩ := (mem_behind prio 256 ready other).mp mem
    have value := levels index other inside
    omega
  have group : ∀ other ∈ ready prio, wait other = 2 * prio := levels prio
  unfold concatenation
  rw [join_update prio 256 bound, join_cut prio 256 bound]
  cases order with
  | first =>
    rw [insertOrdered_append]
    · rfl
    · intro other mem
      have value := before other mem
      apply decide_eq_false
      simp only [GroupOrder.bit]
      omega
    · intro other head
      have mem := List.mem_of_mem_head? head
      apply decide_eq_true
      simp only [GroupOrder.bit]
      rcases List.mem_append.mp mem with inside | inside
      · have value := group other inside
        omega
      · have value := after other inside
        omega
  | last =>
    rw [← List.append_assoc, insertOrdered_append]
    · simp [GroupOrder.place]
    · intro other mem
      apply decide_eq_false
      simp only [GroupOrder.bit]
      rcases List.mem_append.mp mem with inside | inside
      · have value := before other inside
        omega
      · have value := group other inside
        omega
    · intro other head
      have value := after other (List.mem_of_mem_head? head)
      apply decide_eq_true
      simp only [GroupOrder.bit]
      omega

theorem priorityAppend_eq (prio : Nat) :
    priorityAppend (2 * prio) = 2 * prio + GroupOrder.last.bit := by
  have joined := mapped_or_bit prio .last
  rwa [priorityMap_eq] at joined

namespace Agree

variable {fixed : Priority.System T} {simple : System T}

omit [DecidableEq T] in
/-- The wait priority of a thread on a chain is that of the chain. -/
theorem wait_level (stored : Priority.Stored fixed) (prio : Nat) (thread : T)
    (mem : thread ∈ fixed.queues.ready prio) :
    (fixed.processor.thread thread).waitPriority = 2 * prio := by
  have level := stored.filed.placed prio thread mem
  have ready := (stored.listed thread).mpr (level ▸ mem)
  rw [(stored.mapped thread).1, ← stored.current thread ready, level]

/-- The operation of the simple scheduler: the rules for the heir are applied to the new
chain, which is again the concatenation. -/
theorem step (agree : Agree fixed simple) (op : Operation T)
    (changing : Changing fixed.processor op) (after : Nat → List T)
    (placement : Priority.Placement fixed after op) :
    simple.step op = ((fixed.processor.prepare op).elect (concatenation after).head?
        (fixed.Moves op) op).map
        fun cpu => ⟨cpu, concatenation after⟩ := by
  obtain ⟨admitted, changed⟩ := changing
  have stored := agree.stored
  have placed := stored.filed.placed
  obtain ⟨cpu, ready⟩ := simple
  obtain rfl : cpu = fixed.processor := agree.processor
  obtain rfl : ready = concatenation fixed.queues.ready := agree.order
  have erased : ∀ thread, (fixed.processor.thread thread).isReady = true →
      (concatenation fixed.queues.ready).erase thread = concatenation
        (update fixed.queues.ready (fixed.level thread)
          ((fixed.queues.ready (fixed.level thread)).erase thread)) := by
    intro thread isReady
    have mem := (stored.listed thread).mp isReady
    have bound := stored.filed.range _ (List.ne_nil_of_mem mem)
    exact (join_erase _ 256 bound _ thread fun other inside => (placed other thread inside).symm).symm
  have rest : ∀ thread, (fixed.processor.thread thread).isReady = true →
      ∀ index, ∀ other ∈ update fixed.queues.ready (fixed.level thread)
        ((fixed.queues.ready (fixed.level thread)).erase thread) index,
        other ≠ thread ∧ (fixed.processor.thread other).waitPriority = 2 * index := by
    intro thread isReady index other inside
    rw [← stored.filed.chainExtract_eq thread] at inside
    refine ⟨?_, wait_level stored index other (List.mem_of_mem_erase inside)⟩
    rintro rfl
    exact (stored.filed.nodup index).not_mem_erase inside
  cases op with
  | block thread =>
    have chains : after = _ := placement
    subst chains
    simp only [System.step, System.block, System.extract, erased thread admitted]
    rfl
  | unblock thread =>
    have chains : after = _ := placement
    subst chains
    have mapped := stored.mapped thread
    have inserted := insert_place fixed.queues.ready
      (fun next => (fixed.processor.thread next).waitPriority) thread
      (priorityUnmap (fixed.processor.thread thread).priority) .last mapped.2
      (wait_level stored)
    simp only [System.step, System.unblock, System.insert, Processor.setReady_waitPriority,
      mapped.1, priorityAppend_eq]
    rw [inserted]
    simp only [Processor.elect, Processor.prepare, Processor.setReady_waitPriority, mapped.1]
    rfl
  | updatePriority thread prio order =>
    have isReady : ((fixed.processor.setPriority thread prio order).thread
        thread).isReady = (fixed.processor.thread thread).isReady := by
      simp [Processor.setPriority]
    by_cases ready : (fixed.processor.thread thread).isReady = true
    · have different : prio ≠ fixed.level thread := by
        rw [stored.current thread ready]
        exact changed
      have moved : fixed.Moves (.updatePriority thread prio order) := ⟨ready, different⟩
      simp only [Priority.Placement, if_pos (And.intro ready different)] at placement
      subst placement
      have newPriority : ((fixed.processor.setPriority thread prio order).thread
          thread).priority = 2 * prio + order.bit := by
        simp [Processor.setPriority, mapped_or_bit]
      have inserted := insert_place (update fixed.queues.ready (fixed.level thread)
          ((fixed.queues.ready (fixed.level thread)).erase thread))
        (fun next => ((fixed.processor.setPriority thread prio order).thread
          next).waitPriority) thread prio order admitted (by
          intro index other inside
          obtain ⟨apart, wait⟩ := rest thread ready index other inside
          simpa [Processor.setPriority, apart] using wait)
      rw [Function.update_of_ne different] at inserted
      simp only [System.step, System.updatePriority, System.extract, System.insert,
        System.getHighestReady, isReady, ready, newPriority, erased thread ready]
      rw [inserted]
      simp only [Processor.elect, moved, if_true, Processor.prepare]
    · have unmoved : ¬ fixed.Moves (.updatePriority thread prio order) := fun moved => ready moved.1
      have still : ¬ ((fixed.processor.thread thread).isReady = true ∧
        prio ≠ fixed.level thread) := fun moved => ready moved.1
      simp only [Priority.Placement, if_neg still] at placement
      subst placement
      simp only [System.step, System.updatePriority, isReady, ready, if_false, Processor.elect,
        unmoved, Processor.prepare, Option.map_some, Bool.false_eq_true]
  | yield thread =>
    have chains : after = _ := placement
    subst chains
    have mem := (stored.listed thread).mp admitted
    have bound := stored.filed.range _ (List.ne_nil_of_mem mem)
    have wait := wait_level stored _ thread mem
    have inserted := insert_place (update fixed.queues.ready (fixed.level thread)
        ((fixed.queues.ready (fixed.level thread)).erase thread))
      (fun next => (fixed.processor.thread next).waitPriority) thread
      (fixed.level thread) .last bound
      (fun index other inside => (rest thread admitted index other inside).2)
    rw [Function.update_self, Function.update_idem] at inserted
    simp only [System.step, System.yield, System.extract, System.insert, erased thread admitted,
      wait, priorityAppend_eq]
    rw [inserted]
    rfl

/-- One operation: both schedulers accept it and agree again, or both are left without a
ready thread. -/
theorem simulate (agree : Agree fixed simple) (op : Operation T)
    (changing : Changing fixed.processor op) :
    (fixed.step op = none ∧ simple.step op = none) ∨
      ∃ deterministic' simple', fixed.step op = some deterministic' ∧
        simple.step op = some simple' ∧ Agree deterministic' simple' := by
  obtain ⟨queues, node, stepped, placement, stored⟩ := agree.stored.outcome op changing.1
  have simpleStep := agree.step op changing queues.ready placement
  rw [← first_eq_head (stored fixed.processor.heir).filed] at simpleStep
  cases elected : (fixed.processor.prepare op).elect queues.first (fixed.Moves op) op with
  | none =>
    rw [elected] at stepped simpleStep
    exact .inl ⟨stepped, simpleStep⟩
  | some cpu =>
    rw [elected] at stepped simpleStep
    refine .inr ⟨_, _, stepped, simpleStep, ?_, rfl, rfl⟩
    have same : cpu = ⟨(fixed.processor.prepare op).thread, cpu.heir⟩ := by
      rw [← Processor.elect_thread elected]
    rw [same]
    exact stored cpu.heir

end Agree

/-- The two schedulers accept the same operations, and after each of them they have the
same heir and the same ready threads in the same order. -/
theorem schedulers_agree (deterministic : Priority.System T) (simple : System T)
    (agree : Agree deterministic simple) (operations : List (Operation T)) (allowed : Allowed (fun
      (system : Priority.System T) operation => Changing system.processor operation)
      Priority.System.step deterministic operations) :
    ((feed Priority.System.step deterministic operations).isSome ↔
        (feed System.step simple operations).isSome) ∧ ∀ deterministic' simple',
        feed Priority.System.step deterministic operations = some deterministic' →
        feed System.step simple operations = some simple' →
        deterministic'.processor.heir = simple'.processor.heir ∧
          concatenation deterministic'.queues.ready = simple'.ready := by
  induction operations generalizing deterministic simple with
  | nil =>
    refine ⟨by simp [feed], ?_⟩
    intro deterministic' simple' first second
    cases first
    cases second
    exact ⟨by rw [agree.processor], agree.order.symm⟩
  | cons operation rest ih =>
    obtain ⟨changing, later⟩ := allowed
    obtain ⟨first, second⟩ | ⟨deterministic', simple', first, second, again⟩ :=
      agree.simulate operation changing
    · simp [feed, first, second]
    · rw [first] at later
      simp only [feed, first, second]
      exact ih deterministic' simple' again later

/-- The simple scheduler with the idle thread of the other one. -/
theorem booted_agree : Agree Priority.booted ⟨Priority.booted.processor, [0]⟩ := by
  refine ⟨Priority.booted_initial.sound.stored, rfl, ?_⟩
  have bound : 255 < 256 := by decide
  have update := join_update 255 256 bound (fun _ => ([] : List Nat)) [0]
  have first : join 255 (fun _ => ([] : List Nat)) = [] := by simp [join]
  have last : behind 255 256 (fun _ => ([] : List Nat)) = [] := by simp [behind]
  rw [first, last] at update
  exact update.symm

/-- The same session of both schedulers, with a change of priority to either end of a
group. -/
theorem schedulers_agree_rotation :
    ∃ deterministic simple,
      feed Priority.System.step Priority.booted Priority.rotation = some deterministic ∧
      feed System.step ⟨Priority.booted.processor, [0]⟩ Priority.rotation = some simple ∧
      deterministic.processor.heir = simple.processor.heir ∧
      concatenation deterministic.queues.ready = simple.ready ∧ simple.ready = [2, 1, 0] := by
  obtain ⟨accepted, same⟩ := schedulers_agree Priority.booted ⟨Priority.booted.processor, [0]⟩
    booted_agree Priority.rotation (by decide +kernel)
  have ended : (feed System.step ⟨Priority.booted.processor, [0]⟩ Priority.rotation).map
      (fun simple => simple.ready) = some [2, 1, 0] := by decide +kernel
  obtain ⟨simple, fed, ready⟩ := Option.map_eq_some_iff.mp ended
  obtain ⟨deterministic, reached⟩ := Option.isSome_iff_exists.mp (accepted.mpr (by rw [fed]; rfl))
  obtain ⟨heir, order⟩ := same deterministic simple reached fed
  exact ⟨deterministic, simple, reached, fed, heir, order, ready⟩

end Rtems.Scheduler.Simple
