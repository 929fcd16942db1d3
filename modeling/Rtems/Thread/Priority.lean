import Rtems.Library.KeyedChain

/-!
# Priority aggregations

The priority of a thread is the minimum of an aggregation of priority nodes. An action
adds, removes or changes a node of the aggregation; if this changes the minimum, then the
scheduler node of the thread gets the new priority and a change of the aggregation itself
is pending. The scheduler keeps a ready thread under a priority that it takes from the
scheduler node only if it is told to.
-/

namespace Rtems.Priority

open KeyedChain (Sorted keys mem_insert mem_remove insert_ne_nil)
open Function (update_of_ne update_self)

universe u v w
variable {N : Type u} {P : Type v} {T : Type w}

/-- `Priority_Aggregation`: the contributors with their priorities and the priority of the
aggregation itself. -/
structure Aggregation (N : Type u) (P : Type v) where
  contributors : List (N × P)
  priority : P

/-- `Priority_Action_type` with the node of the action and its priority. -/
inductive Action (N : Type u) (P : Type v) where
  | add (node : N) (priority : P)
  | remove (node : N) (priority : P)
  | change (node : N) (priority : P)

namespace Aggregation

variable [LinearOrder P] [DecidableEq N]

/-- `_Priority_Initialize_one`. -/
def initializeOne (node : N) (priority : P) : Aggregation N P :=
  ⟨[(node, priority)], priority⟩

/-- `_Priority_Non_empty_insert`, with whether the minimum is a new one. -/
def nonEmptyInsert (aggregation : Aggregation N P) (node : N) (priority : P) :
    Aggregation N P × Bool :=
  let contributors := KeyedChain.insert node priority aggregation.contributors
  if aggregation.contributors.all fun other => decide (priority < other.2) then
    (⟨contributors, priority⟩, true)
  else (⟨contributors, aggregation.priority⟩, false)

/-- `_Priority_Extract_non_empty`, with whether the minimum changed. -/
def extractNonEmpty (aggregation : Aggregation N P) (node : N) (priority : P) :
    Aggregation N P × Bool :=
  let contributors := KeyedChain.remove node aggregation.contributors
  match contributors.head? with
  | none => (⟨contributors, aggregation.priority⟩, false)
  | some minimum =>
      if priority < minimum.2 then (⟨contributors, minimum.2⟩, true)
      else (⟨contributors, aggregation.priority⟩, false)

/-- `_Priority_Changed`, with whether the minimum changed. -/
def changed (aggregation : Aggregation N P) (node : N) (priority : P) : Aggregation N P × Bool :=
  let contributors :=
    KeyedChain.insert node priority (KeyedChain.remove node aggregation.contributors)
  match contributors.head? with
  | none => (⟨contributors, aggregation.priority⟩, false)
  | some minimum =>
      if minimum.2 ≠ aggregation.priority then (⟨contributors, minimum.2⟩, true)
      else (⟨contributors, aggregation.priority⟩, false)

/-- `_Priority_Extract`, with the action on the aggregation that has this one as a node. -/
def extract {L : Type*} (aggregation : Aggregation N P) (node : N) (priority : P) (outer : L) :
    Aggregation N P × Option (Action L P) :=
  let result := aggregation.extractNonEmpty node priority
  (result.1,
    if result.1.contributors.isEmpty then some (.remove outer result.1.priority)
    else if result.2 then some (.change outer result.1.priority)
    else none)

/-- The switch of `_Thread_Priority_do_perform_actions`. -/
def perform (aggregation : Aggregation N P) : Action N P → Aggregation N P × Bool
  | .add node priority => aggregation.nonEmptyInsert node priority
  | .remove node priority => aggregation.extractNonEmpty node priority
  | .change node priority => aggregation.changed node priority

/-- The priority of the aggregation is the first one of its ordered contributors. -/
structure Sound (aggregation : Aggregation N P) : Prop where
  sorted : Sorted aggregation.contributors
  least : IsLeast (keys aggregation.contributors) aggregation.priority

omit [DecidableEq N] in
theorem initializeOne_sound (node : N) (prio : P) : Sound (initializeOne node prio) := by
  refine ⟨List.pairwise_singleton .., ?_⟩
  have only : keys [(node, prio)] = {prio} := by
    ext key
    simp [keys]
  simp only [initializeOne, only, isLeast_singleton]

omit [DecidableEq N] in
/-- The first contributor has the priority of the aggregation. -/
theorem Sound.head {aggregation : Aggregation N P} (sound : Sound aggregation) :
    ∃ first, aggregation.contributors.head? = some first ∧ first.2 = aggregation.priority := by
  obtain ⟨node, mem⟩ := sound.least.1
  cases found : aggregation.contributors.head? with
  | none =>
    rw [List.head?_eq_none_iff] at found
    rw [found] at mem
    cases mem
  | some first => exact ⟨first, rfl, (sound.sorted.least found).unique sound.least⟩

end Aggregation

/-- The contributors after an action. -/
def Action.apply [LinearOrder P] [DecidableEq N] (contributors : List (N × P)) :
    Action N P → List (N × P)
  | .add node priority => KeyedChain.insert node priority contributors
  | .remove node _ => KeyedChain.remove node contributors
  | .change node priority => KeyedChain.insert node priority (KeyedChain.remove node contributors)

section Membership

variable [LinearOrder P] [DecidableEq N] (contributors : List (N × P)) (node : N) (prio : P)
  (tested : N × P)

@[simp]
theorem Action.mem_add : tested ∈ (Action.add node prio).apply contributors ↔
    tested = (node, prio) ∨ tested ∈ contributors :=
  mem_insert node prio contributors tested

@[simp]
theorem Action.mem_remove : tested ∈ (Action.remove node prio).apply contributors ↔
    tested ∈ contributors ∧ tested.1 ≠ node :=
  KeyedChain.mem_remove node contributors tested

@[simp]
theorem Action.mem_change : tested ∈ (Action.change node prio).apply contributors ↔
    tested = (node, prio) ∨ tested ∈ contributors ∧ tested.1 ≠ node := by
  rw [Action.apply, mem_insert, KeyedChain.mem_remove]

end Membership

/-- A node is removed with its own priority, and it is not the last one. -/
def Action.Valid (contributors : List (N × P)) : Action N P → Prop
  | .add _ _ => True
  | .remove node priority => (∀ key, (node, key) ∈ contributors ↔ key = priority) ∧
      ∃ other ∈ contributors, other.1 ≠ node
  | .change _ _ => True

namespace Aggregation.Sound

variable [LinearOrder P] [DecidableEq N] {aggregation : Aggregation N P}

/-- What every action does: it changes the contributors, the priority stays the least one,
and it is reported whether it is another one. -/
theorem perform (sound : Sound aggregation) (action : Action N P)
    (valid : action.Valid aggregation.contributors) :
    Sound (aggregation.perform action).1 ∧
    (aggregation.perform action).1.contributors = action.apply aggregation.contributors ∧
    ((aggregation.perform action).2 = true ↔
      (aggregation.perform action).1.priority ≠ aggregation.priority) := by
  cases action with
  | add node prio =>
    have sorted := sound.sorted.insert node prio
    have below : aggregation.contributors.all (fun other => decide (prio < other.2)) = true ↔
        prio < aggregation.priority := by
      rw [List.all_eq_true]
      constructor
      · intro all
        obtain ⟨other, mem⟩ := sound.least.1
        simpa using all (other, aggregation.priority) mem
      · rintro less ⟨other, key⟩ mem
        simpa using less.trans_le (sound.least.2 ⟨other, mem⟩)
    simp only [Aggregation.perform, nonEmptyInsert]
    split
    case isTrue less =>
      rw [below] at less
      refine ⟨⟨sorted, ⟨node, by simp⟩, ?_⟩, rfl, by simpa using less.ne⟩
      rintro key ⟨other, mem⟩
      rcases (mem_insert ..).mp mem with same | mem
      · exact (Prod.mk.inj same).2.ge
      · exact less.le.trans (sound.least.2 ⟨other, mem⟩)
    case isFalse greater =>
      rw [below, not_lt] at greater
      obtain ⟨least, mem⟩ := sound.least.1
      refine ⟨⟨sorted, ⟨least, by simp [mem]⟩, ?_⟩, rfl, by simp⟩
      rintro key ⟨other, mem⟩
      rcases (mem_insert ..).mp mem with same | mem
      · rwa [(Prod.mk.inj same).2]
      · exact sound.least.2 ⟨other, mem⟩
  | remove node prio =>
    obtain ⟨own, other, mem, ne⟩ := valid
    have sorted := sound.sorted.remove node
    simp only [Aggregation.perform, extractNonEmpty]
    cases head : (KeyedChain.remove node aggregation.contributors).head? with
    | none =>
      rw [List.head?_eq_none_iff] at head
      have inside := (mem_remove node aggregation.contributors other).mpr ⟨mem, ne⟩
      rw [head] at inside
      cases inside
    | some minimum =>
      have least := sorted.least head
      obtain ⟨holder, held⟩ := least.1
      have lower : aggregation.priority ≤ minimum.2 :=
        sound.least.2 ⟨holder, ((mem_remove ..).mp held).1⟩
      -- The old minimum is still there unless it was the one of the removed node.
      have upper : aggregation.priority = prio ∨ minimum.2 ≤ aggregation.priority := by
        obtain ⟨first, present⟩ := sound.least.1
        by_cases same : first = node
        · subst same
          exact .inl ((own _).mp present)
        · exact .inr (least.2 ⟨first, (mem_remove ..).mpr ⟨present, same⟩⟩)
      simp only
      split
      case isTrue less =>
        have bound : aggregation.priority ≤ prio := sound.least.2 ⟨node, (own prio).mpr rfl⟩
        exact ⟨⟨sorted, least⟩, rfl, by simpa using (bound.trans_lt less).ne'⟩
      case isFalse greater =>
        have same : minimum.2 = aggregation.priority := by
          rcases upper with equal | upper
          · exact le_antisymm (equal ▸ not_lt.mp greater) lower
          · exact le_antisymm upper lower
        exact ⟨⟨sorted, same ▸ least⟩, rfl, by simp⟩
  | change node prio =>
    have sorted := (sound.sorted.remove node).insert node prio
    simp only [Aggregation.perform, changed]
    cases head : (KeyedChain.insert node prio
        (KeyedChain.remove node aggregation.contributors)).head? with
    | none =>
      rw [List.head?_eq_none_iff] at head
      exact absurd head (insert_ne_nil _ _ _)
    | some minimum =>
      have least := sorted.least head
      simp only
      split
      case isTrue ne => exact ⟨⟨sorted, least⟩, rfl, by simpa using ne⟩
      case isFalse same =>
        rw [not_not] at same
        exact ⟨⟨sorted, same ▸ least⟩, rfl, by simp⟩

end Aggregation.Sound

/-- What the scheduler and the aggregations say of the threads: the aggregation and the
priority of the scheduler node, whether the thread is ready, and the priority under which
the scheduler keeps it in its ready queues then. -/
structure Threads (T : Type w) (N : Type u) (P : Type v) where
  aggregation : T → Aggregation N P
  value : T → P
  ready : T → Bool
  kept : T → P

/-- `_Thread_queue_Context_add_priority_update`: the set has two entries. -/
def addPriorityUpdate (updates : List T) (thread : T) : Option (List T) :=
  if updates.length < 2 then some (updates ++ [thread]) else none

namespace Threads

variable [DecidableEq T]

/-- The effective priority of a thread. -/
def effective (threads : Threads T N P) (thread : T) : P :=
  (threads.aggregation thread).priority

/-- An action on the aggregation of a thread; a new minimum is the new priority of the
scheduler node (`_Thread_Priority_action_change`). -/
def perform [LinearOrder P] [DecidableEq N] (threads : Threads T N P) (thread : T)
    (action : Action N P) : Threads T N P × Bool :=
  let result := (threads.aggregation thread).perform action
  ({ threads with
    aggregation := Function.update threads.aggregation thread result.1
    value := if result.2 then Function.update threads.value thread result.1.priority
      else threads.value }, result.2)

/-- `_Scheduler_Update_priority` of the uniprocessor schedulers. -/
def updatePriority (threads : Threads T N P) (thread : T) : Threads T N P :=
  if threads.ready thread then
    { threads with kept := Function.update threads.kept thread (threads.value thread) }
  else threads

/-- `_Thread_Priority_update`. -/
def update (threads : Threads T N P) (updates : List T) : Threads T N P :=
  updates.foldl updatePriority threads

/-- `_Scheduler_Block`. -/
def block (threads : Threads T N P) (thread : T) : Threads T N P :=
  { threads with ready := Function.update threads.ready thread false }

/-- `_Scheduler_Unblock`. -/
def unblock (threads : Threads T N P) (thread : T) : Threads T N P :=
  { threads with
    ready := Function.update threads.ready thread true
    kept := Function.update threads.kept thread (threads.value thread) }

/-- The effective priorities are the minima of the aggregations and known to the scheduler
nodes. -/
structure Sound [LinearOrder P] (threads : Threads T N P) : Prop where
  aggregation : ∀ thread, (threads.aggregation thread).Sound
  value : ∀ thread, threads.value thread = threads.effective thread

/-- What an action on a thread does. -/
structure Performed [LinearOrder P] [DecidableEq N] (threads : Threads T N P) (thread : T)
    (action : Action N P) (after : Threads T N P) (changed : Bool) : Prop where
  sound : after.Sound
  contributors : (after.aggregation thread).contributors =
    action.apply (threads.aggregation thread).contributors
  others : ∀ other, other ≠ thread → after.aggregation other = threads.aggregation other
  changed : changed = true ↔ after.effective thread ≠ threads.effective thread
  ready : after.ready = threads.ready
  kept : after.kept = threads.kept

variable {threads after : Threads T N P} {thread : T} {action : Action N P}

omit [DecidableEq T] in
/-- The contributors of the threads after an action on one of them. -/
theorem Performed.mem_iff [LinearOrder P] [DecidableEq N] {changed : Bool}
    (performed : Performed threads thread action after changed) (tested : T) (node : N × P) :
    node ∈ (after.aggregation tested).contributors ↔
      (tested = thread ∧ node ∈ action.apply (threads.aggregation thread).contributors) ∨
      (tested ≠ thread ∧ node ∈ (threads.aggregation tested).contributors) := by
  by_cases same : tested = thread
  · subst same
    simp [performed.contributors]
  · simp [same, performed.others tested same]

/-- An action keeps the threads sound and reports a change of the effective priority. -/
theorem Sound.perform [LinearOrder P] [DecidableEq N] (sound : threads.Sound) (thread : T)
    (action : Action N P) (valid : action.Valid (threads.aggregation thread).contributors) :
    Performed threads thread action (threads.perform thread action).1
      (threads.perform thread action).2 := by
  obtain ⟨kept, contributors, changed⟩ := (sound.aggregation thread).perform action valid
  have others : ∀ other, other ≠ thread →
      (threads.perform thread action).1.aggregation other = threads.aggregation other :=
    fun other ne => update_of_ne ne ..
  have own : (threads.perform thread action).1.aggregation thread =
      ((threads.aggregation thread).perform action).1 := update_self ..
  refine ⟨⟨?_, ?_⟩, ?_, others, ?_, rfl, rfl⟩
  · intro tested
    by_cases same : tested = thread
    · rw [same, own]
      exact kept
    · rw [others tested same]
      exact sound.aggregation tested
  · intro tested
    show (if ((threads.aggregation thread).perform action).2 then
      Function.update threads.value thread _ else threads.value) tested = _
    by_cases same : tested = thread
    · subst same
      rw [effective, own]
      split
      case isTrue ne => exact update_self ..
      case isFalse equal =>
        rw [changed, not_not] at equal
        rw [equal]
        exact sound.value tested
    · rw [effective, others tested same]
      split
      · rw [update_of_ne same]
        exact sound.value tested
      · exact sound.value tested
  · rw [own, contributors]
  · rw [effective, own]
    exact changed

/-- `_Thread_Priority_update` changes nothing but the priorities under which the threads of
the set are kept. -/
theorem update_eq (threads : Threads T N P) (updates : List T) :
    threads.update updates = { threads with
      kept := fun thread => if thread ∈ updates ∧ threads.ready thread = true
        then threads.value thread else threads.kept thread } := by
  induction updates generalizing threads with
  | nil => simp [update]
  | cons first rest ih =>
    have fold : threads.update (first :: rest) = (threads.updatePriority first).update rest := rfl
    rw [fold, ih]
    unfold updatePriority
    split
    case isTrue ready =>
      congr 1
      funext thread
      by_cases same : thread = first
      · simp [same, ready]
      · simp [same]
    case isFalse blocked =>
      congr 1
      funext thread
      by_cases same : thread = first
      · simp [same, blocked]
      · simp [same]

/-- Several threads are unblocked. -/
theorem unblock_eq (threads : Threads T N P) (list : List T) :
    list.foldl unblock threads = { threads with
      ready := fun thread => if thread ∈ list then true else threads.ready thread
      kept := fun thread => if thread ∈ list then threads.value thread
        else threads.kept thread } := by
  induction list generalizing threads with
  | nil => simp
  | cons first rest ih =>
    rw [List.foldl_cons, ih]
    unfold unblock
    congr 1
    iterate 2
      · funext thread
        by_cases same : thread = first
        · simp [same]
        · simp [same]

/-- The ready threads that are not in a set are kept under their effective priority. -/
def Kept (threads : Threads T N P) (updates : List T) : Prop :=
  ∀ thread, threads.ready thread = true → thread ∉ updates →
    threads.kept thread = threads.effective thread

variable {updates : List T}

/-- A thread whose effective priority changes is to be added to the set. -/
theorem Performed.kept_unchanged [LinearOrder P] [DecidableEq N] (kept : threads.Kept updates)
    (performed : Performed threads thread action after false) : after.Kept updates := by
  intro tested ready outside
  rw [performed.ready] at ready
  rw [performed.kept, kept tested ready outside]
  by_cases same : tested = thread
  · subst same
    by_contra ne
    exact absurd (performed.changed.mpr (Ne.symm ne)) (by simp)
  · rw [effective, effective, performed.others tested same]

omit [DecidableEq T] in
/-- A thread of the set may have any priority. -/
theorem Performed.kept_changed [LinearOrder P] [DecidableEq N] {changed : Bool}
    (kept : threads.Kept updates) (performed : Performed threads thread action after changed) :
    after.Kept (updates ++ [thread]) := by
  intro tested ready outside
  simp only [List.mem_append, List.mem_singleton, not_or] at outside
  rw [performed.ready] at ready
  rw [performed.kept, kept tested ready outside.1, effective, effective,
    performed.others tested outside.2]

/-- After the update of a set no thread is left. -/
theorem Kept.update [LinearOrder P]
    (kept : threads.Kept updates) (sound : threads.Sound) : (threads.update updates).Kept [] := by
  intro thread ready _
  rw [update_eq] at ready ⊢
  show (if thread ∈ updates ∧ threads.ready thread = true then threads.value thread
    else threads.kept thread) = threads.effective thread
  split
  case isTrue => exact sound.value thread
  case isFalse outside => exact kept thread ready fun inside => outside ⟨inside, ready⟩

/-- A thread that is unblocked is kept under its effective priority. -/
theorem Kept.unblock [LinearOrder P] (kept : threads.Kept updates) (sound : threads.Sound)
    (thread : T) : (threads.unblock thread).Kept updates := by
  intro tested ready outside
  by_cases same : tested = thread
  · subst same
    exact (update_self ..).trans (sound.value tested)
  · have before : threads.ready tested = true := by
      rw [← ready]
      exact (update_of_ne same ..).symm
    exact (update_of_ne same ..).trans (kept tested before outside)

theorem Kept.block (kept : threads.Kept updates)
    (thread : T) : (threads.block thread).Kept updates := by
  intro tested ready outside
  by_cases same : tested = thread
  · subst same
    simp [Threads.block] at ready
  · refine kept tested ?_ outside
    rw [← ready]
    exact (update_of_ne same ..).symm

end Threads

end Rtems.Priority
