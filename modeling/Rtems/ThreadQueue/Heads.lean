import Mathlib.Data.Fintype.Basic
import Rtems.Library.Transition

/-!
# The heads of the thread queues

Each thread comes with one spare heads object. The first thread on a queue lends its
object to the queue, and every later thread hangs its object into the free chain of the
active one; a thread that leaves takes the first object of the free chain. So an object
wanders between threads, and the free chain is part of an object that is still in use.
The discipline of a queue decides the order of its threads only, which is immaterial
here: the threads of a queue are kept as they arrive and may leave in any order.
-/

namespace Rtems.ThreadQueue.Heads

open Transition
open Function (update update_of_ne update_self)

universe u v w
variable {T : Type u} {Q : Type v} {H : Type w} [DecidableEq T] [DecidableEq Q] [DecidableEq H]

/-- The spare heads of the threads, the active heads of the queues, the free chain of
every heads object and the threads on the queues. A free node stands for its object. -/
structure System (T : Type u) (Q : Type v) (H : Type w) where
  spareHeads : T → Option H
  heads : Q → Option H
  freeChain : H → List H
  enqueued : Q → List T

/-- An enqueue or an extract operation of a thread on a queue. -/
inductive Operation (T : Type u) (Q : Type v) where
  | enqueue (queue : Q) (thread : T)
  | extract (queue : Q) (thread : T)

/-- `_Thread_queue_Queue_enqueue`. A missing spare object and a free chain that is not
empty where the source asserts it are refused. -/
def System.enqueue (system : System T Q H) (queue : Q) (thread : T) : Option (System T Q H) :=
  match system.spareHeads thread with
  | none => none
  | some spare =>
      let taken : System T Q H :=
        { system with
          spareHeads := Function.update system.spareHeads thread none
          enqueued := Function.update system.enqueued queue (system.enqueued queue ++ [thread]) }
      match system.heads queue with
      | none =>
          if system.freeChain spare = [] then
            some { taken with
              heads := Function.update system.heads queue (some spare)
              freeChain := Function.update system.freeChain spare
                (spare :: system.freeChain spare) }
          else none
      | some heads =>
          some { taken with
            freeChain := Function.update system.freeChain heads
              (spare :: system.freeChain heads) }

/-- `_Thread_queue_Queue_extract`. Missing heads and an empty free chain are refused. -/
def System.extract (system : System T Q H) (queue : Q) (thread : T) : Option (System T Q H) :=
  match system.heads queue with
  | none => none
  | some heads =>
      match system.freeChain heads with
      | [] => none
      | first :: rest =>
          some
            { spareHeads := Function.update system.spareHeads thread (some first)
              freeChain := Function.update system.freeChain heads rest
              heads := if rest = [] then Function.update system.heads queue none else system.heads
              enqueued :=
                Function.update system.enqueued queue ((system.enqueued queue).erase thread) }

/-- One operation. -/
def System.step (system : System T Q H) : Operation T Q → Option (System T Q H)
  | .enqueue queue thread => system.enqueue queue thread
  | .extract queue thread => system.extract queue thread

/-- A thread is enqueued on one queue at a time and extracted from the queue it is on. -/
def Permitted (system : System T Q H) : Operation T Q → Prop
  | .enqueue _ thread => ∀ queue, thread ∉ system.enqueued queue
  | .extract queue thread => thread ∈ system.enqueued queue

instance [Fintype Q] (system : System T Q H) (operation : Operation T Q) :
    Decidable (Permitted system operation) :=
  match operation with
  | .enqueue _ thread => inferInstanceAs (Decidable (∀ queue, thread ∉ system.enqueued queue))
  | .extract queue thread => inferInstanceAs (Decidable (thread ∈ system.enqueued queue))

/-- Every thread has its own spare object with an empty free chain, and no thread is
enqueued. -/
structure Initial (object : T → H) (system : System T Q H) : Prop where
  distinct : Function.Injective object
  spare : ∀ thread, system.spareHeads thread = some (object thread)
  heads : ∀ queue, system.heads queue = none
  empty : ∀ heads, system.freeChain heads = []
  idle : ∀ queue, system.enqueued queue = []

/-- A thread or a queue. -/
inductive Owner (T : Type u) (Q : Type v) where
  | thread (thread : T)
  | queue (queue : Q)

/-- A thread owns its spare object, and a queue the objects of its free chain. -/
def System.Owns (system : System T Q H) : Owner T Q → H → Prop
  | .thread thread, heads => system.spareHeads thread = some heads
  | .queue queue, heads =>
      ∃ active, system.heads queue = some active ∧ heads ∈ system.freeChain active

/-- The heads of a queue fit the threads on it: as many objects as threads are in the free
chain, and the active object is the last one. -/
structure Fitting (freeChain : H → List H) (heads : Option H) (enqueued : List T) : Prop where
  missing : heads = none ↔ enqueued = []
  length : ∀ active, heads = some active → (freeChain active).length = enqueued.length
  last : ∀ active, heads = some active → (freeChain active).getLast? = some active
  distinct : ∀ active, heads = some active → (freeChain active).Nodup

/-- The invariant. Besides what is wanted, an object that is not active has an empty free
chain, so that it can become active. -/
structure Conserved (object : T → H) (system : System T Q H) : Prop where
  spare : ∀ thread, system.spareHeads thread = none ↔ ∃ queue, thread ∈ system.enqueued queue
  alone : ∀ thread queue other, thread ∈ system.enqueued queue → thread ∈ system.enqueued other →
    queue = other
  once : ∀ queue, (system.enqueued queue).Nodup
  heads : ∀ queue, system.heads queue = none ↔ system.enqueued queue = []
  length : ∀ queue active, system.heads queue = some active →
    (system.freeChain active).length = (system.enqueued queue).length
  last : ∀ queue active, system.heads queue = some active →
    (system.freeChain active).getLast? = some active
  distinct : ∀ queue active, system.heads queue = some active → (system.freeChain active).Nodup
  clean : ∀ heads, (∀ queue, system.heads queue ≠ some heads) → system.freeChain heads = []
  unique : ∀ one other heads, system.Owns one heads → system.Owns other heads → one = other
  owned : ∀ thread, ∃ owner, system.Owns owner (object thread)

namespace Conserved

variable {obj : T → H} {sys : System T Q H}

section

omit [DecidableEq T] [DecidableEq Q] [DecidableEq H]

/-- An active object is in its own free chain. -/
theorem active_member (kept : Conserved obj sys) (queue : Q) (active : H)
    (found : sys.heads queue = some active) : active ∈ sys.freeChain active :=
  List.mem_of_getLast? (kept.last queue active found)

/-- A spare object is active for no queue. -/
theorem spare_inactive (kept : Conserved obj sys) (thread : T) (spare : H)
    (found : sys.spareHeads thread = some spare) (queue : Q) :
    sys.heads queue ≠ some spare := by
  intro active
  have mem := kept.active_member queue spare active
  have same := kept.unique (.thread thread) (.queue queue) spare found ⟨spare, active, mem⟩
  cases same

/-- Different queues have different active objects. -/
theorem active_unique (kept : Conserved obj sys) (one other : Q) (active : H)
    (first : sys.heads one = some active) (second : sys.heads other = some active) :
    one = other := by
  have mem := kept.active_member one active first
  have same := kept.unique (.queue one) (.queue other) active ⟨active, first, mem⟩
    ⟨active, second, mem⟩
  cases same
  rfl

end

omit [DecidableEq H] in
/-- The threads on the queues after an enqueue operation. -/
theorem enqueue_threads (kept : Conserved obj sys) (queue : Q) (thread : T)
    (idle : ∀ queue, thread ∉ sys.enqueued queue) (enqueued : Q → List T)
    (value : enqueued = update sys.enqueued queue (sys.enqueued queue ++ [thread])) :
    (∀ tested, update sys.spareHeads thread none tested = none ↔ ∃ queue, tested ∈ enqueued queue) ∧
      (∀ tested one other, tested ∈ enqueued one → tested ∈ enqueued other → one = other) ∧
      ∀ queue, (enqueued queue).Nodup := by
  subst value
  have mem : ∀ tested place,
      tested ∈ update sys.enqueued queue (sys.enqueued queue ++ [thread]) place ↔
        tested ∈ sys.enqueued place ∨ tested = thread ∧ place = queue := by
    intro tested place
    by_cases same : place = queue
    · subst same
      simp
    · simp [same]
  refine ⟨?_, ?_, ?_⟩
  · intro tested
    simp only [mem]
    by_cases same : tested = thread
    · subst same
      simp
    · simp [same, kept.spare tested]
  · intro tested one other first second
    rw [mem] at first second
    rcases first with first | ⟨rfl, rfl⟩
    · rcases second with second | ⟨rfl, rfl⟩
      · exact kept.alone tested one other first second
      · exact absurd first (idle one)
    · rcases second with second | ⟨-, rfl⟩
      · exact absurd second (idle other)
      · rfl
  · intro place
    by_cases same : place = queue
    · subst same
      rw [update_self]
      exact (kept.once place).append (by simp) (by simpa using idle place)
    · rw [update_of_ne same]
      exact kept.once place

omit [DecidableEq H] in
/-- The threads on the queues after an extract operation. -/
theorem extract_threads (kept : Conserved obj sys) (queue : Q) (thread : T) (first : H)
    (inside : thread ∈ sys.enqueued queue) (enqueued : Q → List T)
    (value : enqueued = update sys.enqueued queue ((sys.enqueued queue).erase thread)) :
    (∀ tested, update sys.spareHeads thread (some first) tested = none ↔
        ∃ queue, tested ∈ enqueued queue) ∧
      (∀ tested one other, tested ∈ enqueued one → tested ∈ enqueued other → one = other) ∧
      ∀ queue, (enqueued queue).Nodup := by
  subst value
  have mem : ∀ tested place,
      tested ∈ update sys.enqueued queue ((sys.enqueued queue).erase thread) place ↔
        tested ∈ sys.enqueued place ∧ tested ≠ thread := by
    intro tested place
    by_cases same : place = queue
    · subst same
      rw [update_self, (kept.once place).mem_erase_iff, and_comm]
    · rw [update_of_ne same]
      refine ⟨fun there => ⟨there, ?_⟩, And.left⟩
      rintro rfl
      exact same (kept.alone tested place queue there inside)
  refine ⟨?_, ?_, ?_⟩
  · intro tested
    simp only [mem]
    by_cases same : tested = thread
    · subst same
      simp
    · simp [same, kept.spare tested]
  · intro tested one other first second
    rw [mem] at first second
    exact kept.alone tested one other first.1 second.1
  · intro place
    by_cases same : place = queue
    · subst same
      rw [update_self]
      exact (kept.once place).erase thread
    · rw [update_of_ne same]
      exact kept.once place

omit [DecidableEq T] [DecidableEq Q] [DecidableEq H] in
/-- If one object passes to a new owner and all others stay where they are, then every
object still has exactly one owner. -/
theorem pass (kept : Conserved obj sys) (after : System T Q H) (moved : H)
    (target : Owner T Q) (there : ∀ owner, after.Owns owner moved ↔ owner = target)
    (others : ∀ owner heads, heads ≠ moved → (after.Owns owner heads ↔ sys.Owns owner heads)) :
    (∀ one other heads, after.Owns one heads → after.Owns other heads → one = other) ∧
      ∀ thread, ∃ owner, after.Owns owner (obj thread) := by
  refine ⟨?_, ?_⟩
  · intro one other heads first second
    by_cases same : heads = moved
    · subst same
      exact ((there one).mp first).trans ((there other).mp second).symm
    · exact kept.unique one other heads ((others one heads same).mp first)
        ((others other heads same).mp second)
  · intro thread
    by_cases same : obj thread = moved
    · exact ⟨target, same ▸ (there target).mpr rfl⟩
    · obtain ⟨owner, owns⟩ := kept.owned thread
      exact ⟨owner, (others owner _ same).mpr owns⟩

omit [DecidableEq Q] [DecidableEq H] in
/-- A thread lends its object to a queue. -/
theorem lend (kept : Conserved obj sys) (after : System T Q H) (queue : Q) (thread : T)
    (spare : H) (found : sys.spareHeads thread = some spare)
    (gone : after.spareHeads = update sys.spareHeads thread none)
    (here : after.Owns (.queue queue) spare) (others : ∀ place heads, place ≠ queue ∨ heads ≠ spare
      → (after.Owns (.queue place) heads ↔ sys.Owns (.queue place) heads)) :
    (∀ one other heads, after.Owns one heads → after.Owns other heads → one = other) ∧
      ∀ thread, ∃ owner, after.Owns owner (obj thread) := by
  refine kept.pass after spare (.queue queue) ?_ ?_
  · intro owner
    cases owner with
    | thread tested =>
      simp only [System.Owns, gone, reduceCtorEq, iff_false]
      by_cases same : tested = thread
      · simp [same]
      · rw [update_of_ne same]
        intro there
        have equal := kept.unique (.thread tested) (.thread thread) spare there found
        exact same (by simpa using equal)
    | queue place =>
      rw [Owner.queue.injEq]
      refine ⟨?_, fun same => same ▸ here⟩
      intro there
      by_contra apart
      have equal := kept.unique (.queue place) (.thread thread) spare
        ((others place spare (.inl apart)).mp there) found
      cases equal
  · intro owner heads ne
    cases owner with
    | thread tested =>
      simp only [System.Owns, gone]
      by_cases same : tested = thread
      · simp [same, found, Ne.symm ne]
      · rw [update_of_ne same]
    | queue place => exact others place heads (.inr ne)

omit [DecidableEq T] [DecidableEq Q] [DecidableEq H] in
/-- Only one queue changes: the others keep their heads, their threads and their free
chains. -/
theorem rebuild (kept : Conserved obj sys) (after : System T Q H) (queue : Q) (threads :
      (∀ thread, after.spareHeads thread = none ↔ ∃ queue, thread ∈ after.enqueued queue) ∧ (∀
      thread one other, thread ∈ after.enqueued one → thread ∈ after.enqueued other → one = other) ∧
      ∀ queue, (after.enqueued queue).Nodup)
    (fitting : Fitting after.freeChain (after.heads queue) (after.enqueued queue)) (elsewhere : ∀
      place, place ≠ queue → after.heads place = sys.heads place ∧ after.enqueued place =
      sys.enqueued place ∧ ∀ active, sys.heads place = some active → after.freeChain active =
      sys.freeChain active)
    (clean : ∀ heads, (∀ queue, after.heads queue ≠ some heads) → after.freeChain heads = [])
      (owners : (∀ one other heads, after.Owns one heads → after.Owns other heads → one = other) ∧ ∀
      thread, ∃ owner, after.Owns owner (obj thread)) : Conserved obj after := by
  have fits : ∀ place, Fitting after.freeChain (after.heads place) (after.enqueued place) := by
    intro place
    by_cases same : place = queue
    · exact same ▸ fitting
    · obtain ⟨heads, enqueued, chain⟩ := elsewhere place same
      rw [heads, enqueued]
      refine ⟨kept.heads place, ?_, ?_, ?_⟩
      · intro active there
        rw [chain active there]
        exact kept.length place active there
      · intro active there
        rw [chain active there]
        exact kept.last place active there
      · intro active there
        rw [chain active there]
        exact kept.distinct place active there
  exact ⟨threads.1, threads.2.1, threads.2.2, fun place => (fits place).missing,
    fun place => (fits place).length, fun place => (fits place).last,
    fun place => (fits place).distinct, clean, owners.1, owners.2⟩

section

variable (kept : Conserved obj sys) (queue : Q) (thread : T)
include kept

/-- The first thread on a queue lends its object. -/
theorem enqueue_first (spare : H)
    (idle : ∀ queue, thread ∉ sys.enqueued queue)
    (found : sys.spareHeads thread = some spare) (none : sys.heads queue = none) :
    Conserved obj
      { spareHeads := update sys.spareHeads thread Option.none
        heads := update sys.heads queue (some spare)
        freeChain := update sys.freeChain spare [spare]
        enqueued := update sys.enqueued queue (sys.enqueued queue ++ [thread]) } := by
  have inactive := kept.spare_inactive thread spare found
  have empty := (kept.heads queue).mp none
  have threads := kept.enqueue_threads queue thread idle _ rfl
  have other : ∀ place active, sys.heads place = some active → active ≠ spare := by
    rintro place active there rfl
    exact inactive place there
  have owners := kept.lend
    { spareHeads := update sys.spareHeads thread Option.none
      heads := update sys.heads queue (some spare)
      freeChain := update sys.freeChain spare [spare]
      enqueued := update sys.enqueued queue (sys.enqueued queue ++ [thread]) }
    queue thread spare found rfl ⟨spare, by simp, by simp⟩ (by
      intro place heads apart
      simp only [System.Owns]
      by_cases same : place = queue
      · have ne := apart.resolve_left (not_not.mpr same)
        simp [same, none, ne]
      · rw [update_of_ne same]
        refine exists_congr fun active => and_congr_right fun there => ?_
        rw [update_of_ne (other place active there)])
  refine kept.rebuild _ queue threads ?_ ?_ ?_ owners
  · constructor <;> simp [empty]
  · intro place apart
    refine ⟨update_of_ne apart .., update_of_ne apart .., ?_⟩
    intro active there
    exact update_of_ne (other place active there) ..
  · intro heads idleHeads
    simp only at idleHeads ⊢
    have ne : heads ≠ spare := by
      rintro rfl
      exact idleHeads queue (by simp)
    rw [update_of_ne ne]
    apply kept.clean
    intro place there
    by_cases same : place = queue
    · simp [same, none] at there
    · exact idleHeads place (by simpa [same] using there)

/-- A later thread hangs its object into the free chain of the active one. -/
theorem enqueue_later (spare active : H) (idle : ∀ queue, thread ∉ sys.enqueued queue)
    (found : sys.spareHeads thread = some spare) (lent : sys.heads queue = some active) :
    Conserved obj
      { spareHeads := update sys.spareHeads thread Option.none
        heads := sys.heads
        freeChain := update sys.freeChain active (spare :: sys.freeChain active)
        enqueued := update sys.enqueued queue (sys.enqueued queue ++ [thread]) } := by
  have threads := kept.enqueue_threads queue thread idle _ rfl
  have fresh : spare ∉ sys.freeChain active := by
    intro mem
    have equal := kept.unique (.thread thread) (.queue queue) spare found
      ⟨active, lent, mem⟩
    cases equal
  have other : ∀ place heads, place ≠ queue → sys.heads place = some heads →
      heads ≠ active := by
    rintro place heads apart there rfl
    exact apart (kept.active_unique place queue heads there lent)
  have owners := kept.lend
    { spareHeads := update sys.spareHeads thread Option.none
      heads := sys.heads
      freeChain := update sys.freeChain active (spare :: sys.freeChain active)
      enqueued := update sys.enqueued queue (sys.enqueued queue ++ [thread]) }
    queue thread spare found rfl ⟨active, lent, by simp⟩ (by
      intro place heads apart
      simp only [System.Owns]
      by_cases same : place = queue
      · have ne := apart.resolve_left (not_not.mpr same)
        simp [same, lent, ne]
      · refine exists_congr fun holder => and_congr_right fun there => ?_
        rw [update_of_ne (other place holder same there)])
  refine kept.rebuild _ queue threads ?_ ?_ ?_ owners
  · simp only [lent]
    refine ⟨by simp, ?_, ?_, ?_⟩
    · rintro _ ⟨⟩
      simp [kept.length queue active lent]
    · rintro _ ⟨⟩
      rw [update_self, List.getLast?_cons, kept.last queue active lent]
      rfl
    · rintro _ ⟨⟩
      rw [update_self]
      exact List.nodup_cons.mpr ⟨fresh, kept.distinct queue active lent⟩
  · intro place apart
    refine ⟨rfl, update_of_ne apart .., ?_⟩
    intro heads there
    exact update_of_ne (other place heads apart there) ..
  · intro heads idleHeads
    simp only at idleHeads ⊢
    have ne : heads ≠ active := by
      rintro rfl
      exact idleHeads queue lent
    rw [update_of_ne ne]
    exact kept.clean heads idleHeads

/-- A thread that leaves takes the first object of the free chain; with the last object
the queue has no heads any more. -/
theorem extract (active first : H) (rest : List H) (inside : thread ∈ sys.enqueued queue)
    (lent : sys.heads queue = some active) (chain : sys.freeChain active = first :: rest) :
    Conserved obj
      { spareHeads := update sys.spareHeads thread (some first)
        freeChain := update sys.freeChain active rest
        heads := if rest = [] then update sys.heads queue none else sys.heads
        enqueued := update sys.enqueued queue ((sys.enqueued queue).erase thread) } := by
  have away : sys.spareHeads thread = none := (kept.spare thread).mpr ⟨queue, inside⟩
  have length := kept.length queue active lent
  have last := kept.last queue active lent
  have distinct := kept.distinct queue active lent
  rw [chain] at length last distinct
  obtain ⟨fresh, restDistinct⟩ := List.nodup_cons.mp distinct
  have left : ((sys.enqueued queue).erase thread).length = rest.length := by
    rw [List.length_erase_of_mem inside, ← length]
    rfl
  have threads := kept.extract_threads queue thread first inside _ rfl
  have other : ∀ place heads, place ≠ queue → sys.heads place = some heads →
      heads ≠ active := by
    rintro place heads apart there rfl
    exact apart (kept.active_unique place queue heads there lent)
  generalize named : (if rest = [] then update sys.heads queue none
    else sys.heads) = heads
  have elsewhere : ∀ place, place ≠ queue → heads place = sys.heads place := by
    intro place apart
    rw [← named]
    split
    · rw [update_of_ne apart]
    · rfl
  have here : heads queue = if rest = [] then none else some active := by
    rw [← named]
    split
    · rw [update_self]
    · exact lent
  have owners := kept.pass
    { spareHeads := update sys.spareHeads thread (some first)
      freeChain := update sys.freeChain active rest
      heads := heads
      enqueued := update sys.enqueued queue ((sys.enqueued queue).erase thread) }
    first (.thread thread) (by
      intro owner
      cases owner with
      | thread tested =>
        simp only [System.Owns, Owner.thread.injEq]
        by_cases same : tested = thread
        · simp [same]
        · simp only [update_of_ne same, same, iff_false]
          intro there
          have equal := kept.unique (.thread tested) (.queue queue) first there
            ⟨active, lent, by simp [chain]⟩
          cases equal
      | queue place =>
        simp only [System.Owns, reduceCtorEq, iff_false]
        rintro ⟨holder, there, mem⟩
        by_cases same : place = queue
        · rw [same, here] at there
          split at there
          · cases there
          · cases there
            rw [update_self] at mem
            exact fresh mem
        · rw [elsewhere place same] at there
          rw [update_of_ne (other place holder same there)] at mem
          have equal := kept.unique (.queue place) (.queue queue) first
            ⟨holder, there, mem⟩ ⟨active, lent, by simp [chain]⟩
          exact same (by simpa using equal)) (by
      intro owner moved ne
      cases owner with
      | thread tested =>
        simp only [System.Owns]
        by_cases same : tested = thread
        · simp [same, away, Ne.symm ne]
        · rw [update_of_ne same]
      | queue place =>
        simp only [System.Owns]
        by_cases same : place = queue
        · subst same
          rw [here, lent]
          by_cases empty : rest = []
          · simp [empty, chain, ne]
          · simp [empty, chain, ne]
        · rw [elsewhere place same]
          refine exists_congr fun holder => and_congr_right fun there => ?_
          rw [update_of_ne (other place holder same there)])
  refine kept.rebuild _ queue threads ?_ ?_ ?_ owners
  · have gone : (sys.enqueued queue).erase thread = [] ↔ rest = [] := by
      rw [← List.length_eq_zero_iff, left, List.length_eq_zero_iff]
    simp only [here, update_self]
    by_cases empty : rest = []
    · rw [if_pos empty]
      exact ⟨by simp [gone, empty], nofun, nofun, nofun⟩
    · rw [if_neg empty]
      refine ⟨by simp [gone, empty], ?_, ?_, ?_⟩
      · rintro _ ⟨⟩
        rw [update_self, left]
      · rintro _ ⟨⟩
        obtain ⟨second, more, shape⟩ := List.exists_cons_of_ne_nil empty
        rw [shape] at last ⊢
        simpa using last
      · rintro _ ⟨⟩
        rw [update_self]
        exact restDistinct
  · intro place apart
    refine ⟨elsewhere place apart, update_of_ne apart .., ?_⟩
    intro holder there
    exact update_of_ne (other place holder apart there) ..
  · intro tested idleHeads
    simp only at idleHeads ⊢
    by_cases same : tested = active
    · subst same
      have empty : rest = [] := by
        by_contra filled
        exact idleHeads queue (by rw [here, if_neg filled])
      rw [update_self, empty]
    · rw [update_of_ne same]
      apply kept.clean
      intro place there
      by_cases equal : place = queue
      · rw [equal, lent] at there
        exact same (Option.some.inj there).symm
      · exact idleHeads place (by rw [elsewhere place equal, there])

end

/-- Every permitted operation is accepted and keeps the invariant. -/
theorem step (kept : Conserved obj sys) (op : Operation T Q)
    (permitted : Permitted sys op) :
    ∃ next, sys.step op = some next ∧ Conserved obj next := by
  cases op with
  | enqueue queue thread =>
    have idle : ∀ queue, thread ∉ sys.enqueued queue := permitted
    obtain ⟨spare, found⟩ : ∃ spare, sys.spareHeads thread = some spare := by
      rw [← Option.ne_none_iff_exists']
      intro none
      obtain ⟨queue, inside⟩ := (kept.spare thread).mp none
      exact idle queue inside
    cases lent : sys.heads queue with
    | none =>
      have empty := kept.clean spare (kept.spare_inactive thread spare found)
      refine ⟨_, ?_, kept.enqueue_first queue thread spare idle found lent⟩
      simp [System.step, System.enqueue, found, lent, empty]
    | some active =>
      refine ⟨_, ?_, kept.enqueue_later queue thread spare active idle found lent⟩
      simp [System.step, System.enqueue, found, lent]
  | extract queue thread =>
    have inside : thread ∈ sys.enqueued queue := permitted
    obtain ⟨active, lent⟩ : ∃ active, sys.heads queue = some active := by
      rw [← Option.ne_none_iff_exists']
      intro none
      rw [(kept.heads queue).mp none] at inside
      cases inside
    cases chain : sys.freeChain active with
    | nil =>
      have mem := kept.active_member queue active lent
      simp [chain] at mem
    | cons first rest =>
      refine ⟨_, ?_, kept.extract queue thread active first rest inside lent chain⟩
      simp [System.step, System.extract, lent, chain]

end Conserved

omit [DecidableEq T] [DecidableEq Q] [DecidableEq H] in
theorem Initial.conserved {obj : T → H} {sys : System T Q H}
    (initial : Initial obj sys) : Conserved obj sys := by
  have owns : ∀ owner heads, sys.Owns owner heads →
      ∃ thread, owner = .thread thread ∧ obj thread = heads := by
    intro owner heads owned
    cases owner with
    | thread thread =>
      have spare : sys.spareHeads thread = some heads := owned
      rw [initial.spare thread] at spare
      exact ⟨thread, rfl, Option.some.inj spare⟩
    | queue queue =>
      obtain ⟨active, lent, -⟩ := owned
      rw [initial.heads queue] at lent
      cases lent
  refine ⟨?_, ?_, ?_, ?_, ?_, ?_, ?_, fun heads _ => initial.empty heads, ?_,
    fun thread => ⟨.thread thread, initial.spare thread⟩⟩
  · simp [initial.spare, initial.idle]
  · simp [initial.idle]
  · simp [initial.idle]
  · simp [initial.heads, initial.idle]
  iterate 3
    · simp [initial.heads]
  · intro one other heads first second
    obtain ⟨thread, rfl, value⟩ := owns one heads first
    obtain ⟨tested, rfl, equal⟩ := owns other heads second
    rw [initial.distinct (value.trans equal.symm)]

/-- In every reachable state a thread has one spare object exactly if it is not enqueued,
a queue has heads exactly if a thread is enqueued on it, the free chain of the active
heads has as many nodes as there are threads and ends with the active heads, and every
object has exactly one owner, which holds it once. Every permitted operation is
accepted. -/
theorem runs_conserve_heads (object : T → H) (past : List (System T Q H)) (system : System T Q H)
    (run : Trace (Initial object) Permitted System.step past system) :
    (∀ thread, (∃ queue, thread ∈ system.enqueued queue) ↔ system.spareHeads thread = none) ∧
    (∀ queue, system.heads queue = none ↔ system.enqueued queue = []) ∧
    (∀ queue active, system.heads queue = some active →
      (system.freeChain active).length = (system.enqueued queue).length ∧
      (system.freeChain active).getLast? = some active ∧ (system.freeChain active).Nodup) ∧
    (∀ thread, ∃! owner, system.Owns owner (object thread)) ∧
    ∀ operation, Permitted system operation → (system.step operation).isSome := by
  have conserved : Conserved object system := by
    refine run.invariant (Conserved object) (fun _ initial => initial.conserved) ?_
    intro state operation next kept permitted taken
    obtain ⟨reached, stepped, after⟩ := kept.step operation permitted
    cases taken.symm.trans stepped
    exact after
  refine ⟨fun thread => (conserved.spare thread).symm, conserved.heads, ?_, ?_, ?_⟩
  · intro queue active lent
    exact ⟨conserved.length queue active lent, conserved.last queue active lent,
      conserved.distinct queue active lent⟩
  · intro thread
    obtain ⟨owner, owns⟩ := conserved.owned thread
    exact ⟨owner, owns, fun other there => conserved.unique other owner _ there owns⟩
  · intro operation permitted
    obtain ⟨next, stepped, -⟩ := conserved.step operation permitted
    rw [stepped]
    rfl

/-- Three threads with an object each and two queues. -/
def start : System (Fin 3) (Fin 2) (Fin 3) :=
  { spareHeads := some, heads := fun _ => none, freeChain := fun _ => [], enqueued := fun _ => [] }

theorem start_initial : Initial id start :=
  ⟨Function.injective_id, fun _ => rfl, fun _ => rfl, fun _ => rfl, fun _ => rfl⟩

/-- The thread that lent its object leaves first, with the object of another thread, and
goes to the other queue. -/
theorem runs_conserve_heads_lent :
    ∃ (past : List (System (Fin 3) (Fin 2) (Fin 3))) (system : System (Fin 3) (Fin 2) (Fin 3)),
      Trace (Initial id) Permitted System.step past system ∧
      system.heads 0 = some 0 ∧ system.heads 1 = some 2 ∧
      (system.freeChain 0).length = (system.enqueued 0).length ∧
      ∀ thread : Fin 3, ∃! owner, system.Owns owner thread := by
  obtain ⟨past, system, run, seen⟩ := Trace.observe Permitted System.step start start_initial
    [.enqueue 0 0, .enqueue 0 1, .enqueue 0 2, .extract 0 0, .enqueue 1 0]
    (fun system => (system.heads 0, system.heads 1)) (some 0, some 2) (by decide) (by decide)
  obtain ⟨first, second⟩ := Prod.mk.inj seen
  obtain ⟨-, -, chain, owners, -⟩ := runs_conserve_heads id past system run
  exact ⟨past, system, run, first, second, (chain 0 0 first).1, owners⟩

end Rtems.ThreadQueue.Heads
