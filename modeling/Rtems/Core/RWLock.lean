import Mathlib.Algebra.Order.Ring.Nat
import Mathlib.Data.List.Nodup
import Mathlib.Data.List.Perm.Basic
import Rtems.Library.Transition

/-!
# Read-write locks

A lock is free, read by some threads or written by one. Threads that cannot have it wait
in a FIFO queue, and the last holder to surrender passes it on by a flush whose filter
changes the lock as it goes: it grants the lock to a writer at the head of the queue, or
to all readers before the first writer. The system records the holds that were granted
and not surrendered, with one entry for each hold, since a thread may read more than
once. The number of readers is a 32-bit word.
-/

namespace Rtems.RWLock

open Transition

universe u
variable {T : Type u} [DecidableEq T]

/-- `CORE_RWLock_States`. -/
inductive LockState where
  | unlocked
  | lockedForReading
  | lockedForWriting
deriving DecidableEq, Repr

/-- `CORE_RWLOCK_THREAD_WAITING_FOR_READ` and `CORE_RWLOCK_THREAD_WAITING_FOR_WRITE`. -/
inductive Wish where
  | read
  | write
deriving DecidableEq, Repr

/-- The results of a seize operation. -/
inductive Status where
  | successful
  | unavailable
  | timeout
deriving DecidableEq, Repr

/-- How long a caller is willing to wait. -/
inductive Patience where
  | none
  | forever
  | limited
deriving DecidableEq, Repr

/-- `CORE_RWLock_Control` with its thread queue, the wait data of the threads, the holds
that are in force and the calls that returned in the last step. -/
structure System (T : Type u) where
  currentState : LockState
  numberOfReaders : Nat
  queue : List T
  option : T → Wish
  returnCode : T → Status
  limited : T → Bool
  readers : List T
  writers : List T
  returned : List (T × Status)

/-- The operations on a lock. A holder says which kind of hold it surrenders. -/
inductive Operation (T : Type u) where
  | seizeForReading (thread : T) (patience : Patience)
  | seizeForWriting (thread : T) (patience : Patience)
  | surrender (thread : T) (hold : Wish)
  | timeout (thread : T)
deriving DecidableEq

/-- An `unsigned int` increment. -/
def increment (count : Nat) : Nat := (count + 1) % 2 ^ 32

/-- An `unsigned int` decrement. -/
def decrement (count : Nat) : Nat := (count + (2 ^ 32 - 1)) % 2 ^ 32

section

variable (system : System T)

/-- A thread returns from its seize operation. -/
def System.return (thread : T) (status : Status) : System T :=
  { system with returned := [(thread, status)] }

/-- The part of the seize operations for a lock that is not available:
`_Thread_queue_Enqueue` or an immediate return. -/
def System.wait (thread : T) (wish : Wish) : Patience → System T
  | .none => system.return thread .unavailable
  | patience =>
      { system with
        option := Function.update system.option thread wish
        returnCode := Function.update system.returnCode thread .successful
        limited := Function.update system.limited thread (patience = .limited)
        queue := system.queue ++ [thread]
        returned := [] }

/-- `_CORE_RWLock_Seize_for_reading`. -/
def System.seizeForReading (thread : T) (patience : Patience) : System T :=
  let granted : System T :=
    { system with
      currentState := .lockedForReading
      numberOfReaders := increment system.numberOfReaders
      readers := thread :: system.readers }
  match system.currentState with
  | .unlocked => granted.return thread .successful
  | .lockedForReading =>
      if system.queue = [] then granted.return thread .successful
      else system.wait thread .read patience
  | .lockedForWriting => system.wait thread .read patience

/-- `_CORE_RWLock_Seize_for_writing`. -/
def System.seizeForWriting (thread : T) (patience : Patience) : System T :=
  match system.currentState with
  | .unlocked =>
      { system with
        currentState := .lockedForWriting
        writers := thread :: system.writers }.return thread .successful
  | .lockedForReading => system.wait thread .write patience
  | .lockedForWriting => system.wait thread .write patience

/-- `_CORE_RWLock_Flush_filter`: the lock after the thread was granted it, or none if
the flush has to stop. -/
def System.flushFilter (thread : T) : Option (System T) :=
  match system.currentState, system.option thread with
  | .lockedForReading, .read =>
      some { system with
        numberOfReaders := increment system.numberOfReaders
        readers := thread :: system.readers }
  | .lockedForReading, .write => none
  | .lockedForWriting, _ => none
  | .unlocked, .read =>
      some { system with
        currentState := .lockedForReading
        numberOfReaders := 1
        readers := thread :: system.readers }
  | .unlocked, .write =>
      some { system with
        currentState := .lockedForWriting
        writers := thread :: system.writers }

/-- The loop of `_Thread_queue_Flush_critical`: the threads that the filter accepts leave
the queue and return with their return code. -/
def System.flush (system : System T) : List T → System T
  | [] => { system with queue := [] }
  | first :: rest =>
      match system.flushFilter first with
      | none => { system with queue := first :: rest }
      | some granted =>
          { granted with
            returned := granted.returned ++ [(first, granted.returnCode first)] }.flush rest

/-- `_CORE_RWLock_Surrender` with the end of the hold. -/
def System.surrender (thread : T) (hold : Wish) : System T :=
  let released : System T :=
    match hold with
    | .read => { system with readers := system.readers.erase thread, returned := [] }
    | .write => { system with writers := system.writers.erase thread, returned := [] }
  match released.currentState with
  | .unlocked => released
  | .lockedForReading =>
      let fewer := { released with numberOfReaders := decrement released.numberOfReaders }
      if fewer.numberOfReaders ≠ 0 then fewer
      else { fewer with currentState := .unlocked }.flush fewer.queue
  | .lockedForWriting => { released with currentState := .unlocked }.flush released.queue

/-- `_Thread_Continue` with `STATUS_TIMEOUT` for a waiting thread. -/
def System.timeout (system : System T) (thread : T) : System T :=
  { system with
    queue := system.queue.erase thread
    returnCode := Function.update system.returnCode thread .timeout
    returned := [(thread, .timeout)] }

/-- One operation. -/
def System.step : Operation T → Option (System T)
  | .seizeForReading thread patience => some (system.seizeForReading thread patience)
  | .seizeForWriting thread patience => some (system.seizeForWriting thread patience)
  | .surrender thread hold => some (system.surrender thread hold)
  | .timeout thread => some (system.timeout thread)

/-- A waiting thread calls nothing, a surrender is by a holder, and a timeout is of a
thread that waits with one. -/
def Permitted : Operation T → Prop
  | .seizeForReading thread _ => thread ∉ system.queue
  | .seizeForWriting thread _ => thread ∉ system.queue
  | .surrender thread .read => thread ∉ system.queue ∧ thread ∈ system.readers
  | .surrender thread .write => thread ∉ system.queue ∧ thread ∈ system.writers
  | .timeout thread => thread ∈ system.queue ∧ system.limited thread = true

instance (system : System T) (operation : Operation T) : Decidable (Permitted system operation) :=
  match operation with
  | .seizeForReading thread _ => inferInstanceAs (Decidable (thread ∉ system.queue))
  | .seizeForWriting thread _ => inferInstanceAs (Decidable (thread ∉ system.queue))
  | .surrender _ .read => inferInstanceAs (Decidable (_ ∧ _))
  | .surrender _ .write => inferInstanceAs (Decidable (_ ∧ _))
  | .timeout _ => inferInstanceAs (Decidable (_ ∧ _))

/-- `_CORE_RWLock_Initialize`. -/
structure Initial (system : System T) : Prop where
  state : system.currentState = .unlocked
  number : system.numberOfReaders = 0
  queue : system.queue = []
  readers : system.readers = []
  writers : system.writers = []

/-- The lock agrees with the holds. -/
structure Exclusive (system : System T) : Prop where
  writing : system.currentState = .lockedForWriting → system.writers.length = 1 ∧
    system.readers = [] ∧ system.numberOfReaders = 0
  reading : system.currentState = .lockedForReading → system.readers ≠ [] ∧
    system.writers = [] ∧ system.numberOfReaders = system.readers.length
  unlocked : system.currentState = .unlocked → system.readers = [] ∧ system.writers = [] ∧
    system.numberOfReaders = 0

/-- The invariant of a run: besides, the queue of a free lock is empty, and a waiting
thread is in the queue once and has a return code that says success. -/
structure Sound (system : System T) : Prop where
  exclusive : Exclusive system
  free : system.currentState = .unlocked → system.queue = []
  once : system.queue.Nodup
  code : ∀ thread ∈ system.queue, system.returnCode thread = .successful

/-- All holds in force. -/
def System.holds : List T := system.readers ++ system.writers

end

variable {sys granted : System T} {thread : T}

section

omit [DecidableEq T]

/-- What a filter that accepts a thread does: it grants one hold and leaves the wait data
alone. -/
theorem filter_spec (accepted : sys.flushFilter thread = some granted) :
    granted.holds.Perm (thread :: sys.holds) ∧ sys.readers.length ≤ granted.readers.length ∧
      granted.currentState ≠ .unlocked ∧ granted.queue = sys.queue ∧
      granted.option = sys.option ∧ granted.returnCode = sys.returnCode ∧
      granted.limited = sys.limited ∧ granted.returned = sys.returned := by
  unfold System.flushFilter at accepted
  split at accepted
  case h_1 st _ =>
    cases accepted
    refine ⟨.refl _, Nat.le_succ _, ?_, rfl, rfl, rfl, rfl, rfl⟩
    simp [st]
  case h_2 => cases accepted
  case h_3 => cases accepted
  case h_4 =>
    cases accepted
    exact ⟨.refl _, Nat.le_succ _, by simp, rfl, rfl, rfl, rfl, rfl⟩
  case h_5 =>
    cases accepted
    exact ⟨List.perm_middle, Nat.le_refl _, by simp, rfl, rfl, rfl, rfl, rfl⟩

/-- The filter rejects a thread only if the lock is not free and the thread has to stay:
a reader stays only if the lock is written. -/
theorem filter_stop (rejected : sys.flushFilter thread = none) : sys.currentState ≠ .unlocked ∧
      (sys.currentState = .lockedForReading → sys.option thread = .write) := by
  unfold System.flushFilter at rejected
  split at rejected <;> simp_all

/-- The filter keeps the lock in agreement with the holds. -/
theorem filter_exclusive (exclusive : Exclusive sys)
    (accepted : sys.flushFilter thread = some granted)
    (bound : granted.readers.length < 2 ^ 32) : Exclusive granted := by
  unfold System.flushFilter at accepted
  split at accepted
  case h_1 st _ =>
    cases accepted
    obtain ⟨-, none, count⟩ := exclusive.reading st
    refine ⟨by simp [st], ?_, by simp [st]⟩
    intro _
    have bound : sys.readers.length + 1 < 2 ^ 32 := by simpa using bound
    refine ⟨by simp, none, ?_⟩
    rw [count, increment, List.length_cons, Nat.mod_eq_of_lt bound]
  case h_2 => cases accepted
  case h_3 => cases accepted
  case h_4 st _ =>
    cases accepted
    obtain ⟨none, nobody, -⟩ := exclusive.unlocked st
    exact ⟨by simp, by simp [none, nobody], by simp⟩
  case h_5 st _ =>
    cases accepted
    obtain ⟨none, nobody, zero⟩ := exclusive.unlocked st
    exact ⟨by simp [none, nobody, zero], by simp, by simp⟩

end

/-- What a flush does to the queue, whatever the counts are: the threads before the first
rejected one leave and return with their codes, each with a hold; a free lock has nobody
left, and the first thread left behind a lock for reading is a writer. -/
structure Flushed (before : System T) (waiting : List T) (after : System T) : Prop where
  split : ∃ granted, waiting = granted ++ after.queue ∧
    after.returned =
      before.returned ++ granted.map (fun thread => (thread, before.returnCode thread)) ∧
    after.holds.Perm (granted ++ before.holds)
  more : before.readers.length ≤ after.readers.length
  free : after.currentState = .unlocked → after.queue = []
  writer : after.currentState = .lockedForReading → ∀ first ∈ after.queue.head?,
    after.option first = .write
  option : after.option = before.option
  returnCode : after.returnCode = before.returnCode
  limited : after.limited = before.limited

omit [DecidableEq T] in
theorem flush_spec (sys : System T) (waiting : List T) :
    Flushed sys waiting (sys.flush waiting) := by
  induction waiting generalizing sys with
  | nil =>
    refine ⟨⟨[], rfl, ?_, .refl _⟩, Nat.le_refl _, fun _ => rfl, ?_, rfl, rfl, rfl⟩
    · simp [System.flush]
    · simp [System.flush]
  | cons first rest ih =>
    unfold System.flush
    split
    case h_1 rejected =>
      obtain ⟨busy, writer⟩ := filter_stop rejected
      refine ⟨⟨[], rfl, by simp, .refl _⟩, Nat.le_refl _, ?_, ?_, rfl, rfl, rfl⟩
      · exact fun free => absurd free busy
      · intro reading tested head
        obtain rfl : first = tested := by simpa using head
        exact writer reading
    case h_2 granted accepted =>
      obtain ⟨holds, more, -, queue, option, code, limited, returned⟩ := filter_spec accepted
      have later := ih
        { granted with returned := granted.returned ++ [(first, granted.returnCode first)] }
      obtain ⟨others, split, answers, kept⟩ := later.split
      refine ⟨⟨first :: others, ?_, ?_, ?_⟩, Nat.le_trans more later.more, later.free, later.writer,
        later.option.trans option, later.returnCode.trans code, later.limited.trans limited⟩
      · exact congrArg (first :: ·) split
      · rw [answers]
        simp [returned, code]
      · refine kept.trans ?_
        have passed : (others ++ granted.holds).Perm (others ++ first :: sys.holds) :=
          holds.append_left others
        exact passed.trans List.perm_middle

omit [DecidableEq T] in
/-- A flush keeps the lock in agreement with the holds, as long as the readers can be
counted. -/
theorem flush_exclusive (sys : System T) (waiting : List T) (exclusive : Exclusive sys)
    (bound : (sys.flush waiting).readers.length < 2 ^ 32) :
    Exclusive (sys.flush waiting) := by
  induction waiting generalizing sys with
  | nil => exact { exclusive with }
  | cons first rest ih =>
    unfold System.flush at bound ⊢
    split
    case h_1 => exact { exclusive with }
    case h_2 granted accepted =>
      simp only [accepted] at bound
      have more := (flush_spec
        { granted with returned := granted.returned ++ [(first, granted.returnCode first)] }
        rest).more
      have kept := filter_exclusive exclusive accepted (Nat.lt_of_le_of_lt more bound)
      exact ih _ { kept with } bound

/-- A thread returns with success exactly if it has one hold more than before. -/
def Granted (before after : System T) : Prop :=
  ∀ thread, (thread, Status.successful) ∈ after.returned ↔
    after.holds.count thread = before.holds.count thread + 1

variable {before after : System T}

/-- A step that adds one hold for each of some threads, which return with success, and
takes no hold away from them. -/
theorem Granted.of_perm (granted rest : List T) (once : granted.Nodup)
    (returned : after.returned = granted.map (fun thread => (thread, Status.successful)))
    (holds : after.holds.Perm (granted ++ rest))
    (kept : ∀ thread ∈ granted, rest.count thread = before.holds.count thread)
    (fewer : ∀ thread, rest.count thread ≤ before.holds.count thread) : Granted before after := by
  intro thread
  rw [holds.count_eq, List.count_append, returned]
  by_cases inside : thread ∈ granted
  · rw [List.count_eq_one_of_mem once inside, kept thread inside]
    simp [inside, Nat.add_comm]
  · rw [List.count_eq_zero_of_not_mem inside]
    have bound := fewer thread
    simp only [List.mem_map, Prod.mk.injEq, and_true, exists_eq_right, inside, false_iff]
    omega

/-- A step that grants nothing and reports no success. -/
theorem Granted.of_none (holds : after.holds = before.holds)
    (returned : ∀ thread, (thread, Status.successful) ∉ after.returned) : Granted before after := by
  intro thread
  simp [holds, returned thread]

/-- What a seize operation does that cannot have the lock. -/
theorem Sound.wait (sound : Sound sys) (thread : T) (wish : Wish) (patience : Patience)
    (busy : sys.currentState ≠ .unlocked) (outside : thread ∉ sys.queue) :
    Sound (sys.wait thread wish patience) ∧ Granted sys (sys.wait thread wish patience) := by
  have enqueued : Sound (sys.wait thread wish patience) := by
    obtain ⟨exclusive, free, once, code⟩ := sound
    cases patience with
    | none => exact ⟨{ exclusive with }, free, once, code⟩
    | forever | limited =>
      refine ⟨{ exclusive with },
        fun unlocked => absurd unlocked busy, ?_, ?_⟩
      · exact List.nodup_append.mpr ⟨once, by simp, by
          intro one inside other last
          obtain rfl : other = thread := by simpa using last
          rintro rfl
          exact outside inside⟩
      · intro tested inside
        by_cases same : tested = thread
        · simp [System.wait, same]
        · have waiting : tested ∈ sys.queue := by simpa [System.wait, same] using inside
          simpa [System.wait, same] using code tested waiting
  refine ⟨enqueued, Granted.of_none ?_ ?_⟩
  · cases patience <;> rfl
  · cases patience <;> simp [System.wait, System.return]

/-- A thread gets the lock at once. -/
theorem granted_at_once (thread : T) (holds : granted.holds.Perm (thread :: sys.holds)) :
    Granted sys (granted.return thread .successful) :=
  Granted.of_perm [thread] sys.holds (List.nodup_singleton thread) rfl holds
    (fun _ _ => rfl) (fun _ => Nat.le_refl _)

section

variable (sound : Sound sys) (thread : T) (patience : Patience) (outside : thread ∉ sys.queue)
include sound outside

theorem Sound.seizeForReading
    (bound : (sys.seizeForReading thread patience).readers.length < 2 ^ 32) :
    Sound (sys.seizeForReading thread patience) ∧
      Granted sys (sys.seizeForReading thread patience) := by
  unfold System.seizeForReading at bound ⊢
  cases st : sys.currentState with
  | unlocked =>
    obtain ⟨none, nobody, zero⟩ := sound.exclusive.unlocked st
    refine ⟨⟨⟨by simp [System.return], ?_, by simp [System.return]⟩, by simp [System.return],
      sound.once, sound.code⟩, granted_at_once thread (.refl _)⟩
    simp [System.return, none, nobody, zero, increment]
  | lockedForReading =>
    simp only [st] at bound ⊢
    split
    case isTrue empty =>
      rw [if_pos empty] at bound
      obtain ⟨-, nobody, count⟩ := sound.exclusive.reading st
      have bound : sys.readers.length + 1 < 2 ^ 32 := bound
      refine ⟨⟨⟨by simp [System.return], ?_, by simp [System.return]⟩, by simp [System.return],
        sound.once, sound.code⟩, granted_at_once thread (.refl _)⟩
      intro _
      refine ⟨by simp [System.return], nobody, ?_⟩
      show increment sys.numberOfReaders = (thread :: sys.readers).length
      rw [count, increment, List.length_cons, Nat.mod_eq_of_lt bound]
    case isFalse => exact sound.wait thread .read patience (by simp [st]) outside
  | lockedForWriting =>
    exact sound.wait thread .read patience (by simp [st]) outside

theorem Sound.seizeForWriting : Sound (sys.seizeForWriting thread patience) ∧
      Granted sys (sys.seizeForWriting thread patience) := by
  unfold System.seizeForWriting
  cases st : sys.currentState with
  | unlocked =>
    obtain ⟨none, nobody, zero⟩ := sound.exclusive.unlocked st
    refine ⟨⟨⟨?_, by simp [System.return], by simp [System.return]⟩, by simp [System.return],
      sound.once, sound.code⟩, granted_at_once thread List.perm_middle⟩
    simp [System.return, none, nobody, zero]
  | lockedForReading | lockedForWriting =>
    exact sound.wait thread .write patience (by simp [st]) outside

end

/-- The lock is passed on: a flush of a lock whose holds are all surrendered. -/
theorem passed_on {released : System T} (sound : Sound sys) (thread : T)
    (outside : thread ∉ sys.queue) (exclusive : Exclusive released)
    (returned : released.returned = []) (code : released.returnCode = sys.returnCode)
    (holds : ∀ tested, released.holds.count tested ≤ sys.holds.count tested)
    (others : ∀ tested, tested ≠ thread → released.holds.count tested = sys.holds.count tested)
    (bound : (released.flush sys.queue).readers.length < 2 ^ 32) :
    Sound (released.flush sys.queue) ∧ Granted sys (released.flush sys.queue) := by
  have flushed := flush_spec released sys.queue
  obtain ⟨granted, split, answers, kept⟩ := flushed.split
  have once : (granted ++ (released.flush sys.queue).queue).Nodup := split ▸ sound.once
  have waited : ∀ tested ∈ granted, tested ∈ sys.queue := by
    intro tested inside
    rw [split]
    exact List.mem_append_left _ inside
  refine ⟨⟨flush_exclusive released sys.queue exclusive bound, flushed.free,
    (List.nodup_append.mp once).2.1, ?_⟩, ?_⟩
  · intro tested inside
    rw [flushed.returnCode, code]
    apply sound.code
    rw [split]
    exact List.mem_append_right _ inside
  · refine Granted.of_perm granted released.holds (List.nodup_append.mp once).1 ?_ kept ?_ holds
    · rw [answers, returned, List.nil_append]
      apply List.map_congr_left
      intro tested inside
      rw [code, sound.code tested (waited tested inside)]
    · intro tested inside
      apply others
      rintro rfl
      exact outside (waited tested inside)

theorem Sound.surrender (sound : Sound sys) (thread : T) (hold : Wish)
    (permitted : Permitted sys (.surrender thread hold))
    (before : sys.readers.length < 2 ^ 32)
    (bound : (sys.surrender thread hold).readers.length < 2 ^ 32) :
    Sound (sys.surrender thread hold) ∧ Granted sys (sys.surrender thread hold) := by
  unfold System.surrender at bound ⊢
  cases hold with
  | read =>
    obtain ⟨outside, holder⟩ : thread ∉ sys.queue ∧ thread ∈ sys.readers := permitted
    cases st : sys.currentState with
    | unlocked => simp [(sound.exclusive.unlocked st).1] at holder
    | lockedForWriting => simp [(sound.exclusive.writing st).2.1] at holder
    | lockedForReading =>
      obtain ⟨-, nobody, count⟩ := sound.exclusive.reading st
      have fewer : (sys.readers.erase thread).length = sys.readers.length - 1 :=
        List.length_erase_of_mem holder
      have some : 0 < sys.readers.length := List.length_pos_of_mem holder
      have num : decrement sys.numberOfReaders = (sys.readers.erase thread).length := by
        rw [fewer, decrement, count]
        omega
      have left : ∀ tested, (sys.readers.erase thread ++ sys.writers).count tested ≤
          sys.holds.count tested := by
        intro tested
        exact (List.erase_sublist.append_right _).count_le tested
      have others : ∀ tested, tested ≠ thread →
          (sys.readers.erase thread ++ sys.writers).count tested =
            sys.holds.count tested := by
        intro tested ne
        rw [System.holds, List.count_append, List.count_append, List.count_erase_of_ne ne]
      simp only [st] at bound ⊢
      split
      case isTrue more =>
        refine ⟨⟨⟨by simp, ?_, by simp⟩, by simp, sound.once, sound.code⟩, ?_⟩
        · intro _
          refine ⟨?_, nobody, num⟩
          intro none
          exact more (num.trans (congrArg List.length none))
        · exact Granted.of_perm [] _ List.nodup_nil rfl (.refl _) (by simp) left
      case isFalse last =>
        rw [if_neg last] at bound
        have none : sys.readers.erase thread = [] := by
          apply List.eq_nil_of_length_eq_zero
          rw [← num]
          simpa using last
        refine passed_on sound thread outside ⟨by simp, by simp, ?_⟩ rfl rfl left others bound
        exact fun _ => ⟨none, nobody, by simpa using last⟩
  | write =>
    obtain ⟨outside, holder⟩ : thread ∉ sys.queue ∧ thread ∈ sys.writers := permitted
    cases st : sys.currentState with
    | unlocked => simp [(sound.exclusive.unlocked st).2.1] at holder
    | lockedForReading => simp [(sound.exclusive.reading st).2.1] at holder
    | lockedForWriting =>
      obtain ⟨one, none, zero⟩ := sound.exclusive.writing st
      have gone : sys.writers.erase thread = [] := by
        apply List.eq_nil_of_length_eq_zero
        rw [List.length_erase_of_mem holder, one]
      simp only [st] at bound ⊢
      refine passed_on sound thread outside ⟨by simp, by simp, ?_⟩ rfl rfl ?_ ?_ bound
      · exact fun _ => ⟨none, gone, zero⟩
      · intro tested
        exact (List.erase_sublist.append_left _).count_le tested
      · intro tested ne
        simp only [System.holds, List.count_append, List.count_erase_of_ne ne]

theorem Sound.timeout (sound : Sound sys) (thread : T) :
    Sound (sys.timeout thread) ∧ Granted sys (sys.timeout thread) := by
  obtain ⟨exclusive, free, once, code⟩ := sound
  refine ⟨⟨{ exclusive with }, ?_, once.erase thread, ?_⟩,
    Granted.of_none rfl (by simp [System.timeout])⟩
  · intro unlocked
    simp [System.timeout, free unlocked]
  · intro tested inside
    obtain ⟨ne, waiting⟩ := (once.mem_erase_iff).mp inside
    simpa [System.timeout, ne] using code tested waiting

/-- One permitted operation, with countable readers before and after. -/
theorem Sound.step {next : System T} (sound : Sound sys) (op : Operation T)
    (permitted : Permitted sys op) (before : sys.readers.length < 2 ^ 32)
    (taken : sys.step op = some next) (after : next.readers.length < 2 ^ 32) :
    Sound next ∧ Granted sys next := by
  cases op with
  | seizeForReading thread patience =>
    cases taken
    exact sound.seizeForReading thread patience permitted after
  | seizeForWriting thread patience =>
    cases taken
    exact sound.seizeForWriting thread patience permitted
  | surrender thread hold =>
    cases taken
    exact sound.surrender thread hold permitted before after
  | timeout thread =>
    cases taken
    exact sound.timeout thread

omit [DecidableEq T] in
theorem Initial.sound (initial : Initial sys) : Sound sys := by
  obtain ⟨st, num, queue, readers, writers⟩ := initial
  exact ⟨⟨by simp [st], by simp [st], by simp [num, readers, writers]⟩, fun _ => queue,
    by simp [queue], by simp [queue]⟩

/-- A permitted operation that leaves a number of read holds that can be counted. -/
def Countable (system : System T) (operation : Operation T) : Prop :=
  Permitted system operation ∧ ∀ next ∈ system.step operation, next.readers.length < 2 ^ 32
deriving Decidable

/-- Along every run in which the read holds stay below the range of their counter, the
lock is written exactly if one thread holds it for writing and none for reading, read
exactly if the number of readers is positive and that of the read holds and no thread
holds it for writing, and free exactly if nobody holds it, with an empty queue then. A
thread returns with success exactly if it became a holder. -/
theorem runs_exclude_writers (past : List (System T)) (system : System T)
    (run : Trace Initial Countable System.step past system) :
    (system.currentState = .lockedForWriting ↔ system.writers.length = 1 ∧ system.readers = []) ∧
    (system.currentState = .lockedForReading ↔ 1 ≤ system.numberOfReaders ∧
      system.numberOfReaders = system.readers.length ∧ system.writers = []) ∧
    (system.currentState = .unlocked ↔ system.readers = [] ∧ system.writers = []) ∧
    (system.currentState = .unlocked → system.queue = []) ∧
    ∀ operation next, Countable system operation → system.step operation = some next →
      Granted system next := by
  have invariant : Sound system ∧ system.readers.length < 2 ^ 32 := by
    refine run.invariant (fun state => Sound state ∧ state.readers.length < 2 ^ 32) ?_ ?_
    · exact fun state initial => ⟨initial.sound, by simp [initial.readers]⟩
    · rintro state operation next ⟨sound, bound⟩ ⟨permitted, countable⟩ taken
      exact ⟨(sound.step operation permitted bound taken (countable next taken)).1,
        countable next taken⟩
  obtain ⟨sound, bound⟩ := invariant
  have exclusive := sound.exclusive
  refine ⟨?_, ?_, ?_, sound.free, ?_⟩
  · refine ⟨fun state => ⟨(exclusive.writing state).1, (exclusive.writing state).2.1⟩, ?_⟩
    rintro ⟨one, none⟩
    cases state : system.currentState with
    | unlocked => simp [(exclusive.unlocked state).2.1] at one
    | lockedForReading => exact absurd none (exclusive.reading state).1
    | lockedForWriting => rfl
  · constructor
    · intro state
      obtain ⟨some, nobody, count⟩ := exclusive.reading state
      exact ⟨count ▸ List.length_pos_iff.mpr some, count, nobody⟩
    · rintro ⟨positive, -, -⟩
      cases state : system.currentState with
      | unlocked => simp [(exclusive.unlocked state).2.2] at positive
      | lockedForReading => rfl
      | lockedForWriting => simp [(exclusive.writing state).2.2] at positive
  · refine ⟨fun state => ⟨(exclusive.unlocked state).1, (exclusive.unlocked state).2.1⟩, ?_⟩
    rintro ⟨none, nobody⟩
    cases state : system.currentState with
    | unlocked => rfl
    | lockedForReading => exact absurd none (exclusive.reading state).1
    | lockedForWriting => simpa [nobody] using exclusive.writing state
  · intro operation next countable taken
    exact (sound.step operation countable.1 bound taken (countable.2 next taken)).2

/-- A free lock and three threads. -/
def start : System (Fin 3) where
  currentState := .unlocked
  numberOfReaders := 0
  queue := []
  option := fun _ => .read
  returnCode := fun _ => .successful
  limited := fun _ => false
  readers := []
  writers := []
  returned := []

theorem start_initial : Initial start := ⟨rfl, rfl, rfl, rfl, rfl⟩

/-- Two reads, a writer and a reader behind it: the writer gets the lock from the second
surrender, the waiting reader from the writer. -/
theorem runs_exclude_writers_handover :
    ∃ (past : List (System (Fin 3))) (system : System (Fin 3)),
      Trace Initial Countable System.step past system ∧
      system.currentState = .lockedForReading ∧ system.readers = [2] ∧
      (1 ≤ system.numberOfReaders ∧ system.numberOfReaders = system.readers.length ∧
        system.writers = []) := by
  obtain ⟨past, system, run, seen⟩ := Trace.observe Countable System.step start start_initial
    [.seizeForReading 0 .none, .seizeForReading 0 .none, .seizeForWriting 1 .forever,
      .seizeForReading 2 .limited, .surrender 0 .read, .surrender 0 .read, .surrender 1 .write]
    (fun system => (system.currentState, system.readers)) (.lockedForReading, [2])
    (by decide +kernel) (by decide +kernel)
  obtain ⟨state, readers⟩ := Prod.mk.inj seen
  have reading := (runs_exclude_writers past system run).2.1
  exact ⟨past, system, run, state, readers, reading.mp state⟩

/-- One thread reads as often as it likes, and the counter wraps. -/
theorem repeated_reading (num : Nat) : ∃ (past : List (System (Fin 3))) (sys : System (Fin 3)),
      Trace Initial Permitted System.step past sys ∧ sys.queue = [] ∧
      sys.currentState = (if num = 0 then .unlocked else .lockedForReading) ∧
      sys.readers.length = num ∧ sys.numberOfReaders = num % 2 ^ 32 := by
  induction num with
  | zero => exact ⟨[], start, .start start start_initial, rfl, rfl, rfl, rfl⟩
  | succ num ih =>
    obtain ⟨past, sys, run, queue, st, readers, count⟩ := ih
    have granted : sys.step (.seizeForReading 0 .none) = some { sys with
          currentState := .lockedForReading
          numberOfReaders := increment sys.numberOfReaders
          readers := 0 :: sys.readers
          returned := [(0, .successful)] } := by
      by_cases none : num = 0
      · simp [System.step, System.seizeForReading, System.return, st, none]
      · simp [System.step, System.seizeForReading, System.return, st, none, queue]
    have outside : Permitted sys (.seizeForReading 0 .none) := by simp [Permitted, queue]
    refine ⟨_, _, .step past sys _ _ run outside granted, queue, rfl, ?_, ?_⟩
    · exact congrArg (· + 1) readers
    · rw [count, increment, Nat.mod_add_mod]

/-- With 2^32 read holds the lock is read and has no reader by its counter. -/
theorem uncounted_readers :
    ∃ (past : List (System (Fin 3))) (system : System (Fin 3)),
      Trace Initial Permitted System.step past system ∧
      system.currentState = .lockedForReading ∧ system.readers.length = 2 ^ 32 ∧
      ¬(1 ≤ system.numberOfReaders ∧ system.numberOfReaders = system.readers.length) := by
  obtain ⟨past, system, run, -, state, readers, number⟩ := repeated_reading (2 ^ 32)
  refine ⟨past, system, run, state, readers, ?_⟩
  rintro ⟨positive, -⟩
  rw [number, Nat.mod_self] at positive
  exact absurd positive (by decide)

/-- The first thread that waits for a lock that is read waits for writing. -/
def WriterFirst (system : System T) : Prop :=
  system.currentState = .lockedForReading → ∀ first ∈ system.queue.head?,
    system.option first = .write

/-- The first waiting thread of a lock that is read does not time out in front of a
reader. -/
def Orderly (system : System T) : Operation T → Prop
  | .timeout thread => system.currentState = .lockedForReading →
      system.queue.head? = some thread → ∀ second ∈ system.queue.tail.head?,
        system.option second = .write
  | _ => True

instance (system : System T) (operation : Operation T) : Decidable (Orderly system operation) :=
  match operation with
  | .timeout _ => inferInstanceAs (Decidable (_ → _ → _))
  | .seizeForReading .. | .seizeForWriting .. | .surrender .. => .isTrue trivial

/-- A writer is first, nobody waits for a free lock, and a thread waits once. -/
structure Queued (system : System T) : Prop where
  writer : WriterFirst system
  free : system.currentState = .unlocked → system.queue = []
  once : system.queue.Nodup

/-- A thread that has to wait for a read lock does so for writing or behind others. -/
theorem Queued.wait (queued : Queued sys) (thread : T) (wish : Wish) (patience : Patience)
    (busy : sys.currentState ≠ .unlocked) (outside : thread ∉ sys.queue)
    (waits : sys.currentState = .lockedForReading → wish = .write ∨ sys.queue ≠ []) :
    Queued (sys.wait thread wish patience) := by
  cases patience with
  | none => exact { queued with }
  | forever | limited =>
    refine ⟨?_, fun unlocked => absurd unlocked busy, ?_⟩
    · intro reading first head
      cases empty : sys.queue with
      | nil =>
        obtain rfl : thread = first := by simpa [System.wait, empty] using head
        have writes : wish = .write := (waits reading).resolve_right (not_not_intro empty)
        simp [System.wait, writes]
      | cons foremost rest =>
        obtain rfl : foremost = first := by simpa [System.wait, empty] using head
        have ne : foremost ≠ thread := by
          rintro rfl
          exact outside (by simp [empty])
        simpa [System.wait, ne] using queued.writer reading foremost (by simp [empty])
    · refine List.nodup_append.mpr ⟨queued.once, by simp, ?_⟩
      intro one inside other last
      obtain rfl : other = thread := by simpa using last
      rintro rfl
      exact outside inside

omit [DecidableEq T] in
/-- A lock that is passed on is read in front of a writer only. -/
theorem Flushed.queued {waiting : List T}
    (flushed : Flushed before waiting after) (once : waiting.Nodup) : Queued after := by
  obtain ⟨granted, split, -, -⟩ := flushed.split
  refine ⟨flushed.writer, flushed.free, ?_⟩
  rw [split] at once
  exact (List.nodup_append.mp once).2.1

theorem Queued.surrender (queued : Queued sys) (thread : T) (hold : Wish) :
    Queued (sys.surrender thread hold) := by
  obtain ⟨writer, free, once⟩ := queued
  unfold System.surrender
  cases hold with
  | read | write =>
    cases st : sys.currentState with
    | unlocked => exact ⟨by simp [WriterFirst], fun _ => free st, once⟩
    | lockedForReading =>
      simp only
      split
      case isTrue => exact ⟨fun _ => writer st, by simp, once⟩
      case isFalse => exact (flush_spec _ _).queued once
    | lockedForWriting => exact (flush_spec _ _).queued once

/-- A timeout leaves a writer first exactly if it is orderly. -/
theorem writer_first_timeout (queued : Queued sys) (thread : T) :
    WriterFirst (sys.timeout thread) ↔ Orderly sys (.timeout thread) := by
  have erased : ∀ first rest, sys.queue = first :: rest → (sys.timeout thread).queue.head? =
        if first = thread then sys.queue.tail.head? else some first := by
    intro first rest queue
    by_cases same : first = thread
    · simp [System.timeout, queue, same]
    · simp [System.timeout, queue, same]
  cases queue : sys.queue with
  | nil => simp [WriterFirst, Orderly, System.timeout, queue]
  | cons first rest =>
    have head := erased first rest queue
    unfold WriterFirst Orderly
    rw [head]
    by_cases same : first = thread
    · simp only [same, queue, List.head?_cons, true_imp_iff]
      exact Iff.rfl
    · simp only [same, queue, List.head?_cons, Option.some.injEq, false_imp_iff, imp_true_iff,
        iff_true]
      intro reading tested head
      exact queued.writer reading tested (by rw [queue]; exact head)

/-- What one permitted operation does to a queue with a writer first. -/
theorem Queued.step {next : System T} (queued : Queued sys) (op : Operation T)
    (permitted : Permitted sys op) (taken : sys.step op = some next) :
    (WriterFirst next ↔ Orderly sys op) ∧
      (next.currentState = .unlocked → next.queue = []) ∧ next.queue.Nodup := by
  have assemble : ∀ {st : System T}, Queued st → Orderly sys op →
      (WriterFirst st ↔ Orderly sys op) ∧
        (st.currentState = .unlocked → st.queue = []) ∧ st.queue.Nodup :=
    fun kept orderly => ⟨⟨fun _ => orderly, fun _ => kept.writer⟩, kept.free, kept.once⟩
  cases op with
  | seizeForReading thread patience =>
    cases taken
    refine assemble ?_ trivial
    unfold System.seizeForReading
    cases st : sys.currentState with
    | unlocked =>
      have empty := queued.free st
      exact ⟨by simp [WriterFirst, System.return, empty], fun _ => empty, queued.once⟩
    | lockedForReading =>
      simp only
      split
      case isTrue empty =>
        exact ⟨by simp [WriterFirst, System.return, empty], fun _ => empty, queued.once⟩
      case isFalse filled =>
        exact queued.wait thread .read patience (by simp [st]) permitted fun _ => .inr filled
    | lockedForWriting =>
      exact queued.wait thread .read patience (by simp [st]) permitted (by simp [st])
  | seizeForWriting thread patience =>
    cases taken
    refine assemble ?_ trivial
    unfold System.seizeForWriting
    cases st : sys.currentState with
    | unlocked => exact ⟨by simp [WriterFirst, System.return], by simp [System.return], queued.once⟩
    | lockedForReading | lockedForWriting =>
      exact queued.wait thread .write patience (by simp [st]) permitted fun _ => .inl rfl
  | surrender thread hold =>
    cases taken
    exact assemble (queued.surrender thread hold) trivial
  | timeout thread =>
    cases taken
    refine ⟨writer_first_timeout queued thread, ?_, queued.once.erase thread⟩
    intro unlocked
    simp [System.timeout, queued.free unlocked]

/-- Along every run in which no first waiting thread of a read lock times out in front of
a reader, the first thread that waits for a read lock waits for writing; the next
operation keeps this exactly if it is no such timeout. -/
theorem runs_block_readers_by_writers (past : List (System T)) (system : System T)
    (run : Trace Initial (fun state operation => Permitted state operation ∧ Orderly state operation)
      System.step past system) :
    WriterFirst system ∧ ∀ operation next, Permitted system operation →
      system.step operation = some next → (WriterFirst next ↔ Orderly system operation) := by
  have queued : Queued system := by
    refine run.invariant Queued ?_ ?_
    · intro state initial
      exact ⟨by simp [WriterFirst, initial.state], fun _ => initial.queue, by simp [initial.queue]⟩
    · rintro state operation next queued ⟨permitted, orderly⟩ taken
      obtain ⟨writer, free, once⟩ := queued.step operation permitted taken
      exact ⟨writer.mpr orderly, free, once⟩
  refine ⟨queued.writer, ?_⟩
  intro operation next permitted taken
  exact (queued.step operation permitted taken).1

/-- A writer behind a reader times out with another writer behind it. -/
theorem runs_block_readers_by_writers_timeout :
    ∃ (past : List (System (Fin 3))) (system : System (Fin 3)),
      Trace Initial (fun state operation => Permitted state operation ∧ Orderly state operation)
        System.step past system ∧
      system.currentState = .lockedForReading ∧ system.queue = [2] ∧ WriterFirst system := by
  obtain ⟨past, system, run, seen⟩ := Trace.observe
    (fun state operation => Permitted state operation ∧ Orderly state operation)
    System.step start start_initial
    [.seizeForReading 0 .none, .seizeForWriting 1 .limited, .seizeForWriting 2 .forever, .timeout 1]
    (fun system => (system.currentState, system.queue)) (.lockedForReading, [2])
    (by decide +kernel) (by decide +kernel)
  obtain ⟨state, queue⟩ := Prod.mk.inj seen
  exact ⟨past, system, run, state, queue, (runs_block_readers_by_writers past system run).1⟩

/-- A writer times out between the readers that hold the lock and a reader behind it,
which keeps waiting. -/
theorem reader_blocked_without_writer :
    ∃ (past : List (System (Fin 3))) (system : System (Fin 3)),
      Trace Initial Permitted System.step past system ∧
      system.currentState = .lockedForReading ∧ system.queue = [2] ∧ system.option 2 = .read ∧
      ¬WriterFirst system := by
  obtain ⟨past, system, run, seen⟩ := Trace.observe Permitted System.step start start_initial
    [.seizeForReading 0 .none, .seizeForWriting 1 .limited, .seizeForReading 2 .forever, .timeout 1]
    (fun system => (system.currentState, system.queue, system.option 2))
    (.lockedForReading, [2], .read) (by decide +kernel) (by decide +kernel)
  simp only [Prod.mk.injEq] at seen
  obtain ⟨state, queue, wish⟩ := seen
  refine ⟨past, system, run, state, queue, wish, ?_⟩
  intro writer
  have writes := writer state 2 (by rw [queue]; rfl)
  rw [wish] at writes
  cases writes

end Rtems.RWLock
