import Mathlib.Algebra.Order.Ring.Nat
import Rtems.Library.Successor
import Rtems.Library.Transition

/-!
# Deadlock detection

Threads seize and surrender recursive mutexes and wait for them. Before a thread is
enqueued, the path of owners and their wait queues is followed to its end; if it comes
back to the thread, then the operation returns with a status and nothing else changes.
The locking protocol is a parameter: whether it admits the seize of a free or an owned
mutex, what it does to the priorities, where it enqueues a thread, and which waiting
thread it makes the next owner.
-/

namespace Rtems.ThreadQueue.Deadlock

open Transition Successor
open Function (update update_eq_self update_of_ne update_self)

universe u v w
variable {T : Type u} {M : Type v} {P : Type w}

/-- The results of the operations. -/
inductive Status where
  | successful
  | unavailable
  | notOwner
  | refused
  | timeout
  | deadlock
deriving DecidableEq, Repr

/-- `Thread_queue_Deadlock_status`. -/
inductive DeadlockStatus where
  | noDeadlock
  | deadlockDetected
deriving DecidableEq, Repr

/-- What a protocol is told of. -/
inductive Event (T : Type u) (M : Type v) where
  | seize (mutex : M) (thread : T)
  | enqueue (mutex : M) (thread : T)
  | surrender (mutex : M) (thread : T) (newOwner : Option T)
  | extract (mutex : M) (thread : T)

/-- A locking protocol: its check on the seize of a free mutex, its answer to a nested
seize and its effects on the priorities. -/
structure Protocol (T : Type u) (M : Type v) (P : Type w) where
  admits : P → M → T → Bool
  nested : P → M → T → Bool
  effect : P → Event T M → P

/-- The mutexes and the wait data of the threads. -/
structure System (T : Type u) (M : Type v) (P : Type w) where
  owner : M → Option T
  nestLevel : M → Nat
  queue : M → List T
  waitQueue : T → Option M
  returnCode : T → Status
  priorities : P

/-- The operations. The protocol enqueues a thread at a position and chooses the new owner
among the waiting threads. -/
inductive Operation (T : Type u) (M : Type v) where
  | seize (mutex : M) (thread : T) (wait : Bool) (position : Nat)
  | surrender (mutex : M) (thread newOwner : T)
  | timeout (thread : T)

/-- The thread that owns the mutex for which a thread waits. -/
def System.blocker (system : System T M P) (thread : T) : Option T :=
  (system.waitQueue thread).bind system.owner

section Operations

variable [DecidableEq T] [DecidableEq M]

/-- The operation returns to a thread. -/
def System.return (system : System T M P) (thread : T) (status : Status) : System T M P :=
  { system with returnCode := Function.update system.returnCode thread status }

/-- The loop of `_Thread_queue_Path_acquire`, for a number of rounds at most. -/
def System.pathAcquire (system : System T M P) (thread : T) : Nat → M → Option DeadlockStatus
  | 0, _ => none
  | rounds + 1, queue =>
      match system.owner queue with
      | none => some .noDeadlock
      | some owner =>
          if owner = thread then some .deadlockDetected
          else
            match system.waitQueue owner with
            | none => some .noDeadlock
            | some queue => system.pathAcquire thread rounds queue

/-- `_Thread_Wait_claim`. -/
def System.claim (system : System T M P) (mutex : M) (thread : T) : System T M P :=
  { system with waitQueue := Function.update system.waitQueue thread (some mutex) }

/-- `_Thread_Wait_restore_default`. -/
def System.restoreDefault (system : System T M P) (thread : T) : System T M P :=
  { system with waitQueue := Function.update system.waitQueue thread none }

/-- `_Thread_queue_Enqueue` with `_Thread_queue_Deadlock_status`. -/
def System.enqueue [Fintype T] (protocol : Protocol T M P) (system : System T M P) (mutex : M)
    (thread : T) (position : Nat) : Option (System T M P) :=
  let claimed := system.claim mutex thread
  match claimed.pathAcquire thread (Fintype.card T) mutex with
  | none => none
  | some .deadlockDetected => some ((claimed.restoreDefault thread).return thread .deadlock)
  | some .noDeadlock =>
      some ({ claimed with
        queue := Function.update claimed.queue mutex
          ((claimed.queue mutex).take position ++ thread :: (claimed.queue mutex).drop position)
        priorities := protocol.effect claimed.priorities (.enqueue mutex thread) }.return thread
          .successful)

/-- `_CORE_recursive_mutex_Seize` and `_CORE_ceiling_mutex_Seize`. -/
def System.seize [Fintype T] (protocol : Protocol T M P) (system : System T M P) (mutex : M)
    (thread : T) (wait : Bool) (position : Nat) : Option (System T M P) :=
  match system.owner mutex with
  | none =>
      if protocol.admits system.priorities mutex thread then
        some ({ system with
          owner := Function.update system.owner mutex (some thread)
          priorities := protocol.effect system.priorities (.seize mutex thread) }.return thread
            .successful)
      else some (system.return thread .refused)
  | some owner =>
      if owner = thread then
        if protocol.nested system.priorities mutex thread then
          some ({ system with
            nestLevel := Function.update system.nestLevel mutex
              ((system.nestLevel mutex + 1) % 2 ^ 32) }.return thread .successful)
        else some (system.return thread .refused)
      else if wait then system.enqueue protocol mutex thread position
      else some (system.return thread .unavailable)

/-- `_CORE_recursive_mutex_Surrender` and `_CORE_ceiling_mutex_Surrender`, with
`_Thread_queue_Surrender`. -/
def System.surrender (protocol : Protocol T M P) (system : System T M P) (mutex : M)
    (thread newOwner : T) : System T M P :=
  if system.owner mutex ≠ some thread then system.return thread .notOwner
  else if system.nestLevel mutex > 0 then
    { system with
      nestLevel := Function.update system.nestLevel mutex
        (system.nestLevel mutex - 1) }.return thread .successful
  else if system.queue mutex = [] then
    { system with
      owner := Function.update system.owner mutex none
      priorities := protocol.effect system.priorities (.surrender mutex thread none) }.return thread
        .successful
  else
    ({ system with
      owner := Function.update system.owner mutex (some newOwner)
      queue := Function.update system.queue mutex ((system.queue mutex).erase newOwner)
      priorities := protocol.effect system.priorities
        (.surrender mutex thread (some newOwner)) }.restoreDefault newOwner).return thread
          .successful

/-- `_Thread_Continue` with `STATUS_TIMEOUT` for a waiting thread. -/
def System.timeout (protocol : Protocol T M P) (system : System T M P) (thread : T) :
    System T M P :=
  match system.waitQueue thread with
  | none => system
  | some mutex =>
      ({ system with
        queue := Function.update system.queue mutex ((system.queue mutex).erase thread)
        priorities := protocol.effect system.priorities
          (.extract mutex thread) }.restoreDefault thread).return thread .timeout

/-- One operation. -/
def System.step [Fintype T] (protocol : Protocol T M P) (system : System T M P) :
    Operation T M → Option (System T M P)
  | .seize mutex thread wait position => system.seize protocol mutex thread wait position
  | .surrender mutex thread newOwner => some (system.surrender protocol mutex thread newOwner)
  | .timeout thread => some (system.timeout protocol thread)

end Operations

/-- A waiting thread calls nothing, and a new owner is one of the waiting threads. -/
def Permitted (system : System T M P) : Operation T M → Prop
  | .seize _ thread _ _ => system.waitQueue thread = none
  | .surrender mutex thread newOwner => system.waitQueue thread = none ∧
      (system.queue mutex ≠ [] → newOwner ∈ system.queue mutex)
  | .timeout thread => system.waitQueue thread ≠ none

/-- All mutexes are free and no thread waits. -/
structure Initial (system : System T M P) : Prop where
  owner : ∀ mutex, system.owner mutex = none
  nestLevel : ∀ mutex, system.nestLevel mutex = 0
  queue : ∀ mutex, system.queue mutex = []
  waitQueue : ∀ thread, system.waitQueue thread = none

/-- The invariant of a run. -/
structure Sound (system : System T M P) : Prop where
  acyclic : Acyclic system.blocker
  queued : ∀ mutex thread, thread ∈ system.queue mutex ↔ system.waitQueue thread = some mutex
  once : ∀ mutex, (system.queue mutex).Nodup
  owned : ∀ mutex, system.queue mutex ≠ [] → ∃ owner, system.owner mutex = some owner

theorem Initial.sound {sys : System T M P} (initial : Initial sys) : Sound sys := by
  refine ⟨?_, ?_, ?_, ?_⟩
  · intro thread
    exact not_leads (by simp [System.blocker, initial.waitQueue])
  · simp [initial.queue, initial.waitQueue]
  · simp [initial.queue]
  · simp [initial.queue]

section Path

variable [DecidableEq T]

/-- The loop follows the blockers of the owner of the queue. -/
theorem pathAcquire_spec (sys : System T M P) (thread : T) (height : T → Nat) (decreases : ∀ one
      another, one ≠ thread → sys.blocker one = some another → height another < height one)
      (owned : ∀ one mutex, one ≠ thread → sys.waitQueue one = some mutex → ∃ owner, sys.owner
      mutex = some owner) (rounds : Nat) (queue : M) (positive : 0 < rounds)
    (enough : ∀ owner, sys.owner queue = some owner → height owner < rounds) :
    ∃ status, sys.pathAcquire thread rounds queue = some status ∧
      (status = .deadlockDetected ↔ ∃ owner, sys.owner queue = some owner ∧
        (owner = thread ∨ Leads sys.blocker owner thread)) := by
  induction rounds generalizing queue with
  | zero => omega
  | succ rounds ih =>
    unfold System.pathAcquire
    cases found : sys.owner queue with
    | none => exact ⟨.noDeadlock, rfl, by simp⟩
    | some owner =>
      simp only
      by_cases same : owner = thread
      · rw [if_pos same]
        exact ⟨.deadlockDetected, rfl, by simp [same]⟩
      rw [if_neg same]
      cases waits : sys.waitQueue owner with
      | none =>
        have stop : sys.blocker owner = none := by simp [System.blocker, waits]
        exact ⟨.noDeadlock, rfl, by simp [same, not_leads stop]⟩
      | some following =>
        have edge : ∀ another, sys.owner following = some another →
            sys.blocker owner = some another := by
          intro another owns
          simp [System.blocker, waits, owns]
        obtain ⟨another, owns⟩ := owned owner following same waits
        have bound := enough owner found
        have lower := decreases owner another same (edge another owns)
        obtain ⟨status, res, meaning⟩ := ih following (by omega) (fun tested there => by
            obtain rfl : another = tested := Option.some.inj (owns.symm.trans there)
            omega)
        refine ⟨status, res, meaning.trans ?_⟩
        simp only [Option.some.injEq, exists_eq_left', same, false_or]
        rw [leads_iff]
        constructor
        · rintro ⟨another, owns, rest⟩
          exact ⟨another, edge another owns, rest⟩
        · rintro ⟨another, blocks, rest⟩
          refine ⟨another, ?_, rest⟩
          simpa [System.blocker, waits] using blocks

/-- A thread that does not wait, with a claim on a mutex. -/
theorem claim_blocker [DecidableEq M] (sys : System T M P) (mutex : M) (thread : T) :
    (sys.claim mutex thread).blocker = update sys.blocker thread (sys.owner mutex) := by
  funext tested
  by_cases same : tested = thread
  · simp [System.blocker, System.claim, same]
  · simp [System.blocker, System.claim, same]

end Path

namespace Sound

variable {sys : System T M P}

/-- A waiting thread is blocked by the owner of its mutex. -/
theorem blocked (sound : Sound sys) {thread : T} {mutex : M}
    (waits : sys.waitQueue thread = some mutex) : ∃ owner, sys.owner mutex = some owner :=
  sound.owned mutex (List.ne_nil_of_mem ((sound.queued mutex thread).mpr waits))

/-- The order of the waiting threads is no part of the invariant. -/
theorem congr {Q : Type*} {other : System T M Q} (sound : Sound sys)
    (owner : other.owner = sys.owner) (waitQueue : other.waitQueue = sys.waitQueue)
    (queue : ∀ mutex, (other.queue mutex).Perm (sys.queue mutex)) : Sound other := by
  have blocker : other.blocker = sys.blocker := by
    funext thread
    rw [System.blocker, System.blocker, owner, waitQueue]
  refine ⟨blocker ▸ sound.acyclic, ?_, ?_, ?_⟩
  · intro mutex thread
    rw [(queue mutex).mem_iff, waitQueue]
    exact sound.queued mutex thread
  · intro mutex
    exact (queue mutex).nodup_iff.mpr (sound.once mutex)
  · intro mutex filled
    rw [owner]
    refine sound.owned mutex fun empty => filled ?_
    rw [← List.perm_nil, ← empty]
    exact queue mutex

variable [DecidableEq T] [DecidableEq M]

/-- The path of a claim ends, and it comes back to the thread exactly if the claim closes a
cycle. -/
theorem path [Fintype T] (sound : Sound sys) (mutex : M) (thread : T)
    (idle : sys.waitQueue thread = none) :
    ∃ status, (sys.claim mutex thread).pathAcquire thread (Fintype.card T) mutex = some status ∧
      (status = .deadlockDetected ↔ ¬Acyclic (sys.claim mutex thread).blocker) := by
  have stop : sys.blocker thread = none := by simp [System.blocker, idle]
  obtain ⟨height, below, decreases⟩ := sound.acyclic.height
  have others : ∀ one another, one ≠ thread → (sys.claim mutex thread).blocker one = some another →
        sys.blocker one = some another := by
    intro one another ne edge
    rwa [claim_blocker, update_of_ne ne] at edge
  obtain ⟨status, res, meaning⟩ := pathAcquire_spec (sys.claim mutex thread) thread height
    (fun one another ne edge => decreases one another (others one another ne edge))
    (fun one tested ne waits => sound.blocked (by simpa [System.claim, ne] using waits))
    (Fintype.card T) mutex (Fintype.card_pos_iff.mpr ⟨thread⟩) (fun owner _ => below owner)
  refine ⟨status, res, meaning.trans ?_⟩
  -- Walks that do not start with the claim are the same with and without it.
  have walks : ∀ owner, owner = thread ∨ Leads (sys.claim mutex thread).blocker owner thread ↔
      owner = thread ∨ Leads sys.blocker owner thread := by
    intro owner
    rw [claim_blocker]
    exact leads_update_iff thread (sys.owner mutex) owner
  simp only [walks]
  rw [claim_blocker]
  cases owns : sys.owner mutex with
  | none =>
    have same : update sys.blocker thread none = sys.blocker := by rw [← stop, update_eq_self]
    have free : (sys.claim mutex thread).owner mutex = none := owns
    simp [free, same, sound.acyclic]
  | some owner =>
    have held : (sys.claim mutex thread).owner mutex = some owner := owns
    rw [acyclic_update sound.acyclic thread owner stop]
    simp only [held, Option.some.injEq, exists_eq_left', not_and_or, not_not]

/-- What `_Thread_queue_Enqueue` does: it restores the wait data if the claim closes a cycle,
else the thread waits. -/
theorem enqueue_cases [Fintype T] (protocol : Protocol T M P) (sound : Sound sys) (mutex : M)
    (thread : T) (pos : Nat) (idle : sys.waitQueue thread = none) :
    (¬Acyclic (sys.claim mutex thread).blocker ∧
      sys.enqueue protocol mutex thread pos = some (sys.return thread .deadlock)) ∨
    (Acyclic (sys.claim mutex thread).blocker ∧ sys.enqueue protocol mutex thread pos = some (
        { sys.claim mutex thread with
          queue := update sys.queue mutex
            ((sys.queue mutex).take pos ++ thread :: (sys.queue mutex).drop pos)
          priorities := protocol.effect sys.priorities (.enqueue mutex thread) }.return thread
            .successful)) := by
  obtain ⟨status, res, meaning⟩ := sound.path mutex thread idle
  cases status with
  | deadlockDetected =>
    refine .inl ⟨meaning.mp rfl, ?_⟩
    have restored : (sys.claim mutex thread).restoreDefault thread = sys := by
      have same : update sys.waitQueue thread none = sys.waitQueue := by
        rw [← idle, update_eq_self]
      simp [System.claim, System.restoreDefault, same]
    simp only [System.enqueue, res, restored]
  | noDeadlock =>
    refine .inr ⟨?_, ?_⟩
    · by_contra cyclic
      exact absurd (meaning.mpr cyclic) (by simp)
    · simp only [System.enqueue, res]
      rfl

omit [DecidableEq M] in
/-- A status is no part of the invariant. -/
theorem answer (sound : Sound sys) (thread : T) (status : Status) :
    Sound (sys.return thread status) :=
  { sound with }

/-- A thread that waits for an owned mutex without a cycle. -/
theorem wait (sound : Sound sys) (mutex : M) (thread owner : T) (pos : Nat)
    (priorities : P) (idle : sys.waitQueue thread = none)
    (owns : sys.owner mutex = some owner)
    (acyclic : Acyclic (sys.claim mutex thread).blocker) :
    Sound { sys.claim mutex thread with
      queue := update sys.queue mutex
        ((sys.queue mutex).take pos ++ thread :: (sys.queue mutex).drop pos)
      priorities := priorities } := by
  have outside : ∀ tested, thread ∉ sys.queue tested := by
    intro tested inside
    rw [sound.queued, idle] at inside
    cases inside
  have shuffled : ((sys.queue mutex).take pos ++
      thread :: (sys.queue mutex).drop pos).Perm (thread :: sys.queue mutex) := by
    have middle : ((sys.queue mutex).take pos ++ thread :: (sys.queue mutex).drop pos).Perm
          (thread :: ((sys.queue mutex).take pos ++ (sys.queue mutex).drop pos)) :=
      List.perm_middle
    rwa [List.take_append_drop] at middle
  refine ⟨acyclic, ?_, ?_, ?_⟩
  · intro tested waiting
    show waiting ∈ update sys.queue mutex _ tested ↔
      update sys.waitQueue thread (some mutex) waiting = some tested
    by_cases here : tested = mutex
    · subst here
      rw [update_self, shuffled.mem_iff, List.mem_cons]
      by_cases same : waiting = thread
      · simp [same]
      · simp [same, sound.queued]
    · rw [update_of_ne here]
      by_cases same : waiting = thread
      · subst same
        simp [outside tested, Ne.symm here]
      · simp [same, sound.queued]
  · intro tested
    show (update sys.queue mutex _ tested).Nodup
    by_cases here : tested = mutex
    · subst here
      rw [update_self, shuffled.nodup_iff, List.nodup_cons]
      exact ⟨outside tested, sound.once tested⟩
    · rw [update_of_ne here]
      exact sound.once tested
  · intro tested
    show update sys.queue mutex _ tested ≠ [] → _
    by_cases here : tested = mutex
    · subst here
      exact fun _ => ⟨owner, owns⟩
    · rw [update_of_ne here]
      exact sound.owned tested

/-- A thread leaves the queue of a mutex, whose owner changes if it does not wait
then. -/
theorem leave (sound : Sound sys) (mutex : M) (thread : T) (priorities : P)
    (owner : Option T) (waits : sys.waitQueue thread = some mutex)
    (next : owner = some thread ∨ owner = sys.owner mutex) :
    Sound ({ sys with
      owner := update sys.owner mutex owner
      queue := update sys.queue mutex ((sys.queue mutex).erase thread)
      priorities := priorities }.restoreDefault thread) := by
  refine ⟨?_, ?_, ?_, ?_⟩
  · refine sound.acyclic.of_stops ?_
    intro one another edge
    have ne : one ≠ thread := by
      rintro rfl
      simp [System.blocker, System.restoreDefault] at edge
    simp only [System.blocker, System.restoreDefault, update_of_ne ne,
      Option.bind_eq_some_iff] at edge
    obtain ⟨tested, waiting, owns⟩ := edge
    by_cases here : tested = mutex
    · subst here
      rw [update_self] at owns
      rcases next with rfl | rfl
      · cases owns
        exact .inr (by simp [System.blocker, System.restoreDefault])
      · exact .inl (by simp [System.blocker, waiting, owns])
    · rw [update_of_ne here] at owns
      exact .inl (by simp [System.blocker, waiting, owns])
  · intro tested waiting
    show waiting ∈ update sys.queue mutex _ tested ↔
      update sys.waitQueue thread none waiting = some tested
    by_cases here : tested = mutex
    · subst here
      rw [update_self, (sound.once tested).mem_erase_iff]
      by_cases same : waiting = thread
      · simp [same]
      · simp [same, sound.queued]
    · rw [update_of_ne here]
      by_cases same : waiting = thread
      · subst same
        simp [sound.queued, waits, Ne.symm here]
      · simp [same, sound.queued]
  · intro tested
    show (update sys.queue mutex _ tested).Nodup
    by_cases here : tested = mutex
    · subst here
      rw [update_self]
      exact (sound.once tested).erase thread
    · rw [update_of_ne here]
      exact sound.once tested
  · intro tested
    show update sys.queue mutex _ tested ≠ [] →
      ∃ found, update sys.owner mutex owner tested = some found
    by_cases here : tested = mutex
    · subst here
      intro _
      rcases next with rfl | rfl
      · exact ⟨thread, update_self ..⟩
      · simpa using sound.blocked waits
    · rw [update_of_ne here, update_of_ne here]
      exact sound.owned tested

omit [DecidableEq T] in
/-- A mutex without waiting threads gets another owner. -/
theorem own (sound : Sound sys) (mutex : M) (owner : Option T) (priorities : P)
    (empty : sys.queue mutex = []) :
    Sound { sys with
      owner := update sys.owner mutex owner
      priorities := priorities } := by
  have unseen : ∀ thread, sys.waitQueue thread ≠ some mutex := by
    intro thread waits
    rw [← sound.queued, empty] at waits
    cases waits
  refine ⟨?_, sound.queued, sound.once, ?_⟩
  · refine sound.acyclic.of_stops ?_
    intro one another edge
    simp only [System.blocker, Option.bind_eq_some_iff] at edge
    obtain ⟨tested, waiting, owns⟩ := edge
    have elsewhere : tested ≠ mutex := by
      rintro rfl
      exact unseen one waiting
    rw [update_of_ne elsewhere] at owns
    exact .inl (by simp [System.blocker, waiting, owns])
  · intro tested filled
    have elsewhere : tested ≠ mutex := by
      rintro rfl
      exact filled empty
    show ∃ found, update sys.owner mutex owner tested = some found
    rw [update_of_ne elsewhere]
    exact sound.owned tested filled

/-- `_CORE_recursive_mutex_Seize` completes and keeps the invariant. -/
theorem seize [Fintype T] (protocol : Protocol T M P) (sound : Sound sys) (mutex : M)
    (thread : T) (wait : Bool) (pos : Nat) (idle : sys.waitQueue thread = none) :
    ∃ after, sys.seize protocol mutex thread wait pos = some after ∧ Sound after := by
  unfold System.seize
  cases owns : sys.owner mutex with
  | none =>
    simp only
    split
    · refine ⟨_, rfl, Sound.answer ?_ thread .successful⟩
      apply sound.own mutex (some thread)
      by_contra filled
      obtain ⟨owner, held⟩ := sound.owned mutex filled
      rw [owns] at held
      cases held
    · exact ⟨_, rfl, sound.answer thread .refused⟩
  | some owner =>
    simp only
    split
    · split
      · exact ⟨_, rfl, sound.acyclic, sound.queued, sound.once, sound.owned⟩
      · exact ⟨_, rfl, sound.answer thread .refused⟩
    · split
      · rcases sound.enqueue_cases protocol mutex thread pos idle with
          ⟨-, res⟩ | ⟨acyclic, res⟩
        · exact ⟨_, res, sound.answer thread .deadlock⟩
        · exact ⟨_, res, (sound.wait mutex thread owner pos _ idle owns acyclic).answer
            thread .successful⟩
      · exact ⟨_, rfl, sound.answer thread .unavailable⟩

/-- `_CORE_recursive_mutex_Surrender` keeps the invariant. -/
theorem surrender (protocol : Protocol T M P) (sound : Sound sys) (mutex : M)
    (thread newOwner : T) (chosen : sys.queue mutex ≠ [] → newOwner ∈ sys.queue mutex) :
    Sound (sys.surrender protocol mutex thread newOwner) := by
  unfold System.surrender
  split
  · exact sound.answer thread .notOwner
  split
  · exact { sound with }
  split
  next empty => exact (sound.own mutex none _ empty).answer thread .successful
  next filled =>
    have waits := (sound.queued mutex newOwner).mp (chosen filled)
    exact (sound.leave mutex newOwner _ (some newOwner) waits (.inl rfl)).answer thread .successful

/-- A timeout keeps the invariant. -/
theorem timeout (protocol : Protocol T M P) (sound : Sound sys) (thread : T) :
    Sound (sys.timeout protocol thread) := by
  unfold System.timeout
  cases waits : sys.waitQueue thread with
  | none => exact sound
  | some mutex =>
    have left := sound.leave mutex thread
      (protocol.effect sys.priorities (.extract mutex thread)) (sys.owner mutex) waits
      (.inr rfl)
    rw [update_eq_self] at left
    exact left.answer thread .timeout

/-- One operation completes and keeps the invariant. -/
theorem step [Fintype T] (protocol : Protocol T M P) (sound : Sound sys)
    (op : Operation T M) (permitted : Permitted sys op) :
    ∃ after, sys.step protocol op = some after ∧ Sound after := by
  cases op with
  | seize mutex thread wait pos =>
    exact sound.seize protocol mutex thread wait pos permitted
  | surrender mutex thread newOwner =>
    exact ⟨_, rfl, sound.surrender protocol mutex thread newOwner permitted.2⟩
  | timeout thread => exact ⟨_, rfl, sound.timeout protocol thread⟩

end Sound

/-- Along every run no thread waits for itself through a chain of owners. The loop of
`_Thread_queue_Path_acquire` ends, and it reports a deadlock exactly if the claim of the
thread closes a cycle; in this case `_Thread_queue_Enqueue` changes nothing but the return
code. Every operation completes. -/
theorem runs_detect_deadlocks [Fintype T] [DecidableEq T] [DecidableEq M]
    (protocol : Protocol T M P) (past : List (System T M P)) (system : System T M P)
    (run : Trace Initial Permitted (System.step protocol) past system) :
    Acyclic system.blocker ∧
    (∀ mutex thread, system.waitQueue thread = none →
      ∃ status,
        (system.claim mutex thread).pathAcquire thread (Fintype.card T) mutex = some status ∧
        (status = .deadlockDetected ↔ ¬Acyclic (system.claim mutex thread).blocker)) ∧
    (∀ mutex thread position, system.waitQueue thread = none →
      ¬Acyclic (system.claim mutex thread).blocker →
      system.enqueue protocol mutex thread position =
        some { system with returnCode := Function.update system.returnCode thread .deadlock }) ∧
    ∀ operation, Permitted system operation →
      ∃ after, system.step protocol operation = some after := by
  have sound : Sound system := by
    refine run.invariant Sound (fun _ initial => initial.sound) ?_
    intro state operation next sound permitted taken
    obtain ⟨after, result, kept⟩ := sound.step protocol operation permitted
    cases taken.symm.trans result
    exact kept
  refine ⟨sound.acyclic, sound.path, ?_, ?_⟩
  · intro mutex thread position idle cyclic
    rcases sound.enqueue_cases protocol mutex thread position idle with
      ⟨-, result⟩ | ⟨acyclic, -⟩
    · exact result
    · exact absurd acyclic cyclic
  · intro operation permitted
    obtain ⟨after, result, -⟩ := sound.step protocol operation permitted
    exact ⟨after, result⟩

/-- A protocol without priorities. -/
def plain : Protocol (Fin 3) (Fin 3) Unit where
  admits := fun _ _ _ => true
  nested := fun _ _ _ => true
  effect := fun _ _ => ()

/-- Three threads and three free mutexes. -/
def start : System (Fin 3) (Fin 3) Unit where
  owner := fun _ => none
  nestLevel := fun _ => 0
  queue := fun _ => []
  waitQueue := fun _ => none
  returnCode := fun _ => .successful
  priorities := ()

theorem start_initial : Initial start := ⟨fun _ => rfl, fun _ => rfl, fun _ => rfl, fun _ => rfl⟩

instance (system : System (Fin 3) (Fin 3) Unit) (operation : Operation (Fin 3) (Fin 3)) :
    Decidable (Permitted system operation) :=
  match operation with
  | .seize _ thread _ _ => inferInstanceAs (Decidable (system.waitQueue thread = none))
  | .surrender mutex thread newOwner => inferInstanceAs (Decidable (system.waitQueue thread = none ∧
      (system.queue mutex ≠ [] → newOwner ∈ system.queue mutex)))
  | .timeout thread => inferInstanceAs (Decidable (system.waitQueue thread ≠ none))

/-- Three threads each own a mutex and wait for the next one: the last seize would close
the ring of owners and returns with a status. -/
theorem runs_detect_deadlocks_ring :
    ∃ (past : List (System (Fin 3) (Fin 3) Unit)) (system : System (Fin 3) (Fin 3) Unit),
      Trace Initial Permitted (System.step plain) past system ∧
      system.returnCode 2 = .deadlock ∧ system.waitQueue 0 = some 1 ∧
      system.waitQueue 1 = some 2 ∧ system.waitQueue 2 = none ∧ Acyclic system.blocker := by
  obtain ⟨past, system, run, seen⟩ := Trace.observe Permitted (System.step plain) start
    start_initial
    [.seize 0 0 true 0, .seize 1 1 true 0, .seize 2 2 true 0, .seize 1 0 true 0,
      .seize 2 1 true 0, .seize 0 2 true 0]
    (fun system => (system.returnCode 2, system.waitQueue 0, system.waitQueue 1,
      system.waitQueue 2))
    (.deadlock, some 1, some 2, none) (by decide +kernel) (by decide +kernel)
  simp only [Prod.mk.injEq] at seen
  obtain ⟨code, first, second, third⟩ := seen
  exact ⟨past, system, run, code, first, second, third,
    (runs_detect_deadlocks plain past system run).1⟩

end Rtems.ThreadQueue.Deadlock
