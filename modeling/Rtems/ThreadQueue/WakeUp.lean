import Mathlib.Data.List.Nodup
import Rtems.Library.Transition
import Rtems.Thread.Wait

/-!
# Wake-ups on thread queues

One thread blocks on a thread queue, step by step, while other threads come and go on the
same queue and other parties surrender it, flush it or let the thread time out. Each
locked section is one step; what follows outside the lock are steps of their own. The
system counts how often the thread was extracted since it began to wait and records who
decided its status.
-/

namespace Rtems.ThreadQueue.WakeUp

open Transition Wait
open Option (map_eq_some_iff)

universe u
variable {T : Type u} [DecidableEq T]

/-- The status of a waiting thread. -/
inductive Status where
  | successful
  | unavailable
  | objectWasDeleted
  | timeout
deriving DecidableEq, Repr

/-- The enqueue callouts: no timeout, a timeout, or one whose time has passed already. -/
inductive Callout where
  | none
  | ticks
  | expired
deriving DecidableEq, Repr

/-- Who decided the status: a surrender, a flush, whose filter may set a status, or a
timeout. -/
inductive Party where
  | surrender
  | flush (status : Option Status)
  | timeout
deriving DecidableEq, Repr

/-- The status that a party leaves. -/
def Party.status : Party → Status
  | .surrender => .successful
  | .flush status => status.getD .successful
  | .timeout => .timeout

/-- The waiting thread, the queue and the record of the current wait. -/
structure System (T : Type u) where
  control : Control
  queue : List T
  returnCode : Status
  callout : Callout
  waits : Nat
  extractions : Nat
  deciders : List Party

/-- The steps of the thread, of other threads on the queue and of other parties. A thread
is enqueued at a position that its queue discipline chooses; a flush ends when its filter
stops it or the queue is empty. -/
inductive Operation (T : Type u) where
  | enqueue (position : Nat) (callout : Callout)
  | advance
  | enter (thread : T) (position : Nat)
  | leave (thread : T)
  | surrender
  | flush (count : Nat) (status : Option Status)
  | expire
  | timeout
  | removeTimer
  | unblock
deriving DecidableEq

/-- A queue with a thread at a position. -/
def place (queue : List T) (thread : T) (position : Nat) : List T :=
  queue.take position ++ thread :: queue.drop position

/-- The thread left the queue and a party decides its status. -/
def System.decide (system : System T) (party : Party) (status : Status) (timeout : Bool) :
    System T :=
  { system with
    control := system.control.settle timeout
    returnCode := status
    extractions := system.extractions + 1
    deciders := party :: system.deciders }

/-- The locked section of `_Thread_queue_Enqueue`. -/
def System.enqueue (system : System T) (waiter : T) (position : Nat) (callout : Callout) :
    Option (System T) :=
  if system.control.phase ≠ .running then none
  else
    some { system with
      control := system.control.begin
      queue := place system.queue waiter position
      returnCode := .successful
      callout := callout
      waits := system.waits + 1
      extractions := 0
      deciders := [] }

/-- The locked section of `_Thread_Continue` with `STATUS_TIMEOUT`. -/
def System.continue (system : System T) (waiter : T) : System T :=
  if system.control.flags ≠ .ready then
    { system with queue := system.queue.erase waiter }.decide .timeout .timeout true
  else system

/-- The other steps of `_Thread_queue_Enqueue`. A callout whose time has passed calls
`_Thread_Continue` itself. -/
def System.advance (system : System T) (waiter : T) : Option (System T) :=
  let called :=
    if system.control.phase = .callout ∧ system.callout = .expired then system.continue waiter
    else system
  (called.control.advance (system.callout = .ticks)).map fun control =>
    { called with control := control }

/-- The first thread is extracted and `_Thread_queue_Make_ready_again` is called for it. -/
def System.extractFirst (system : System T) (waiter : T) (party : Party) (status : Option Status) :
    System T :=
  match system.queue with
  | [] => system
  | first :: rest =>
      if first = waiter then
        { system with queue := rest }.decide party (status.getD system.returnCode) false
      else { system with queue := rest }

/-- The loop of `_Thread_queue_Flush_critical`. -/
def System.flush (system : System T) (waiter : T) (status : Option Status) : Nat → System T
  | 0 => system
  | count + 1 => (system.extractFirst waiter (.flush status) status).flush waiter status count

/-- `_Thread_Timeout`. -/
def System.timeout (system : System T) (waiter : T) : Option (System T) :=
  if system.control.expirations = 0 then none
  else
    some ({ system with
      control := { system.control with expirations := system.control.expirations - 1 } }.continue
        waiter)

/-- One step. -/
def System.step (waiter : T) (system : System T) : Operation T → Option (System T)
  | .enqueue position callout => system.enqueue waiter position callout
  | .advance => system.advance waiter
  | .enter thread position => some { system with queue := place system.queue thread position }
  | .leave thread => some { system with queue := system.queue.erase thread }
  | .surrender => some (system.extractFirst waiter .surrender none)
  | .flush count status => some (system.flush waiter status count)
  | .expire => system.control.expire.map fun control => { system with control := control }
  | .timeout => system.timeout waiter
  | .removeTimer => system.control.removeTimer.map fun control => { system with control := control }
  | .unblock => system.control.unblock.map fun control => { system with control := control }

/-- The thread waits again only when no expiration of its earlier timer is under way, and
the other threads are others. -/
def Permitted (waiter : T) (system : System T) : Operation T → Prop
  | .enqueue _ _ => system.control.expirations = 0
  | .enter thread _ => thread ≠ waiter ∧ thread ∉ system.queue
  | .leave thread => thread ≠ waiter
  | _ => True

instance (waiter : T) (system : System T) (operation : Operation T) :
    Decidable (Permitted waiter system operation) :=
  match operation with
  | .enqueue .. => inferInstanceAs (Decidable (_ = _))
  | .enter thread _ => inferInstanceAs (Decidable (thread ≠ waiter ∧ thread ∉ system.queue))
  | .leave thread => inferInstanceAs (Decidable (thread ≠ waiter))
  | .advance | .surrender | .flush .. | .expire | .timeout | .removeTimer | .unblock => .isTrue trivial

/-- The thread runs and has not waited; other threads may wait. -/
structure Initial (waiter : T) (system : System T) : Prop where
  control : system.control = Control.initial
  queue : system.queue.Nodup
  outside : waiter ∉ system.queue
  waits : system.waits = 0

/-- The invariant of a run. -/
structure Sound (waiter : T) (system : System T) : Prop where
  coherent : system.control.Coherent
  timed : system.control.Timed
  once : system.queue.Nodup
  member : waiter ∈ system.queue ↔ system.control.flags ≠ .ready
  waiting : system.control.flags ≠ .ready → system.extractions = 0 ∧ system.deciders = [] ∧
    system.returnCode = .successful
  begun : system.control.phase ≠ .running → system.waits ≠ 0
  settled : system.waits ≠ 0 → system.control.flags = .ready → system.extractions = 1 ∧
    ∃ party, system.deciders = [party] ∧ system.returnCode = party.status
  returned : system.waits ≠ 0 → system.control.phase = .running → system.control.readied = 1

omit [DecidableEq T] in
theorem place_perm (queue : List T) (thread : T) (pos : Nat) :
    (place queue thread pos).Perm (thread :: queue) := by
  unfold place
  refine List.perm_middle.trans ?_
  rw [List.take_append_drop]

omit [DecidableEq T] in
theorem Initial.sound {waiter : T} {sys : System T} (initial : Initial waiter sys) :
    Sound waiter sys := by
  obtain ⟨ctl, queue, outside, waits⟩ := initial
  refine ⟨ctl ▸ Control.Coherent.initial, ctl ▸ Control.Timed.initial, queue, ?_, ?_, ?_, ?_, ?_⟩
  · simp [outside, ctl, Control.initial]
  · simp [ctl, Control.initial]
  · simp [ctl, Control.initial]
  · exact fun begun => absurd waits begun
  · exact fun begun => absurd waits begun

namespace Sound

variable {waiter : T} {sys : System T}

section

omit [DecidableEq T]

/-- A step that decides nothing and does not end the operation. -/
theorem frame (sound : Sound waiter sys) (ctl : Control) (queue : List T)
    (coherent : ctl.Coherent) (timed : ctl.Timed)
    (flags : ctl.flags = .ready ↔ sys.control.flags = .ready)
    (phase : ctl.phase = .running ↔ sys.control.phase = .running)
    (readied : ctl.phase = .running → ctl.readied = sys.control.readied)
    (once : queue.Nodup) (member : waiter ∈ queue ↔ waiter ∈ sys.queue) :
    Sound waiter { sys with control := ctl, queue := queue } := by
  refine ⟨coherent, timed, once, ?_, ?_, ?_, ?_, ?_⟩
  · rw [member, sound.member]
    exact not_congr flags.symm
  · exact fun busy => sound.waiting (mt flags.mpr busy)
  · exact fun busy => sound.begun (mt phase.mpr busy)
  · exact fun begun ready => sound.settled begun (flags.mp ready)
  · intro begun running
    rw [readied running]
    exact sound.returned begun (phase.mp running)

/-- A waiting thread is in its blocking operation. -/
theorem busy_phase (sound : Sound waiter sys) (busy : sys.control.flags ≠ .ready) :
    sys.control.phase ≠ .running :=
  fun running => busy (sound.coherent.running running)

/-- A party that extracted the waiting thread decides its status. -/
theorem decide (sound : Sound waiter sys) (queue : List T) (party : Party) (status : Status)
    (timeout : Bool) (busy : sys.control.flags ≠ .ready) (once : queue.Nodup)
    (gone : waiter ∉ queue) (agrees : status = party.status)
    (expired : timeout = true → sys.control.flags = .blocked → sys.control.timer = false) :
    Sound waiter ({ sys with queue := queue }.decide party status timeout) := by
  have phase := sound.busy_phase busy
  obtain ⟨none, nobody, -⟩ := sound.waiting busy
  refine ⟨sound.coherent.settle timeout, sound.timed.settle timeout expired, once, ?_, ?_, ?_, ?_,
    ?_⟩
  · simp [System.decide, gone]
  · exact fun again => absurd (by simp [System.decide]) again
  · exact fun _ => sound.begun phase
  · refine fun _ _ => ⟨?_, party, ?_, agrees⟩
    · simp [System.decide, none]
    · simp [System.decide, nobody]
  · intro _ running
    simp only [System.decide, Control.settle_phase] at running
    exact absurd running phase

end

theorem continued (sound : Sound waiter sys)
    (expired : sys.control.flags = .blocked → sys.control.timer = false) :
    Sound waiter (sys.continue waiter) := by
  unfold System.continue
  split
  case isTrue busy =>
    refine sound.decide (sys.queue.erase waiter) .timeout .timeout true busy
      (sound.once.erase waiter) ?_ rfl fun _ => expired
    exact fun inside => (sound.once.mem_erase_iff.mp inside).1 rfl
  case isFalse => exact sound

theorem extractFirst (sound : Sound waiter sys) (party : Party) (status : Option Status)
    (agrees : party.status = status.getD .successful) :
    Sound waiter (sys.extractFirst waiter party status) := by
  unfold System.extractFirst
  split
  case h_1 => exact sound
  case h_2 first rest queue =>
    have distinct : first ∉ rest ∧ rest.Nodup := List.nodup_cons.mp (queue ▸ sound.once)
    split
    case isTrue same =>
      subst same
      have busy := sound.member.mp (by simp [queue])
      refine sound.decide rest party _ false busy distinct.2 distinct.1 ?_ (by simp)
      rw [agrees, (sound.waiting busy).2.2]
    case isFalse other =>
      refine sound.frame sys.control rest sound.coherent sound.timed Iff.rfl Iff.rfl
        (fun _ => rfl) distinct.2 ?_
      rw [queue, List.mem_cons]
      exact ⟨.inr, fun inside => inside.resolve_left (Ne.symm other)⟩

theorem flush (count : Nat) (status : Option Status) (sound : Sound waiter sys) :
    Sound waiter (sys.flush waiter status count) := by
  induction count generalizing sys with
  | zero => exact sound
  | succ count ih =>
    exact ih (sound.extractFirst (.flush status) status rfl)

omit [DecidableEq T] in
theorem enqueue (sound : Sound waiter sys) (pos : Nat) (callout : Callout)
    (none : sys.control.expirations = 0) (next : System T)
    (taken : sys.enqueue waiter pos callout = some next) : Sound waiter next := by
  unfold System.enqueue at taken
  split at taken
  · cases taken
  rename_i phase
  have running : sys.control.phase = .running := not_not.mp phase
  have ready := sound.coherent.running running
  have outside : waiter ∉ sys.queue := fun inside => sound.member.mp inside ready
  cases taken
  have placed := place_perm sys.queue waiter pos
  refine ⟨sound.coherent.begin running, sound.timed.begin running none,
    placed.nodup_iff.mpr (List.nodup_cons.mpr ⟨outside, sound.once⟩), ?_,
    fun _ => ⟨rfl, rfl, rfl⟩, fun _ => Nat.succ_ne_zero _, ?_, ?_⟩
  · rw [placed.mem_iff]
    simp [Control.begin]
  · intro _ settled
    simp [Control.begin] at settled
  · intro _ again
    simp [Control.begin] at again

/-- The steps after the locked section of the enqueue. -/
theorem advance (sound : Sound waiter sys) (next : System T)
    (taken : sys.advance waiter = some next) : Sound waiter next := by
  obtain ⟨ctl, stepped, rfl⟩ := map_eq_some_iff.mp taken
  have called : Sound waiter (if sys.control.phase = .callout ∧ sys.callout = .expired then
      sys.continue waiter else sys) := by
    split
    · rename_i early
      refine sound.continued fun blocked => ?_
      exact (sound.timed.fresh early.1).1
    · exact sound
  obtain ⟨phase, flags⟩ := Control.advance_flags stepped
  obtain ⟨coherent, done⟩ := called.coherent.advance _ stepped
  have timed := called.timed.advance called.coherent _ stepped
  refine ⟨coherent, timed, called.once, ?_, ?_, fun _ => called.begun phase, ?_, ?_⟩
  · rw [called.member]
    exact not_congr flags.symm
  · exact fun busy => called.waiting (mt flags.mpr busy)
  · exact fun begun ready => called.settled begun (flags.mp ready)
  · exact fun _ running => (done running).2

theorem timeout (sound : Sound waiter sys) (next : System T)
    (taken : sys.timeout waiter = some next) : Sound waiter next := by
  unfold System.timeout at taken
  split at taken
  · cases taken
  rename_i some
  cases taken
  have called : Sound waiter { sys with
      control := { sys.control with expirations := sys.control.expirations - 1 } } :=
    sound.frame _ sys.queue sound.coherent sound.timed.call Iff.rfl Iff.rfl (fun _ => rfl)
      sound.once Iff.rfl
  exact called.continued fun _ => sound.timed.once some

theorem step (sound : Sound waiter sys) (op : Operation T)
    (permitted : Permitted waiter sys op) (next : System T)
    (taken : sys.step waiter op = some next) : Sound waiter next := by
  cases op with
  | enqueue pos callout => exact sound.enqueue pos callout permitted next taken
  | advance => exact sound.advance next taken
  | enter thread pos =>
    cases taken
    obtain ⟨other, outside⟩ := permitted
    have placed := place_perm sys.queue thread pos
    refine sound.frame sys.control _ sound.coherent sound.timed Iff.rfl Iff.rfl (fun _ => rfl)
      (placed.nodup_iff.mpr (List.nodup_cons.mpr ⟨outside, sound.once⟩)) ?_
    rw [placed.mem_iff, List.mem_cons]
    exact ⟨fun inside => inside.resolve_left (Ne.symm other), .inr⟩
  | leave thread =>
    cases taken
    refine sound.frame sys.control _ sound.coherent sound.timed Iff.rfl Iff.rfl (fun _ => rfl)
      (sound.once.erase thread) ?_
    exact List.mem_erase_of_ne (Ne.symm permitted)
  | surrender =>
    cases taken
    exact sound.extractFirst .surrender none rfl
  | flush count status =>
    cases taken
    exact sound.flush count status
  | expire =>
    obtain ⟨ctl, stepped, rfl⟩ := map_eq_some_iff.mp taken
    obtain ⟨phase, flags⟩ := Control.expire_frame stepped
    refine sound.frame ctl sys.queue (sound.coherent.expire stepped)
      (sound.timed.expire stepped) (by rw [flags]) (by rw [phase]) ?_ sound.once Iff.rfl
    exact fun _ => Control.expire_readied stepped
  | timeout => exact sound.timeout next taken
  | removeTimer =>
    obtain ⟨ctl, stepped, rfl⟩ := map_eq_some_iff.mp taken
    obtain ⟨phase, flags⟩ := Control.removeTimer_frame stepped
    refine sound.frame ctl sys.queue (sound.coherent.removeTimer stepped)
      (sound.timed.removeTimer stepped) (by rw [flags]) (by rw [phase]) ?_ sound.once Iff.rfl
    intro running
    rw [phase, (sound.coherent.asleep (Control.removeTimer_party stepped)).1] at running
    cases running
  | unblock =>
    obtain ⟨ctl, stepped, rfl⟩ := map_eq_some_iff.mp taken
    obtain ⟨phase, flags⟩ := Control.unblock_frame stepped
    refine sound.frame ctl sys.queue (sound.coherent.unblock stepped)
      (sound.timed.unblock stepped) (by rw [flags]) (by rw [phase]) ?_ sound.once Iff.rfl
    intro running
    rw [phase, (sound.coherent.asleep (Control.unblock_party stepped)).1] at running
    cases running

section

variable (sound : Sound waiter sys) (ready : sys.control.flags = .ready)
  (phase : sys.control.phase ≠ .running)
include sound ready phase

/-- A decided operation does not get stuck. -/
theorem progress :
    ∃ op ∈ [Operation.advance, .removeTimer, .unblock], (sys.step waiter op).isSome := by
  have identity : (if sys.control.phase = .callout ∧ sys.callout = .expired then
      sys.continue waiter else sys) = sys := by
    split
    · exact if_neg (not_not_intro ready)
    · rfl
  obtain own | removes | unblocks := sound.coherent.progress ready phase (sys.callout = .ticks)
  · refine ⟨.advance, by simp, ?_⟩
    simpa [System.step, System.advance, identity] using own
  · exact ⟨.removeTimer, by simp, by simpa [System.step] using removes⟩
  · exact ⟨.unblock, by simp, by simpa [System.step] using unblocks⟩

end

end Sound

/-- A thread that runs, with two other threads on the queue. -/
def start : System (Fin 4) where
  control := Control.initial
  queue := [1, 2]
  returnCode := .successful
  callout := .none
  waits := 0
  extractions := 0
  deciders := []

theorem start_initial : Initial 0 start := ⟨rfl, by decide, by decide, rfl⟩

end Rtems.ThreadQueue.WakeUp
