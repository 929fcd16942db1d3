import Mathlib.Data.BitVec
import Rtems.Library.Transition
import Rtems.Thread.Wait

/-!
# Events

A thread has two sets of pending events, one for each wait class. A receive takes the
events of its condition from the pending ones or blocks, and a send posts events and
takes them again on behalf of a receiver whose condition they satisfy. The journal records
which events were posted and which left a pending set, the latest first, and the receipts
what the receive calls returned, with the events that left the pending set for them.
-/

namespace Rtems.Event

open Transition Wait
open Function (update update_of_ne update_self)

/-- `THREAD_WAIT_CLASS_EVENT` and `THREAD_WAIT_CLASS_SYSTEM_EVENT`. -/
inductive WaitClass where
  | event
  | systemEvent
deriving DecidableEq, Repr

/-- `rtems_event_set`. -/
abbrev EventSet := BitVec 32

/-- The bits of `rtems_option` that a receive looks at. -/
structure OptionSet where
  any : Bool
  noWait : Bool
deriving DecidableEq, Repr

/-- The results of a receive. -/
inductive Status where
  | successful
  | unsatisfied
  | timeout
deriving DecidableEq, Repr

/-- Events that were posted to a pending set or taken from it. -/
inductive Entry where
  | post (waitClass : WaitClass) (events : EventSet)
  | take (waitClass : WaitClass) (events : EventSet)
deriving DecidableEq, Repr

/-- A receive call that returned: its condition, its result and the events that were
taken from the pending set for it. -/
structure Receipt where
  waitClass : WaitClass
  eventIn : EventSet
  any : Bool
  status : Status
  eventOut : EventSet
  taken : EventSet
deriving DecidableEq, Repr

/-- The receiver: its blocking operation, its pending events and its wait data. -/
structure System where
  control : Control
  pendingEvents : WaitClass → EventSet
  waitClass : WaitClass
  returnCode : Status
  option : OptionSet
  count : EventSet
  eventOut : EventSet
  ticks : Bool
  taken : EventSet
  journal : List Entry
  receipts : List Receipt

/-- The steps of the receiver and of other parties. -/
inductive Operation where
  | receive (waitClass : WaitClass) (eventIn : EventSet) (option : OptionSet) (ticks : Bool)
  | advance
  | send (waitClass : WaitClass) (eventIn : EventSet)
  | expire
  | timeout
  | removeTimer
  | unblock
deriving DecidableEq, Repr

/-- `_Event_sets_Get`. -/
def get (events condition : EventSet) : EventSet := events &&& condition

/-- `_Event_sets_Clear`. -/
def clear (events mask : EventSet) : EventSet := events &&& ~~~mask

/-- The test of `_Event_Seize` and `_Event_Is_satisfied` on the seized events. -/
def Satisfied (any : Bool) (condition seized : EventSet) : Prop :=
  seized ≠ 0 ∧ (seized = condition ∨ any = true)
deriving Decidable

/-- The receive call returns. -/
def System.return (system : System) (receipt : Receipt) : System :=
  { system with receipts := receipt :: system.receipts }

/-- The pending set of a class loses events. -/
def System.satisfy (system : System) (waitClass : WaitClass) (seized : EventSet) : System :=
  let remaining := clear (system.pendingEvents waitClass) seized
  let lost := clear (system.pendingEvents waitClass) remaining
  { system with
    pendingEvents := Function.update system.pendingEvents waitClass remaining
    taken := lost
    journal := .take waitClass lost :: system.journal }

/-- The locked section of `_Event_Seize`. -/
def System.receive (system : System) (waitClass : WaitClass) (eventIn : EventSet)
    (option : OptionSet) (ticks : Bool) : Option System :=
  if system.control.phase ≠ .running then none
  else
    let seized := get (system.pendingEvents waitClass) eventIn
    if Satisfied option.any eventIn seized then
      let satisfied := system.satisfy waitClass seized
      some (satisfied.return ⟨waitClass, eventIn, option.any, .successful, seized, satisfied.taken⟩)
    else if option.noWait then
      some (system.return ⟨waitClass, eventIn, option.any, .unsatisfied, seized, 0⟩)
    else
      some { system with
        control := system.control.begin
        waitClass := waitClass
        returnCode := .successful
        option := option
        count := eventIn
        ticks := ticks
        taken := 0 }

/-- The other steps of `_Event_Seize`. -/
def System.advance (system : System) : Option System :=
  (system.control.advance system.ticks).map fun control =>
    if control.phase = .running then
      { system with control := control }.return
        ⟨system.waitClass, system.count, system.option.any, system.returnCode, system.eventOut,
          system.taken⟩
    else { system with control := control }

/-- The locked section of `_Event_Surrender`. -/
def System.send (system : System) (waitClass : WaitClass) (eventIn : EventSet) : System :=
  let posted := { system with
    pendingEvents := Function.update system.pendingEvents waitClass
      (system.pendingEvents waitClass ||| eventIn)
    journal := .post waitClass eventIn :: system.journal }
  let seized := get (posted.pendingEvents waitClass) posted.count
  if (posted.control.flags ≠ .ready ∧ posted.waitClass = waitClass) ∧
      Satisfied posted.option.any posted.count seized then
    { posted.satisfy waitClass seized with
      eventOut := seized
      control := posted.control.settle false }
  else posted

/-- The locked section of `_Thread_Continue` with `STATUS_TIMEOUT`. -/
def System.timeout (system : System) : Option System :=
  if system.control.expirations = 0 then none
  else
    let control := { system.control with expirations := system.control.expirations - 1 }
    if control.flags ≠ .ready then
      some { system with control := control.settle true, returnCode := .timeout }
    else some { system with control := control }

/-- One step. -/
def System.step (system : System) : Operation → Option System
  | .receive waitClass eventIn option ticks => system.receive waitClass eventIn option ticks
  | .advance => system.advance
  | .send waitClass eventIn => some (system.send waitClass eventIn)
  | .expire => system.control.expire.map fun control => { system with control := control }
  | .timeout => system.timeout
  | .removeTimer => system.control.removeTimer.map fun control => { system with control := control }
  | .unblock => system.control.unblock.map fun control => { system with control := control }

/-- `_Event_Initialize` for a thread that runs. -/
structure Initial (system : System) : Prop where
  control : system.control = Control.initial
  pendingEvents : ∀ waitClass, system.pendingEvents waitClass = 0
  journal : system.journal = []
  receipts : system.receipts = []

/-- An event was posted to the set of the class and not taken from it since. -/
def Outstanding (journal : List Entry) (waitClass : WaitClass) (bit : Nat) : Prop :=
  ∃ later events earlier, journal = later ++ .post waitClass events :: earlier ∧
    events.getLsbD bit = true ∧
    ∀ gone, .take waitClass gone ∈ later → gone.getLsbD bit = false

/-- The events that were taken, the latest first. -/
def takes (journal : List Entry) : List (WaitClass × EventSet) :=
  journal.flatMap fun
    | .post _ _ => []
    | .take waitClass events => [(waitClass, events)]

/-- The events of the receive calls that returned with success, the latest first. -/
def returns (receipts : List Receipt) : List (WaitClass × EventSet) :=
  receipts.flatMap fun receipt =>
    if receipt.status = .successful then [(receipt.waitClass, receipt.taken)] else []

/-- A call that returned with success returned the events that it took, and these meet
its condition; any other call took no event. -/
def Receipt.Exact (receipt : Receipt) : Prop :=
  (receipt.status = .successful → receipt.eventOut = receipt.taken ∧
    receipt.taken &&& receipt.eventIn = receipt.taken ∧
    Satisfied receipt.any receipt.eventIn receipt.taken) ∧
  (receipt.status ≠ .successful → receipt.taken = 0)

/-- The receipt of the current receive call, if it returned now. -/
def System.receipt (system : System) : Receipt :=
  ⟨system.waitClass, system.count, system.option.any, system.returnCode, system.eventOut,
    system.taken⟩

/-- The blocking operation of a receive is decided and goes on. -/
def System.Decided (system : System) : Prop :=
  system.control.phase ≠ .running ∧ system.control.flags = .ready
deriving Decidable

/-- The events that were taken for the current receive call and not returned yet. -/
def System.current (system : System) : List (WaitClass × EventSet) :=
  if system.Decided then returns [system.receipt] else []

/-- The invariant of a run. -/
structure Sound (system : System) : Prop where
  coherent : system.control.Coherent
  waiting : system.control.flags ≠ .ready → system.returnCode = .successful ∧
    system.taken = 0 ∧ ¬Satisfied system.option.any system.count
      (get (system.pendingEvents system.waitClass) system.count)
  decided : system.Decided → system.receipt.Exact
  receipts : ∀ receipt ∈ system.receipts, receipt.Exact
  outstanding : ∀ waitClass bit, (system.pendingEvents waitClass).getLsbD bit = true ↔
    Outstanding system.journal waitClass bit
  account : takes system.journal = system.current ++ returns system.receipts

/-- What a pending set loses. -/
theorem lost_eq (events condition : EventSet) :
    clear events (clear events (get events condition)) = get events condition := by
  unfold clear get
  ext bit
  simp only [BitVec.getElem_and, BitVec.getElem_not]
  cases events[bit] <;> cases condition[bit] <;> rfl

section

variable (journal : List Entry) (waitClass tested : WaitClass) (events : EventSet) (bit : Nat)

theorem outstanding_post : Outstanding (.post waitClass events :: journal) tested bit ↔
      Outstanding journal tested bit ∨ (waitClass = tested ∧ events.getLsbD bit = true) := by
  constructor
  · rintro ⟨later, posted, earlier, split, inside, kept⟩
    cases later with
    | nil =>
      obtain ⟨⟨rfl, rfl⟩, -⟩ : (waitClass = tested ∧ events = posted) ∧ journal = earlier := by
        simpa using split
      exact .inr ⟨rfl, inside⟩
    | cons entry later =>
      obtain ⟨rfl, rest⟩ := List.cons.inj split
      exact .inl ⟨later, posted, earlier, rest, inside,
        fun gone mem => kept gone (List.mem_cons_of_mem _ mem)⟩
  · rintro (⟨later, posted, earlier, split, inside, kept⟩ | ⟨rfl, inside⟩)
    · refine ⟨.post waitClass events :: later, posted, earlier, by rw [split]; rfl, inside, ?_⟩
      intro gone mem
      exact kept gone (by simpa using mem)
    · exact ⟨[], events, journal, rfl, inside, by simp⟩

/-- Taken events are not outstanding any more. -/
theorem outstanding_take : Outstanding (.take waitClass events :: journal) tested bit ↔
      Outstanding journal tested bit ∧ (waitClass = tested → events.getLsbD bit = false) := by
  constructor
  · rintro ⟨later, posted, earlier, split, inside, kept⟩
    cases later with
    | nil => simp at split
    | cons entry later =>
      obtain ⟨rfl, rest⟩ := List.cons.inj split
      refine ⟨⟨later, posted, earlier, rest, inside,
        fun gone mem => kept gone (List.mem_cons_of_mem _ mem)⟩, ?_⟩
      rintro rfl
      exact kept events List.mem_cons_self
  · rintro ⟨⟨later, posted, earlier, split, inside, kept⟩, gone⟩
    refine ⟨.take waitClass events :: later, posted, earlier, by rw [split]; rfl, inside, ?_⟩
    intro lost mem
    rcases List.mem_cons.mp mem with same | mem
    · obtain ⟨rfl, rfl⟩ : tested = waitClass ∧ lost = events := by simpa using same
      exact gone rfl
    · exact kept lost mem

end

namespace Sound

variable {sys : System}

/-- A step of the blocking operation that decides nothing. -/
theorem frame (sound : Sound sys) (ctl : Control) (coherent : ctl.Coherent)
    (flags : ctl.flags = .ready ↔ sys.control.flags = .ready)
    (phase : ctl.phase = .running ↔ sys.control.phase = .running) :
    Sound { sys with control := ctl } := by
  have same : System.Decided { sys with control := ctl } ↔ sys.Decided := by
    simp only [System.Decided, ne_eq, phase, flags]
  refine ⟨coherent, ?_, ?_, sound.receipts, sound.outstanding, ?_⟩
  · exact fun busy => sound.waiting fun ready => busy (flags.mpr ready)
  · exact fun decided => sound.decided (same.mp decided)
  · have account := sound.account
    unfold System.current at account ⊢
    by_cases decided : sys.Decided
    · rw [if_pos decided] at account
      rw [if_pos (same.mpr decided)]
      exact account
    · rw [if_neg decided] at account
      rw [if_neg fun again => decided (same.mp again)]
      exact account

/-- Nothing is decided for a thread that runs. -/
theorem not_decided (running : sys.control.phase = .running) : ¬sys.Decided :=
  fun decided => decided.1 running

/-- Events leave a pending set. -/
theorem outstanding_satisfy (sys : System) (waitClass : WaitClass) (condition : EventSet)
    (outstanding : ∀ tested bit, (sys.pendingEvents tested).getLsbD bit = true ↔
      Outstanding sys.journal tested bit) :
    ∀ tested bit, ((sys.satisfy waitClass (get (sys.pendingEvents waitClass)
        condition)).pendingEvents tested).getLsbD bit = true ↔
      Outstanding (sys.satisfy waitClass (get (sys.pendingEvents waitClass)
        condition)).journal tested bit := by
  intro tested bit
  unfold System.satisfy
  simp only [outstanding_take]
  by_cases same : tested = waitClass
  · subst same
    rw [update_self, ← outstanding]
    simp only [clear, BitVec.getLsbD_and, BitVec.getLsbD_not]
    by_cases small : bit < 32
    · cases (sys.pendingEvents tested).getLsbD bit <;> cases condition.getLsbD bit <;> simp [small]
    · simp [BitVec.getLsbD_of_ge _ bit (Nat.le_of_not_lt small)]
  · rw [update_of_ne same, outstanding]
    simp [Ne.symm same]

/-- The locked section of a receive. -/
theorem receive (sound : Sound sys) (waitClass : WaitClass) (eventIn : EventSet)
    (option : OptionSet) (ticks : Bool) (next : System)
    (taken : sys.receive waitClass eventIn option ticks = some next) : Sound next := by
  unfold System.receive at taken
  split at taken
  · cases taken
  rename_i phase
  have running : sys.control.phase = .running := not_not.mp phase
  have ready := sound.coherent.running running
  have account := sound.account
  rw [System.current, if_neg (not_decided running), List.nil_append] at account
  simp only at taken
  split at taken
  case isTrue satisfied =>
    cases taken
    refine ⟨sound.coherent, fun busy => absurd ready busy,
      fun decided => absurd running decided.1, ?_,
      outstanding_satisfy sys waitClass eventIn sound.outstanding, ?_⟩
    · intro receipt mem
      rcases List.mem_cons.mp mem with rfl | mem
      · refine ⟨fun _ => ?_, by simp⟩
        simp only [System.satisfy, lost_eq]
        refine ⟨trivial, ?_, satisfied⟩
        rw [get, BitVec.and_assoc, BitVec.and_self]
      · exact sound.receipts receipt mem
    · rw [System.current, if_neg fun decided => decided.1 running, List.nil_append]
      simp [System.return, System.satisfy, takes, returns] at account ⊢
      exact account
  case isFalse unsatisfied =>
    split at taken
    · cases taken
      refine ⟨sound.coherent, fun busy => absurd ready busy,
        fun decided => absurd running decided.1, ?_, sound.outstanding, ?_⟩
      · intro receipt mem
        rcases List.mem_cons.mp mem with rfl | mem
        · exact ⟨by simp, fun _ => rfl⟩
        · exact sound.receipts receipt mem
      · rw [System.current, if_neg fun decided => decided.1 running, List.nil_append]
        exact account
    · cases taken
      refine ⟨sound.coherent.begin running, fun _ => ⟨rfl, rfl, unsatisfied⟩, ?_, sound.receipts,
        sound.outstanding, ?_⟩
      · intro decided
        exact absurd decided.2 (by simp [Control.begin])
      · exact account

/-- The other steps of a receive. -/
theorem advance (sound : Sound sys) (next : System) (taken : sys.advance = some next) :
    Sound next := by
  obtain ⟨ctl, stepped, rfl⟩ := Option.map_eq_some_iff.mp taken
  obtain ⟨phase, flags⟩ := Control.advance_flags stepped
  obtain ⟨coherent, returned⟩ := sound.coherent.advance sys.ticks stepped
  split
  case isTrue running =>
    have ready := (returned running).1
    have decided : sys.Decided := ⟨phase, flags.mp ready⟩
    refine ⟨coherent, fun busy => absurd ready busy, fun again => absurd running again.1, ?_,
      sound.outstanding, ?_⟩
    · intro receipt mem
      rcases List.mem_cons.mp mem with rfl | mem
      · exact sound.decided decided
      · exact sound.receipts receipt mem
    · have account := sound.account
      rw [System.current, if_pos decided] at account
      rw [System.current, if_neg fun again => again.1 running, List.nil_append]
      simp only [returns, List.flatMap_cons, List.flatMap_nil, List.append_nil] at account ⊢
      exact account
  case isFalse busy =>
    exact sound.frame ctl coherent flags ⟨fun running => absurd running busy,
      fun running => absurd running phase⟩

/-- The locked section of a send. -/
theorem send (sound : Sound sys) (waitClass : WaitClass) (eventIn : EventSet) :
    Sound (sys.send waitClass eventIn) := by
  have posted : ∀ tested bit, (update sys.pendingEvents waitClass
      (sys.pendingEvents waitClass ||| eventIn) tested).getLsbD bit = true ↔
      Outstanding (.post waitClass eventIn :: sys.journal) tested bit := by
    intro tested bit
    rw [outstanding_post, ← sound.outstanding]
    by_cases same : tested = waitClass
    · subst same
      simp
    · simp [update_of_ne same, Ne.symm same]
  unfold System.send
  simp only
  split
  case isTrue satisfied =>
    obtain ⟨⟨busy, same⟩, meets⟩ := satisfied
    have phase : sys.control.phase ≠ .running := fun running =>
      busy (sound.coherent.running running)
    have taken : clear (sys.pendingEvents waitClass ||| eventIn)
        (clear (sys.pendingEvents waitClass ||| eventIn)
          (get (sys.pendingEvents waitClass ||| eventIn) sys.count)) =
        get (sys.pendingEvents waitClass ||| eventIn) sys.count := lost_eq _ _
    simp only [update_self] at meets ⊢
    refine ⟨sound.coherent.settle false, fun again => absurd (by simp) again, ?_, sound.receipts,
      ?_, ?_⟩
    · intro _
      refine ⟨fun _ => ?_, fun failed => absurd (sound.waiting busy).1 failed⟩
      simp only [System.receipt, System.satisfy, update_self, taken]
      refine ⟨trivial, ?_, meets⟩
      rw [get, BitVec.and_assoc, BitVec.and_self]
    · have left := outstanding_satisfy { sys with
        pendingEvents := update sys.pendingEvents waitClass
          (sys.pendingEvents waitClass ||| eventIn)
        journal := .post waitClass eventIn :: sys.journal } waitClass sys.count posted
      simpa only [update_self] using left
    · have account := sound.account
      rw [System.current, if_neg fun decided => busy decided.2, List.nil_append] at account
      rw [System.current, if_pos ⟨by simpa [System.satisfy] using phase, by simp⟩]
      simp only [returns, takes, System.satisfy, System.receipt, List.flatMap_cons,
        List.flatMap_nil, (sound.waiting busy).1, if_true, same, List.nil_append,
        List.append_nil] at account ⊢
      rw [account]
  case isFalse unsatisfied =>
    refine ⟨sound.coherent, ?_, sound.decided, sound.receipts, posted, sound.account⟩
    intro busy
    obtain ⟨code, none, waits⟩ := sound.waiting busy
    refine ⟨code, none, ?_⟩
    by_cases same : sys.waitClass = waitClass
    · subst same
      exact fun meets => unsatisfied ⟨⟨busy, rfl⟩, meets⟩
    · simpa [update_of_ne same] using waits

/-- The locked section of a timeout. -/
theorem timeout (sound : Sound sys) (next : System) (taken : sys.timeout = some next) :
    Sound next := by
  unfold System.timeout at taken
  split at taken
  · cases taken
  simp only at taken
  split at taken
  case isTrue busy =>
    cases taken
    have none := (sound.waiting busy).2.1
    have coherent : Control.Coherent
        { sys.control with expirations := sys.control.expirations - 1 } := sound.coherent
    refine ⟨coherent.settle true, fun again => absurd (by simp) again, ?_, sound.receipts,
      sound.outstanding, ?_⟩
    · exact fun _ => ⟨by simp [System.receipt], fun _ => none⟩
    · have account := sound.account
      rw [System.current, if_neg fun decided => busy decided.2] at account
      rw [account, System.current]
      split <;> simp [returns, System.receipt]
  case isFalse =>
    cases taken
    exact sound.frame _ sound.coherent Iff.rfl Iff.rfl

theorem step (sound : Sound sys) (op : Operation) (next : System)
    (taken : sys.step op = some next) : Sound next := by
  cases op with
  | receive waitClass eventIn option ticks =>
    exact sound.receive waitClass eventIn option ticks next taken
  | advance => exact sound.advance next taken
  | send waitClass eventIn =>
    cases taken
    exact sound.send waitClass eventIn
  | expire =>
    obtain ⟨ctl, stepped, rfl⟩ := Option.map_eq_some_iff.mp taken
    obtain ⟨phase, flags⟩ := Control.expire_frame stepped
    exact sound.frame ctl (sound.coherent.expire stepped) (by rw [flags]) (by rw [phase])
  | timeout => exact sound.timeout next taken
  | removeTimer =>
    obtain ⟨ctl, stepped, rfl⟩ := Option.map_eq_some_iff.mp taken
    obtain ⟨phase, flags⟩ := Control.removeTimer_frame stepped
    exact sound.frame ctl (sound.coherent.removeTimer stepped) (by rw [flags]) (by rw [phase])
  | unblock =>
    obtain ⟨ctl, stepped, rfl⟩ := Option.map_eq_some_iff.mp taken
    obtain ⟨phase, flags⟩ := Control.unblock_frame stepped
    exact sound.frame ctl (sound.coherent.unblock stepped) (by rw [flags]) (by rw [phase])

end Sound

theorem Initial.sound {sys : System} (initial : Initial sys) : Sound sys := by
  obtain ⟨ctl, pending, journal, receipts⟩ := initial
  have ready : sys.control.flags = .ready := by rw [ctl]; rfl
  have running : sys.control.phase = .running := by rw [ctl]; rfl
  refine ⟨ctl ▸ Control.Coherent.initial, fun busy => absurd ready busy,
    fun decided => absurd running decided.1, by simp [receipts], ?_, ?_⟩
  · intro waitClass bit
    rw [pending, journal]
    simp [Outstanding]
  · rw [System.current, if_neg (Sound.not_decided running), journal, receipts]
    rfl

/-- In every run an event is pending exactly if it was posted and not taken since. A
receive call that returned with success returned the events that were taken for it, which
meet its condition; for any other call no event was taken. The events that were taken are
those that calls returned with success and those of the current call, if it is decided.
The condition of a blocked thread, or one that intends to block, is not satisfied by the
pending events. -/
theorem runs_conserve_events (past : List System) (system : System)
    (run : Trace Initial (fun _ _ => True) System.step past system) :
    (∀ waitClass bit, (system.pendingEvents waitClass).getLsbD bit = true ↔
      Outstanding system.journal waitClass bit) ∧ (∀ receipt ∈ system.receipts, receipt.Exact) ∧
    takes system.journal = system.current ++ returns system.receipts ∧
    (system.Decided → system.receipt.Exact) ∧
    (system.control.flags ≠ .ready → ¬Satisfied system.option.any system.count
      (get (system.pendingEvents system.waitClass) system.count)) := by
  have sound : Sound system := by
    refine run.invariant Sound (fun _ initial => initial.sound) ?_
    intro state operation next sound _ taken
    exact sound.step operation next taken
  exact ⟨sound.outstanding, sound.receipts, sound.account, sound.decided,
    fun busy => (sound.waiting busy).2.2⟩

/-- A thread that runs, with no pending events. -/
def start : System where
  control := Control.initial
  pendingEvents := fun _ => 0
  waitClass := .event
  returnCode := .successful
  option := ⟨false, false⟩
  count := 0
  eventOut := 0
  ticks := false
  taken := 0
  journal := []
  receipts := []

theorem start_initial : Initial start := ⟨rfl, fun _ => rfl, rfl, rfl⟩

/-- The condition is satisfied between the decision to block and the blocking, while the
timer expires: the receive returns the events and nothing times out. -/
theorem runs_conserve_events_race :
    ∃ (past : List System) (system : System),
      Trace Initial (fun _ _ => True) System.step past system ∧
      system.receipts = [⟨.event, 3, false, .successful, 3, 3⟩] ∧
      system.pendingEvents .event = 4 ∧ ∀ receipt ∈ system.receipts, receipt.Exact := by
  obtain ⟨past, system, run, seen⟩ := Trace.observe (fun _ _ => True) System.step start
    start_initial
    [.send .event 1, .receive .event 3 ⟨false, false⟩ true, .advance, .expire, .send .event 6,
      .timeout, .advance, .advance, .advance, .advance]
    (fun system => (system.receipts, system.pendingEvents .event))
    ([⟨.event, 3, false, .successful, 3, 3⟩], 4) (by decide +kernel) (by decide +kernel)
  obtain ⟨receipts, pending⟩ := Prod.mk.inj seen
  exact ⟨past, system, run, receipts, pending, (runs_conserve_events past system run).2.1⟩

end Rtems.Event
