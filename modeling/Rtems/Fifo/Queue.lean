import Mathlib.Data.List.Count
import Mathlib.Data.List.Nodup
import Rtems.Library.Transition
import Rtems.Fifo.Pipe

/-!
# Descriptors on a pipe

Any number of descriptors are opened on a pipe and closed, and any number of calls are in progress on
them. The pipe exists as long as a descriptor is open. A release has two parts: the section in which the
counters change and, while the mutex of all pipes is still held, a broadcast or the end of the pipe.
-/

namespace Rtems.Fifo

open Transition
open List (countP_append countP_pos_iff countP_singleton mem_append mem_cons_self mem_map mem_singleton)

universe u

structure Descriptor (D : Type u) where
  name : D
  mode : Mode
deriving DecidableEq

/-- A call that did not return from its last wait. It is asleep up to a broadcast. -/
structure Call (D : Type u) where
  name : D
  work : Work
  asleep : Bool

/-- A pipe, the descriptors that are open, the calls in progress on them and the release that is between
its parts. -/
structure System (D : Type u) where
  pipe : Option PipeControl
  descriptors : List (Descriptor D)
  calls : List (Call D)
  releasing : Option Mode

/-- What threads do. The file system may have no memory, and whether a descriptor is not to wait may change
between any two sections. -/
inductive Action (D : Type u) where
  | openDescriptor (name : D) (mode : Mode) (nodelay memory : Bool)
  | read (name : D) (nodelay : Bool) (count : Nat)
  | write (name : D) (nodelay : Bool) (buffer : List UInt8)
  | resume (index : Nat) (nodelay : Bool)
  | close (name : D)
  | finishRelease

/-- An operation waits at the barrier of the readers. -/
def Work.atReaders : Work → Bool
  | .openRead _ => true
  | .read _ => true
  | _ => false

/-- `rtems_condition_variable_broadcast` on the barriers that are chosen. -/
def broadcast {D : Type u} (readers writers : Bool) (calls : List (Call D)) : List (Call D) :=
  calls.map fun call =>
    { call with asleep := call.asleep && !(if call.work.atReaders then readers else writers) }

/-- The calls that remain of a section. -/
def remain {D : Type u} (name : D) : Outcome → List (Call D)
  | .wait work => [⟨name, work, true⟩]
  | .release => [⟨name, .openError, false⟩]
  | .done _ => []

/-- The system after a section. -/
def System.after {D : Type u} (system : System D) (name : D) (part : Section) : System D :=
  { system with
    pipe := some part.pipe
    calls := broadcast part.wakeReaders part.wakeWriters system.calls ++ remain name part.outcome }

section Steps

variable {D : Type u} [DecidableEq D]

/-- The first part of `pipe_release` for a descriptor. -/
def System.release (system : System D) (descriptor : Descriptor D) (pipe : PipeControl) : System D :=
  { system with
    pipe := some (pipeRelease descriptor.mode pipe)
    descriptors := system.descriptors.erase descriptor
    releasing := some descriptor.mode }

/-- The second part of `pipe_release`. -/
def System.finishRelease (system : System D) (pipe : PipeControl) (mode : Mode) : System D :=
  if pipe.readers = 0 ∧ pipe.writers = 0 then { system with pipe := none, releasing := none }
  else if pipe.readers = 0 ∧ mode ≠ .write then
    { system with calls := broadcast false true system.calls, releasing := none }
  else if pipe.writers = 0 ∧ mode ≠ .read then
    { system with calls := broadcast true false system.calls, releasing := none }
  else { system with releasing := none }

/-- A call that still opens its descriptor. -/
def Work.opening : Work → Bool
  | .openRead _ => true
  | .openWrite _ => true
  | .openError => true
  | _ => false

/-- No call opens a descriptor. -/
def System.opened (system : System D) (name : D) : Bool :=
  system.calls.all fun call => call.name ≠ name ∨ call.work.opening = false

/-- No call is in progress on a descriptor. -/
def System.unused (system : System D) (name : D) : Bool :=
  system.calls.all fun call => call.name ≠ name

def System.find (system : System D) (name : D) : Option (Descriptor D) :=
  system.descriptors.find? fun descriptor => descriptor.name = name

/-- A section of a thread. A descriptor is used for what it was opened, and it is closed when no call is in
progress on it. -/
def step (pipeBuf : Nat) (system : System D) : Action D → Option (System D)
  | .openDescriptor name mode nodelay memory =>
    if system.releasing = none ∧ system.find name = none then
      let opened : System D := { system with descriptors := system.descriptors ++ [⟨name, mode⟩] }
      match system.pipe with
      | some pipe => some (opened.after name (fifoOpen nodelay mode pipe))
      | none =>
        if memory then some (opened.after name (fifoOpen nodelay mode (pipeAlloc pipeBuf)))
        else some system
    else none
  | .read name nodelay count =>
    match system.pipe, system.find name with
    | some pipe, some descriptor =>
      if descriptor.mode.reads ∧ system.opened name then
        some (system.after name (pipeRead nodelay count pipe))
      else none
    | _, _ => none
  | .write name nodelay buffer =>
    match system.pipe, system.find name with
    | some pipe, some descriptor =>
      if descriptor.mode.writes ∧ system.opened name then
        some (system.after name (pipeWrite nodelay buffer pipe))
      else none
    | _, _ => none
  | .resume index nodelay =>
    match system.pipe, system.calls[index]? with
    | some pipe, some call =>
      let rest := { system with calls := system.calls.eraseIdx index }
      if call.asleep then none
      else if call.work = .openError then
        match system.releasing, system.find call.name with
        | none, some descriptor => some (rest.release descriptor pipe)
        | _, _ => none
      else some (rest.after call.name (resume nodelay call.work (leave call.work pipe)))
    | _, _ => none
  | .close name =>
    match system.pipe, system.releasing, system.find name with
    | some pipe, none, some descriptor =>
      if system.unused name then some (system.release descriptor pipe) else none
    | _, _, _ => none
  | .finishRelease =>
    match system.pipe, system.releasing with
    | some pipe, some mode => some (system.finishRelease pipe mode)
    | _, _ => none

end Steps

variable {D : Type u} {pipeBuf : Nat}

/-- No descriptor is open. -/
def Initial (system : System D) : Prop :=
  system = ⟨none, [], [], none⟩

/-- The mode of the descriptor of a call. -/
def Work.Permitted (mode : Mode) : Work → Prop
  | .read _ => mode.reads = true
  | .write _ _ _ => mode.writes = true
  | .openRead _ => mode = .read
  | .openWrite _ => mode = .write
  | .openError => mode = .write

/-- Why an operation is asleep: it has a reason to wait, or the release in progress wakes it. -/
def Sleeps (releasing : Option Mode) (pipe : PipeControl) : Work → Prop
  | .read _ => pipe.length = 0 ∧ (0 < pipe.writers ∨ ∃ mode, releasing = some mode ∧ mode ≠ .read)
  | .write _ _ chunk =>
    pipe.space < chunk ∧ (0 < pipe.readers ∨ ∃ mode, releasing = some mode ∧ mode ≠ .write)
  | _ => True

/-- Two calls on one descriptor do not open it. -/
def Compatible (first second : Call D) : Prop :=
  first.name = second.name → first.work.opening = false ∧ second.work.opening = false

/-- A pipe that exists. -/
structure Serving (pipeBuf : Nat) (system : System D) (pipe : PipeControl) : Prop where
  size : pipe.size = pipeBuf
  holds : pipe.Holds
  distinct : (system.descriptors.map Descriptor.name).Nodup
  readers : pipe.readers = system.descriptors.countP fun descriptor => descriptor.mode.reads
  writers : pipe.writers = system.descriptors.countP fun descriptor => descriptor.mode.writes
  waitingReaders : pipe.waitingReaders = system.calls.countP fun call => call.work.isRead
  waitingWriters : pipe.waitingWriters = system.calls.countP fun call => call.work.isWrite
  named : ∀ call ∈ system.calls, ∃ descriptor ∈ system.descriptors,
    descriptor.name = call.name ∧ call.work.Permitted descriptor.mode
  compatible : system.calls.Pairwise Compatible
  sensible : ∀ call ∈ system.calls, call.work.Sensible pipe.size
  asleep : ∀ call ∈ system.calls, call.asleep = true → Sleeps system.releasing pipe call.work

/-- What holds at the end of every run. -/
def Sound (pipeBuf : Nat) (system : System D) : Prop :=
  match system.pipe with
  | some pipe => Serving pipeBuf system pipe
  | none => system.descriptors = [] ∧ system.calls = [] ∧ system.releasing = none

variable {sys : System D}
variable {system : System D} {pipe : PipeControl}

theorem sound_of (present : sys.pipe = some pipe) (serving : Serving pipeBuf sys pipe) :
    Sound pipeBuf sys := by
  rw [Sound, present]
  exact serving

theorem Sound.serving (sound : Sound pipeBuf sys) (present : sys.pipe = some pipe) :
    Serving pipeBuf sys pipe := by
  rw [Sound, present] at sound
  exact sound

theorem mem_broadcast {readers writers : Bool} {calls : List (Call D)} {call : Call D}
    (mem : call ∈ broadcast readers writers calls) :
    ∃ before ∈ calls, call.name = before.name ∧ call.work = before.work ∧
      (call.asleep = true → before.asleep = true ∧
        (if call.work.atReaders then readers else writers) = false) := by
  obtain ⟨before, earlier, rfl⟩ := mem_map.mp mem
  refine ⟨before, earlier, rfl, rfl, fun asleep => ?_⟩
  obtain ⟨asleep, quiet⟩ := Bool.and_eq_true_iff.mp asleep
  exact ⟨asleep, by simpa using quiet⟩

theorem countP_broadcast (readers writers : Bool) (calls : List (Call D)) (counted : Work → Bool) :
    (broadcast readers writers calls).countP (fun call => counted call.work) =
      calls.countP fun call => counted call.work := by
  rw [broadcast, List.countP_map]
  rfl

theorem pairwise_broadcast {readers writers : Bool} {calls : List (Call D)}
    (compatible : calls.Pairwise Compatible) : (broadcast readers writers calls).Pairwise Compatible :=
  List.pairwise_map.mpr compatible

variable {name : D}

theorem mem_remain {outcome : Outcome} {call : Call D} (mem : call ∈ remain name outcome) :
    (∃ work, outcome = .wait work ∧ call = ⟨name, work, true⟩) ∨
      (outcome = .release ∧ call = ⟨name, .openError, false⟩) := by
  cases outcome with
  | wait work => exact Or.inl ⟨work, rfl, mem_singleton.mp mem⟩
  | done answer => cases mem
  | release => exact Or.inr ⟨rfl, mem_singleton.mp mem⟩

/-- A broadcast only wakes. -/
theorem Serving.broadcast (serving : Serving pipeBuf sys pipe) (readers writers : Bool)
    (releasing : Option Mode)
    (asleep : ∀ call ∈ Fifo.broadcast readers writers sys.calls, call.asleep = true →
      Sleeps releasing pipe call.work) :
    Serving pipeBuf
      { sys with calls := Fifo.broadcast readers writers sys.calls, releasing := releasing } pipe := by
  refine { serving with
    waitingReaders := ?waitingReaders, waitingWriters := ?waitingWriters, named := ?named
    compatible := pairwise_broadcast serving.compatible, sensible := ?sensible, asleep }
  case waitingReaders => rw [countP_broadcast _ _ _ Work.isRead, ← serving.waitingReaders]
  case waitingWriters => rw [countP_broadcast _ _ _ Work.isWrite, ← serving.waitingWriters]
  case named =>
    intro call mem
    obtain ⟨before, earlier, name, work, -⟩ := mem_broadcast mem
    obtain ⟨desc, present, same, permitted⟩ := serving.named before earlier
    exact ⟨desc, present, same.trans name.symm, work ▸ permitted⟩
  case sensible =>
    intro call mem
    obtain ⟨before, earlier, -, work, -⟩ := mem_broadcast mem
    rw [work]
    exact serving.sensible before earlier

variable {desc : Descriptor D}

/-- A section of a call on a descriptor. -/
theorem Serving.after (serving : Serving pipeBuf sys pipe) {part : Section}
    (effect : Effect pipe part) (present : desc ∈ sys.descriptors)
    (permitted : ∀ call ∈ remain desc.name part.outcome, call.work.Permitted desc.mode)
    (compatible : ∀ call ∈ sys.calls, ∀ rest ∈ remain desc.name part.outcome, Compatible call rest)
    :
    Serving pipeBuf (sys.after desc.name part) part.pipe := by
  have kept := effect.kept
  have waits : ∀ counted : Work → Bool, counted .openError = false →
      (remain desc.name part.outcome).countP (fun call => counted call.work) =
        part.outcome.waits counted := by
    intro counted none
    cases part.outcome with
    | wait work => rw [remain, countP_singleton, Outcome.waits]
    | done answer => rfl
    | release => rw [remain, countP_singleton, none]; rfl
  constructor
  case size => exact kept.size.trans serving.size
  case holds => exact effect.holds
  case distinct => exact serving.distinct
  case readers => exact kept.readers.trans serving.readers
  case writers => exact kept.writers.trans serving.writers
  case waitingReaders =>
    rw [effect.waitingReaders, serving.waitingReaders, System.after, countP_append,
      countP_broadcast _ _ _ Work.isRead, waits Work.isRead rfl]
  case waitingWriters =>
    rw [effect.waitingWriters, serving.waitingWriters, System.after, countP_append,
      countP_broadcast _ _ _ Work.isWrite, waits Work.isWrite rfl]
  case named =>
    intro call mem
    obtain earlier | last := mem_append.mp mem
    · obtain ⟨before, earlier, name, work, -⟩ := mem_broadcast earlier
      obtain ⟨desc, present, same, permitted⟩ := serving.named before earlier
      exact ⟨desc, present, same.trans name.symm, work ▸ permitted⟩
    · refine ⟨desc, present, ?_, permitted call last⟩
      obtain ⟨work, -, rfl⟩ | ⟨-, rfl⟩ := mem_remain last
      · rfl
      · rfl
  case compatible =>
    refine List.pairwise_append.mpr ⟨pairwise_broadcast serving.compatible, ?_, ?_⟩
    · cases part.outcome with
      | wait | release => exact List.pairwise_singleton _ _
      | done answer => exact List.Pairwise.nil
    · intro call mem rest last same
      obtain ⟨before, earlier, name, work, -⟩ := mem_broadcast mem
      rw [work]
      exact compatible before earlier rest last (name.symm.trans same)
  case sensible =>
    intro call mem
    obtain earlier | last := mem_append.mp mem
    · obtain ⟨before, earlier, -, work, -⟩ := mem_broadcast earlier
      rw [work, kept.size]
      exact serving.sensible before earlier
    · obtain ⟨work, outcome, rfl⟩ | ⟨-, rfl⟩ := mem_remain last
      · exact (effect.blocked work outcome).2
      · trivial
  case asleep =>
    intro call mem asleep
    obtain earlier | last := mem_append.mp mem
    · obtain ⟨before, earlier, name, work, still⟩ := mem_broadcast earlier
      obtain ⟨asleep, quiet⟩ := still asleep
      have reason := serving.asleep before earlier asleep
      rw [← work] at reason
      -- a call that is not woken still has the reason to wait that it had before
      cases kind : call.work with
      | read count =>
        rw [kind] at reason quiet
        have waiting : 0 < pipe.waitingReaders := by
          rw [serving.waitingReaders]
          exact countP_pos_iff.mpr ⟨before, earlier, by rw [← work, kind]; rfl⟩
        have length := effect.filled quiet waiting
        have empty : pipe.length = 0 := reason.1
        exact ⟨by omega, kept.writers ▸ reason.2⟩
      | write buf written chunk =>
        rw [kind] at reason quiet
        have waiting : 0 < pipe.waitingWriters := by
          rw [serving.waitingWriters]
          exact countP_pos_iff.mpr ⟨before, earlier, by rw [← work, kind]; rfl⟩
        have space := effect.freed quiet waiting
        exact ⟨Nat.lt_of_le_of_lt space reason.1, kept.readers ▸ reason.2⟩
      | openRead | openWrite | openError => trivial
    · obtain ⟨work, outcome, rfl⟩ | ⟨-, rfl⟩ := mem_remain last
      · have blocked := (effect.blocked work outcome).1
        cases work with
        | read | write => exact ⟨blocked.1, Or.inl blocked.2⟩
        | openRead | openWrite | openError => trivial
      · cases asleep

/-- The pipe after a descriptor was opened on it. -/
def register (mode : Mode) (pipe : PipeControl) : PipeControl :=
  { pipe with
    readerCounter := if mode.reads then increment pipe.readerCounter else pipe.readerCounter
    readers := pipe.readers + if mode.reads then 1 else 0
    writerCounter := if mode.writes then increment pipe.writerCounter else pipe.writerCounter
    writers := pipe.writers + if mode.writes then 1 else 0 }

/-- An open changes the counters and may have to wait. -/
theorem fifoOpen_spec (nodelay : Bool) (mode : Mode) (pipe : PipeControl) :
    (fifoOpen nodelay mode pipe).pipe = register mode pipe ∧
      (∀ work, (fifoOpen nodelay mode pipe).outcome = .wait work →
        work.isRead = false ∧ work.isWrite = false ∧ work.Permitted mode) ∧
      ((fifoOpen nodelay mode pipe).outcome = .release → mode = .write) := by
  cases mode with
  | read =>
    refine ⟨rfl, ?_, ?_⟩
    · intro work wait
      rw [fifoOpen] at wait
      split at wait
      · obtain rfl := Outcome.wait.inj wait
        exact ⟨rfl, rfl, rfl⟩
      · cases wait
    · intro release
      rw [fifoOpen] at release
      split at release
      · cases release
      · cases release
  | write =>
    refine ⟨rfl, ?_, fun _ => rfl⟩
    intro work wait
    rw [fifoOpen] at wait
    split at wait
    · split at wait
      · cases wait
      · obtain rfl := Outcome.wait.inj wait
        exact ⟨rfl, rfl, rfl⟩
    · cases wait
  | readWrite => exact ⟨rfl, (fun _ wait => by cases wait), (fun release => by cases release)⟩

section

variable (serving : Serving pipeBuf sys pipe)
include serving

/-- A descriptor is opened. -/
theorem Serving.register (quiet : sys.releasing = none) (desc : Descriptor D)
    (fresh : ∀ other ∈ sys.descriptors, other.name ≠ desc.name) :
    Serving pipeBuf { sys with descriptors := sys.descriptors ++ [desc] }
      (Fifo.register desc.mode pipe) := by
  refine { serving with
    holds := ?holds, distinct := ?distinct, readers := ?readers, writers := ?writers
    named := ?named, asleep := ?asleep }
  case holds => exact { serving.holds with }
  case distinct =>
    rw [List.map_append, List.map_singleton]
    refine List.nodup_append.mpr ⟨serving.distinct, List.nodup_singleton _, ?_⟩
    intro name earlier other last
    obtain ⟨before, mem, rfl⟩ := mem_map.mp earlier
    rw [mem_singleton.mp last]
    exact fresh before mem
  case readers => rw [countP_append, ← serving.readers, countP_singleton]; rfl
  case writers => rw [countP_append, ← serving.writers, countP_singleton]; rfl
  case named =>
    intro call mem
    obtain ⟨before, present, same, permitted⟩ := serving.named call mem
    exact ⟨before, List.mem_append_left _ present, same, permitted⟩
  case asleep =>
    intro call mem asleep
    have reason := serving.asleep call mem asleep
    rw [quiet] at reason ⊢
    cases kind : call.work with
    | read count =>
      rw [kind] at reason
      obtain ⟨empty, writers | ⟨mode, impossible, -⟩⟩ := reason
      · exact ⟨empty, Or.inl (Nat.lt_of_lt_of_le writers (Nat.le_add_right _ _))⟩
      · cases impossible
    | write buf written chunk =>
      rw [kind] at reason
      obtain ⟨full, readers | ⟨mode, impossible, -⟩⟩ := reason
      · exact ⟨full, Or.inl (Nat.lt_of_lt_of_le readers (Nat.le_add_right _ _))⟩
      · cases impossible
    | openRead | openWrite | openError => trivial

theorem Serving.openDescriptor (quiet : sys.releasing = none)
    (desc : Descriptor D) (fresh : ∀ other ∈ sys.descriptors, other.name ≠ desc.name)
    (nodelay : Bool) :
    Serving pipeBuf ({ sys with descriptors := sys.descriptors ++ [desc] }.after desc.name
        (fifoOpen nodelay desc.mode pipe))
      (fifoOpen nodelay desc.mode pipe).pipe := by
  have registered := serving.register quiet desc fresh
  obtain ⟨counted, waits, release⟩ := fifoOpen_spec nodelay desc.mode pipe
  have effect : Effect (Fifo.register desc.mode pipe) (fifoOpen nodelay desc.mode pipe) := by
    have idle := registered.holds.idle (fifoOpen nodelay desc.mode pipe).outcome
      (fun work wait => ⟨(waits work wait).1, (waits work wait).2.1⟩)
      (fifoOpen nodelay desc.mode pipe).wakeReaders
      (fifoOpen nodelay desc.mode pipe).wakeWriters
    rw [← counted] at idle ⊢
    exact idle
  refine registered.after effect (List.mem_append_right _ (List.mem_singleton_self _)) ?_ ?_
  · intro call mem
    obtain ⟨work, outcome, rfl⟩ | ⟨outcome, rfl⟩ := mem_remain mem
    · exact (waits work outcome).2.2
    · exact release outcome
  · intro call mem rest last same
    obtain ⟨before, present, name, -⟩ := serving.named call mem
    have named : rest.name = desc.name := by
      obtain ⟨work, -, rfl⟩ | ⟨-, rfl⟩ := mem_remain last
      · rfl
      · rfl
    exact absurd (name.trans (same.trans named)) (fresh before present)

/-- A section of a call that does not open its descriptor. -/
theorem Serving.call {part : Section} (effect : Effect pipe part) (present : desc ∈ sys.descriptors)
    (permitted : ∀ work, part.outcome = .wait work → work.Permitted desc.mode ∧ work.opening = false)
    (returns : part.outcome ≠ .release)
    (opened : ∀ call ∈ sys.calls, call.name = desc.name → call.work.opening = false) :
    Serving pipeBuf (sys.after desc.name part) part.pipe := by
  refine serving.after effect present ?_ ?_
  · intro call mem
    obtain ⟨work, outcome, rfl⟩ | ⟨outcome, -⟩ := mem_remain mem
    · exact (permitted work outcome).1
    · exact absurd outcome returns
  · intro call mem rest last same
    obtain ⟨work, outcome, rfl⟩ | ⟨outcome, -⟩ := mem_remain last
    · exact ⟨opened call mem same, (permitted work outcome).2⟩
    · exact absurd outcome returns

/-- A call leaves its wait. -/
theorem Serving.leave {before after : List (Call D)}
    {call : Call D} (calls : sys.calls = before ++ call :: after) :
    Serving pipeBuf { sys with calls := before ++ after } (leave call.work pipe) := by
  have fewer : ∀ other ∈ before ++ after, other ∈ sys.calls := by
    intro other mem
    rw [calls]
    obtain earlier | later := mem_append.mp mem
    · exact List.mem_append_left _ earlier
    · exact List.mem_append_right _ (List.mem_cons_of_mem _ later)
  have counts : ∀ counted : Work → Bool, sys.calls.countP (fun call => counted call.work) =
        (before ++ after).countP (fun call => counted call.work) + if counted call.work then 1 else 0 := by
    intro counted
    rw [calls, countP_append, List.countP_cons, countP_append]
    omega
  constructor
  case size => exact serving.size
  case holds => exact { serving.holds with }
  case distinct => exact serving.distinct
  case readers => exact serving.readers
  case writers => exact serving.writers
  case waitingReaders =>
    have count := serving.waitingReaders
    rw [counts Work.isRead] at count
    rw [Fifo.leave]
    split
    case isTrue reads =>
      rw [if_pos reads] at count
      exact Nat.sub_eq_of_eq_add count
    case isFalse other =>
      rw [if_neg other] at count
      exact count
  case waitingWriters =>
    have count := serving.waitingWriters
    rw [counts Work.isWrite] at count
    rw [Fifo.leave]
    dsimp only
    split
    case isTrue writes =>
      rw [if_pos writes] at count
      exact Nat.sub_eq_of_eq_add count
    case isFalse other =>
      rw [if_neg other] at count
      exact count
  case named => exact fun other mem => serving.named other (fewer other mem)
  case compatible =>
    have compatible := serving.compatible
    rw [calls] at compatible
    exact compatible.sublist ((List.Sublist.refl before).append (List.sublist_cons_self call after))
  case sensible => exact fun other mem => serving.sensible other (fewer other mem)
  case asleep =>
    intro other mem asleep
    have reason := serving.asleep other (fewer other mem) asleep
    cases kind : other.work with
    | read | write =>
      rw [kind] at reason
      exact reason
    | openRead | openWrite | openError => trivial

end

/-- A call that waits again waits for the same. -/
theorem resume_outcome {nodelay : Bool} {work : Work} (other : work ≠ .openError) (pipe : PipeControl) :
    (resume nodelay work pipe).outcome ≠ .release ∧
      ∀ again, (resume nodelay work pipe).outcome = .wait again →
        again.opening = work.opening ∧ ∀ mode, work.Permitted mode → again.Permitted mode := by
  cases work with
  | openRead | openWrite =>
    rw [resume]
    split
    · refine ⟨by simp, ?_⟩
      intro again wait
      obtain rfl := Outcome.wait.inj wait
      exact ⟨rfl, fun _ permitted => permitted⟩
    · exact ⟨by simp, by simp⟩
  | openError => exact absurd rfl other
  | read count =>
    rw [resume]
    obtain wait | ⟨answer, done⟩ := pipeRead_outcome nodelay count pipe
    · rw [wait]
      refine ⟨by simp, ?_⟩
      intro again same
      obtain rfl := Outcome.wait.inj same
      exact ⟨rfl, fun _ permitted => permitted⟩
    · rw [done]
      exact ⟨by simp, by simp⟩
  | write buf written chunk =>
    rw [resume]
    split
    · obtain ⟨answer, done⟩ := writeResult_done written .brokenPipe
      rw [done]
      exact ⟨by simp, by simp⟩
    · obtain ⟨written', chunk', wait⟩ | ⟨answer, done⟩ :=
        writeLoop_outcome nodelay buf (buf.length + 1) written chunk false pipe
      · rw [wait]
        refine ⟨by simp, ?_⟩
        intro again same
        obtain rfl := Outcome.wait.inj same
        exact ⟨rfl, fun _ permitted => permitted⟩
      · rw [done]
        exact ⟨by simp, by simp⟩

section

variable (serving : Serving pipeBuf sys pipe) {before after : List (Call D)} {call : Call D}
  (calls : sys.calls = before ++ call :: after)
include serving calls

/-- A call goes on after its wait. -/
theorem Serving.resume (nodelay : Bool) (other : call.work ≠ .openError) : Serving pipeBuf
      ({ sys with calls := before ++ after }.after call.name
        (Fifo.resume nodelay call.work (Fifo.leave call.work pipe)))
      (Fifo.resume nodelay call.work (Fifo.leave call.work pipe)).pipe := by
  have present : call ∈ sys.calls := by
    rw [calls]
    exact List.mem_append_right _ mem_cons_self
  have left := serving.leave calls
  have effect := resume_effect left.holds nodelay (serving.sensible call present)
  obtain ⟨returns, waits⟩ := @resume_outcome nodelay call.work other (Fifo.leave call.work pipe)
  obtain ⟨desc, mem, name, permitted⟩ := serving.named call present
  have pairwise := serving.compatible
  rw [calls, List.pairwise_append, List.pairwise_cons] at pairwise
  obtain ⟨-, ⟨later, -⟩, earlier⟩ := pairwise
  rw [← name]
  refine left.after effect mem ?_ ?_
  · intro rest last
    obtain ⟨work, outcome, rfl⟩ | ⟨outcome, -⟩ := mem_remain last
    · exact (waits work outcome).2 _ permitted
    · exact absurd outcome returns
  · intro another mem rest last same
    obtain ⟨work, outcome, rfl⟩ | ⟨outcome, -⟩ := mem_remain last
    · rw [(waits work outcome).1]
      obtain first | second := mem_append.mp mem
      · exact earlier another first call mem_cons_self (same.trans name)
      · exact (later another second (name.symm.trans same.symm)).symm
    · exact absurd outcome returns

/-- A call that opens its descriptor is the only one on it. -/
theorem Serving.lone (opening : call.work.opening = true) :
    ∀ other ∈ before ++ after, other.name ≠ call.name := by
  have pairwise := serving.compatible
  rw [calls, List.pairwise_append, List.pairwise_cons] at pairwise
  obtain ⟨-, ⟨later, -⟩, earlier⟩ := pairwise
  intro other mem same
  obtain first | second := mem_append.mp mem
  · have ready := (earlier other first call mem_cons_self same).2
    rw [opening] at ready
    cases ready
  · have ready := (later other second same.symm).1
    rw [opening] at ready
    cases ready

end

section Releases

variable [DecidableEq D]

/-- A descriptor without calls is closed. -/
theorem Serving.release (serving : Serving pipeBuf sys pipe) (quiet : sys.releasing = none)
    (present : desc ∈ sys.descriptors) (unused : ∀ call ∈ sys.calls, call.name ≠ desc.name) :
    Serving pipeBuf (sys.release desc pipe) (pipeRelease desc.mode pipe) := by
  have counts : ∀ counted : Mode → Bool,
      (sys.descriptors.erase desc).countP (fun other => counted other.mode) =
        if counted desc.mode then
          sys.descriptors.countP (fun other => counted other.mode) - 1
        else sys.descriptors.countP (fun other => counted other.mode) := by
    intro counted
    rw [List.countP_erase]
    split
    case isTrue both => rw [if_pos both.2]
    case isFalse neither => rw [if_neg (fun counts => neither ⟨present, counts⟩), Nat.sub_zero]
  refine { serving with
    holds := ?holds, distinct := ?distinct, readers := ?readers, writers := ?writers
    named := ?named, asleep := ?asleep }
  case holds => exact { serving.holds with }
  case distinct => exact serving.distinct.sublist ((List.erase_sublist).map Descriptor.name)
  case readers => rw [System.release, counts Mode.reads, ← serving.readers]; rfl
  case writers => rw [System.release, counts Mode.writes, ← serving.writers]; rfl
  case named =>
    intro call mem
    obtain ⟨other, earlier, name, permitted⟩ := serving.named call mem
    have differs : other ≠ desc := by
      intro same
      rw [same] at name
      exact unused call mem name.symm
    exact ⟨other, (List.mem_erase_of_ne differs).mpr earlier, name, permitted⟩
  case asleep =>
    intro call mem asleep
    have reason := serving.asleep call mem asleep
    rw [quiet] at reason
    cases kind : call.work with
    | read count =>
      rw [kind] at reason
      obtain ⟨empty, writers | ⟨mode, impossible, -⟩⟩ := reason
      · refine ⟨empty, ?_⟩
        by_cases writes : desc.mode.writes = true
        · refine Or.inr ⟨desc.mode, rfl, ?_⟩
          intro read
          rw [read] at writes
          cases writes
        · refine Or.inl ?_
          rw [pipeRelease]
          rw [if_neg writes]
          exact writers
      · cases impossible
    | write buf written chunk =>
      rw [kind] at reason
      obtain ⟨full, readers | ⟨mode, impossible, -⟩⟩ := reason
      · refine ⟨full, ?_⟩
        by_cases reads : desc.mode.reads = true
        · refine Or.inr ⟨desc.mode, rfl, ?_⟩
          intro write
          rw [write] at reads
          cases reads
        · refine Or.inl ?_
          rw [pipeRelease]
          rw [if_neg reads]
          exact readers
      · cases impossible
    | openRead | openWrite | openError => trivial

end Releases

/-- A call that writes has a descriptor for it. -/
theorem Serving.writer (serving : Serving pipeBuf sys pipe) {call : Call D}
    (mem : call ∈ sys.calls) (writes : call.work.isWrite = true) : 0 < pipe.writers := by
  obtain ⟨desc, present, -, permitted⟩ := serving.named call mem
  rw [serving.writers]
  refine countP_pos_iff.mpr ⟨desc, present, ?_⟩
  cases kind : call.work with
  | write buf written chunk =>
    rw [kind] at permitted
    exact permitted
  | read | openRead | openWrite | openError =>
    rw [kind] at writes
    cases writes

theorem broadcast_none (calls : List (Call D)) : broadcast false false calls = calls := by
  have same : ∀ call ∈ calls, { call with
      asleep := call.asleep && !(if call.work.atReaders then false else false) } = id call := by
    intro call _
    rw [ite_self, Bool.not_false, Bool.and_true]
    rfl
  rw [broadcast, List.map_congr_left same, List.map_id]

variable {mode : Mode}

/-- The release in progress has woken all calls that it left without a partner. -/
theorem Serving.settled (serving : Serving pipeBuf sys pipe)
    (releasing : sys.releasing = some mode) (readers writers : Bool)
    (woken : (pipe.readers = 0 → mode ≠ .write → writers = true) ∧ (pipe.writers = 0 → mode ≠ .read → readers = true))
    :
    Serving pipeBuf
      { sys with calls := Fifo.broadcast readers writers sys.calls, releasing := none } pipe := by
  apply serving.broadcast
  intro call mem asleep
  obtain ⟨before, earlier, -, work, still⟩ := mem_broadcast mem
  obtain ⟨asleep, quiet⟩ := still asleep
  have reason := serving.asleep before earlier asleep
  rw [← work, releasing] at reason
  cases kind : call.work with
  | read count =>
    rw [kind] at reason quiet
    obtain ⟨empty, present | ⟨mode', same, other⟩⟩ := reason
    · exact ⟨empty, Or.inl present⟩
    · cases same
      refine ⟨empty, Or.inl (Nat.pos_of_ne_zero fun none => ?_)⟩
      exact absurd (woken.2 none other) (by rw [show readers = false from quiet]; decide)
  | write buf written chunk =>
    rw [kind] at reason quiet
    obtain ⟨full, present | ⟨mode', same, other⟩⟩ := reason
    · exact ⟨full, Or.inl present⟩
    · cases same
      refine ⟨full, Or.inl (Nat.pos_of_ne_zero fun none => ?_)⟩
      exact absurd (woken.1 none other) (by rw [show writers = false from quiet]; decide)
  | openRead | openWrite | openError => trivial

/-- The second part of a release. -/
theorem Serving.finishRelease (serving : Serving pipeBuf sys pipe)
    (present : sys.pipe = some pipe) (releasing : sys.releasing = some mode) :
    Sound pipeBuf (sys.finishRelease pipe mode) := by
  rw [System.finishRelease]
  by_cases last : pipe.readers = 0 ∧ pipe.writers = 0
  · rw [if_pos last]
    have descriptors : sys.descriptors = [] := by
      apply List.eq_nil_iff_forall_not_mem.mpr
      intro desc present
      have reads := List.countP_eq_zero.mp (serving.readers.symm.trans last.1) desc present
      have writes := List.countP_eq_zero.mp (serving.writers.symm.trans last.2) desc present
      cases kind : desc.mode with
      | read | readWrite => exact reads (by rw [kind]; rfl)
      | write => exact writes (by rw [kind]; rfl)
    have calls : sys.calls = [] := by
      apply List.eq_nil_iff_forall_not_mem.mpr
      intro call mem
      obtain ⟨desc, present, -⟩ := serving.named call mem
      rw [descriptors] at present
      cases present
    exact ⟨descriptors, calls, rfl⟩
  · rw [if_neg last]
    split
    case isTrue alone =>
      exact sound_of present (serving.settled releasing false true
        ⟨fun _ _ => rfl, fun none _ => absurd ⟨alone.1, none⟩ last⟩)
    case isFalse others =>
      split
      case isTrue alone =>
        exact sound_of present (serving.settled releasing true false
          ⟨fun none other => absurd ⟨none, other⟩ others, fun _ _ => rfl⟩)
      case isFalse rest =>
        have settled := serving.settled releasing false false
          ⟨fun none other => absurd ⟨none, other⟩ others, fun none other => absurd ⟨none, other⟩ rest⟩
        rw [broadcast_none] at settled
        exact sound_of present settled

theorem alloc_holds (positive : 0 < pipeBuf) : (pipeAlloc pipeBuf).Holds :=
  ⟨positive, Nat.zero_le _, rfl, (fun _ mem => by cases mem)⟩

theorem System.find_some [DecidableEq D] (found : sys.find name = some desc) :
    desc ∈ sys.descriptors ∧ desc.name = name :=
  ⟨List.mem_of_find?_eq_some found, by simpa using List.find?_some found⟩

theorem System.opened_iff [DecidableEq D] (opened : sys.opened name = true) :
    ∀ call ∈ sys.calls, call.name = name → call.work.opening = false := by
  intro call mem same
  have either := List.all_eq_true.mp opened call mem
  obtain differs | ready := of_decide_eq_true either
  · exact absurd same differs
  · exact ready

/-- An open on a new or an existing pipe. -/
theorem Serving.enter (serving : Serving pipeBuf sys pipe) (quiet : sys.releasing = none)
    (name : D) (mode : Mode) (fresh : ∀ other ∈ sys.descriptors, other.name ≠ name) (nodelay : Bool) :
    Sound pipeBuf (System.after
      { sys with descriptors := sys.descriptors ++ [(⟨name, mode⟩ : Descriptor D)] } name
      (fifoOpen nodelay mode pipe)) :=
  sound_of rfl (serving.openDescriptor quiet ⟨name, mode⟩ fresh nodelay)

/-- Every section keeps what holds. -/
theorem Sound.step [DecidableEq D] (positive : 0 < pipeBuf) {next : System D} {action : Action D}
    (sound : Sound pipeBuf sys) (taken : step pipeBuf sys action = some next) :
    Sound pipeBuf next := by
  cases action with
  | openDescriptor name mode nodelay memory =>
    rw [Fifo.step] at taken
    split at taken
    case isTrue free =>
      obtain ⟨quiet, absent⟩ := free
      have fresh : ∀ other ∈ sys.descriptors, other.name ≠ name := by
        intro other present same
        exact List.find?_eq_none.mp absent other present (by simpa using same)
      split at taken
      next pipe present =>
        cases taken
        exact (sound.serving present).enter quiet name mode fresh nodelay
      next present =>
        split at taken
        case isTrue =>
          cases taken
          rw [Sound, present] at sound
          obtain ⟨descriptors, calls, -⟩ := sound
          have serving : Serving pipeBuf sys (pipeAlloc pipeBuf) := by
            constructor
            case size => rfl
            case holds => exact alloc_holds positive
            case distinct => rw [descriptors]; exact List.nodup_nil
            case readers => rw [descriptors]; rfl
            case writers => rw [descriptors]; rfl
            case waitingReaders => rw [calls]; rfl
            case waitingWriters => rw [calls]; rfl
            case named => rw [calls]; intro call mem; cases mem
            case compatible => rw [calls]; exact List.Pairwise.nil
            case sensible => rw [calls]; intro call mem; cases mem
            case asleep => rw [calls]; intro call mem; cases mem
          exact serving.enter quiet name mode fresh nodelay
        case isFalse =>
          cases taken
          exact sound
    case isFalse => cases taken
  | read name nodelay count =>
    rw [Fifo.step] at taken
    split at taken
    next pipe desc present found =>
      split at taken
      case isTrue ready =>
        cases taken
        obtain ⟨mem, rfl⟩ := System.find_some found
        have serving := sound.serving present
        have outcome := pipeRead_outcome nodelay count pipe
        refine sound_of rfl (serving.call (pipeRead_effect serving.holds nodelay count) mem ?_ ?_
          (System.opened_iff ready.2))
        · intro work wait
          obtain same | ⟨answer, done⟩ := outcome
          · obtain rfl := Outcome.wait.inj (wait.symm.trans same)
            exact ⟨ready.1, rfl⟩
          · rw [done] at wait
            cases wait
        · intro release
          obtain same | ⟨answer, done⟩ := outcome
          · rw [same] at release
            cases release
          · rw [done] at release
            cases release
      case isFalse => cases taken
    next => cases taken
  | write name nodelay buf =>
    rw [Fifo.step] at taken
    split at taken
    next pipe desc present found =>
      split at taken
      case isTrue ready =>
        cases taken
        obtain ⟨mem, rfl⟩ := System.find_some found
        have serving := sound.serving present
        have outcome := pipeWrite_outcome nodelay buf pipe
        refine sound_of rfl (serving.call (pipeWrite_effect serving.holds nodelay buf) mem ?_ ?_
          (System.opened_iff ready.2))
        · intro work wait
          obtain ⟨written, chunk, same⟩ | ⟨answer, done⟩ := outcome
          · obtain rfl := Outcome.wait.inj (wait.symm.trans same)
            exact ⟨ready.1, rfl⟩
          · rw [done] at wait
            cases wait
        · intro release
          obtain ⟨written, chunk, same⟩ | ⟨answer, done⟩ := outcome
          · rw [same] at release
            cases release
          · rw [done] at release
            cases release
      case isFalse => cases taken
    next => cases taken
  | resume index nodelay =>
    rw [Fifo.step] at taken
    split at taken
    next pipe call present found =>
      have serving := sound.serving present
      obtain ⟨inside, rfl⟩ := List.getElem?_eq_some_iff.mp found
      have calls : sys.calls =
          sys.calls.take index ++ sys.calls[index] :: sys.calls.drop (index + 1) := by
        rw [List.getElem_cons_drop, List.take_append_drop]
      have erased : sys.calls.eraseIdx index =
          sys.calls.take index ++ sys.calls.drop (index + 1) := List.eraseIdx_eq_take_drop_succ _ _
      split at taken
      case isTrue => cases taken
      case isFalse =>
        split at taken
        case isTrue failed =>
          split at taken
          next desc quiet found =>
            cases taken
            obtain ⟨mem, name⟩ := System.find_some found
            have left := serving.leave calls
            rw [failed, show leave .openError pipe = pipe from rfl] at left
            rw [erased]
            refine sound_of rfl (left.release quiet mem ?_)
            exact fun other earlier same => serving.lone calls (by rw [failed]; rfl) other earlier
              (same.trans name)
          next => cases taken
        case isFalse other =>
          cases taken
          rw [erased]
          exact sound_of rfl (serving.resume calls nodelay other)
    next => cases taken
  | close name =>
    rw [Fifo.step] at taken
    split at taken
    next pipe desc present quiet found =>
      split at taken
      case isTrue unused =>
        cases taken
        obtain ⟨mem, rfl⟩ := System.find_some found
        have serving := sound.serving present
        refine sound_of rfl (serving.release quiet mem ?_)
        intro call present
        exact of_decide_eq_true (List.all_eq_true.mp unused call present)
      case isFalse => cases taken
    next => cases taken
  | finishRelease =>
    rw [Fifo.step] at taken
    split at taken
    next pipe mode present releasing =>
      cases taken
      exact (sound.serving present).finishRelease present releasing
    next => cases taken

/-- No pipe. -/
def start : System Nat := ⟨none, [], [], none⟩

theorem start_initial : Initial start := rfl

end Rtems.Fifo
