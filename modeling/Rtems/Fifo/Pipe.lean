import Rtems.Library.RingBuffer

/-!
# Pipes

A pipe is a queue of bytes in a ring buffer. Reads and writes wait for bytes and for space on two
barriers. Every operation on a pipe is a sequence of sections: a section begins when the mutex of the
pipe is taken and ends when it is released, either for good or to wait at a barrier. A broadcast wakes all
that wait at a barrier.
-/

namespace Rtems.Fifo

/-- `LIBIO_ACCMODE` -/
inductive Mode where
  | read
  | write
  | readWrite
deriving DecidableEq, Repr

def Mode.reads : Mode → Bool
  | .write => false
  | _ => true

def Mode.writes : Mode → Bool
  | .read => false
  | _ => true

/-- A piece of the buffer of a writer that was copied to the pipe. -/
structure Store where
  buffer : List UInt8
  piece : List UInt8

/-- `pipe_control_t`, with all that was stored in the pipe and all that was read from it. -/
structure PipeControl where
  buffer : Nat → UInt8
  size : Nat
  start : Nat
  length : Nat
  readers : Nat
  writers : Nat
  waitingReaders : Nat
  waitingWriters : Nat
  readerCounter : Nat
  writerCounter : Nat
  stores : List Store
  reads : List (List UInt8)

/-- `PIPE_SPACE` -/
def PipeControl.space (pipe : PipeControl) : Nat := pipe.size - pipe.length

/-- `PIPE_WSTART` -/
def PipeControl.wstart (pipe : PipeControl) : Nat := (pipe.start + pipe.length) % pipe.size

/-- The bytes in the pipe. -/
def PipeControl.contents (pipe : PipeControl) : List UInt8 :=
  RingBuffer.contents pipe.size pipe.buffer pipe.start pipe.length

/-- All bytes that were stored. -/
def PipeControl.written (pipe : PipeControl) : List UInt8 := (pipe.stores.map Store.piece).flatten

inductive Errno where
  | again
  | brokenPipe
  | noDevice
deriving DecidableEq, Repr

/-- What an operation returns. -/
inductive Answer where
  | opened
  | bytes (read : List UInt8)
  | count (written : Nat)
  | error (errno : Errno)
deriving DecidableEq, Repr

/-- Where an operation continues after a wait, with its local variables. The open that failed has no more
to do than to release the pipe. -/
inductive Work where
  | openRead (prevCounter : Nat)
  | openWrite (prevCounter : Nat)
  | openError
  | read (count : Nat)
  | write (buffer : List UInt8) (written chunk : Nat)
deriving DecidableEq, Repr

/-- A section ends with a wait or with the result of the operation, or an open failed and goes on to
release the pipe. -/
inductive Outcome where
  | wait (work : Work)
  | done (answer : Answer)
  | release

/-- What a section leaves, and the barriers at which it broadcasts. -/
structure Section where
  pipe : PipeControl
  wakeReaders : Bool
  wakeWriters : Bool
  outcome : Outcome

/-- `pipe_alloc` -/
def pipeAlloc (pipeBuf : Nat) : PipeControl where
  buffer _ := 0
  size := pipeBuf
  start := 0
  length := 0
  readers := 0
  writers := 0
  waitingReaders := 0
  waitingWriters := 0
  readerCounter := 0
  writerCounter := 0
  stores := []
  reads := []

/-- Increment an `unsigned int`. -/
def increment (counter : Nat) : Nat := (counter + 1) % 2 ^ 32

/-- `fifo_open` up to the wait for a partner. -/
def fifoOpen (nodelay : Bool) (mode : Mode) (pipe : PipeControl) : Section :=
  match mode with
  | .read =>
    let opened :=
      { pipe with readerCounter := increment pipe.readerCounter, readers := pipe.readers + 1 }
    { pipe := opened
      wakeReaders := false
      wakeWriters := decide (pipe.readers = 0)
      outcome :=
        if pipe.writers = 0 ∧ nodelay = false then .wait (.openRead pipe.writerCounter)
        else .done .opened }
  | .write =>
    let opened :=
      { pipe with writerCounter := increment pipe.writerCounter, writers := pipe.writers + 1 }
    { pipe := opened
      wakeReaders := decide (pipe.writers = 0)
      wakeWriters := false
      outcome :=
        if pipe.readers = 0 then
          if nodelay then .release else .wait (.openWrite pipe.readerCounter)
        else .done .opened }
  | .readWrite =>
    { pipe :=
        { pipe with
          readerCounter := increment pipe.readerCounter
          readers := pipe.readers + 1
          writerCounter := increment pipe.writerCounter
          writers := pipe.writers + 1 }
      wakeReaders := decide (pipe.writers = 0)
      wakeWriters := decide (pipe.readers = 0)
      outcome := .done .opened }

/-- `pipe_read` from the test of its loop on. -/
def pipeRead (nodelay : Bool) (count : Nat) (pipe : PipeControl) : Section :=
  if pipe.length = 0 then
    if pipe.writers = 0 then ⟨pipe, false, false, .done (.bytes [])⟩
    else if nodelay then ⟨pipe, false, false, .done (.error .again)⟩
    else ⟨{ pipe with waitingReaders := pipe.waitingReaders + 1 }, false, false, .wait (.read count)⟩
  else
    let chunk := min count pipe.length
    let bytes := RingBuffer.read pipe.size pipe.buffer pipe.start chunk
    let start := (pipe.start + chunk) % pipe.size
    let length := pipe.length - chunk
    { pipe :=
        { pipe with
          start := if length = 0 then 0 else start
          length := length
          reads := pipe.reads ++ [bytes] }
      wakeReaders := false
      wakeWriters := decide (0 < pipe.waitingWriters)
      outcome := .done (.bytes bytes) }

/-- The result of a write, which is what it wrote as long as this is positive. -/
def writeResult (written : Nat) (errno : Errno) : Outcome :=
  if 0 < written then .done (.count written) else .done (.error errno)

/-- `pipe_write` from the test of the inner loop on. Every round but the last stores a byte. -/
def writeLoop (nodelay : Bool) (buffer : List UInt8) : Nat → Nat → Nat → Bool → PipeControl → Section
  | 0, written, chunk, wake, pipe => ⟨pipe, wake, false, .wait (.write buffer written chunk)⟩
  | fuel + 1, written, chunk, wake, pipe =>
    if pipe.space < chunk then
      if nodelay then ⟨pipe, wake, false, writeResult written .again⟩
      else
        ⟨{ pipe with waitingWriters := pipe.waitingWriters + 1 }, wake, false,
          .wait (.write buffer written chunk)⟩
    else
      let chunk := min (buffer.length - written) pipe.space
      let piece := (buffer.drop written).take chunk
      let stored :=
        { pipe with
          buffer := RingBuffer.write pipe.size pipe.buffer pipe.wstart piece
          length := pipe.length + chunk
          stores := pipe.stores ++ [⟨buffer, piece⟩] }
      let wake := wake || decide (0 < pipe.waitingReaders)
      let written := written + chunk
      -- an int of 2 ^ 31 is negative, and as a size it is more than the bytes of any object
      if 2 ^ 31 ≤ written then ⟨stored, wake, false, .done (.count 0)⟩
      else if written < buffer.length then writeLoop nodelay buffer fuel written 1 wake stored
      else ⟨stored, wake, false, .done (.count written)⟩

/-- `pipe_write` up to its end or its first wait. -/
def pipeWrite (nodelay : Bool) (buffer : List UInt8) (pipe : PipeControl) : Section :=
  if buffer.length = 0 then ⟨pipe, false, false, .done (.count 0)⟩
  else if pipe.readers = 0 then ⟨pipe, false, false, .done (.error .brokenPipe)⟩
  else
    let chunk := if buffer.length ≤ pipe.size then buffer.length else 1
    writeLoop nodelay buffer (buffer.length + 1) 0 chunk false pipe

def Work.isRead : Work → Bool
  | .read _ => true
  | _ => false

def Work.isWrite : Work → Bool
  | .write _ _ _ => true
  | _ => false

/-- A wait is over. -/
def leave (work : Work) (pipe : PipeControl) : PipeControl :=
  { pipe with
    waitingReaders := if work.isRead then pipe.waitingReaders - 1 else pipe.waitingReaders
    waitingWriters := if work.isWrite then pipe.waitingWriters - 1 else pipe.waitingWriters }

/-- An operation after its wait. -/
def resume (nodelay : Bool) (work : Work) (pipe : PipeControl) : Section :=
  match work with
  | .openRead prevCounter =>
    { pipe := pipe
      wakeReaders := false
      wakeWriters := false
      outcome :=
        if prevCounter = pipe.writerCounter then .wait (.openRead prevCounter) else .done .opened }
  | .openWrite prevCounter =>
    { pipe := pipe
      wakeReaders := false
      wakeWriters := false
      outcome :=
        if prevCounter = pipe.readerCounter then .wait (.openWrite prevCounter) else .done .opened }
  | .openError => ⟨pipe, false, false, .release⟩
  | .read count => pipeRead nodelay count pipe
  | .write buffer written chunk =>
    if pipe.readers = 0 then ⟨pipe, false, false, writeResult written .brokenPipe⟩
    else writeLoop nodelay buffer (buffer.length + 1) written chunk false pipe

/-- The section of `pipe_release`. -/
def pipeRelease (mode : Mode) (pipe : PipeControl) : PipeControl :=
  { pipe with
    readers := if mode.reads then pipe.readers - 1 else pipe.readers
    writers := if mode.writes then pipe.writers - 1 else pipe.writers }

/-- The queue in a pipe. -/
structure PipeControl.Holds (pipe : PipeControl) : Prop where
  start : pipe.start < pipe.size
  length : pipe.length ≤ pipe.size
  queue : pipe.reads.flatten ++ pipe.contents = pipe.written
  whole : ∀ store ∈ pipe.stores, store.buffer.length ≤ pipe.size → store.piece = store.buffer

/-- The counters of a pipe that a section which neither opens nor closes leaves alone. -/
structure Kept (before after : PipeControl) : Prop where
  size : after.size = before.size
  readers : after.readers = before.readers
  writers : after.writers = before.writers

theorem Kept.refl (pipe : PipeControl) : Kept pipe pipe := ⟨rfl, rfl, rfl⟩

/-- The waits that begin with an outcome. -/
def Outcome.waits (counted : Work → Bool) : Outcome → Nat
  | .wait work => if counted work then 1 else 0
  | _ => 0

/-- The local variables of a writer. -/
def Work.Sensible (size : Nat) : Work → Prop
  | .write buffer written chunk =>
    written < buffer.length ∧ 0 < chunk ∧
      (buffer.length ≤ size → written = 0 ∧ chunk = buffer.length)
  | _ => True

/-- A reason to wait. -/
def Work.Blocked (pipe : PipeControl) : Work → Prop
  | .read _ => pipe.length = 0 ∧ 0 < pipe.writers
  | .write _ _ chunk => pipe.space < chunk ∧ 0 < pipe.readers
  | _ => True

/-- What a section does that neither opens nor closes a descriptor. -/
structure Effect (pipe : PipeControl) (part : Section) : Prop where
  holds : part.pipe.Holds
  kept : Kept pipe part.pipe
  waitingReaders : part.pipe.waitingReaders = pipe.waitingReaders + part.outcome.waits Work.isRead
  waitingWriters : part.pipe.waitingWriters = pipe.waitingWriters + part.outcome.waits Work.isWrite
  filled : part.wakeReaders = false → 0 < pipe.waitingReaders → part.pipe.length ≤ pipe.length
  freed : part.wakeWriters = false → 0 < pipe.waitingWriters → part.pipe.space ≤ pipe.space
  blocked : ∀ work, part.outcome = .wait work → work.Blocked part.pipe ∧ work.Sensible part.pipe.size

variable {pipe : PipeControl}

/-- A section that leaves the pipe alone. -/
theorem PipeControl.Holds.idle (holds : pipe.Holds) (outcome : Outcome)
    (other : ∀ work, outcome = .wait work → work.isRead = false ∧ work.isWrite = false)
    (readers writers : Bool) : Effect pipe ⟨pipe, readers, writers, outcome⟩ := by
  have waits : outcome.waits Work.isRead = 0 ∧ outcome.waits Work.isWrite = 0 ∧
      ∀ work, outcome = .wait work → work.Blocked pipe ∧ work.Sensible pipe.size := by
    cases outcome with
    | wait work =>
      obtain ⟨read, write⟩ := other work rfl
      refine ⟨by rw [Outcome.waits, read]; rfl, by rw [Outcome.waits, write]; rfl, ?_⟩
      intro work same
      obtain rfl := Outcome.wait.inj same
      cases work with
      | read count => cases read
      | write buf written chunk => cases write
      | openRead | openWrite | openError => exact ⟨trivial, trivial⟩
    | done | release => exact ⟨rfl, rfl, fun _ same => by cases same⟩
  exact ⟨holds, Kept.refl pipe, by rw [waits.1]; rfl, by rw [waits.2.1]; rfl,
    fun _ _ => Nat.le_refl _, fun _ _ => Nat.le_refl _, waits.2.2⟩

theorem pipeRead_effect (holds : pipe.Holds) (nodelay : Bool) (count : Nat) :
    Effect pipe (pipeRead nodelay count pipe) := by
  rw [pipeRead]
  by_cases empty : pipe.length = 0
  · rw [if_pos empty]
    by_cases alone : pipe.writers = 0
    · rw [if_pos alone]
      exact holds.idle _ (by simp) false false
    · rw [if_neg alone]
      cases nodelay with
      | true => exact holds.idle _ (by simp) false false
      | false =>
        constructor
        case holds => exact { holds with }
        case kept => exact ⟨rfl, rfl, rfl⟩
        case waitingReaders => rfl
        case waitingWriters => rfl
        case filled => exact fun _ _ => Nat.le_refl _
        case freed => exact fun _ _ => Nat.le_refl _
        case blocked =>
          intro work wait
          obtain rfl := Outcome.wait.inj wait
          exact ⟨⟨empty, Nat.pos_of_ne_zero alone⟩, trivial⟩
  · rw [if_neg empty]
    have fits : min count pipe.length ≤ pipe.length := Nat.min_le_right _ _
    have sized := holds.length
    have positive : 0 < pipe.size := by omega
    have parts : pipe.contents =
        RingBuffer.contents pipe.size pipe.buffer pipe.start (min count pipe.length) ++
          RingBuffer.contents pipe.size pipe.buffer (pipe.start + min count pipe.length)
            (pipe.length - min count pipe.length) := by
      rw [PipeControl.contents, ← RingBuffer.contents_add, Nat.add_sub_cancel' fits]
    constructor
    case holds =>
      constructor
      case start =>
        dsimp only
        split
        · exact positive
        · exact Nat.mod_lt _ positive
      case length => exact Nat.le_trans (Nat.sub_le _ _) sized
      case queue =>
        have queue := holds.queue
        rw [parts] at queue
        have rest : RingBuffer.contents pipe.size pipe.buffer
            (if pipe.length - min count pipe.length = 0 then 0
              else (pipe.start + min count pipe.length) % pipe.size)
            (pipe.length - min count pipe.length) =
            RingBuffer.contents pipe.size pipe.buffer (pipe.start + min count pipe.length)
              (pipe.length - min count pipe.length) := by
          split
          case isTrue none => rw [none, RingBuffer.contents_zero, RingBuffer.contents_zero]
          case isFalse more => exact RingBuffer.contents_mod
        rw [PipeControl.contents, PipeControl.written]
        dsimp only
        rw [rest, RingBuffer.read_eq holds.start (Nat.le_trans fits sized), List.flatten_append,
          List.flatten_singleton, List.append_assoc]
        exact queue
      case whole => exact holds.whole
    case kept => exact ⟨rfl, rfl, rfl⟩
    case waitingReaders => rfl
    case waitingWriters => rfl
    case filled => exact fun _ _ => Nat.sub_le _ _
    case freed =>
      intro quiet waiting
      exact absurd waiting (of_decide_eq_false quiet)
    case blocked =>
      intro work wait
      cases wait

/-- Once a section broadcasts, it goes on to do so. -/
theorem writeLoop_wake (nodelay : Bool) (buf : List UInt8) (fuel written chunk : Nat)
    (pipe : PipeControl) : (writeLoop nodelay buf fuel written chunk true pipe).wakeReaders = true := by
  induction fuel generalizing written chunk pipe with
  | zero => rfl
  | succ fuel ih =>
    rw [writeLoop]
    split
    · split
      · rfl
      · rfl
    · dsimp only
      split
      · rfl
      · split
        · exact ih _ _ _
        · rfl

theorem idle_result {written : Nat} {errno : Errno} {work : Work}
    (wait : writeResult written errno = .wait work) : False := by
  rw [writeResult] at wait
  split at wait
  · cases wait
  · cases wait

/-- The pipe after bytes were stored. -/
theorem stored_holds (holds : pipe.Holds) {buf piece : List UInt8} (fits : piece.length ≤ pipe.space)
    (whole : buf.length ≤ pipe.size → piece = buf) :
    PipeControl.Holds { pipe with
        buffer := RingBuffer.write pipe.size pipe.buffer pipe.wstart piece
        length := pipe.length + piece.length
        stores := pipe.stores ++ [⟨buf, piece⟩] } := by
  rw [PipeControl.space] at fits
  have sized := holds.length
  constructor
  case start => exact holds.start
  case length =>
    show pipe.length + piece.length ≤ pipe.size
    omega
  case queue =>
    rw [PipeControl.contents, PipeControl.written]
    rw [PipeControl.wstart, RingBuffer.contents_write holds.start (by omega), List.map_append,
      List.flatten_append, ← List.append_assoc]
    have queue := holds.queue
    rw [PipeControl.contents, PipeControl.written] at queue
    rw [queue, List.map_singleton, List.flatten_singleton]
  case whole =>
    intro store member
    obtain earlier | last := List.mem_append.mp member
    · exact holds.whole store earlier
    · rw [List.mem_singleton.mp last]
      exact whole

theorem writeLoop_effect (holds : pipe.Holds) (present : 0 < pipe.readers) (nodelay : Bool)
    {buf : List UInt8} {fuel written chunk : Nat} (enough : buf.length - written < fuel)
    (sensible : (Work.write buf written chunk).Sensible pipe.size) (wake : Bool) :
    Effect pipe (writeLoop nodelay buf fuel written chunk wake pipe) := by
  induction fuel generalizing written chunk wake pipe with
  | zero => omega
  | succ fuel ih =>
    obtain ⟨more, positive, whole⟩ := sensible
    rw [writeLoop]
    by_cases full : pipe.space < chunk
    · rw [if_pos full]
      cases nodelay with
      | true =>
        have idle := holds.idle (writeResult written .again)
          (fun work wait => (idle_result wait).elim) false false
        exact ⟨idle.holds, idle.kept, idle.waitingReaders, idle.waitingWriters,
          fun _ _ => Nat.le_refl _, fun _ _ => Nat.le_refl _, idle.blocked⟩
      | false =>
        constructor
        case holds => exact { holds with }
        case kept => exact ⟨rfl, rfl, rfl⟩
        case waitingReaders => rfl
        case waitingWriters => rfl
        case filled => exact fun _ _ => Nat.le_refl _
        case freed => exact fun _ _ => Nat.le_refl _
        case blocked =>
          intro work wait
          obtain rfl := Outcome.wait.inj wait
          exact ⟨⟨full, present⟩, more, positive, whole⟩
    · rw [if_neg full]
      dsimp only
      have amount : ((buf.drop written).take (min (buf.length - written) pipe.space)).length =
          min (buf.length - written) pipe.space := by
        rw [List.length_take, List.length_drop]
        omega
      have complete : buf.length ≤ pipe.size →
          (buf.drop written).take (min (buf.length - written) pipe.space) = buf := by
        intro small
        obtain ⟨rfl, rfl⟩ := whole small
        rw [Nat.sub_zero, Nat.min_eq_left (by omega), List.drop_zero, List.take_length]
      have stored := stored_holds holds (by rw [amount]; exact Nat.min_le_right _ _) complete
      rw [amount] at stored
      have noisy : (wake || decide (0 < pipe.waitingReaders)) = false → ¬ 0 < pipe.waitingReaders :=
        fun quiet => of_decide_eq_false (Bool.or_eq_false_iff.mp quiet).2
      have space : pipe.size - (pipe.length + min (buf.length - written) pipe.space) ≤ pipe.space := by
        rw [PipeControl.space]
        omega
      have finished : ∀ answer, Effect pipe ⟨{ pipe with
              buffer := RingBuffer.write pipe.size pipe.buffer pipe.wstart
                ((buf.drop written).take (min (buf.length - written) pipe.space))
              length := pipe.length + min (buf.length - written) pipe.space
              stores := pipe.stores ++
                [⟨buf, (buf.drop written).take (min (buf.length - written) pipe.space)⟩] },
            wake || decide (0 < pipe.waitingReaders), false, .done answer⟩ := by
        intro answer
        constructor
        case holds => exact stored
        case kept => exact ⟨rfl, rfl, rfl⟩
        case waitingReaders => rfl
        case waitingWriters => rfl
        case filled => exact fun quiet waiting => absurd waiting (noisy quiet)
        case freed => exact fun _ _ => space
        case blocked =>
          intro work wait
          cases wait
      split
      · exact finished _
      · split
        case isTrue left =>
          have rest := @ih _ stored present (written + min (buf.length - written) pipe.space)
            1 (by omega) ⟨left, by decide, ?_⟩ (wake || decide (0 < pipe.waitingReaders))
          · refine { rest with
              kept := { rest.kept with }, filled := ?filled
              freed := ?freed }
            case filled =>
              intro quiet waiting
              have noise : (wake || decide (0 < pipe.waitingReaders)) = true := by
                rw [decide_eq_true waiting, Bool.or_true]
              rw [noise, writeLoop_wake] at quiet
              cases quiet
            case freed => exact fun quiet waiting => Nat.le_trans (rest.freed quiet waiting) space
          · intro small
            obtain ⟨rfl, rfl⟩ := whole small
            omega
        case isFalse => exact finished _

theorem pipeWrite_effect (holds : pipe.Holds) (nodelay : Bool) (buf : List UInt8) :
    Effect pipe (pipeWrite nodelay buf pipe) := by
  rw [pipeWrite]
  by_cases none : buf.length = 0
  · rw [if_pos none]
    exact holds.idle _ (by simp) false false
  · rw [if_neg none]
    by_cases alone : pipe.readers = 0
    · rw [if_pos alone]
      exact holds.idle _ (by simp) false false
    · rw [if_neg alone]
      apply writeLoop_effect holds (Nat.pos_of_ne_zero alone) nodelay (by omega)
      refine ⟨Nat.pos_of_ne_zero none, ?_, ?_⟩
      · split
        · exact Nat.pos_of_ne_zero none
        · exact Nat.one_pos
      · intro small
        exact ⟨rfl, if_pos small⟩

/-- Every section after a wait. -/
theorem resume_effect (holds : pipe.Holds) (nodelay : Bool) {work : Work}
    (sensible : work.Sensible pipe.size) : Effect pipe (resume nodelay work pipe) := by
  cases work with
  | openRead | openWrite =>
    apply holds.idle
    intro work wait
    split at wait
    · obtain rfl := Outcome.wait.inj wait
      exact ⟨rfl, rfl⟩
    · cases wait
  | openError => exact holds.idle _ (by simp) false false
  | read count => exact pipeRead_effect holds nodelay count
  | write buf written chunk =>
    rw [resume]
    by_cases alone : pipe.readers = 0
    · rw [if_pos alone]
      exact holds.idle _ (fun work wait => (idle_result wait).elim) false false
    · rw [if_neg alone]
      exact writeLoop_effect holds (Nat.pos_of_ne_zero alone) nodelay (by omega) sensible false

theorem pipeRead_outcome (nodelay : Bool) (count : Nat) (pipe : PipeControl) :
    (pipeRead nodelay count pipe).outcome = .wait (.read count) ∨
      ∃ answer, (pipeRead nodelay count pipe).outcome = .done answer := by
  rw [pipeRead]
  split
  · split
    · exact Or.inr ⟨_, rfl⟩
    · split
      · exact Or.inr ⟨_, rfl⟩
      · exact Or.inl rfl
  · exact Or.inr ⟨_, rfl⟩

theorem writeResult_done (written : Nat) (errno : Errno) :
    ∃ answer, writeResult written errno = .done answer := by
  rw [writeResult]
  split
  · exact ⟨_, rfl⟩
  · exact ⟨_, rfl⟩

theorem writeLoop_outcome (nodelay : Bool) (buf : List UInt8) (fuel written chunk : Nat) (wake : Bool)
    (pipe : PipeControl) :
    (∃ written' chunk', (writeLoop nodelay buf fuel written chunk wake pipe).outcome =
        .wait (.write buf written' chunk')) ∨
      ∃ answer, (writeLoop nodelay buf fuel written chunk wake pipe).outcome = .done answer := by
  induction fuel generalizing written chunk wake pipe with
  | zero => exact Or.inl ⟨written, chunk, rfl⟩
  | succ fuel ih =>
    rw [writeLoop]
    split
    · split
      · exact Or.inr (writeResult_done _ _)
      · exact Or.inl ⟨_, _, rfl⟩
    · dsimp only
      split
      · exact Or.inr ⟨_, rfl⟩
      · split
        · exact ih _ _ _ _
        · exact Or.inr ⟨_, rfl⟩

theorem pipeWrite_outcome (nodelay : Bool) (buf : List UInt8) (pipe : PipeControl) :
    (∃ written chunk, (pipeWrite nodelay buf pipe).outcome = .wait (.write buf written chunk)) ∨
      ∃ answer, (pipeWrite nodelay buf pipe).outcome = .done answer := by
  rw [pipeWrite]
  split
  · exact Or.inr ⟨_, rfl⟩
  · split
    · exact Or.inr ⟨_, rfl⟩
    · exact writeLoop_outcome _ _ _ _ _ _ _

end Rtems.Fifo
