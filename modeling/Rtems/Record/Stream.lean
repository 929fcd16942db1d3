import Rtems.Library.Framing
import Rtems.Record.Client

/-!
# Record streams

A record stream starts with a header of two words. Its first word tells the width and the
byte order of the items, the second one is checked. The bytes may arrive in any pieces.
-/

namespace Rtems.Record.Stream

open ByteString
open Framing
open Rtems.Record.Client

/-- The byte order of the processor that runs the client, or of a stream. -/
inductive ByteOrder where
  | little
  | big
deriving DecidableEq

/-- A number of some bytes in memory. -/
def load (order : ByteOrder) (count : Nat) (bytes : List UInt8) : Nat :=
  match order with
  | .big => read count bytes
  | .little => read count (bytes.take count).reverse

/-- `__builtin_bswap32` and `__builtin_bswap64`. -/
def byteSwap (count value : Nat) : Nat := read count (number count value).reverse

/-- `RTEMS_RECORD_FORMAT_LE_32`. -/
def formatLe32 : Nat := 0x11111111

/-- `RTEMS_RECORD_FORMAT_LE_64`. -/
def formatLe64 : Nat := 0x22222222

/-- `RTEMS_RECORD_FORMAT_BE_32`. -/
def formatBe32 : Nat := 0x33333333

/-- `RTEMS_RECORD_FORMAT_BE_64`. -/
def formatBe64 : Nat := 0x44444444

/-- `RTEMS_RECORD_MAGIC`. -/
def recordMagic : Nat := 0x82e14ec1

/-- The functions that consume the stream. -/
inductive Consumer where
  | init
  | native32
  | native64
  | swap32
  | swap64
deriving DecidableEq

/-- `rtems_record_client_context`. The bytes that were copied to the header or the item are
those before the position. -/
structure Context (σ : Type) where
  client : State σ
  consume : Consumer
  todo : Nat
  received : List UInt8

variable {σ : Type} (environment : Environment σ) (host : ByteOrder)

/-- A consumer of items of some size. -/
def consumeItems (size : Nat) (decode : List UInt8 → Nat × Nat) :
    Nat → Context σ → List UInt8 → Context σ × Status
  | 0, context, _ => (context, .success)
  | fuel + 1, context, buf =>
    if buf = [] then (context, .success)
    else
      let count := min context.todo buf.length
      let received := context.received ++ buf.take count
      if count = context.todo then
        let visited := visit environment context.client (decode received).1 (decode received).2
        let context := { context with client := visited.1, todo := size, received := [] }
        if visited.2 ≠ .success then (context, visited.2)
        else consumeItems size decode fuel context (buf.drop count)
      else
        consumeItems size decode fuel
          { context with todo := context.todo - count, received := received } (buf.drop count)

/-- An item of the 32-bit format. -/
def item32 (bytes : List UInt8) : Nat × Nat := (load host 4 bytes, load host 4 (bytes.drop 4))

/-- An item of the 64-bit format. -/
def item64 (bytes : List UInt8) : Nat × Nat := (load host 4 bytes, load host 8 (bytes.drop 4))

/-- An item of the 32-bit format in the other byte order. -/
def itemSwap32 (bytes : List UInt8) : Nat × Nat :=
  (byteSwap 4 (item32 host bytes).1, byteSwap 4 (item32 host bytes).2)

/-- An item of the 64-bit format in the other byte order. -/
def itemSwap64 (bytes : List UInt8) : Nat × Nat :=
  (byteSwap 4 (item64 host bytes).1, byteSwap 8 (item64 host bytes).2)

section

variable (context : Context σ) (buf : List UInt8)

/-- `consume_32`. -/
def consume32 : Context σ × Status :=
  consumeItems environment 8 (item32 host) buf.length context buf

/-- `consume_64`. -/
def consume64 : Context σ × Status :=
  consumeItems environment 12 (item64 host) buf.length context buf

/-- `consume_swap_32`. -/
def consumeSwap32 : Context σ × Status :=
  consumeItems environment 8 (itemSwap32 host) buf.length context buf

/-- `consume_swap_64`. -/
def consumeSwap64 : Context σ × Status :=
  consumeItems environment 12 (itemSwap64 host) buf.length context buf

/-- The formats that `consume_init` knows, with the size of an item and whether the magic
number is swapped. -/
def selectFormat (format : Nat) : Option (Consumer × Nat × Bool) :=
  match host with
  | .little =>
    if format = formatLe32 then some (.native32, 8, false)
    else if format = formatLe64 then some (.native64, 12, false)
    else if format = formatBe32 then some (.swap32, 8, true)
    else if format = formatBe64 then some (.swap64, 12, true)
    else none
  | .big =>
    if format = formatLe32 then some (.swap32, 8, true)
    else if format = formatLe64 then some (.swap64, 12, true)
    else if format = formatBe32 then some (.native32, 8, false)
    else if format = formatBe64 then some (.native64, 12, false)
    else none

/-- `rtems_record_client_run` behind the header. -/
def runItems : Context σ × Status :=
  match context.consume with
  | .init => (context, .success)
  | .native32 => consume32 environment host context buf
  | .native64 => consume64 environment host context buf
  | .swap32 => consumeSwap32 environment host context buf
  | .swap64 => consumeSwap64 environment host context buf

/-- The header is there. -/
def finishHeader (context : Context σ) (header : List UInt8) : Context σ × Status :=
  match selectFormat host (load host 4 header) with
  | none =>
    ({ context with client := (error context.client .unknownFormat).1 }, .unknownFormat)
  | some (consume, size, swapped) =>
    let magic := load host 4 (header.drop 4)
    let magic := if swapped then byteSwap 4 magic else magic
    let context := { context with consume := consume, todo := size, received := [] }
    if magic ≠ recordMagic then
      ({ context with client := (error context.client .invalidMagic).1 }, .invalidMagic)
    else (context, .success)

/-- The loop of `consume_init`. -/
def consumeHeader : Nat → Context σ → List UInt8 → Context σ × Status
  | 0, context, _ => (context, .success)
  | fuel + 1, context, buf =>
    if buf = [] then (context, .success)
    else
      let count := min context.todo buf.length
      let received := context.received ++ buf.take count
      if count = context.todo then
        let finished := finishHeader host context received
        if finished.2 ≠ .success then finished
        else runItems environment host finished.1 (buf.drop count)
      else
        consumeHeader fuel
          { context with todo := context.todo - count, received := received } (buf.drop count)

/-- `consume_init`. -/
def consumeInit : Context σ × Status := consumeHeader environment host buf.length context buf

/-- `rtems_record_client_run`. After an error it returns the status of `consume_error`. -/
def run : Context σ × Status :=
  if context.client.failed = true then (context, context.client.status)
  else if context.consume = .init then consumeInit environment host context buf
  else runItems environment host context buf

end

/-- A processor with nothing. -/
def clearedPerCpu : PerCpu where
  uptime := ⟨0, 0, 0⟩
  lastBt := 0
  uptimeLow := 0
  uptimeLowValid := false
  holdBack := true
  items := []
  itemCapacity := 0

/-- `rtems_record_client_init`. -/
def init (arg : σ) : Context σ where
  client :=
    { toBtScaler := 2 ^ 31
      perCpu := fun _ => clearedPerCpu
      cpu := 0
      cpuCount := 0
      perCpuItems := 0
      failed := false
      status := .success
      arg := arg }
  consume := .init
  todo := 8
  received := []

/-- Calls of `rtems_record_client_run` up to the first that does not succeed. -/
def runChunks : Context σ → List (List UInt8) → Context σ × Status
  | context, [] => (context, .success)
  | context, chunk :: rest =>
    let result := run environment host context chunk
    if result.2 ≠ .success then result else runChunks result.1 rest

/-- The client with the function that consumes the stream. -/
structure Stage (σ : Type) where
  client : State σ
  consume : Consumer

/-- The bytes of the header or of an item. -/
def frameSize : Consumer → Nat
  | .init | .native32 | .swap32 => 8
  | .native64 | .swap64 => 12

/-- An error unless it is a success. -/
def failure (status : Status) : Option Status := if status = .success then none else some status

/-- An item in the format of a consumer. -/
def decodeItem : Consumer → List UInt8 → Nat × Nat
  | .init => fun _ => (0, 0)
  | .native32 => item32 host
  | .native64 => item64 host
  | .swap32 => itemSwap32 host
  | .swap64 => itemSwap64 host

/-- What a whole header or item does. -/
def completeFrame (stage : Stage σ) (bytes : List UInt8) : Stage σ × Option Status :=
  if stage.consume = .init then
    let finished := finishHeader host ⟨stage.client, .init, 0, []⟩ bytes
    (⟨finished.1.client, finished.1.consume⟩, failure finished.2)
  else
    let item := decodeItem host stage.consume bytes
    let visited := visit environment stage.client item.1 item.2
    (⟨visited.1, stage.consume⟩, failure visited.2)

/-- The stream as a machine that takes frames. -/
def machine : Machine (Stage σ) UInt8 Status where
  need stage := frameSize stage.consume
  complete := completeFrame environment host

/-- The frame of a context. -/
def frameOf (context : Context σ) : Frame (Stage σ) UInt8 :=
  ⟨⟨context.client, context.consume⟩, context.received⟩

/-- The context of a frame. -/
def contextOf (frame : Frame (Stage σ) UInt8) : Context σ :=
  ⟨frame.state.client, frame.state.consume,
    frameSize frame.state.consume - frame.received.length, frame.received⟩

/-- A context waits for the rest of its frame. -/
structure Waiting (context : Context σ) : Prop where
  todo : context.todo + context.received.length = frameSize context.consume
  more : 0 < context.todo
  able : context.client.failed = false

theorem frameSize_pos (consume : Consumer) : 0 < frameSize consume := by
  cases consume <;> decide

variable {context : Context σ}

theorem Waiting.contextOf_frameOf (waiting : Waiting context) :
    contextOf (frameOf context) = context := by
  have size := waiting.todo
  rw [contextOf, frameOf]
  rw [← size, Nat.add_sub_cancel]

/-- The result of a run is that of the frames. The amount that an unknown header still waits
for is not told. -/
structure Agrees (result : Context σ × Status) (fed : Frame (Stage σ) UInt8 × Option Status) :
    Prop where
  client : result.1.client = fed.1.state.client
  status : failure result.2 = fed.2
  context : fed.2 = none → result.1 = contextOf fed.1 ∧ Waiting result.1

theorem failure_eq_none {status : Status} : failure status = none ↔ status = .success := by
  rw [failure]
  split <;> simp_all

theorem failure_of_ne {status : Status} (bad : status ≠ .success) : failure status = some status :=
  if_neg bad

theorem failure_injective {first second : Status} (same : failure first = failure second) :
    first = second := by
  by_cases good : first = .success
  · rw [good, failure_eq_none.mpr rfl] at same
    rw [good, failure_eq_none.mp same.symm]
  · rw [failure_of_ne good] at same
    by_cases fine : second = .success
    · rw [fine, failure_eq_none.mpr rfl] at same
      cases same
    · rw [failure_of_ne fine] at same
      exact Option.some.inj same

variable {environment host}

theorem Waiting.nothing (waiting : Waiting context) :
    Agrees (context, .success) (feed (machine environment host) (frameOf context) []) :=
  ⟨rfl, failure_eq_none.mpr rfl, fun _ => ⟨waiting.contextOf_frameOf.symm, waiting⟩⟩

/-- The bytes do not make the frame whole. -/
theorem Waiting.short (waiting : Waiting context) {buf : List UInt8}
    (short : buf.length < context.todo) :
    Waiting { context with todo := context.todo - buf.length, received := context.received ++ buf } ∧
      feed (machine environment host) (frameOf context) buf = feed (machine environment host)
          (frameOf { context with
            todo := context.todo - buf.length, received := context.received ++ buf }) [] := by
  have size := waiting.todo
  constructor
  · refine ⟨?_, Nat.sub_pos_of_lt short, waiting.able⟩
    dsimp only
    rw [List.length_append]
    omega
  · rw [feed_short]
    · rfl
    · have need : (machine environment host).need (frameOf context).state =
          frameSize context.consume := rfl
      have there : (frameOf context).received = context.received := rfl
      rw [need, there]
      omega

section

variable {context : Context σ} (waiting : Waiting context)
include waiting

/-- The bytes make the frame whole. -/
theorem Waiting.whole {buf : List UInt8} (enough : context.todo ≤ buf.length) :
    feed (machine environment host) (frameOf context) buf =
      match completeFrame environment host ⟨context.client, context.consume⟩
          (context.received ++ buf.take context.todo) with
      | (stage, none) => feed (machine environment host) ⟨stage, []⟩ (buf.drop context.todo)
      | (stage, some status) => (⟨stage, []⟩, some status) := by
  have size := waiting.todo
  have more := waiting.more
  have some_bytes : buf.take context.todo ≠ [] := by
    rw [← List.length_pos_iff, List.length_take]
    omega
  have whole : (frameOf context).received.length + (buf.take context.todo).length =
      (machine environment host).need (frameOf context).state := by
    rw [List.length_take, Nat.min_eq_left enough]
    exact (Nat.add_comm _ _).trans size
  have fed := feed_whole_append (frameOf context) _ (buf.drop context.todo) some_bytes whole
  have completed : (machine environment host).complete (frameOf context).state
      ((frameOf context).received ++ buf.take context.todo) =
      completeFrame environment host ⟨context.client, context.consume⟩
        (context.received ++ buf.take context.todo) := rfl
  rw [List.take_append_drop, completed] at fed
  rw [fed]
  obtain ⟨stage, outcome⟩ := completeFrame environment host ⟨context.client, context.consume⟩
    (context.received ++ buf.take context.todo)
  cases outcome <;> rfl

/-- A consumer of items takes frames. -/
theorem consumeItems_agrees {size : Nat}
    {decode : List UInt8 → Nat × Nat} (behind : context.consume ≠ .init)
    (sized : size = frameSize context.consume) (decoded : decode = decodeItem host context.consume)
    {fuel : Nat} {buf : List UInt8} (enough : buf.length ≤ fuel) :
    Agrees (consumeItems environment size decode fuel context buf)
      (feed (machine environment host) (frameOf context) buf) := by
  induction fuel generalizing context buf with
  | zero =>
    obtain rfl := List.eq_nil_of_length_eq_zero (Nat.le_zero.mp enough)
    exact waiting.nothing
  | succ fuel ih =>
    rw [consumeItems]
    split
    next empty =>
      rw [empty]
      exact waiting.nothing
    next some_bytes =>
      by_cases whole : context.todo ≤ buf.length
      · rw [Nat.min_eq_left whole, if_pos rfl, waiting.whole whole, completeFrame]
        dsimp only
        rw [if_neg behind, ← decoded]
        have more := waiting.more
        by_cases good : (visit environment context.client
            (decode (context.received ++ buf.take context.todo)).1
            (decode (context.received ++ buf.take context.todo)).2).2 = .success
        · rw [if_neg (not_not.mpr good), failure_eq_none.mpr good]
          refine @ih { context with
            client := (visit environment context.client
              (decode (context.received ++ buf.take context.todo)).1
              (decode (context.received ++ buf.take context.todo)).2).1
            todo := size
            received := [] } ⟨sized, ?_, ?_⟩ behind sized decoded _ ?_
          · rw [sized]
            exact frameSize_pos _
          · exact (visit_keeps context.client _ _ good).trans waiting.able
          · rw [List.length_drop]
            omega
        · rw [if_pos good, failure_of_ne good]
          exact ⟨rfl, failure_of_ne good, by rintro ⟨⟩⟩
      · have short := Nat.lt_of_not_le whole
        obtain ⟨later, same⟩ := @Waiting.short σ environment host context waiting buf short
        rw [Nat.min_eq_right (Nat.le_of_lt short), if_neg (Nat.ne_of_lt short), same,
          List.take_length, List.drop_length]
        exact ih later behind sized decoded (Nat.zero_le _)

theorem runItems_agrees (behind : context.consume ≠ .init) (buf : List UInt8) :
    Agrees (runItems environment host context buf)
      (feed (machine environment host) (frameOf context) buf) := by
  rw [runItems]
  split
  next same => exact absurd same behind
  all_goals
    rename_i same
    exact consumeItems_agrees waiting behind (by rw [same]; rfl) (by rw [same]; rfl) (Nat.le_refl _)

end

theorem selectFormat_some {format : Nat} {consume : Consumer} {size : Nat} {swapped : Bool}
    (selected : selectFormat host format = some (consume, size, swapped)) :
    consume ≠ .init ∧ size = frameSize consume := by
  cases host with
  | little | big =>
    simp only [selectFormat] at selected
    split at selected
    · cases selected
      exact ⟨by decide, rfl⟩
    split at selected
    · cases selected
      exact ⟨by decide, rfl⟩
    split at selected
    · cases selected
      exact ⟨by decide, rfl⟩
    split at selected
    · cases selected
      exact ⟨by decide, rfl⟩
    · cases selected

/-- A header is refused, or it tells the consumer of the items. -/
theorem finishHeader_cases (host : ByteOrder) (header : List UInt8) :
    (∃ status, status ≠ .success ∧ ∀ context : Context σ,
      (finishHeader host context header).2 = status ∧
        (finishHeader host context header).1.client = (error context.client status).1) ∨
    ∃ consume, consume ≠ .init ∧ ∀ context : Context σ, finishHeader host context header =
        (⟨context.client, consume, frameSize consume, []⟩, .success) := by
  cases selected : selectFormat host (load host 4 header) with
  | none =>
    left
    refine ⟨.unknownFormat, by decide, fun context => ?_⟩
    rw [finishHeader, selected]
    exact ⟨rfl, rfl⟩
  | some format =>
    obtain ⟨consume, size, swapped⟩ := format
    obtain ⟨behind, rfl⟩ := selectFormat_some selected
    by_cases good : (if swapped then byteSwap 4 (load host 4 (header.drop 4))
        else load host 4 (header.drop 4)) = recordMagic
    · right
      refine ⟨consume, behind, fun context => ?_⟩
      rw [finishHeader, selected]
      dsimp only
      rw [if_neg (not_not.mpr good)]
    · left
      refine ⟨.invalidMagic, by decide, fun context => ?_⟩
      rw [finishHeader, selected]
      dsimp only
      rw [if_pos good]
      exact ⟨rfl, rfl⟩

theorem Waiting.header {client : State σ} (able : client.failed = false) (consume : Consumer) :
    Waiting (⟨client, consume, frameSize consume, []⟩ : Context σ) :=
  ⟨rfl, frameSize_pos consume, able⟩

/-- The header is a frame, and behind it there are items. -/
theorem consumeHeader_agrees (waiting : Waiting context) (start : context.consume = .init)
    {fuel : Nat} {buf : List UInt8} (enough : buf.length ≤ fuel) :
    Agrees (consumeHeader environment host fuel context buf)
      (feed (machine environment host) (frameOf context) buf) := by
  induction fuel generalizing context buf with
  | zero =>
    obtain rfl := List.eq_nil_of_length_eq_zero (Nat.le_zero.mp enough)
    exact waiting.nothing
  | succ fuel ih =>
    rw [consumeHeader]
    split
    next empty =>
      rw [empty]
      exact waiting.nothing
    next some_bytes =>
      by_cases whole : context.todo ≤ buf.length
      · rw [Nat.min_eq_left whole, if_pos rfl, waiting.whole whole, completeFrame, if_pos start]
        dsimp only
        obtain ⟨status, bad, refused⟩ | ⟨consume, behind, taken⟩ :=
          @finishHeader_cases σ host (context.received ++ buf.take context.todo)
        · rw [(refused context).1, if_pos bad, (refused _).1, failure_of_ne bad]
          refine ⟨?_, ?_, by rintro ⟨⟩⟩
          · rw [(refused context).2, (refused _).2]
          · rw [(refused context).1, failure_of_ne bad]
        · rw [taken, taken, if_neg (not_not.mpr rfl), failure_eq_none.mpr rfl]
          exact runItems_agrees (Waiting.header waiting.able consume) behind _
      · have short := Nat.lt_of_not_le whole
        obtain ⟨later, same⟩ := @Waiting.short σ environment host context waiting buf short
        rw [Nat.min_eq_right (Nat.le_of_lt short), if_neg (Nat.ne_of_lt short), same,
          List.take_length, List.drop_length]
        exact ih later start (Nat.zero_le _)

/-- A call of the client takes frames. -/
theorem run_agrees (waiting : Waiting context) (buf : List UInt8) :
    Agrees (run environment host context buf)
      (feed (machine environment host) (frameOf context) buf) := by
  rw [run, if_neg (by rw [waiting.able]; decide)]
  split
  next start => exact consumeHeader_agrees waiting start (Nat.le_refl _)
  next behind => exact runItems_agrees waiting behind buf

/-- Calls of the client take frames in pieces. -/
theorem runChunks_agrees (waiting : Waiting context) (chunks : List (List UInt8)) :
    Agrees (runChunks environment host context chunks)
      (feedPieces (machine environment host) (frameOf context) chunks) := by
  induction chunks generalizing context with
  | nil => exact @Waiting.nothing σ environment host context waiting
  | cons chunk rest ih =>
    have agrees := @run_agrees σ environment host context waiting chunk
    rw [runChunks, feedPieces]
    generalize feed (machine environment host) (frameOf context) chunk = fed at agrees
    obtain ⟨next, outcome⟩ := fed
    cases outcome with
    | none =>
      obtain ⟨same, later⟩ := agrees.context rfl
      have good := failure_eq_none.mp agrees.status
      have stage : frameOf (run environment host context chunk).1 = next := by
        rw [same]
        rfl
      rw [if_neg (not_not.mpr good), ← stage]
      exact ih later
    | some failed =>
      have bad : (run environment host context chunk).2 ≠ .success := fun good => by
        have status := agrees.status
        rw [failure_eq_none.mpr good] at status
        cases status
      rw [if_pos bad]
      exact ⟨agrees.client, agrees.status, by rintro ⟨⟩⟩

theorem init_waiting (arg : σ) : Waiting (init arg) := Waiting.header rfl .init

/-- The pieces in which a stream arrives do not matter. -/
theorem runChunks_eq_run (arg : σ) (chunks : List (List UInt8)) :
    (runChunks environment host (init arg) chunks).1.client =
        (run environment host (init arg) chunks.flatten).1.client ∧
      (runChunks environment host (init arg) chunks).2 =
        (run environment host (init arg) chunks.flatten).2 := by
  have pieces := @runChunks_agrees σ environment host _ (init_waiting arg) chunks
  have whole := @run_agrees σ environment host _ (init_waiting arg) chunks.flatten
  rw [feedPieces_eq] at pieces
  exact ⟨pieces.client.trans whole.client.symm,
    failure_injective (pieces.status.trans whole.status.symm)⟩

section Encoding

/-- The width of the data of an item. -/
inductive Width where
  | bits32
  | bits64

/-- A number of some bytes for the memory. -/
def store (order : ByteOrder) (count value : Nat) : List UInt8 :=
  match order with
  | .big => number count value
  | .little => (number count value).reverse

/-- The format word of a stream. -/
def formatOf : ByteOrder → Width → Nat
  | .little, .bits32 => formatLe32
  | .little, .bits64 => formatLe64
  | .big, .bits32 => formatBe32
  | .big, .bits64 => formatBe64

/-- The bytes of the data of an item. -/
def dataBytes : Width → Nat
  | .bits32 => 4
  | .bits64 => 8

/-- An item in a stream. -/
def encodeItem (order : ByteOrder) (width : Width) (item : Item) : List UInt8 :=
  store order 4 item.event ++ store order (dataBytes width) item.data

/-- The header of a stream. -/
def encodeHeader (order : ByteOrder) (width : Width) : List UInt8 :=
  store order 4 (formatOf order width) ++ store order 4 recordMagic

/-- A stream of items. -/
def encode (order : ByteOrder) (width : Width) (items : List Item) : List UInt8 :=
  encodeHeader order width ++ items.flatMap (encodeItem order width)

/-- The item as it fits into the fields of the format. -/
def narrow (width : Width) (item : Item) : Item :=
  ⟨item.event % 256 ^ 4, item.data % 256 ^ dataBytes width⟩

/-- The consumer that a host has for a stream. -/
def consumerOf (host order : ByteOrder) : Width → Consumer
  | .bits32 => if host = order then .native32 else .swap32
  | .bits64 => if host = order then .native64 else .swap64

theorem length_store (order : ByteOrder) (count value : Nat) :
    (store order count value).length = count := by
  cases order with
  | little => rw [store, List.length_reverse, length_number]
  | big => exact length_number count value

/-- A number is loaded in the order in which it was stored. -/
theorem load_store (order : ByteOrder) (count value : Nat) (rest : List UInt8) :
    load order count (store order count value ++ rest) = value % 256 ^ count := by
  cases order with
  | little =>
    have front : (store .little count value ++ rest).take count = store .little count value :=
      List.take_left' (length_store .little count value)
    rw [load, front, store, List.reverse_reverse]
    simpa using read_number count value []
  | big => exact read_number count value rest

section

variable {host order : ByteOrder} (other : host ≠ order) (count value : Nat) (rest : List UInt8)
include other

/-- In the other order the bytes are swapped. -/
theorem load_store_other :
    load host count (store order count value ++ rest) = read count (number count value).reverse := by
  have whole := length_store order count value
  cases host with
  | little =>
    cases order with
    | little => exact absurd rfl other
    | big => rw [load, List.take_left' whole, store]
  | big =>
    cases order with
    | little => rw [load, read_append _ _ _ whole, store]
    | big => exact absurd rfl other

theorem byteSwap_load :
    byteSwap count (load host count (store order count value ++ rest)) = value % 256 ^ count := by
  have whole : (number count value).reverse.length = count := by
    rw [List.length_reverse, length_number]
  rw [load_store_other other, byteSwap, number_read _ _ whole, List.reverse_reverse]
  simpa using read_number count value []

end

section

variable (host order : ByteOrder) (width : Width)

theorem decodeItem_encodeItem (item : Item) :
    decodeItem host (consumerOf host order width) (encodeItem order width item) =
      ((narrow width item).event, (narrow width item).data) := by
  have data : (store order 4 item.event ++ store order (dataBytes width) item.data).drop 4 =
      store order (dataBytes width) item.data := List.drop_left' (length_store order 4 item.event)
  have tail : store order (dataBytes width) item.data =
      store order (dataBytes width) item.data ++ [] := (List.append_nil _).symm
  cases width with
  | bits32 =>
    rw [consumerOf]
    split
    next same =>
      subst same
      rw [decodeItem, item32, encodeItem, load_store, data, tail]
      exact congrArg (Prod.mk _) (load_store host 4 item.data [])
    next other =>
      rw [decodeItem, itemSwap32, item32, encodeItem, byteSwap_load other, data, tail]
      exact congrArg (Prod.mk _) (byteSwap_load other 4 item.data [])
  | bits64 =>
    rw [consumerOf]
    split
    next same =>
      subst same
      rw [decodeItem, item64, encodeItem, load_store, data, tail]
      exact congrArg (Prod.mk _) (load_store host 8 item.data [])
    next other =>
      rw [decodeItem, itemSwap64, item64, encodeItem, byteSwap_load other, data, tail]
      exact congrArg (Prod.mk _) (byteSwap_load other 8 item.data [])

theorem length_encodeItem (item : Item) :
    (encodeItem order width item).length = frameSize (consumerOf host order width) := by
  rw [encodeItem, List.length_append, length_store, length_store]
  cases width with
  | bits32 | bits64 =>
    rw [consumerOf]
    split <;> rfl

theorem consumerOf_ne_init : consumerOf host order width ≠ .init := by
  cases width with
  | bits32 | bits64 =>
    rw [consumerOf]
    split <;> decide

/-- The format word is the same in both orders. -/
theorem selectFormat_encodeHeader : selectFormat host (load host 4 (encodeHeader order width)) =
      some (consumerOf host order width, frameSize (consumerOf host order width),
        decide (host ≠ order)) := by
  cases host <;> cases order <;> cases width <;> decide

/-- The header of a stream tells its consumer. -/
theorem finishHeader_encodeHeader (context : Context σ) :
    finishHeader host context (encodeHeader order width) =
      (⟨context.client, consumerOf host order width, frameSize (consumerOf host order width), []⟩,
        .success) := by
  have magic : (if decide (host ≠ order) then
        byteSwap 4 (load host 4 ((encodeHeader order width).drop 4))
      else load host 4 ((encodeHeader order width).drop 4)) = recordMagic := by
    cases host <;> cases order <;> cases width <;> decide
  rw [finishHeader, selectFormat_encodeHeader]
  dsimp only
  rw [if_neg (not_not.mpr magic)]

end

theorem length_encodeHeader (order : ByteOrder) (width : Width) :
    (encodeHeader order width).length = frameSize .init := by
  rw [encodeHeader, List.length_append, length_store, length_store]
  rfl

/-- The items of a stream are visited. -/
theorem feed_items (order : ByteOrder) (width : Width) (client : State σ) (items : List Item) :
    (feed (machine environment host) ⟨⟨client, consumerOf host order width⟩, []⟩
        (items.flatMap (encodeItem order width))).1.state.client =
        (visitAll environment client (items.map (narrow width))).1 ∧
      (feed (machine environment host) ⟨⟨client, consumerOf host order width⟩, []⟩
        (items.flatMap (encodeItem order width))).2 =
        failure (visitAll environment client (items.map (narrow width))).2 := by
  induction items generalizing client with
  | nil => exact ⟨rfl, (failure_eq_none.mpr rfl).symm⟩
  | cons item rest ih =>
    have whole := length_encodeItem host order width item
    have some_bytes : encodeItem order width item ≠ [] := by
      rw [← List.length_pos_iff, whole]
      exact frameSize_pos _
    have fed := @feed_whole_append _ _ _ (machine environment host)
      ⟨⟨client, consumerOf host order width⟩, []⟩ _ (rest.flatMap (encodeItem order width))
      some_bytes ((Nat.zero_add _).trans whole)
    have completed : (machine environment host).complete ⟨client, consumerOf host order width⟩
        ([] ++ encodeItem order width item) =
        (⟨(visit environment client (narrow width item).event (narrow width item).data).1,
            consumerOf host order width⟩,
          failure (visit environment client (narrow width item).event
            (narrow width item).data).2) := by
      rw [machine]
      dsimp only
      rw [List.nil_append, completeFrame, if_neg (consumerOf_ne_init host order width)]
      rw [decodeItem_encodeItem]
    rw [List.flatMap_cons, fed, completed, List.map_cons, visitAll]
    by_cases good : (visit environment client (narrow width item).event
        (narrow width item).data).2 = .success
    · rw [failure_eq_none.mpr good, if_neg (not_not.mpr good)]
      exact ih _
    · rw [failure_of_ne good, if_pos good, failure_of_ne good]
      exact ⟨rfl, rfl⟩

/-- A stream is decoded to its items, in any order of the bytes. -/
theorem run_encode (order : ByteOrder) (width : Width) (arg : σ) (items : List Item) :
    (run environment host (init arg) (encode order width items)).1.client =
        (visitAll environment (init arg).client (items.map (narrow width))).1 ∧
      (run environment host (init arg) (encode order width items)).2 =
        (visitAll environment (init arg).client (items.map (narrow width))).2 := by
  have agrees := @run_agrees σ environment host _ (init_waiting arg) (encode order width items)
  have whole := length_encodeHeader order width
  have some_bytes : encodeHeader order width ≠ [] := by
    rw [← List.length_pos_iff, whole]
    exact frameSize_pos _
  have completed : (machine environment host).complete ⟨(init arg).client, .init⟩
      ([] ++ encodeHeader order width) =
      (⟨(init arg).client, consumerOf host order width⟩, none) := by
    rw [machine]
    dsimp only
    rw [List.nil_append, completeFrame, if_pos rfl]
    dsimp only
    rw [finishHeader_encodeHeader, failure_eq_none.mpr rfl]
  have fed := @feed_whole_append _ _ _ (machine environment host) (frameOf (init arg))
    (encodeHeader order width) (items.flatMap (encodeItem order width)) some_bytes
    ((Nat.zero_add _).trans whole)
  have header : (machine environment host).complete (frameOf (init arg)).state
      ((frameOf (init arg)).received ++ encodeHeader order width) =
      (⟨(init arg).client, consumerOf host order width⟩, none) := completed
  rw [header] at fed
  obtain ⟨client, status⟩ := @feed_items σ environment host order width (init arg).client items
  rw [encode, fed] at agrees
  exact ⟨agrees.client.trans client, failure_injective (agrees.status.trans status)⟩

end Encoding

/-- The calls of the handler. -/
def invocations (result : Context (σ × List Call) × Status) : List Call := result.1.client.arg.2

/-- Decoding a stream depends neither on the pieces in which it arrives nor on the order of
its bytes. -/
theorem decoding_independent_of_arrival (environment : Environment σ) (host : ByteOrder) (arg : σ) :
    (∀ chunks : List (List UInt8),
      invocations (runChunks (recorded environment) host (init (arg, [])) chunks) =
          invocations (run (recorded environment) host (init (arg, [])) chunks.flatten) ∧
        (runChunks (recorded environment) host (init (arg, [])) chunks).2 =
          (run (recorded environment) host (init (arg, [])) chunks.flatten).2) ∧
    ∀ (width : Width) (items : List Item),
      invocations (run (recorded environment) host (init (arg, [])) (encode .little width items)) =
          invocations (run (recorded environment) host (init (arg, [])) (encode .big width items)) ∧
        (run (recorded environment) host (init (arg, [])) (encode .little width items)).2 =
          (run (recorded environment) host (init (arg, [])) (encode .big width items)).2 := by
  constructor
  · intro chunks
    obtain ⟨client, status⟩ := @runChunks_eq_run _ (recorded environment) host (arg, []) chunks
    exact ⟨congrArg (fun client => client.arg.2) client, status⟩
  · intro width items
    obtain ⟨little, littleStatus⟩ :=
      @run_encode _ (recorded environment) host .little width (arg, []) items
    obtain ⟨big, bigStatus⟩ := @run_encode _ (recorded environment) host .big width (arg, []) items
    exact ⟨congrArg (fun client => client.arg.2) (little.trans big.symm),
      littleStatus.trans bigStatus.symm⟩

end Rtems.Record.Stream
