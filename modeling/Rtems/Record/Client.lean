import Rtems.Library.ByteString

/-!
# Record client

The client reads a stream of record items and passes them to a handler. Items of a
processor are held back until their time can be told from an uptime. The stream has a header
that tells the byte order and the width of the items.

The handler has a state of its own. Whether memory is available is told from outside by the
number of items. A division by zero, which is undefined, gives zero here.
-/

namespace Rtems.Record.Client

/-- `rtems_record_client_status`. -/
inductive Status where
  | success
  | invalidMagic
  | unknownFormat
  | unsupportedVersion
  | unsupportedCpu
  | unsupportedCpuMax
  | doubleCpuMax
  | doublePerCpuCount
  | noCpuMax
  | noMemory
  | perCpuItemsOverflow
deriving DecidableEq

section Events

/-- `RTEMS_RECORD_VERSION`. -/
def version : Nat := 1

/-- `RTEMS_RECORD_FREQUENCY`. -/
def frequency : Nat := 4

/-- `RTEMS_RECORD_PER_CPU_COUNT`. -/
def perCpuCount : Nat := 6

/-- `RTEMS_RECORD_PER_CPU_OVERFLOW`. -/
def perCpuOverflow : Nat := 8

/-- `RTEMS_RECORD_PROCESSOR`. -/
def processor : Nat := 9

/-- `RTEMS_RECORD_PROCESSOR_MAXIMUM`. -/
def processorMaximum : Nat := 10

/-- `RTEMS_RECORD_TIME_ADJUSTMENT`. -/
def timeAdjustment : Nat := 13

/-- `RTEMS_RECORD_UNRELIABLE_TIME`. -/
def unreliableTime : Nat := 15

/-- `RTEMS_RECORD_NO_TIME_LAST`. -/
def noTimeLast : Nat := 16

/-- `RTEMS_RECORD_UPTIME_HIGH`. -/
def uptimeHigh : Nat := 322

/-- `RTEMS_RECORD_UPTIME_LOW`. -/
def uptimeLow : Nat := 323

/-- `RTEMS_RECORD_THE_VERSION`. -/
def theVersion : Nat := 10

/-- `RTEMS_RECORD_CLIENT_MAXIMUM_CPU_COUNT`. -/
def maximumCpuCount : Nat := 32

/-- `RTEMS_RECORD_CLIENT_HOLD_BACK_REALLOCATION_LIMIT`. -/
def holdBackReallocationLimit : Nat := 0x100000

end Events

/-- `RTEMS_RECORD_GET_TIME`. -/
def getTime (timeEvent : Nat) : Nat := timeEvent / 2 ^ 10

/-- `RTEMS_RECORD_GET_EVENT`. -/
def getEvent (timeEvent : Nat) : Nat := timeEvent % 2 ^ 10

/-- `has_time`. -/
def hasTime (event : Nat) : Bool := decide (event > noTimeLast)

/-- A difference of times, under `TIME_MASK`. -/
def timeMinus (first second : Nat) : Nat := (first + 2 ^ 32 - second) % 2 ^ 22

/-- `rtems_record_client_uptime`. -/
structure Uptime where
  uptimeBt : Nat
  timeLast : Nat
  timeAccumulated : Nat

/-- `rtems_record_item_64`. -/
structure Item where
  event : Nat
  data : Nat
deriving DecidableEq

/-- `rtems_record_client_per_cpu`. The items that are held back are those up to the item
index. -/
structure PerCpu where
  uptime : Uptime
  lastBt : Nat
  uptimeLow : Nat
  uptimeLowValid : Bool
  holdBack : Bool
  items : List Item
  itemCapacity : Nat

/-- The arguments of the handler. -/
structure Call where
  bt : Nat
  cpu : Nat
  event : Nat
  data : Nat
deriving DecidableEq

/-- The part of `rtems_record_client_context` that items are decoded with, and the state of
the handler. After an error nothing is consumed. -/
structure State (σ : Type) where
  toBtScaler : Nat
  perCpu : Nat → PerCpu
  cpu : Nat
  cpuCount : Nat
  perCpuItems : Nat
  failed : Bool
  status : Status
  arg : σ

/-- The handler, and for how many items there is memory. -/
structure Environment (σ : Type) where
  handler : σ → Call → σ × Status
  memory : Nat → Bool

variable {σ : Type} (environment : Environment σ)

variable (client : State σ)

/-- The processor of the next item. -/
def current : PerCpu := client.perCpu client.cpu

/-- Change the processor of the next item. -/
def setCurrent (perCpu : PerCpu) : State σ :=
  { client with perCpu := Function.update client.perCpu client.cpu perCpu }

/-- `error`. -/
def error (status : Status) : State σ × Status :=
  ({ client with status := status, failed := true }, status)

/-- The loop of `process_per_cpu_count` over the processors that are left. -/
def allocateItems (itemCapacity : Nat) : (remaining cpu : Nat) → State σ → State σ × Status
  | 0, _, client => (client, .success)
  | remaining + 1, cpu, client =>
    if environment.memory itemCapacity then
      allocateItems itemCapacity remaining (cpu + 1) { client with
        perCpu := Function.update client.perCpu cpu
          { client.perCpu cpu with itemCapacity := itemCapacity } }
    else error client .noMemory

/-- `process_per_cpu_count`. -/
def processPerCpuCount (data : Nat) : State σ × Status :=
  if client.perCpuItems ≠ 0 then error client .doublePerCpuCount
  else if client.cpuCount = 0 then error client .noCpuMax
  else
    let perCpuItems := data % 2 ^ 32
    allocateItems environment (2 * perCpuItems % 2 ^ 32) client.cpuCount 0
      { client with perCpuItems := perCpuItems }

/-- `set_to_bt_scaler`. -/
def setToBtScaler (frequency : Nat) : State σ :=
  { client with toBtScaler := (2 ^ 63 + frequency / 2) / frequency }

/-- The accumulated time in binary time. -/
def scale (accumulated : Nat) : Nat := accumulated * client.toBtScaler % 2 ^ 64 / 2 ^ 31

/-- The time that is accumulated with an item. -/
def accumulate (uptime : Uptime) (time event : Nat) : Uptime :=
  if hasTime event then
    { uptime with
      timeAccumulated := (uptime.timeAccumulated + timeMinus time uptime.timeLast) % 2 ^ 64
      timeLast := time }
  else uptime

/-- `time_bt`. -/
def timeBt (time event : Nat) : State σ × Nat :=
  let perCpu := current client
  let uptime := accumulate perCpu.uptime time event
  let lastBt := perCpu.lastBt
  let bt := (perCpu.uptime.uptimeBt + scale client uptime.timeAccumulated) % 2 ^ 64
  if bt ≥ lastBt then (setCurrent client { perCpu with uptime := uptime, lastBt := bt }, bt)
  else
    let client := setCurrent client { perCpu with uptime := uptime }
    ({ client with
        arg := (environment.handler client.arg
          ⟨lastBt, client.cpu, timeAdjustment, lastBt - bt⟩).1 },
      lastBt)

/-- `call_handler`. -/
def callHandler (time event data : Nat) : State σ × Status :=
  let timed := timeBt environment client time event
  let called := environment.handler timed.1.arg ⟨timed.2, timed.1.cpu, event, data⟩
  ({ timed.1 with arg := called.1 }, called.2)

/-- The items that are held back are passed to the handler. -/
def replay : State σ → List Item → State σ × Status
  | client, [] => (client, .success)
  | client, item :: rest =>
    let called := callHandler environment client (getTime item.event) (getEvent item.event)
      item.data
    if called.2 = .success then replay called.1 rest else called

/-- The time before the items that are held back, from the last one to the first. -/
def rewind (last accumulated : Nat) : List Item → Nat × Nat
  | [] => (last, accumulated)
  | item :: rest =>
    let (last, accumulated) := rewind last accumulated rest
    if hasTime (getEvent item.event) then
      (getTime item.event, (accumulated + timeMinus last (getTime item.event)) % 2 ^ 64)
    else (last, accumulated)

/-- `resolve_hold_back`. -/
def resolveHoldBack : State σ × Status :=
  let perCpu := current client
  let uptime := perCpu.uptime
  let (last, accumulated) := rewind uptime.timeLast 0 perCpu.items
  let replayed := replay environment
    (setCurrent client { perCpu with uptime :=
      ⟨(uptime.uptimeBt + 2 ^ 64 - scale client accumulated) % 2 ^ 64, last, 0⟩ })
    perCpu.items
  if replayed.2 = .success then
    (setCurrent replayed.1 { current replayed.1 with
      uptime := uptime, holdBack := false, items := [] }, .success)
  else replayed

/-- `hold_back`. To reallocate nothing gives no memory. -/
def holdBack (timeEvent data : Nat) : State σ × Status :=
  let perCpu := current client
  let itemIndex := perCpu.items.length
  let append (perCpu : PerCpu) : State σ × Status :=
    (setCurrent client { perCpu with items := perCpu.items ++ [⟨timeEvent, data⟩] }, .success)
  if itemIndex ≥ perCpu.itemCapacity then
    if itemIndex ≥ holdBackReallocationLimit then error client .perCpuItemsOverflow
    else if 2 * itemIndex ≠ 0 ∧ environment.memory (2 * itemIndex) then
      append { perCpu with itemCapacity := 2 * itemIndex }
    else error client .noMemory
  else append perCpu

/-- The state behind the switch of `visit`, with the decision to hold the item back. -/
structure Switched (σ : Type) where
  client : State σ
  status : Status
  doHoldBack : Bool

/-- An error in the switch. -/
def switchError (status : Status) : Switched σ := ⟨(error client status).1, status, false⟩

/-- The case of `RTEMS_RECORD_PROCESSOR`. -/
def switchProcessor (data : Nat) : Switched σ :=
  if data ≥ client.cpuCount then switchError client .unsupportedCpu
  else ⟨{ client with cpu := data % 2 ^ 32 }, .success, (current client).holdBack⟩

/-- The case of `RTEMS_RECORD_UPTIME_LOW`. -/
def switchUptimeLow (data : Nat) : Switched σ :=
  ⟨setCurrent client { current client with uptimeLow := data % 2 ^ 32, uptimeLowValid := true },
    .success, (current client).holdBack⟩

/-- The uptime of a processor is set. -/
def setUptime (time data : Nat) : State σ :=
  setCurrent client { current client with
    uptimeLowValid := false
    uptime := ⟨data * 2 ^ 32 % 2 ^ 64 ||| (current client).uptimeLow, time, 0⟩ }

/-- The case of `RTEMS_RECORD_UPTIME_HIGH`. -/
def switchUptimeHigh (time data : Nat) : Switched σ :=
  if (current client).uptimeLowValid then
    if (current client).holdBack then
      let resolved := resolveHoldBack environment (setUptime client time data)
      ⟨resolved.1, resolved.2, false⟩
    else ⟨setUptime client time data, .success, false⟩
  else ⟨client, .success, (current client).holdBack⟩

/-- The case of `RTEMS_RECORD_PROCESSOR_MAXIMUM`. -/
def switchProcessorMaximum (data : Nat) : Switched σ :=
  if data ≥ maximumCpuCount then switchError client .unsupportedCpuMax
  else if client.cpuCount ≠ 0 then switchError client .doubleCpuMax
  else ⟨{ client with cpuCount := data % 2 ^ 32 + 1 }, .success, false⟩

/-- The case of `RTEMS_RECORD_PER_CPU_COUNT`. -/
def switchPerCpuCount (data : Nat) : Switched σ :=
  let counted := processPerCpuCount environment client data
  ⟨counted.1, counted.2, (current client).holdBack⟩

/-- The case of `RTEMS_RECORD_PER_CPU_OVERFLOW`. -/
def switchPerCpuOverflow : Switched σ :=
  ⟨setCurrent client { current client with holdBack := true }, .success, true⟩

/-- The case of `RTEMS_RECORD_VERSION`. -/
def switchVersion (data : Nat) : Switched σ :=
  if data ≠ theVersion then switchError client .unsupportedVersion
  else ⟨client, .success, false⟩

/-- The switch of `visit`. -/
def switchEvent (time event data : Nat) : Switched σ :=
  if event = processor then switchProcessor client data
  else if event = uptimeLow then switchUptimeLow client data
  else if event = uptimeHigh then switchUptimeHigh environment client time data
  else if event = processorMaximum then switchProcessorMaximum client data
  else if event = perCpuCount then switchPerCpuCount environment client data
  else if event = perCpuOverflow then switchPerCpuOverflow client
  else if event = frequency then
    ⟨setToBtScaler client (data % 2 ^ 32), .success, (current client).holdBack⟩
  else if event = version then switchVersion client data
  else ⟨client, .success, (current client).holdBack⟩

/-- The item is held back or passed to the handler. -/
def passItem (doHoldBack : Bool) (timeEvent data : Nat) : State σ × Status :=
  if doHoldBack then holdBack environment client timeEvent data
  else callHandler environment client (getTime timeEvent) (getEvent timeEvent) data

/-- `visit`. -/
def visit (timeEvent data : Nat) : State σ × Status :=
  let switched := switchEvent environment client (getTime timeEvent) (getEvent timeEvent) data
  if switched.status ≠ .success then (switched.client, switched.status)
  else passItem environment switched.client switched.doHoldBack timeEvent data

/-- Items one after the other, up to the first error. -/
def visitAll : State σ → List Item → State σ × Status
  | client, [] => (client, .success)
  | client, item :: rest =>
    let visited := visit environment client item.event item.data
    if visited.2 ≠ .success then visited else visitAll visited.1 rest

/-- The loop of `calculate_best_effort_uptime`. -/
def advance (last accumulated : Nat) : List Item → Nat × Nat
  | [] => (last, accumulated)
  | item :: rest =>
    if hasTime (getEvent item.event) then
      advance (getTime item.event) ((accumulated + timeMinus (getTime item.event) last) % 2 ^ 64) rest
    else advance last accumulated rest

/-- `calculate_best_effort_uptime`. It is called with some item. -/
def calculateBestEffortUptime : State σ :=
  let perCpu := current client
  let last :=
    if perCpu.uptime.uptimeBt ≠ 0 then perCpu.uptime.timeLast
    else getTime (perCpu.items.headD ⟨0, 0⟩).event
  let advanced := advance last 0 perCpu.items
  setCurrent client { perCpu with
    uptime := ⟨(perCpu.uptime.uptimeBt + scale client advanced.2) % 2 ^ 64, advanced.1, 0⟩ }

/-- The body of the loop of `rtems_record_client_destroy`. -/
def destroyCpu (cpu : Nat) : State σ :=
  let client := { client with cpu := cpu }
  if (current client).holdBack ∧ (current client).items.length > 0 then
    let called := (callHandler environment client 0 unreliableTime 0).1
    (resolveHoldBack environment (calculateBestEffortUptime called)).1
  else client

/-- `rtems_record_client_destroy`. The memory of the items is not modelled. -/
def destroy : State σ := (List.range client.cpuCount).foldl (destroyCpu environment) client

/-- An environment that also records the calls of the handler. -/
def recorded (environment : Environment σ) : Environment (σ × List Call) where
  handler arg call :=
    (((environment.handler arg.1 call).1, arg.2 ++ [call]), (environment.handler arg.1 call).2)
  memory := environment.memory

section Failed

variable {environment}

theorem callHandler_failed (client : State σ) (time event data : Nat) :
    (callHandler environment client time event data).1.failed = client.failed := by
  rw [callHandler, timeBt]
  split <;> rfl

theorem replay_failed (client : State σ) (items : List Item) :
    (replay environment client items).1.failed = client.failed := by
  induction items generalizing client with
  | nil => rfl
  | cons item rest ih =>
    rw [replay]
    split
    · rw [ih, callHandler_failed]
    · exact callHandler_failed client _ _ _

theorem resolveHoldBack_failed (client : State σ) :
    (resolveHoldBack environment client).1.failed = client.failed := by
  rw [resolveHoldBack]
  dsimp only
  split
  · exact replay_failed _ _
  · exact replay_failed _ _

/-- A call that succeeds does not make the client fail. -/
def Keeps (client : State σ) (result : State σ × Status) : Prop :=
  result.2 = .success → result.1.failed = client.failed

theorem error_keeps (client other : State σ) {status : Status} (bad : status ≠ .success) :
    Keeps client (error other status) := fun good => absurd good bad

theorem holdBack_keeps (client : State σ) (timeEvent data : Nat) :
    Keeps client (holdBack environment client timeEvent data) := by
  rw [holdBack]
  split
  · split
    · exact error_keeps client client (by decide)
    · split
      · intro _
        rfl
      · exact error_keeps client client (by decide)
  · intro _
    rfl

theorem allocateItems_keeps (itemCapacity remaining cpu : Nat) (client : State σ) :
    Keeps client (allocateItems environment itemCapacity remaining cpu client) := by
  induction remaining generalizing cpu client with
  | zero =>
    intro _
    rfl
  | succ remaining ih =>
    rw [allocateItems]
    split
    · exact ih (cpu + 1) _
    · exact error_keeps client client (by decide)

theorem processPerCpuCount_keeps (client : State σ) (data : Nat) :
    Keeps client (processPerCpuCount environment client data) := by
  rw [processPerCpuCount]
  split
  · exact error_keeps client client (by decide)
  · split
    · exact error_keeps client client (by decide)
    · exact allocateItems_keeps _ _ _ _

theorem passItem_keeps (client : State σ) (doHoldBack : Bool) (timeEvent data : Nat) :
    Keeps client (passItem environment client doHoldBack timeEvent data) := by
  rw [passItem]
  split
  · exact holdBack_keeps client timeEvent data
  · intro _
    exact callHandler_failed client _ _ _

/-- The switch keeps the client able if it succeeds. -/
theorem switchEvent_keeps (client : State σ) (time event data : Nat) :
    (switchEvent environment client time event data).status = .success →
      (switchEvent environment client time event data).client.failed = client.failed := by
  rw [switchEvent]
  split
  · rw [switchProcessor]
    split
    · exact error_keeps client client (by decide)
    · exact fun _ => rfl
  split
  · exact fun _ => rfl
  split
  · rw [switchUptimeHigh]
    split
    · split
      · exact fun _ => resolveHoldBack_failed _
      · exact fun _ => rfl
    · exact fun _ => rfl
  split
  · rw [switchProcessorMaximum]
    split
    · exact error_keeps client client (by decide)
    · split
      · exact error_keeps client client (by decide)
      · exact fun _ => rfl
  split
  · exact processPerCpuCount_keeps client data
  split
  · exact fun _ => rfl
  split
  · exact fun _ => rfl
  split
  · rw [switchVersion]
    split
    · exact error_keeps client client (by decide)
    · exact fun _ => rfl
  · exact fun _ => rfl

/-- A visit that succeeds does not make the client fail. -/
theorem visit_keeps (client : State σ) (timeEvent data : Nat) :
    Keeps client (visit environment client timeEvent data) := by
  rw [visit]
  intro good
  split at good
  next bad => exact absurd good bad
  next fine =>
    rw [if_neg fine]
    refine (passItem_keeps _ _ _ _ good).trans ?_
    exact switchEvent_keeps client _ _ data (not_not.mp fine)

end Failed

end Rtems.Record.Client
