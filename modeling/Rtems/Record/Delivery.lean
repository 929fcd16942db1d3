import Rtems.Record.Stream

/-!
# Delivery of the items

With a handler that always succeeds, the items of a processor are either passed to the handler
or held back behind those that were passed. The notices about an adjusted or unreliable time
are extra. The decision to hold an item back is made for the processor before the item, so
an item that changes the processor may be held by one that does not hold back, and is never
passed then.
-/

namespace Rtems.Record.Delivery

open Rtems.Record.Client
open Rtems.Record.Stream
open Function (update update_eq_self update_idem update_of_ne update_self)
open List (append_assoc append_nil)

variable {σ : Type} {env : Environment σ}

variable {items : List Item}

section Passed

/-- The calls pass the items in order, with notices between them. -/
inductive Passed : List Item → List Call → Prop
  | nil : Passed [] []
  | item {items : List Item} {calls : List Call} (item : Item) (call : Call)
      (event : call.event = getEvent item.event) (data : call.data = item.data)
      (rest : Passed items calls) : Passed (item :: items) (call :: calls)
  | notice {items : List Item} {calls : List Call} (call : Call)
      (event : call.event = timeAdjustment ∨ call.event = unreliableTime)
      (rest : Passed items calls) : Passed items (call :: calls)

theorem Passed.append {first second : List Item} {before after : List Call}
    (left : Passed first before) (right : Passed second after) :
    Passed (first ++ second) (before ++ after) := by
  induction left with
  | nil => exact right
  | item item call event data _ ih =>
    exact .item item call event data ih
  | notice call event _ ih => exact .notice call event ih

/-- Every item needs a call of its own. -/
theorem Passed.length_le {calls : List Call} (passed : Passed items calls) :
    items.length ≤ calls.length := by
  induction passed with
  | nil => exact Nat.le_refl 0
  | item _ _ _ _ _ ih => exact Nat.succ_le_succ ih
  | notice _ _ _ ih => exact Nat.le_succ_of_le ih

end Passed

/-- Calls for a processor that pass the items, with times that do not decrease between two
bounds. -/
structure Timely (cpu least most : Nat) (items : List Item) (calls : List Call) : Prop where
  passed : Passed items calls
  sorted : (calls.map Call.bt).Pairwise (· ≤ ·)
  lower : ∀ call ∈ calls, least ≤ call.bt
  upper : ∀ call ∈ calls, call.bt ≤ most
  cpu : ∀ call ∈ calls, call.cpu = cpu
  bounds : least ≤ most

theorem Timely.nil (cpu : Nat) {least most : Nat} (bounds : least ≤ most) :
    Timely cpu least most [] [] := by
  constructor
  · exact .nil
  · exact .nil
  iterate 3
    · intro call none
      cases none
  · exact bounds

theorem Timely.append {cpu least middle most : Nat} {first second : List Item}
    {before after : List Call} (left : Timely cpu least middle first before)
    (right : Timely cpu middle most second after) :
    Timely cpu least most (first ++ second) (before ++ after) := by
  constructor
  · exact left.passed.append right.passed
  · rw [List.map_append, List.pairwise_append]
    refine ⟨left.sorted, right.sorted, ?_⟩
    intro early earlier late later
    obtain ⟨call, there, rfl⟩ := List.mem_map.mp earlier
    obtain ⟨other, here, rfl⟩ := List.mem_map.mp later
    exact Nat.le_trans (left.upper call there) (right.lower other here)
  · intro call there
    rcases List.mem_append.mp there with early | late
    · exact left.lower call early
    · exact Nat.le_trans left.bounds (right.lower call late)
  · intro call there
    rcases List.mem_append.mp there with early | late
    · exact Nat.le_trans (left.upper call early) right.bounds
    · exact right.upper call late
  · intro call there
    rcases List.mem_append.mp there with early | late
    · exact left.cpu call early
    · exact right.cpu call late
  · exact Nat.le_trans left.bounds right.bounds

/-- One call. -/
theorem Timely.single {cpu least most : Nat} {call : Call} (passed : Passed items [call])
    (same : call.cpu = cpu) (bt : call.bt = most) (bounds : least ≤ most) :
    Timely cpu least most items [call] := by
  constructor
  · exact passed
  · exact List.pairwise_singleton _ _
  · intro other there
    rw [List.mem_singleton.mp there, bt]
    exact bounds
  · intro other there
    rw [List.mem_singleton.mp there, bt]
  · intro other there
    rw [List.mem_singleton.mp there, same]
  · exact bounds

/-- The calls of a client. -/
def log (client : State (σ × List Call)) : List Call := client.arg.2

/-- What the handler calls for some items do to the client. -/
def Delivers (items : List Item) (before after : State (σ × List Call)) : Prop :=
  ∃ uptime lastBt arg calls,
    after = { setCurrent before { current before with uptime := uptime, lastBt := lastBt } with
      arg := (arg, log before ++ calls) } ∧
    Timely before.cpu (current before).lastBt lastBt items calls

theorem current_setCurrent (client : State σ) (perCpu : PerCpu) :
    current (setCurrent client perCpu) = perCpu := update_self _ _ _

theorem setCurrent_current (client : State σ) : setCurrent client (current client) = client := by
  rw [setCurrent, current, update_eq_self]

section

variable (client : State (σ × List Call))

theorem Delivers.time (uptime : Uptime) {bt : Nat} (later : (current client).lastBt ≤ bt) :
    Delivers [] client
      (setCurrent client { current client with uptime := uptime, lastBt := bt }) := by
  refine ⟨uptime, bt, client.arg.1, [], ?_, Timely.nil _ later⟩
  rw [append_nil]
  rfl

theorem Delivers.refl : Delivers [] client client := by
  have same := Delivers.time client (current client).uptime (Nat.le_refl (current client).lastBt)
  rwa [setCurrent_current] at same

/-- The last time is passed to the handler. -/
theorem Delivers.call (arg : σ) {call : Call} (passed : Passed items [call])
    (cpu : call.cpu = client.cpu) (bt : call.bt = (current client).lastBt) :
    Delivers items client { client with arg := (arg, log client ++ [call]) } := by
  refine ⟨(current client).uptime, (current client).lastBt, arg, _, ?_,
    Timely.single passed cpu bt (Nat.le_refl _)⟩
  rw [setCurrent_current]

end

variable {before : State (σ × List Call)}

variable {after : State (σ × List Call)}

variable {middle : State (σ × List Call)}

theorem Delivers.trans {first second : List Item} (left : Delivers first before middle)
    (right : Delivers second middle after) :
    Delivers (first ++ second) before after := by
  obtain ⟨uptime, lastBt, arg, calls, rfl, timely⟩ := left
  obtain ⟨later, most, result, more, rfl, rest⟩ := right
  refine ⟨later, most, result, calls ++ more, ?_, ?_⟩
  · simp only [setCurrent, current, log, update_idem, update_self, append_assoc]
  · have last : (current { setCurrent before { current before with
        uptime := uptime, lastBt := lastBt } with arg := (arg, log before ++ calls) }).lastBt =
        lastBt := by
      simp only [setCurrent, current, update_self]
    rw [last] at rest
    exact timely.append rest

theorem Delivers.cpu (delivers : Delivers items before after) : after.cpu = before.cpu := by
  obtain ⟨uptime, lastBt, arg, calls, rfl, timely⟩ := delivers
  rfl

variable {data : Nat}

section Handler

variable (succeeds : ∀ arg call, (env.handler arg call).2 = .success)

include succeeds

omit succeeds in
/-- The time of an item, with a notice if it would go back. -/
theorem timeBt_delivers (client : State (σ × List Call)) (time event : Nat) :
    Delivers [] client (timeBt (recorded env) client time event).1 ∧
      (timeBt (recorded env) client time event).2 =
        (current (timeBt (recorded env) client time event).1).lastBt := by
  rw [timeBt]
  dsimp only
  split
  next fine => exact ⟨.time client _ fine, by rw [current_setCurrent]⟩
  next back =>
    constructor
    · have started := Delivers.time client (accumulate (current client).uptime time event)
        (Nat.le_refl (current client).lastBt)
      refine started.trans (Delivers.call _ _ (.notice _ (.inl rfl) .nil) rfl ?_)
      rw [current_setCurrent]
    · simp only [current, setCurrent, update_self]

theorem callHandler_delivers (client : State (σ × List Call)) (time : Nat) {event : Nat}
    (passed : ∀ bt, Passed items [⟨bt, client.cpu, event, data⟩]) :
    (callHandler (recorded env) client time event data).2 = .success ∧
      Delivers items client (callHandler (recorded env) client time event data).1 := by
  obtain ⟨timed, bt⟩ := @timeBt_delivers σ env client time event
  constructor
  · exact succeeds _ _
  · rw [callHandler, bt]
    refine timed.trans (Delivers.call _ _ ?_ rfl rfl)
    rw [timed.cpu]
    exact passed _

omit succeeds in
theorem passed_item (item : Item) (cpu bt : Nat) :
    Passed [item] [⟨bt, cpu, getEvent item.event, item.data⟩] := .item item _ rfl rfl .nil

/-- The items that were held back are passed. -/
theorem replay_delivers (client : State (σ × List Call)) (items : List Item) :
    (replay (recorded env) client items).2 = .success ∧
      Delivers items client (replay (recorded env) client items).1 := by
  induction items generalizing client with
  | nil => exact ⟨rfl, .refl client⟩
  | cons item rest ih =>
    obtain ⟨good, first⟩ := callHandler_delivers succeeds client
      (getTime item.event) (passed_item item client.cpu)
    rw [replay, if_pos good]
    obtain ⟨fine, more⟩ := ih
      (callHandler (recorded env) client (getTime item.event) (getEvent item.event) item.data).1
    exact ⟨fine, first.trans more⟩

/-- All items that were held back are passed, and no item is held back. -/
theorem resolveHoldBack_spec (client : State (σ × List Call)) :
    (resolveHoldBack (recorded env) client).2 = .success ∧
    ∃ uptime lastBt arg calls, (resolveHoldBack (recorded env) client).1 =
        { setCurrent client { current client with
            uptime := uptime, lastBt := lastBt, holdBack := false, items := [] } with
          arg := (arg, log client ++ calls) } ∧
      Timely client.cpu (current client).lastBt lastBt (current client).items calls := by
  rw [resolveHoldBack]
  dsimp only
  generalize (⟨_, _, 0⟩ : Uptime) = start
  obtain ⟨good, uptime, lastBt, arg, calls, replayed, timely⟩ := replay_delivers succeeds
    (setCurrent client { current client with uptime := start }) (current client).items
  rw [if_pos good]
  refine ⟨rfl, (current client).uptime, lastBt, arg, calls, ?_, ?_⟩
  · rw [replayed]
    simp only [setCurrent, current, log, update_idem, update_self]
  · rw [current_setCurrent] at timely
    exact timely

end Handler

variable {item : Item}

section Accounts

/-- The items of a processor are those that were passed and those that are held back. -/
structure Accounted (cpu : Nat) (perCpu : PerCpu) (items : List Item) (calls : List Call) :
    Prop where
  delivered : ∃ passed, items = passed ++ perCpu.items ∧ Timely cpu 0 perCpu.lastBt passed calls
  holding : perCpu.items ≠ [] → perCpu.holdBack = true

variable {perCpu : PerCpu}

/-- What is held back and more items are passed. -/
theorem Accounted.flush {cpu : Nat} {after : PerCpu} {extra : List Item} {calls more : List Call}
    (accounted : Accounted cpu perCpu items calls)
    (timely : Timely cpu perCpu.lastBt after.lastBt (perCpu.items ++ extra) more)
    (empty : after.items = []) : Accounted cpu after (items ++ extra) (calls ++ more) := by
  obtain ⟨passed, rfl, before⟩ := accounted.delivered
  constructor
  · refine ⟨passed ++ (perCpu.items ++ extra), ?_, before.append timely⟩
    rw [empty, append_nil, append_assoc]
  · intro some_items
    exact absurd empty some_items

/-- An item is held back. -/
theorem Accounted.hold {cpu : Nat} {after : PerCpu} {calls : List Call}
    (accounted : Accounted cpu perCpu items calls) (held : after.items = perCpu.items ++ [item])
    (lastBt : after.lastBt = perCpu.lastBt) (holding : after.holdBack = true) :
    Accounted cpu after (items ++ [item]) calls := by
  obtain ⟨passed, rfl, before⟩ := accounted.delivered
  constructor
  · rw [held, lastBt]
    exact ⟨passed, append_assoc _ _ _, before⟩
  · intro _
    exact holding

/-- The calls for a processor. -/
def callsOf (cpu : Nat) (calls : List Call) : List Call :=
  calls.filter fun call => decide (call.cpu = cpu)

theorem callsOf_append_self {cpu : Nat} {calls more : List Call}
    (same : ∀ call ∈ more, call.cpu = cpu) :
    callsOf cpu (calls ++ more) = callsOf cpu calls ++ more := by
  have all : callsOf cpu more = more :=
    List.filter_eq_self.mpr fun call there => decide_eq_true (same call there)
  rw [callsOf, List.filter_append]
  exact congrArg (callsOf cpu calls ++ ·) all

theorem callsOf_append_other {cpu other : Nat} {calls more : List Call}
    (same : ∀ call ∈ more, call.cpu = cpu) (ne : other ≠ cpu) :
    callsOf other (calls ++ more) = callsOf other calls := by
  have none : callsOf other more = [] := by
    refine List.filter_eq_nil_iff.mpr fun call there => ?_
    rw [same call there, decide_eq_true_eq]
    exact ne.symm
  rw [callsOf, List.filter_append]
  exact (congrArg (callsOf other calls ++ ·) none).trans (append_nil _)

/-- Every processor is accounted for. Items are held back for known processors only. -/
structure Sound (client : State (σ × List Call)) (seen : Nat → List Item) : Prop where
  accounted : ∀ cpu,
    Accounted cpu (client.perCpu cpu) (seen cpu) (callsOf cpu (log client))
  counted : ∀ cpu, (client.perCpu cpu).items ≠ [] → cpu < client.cpuCount
  inside : client.cpu = 0 ∨ client.cpu < client.cpuCount

/-- An item of a processor. -/
def extend (seen : Nat → List Item) (cpu : Nat) (item : Item) : Nat → List Item :=
  update seen cpu (seen cpu ++ [item])

/-- The items of a processor stay. -/
structure Kept (before after : PerCpu) : Prop where
  items : after.items = before.items
  lastBt : after.lastBt = before.lastBt
  holding : before.holdBack = true → after.holdBack = true

theorem Kept.refl (perCpu : PerCpu) : Kept perCpu perCpu := ⟨rfl, rfl, id⟩

theorem Accounted.keep {cpu : Nat} {before after : PerCpu} {calls : List Call}
    (accounted : Accounted cpu before items calls) (kept : Kept before after) :
    Accounted cpu after items calls := by
  constructor
  · rw [kept.items, kept.lastBt]
    exact accounted.delivered
  · rw [kept.items]
    intro some_items
    exact kept.holding (accounted.holding some_items)

/-- What no processor notices. -/
structure Quiet (before after : State (σ × List Call)) : Prop where
  kept : ∀ cpu, Kept (before.perCpu cpu) (after.perCpu cpu)
  log : log after = log before
  cpu : after.cpu = before.cpu
  cpuCount : after.cpuCount = before.cpuCount

theorem Quiet.refl (client : State (σ × List Call)) : Quiet client client :=
  ⟨fun _ => .refl _, rfl, rfl, rfl⟩

theorem Quiet.trans (first : Quiet before middle) (second : Quiet middle after) :
    Quiet before after where
  kept cpu := ⟨(second.kept cpu).items.trans (first.kept cpu).items,
      (second.kept cpu).lastBt.trans (first.kept cpu).lastBt,
      fun holding => (second.kept cpu).holding ((first.kept cpu).holding holding)⟩
  log := second.log.trans first.log
  cpu := second.cpu.trans first.cpu
  cpuCount := second.cpuCount.trans first.cpuCount

/-- A processor changes in its other fields. -/
theorem Quiet.update (client : State (σ × List Call)) (place : Nat)
    (kept : Kept (client.perCpu place) perCpu) :
    Quiet client { client with perCpu := update client.perCpu place perCpu } := by
  refine ⟨fun cpu => ?_, rfl, rfl, rfl⟩
  dsimp only
  by_cases same : cpu = place
  · rw [same, update_self]
    exact kept
  · rw [update_of_ne same]
    exact .refl _

theorem Sound.quiet {seen : Nat → List Item} (sound : Sound before seen)
    (quiet : Quiet before after) : Sound after seen := by
  constructor
  · intro cpu
    rw [quiet.log]
    exact (sound.accounted cpu).keep (quiet.kept cpu)
  · intro cpu
    rw [(quiet.kept cpu).items, quiet.cpuCount]
    exact sound.counted cpu
  · rw [quiet.cpu, quiet.cpuCount]
    exact sound.inside

variable {client : State (σ × List Call)}

/-- The processor of the client passes what it holds back, and more. -/
theorem Sound.flush {seen : Nat → List Item} (sound : Sound client seen) {after : PerCpu}
    {calls : List Call} (arg : σ) {extra : List Item}
    (timely : Timely client.cpu (current client).lastBt after.lastBt ((current client).items ++ extra) calls)
    (empty : after.items = []) :
    Sound { setCurrent client after with arg := (arg, log client ++ calls) }
      (update seen client.cpu (seen client.cpu ++ extra)) := by
  constructor
  · intro cpu
    dsimp only [log, setCurrent]
    by_cases same : cpu = client.cpu
    · subst same
      rw [update_self, update_self, callsOf_append_self timely.cpu]
      exact (sound.accounted client.cpu).flush timely empty
    · rw [update_of_ne same, update_of_ne same, callsOf_append_other timely.cpu same]
      exact sound.accounted cpu
  · intro cpu some_items
    dsimp only [setCurrent] at some_items ⊢
    by_cases same : cpu = client.cpu
    · rw [same, update_self, empty] at some_items
      exact absurd rfl some_items
    · rw [update_of_ne same] at some_items
      exact sound.counted cpu some_items
  · exact sound.inside

/-- An item is passed while nothing is held back. -/
theorem Sound.deliver {seen : Nat → List Item} (sound : Sound before seen)
    (delivers : Delivers [item] before after) (empty : (current before).items = []) :
    Sound after (extend seen before.cpu item) := by
  obtain ⟨uptime, lastBt, arg, calls, rfl, timely⟩ := delivers
  refine sound.flush arg ?_ ?_
  · rw [empty]
    exact timely
  · exact empty

/-- An item is held back. -/
theorem Sound.hold {seen : Nat → List Item} (sound : Sound client seen) {after : PerCpu}
    (held : after.items = (current client).items ++ [item])
    (lastBt : after.lastBt = (current client).lastBt) (holding : after.holdBack = true)
    (known : client.cpuCount ≠ 0) :
    Sound (setCurrent client after) (extend seen client.cpu item) := by
  constructor
  · intro cpu
    dsimp only [log, setCurrent, extend]
    by_cases same : cpu = client.cpu
    · subst same
      rw [update_self, update_self]
      exact (sound.accounted client.cpu).hold held lastBt holding
    · rw [update_of_ne same, update_of_ne same]
      exact sound.accounted cpu
  · intro cpu some_items
    dsimp only [setCurrent] at some_items ⊢
    by_cases same : cpu = client.cpu
    · rcases sound.inside with zero | inside
      · rw [same, zero]
        exact Nat.pos_of_ne_zero known
      · rw [same]
        exact inside
    · rw [update_of_ne same] at some_items
      exact sound.counted cpu some_items
  · exact sound.inside

end Accounts

section Step

/-- The processor of an item. -/
def nextCpu (cpu : Nat) (item : Item) : Nat :=
  if getEvent item.event = processor then item.data % 2 ^ 32 else cpu

/-- An item that is neither held by a processor that does not hold back, nor passed before
items that are held back, nor makes the frequency zero. -/
structure Careful (client : State (σ × List Call)) (item : Item) : Prop where
  held : getEvent item.event = processor → (current client).holdBack = true →
    (client.perCpu (item.data % 2 ^ 32)).holdBack = true
  passed : getEvent item.event = processor → (current client).holdBack = false →
    (client.perCpu (item.data % 2 ^ 32)).items = []
  version : getEvent item.event = Client.version → (current client).items = []
  frequency : getEvent item.event = Client.frequency → item.data % 2 ^ 32 ≠ 0

/-- The client behind the switch can hold the item back or pass it. -/
structure Ready (before : State (σ × List Call)) (seen : Nat → List Item) (cpu : Nat)
    (switched : Switched (σ × List Call)) : Prop where
  sound : Sound switched.client seen
  cpu : switched.client.cpu = cpu
  known : before.cpuCount ≠ 0 → switched.client.cpuCount ≠ 0
  held : switched.doHoldBack = true →
    (current switched.client).holdBack = true ∧ before.cpuCount ≠ 0
  passed : switched.doHoldBack = false → (current switched.client).items = []

variable {client : State (σ × List Call)} {seen : Nat → List Item}

/-- A processor that does not hold back has no items. -/
theorem Sound.empty (sound : Sound client seen) (direct : (current client).holdBack = false) :
    (current client).items = [] := by
  by_contra some_items
  have holding := (sound.accounted client.cpu).holding some_items
  rw [current, holding] at direct
  cases direct

/-- The item is held back if its processor holds back. -/
theorem Sound.ready (sound : Sound before seen) (known : before.cpuCount ≠ 0)
    (quiet : Quiet before client) (same : (current client).holdBack = (current before).holdBack)
    (status : Status) :
    Ready before seen before.cpu ⟨client, status, (current before).holdBack⟩ where
  sound := sound.quiet quiet
  cpu := quiet.cpu
  known := fun _ => quiet.cpuCount ▸ known
  held holding := ⟨same.trans holding, known⟩
  passed direct := (sound.quiet quiet).empty (same.trans direct)

theorem switchProcessor_ready (sound : Sound client seen) (careful : Careful client item)
    (event : getEvent item.event = processor) (known : client.cpuCount ≠ 0)
    (good : (switchProcessor client item.data).status = .success) :
    Ready client seen (item.data % 2 ^ 32) (switchProcessor client item.data) := by
  rw [switchProcessor] at good ⊢
  split at good
  next => cases good
  next inside =>
    rw [if_neg inside]
    constructor
    · refine ⟨sound.accounted, sound.counted, .inr ?_⟩
      exact Nat.lt_of_le_of_lt (Nat.mod_le _ _) (Nat.lt_of_not_le inside)
    · rfl
    · exact id
    · intro holding
      exact ⟨careful.held event holding, known⟩
    · intro direct
      exact careful.passed event direct

theorem switchUptimeLow_ready (sound : Sound client seen) (known : client.cpuCount ≠ 0)
    (data : Nat) : Ready client seen client.cpu (switchUptimeLow client data) := by
  have quiet : Quiet client (switchUptimeLow client data).client :=
    .update client client.cpu ⟨rfl, rfl, id⟩
  have same : (current (switchUptimeLow client data).client).holdBack =
      (current client).holdBack := by
    rw [switchUptimeLow, current_setCurrent]
  exact sound.ready known quiet same .success

theorem setUptime_quiet (client : State (σ × List Call)) (time data : Nat) :
    Quiet client (setUptime client time data) := .update client client.cpu ⟨rfl, rfl, id⟩

/-- What is held back is passed before the item. -/
theorem switchUptimeHigh_ready (succeeds : ∀ arg call, (env.handler arg call).2 = .success)
    (sound : Sound client seen) (known : client.cpuCount ≠ 0) (time data : Nat) :
    Ready client seen client.cpu (switchUptimeHigh (recorded env) client time data) := by
  have quiet := setUptime_quiet client time data
  rw [switchUptimeHigh]
  split
  next valid =>
    split
    next holding =>
      obtain ⟨_, uptime, lastBt, arg, calls, resolved, timely⟩ :=
        resolveHoldBack_spec succeeds (setUptime client time data)
      rw [← append_nil (current (setUptime client time data)).items] at timely
      have flushed := @Sound.flush σ _ seen (sound.quiet quiet)
        { current (setUptime client time data) with
          uptime := uptime, lastBt := lastBt, holdBack := false, items := [] }
        calls arg [] timely rfl
      rw [append_nil, update_eq_self] at flushed
      dsimp only
      rw [resolved]
      refine ⟨flushed, rfl, fun _ => known, (by rintro ⟨⟩), fun _ => ?_⟩
      simp only [current, setCurrent, update_self]
    next direct =>
      have free : (current client).holdBack = false := Bool.eq_false_iff.mpr direct
      refine ⟨sound.quiet quiet, rfl, fun _ => known, (by rintro ⟨⟩), fun _ => ?_⟩
      exact (quiet.kept client.cpu).items.trans (sound.empty free)
  next => exact sound.ready known (.refl client) rfl .success

theorem switchProcessorMaximum_ready (sound : Sound client seen)
    (good : (switchProcessorMaximum client data).status = .success) :
    Ready client seen client.cpu (switchProcessorMaximum client data) := by
  rw [switchProcessorMaximum] at good ⊢
  split at good
  next => cases good
  next small =>
    rw [if_neg small]
    split at good
    next => cases good
    next first =>
      have none : client.cpuCount = 0 := not_not.mp first
      have empty (cpu : Nat) : (client.perCpu cpu).items = [] := by
        by_contra some_items
        have inside := sound.counted cpu some_items
        rw [none] at inside
        exact Nat.not_lt_zero _ inside
      rw [if_neg first]
      constructor
      · refine ⟨sound.accounted, fun cpu some_items => absurd (empty cpu) some_items, .inl ?_⟩
        rcases sound.inside with zero | inside
        · exact zero
        · rw [none] at inside
          exact absurd inside (Nat.not_lt_zero _)
      · rfl
      · intro _
        exact Nat.succ_ne_zero _
      · intro no
        cases no
      · intro _
        exact empty client.cpu

theorem allocateItems_quiet (env : Environment (σ × List Call))
    (itemCapacity remaining cpu : Nat) (client : State (σ × List Call)) :
    Quiet client (allocateItems env itemCapacity remaining cpu client).1 ∧
      ∀ other, ((allocateItems env itemCapacity remaining cpu client).1.perCpu
        other).holdBack = (client.perCpu other).holdBack := by
  induction remaining generalizing cpu client with
  | zero => exact ⟨.refl client, fun _ => rfl⟩
  | succ remaining ih =>
    rw [allocateItems]
    split
    next available =>
      have first : Quiet client { client with
          perCpu := update client.perCpu cpu
            { client.perCpu cpu with itemCapacity := itemCapacity } } :=
        .update client cpu ⟨rfl, rfl, id⟩
      obtain ⟨rest, same⟩ := ih (cpu + 1) { client with
        perCpu := update client.perCpu cpu { client.perCpu cpu with itemCapacity := itemCapacity } }
      refine ⟨first.trans rest, fun other => (same other).trans ?_⟩
      dsimp only
      by_cases here : other = cpu
      · rw [here, update_self]
      · rw [update_of_ne here]
    next => exact ⟨⟨fun _ => .refl _, rfl, rfl, rfl⟩, fun _ => rfl⟩

theorem switchPerCpuCount_ready (env : Environment (σ × List Call)) (sound : Sound client seen)
    (known : client.cpuCount ≠ 0) (good : (switchPerCpuCount env client data).status = .success) :
    Ready client seen client.cpu (switchPerCpuCount env client data) := by
  rw [switchPerCpuCount] at good ⊢
  rw [processPerCpuCount] at good ⊢
  split at good
  next => cases good
  next first =>
    rw [if_neg first, if_neg known]
    obtain ⟨quiet, same⟩ := allocateItems_quiet env (2 * (data % 2 ^ 32) % 2 ^ 32) client.cpuCount 0
      { client with perCpuItems := data % 2 ^ 32 }
    have counted : Quiet client { client with perCpuItems := data % 2 ^ 32 } :=
      ⟨fun _ => .refl _, rfl, rfl, rfl⟩
    have all := counted.trans quiet
    refine sound.ready known all ?_ _
    rw [current, all.cpu]
    exact same client.cpu

theorem switchPerCpuOverflow_ready (sound : Sound client seen) (known : client.cpuCount ≠ 0) :
    Ready client seen client.cpu (switchPerCpuOverflow client) := by
  have quiet : Quiet client (switchPerCpuOverflow client).client :=
    .update client client.cpu ⟨rfl, rfl, fun _ => rfl⟩
  have holding : (current (switchPerCpuOverflow client).client).holdBack = true := by
    rw [switchPerCpuOverflow, current_setCurrent]
  exact ⟨sound.quiet quiet, rfl, fun _ => known, fun _ => ⟨holding, known⟩, by rintro ⟨⟩⟩

theorem switchVersion_ready (sound : Sound client seen) (careful : Careful client item)
    (event : getEvent item.event = version)
    (good : (switchVersion client item.data).status = .success) :
    Ready client seen client.cpu (switchVersion client item.data) := by
  rw [switchVersion] at good ⊢
  split at good
  next => cases good
  next fine =>
    rw [if_neg fine]
    exact ⟨sound, rfl, id, (by rintro ⟨⟩), fun _ => careful.version event⟩

/-- The events that are possible before the number of processors is known. -/
def Early (item : Item) : Prop :=
  getEvent item.event = version ∨ getEvent item.event = processorMaximum

section

variable (succeeds : ∀ arg call, (env.handler arg call).2 = .success)
  (sound : Sound client seen)
include succeeds sound

theorem switchEvent_ready (careful : Careful client item) (known : client.cpuCount ≠ 0 ∨ Early item)
    (good : (switchEvent (recorded env) client (getTime item.event) (getEvent item.event) item.data).status = .success)
    :
    Ready client seen (nextCpu client.cpu item)
      (switchEvent (recorded env) client (getTime item.event) (getEvent item.event) item.data) := by
  have later {event : Nat} (same : getEvent item.event = event) (other : event ≠ version)
      (another : event ≠ processorMaximum) : client.cpuCount ≠ 0 := by
    rcases known with known | early | early
    · exact known
    · exact absurd (same.symm.trans early) other
    · exact absurd (same.symm.trans early) another
  rw [switchEvent] at good ⊢
  rw [nextCpu]
  split at good
  next event =>
    rw [if_pos event, if_pos event]
    exact switchProcessor_ready sound careful event (later event (by decide) (by decide)) good
  next other =>
    rw [if_neg other, if_neg other]
    split at good
    next event =>
      rw [if_pos event]
      exact switchUptimeLow_ready sound (later event (by decide) (by decide)) item.data
    next notLow =>
      rw [if_neg notLow]
      split at good
      next event =>
        rw [if_pos event]
        exact switchUptimeHigh_ready succeeds sound (later event (by decide) (by decide)) _ _
      next notHigh =>
        rw [if_neg notHigh]
        split at good
        next event =>
          rw [if_pos event]
          exact switchProcessorMaximum_ready sound good
        next notMaximum =>
          rw [if_neg notMaximum]
          split at good
          next event =>
            rw [if_pos event]
            exact switchPerCpuCount_ready _ sound (later event (by decide) (by decide)) good
          next notCount =>
            rw [if_neg notCount]
            split at good
            next event =>
              rw [if_pos event]
              exact switchPerCpuOverflow_ready sound (later event (by decide) (by decide))
            next notOverflow =>
              rw [if_neg notOverflow]
              split at good
              next event =>
                rw [if_pos event]
                have quiet : Quiet client (setToBtScaler client (item.data % 2 ^ 32)) :=
                  ⟨fun _ => .refl _, rfl, rfl, rfl⟩
                exact sound.ready (later event (by decide) (by decide)) quiet rfl .success
              next notFrequency =>
                rw [if_neg notFrequency]
                split at good
                next event =>
                  rw [if_pos event]
                  exact switchVersion_ready sound careful event good
                next notVersion =>
                  rw [if_neg notVersion]
                  exact sound.ready (later rfl notVersion notMaximum) (.refl client) rfl .success

/-- The item is held back behind the others, or passed if there are none. -/
theorem passItem_sound {doHoldBack : Bool}
    (held : doHoldBack = true → (current client).holdBack = true ∧ client.cpuCount ≠ 0)
    (passed : doHoldBack = false → (current client).items = [])
    (good : (passItem (recorded env) client doHoldBack item.event item.data).2 = .success) :
    Sound (passItem (recorded env) client doHoldBack item.event item.data).1
        (extend seen client.cpu item) ∧
      (passItem (recorded env) client doHoldBack item.event item.data).1.cpu = client.cpu ∧
      (passItem (recorded env) client doHoldBack item.event item.data).1.cpuCount =
        client.cpuCount := by
  rw [passItem] at good ⊢
  cases doHoldBack with
  | false =>
    rw [if_neg (by decide)]
    obtain ⟨_, delivers⟩ := callHandler_delivers succeeds client (getTime item.event)
      (passed_item item client.cpu)
    refine ⟨sound.deliver delivers (passed rfl), delivers.cpu, ?_⟩
    obtain ⟨uptime, lastBt, arg, calls, same, timely⟩ := delivers
    rw [same]
    rfl
  | true =>
    obtain ⟨holding, known⟩ := held rfl
    rw [if_pos rfl] at good ⊢
    rw [holdBack] at good ⊢
    split at good
    next full =>
      rw [if_pos full]
      split at good
      next => cases good
      next small =>
        rw [if_neg small]
        split at good
        next available =>
          rw [if_pos available]
          exact ⟨sound.hold rfl rfl holding known, rfl, rfl⟩
        next => cases good
    next room =>
      rw [if_neg room]
      exact ⟨sound.hold rfl rfl holding known, rfl, rfl⟩

/-- A visit accounts for its item. -/
theorem visit_sound (careful : Careful client item) (known : client.cpuCount ≠ 0 ∨ Early item)
    (good : (visit (recorded env) client item.event item.data).2 = .success) :
    Sound (visit (recorded env) client item.event item.data).1
        (extend seen (nextCpu client.cpu item) item) ∧
      (visit (recorded env) client item.event item.data).1.cpu = nextCpu client.cpu item ∧
      (client.cpuCount ≠ 0 →
        (visit (recorded env) client item.event item.data).1.cpuCount ≠ 0) := by
  rw [visit] at good ⊢
  split at good
  next bad => exact absurd good bad
  next fine =>
    rw [if_neg fine]
    have ready := switchEvent_ready succeeds sound careful known (not_not.mp fine)
    obtain ⟨result, cpu, cpuCount⟩ := passItem_sound succeeds ready.sound
      (fun holding => ⟨(ready.held holding).1, ready.known (ready.held holding).2⟩)
      ready.passed good
    rw [ready.cpu] at result cpu
    refine ⟨result, cpu, fun before => ?_⟩
    rw [cpuCount]
    exact ready.known before

end

end Step

section Run

instance (client : State (σ × List Call)) (item : Item) : Decidable (Careful client item) :=
  decidable_of_iff
    ((getEvent item.event = processor → (current client).holdBack = true →
        (client.perCpu (item.data % 2 ^ 32)).holdBack = true) ∧
      (getEvent item.event = processor → (current client).holdBack = false →
        (client.perCpu (item.data % 2 ^ 32)).items = []) ∧
      (getEvent item.event = version → (current client).items = []) ∧
      (getEvent item.event = frequency → item.data % 2 ^ 32 ≠ 0))
    ⟨fun ⟨held, passed, version, frequency⟩ => ⟨held, passed, version, frequency⟩,
      fun careful => ⟨careful.held, careful.passed, careful.version, careful.frequency⟩⟩

/-- Every item is careful where it is visited. -/
def CarefulRun (environment : Environment (σ × List Call)) :
    State (σ × List Call) → List Item → Prop
  | _, [] => True
  | client, item :: rest =>
    Careful client item ∧
      CarefulRun environment (visit environment client item.event item.data).1 rest

instance decidableCarefulRun (environment : Environment (σ × List Call)) :
    (client : State (σ × List Call)) → (items : List Item) →
      Decidable (CarefulRun environment client items)
  | _, [] => isTrue trivial
  | client, item :: rest =>
    have := decidableCarefulRun environment
      (visit environment client item.event item.data).1 rest
    inferInstanceAs (Decidable (Careful client item ∧
      CarefulRun environment (visit environment client item.event item.data).1 rest))

/-- The items of a processor in stream order. -/
def attributed (cpu : Nat) : Nat → List Item → List Item
  | _, [] => []
  | now, item :: rest =>
    if nextCpu now item = cpu then item :: attributed cpu (nextCpu now item) rest
    else attributed cpu (nextCpu now item) rest

/-- The stream starts with the version, the greatest processor and the count of items. -/
def Preamble : List Item → Prop
  | first :: second :: third :: _ =>
    getEvent first.event = version ∧ getEvent second.event = processorMaximum ∧
      getEvent third.event = perCpuCount
  | _ => False

instance : (items : List Item) → Decidable (Preamble items)
  | [] => isFalse id
  | [_] => isFalse id
  | [_, _] => isFalse id
  | first :: second :: third :: _ =>
    inferInstanceAs (Decidable (getEvent first.event = version ∧
      getEvent second.event = processorMaximum ∧ getEvent third.event = perCpuCount))

theorem extend_attributed (seen : Nat → List Item) (now : Nat) (item : Item) (rest : List Item) :
    (fun cpu => extend seen (nextCpu now item) item cpu ++ attributed cpu (nextCpu now item) rest) =
      fun cpu => seen cpu ++ attributed cpu now (item :: rest) := by
  funext cpu
  rw [attributed, extend]
  by_cases same : nextCpu now item = cpu
  · rw [if_pos same, ← same, update_self, append_assoc, List.singleton_append]
  · rw [if_neg same, update_of_ne (Ne.symm same)]

variable {client : State (σ × List Call)} {seen : Nat → List Item}

/-- The number of items is refused while the number of processors is not known. -/
theorem visit_perCpuCount_known (env : Environment (σ × List Call))
    (event : getEvent item.event = perCpuCount)
    (good : (visit env client item.event item.data).2 = .success) :
    client.cpuCount ≠ 0 := by
  intro none
  rw [visit] at good
  split at good
  next bad => exact bad good
  next fine =>
    have switched : (switchEvent env client (getTime item.event) (getEvent item.event)
        item.data).status = (processPerCpuCount env client item.data).2 := by
      rw [event]
      rfl
    rw [switched, processPerCpuCount, if_pos none] at fine
    split at fine <;> exact fine (by rintro ⟨⟩)

theorem visitAll_cons_success {env : Environment (σ × List Call)} {rest : List Item}
    (good : (visitAll env client (item :: rest)).2 = .success) :
    (visit env client item.event item.data).2 = .success ∧ visitAll env client (item :: rest) =
        visitAll env (visit env client item.event item.data).1 rest := by
  rw [visitAll] at good ⊢
  split at good
  next bad => exact absurd good bad
  next fine => exact ⟨not_not.mp fine, if_neg fine⟩

/-- Visits account for their items. -/
theorem visitAll_sound (succeeds : ∀ arg call, (env.handler arg call).2 = .success)
    (sound : Sound client seen) (careful : CarefulRun (recorded env) client items)
    (known : client.cpuCount ≠ 0) (good : (visitAll (recorded env) client items).2 = .success) :
    Sound (visitAll (recorded env) client items).1
      fun cpu => seen cpu ++ attributed cpu client.cpu items := by
  induction items generalizing client seen with
  | nil =>
    have same : (fun cpu => seen cpu ++ attributed cpu client.cpu []) = seen :=
      funext fun cpu => append_nil _
    rw [same]
    exact sound
  | cons item rest ih =>
    obtain ⟨visited, step⟩ := visitAll_cons_success good
    obtain ⟨next, cpu, still⟩ := visit_sound succeeds sound careful.1 (.inl known) visited
    rw [step] at good ⊢
    have result := ih next careful.2 (still known) good
    rw [cpu, extend_attributed] at result
    exact result

/-- A stream with its preamble is accounted for. -/
theorem preamble_sound (succeeds : ∀ arg call, (env.handler arg call).2 = .success)
    (sound : Sound client seen) (starts : Preamble items)
    (careful : CarefulRun (recorded env) client items)
    (good : (visitAll (recorded env) client items).2 = .success) :
    Sound (visitAll (recorded env) client items).1
      fun cpu => seen cpu ++ attributed cpu client.cpu items := by
  match items, starts with
  | first :: second :: third :: rest, ⟨isVersion, isMaximum, isCount⟩ =>
    obtain ⟨firstGood, step⟩ := visitAll_cons_success good
    obtain ⟨afterFirst, firstCpu, _⟩ := visit_sound succeeds sound careful.1
      (.inr (.inl isVersion)) firstGood
    rw [step] at good ⊢
    obtain ⟨secondGood, next⟩ := visitAll_cons_success good
    obtain ⟨afterSecond, secondCpu, _⟩ := visit_sound succeeds afterFirst careful.2.1
      (.inr (.inr isMaximum)) secondGood
    rw [next] at good ⊢
    have known := visit_perCpuCount_known (recorded env) isCount (visitAll_cons_success good).1
    have result := visitAll_sound succeeds afterSecond careful.2.2 known good
    rw [secondCpu, extend_attributed, firstCpu, extend_attributed] at result
    exact result

theorem calculateBestEffortUptime_spec (client : State σ) :
    ∃ uptime, calculateBestEffortUptime client =
      setCurrent client { current client with uptime := uptime } := ⟨_, rfl⟩

section

variable (succeeds : ∀ arg call, (env.handler arg call).2 = .success)
include succeeds

/-- A notice, and what is held back with the best time that can be told. -/
theorem resolve_at_end (client : State (σ × List Call)) :
    ∃ uptime lastBt arg calls, (resolveHoldBack (recorded env) (calculateBestEffortUptime
          (callHandler (recorded env) client 0 unreliableTime 0).1)).1 =
        { setCurrent client { current client with
            uptime := uptime, lastBt := lastBt, holdBack := false, items := [] } with
          arg := (arg, log client ++ calls) } ∧
      Timely client.cpu (current client).lastBt lastBt (current client).items calls := by
  have notice (bt : Nat) : Passed [] [⟨bt, client.cpu, unreliableTime, 0⟩] :=
    .notice _ (.inr rfl) .nil
  obtain ⟨_, _, middle, _, notices, called, first⟩ := callHandler_delivers succeeds client 0 notice
  obtain ⟨start, calculated⟩ := calculateBestEffortUptime_spec
    (callHandler (recorded env) client 0 unreliableTime 0).1
  obtain ⟨_, uptime, lastBt, arg, calls, resolved, timely⟩ := resolveHoldBack_spec succeeds
    (calculateBestEffortUptime (callHandler (recorded env) client 0 unreliableTime 0).1)
  refine ⟨uptime, lastBt, arg, notices ++ calls, ?_, ?_⟩
  · rw [resolved, calculated, called]
    simp only [setCurrent, current, log, update_idem, update_self, append_assoc]
  · rw [calculated, called] at timely
    simp only [setCurrent, current, update_self] at timely
    exact first.append timely

/-- At the end a processor passes what it holds back. -/
theorem destroyCpu_sound (sound : Sound client seen) {cpu : Nat} (inside : cpu < client.cpuCount) :
    Sound (destroyCpu (recorded env) client cpu) seen ∧
      (destroyCpu (recorded env) client cpu).cpuCount = client.cpuCount ∧
      ((destroyCpu (recorded env) client cpu).perCpu cpu).items = [] ∧
      ∀ other, other ≠ cpu →
        (destroyCpu (recorded env) client cpu).perCpu other = client.perCpu other := by
  have moved : Sound { client with cpu := cpu } seen :=
    ⟨sound.accounted, sound.counted, .inr inside⟩
  rw [destroyCpu]
  split
  next pending =>
    obtain ⟨uptime, lastBt, arg, calls, resolved, timely⟩ :=
      resolve_at_end succeeds { client with cpu := cpu }
    rw [← append_nil (current { client with cpu := cpu }).items] at timely
    have flushed := @Sound.flush σ _ seen moved { current { client with cpu := cpu } with
      uptime := uptime, lastBt := lastBt, holdBack := false, items := [] } calls arg [] timely rfl
    rw [append_nil, update_eq_self] at flushed
    rw [resolved]
    refine ⟨flushed, rfl, ?_, fun other ne => ?_⟩
    · simp only [setCurrent, update_self]
    · simp only [setCurrent, update_of_ne ne]
  next idle =>
    refine ⟨moved, rfl, ?_, fun _ _ => rfl⟩
    by_contra some_items
    have holding := (sound.accounted cpu).holding some_items
    exact idle ⟨holding, List.length_pos_iff.mpr some_items⟩

/-- At the end every processor has passed its items. -/
theorem destroy_sound (sound : Sound client seen) : Sound (destroy (recorded env) client) seen ∧
      ∀ cpu, ((destroy (recorded env) client).perCpu cpu).items = [] := by
  have each (count : Nat) (inside : count ≤ client.cpuCount) :
      Sound ((List.range count).foldl (destroyCpu (recorded env)) client) seen ∧
        ((List.range count).foldl (destroyCpu (recorded env)) client).cpuCount = client.cpuCount ∧
        ∀ cpu < count, (((List.range count).foldl (destroyCpu (recorded env))
          client).perCpu cpu).items = [] := by
    induction count with
    | zero => exact ⟨sound, rfl, fun cpu none => absurd none (Nat.not_lt_zero cpu)⟩
    | succ count ih =>
      obtain ⟨before, same, empty⟩ := ih (Nat.le_of_succ_le inside)
      rw [List.range_succ, List.foldl_append, List.foldl_cons, List.foldl_nil]
      obtain ⟨after, still, here, others⟩ := destroyCpu_sound succeeds before (same.symm ▸ inside)
      refine ⟨after, still.trans same, fun cpu below => ?_⟩
      by_cases last : cpu = count
      · rw [last]
        exact here
      · rw [others cpu last]
        exact empty cpu (Nat.lt_of_le_of_ne (Nat.le_of_lt_succ below) last)
  obtain ⟨after, same, empty⟩ := each client.cpuCount (Nat.le_refl _)
  refine ⟨after, fun cpu => ?_⟩
  by_contra some_items
  have inside := after.counted cpu some_items
  rw [same] at inside
  exact some_items (empty cpu inside)

end

theorem init_sound (arg : σ) : Sound (init (arg, ([] : List Call))).client fun _ => [] := by
  constructor
  · intro cpu
    refine ⟨⟨[], rfl, Timely.nil cpu (Nat.le_refl 0)⟩, fun some_items => ?_⟩
    exact absurd rfl some_items
  · intro cpu some_items
    exact absurd rfl some_items
  · exact .inl rfl

/-- Every item of a careful stream is passed to the handler once, in the order of its processor
and with times that do not decrease. -/
theorem careful_items_pass_once
    (succeeds : ∀ arg call, (environment.handler arg call).2 = .success) (host order : ByteOrder)
    (width : Width) (arg : σ) (items : List Item) (chunks : List (List UInt8))
    (stream : chunks.flatten = encode order width items)
    (starts : Preamble (items.map (narrow width)))
    (good : (runChunks (recorded environment) host (init (arg, [])) chunks).2 = .success) (careful :
      CarefulRun (recorded environment) (init (arg, [])).client (items.map (narrow width))) :
    ∀ cpu, Passed (attributed cpu 0 (items.map (narrow width)))
        (callsOf cpu (log (destroy (recorded environment)
          (runChunks (recorded environment) host (init (arg, [])) chunks).1.client))) ∧
      ((callsOf cpu (log (destroy (recorded environment)
        (runChunks (recorded environment) host (init (arg, [])) chunks).1.client))).map
          Call.bt).Pairwise (· ≤ ·) := by
  intro cpu
  obtain ⟨whole, status⟩ := @runChunks_eq_run _ (recorded environment) host (arg, []) chunks
  obtain ⟨decoded, decodedStatus⟩ :=
    @run_encode _ (recorded environment) host order width (arg, []) items
  rw [stream] at whole status
  rw [status, decodedStatus] at good
  rw [whole, decoded]
  have sound := preamble_sound succeeds (init_sound arg) starts careful good
  obtain ⟨after, empty⟩ := destroy_sound succeeds sound
  obtain ⟨passed, same, timely⟩ := (after.accounted cpu).delivered
  rw [empty cpu, List.append_nil] at same
  have all : attributed cpu 0 (items.map (narrow width)) = passed := same
  rw [all]
  exact ⟨timely.passed, timely.sorted⟩

/-- A handler that does nothing. -/
def idle : Environment Unit where
  handler arg _ := (arg, .success)
  memory _ := true

/-- Items of two processors. The first one knows its uptime, the second one does not. -/
def twoProcessors : List Item :=
  [⟨version, theVersion⟩, ⟨processorMaximum, 1⟩, ⟨perCpuCount, 4⟩, ⟨uptimeLow, 7⟩,
    ⟨uptimeHigh, 1⟩, ⟨processor, 1⟩, ⟨uptimeLow, 3⟩]

theorem careful_items_pass_once_two_processors :
    Passed [⟨processor, 1⟩, ⟨uptimeLow, 3⟩] (callsOf 1 (log (destroy (recorded idle)
        (runChunks (recorded idle) .little (init ((), []))
          [encode .big .bits64 twoProcessors]).1.client))) :=
  (careful_items_pass_once (fun _ _ => rfl) .little .big .bits64 () twoProcessors _
    (List.append_nil _) (by decide +kernel) (by decide +kernel) (by decide +kernel) 1).1

/-- The second processor goes back to the first one. -/
def switchedBack : List Item := twoProcessors ++ [⟨processor, 0⟩]

/-- The second processor holds back, so the item that goes back to the first one is held by a
processor that does not hold back. It is not passed at the end. -/
theorem switched_item_never_passed :
    Preamble switchedBack ∧ (runChunks (recorded idle) .little (init ((), []))
      [encode .little .bits64 switchedBack]).2 = .success ∧
    ¬ Passed (attributed 0 0 (switchedBack.map (narrow .bits64)))
      (callsOf 0 (log (destroy (recorded idle) (runChunks (recorded idle) .little (init ((), []))
          [encode .little .bits64 switchedBack]).1.client))) := by
  refine ⟨by decide +kernel, by decide +kernel, fun passed => ?_⟩
  have enough := passed.length_le
  have short : (callsOf 0 (log (destroy (recorded idle)
      (runChunks (recorded idle) .little (init ((), []))
        [encode .little .bits64 switchedBack]).1.client))).length <
      (attributed 0 0 (switchedBack.map (narrow .bits64))).length := by
    decide +kernel
  exact Nat.not_lt_of_le enough short

end Run

end Rtems.Record.Delivery
