import Mathlib.Algebra.Order.Ring.Nat
import Rtems.Library.RingLog
import Rtems.Library.Transition

/-!
# Fetching record items

The record items of a processor are produced into a ring, and a fetch copies them to a
storage of its own. The producer does not wait for the fetch, so items may be written over
before they are copied. A fetch compares the head before and after it copies to find out.

A fetch is cut where the producer may come in: after the head was read, after each item
that is copied, and before the head is read again. The fetches of other processors are left
out, since they do not use this ring and the control has nothing to do for it then.
-/

namespace Rtems.Record.Fetch

open RingLog
open Transition
open List (length_append length_singleton)
open Prod (mk)

/-- `rtems_record_item`. -/
structure Item where
  event : Nat
  data : Nat
deriving DecidableEq

/-- `RTEMS_RECORD_PER_CPU_OVERFLOW`. -/
def perCpuOverflow : Nat := 8

/-- `RTEMS_RECORD_PROCESSOR`. -/
def processor : Nat := 9

/-- `Record_Control`. -/
structure Control where
  head : Nat
  tail : Nat
  mask : Nat
  items : Nat → Item

/-- The internal part of `rtems_record_fetch_control`. -/
structure FetchControl where
  cpuTodo : Nat
  storageItemCount : Nat

/-- `rtems_record_fetch_status`. -/
inductive Status where
  | done
  | more
  | invalidItemCount
deriving DecidableEq

/-- The processor of the ring, the number of processors, and the items before the head that
may be in production. -/
structure Configuration where
  redZone : Nat
  cpuIndex : Nat
  processorMaximum : Nat

/-- The variables of a fetch that is under way. -/
structure Copying where
  head : Nat
  available : Nat
  overflow : Nat
  tail : Nat
  newTail : Nat
  copied : List Item
  status : Status

/-- A difference of an `unsigned int`. -/
def minus (first second : Nat) : Nat := (first + 2 ^ 32 - second) % 2 ^ 32

/-- `_Record_Index`. -/
def index (control : Control) (position : Nat) : Nat := position &&& control.mask

section

variable (configuration : Configuration)

/-- The number of items that may be fetched. -/
def capacity (control : Control) : Nat := control.mask + 1 - configuration.redZone

/-- `rtems_record_fetch` up to the loop. -/
def fetchBegin (control : Control) (fetch : FetchControl) : Option
    (Control × FetchControl × Copying) :=
  if fetch.storageItemCount < 3 then none
  else
    let count := fetch.storageItemCount
    let size := capacity configuration control
    let available :=
      if fetch.cpuTodo = 0 then minus control.head control.tail else fetch.cpuTodo
    let (overflow, available, tail) :=
      if available > size then (available - size, size, minus control.head size)
      else (0, available, control.tail)
    let (cpuTodo, available, status) :=
      if available + 2 > count then (available + 2 - count, count - 2, Status.more)
      else (0, available,
        if configuration.cpuIndex + 1 < configuration.processorMaximum then .more else .done)
    let newTail := (tail + available) % 2 ^ 32
    some ({ control with tail := newTail }, { fetch with cpuTodo := cpuTodo },
      ⟨control.head, available, overflow, tail, newTail, [], status⟩)

/-- One item is copied. -/
def fetchCopy (control : Control) (copying : Copying) : Copying :=
  { copying with
    copied := copying.copied ++ [control.items (index control copying.tail)]
    tail := (copying.tail + 1) % 2 ^ 32 }

/-- The items that were written over, and those that are reported as lost. -/
def fetchLost (control : Control) (copying : Copying) : Nat × Nat :=
  let newItems := minus control.head copying.head
  let size := capacity configuration control
  let sum := (copying.available + newItems) % 2 ^ 32
  if sum > size then
    let overwritten := sum - size
    (min overwritten copying.available, (copying.overflow + overwritten) % 2 ^ 32)
  else (0, copying.overflow)

/-- What a fetch returns: the header and the items behind it. -/
structure Fetched where
  header : Item
  overflow : Option Item
  items : List Item
  status : Status

/-- The fetched items. -/
def Fetched.fetchedItems (fetched : Fetched) : List Item :=
  fetched.header :: (fetched.overflow.toList ++ fetched.items)

/-- `rtems_record_fetch` behind the loop. -/
def fetchEnd (control : Control) (copying : Copying) : Fetched :=
  let lost := fetchLost configuration control copying
  { header := ⟨processor, configuration.cpuIndex⟩
    overflow := if lost.2 > 0 then some ⟨perCpuOverflow, lost.2⟩ else none
    items := copying.copied.drop lost.1
    status := copying.status }

/-- The slot of a position in the ring is written. -/
def setItem (control : Control) (position : Nat) (item : Item) : Control :=
  { control with items := Function.update control.items (index control position) item }

/-- A ring with its producer and the fetches, and what happened so far: all items in the
order of their production, how many of them were committed, the position that the tail
reached, the items that were delivered and the sum of the overflow counts. For a fetch that
is under way, where the head was and the first item that it copies. -/
structure State where
  control : Control
  contextHead : Nat
  writing : Bool
  fetch : FetchControl
  copying : Option Copying
  log : List Item
  committed : Nat
  reached : Nat
  delivered : List Item
  overflows : Nat
  headAtBegin : Nat
  start : Nat

/-- The steps of the producer and of a fetch. While an item is added its place in the ring
may hold anything. -/
inductive Operation where
  | add (item junk : Item)
  | added (item : Item)
  | commit
  | fetchBegin
  | fetchCopy
  | fetchEnd

/-- On one processor a fetch does not see the producer at work. -/
def Undisturbed (state : State) : Prop :=
  configuration.redZone = 0 → state.writing = false ∧ state.log.length = state.committed
deriving Decidable

/-- A fetch delivers its items and the overflow count. -/
def deliver (state : State) (fetched : Fetched) : State :=
  { state with
    copying := none
    delivered := state.delivered ++ fetched.items
    overflows := state.overflows + (fetched.overflow.map Item.data).getD 0 }

/-- A step. -/
def step (state : State) : Operation → Option State
  | .add item junk =>
    if state.writing = false then
      some { state with
        writing := true
        control := setItem state.control state.contextHead junk
        log := state.log ++ [item] }
    else none
  | .added item =>
    if state.writing = true ∧ state.log.getLast? = some item then
      some { state with
        writing := false
        control := setItem state.control state.contextHead item
        contextHead := (state.contextHead + 1) % 2 ^ 32 }
    else none
  | .commit =>
    if state.writing = false then
      some { state with
        control := { state.control with head := state.contextHead }
        committed := state.log.length }
    else none
  | .fetchBegin =>
    if Undisturbed configuration state ∧ state.copying.isNone then
      (fetchBegin configuration state.control state.fetch).map fun (control, fetch, copying) =>
        { state with
          control := control
          fetch := fetch
          copying := some copying
          reached := state.reached + copying.overflow + copying.available
          headAtBegin := state.committed
          start := state.reached + copying.overflow }
    else none
  | .fetchCopy =>
    state.copying.bind fun copying =>
      if Undisturbed configuration state ∧ copying.tail ≠ copying.newTail then
        some { state with copying := some (fetchCopy state.control copying) }
      else none
  | .fetchEnd =>
    state.copying.bind fun copying =>
      if Undisturbed configuration state ∧ copying.tail = copying.newTail then
        some (deliver state (fetchEnd configuration state.control copying))
      else none

/-- The storage of the ring is a power of two, nothing was produced or fetched. -/
structure Initial (configuration : Configuration) (state : State) : Prop where
  mask : ∃ exponent ≤ 31, state.control.mask + 1 = 2 ^ exponent
  redZone : configuration.redZone ≤ 1
  count : 3 ≤ state.fetch.storageItemCount
  head : state.control.head = 0 ∧ state.control.tail = 0 ∧ state.contextHead = 0
  idle : state.writing = false ∧ state.copying = none ∧ state.fetch.cpuTodo = 0
  nothing : state.log = [] ∧ state.committed = 0 ∧ state.reached = 0 ∧ state.delivered = [] ∧
    state.overflows = 0

/-- When a fetch starts anew, its items can be counted. When it ends, it has taken all items
up to the head that it read first and not more items than the ring has were committed since
then, or it has fallen behind by not more than that; and the items in production are not in
the place of those that it keeps. -/
def Careful (state : State) : Operation → Prop
  | .fetchBegin => state.fetch.cpuTodo = 0 → state.committed - state.reached < 2 ^ 32
  | .fetchEnd =>
      (state.reached = state.headAtBegin ∧
          state.committed ≤ state.headAtBegin + capacity configuration state.control ∧
          state.committed - state.start < 2 ^ 32 ∨
        state.committed ≤ state.start + capacity configuration state.control) ∧
      state.log.length ≤ max state.start (state.committed - capacity configuration state.control) +
        (state.control.mask + 1)
  | _ => True

end

/-- The items that are written. -/
def written (state : State) : Nat := state.log.length - if state.writing = true then 1 else 0

/-- A fetch that is under way. -/
structure Busy (configuration : Configuration) (state : State) (copying : Copying) : Prop where
  head : copying.head = state.headAtBegin % 2 ^ 32
  behind : state.headAtBegin ≤ state.committed
  whole : state.start + copying.available = state.reached
  before : state.reached ≤ state.headAtBegin
  fits : copying.available ≤ capacity configuration state.control
  newTail : copying.newTail = state.reached % 2 ^ 32
  tail : copying.tail = (state.start + copying.copied.length) % 2 ^ 32
  length : copying.copied.length ≤ copying.available
  small : copying.overflow + capacity configuration state.control < 2 ^ 32
  delivered : ∃ earlier ≤ state.start, state.delivered.Sublist (state.log.take earlier)
  counted : state.delivered.length + state.overflows + copying.overflow = state.start
  intact : ∀ place item, copying.copied[place]? = some item →
    state.log.length ≤ state.start + place + (state.control.mask + 1) →
      state.log[state.start + place]? = some item

/-- The ring holds the latest items, and what was delivered or counted as lost ends where
the tail is. -/
structure Sound (configuration : Configuration) (state : State) : Prop where
  mask : ∃ exponent ≤ 31, state.control.mask + 1 = 2 ^ exponent
  redZone : configuration.redZone ≤ 1
  count : 3 ≤ state.fetch.storageItemCount
  head : state.control.head = state.committed % 2 ^ 32
  context : state.contextHead = written state % 2 ^ 32
  writing : state.writing = true → state.log ≠ []
  committed : state.committed ≤ written state
  holds : Holds (state.control.mask + 1) state.control.items state.log (written state)
  tail : state.control.tail = state.reached % 2 ^ 32
  todo : state.reached + state.fetch.cpuTodo ≤ state.committed
  small : state.fetch.cpuTodo ≤ capacity configuration state.control
  idle : state.copying = none → state.delivered.Sublist (state.log.take state.reached) ∧
    state.delivered.length + state.overflows = state.reached
  busy : ∀ copying, state.copying = some copying → Busy configuration state copying

section Arithmetic

theorem minus_mod {first second : Nat} (before : second ≤ first) (near : first - second < 2 ^ 32) :
    minus (first % 2 ^ 32) (second % 2 ^ 32) = first - second := by
  rw [minus]
  omega

variable {ctl : Control} {exponent : Nat}

/-- The place of a position in the ring. -/
theorem index_mod (small : exponent ≤ 31) (mask : ctl.mask + 1 = 2 ^ exponent)
    (pos : Nat) : index ctl (pos % 2 ^ 32) = pos % (ctl.mask + 1) := by
  have bits : ctl.mask = 2 ^ exponent - 1 := by omega
  rw [index, mask, bits, Nat.and_two_pow_sub_one_eq_mod]
  exact Nat.mod_mod_of_dvd pos (Nat.pow_dvd_pow 2 (by omega))

/-- The ring is not larger than an `unsigned int` can count. -/
theorem mask_lt (small : exponent ≤ 31) (mask : ctl.mask + 1 = 2 ^ exponent) :
    ctl.mask + 1 ≤ 2 ^ 31 := by
  rw [mask]
  exact Nat.pow_le_pow_right (by decide) small

end Arithmetic

namespace Sound

variable {cfg : Configuration} {st : State}

/-- A producer starts to write an item. -/
theorem add (sound : Sound cfg st) (idle : st.writing = false) (item junk : Item) :
    Sound cfg { st with
      writing := true
      control := setItem st.control st.contextHead junk
      log := st.log ++ [item] } := by
  obtain ⟨exponent, small, mask⟩ := sound.mask
  have before : written st = st.log.length := by
    rw [written, idle, if_neg Bool.false_ne_true, Nat.sub_zero]
  have after : written { st with
      writing := true
      control := setItem st.control st.contextHead junk
      log := st.log ++ [item] } = st.log.length := by
    rw [written]
    rw [if_pos rfl, length_append, length_singleton, Nat.add_sub_cancel]
  have place : index st.control st.contextHead =
      st.log.length % (st.control.mask + 1) := by
    rw [sound.context, before, index_mod small mask]
  have reached : st.reached ≤ st.log.length := by
    have todo := sound.todo
    have committed := sound.committed
    omega
  have kept : ∀ count ≤ st.log.length, (st.log ++ [item]).take count =
      st.log.take count := by
    intro count below
    exact List.take_append_of_le_length below
  refine { sound with
    context := ?context, writing := ?writing, committed := ?committed, holds := ?holds
    idle := ?idle, busy := ?busy }
  case context =>
    rw [after, ← before]
    exact sound.context
  case writing =>
    intro _
    exact List.append_ne_nil_of_right_ne_nil _ (List.cons_ne_nil item [])
  case committed =>
    rw [after, ← before]
    exact sound.committed
  case holds =>
    have holds := sound.holds
    rw [before] at holds
    rw [after]
    dsimp only [setItem]
    rw [place]
    exact holds.begin item junk
  case idle =>
    intro none
    rw [kept _ reached]
    exact sound.idle none
  case busy =>
    intro copying present
    have busy := sound.busy copying present
    obtain ⟨earlier, below, sublist⟩ := busy.delivered
    have start : st.start ≤ st.log.length := by
      have whole := busy.whole
      omega
    refine { busy with delivered := ⟨earlier, below, ?_⟩, intact := ?_ }
    · dsimp only
      rw [kept _ (below.trans start)]
      exact sublist
    · intro place found entry near
      dsimp only [setItem] at near ⊢
      rw [length_append, length_singleton] at near
      have old := busy.intact place found entry (by omega)
      rw [List.getElem?_append_left]
      · exact old
      · exact (List.getElem?_eq_some_iff.mp old).1

/-- The item is written. -/
theorem added (sound : Sound cfg st) {item : Item} (busy : st.writing = true)
    (last : st.log.getLast? = some item) :
    Sound cfg { st with
      writing := false
      control := setItem st.control st.contextHead item
      contextHead := (st.contextHead + 1) % 2 ^ 32 } := by
  obtain ⟨exponent, small, mask⟩ := sound.mask
  obtain ⟨front, whole⟩ := List.getLast?_eq_some_iff.mp last
  have before : written st = front.length := by
    rw [written, busy, if_pos rfl, whole, length_append, length_singleton, Nat.add_sub_cancel]
  have after : written { st with
      writing := false
      control := setItem st.control st.contextHead item
      contextHead := (st.contextHead + 1) % 2 ^ 32 } = front.length + 1 := by
    rw [written]
    rw [if_neg Bool.false_ne_true, Nat.sub_zero, whole, length_append, length_singleton]
  have place : index st.control st.contextHead = front.length % (st.control.mask + 1) := by
    rw [sound.context, before, index_mod small mask]
  refine { sound with
    context := ?context, writing := ?writing, committed := ?committed, holds := ?holds
    busy := ?busy }
  case context =>
    rw [after]
    rw [sound.context, before, Nat.mod_add_mod]
  case writing =>
    intro impossible
    cases impossible
  case committed =>
    rw [after]
    have committed := sound.committed
    rw [before] at committed
    exact Nat.le_succ_of_le committed
  case holds =>
    have holds := sound.holds
    rw [before, whole] at holds
    rw [after]
    dsimp only [setItem]
    rw [place, whole]
    exact holds.finish
  case busy =>
    intro copying present
    have busy := sound.busy copying present
    exact { busy with }

/-- The items are committed. -/
theorem commit (sound : Sound cfg st) (idle : st.writing = false) : Sound cfg { st with
      control := { st.control with head := st.contextHead }
      committed := st.log.length } := by
  have all : written st = st.log.length := by
    rw [written, idle, if_neg Bool.false_ne_true, Nat.sub_zero]
  have committed := sound.committed
  rw [all] at committed
  refine { sound with
    head := ?head, committed := Nat.le_of_eq all.symm, todo := sound.todo.trans committed
    busy := ?busy }
  case head =>
    rw [← all]
    exact sound.context
  case busy =>
    intro copying present
    have busy := sound.busy copying present
    exact { busy with behind := busy.behind.trans committed }

variable {copying : Copying}

section

variable (sound : Sound cfg st)
include sound

/-- One item is copied. -/
theorem copy (present : st.copying = some copying) (more : copying.tail ≠ copying.newTail) :
    Sound cfg { st with copying := some (fetchCopy st.control copying) } := by
  obtain ⟨exponent, small, mask⟩ := sound.mask
  have busy := sound.busy copying present
  have length : copying.copied.length < copying.available := by
    refine Nat.lt_of_le_of_ne busy.length ?_
    intro same
    rw [busy.tail, busy.newTail, same, busy.whole] at more
    exact more rfl
  refine { sound with idle := ?idle, busy := ?busy }
  case idle =>
    intro impossible
    cases impossible
  case busy =>
    intro other found
    cases found
    refine { busy with tail := ?_, length := ?_, intact := ?_ }
    · rw [fetchCopy]
      rw [busy.tail, Nat.mod_add_mod, length_append, length_singleton, Nat.add_assoc]
    · rw [fetchCopy]
      rw [length_append, length_singleton]
      exact length
    · intro place item entry near
      rw [fetchCopy] at entry
      by_cases new : place = copying.copied.length
      · subst new
        rw [List.getElem?_concat_length] at entry
        cases entry
        have whole := busy.whole
        have before := busy.before
        have behind := busy.behind
        have committed := sound.committed
        have bound : written st ≤ st.log.length := Nat.sub_le _ _
        obtain ⟨item, present⟩ : ∃ item, st.log[st.start + copying.copied.length]? =
            some item := ⟨_, List.getElem?_eq_getElem (by omega)⟩
        rw [busy.tail, index_mod small mask, sound.holds _ item present (by omega) near]
        exact present
      · have old : place < copying.copied.length := by
          have below := (List.getElem?_eq_some_iff.mp entry).1
          rw [length_append, length_singleton] at below
          omega
        rw [List.getElem?_append_left old] at entry
        exact busy.intact place item entry near

theorem capacity_le : capacity cfg st.control ≤ 2 ^ 31 := by
  obtain ⟨exponent, small, mask⟩ := sound.mask
  have bound := mask_lt small mask
  rw [capacity]
  omega

variable {fetch : FetchControl}

/-- The amount that a fetch takes, and where it starts and ends. -/
theorem begin_spec (careful : st.fetch.cpuTodo = 0 → st.committed - st.reached < 2 ^ 32)
    {ctl : Control}
    (begins : fetchBegin cfg st.control st.fetch = some (ctl, fetch, copying)) :
    ctl = { st.control with
        tail := (st.reached + copying.overflow + copying.available) % 2 ^ 32 } ∧
      fetch.storageItemCount = st.fetch.storageItemCount ∧
      fetch.cpuTodo ≤ capacity cfg st.control ∧
      st.reached + copying.overflow + copying.available + fetch.cpuTodo ≤ st.committed ∧
      copying.head = st.committed % 2 ^ 32 ∧
      copying.available ≤ capacity cfg st.control ∧
      copying.overflow + capacity cfg st.control < 2 ^ 32 ∧
      copying.tail = (st.reached + copying.overflow) % 2 ^ 32 ∧
      copying.newTail = (st.reached + copying.overflow + copying.available) % 2 ^ 32 ∧
      copying.copied = [] := by
  have size := sound.capacity_le
  have todo := sound.todo
  have small := sound.small
  have count := sound.count
  have amount : (if st.fetch.cpuTodo = 0 then minus st.control.head st.control.tail
      else st.fetch.cpuTodo) ≤ st.committed - st.reached ∧
      ((if st.fetch.cpuTodo = 0 then minus st.control.head st.control.tail
        else st.fetch.cpuTodo) > capacity cfg st.control →
      (if st.fetch.cpuTodo = 0 then minus st.control.head st.control.tail
        else st.fetch.cpuTodo) = st.committed - st.reached ∧
        st.committed - st.reached < 2 ^ 32) := by
    split
    next zero =>
      have near := careful zero
      rw [sound.head, sound.tail, minus_mod (by omega) near]
      exact ⟨Nat.le_refl _, fun _ => ⟨rfl, near⟩⟩
    next => exact ⟨by omega, fun large => absurd large (by omega)⟩
  rw [fetchBegin, if_neg (by omega)] at begins
  dsimp only at begins
  generalize (if st.fetch.cpuTodo = 0 then minus st.control.head st.control.tail
    else st.fetch.cpuTodo) = available at amount begins
  obtain ⟨bound, exact_amount⟩ := amount
  have head := sound.head
  have tail := sound.tail
  generalize capacity cfg st.control = ring at *
  have parts : ∃ overflow taken start, (if available > ring then
      (available - ring, ring, minus st.control.head ring) else
      (0, available, st.control.tail)) = (overflow, taken, start) ∧
      taken ≤ ring ∧ st.reached + overflow + taken ≤ st.committed ∧
      overflow + ring < 2 ^ 32 ∧ start = (st.reached + overflow) % 2 ^ 32 := by
    by_cases large : available > ring
    · obtain ⟨same, near⟩ := exact_amount large
      refine ⟨_, _, _, if_pos large, Nat.le_refl _, by omega, by omega, ?_⟩
      rw [head, minus, same]
      omega
    · refine ⟨_, _, _, if_neg large, by omega, by omega, by omega, ?_⟩
      rw [tail, Nat.add_zero]
  obtain ⟨overflow, taken, start, cut, fits, inside, little, from_⟩ := parts
  rw [cut] at begins
  by_cases much : taken + 2 > st.fetch.storageItemCount
  · rw [if_pos much] at begins
    obtain ⟨rfl, rfl, rfl⟩ := mk.inj (Option.some.inj begins) |>.imp id mk.inj
    dsimp only
    rw [from_, Nat.mod_add_mod]
    refine ⟨rfl, rfl, by omega, by omega, head, by omega, little, rfl, rfl, rfl⟩
  · rw [if_neg much] at begins
    obtain ⟨rfl, rfl, rfl⟩ := mk.inj (Option.some.inj begins) |>.imp id mk.inj
    dsimp only
    rw [from_, Nat.mod_add_mod]
    refine ⟨rfl, rfl, by omega, by omega, head, by omega, little, rfl, rfl, rfl⟩

theorem fetchBegin (idle : st.copying = none)
    (careful : st.fetch.cpuTodo = 0 → st.committed - st.reached < 2 ^ 32) {ctl : Control}
    (begins : Fetch.fetchBegin cfg st.control st.fetch = some (ctl, fetch, copying))
    :
    Sound cfg { st with
      control := ctl
      fetch := fetch
      copying := some copying
      reached := st.reached + copying.overflow + copying.available
      headAtBegin := st.committed
      start := st.reached + copying.overflow } := by
  obtain ⟨rfl, count, small, todo, head, fits, little, tail, newTail, copied⟩ :=
    sound.begin_spec careful begins
  obtain ⟨sublist, counted⟩ := sound.idle idle
  refine { sound with
    count := count ▸ sound.count, tail := ?tail, todo, small, idle := ?idle, busy := ?busy }
  case tail => rfl
  case idle =>
    intro impossible
    cases impossible
  case busy =>
    intro other found
    cases found
    refine ⟨head, Nat.le_refl _, rfl, ?_, fits, newTail, ?_, ?_, little, ?_, ?_, ?_⟩
    · dsimp only
      omega
    · rw [copied, tail]
      rfl
    · rw [copied]
      exact Nat.zero_le _
    · exact ⟨st.reached, Nat.le_add_right _ _, sublist⟩
    · rw [counted]
    · intro place item entry
      rw [copied] at entry
      cases entry

/-- The items that are lost are those that the producer has written over. -/
theorem lost_spec (present : st.copying = some copying)
    (careful : st.reached = st.headAtBegin ∧ st.committed ≤ st.headAtBegin + capacity cfg st.control ∧ st.committed - st.start < 2 ^ 32 ∨ st.committed ≤ st.start + capacity cfg st.control)
    :
    ∃ overwritten ≤ copying.available, fetchLost cfg st.control copying =
        (overwritten, copying.overflow + overwritten) ∧
      st.start + overwritten =
        max st.start (st.committed - capacity cfg st.control) := by
  have busy := sound.busy copying present
  have whole := busy.whole
  have before := busy.before
  have behind := busy.behind
  have fits := busy.fits
  have small := busy.small
  have newItems : minus st.control.head copying.head = st.committed - st.headAtBegin := by
    rw [sound.head, busy.head]
    refine minus_mod behind ?_
    omega
  rw [fetchLost, newItems]
  dsimp only
  generalize capacity cfg st.control = size at *
  by_cases behind_ring : (copying.available + (st.committed - st.headAtBegin)) % 2 ^ 32 > size
  · rw [if_pos behind_ring]
    obtain ⟨all, near, countable⟩ | near := careful
    · have sum : (copying.available + (st.committed - st.headAtBegin)) % 2 ^ 32 =
          st.committed - st.start := by
        omega
      rw [sum] at behind_ring ⊢
      refine ⟨st.committed - st.start - size, by omega, ?_, by omega⟩
      rw [Nat.min_eq_left (by omega), Nat.mod_eq_of_lt (by omega)]
    · omega
  · rw [if_neg behind_ring]
    refine ⟨0, Nat.zero_le _, rfl, ?_⟩
    omega

theorem fetchEnd (present : st.copying = some copying) (ends : copying.tail = copying.newTail)
    (careful : Careful cfg st .fetchEnd) :
    Sound cfg (deliver st (Fetch.fetchEnd cfg st.control copying)) := by
  have busy := sound.busy copying present
  have ring := sound.capacity_le
  obtain ⟨overwritten, below, lost, first⟩ := sound.lost_spec present careful.1
  have length : copying.copied.length = copying.available := by
    have bound := busy.length
    have fits := busy.fits
    rw [busy.tail, busy.newTail, ← busy.whole] at ends
    omega
  have items : (Fetch.fetchEnd cfg st.control copying).items =
      copying.copied.drop overwritten := by
    rw [Fetch.fetchEnd, lost]
  have overflow : ((Fetch.fetchEnd cfg st.control copying).overflow.map
      Item.data).getD 0 = copying.overflow + overwritten := by
    rw [Fetch.fetchEnd, lost]
    split
    next => rfl
    next none => exact (Nat.eq_zero_of_not_pos none).symm
  have near := careful.2
  have bound : written st ≤ st.log.length := Nat.sub_le _ _
  have committed := sound.committed
  have before := busy.before
  have behind := busy.behind
  have whole := busy.whole
  have kept : copying.copied.drop overwritten =
      (st.log.take st.reached).drop (st.start + overwritten) := by
    refine List.ext_getElem? ?_
    intro place
    rw [List.getElem?_drop, List.getElem?_drop, List.getElem?_take]
    cases entry : copying.copied[overwritten + place]? with
    | none =>
      have past := List.getElem?_eq_none_iff.mp entry
      rw [if_neg (by omega)]
    | some item =>
      have inside := (List.getElem?_eq_some_iff.mp entry).1
      rw [if_pos (by omega), Nat.add_assoc]
      exact (busy.intact _ item entry (by omega)).symm
  obtain ⟨earlier, start, sublist⟩ := busy.delivered
  refine { sound with idle := ?idle, busy := ?busy }
  case idle =>
    intro _
    rw [deliver, items, overflow, kept]
    dsimp only
    constructor
    · have front : st.delivered.Sublist
          ((st.log.take st.reached).take (st.start + overwritten)) := by
        rw [List.take_take]
        refine sublist.trans (List.take_sublist_take_left ?_)
        omega
      have joined := front.append (List.Sublist.refl
        ((st.log.take st.reached).drop (st.start + overwritten)))
      rwa [List.take_append_drop] at joined
    · rw [length_append, List.length_drop, List.length_take]
      have counted := busy.counted
      omega
  case busy =>
    intro other found
    cases found

/-- A step keeps the ring, and what was delivered and counted. -/
theorem step {next : State} {op : Operation} (careful : Careful cfg st op)
    (taken : step cfg st op = some next) : Sound cfg next := by
  cases op with
  | add item junk =>
    rw [Fetch.step] at taken
    split at taken
    next idle =>
      cases taken
      exact sound.add idle item junk
    next => cases taken
  | added item =>
    rw [Fetch.step] at taken
    split at taken
    next ready =>
      cases taken
      exact sound.added ready.1 ready.2
    next => cases taken
  | commit =>
    rw [Fetch.step] at taken
    split at taken
    next idle =>
      cases taken
      exact sound.commit idle
    next => cases taken
  | fetchBegin =>
    rw [Fetch.step] at taken
    split at taken
    next ready =>
      obtain ⟨⟨ctl, fetch, copying⟩, begins, rfl⟩ := Option.map_eq_some_iff.mp taken
      exact sound.fetchBegin (Option.isNone_iff_eq_none.mp ready.2) careful begins
    next => cases taken
  | fetchCopy =>
    obtain ⟨copying, present, taken⟩ := Option.bind_eq_some_iff.mp taken
    split at taken
    next ready =>
      cases taken
      exact sound.copy present ready.2
    next => cases taken
  | fetchEnd =>
    obtain ⟨copying, present, taken⟩ := Option.bind_eq_some_iff.mp taken
    split at taken
    next ready =>
      cases taken
      exact sound.fetchEnd present ready.2 careful
    next => cases taken

end

end Sound

theorem Initial.sound {cfg : Configuration} {st : State}
    (initial : Initial cfg st) : Sound cfg st := by
  obtain ⟨head, tail, context⟩ := initial.head
  obtain ⟨writing, copying, todo⟩ := initial.idle
  obtain ⟨log, committed, reached, delivered, overflows⟩ := initial.nothing
  have nothing : written st = 0 := by
    rw [written, log]
    exact Nat.zero_sub _
  constructor
  case mask => exact initial.mask
  case redZone => exact initial.redZone
  case count => exact initial.count
  case head => rw [head, committed, Nat.zero_mod]
  case context => rw [context, nothing, Nat.zero_mod]
  case writing =>
    intro busy
    rw [writing] at busy
    cases busy
  case committed => rw [committed]; exact Nat.zero_le _
  case holds =>
    intro place item entry
    rw [log] at entry
    cases entry
  case tail => rw [tail, reached, Nat.zero_mod]
  case todo => rw [reached, todo]; exact Nat.zero_le _
  case small => rw [todo]; exact Nat.zero_le _
  case idle =>
    intro _
    rw [delivered, overflows, reached]
    exact ⟨List.nil_sublist _, rfl⟩
  case busy =>
    intro other found
    rw [copying] at found
    cases found

/-- In every run with careful fetches, between two fetches the delivered items are produced
items in their order, each at most once, and together with the overflow counts they are as
many as there were before the position that the tail reached. -/
theorem fetches_lose_nothing_silently (configuration : Configuration) (past : List State)
    (state : State)
    (run : Trace (Initial configuration) (Careful configuration) (step configuration) past state)
    (idle : state.copying = none) :
    state.delivered.Sublist (state.log.take state.reached) ∧
      state.delivered.length + state.overflows = state.reached ∧
      state.reached ≤ state.committed ∧ state.control.tail = state.reached % 2 ^ 32 := by
  have sound : Sound configuration state := by
    refine run.invariant (Sound configuration) ?_ ?_
    · intro state initial
      exact initial.sound
    · intro state operation next sound careful taken
      exact sound.step careful taken
  have todo := sound.todo
  obtain ⟨sublist, counted⟩ := sound.idle idle
  exact ⟨sublist, counted, by omega, sound.tail⟩

instance (configuration : Configuration) (state : State) (operation : Operation) :
    Decidable (Careful configuration state operation) :=
  match operation with
  | .add .. | .added _ | .commit | .fetchCopy => .isTrue trivial
  | .fetchBegin => inferInstanceAs (Decidable (_ → _))
  | .fetchEnd => inferInstanceAs (Decidable ((_ ∧ _ ∧ _ ∨ _) ∧ _))

/-- A ring of four items with a storage of some size. -/
def start (storageItemCount : Nat) : State where
  control := ⟨0, 0, 3, fun _ => ⟨0, 0⟩⟩
  contextHead := 0
  writing := false
  fetch := ⟨0, storageItemCount⟩
  copying := none
  log := []
  committed := 0
  reached := 0
  delivered := []
  overflows := 0
  headAtBegin := 0
  start := 0

theorem start_initial {storageItemCount : Nat} (count : 3 ≤ storageItemCount) :
    Initial ⟨0, 0, 1⟩ (start storageItemCount) where
  mask := ⟨2, by decide, rfl⟩
  redZone := by decide
  count := count
  head := ⟨rfl, rfl, rfl⟩
  idle := ⟨rfl, rfl, rfl⟩
  nothing := ⟨rfl, rfl, rfl, rfl, rfl⟩

/-- An item is produced. -/
def produce (data : Nat) : List Operation :=
  [.add ⟨512, data⟩ ⟨0, 0⟩, .added ⟨512, data⟩, .commit]

/-- Six items are produced in a ring of four, and one more while the others are copied. The
first three are counted as lost. -/
theorem fetches_lose_nothing_silently_overflow :
    ∃ (past : List State) (state : State),
      Trace (Initial ⟨0, 0, 1⟩) (Careful ⟨0, 0, 1⟩) (step ⟨0, 0, 1⟩) past state ∧
      state.delivered.map Item.data = [3, 4, 5] ∧ state.overflows = 3 := by
  obtain ⟨past, state, run, seen⟩ := Trace.observe (Careful ⟨0, 0, 1⟩) (step ⟨0, 0, 1⟩) (start 8)
    (start_initial (by decide))
    (produce 0 ++ produce 1 ++ produce 2 ++ produce 3 ++ produce 4 ++ produce 5 ++
      [.fetchBegin, .fetchCopy, .fetchCopy] ++ produce 6 ++ [.fetchCopy, .fetchCopy, .fetchEnd])
    (fun state => (state.copying.isNone, state.delivered.map Item.data, state.reached))
    (true, [3, 4, 5], 6) (by decide +kernel) (by decide +kernel)
  obtain ⟨idle, shown⟩ := mk.inj seen
  obtain ⟨items, reached⟩ := mk.inj shown
  obtain ⟨-, counted, -⟩ := fetches_lose_nothing_silently _ past state run
    (Option.isNone_iff_eq_none.mp idle)
  refine ⟨past, state, run, items, ?_⟩
  have length := congrArg List.length items
  rw [List.length_map] at length
  rw [length, reached] at counted
  exact Nat.add_left_cancel counted

/-- The storage has room for one item. Four items are produced and one is fetched; then four
more are produced, and the next fetch delivers the sixth item as the second one and counts
nothing as lost. -/
theorem continued_fetch_delivers_later_item :
    ∃ (past : List State) (state : State),
      Trace (Initial ⟨0, 0, 1⟩) (fun _ _ => True) (step ⟨0, 0, 1⟩) past state ∧
      state.copying = none ∧ state.overflows = 0 ∧ state.reached = 2 ∧
      ¬ state.delivered.Sublist (state.log.take state.reached) := by
  obtain ⟨past, state, run, seen⟩ := Trace.observe (fun _ _ => True) (step ⟨0, 0, 1⟩) (start 3)
    (start_initial (by decide))
    (produce 0 ++ produce 1 ++ produce 2 ++ produce 3 ++ [.fetchBegin, .fetchCopy, .fetchEnd] ++
      produce 4 ++ produce 5 ++ produce 6 ++ produce 7 ++ [.fetchBegin, .fetchCopy, .fetchEnd])
    (fun state => ((state.copying.isNone, state.overflows, state.reached),
      state.delivered, state.log.take 2))
    ((true, 0, 2), [⟨512, 0⟩, ⟨512, 5⟩], [⟨512, 0⟩, ⟨512, 1⟩]) (by decide +kernel)
    (by decide +kernel)
  obtain ⟨shown, lists⟩ := mk.inj seen
  obtain ⟨idle, shown⟩ := mk.inj shown
  obtain ⟨overflows, reached⟩ := mk.inj shown
  obtain ⟨delivered, log⟩ := mk.inj lists
  refine ⟨past, state, run, Option.isNone_iff_eq_none.mp idle, overflows, reached, ?_⟩
  rw [reached, delivered, log]
  decide

end Rtems.Record.Fetch
