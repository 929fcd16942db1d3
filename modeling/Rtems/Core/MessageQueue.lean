import Mathlib.Algebra.Order.Ring.Nat
import Mathlib.Data.List.Nodup
import Mathlib.Data.List.Perm.Basic
import Rtems.Library.OrderedChain
import Rtems.Library.Transition

/-!
# Message queues

A message queue owns a fixed set of message buffers. A buffer is inactive or holds a
pending message. Threads that find no message and threads that find no buffer wait in one
queue; nothing but the number of pending messages tells them apart. A submitted message
goes to a waiting receiver, into an inactive buffer or stays with its blocked sender, and
a receiver passes the buffer that it emptied on to a blocked sender.

The system records its history, with the submitted messages as their senders saw them and
the received ones as the receivers got them. A message has a ticket, the number of its
submit call, which the code knows nothing of.
-/

namespace Rtems.MessageQueue

open Transition OrderedChain
open Function (update update_of_ne update_self)
open List (append_assoc append_nil filter_append flatMap_append map_append map_cons mem_cons
  mem_cons_of_mem nodup_cons pairwise_append perm_middle)

universe u v w
variable {T : Type u} {K : Type v} {B : Type w}

/-- A message in a buffer, on the way into it or out of it. -/
structure Message (B : Type w) where
  ticket : Nat
  size : Nat
  content : List B
  priority : Int32
deriving DecidableEq

/-- `CORE_MESSAGE_QUEUE_SEND_REQUEST`. -/
def sendRequest : Int32 := Int32.maxValue

/-- `CORE_MESSAGE_QUEUE_URGENT_REQUEST`. -/
def urgentRequest : Int32 := Int32.minValue

/-- `CORE_message_queue_Disciplines`. -/
inductive Discipline where
  | fifo
  | priority
deriving DecidableEq, Repr

/-- The results of the operations. -/
inductive Status where
  | successful
  | invalidSize
  | tooMany
  | waitInIsr
  | unsatisfied
  | timeout
deriving DecidableEq, Repr

/-- What happened on a queue: a submit or seize operation returned, a flush discarded
messages, or a broadcast served a waiting receiver. -/
inductive Event (T : Type u) (B : Type w) where
  | submitted (message : Message B) (status : Status)
  | seized (thread : T) (status : Status) (message : Option (Message B))
  | flushed (messages : List (Message B))
  | served (thread : T) (content : List B)
deriving DecidableEq

/-- `CORE_message_queue_Control`, its buffers and the wait data of the threads. The last
four fields record which waiting threads want to send what, the number of submit calls
and the events, the oldest first. -/
structure System (T : Type u) (K : Type v) (B : Type w) where
  discipline : Discipline
  maximumMessageSize : Nat
  numberOfPendingMessages : Nat
  pendingMessages : List K
  inactiveMessages : List K
  buffer : K → Message B
  queue : List T
  priority : T → Nat
  source : T → List B
  option : T → Nat
  count : T → UInt32
  sending : T → Bool
  request : T → Message B
  calls : Nat
  history : List (Event T B)

/-- The operations on a queue. A submit operation tells whether it is called in an
interrupt service routine. A broadcast gives up the lock after each receiver, so a single
round of it is an operation too. -/
inductive Operation (T : Type u) (B : Type w) where
  | submit (thread : T) (interrupt : Bool) (content : List B) (submitType : Int32) (wait : Bool)
  | seize (thread : T) (wait : Bool)
  | flush
  | broadcast (content : List B)
  | broadcastRound (content : List B)
  | timeout (thread : T)
deriving DecidableEq

/-- Adds an event to the history. -/
def System.log (system : System T K B) (event : Event T B) : System T K B :=
  { system with history := system.history ++ [event] }

/-- The pending messages, the first one first. -/
def System.pending (system : System T K B) : List (Message B) :=
  system.pendingMessages.map system.buffer

section Operations

variable [DecidableEq T] [DecidableEq K]

/-- `_CORE_message_queue_Copy_buffer`: the bytes that are copied. -/
def copyBuffer (source : List B) (size : Nat) : List B :=
  source.take size

section

variable (system : System T K B)

/-- `_CORE_message_queue_Insert_message`. -/
def System.insertMessage (node : K) (message : Message B) : System T K B :=
  let filled : K → Message B := Function.update system.buffer node
    { message with content := copyBuffer message.content message.size }
  { system with
    buffer := filled
    numberOfPendingMessages := system.numberOfPendingMessages + 1
    pendingMessages :=
      if message.priority = sendRequest then system.pendingMessages ++ [node]
      else if message.priority ≠ urgentRequest then
        insertOrdered (fun other => message.priority < (filled other).priority) node
          system.pendingMessages
      else node :: system.pendingMessages }

/-- `_Thread_queue_Enqueue` with the operations of the discipline. -/
def System.enqueue (thread : T) : System T K B :=
  { system with
    queue := match system.discipline with
      | .fifo => system.queue ++ [thread]
      | .priority =>
          insertOrdered (fun other => system.priority thread < system.priority other) thread
            system.queue }

/-- `_CORE_message_queue_Dequeue_receiver`: the thread that was waiting, with the priority
of the message in its wait count. -/
def System.dequeueReceiver (submitType : Int32) : Option (T × System T K B) :=
  if system.numberOfPendingMessages ≠ 0 then none
  else
    match system.queue with
    | [] => none
    | receiver :: rest =>
        some (receiver, { system with
          queue := rest
          count := Function.update system.count receiver submitType.toUInt32 })

/-- A message as a receiver gets it: the copied bytes, their number and the wait count. -/
def System.receipt (thread : T) (message : Message B) : Message B :=
  { message with
    content := copyBuffer message.content message.size
    priority := (system.count thread).toInt32 }

/-- `_CORE_message_queue_Submit`. -/
def System.submit (caller : System T K B) (thread : T) (interrupt : Bool) (content : List B)
    (submitType : Int32) (wait : Bool) : System T K B :=
  let message : Message B := ⟨caller.calls, content.length, content, submitType⟩
  let system := { caller with calls := caller.calls + 1 }
  if message.size > system.maximumMessageSize then system.log (.submitted message .invalidSize)
  else
    match system.dequeueReceiver submitType with
    | some (receiver, served) =>
        (served.log (.seized receiver .successful (some (served.receipt receiver message)))).log
          (.submitted message .successful)
    | none =>
        match system.inactiveMessages with
        | node :: rest =>
            ({ system with inactiveMessages := rest }.insertMessage node message).log
              (.submitted message .successful)
        | [] =>
            if wait = false then system.log (.submitted message .tooMany)
            else if interrupt = true then system.log (.submitted message .waitInIsr)
            else
              { system with
                source := Function.update system.source thread content
                option := Function.update system.option thread (message.size % 2 ^ 32)
                count := Function.update system.count thread submitType.toUInt32
                sending := Function.update system.sending thread true
                request := Function.update system.request thread message }.enqueue thread

/-- `_CORE_message_queue_Seize`. -/
def System.seize (thread : T) (wait : Bool) : System T K B :=
  match system.pendingMessages with
  | node :: rest =>
      let taken := { system with
        pendingMessages := rest
        numberOfPendingMessages := system.numberOfPendingMessages - 1
        count := Function.update system.count thread (system.buffer node).priority.toUInt32 }
      let received := taken.log
        (.seized thread .successful (some (taken.receipt thread (system.buffer node))))
      match received.queue with
      | [] => { received with inactiveMessages := received.inactiveMessages ++ [node] }
      | sender :: others =>
          ({ received with queue := others }.insertMessage node
            ⟨(received.request sender).ticket, received.option sender, received.source sender,
              (received.count sender).toInt32⟩).log
            (.submitted (received.request sender) .successful)
  | [] =>
      if wait = false then system.log (.seized thread .unsatisfied none)
      else { system with sending := Function.update system.sending thread false }.enqueue thread

/-- `_CORE_message_queue_Flush`. The pending chain is spliced in front of the inactive
one. -/
def System.flush : System T K B :=
  if system.numberOfPendingMessages = 0 then system
  else
    { system with
      numberOfPendingMessages := 0
      inactiveMessages := system.pendingMessages ++ system.inactiveMessages
      pendingMessages := [] }.log (.flushed system.pending)

/-- One round of the loop of `_CORE_message_queue_Broadcast`, if there is a receiver. -/
def System.broadcastRound (content : List B) : Option (System T K B) :=
  match system.dequeueReceiver 0 with
  | none => none
  | some (receiver, served) => some (served.log (.served receiver (copyBuffer content content.length)))

/-- The loop of `_CORE_message_queue_Broadcast`, for a number of rounds at most. -/
def System.broadcastLoop (system : System T K B) (content : List B) : Nat → System T K B
  | 0 => system
  | rounds + 1 =>
      match system.broadcastRound content with
      | none => system
      | some next => next.broadcastLoop content rounds

/-- `_CORE_message_queue_Broadcast`. Each round takes one thread from the queue. -/
def System.broadcast (content : List B) : System T K B :=
  if content.length > system.maximumMessageSize then system
  else system.broadcastLoop content system.queue.length

/-- `_Thread_Continue` with `STATUS_TIMEOUT` for a waiting thread. -/
def System.timeout (system : System T K B) (thread : T) : System T K B :=
  { system with queue := system.queue.erase thread }.log
    (if system.sending thread then .submitted (system.request thread) .timeout
      else .seized thread .timeout none)

/-- One operation. -/
def System.step : Operation T B → Option (System T K B)
  | .submit thread interrupt content submitType wait =>
      some (system.submit thread interrupt content submitType wait)
  | .seize thread wait => some (system.seize thread wait)
  | .flush => some system.flush
  | .broadcast content => some (system.broadcast content)
  | .broadcastRound content => some ((system.broadcastRound content).getD system)
  | .timeout thread => some (system.timeout thread)

end

end Operations

/-- A waiting thread calls nothing, a flush finds no blocked sender, and only a waiting
thread times out. -/
def Permitted (system : System T K B) : Operation T B → Prop
  | .submit thread interrupt _ _ _ => interrupt = false → thread ∉ system.queue
  | .seize thread _ => thread ∉ system.queue
  | .flush => ∀ thread ∈ system.queue, system.sending thread = false
  | .broadcast _ => True
  | .broadcastRound _ => True
  | .timeout thread => thread ∈ system.queue

instance [DecidableEq T] (system : System T K B) (operation : Operation T B) :
    Decidable (Permitted system operation) :=
  match operation with
  | .submit .. => inferInstanceAs (Decidable (_ → _))
  | .seize thread _ => inferInstanceAs (Decidable (thread ∉ system.queue))
  | .flush => inferInstanceAs (Decidable (∀ thread ∈ system.queue, _))
  | .broadcast _ | .broadcastRound _ => .isTrue trivial
  | .timeout thread => inferInstanceAs (Decidable (thread ∈ system.queue))

/-- The caller of the submit operation has to wait. -/
def Blocks (system : System T K B) (interrupt : Bool) (content : List B) (wait : Bool) : Prop :=
  content.length ≤ system.maximumMessageSize ∧
    (system.numberOfPendingMessages ≠ 0 ∨ system.queue = []) ∧ system.inactiveMessages = [] ∧
    wait = true ∧ interrupt = false

/-- A sender that has to wait has a message whose size fits into the wait option. -/
def Fits (system : System T K B) : Operation T B → Prop
  | .submit _ interrupt content _ wait =>
      Blocks system interrupt content wait → content.length < 2 ^ 32
  | _ => True

instance [DecidableEq T] [DecidableEq K] (system : System T K B) (operation : Operation T B) :
    Decidable (Fits system operation) :=
  match operation with
  | .submit .. => inferInstanceAs (Decidable (_ ∧ _ → _))
  | .seize .. | .flush | .broadcast _ | .broadcastRound _ | .timeout _ => .isTrue trivial

/-- `_CORE_message_queue_Initialize` with a positive number of message buffers. -/
structure Initial (buffers : List K) (system : System T K B) : Prop where
  positive : buffers ≠ []
  distinct : buffers.Nodup
  number : system.numberOfPendingMessages = 0
  pending : system.pendingMessages = []
  inactive : system.inactiveMessages = buffers
  queue : system.queue = []
  calls : system.calls = 0
  history : system.history = []

/-- The messages of the submit operations that returned with success, the oldest first. -/
def accepted (history : List (Event T B)) : List (Message B) :=
  history.flatMap fun
    | .submitted message .successful => [message]
    | _ => []

/-- The messages that seize operations returned. -/
def delivered (history : List (Event T B)) : List (Message B) :=
  history.flatMap fun
    | .seized _ .successful (some message) => [message]
    | _ => []

/-- The messages that flushes discarded. -/
def discarded (history : List (Event T B)) : List (Message B) :=
  history.flatMap fun
    | .flushed messages => messages
    | _ => []

/-- Where a message goes among the pending ones. -/
def place (message : Message B) (pending : List (Message B)) : List (Message B) :=
  if message.priority = sendRequest then pending ++ [message]
  else if message.priority ≠ urgentRequest then
    insertOrdered (fun other => message.priority < other.priority) message pending
  else message :: pending

/-- Pending messages are sorted by priority. Those of one priority are in the order in
which they were accepted, the urgent ones in the reverse order. -/
structure Ordered (accepted pending : List (Message B)) : Prop where
  sorted : pending.Pairwise fun one other => one.priority ≤ other.priority
  order : ∀ priority, (pending.filter (·.priority = priority)).Sublist
    (if priority = urgentRequest then accepted.reverse else accepted)

theorem priority_le_send (prio : Int32) : prio ≤ sendRequest :=
  Int32.le_iff_toInt_le.mpr prio.toInt_le

theorem urgent_le_priority (prio : Int32) : urgentRequest ≤ prio :=
  Int32.le_iff_toInt_le.mpr prio.minValue_le_toInt

/-- A new message is behind all messages of its priority, or before all if it is
urgent. -/
theorem place_split (msg : Message B) (pending : List (Message B))
    (sorted : pending.Pairwise fun one other => one.priority ≤ other.priority) :
    ∃ front back, pending = front ++ back ∧ place msg pending = front ++ msg :: back ∧
      (∀ other ∈ front, other.priority ≤ msg.priority) ∧
      (∀ other ∈ back, msg.priority ≤ other.priority) ∧
      (if msg.priority = urgentRequest then front = []
        else ∀ other ∈ back, other.priority ≠ msg.priority) := by
  unfold place
  by_cases last : msg.priority = sendRequest
  · refine ⟨pending, [], by simp, by simp [last], ?_, by simp, ?_⟩
    · intro other _
      rw [last]
      exact priority_le_send other.priority
    · rw [if_neg (by rw [last]; decide)]
      simp
  by_cases urgent : msg.priority = urgentRequest
  · refine ⟨[], pending, rfl, ?_, by simp, ?_, by simp [urgent]⟩
    · rw [if_neg last, if_neg (not_not_intro urgent)]
      rfl
    · intro other _
      rw [urgent]
      exact urgent_le_priority other.priority
  obtain ⟨front, back, split, inserted, passed, stop⟩ := insertOrdered_split
    (fun other : Message B => msg.priority < other.priority) msg pending
  have later : ∀ other ∈ back, msg.priority < other.priority := by
    cases back with
    | nil => simp
    | cons next rest =>
      have first : msg.priority < next.priority := by simpa using stop next (by simp)
      rw [split] at sorted
      obtain ⟨ahead, -⟩ := List.pairwise_cons.mp (pairwise_append.mp sorted).2.1
      intro other inside
      rcases mem_cons.mp inside with rfl | inside
      · exact first
      · exact Int32.lt_of_lt_of_le first (ahead other inside)
  refine ⟨front, back, split, by simp [last, urgent, inserted], ?_, ?_, ?_⟩
  · intro other inside
    simpa [Int32.not_lt] using passed other inside
  · exact fun other inside => Int32.le_of_lt (later other inside)
  · rw [if_neg urgent]
    intro other inside same
    have ahead := later other inside
    rw [same] at ahead
    exact Int32.lt_irrefl ahead

section

variable {accepted pending : List (Message B)} (ordered : Ordered accepted pending)
  (msg : Message B)
include ordered

/-- A new message is accepted and pending. -/
theorem Ordered.place : Ordered (accepted ++ [msg]) (place msg pending) ∧
      (MessageQueue.place msg pending).Perm (msg :: pending) := by
  obtain ⟨front, back, split, placed, before, behind, ties⟩ :=
    place_split msg pending ordered.sorted
  rw [placed]
  subst split
  obtain ⟨sorted, order⟩ := ordered
  obtain ⟨first, second, across⟩ := pairwise_append.mp sorted
  refine ⟨⟨?_, ?_⟩, perm_middle⟩
  · refine pairwise_append.mpr ⟨first, List.pairwise_cons.mpr ⟨behind, second⟩, ?_⟩
    intro one inside other later
    rcases mem_cons.mp later with rfl | later
    · exact before one inside
    · exact across one inside other later
  · intro prio
    have kept := order prio
    rw [filter_append] at kept
    rw [filter_append, List.reverse_append]
    by_cases same : msg.priority = prio
    · subst same
      rw [List.filter_cons_of_pos (by simp)]
      by_cases urgent : msg.priority = urgentRequest
      · rw [if_pos urgent] at ties kept ⊢
        subst ties
        exact List.Sublist.cons_cons msg kept
      · rw [if_neg urgent] at ties kept ⊢
        have none : back.filter (fun other => decide (other.priority = msg.priority)) = [] := by
          apply List.filter_eq_nil_iff.mpr
          intro other inside
          simpa using ties other inside
        rw [none, append_nil] at kept
        rw [none]
        exact kept.append (List.Sublist.refl [msg])
    · rw [List.filter_cons_of_neg (by simpa using same)]
      by_cases urgent : prio = urgentRequest
      · rw [if_pos urgent] at kept ⊢
        exact kept.cons msg
      · rw [if_neg urgent] at kept ⊢
        exact kept.trans (List.sublist_append_left accepted [msg])

/-- A message is accepted and not pending. -/
theorem Ordered.accept : Ordered (accepted ++ [msg]) pending := by
  refine ⟨ordered.sorted, ?_⟩
  intro prio
  refine (ordered.order prio).trans ?_
  split
  · rw [List.reverse_append]
    exact List.sublist_cons_self msg accepted.reverse
  · exact List.sublist_append_left accepted [msg]

end

/-- A message is taken from the pending ones. -/
theorem Ordered.sublist {accepted pending left : List (Message B)}
    (ordered : Ordered accepted pending) (fewer : left.Sublist pending) : Ordered accepted left :=
  ⟨ordered.sorted.sublist fewer, fun prio => (fewer.filter _).trans (ordered.order prio)⟩

/-- The tickets of the messages that blocked senders want to submit, in the order of the
queue. -/
def System.waitingTickets (system : System T K B) : List Nat :=
  (system.queue.filter system.sending).map fun thread => (system.request thread).ticket

/-- The tickets of the accepted messages and of those that blocked senders have. -/
def System.tickets (system : System T K B) : List Nat :=
  (accepted system.history).map (·.ticket) ++ system.waitingTickets

/-- Tickets differ, and they increase if the threads wait in FIFO order. -/
structure Numbered (discipline : Discipline) (calls : Nat) (tickets : List Nat) : Prop where
  distinct : tickets.Nodup
  issued : ∀ ticket ∈ tickets, ticket < calls
  increasing : discipline = .fifo → tickets.Pairwise (· < ·)

variable {discipline : Discipline} {calls : Nat}

theorem Numbered.call {tickets : List Nat} (numbered : Numbered discipline calls tickets) :
    Numbered discipline (calls + 1) tickets :=
  ⟨numbered.distinct, fun ticket inside => Nat.lt_succ_of_lt (numbered.issued ticket inside),
    numbered.increasing⟩

theorem Numbered.sublist {tickets left : List Nat} (numbered : Numbered discipline calls tickets)
    (fewer : left.Sublist tickets) :
    Numbered discipline calls left :=
  ⟨numbered.distinct.sublist fewer, fun ticket inside => numbered.issued ticket (fewer.subset inside),
    fun fifo => (numbered.increasing fifo).sublist fewer⟩

/-- A new ticket, which is the last one in FIFO order. -/
theorem Numbered.insert {front back : List Nat}
    (numbered : Numbered discipline calls (front ++ back)) (last : discipline = .fifo → back = []) :
    Numbered discipline (calls + 1) (front ++ calls :: back) := by
  obtain ⟨distinct, issued, increasing⟩ := numbered
  refine ⟨?_, ?_, ?_⟩
  · refine perm_middle.nodup_iff.mpr (nodup_cons.mpr ⟨?_, distinct⟩)
    exact fun inside => Nat.lt_irrefl calls (issued calls inside)
  · intro ticket inside
    rcases mem_cons.mp (perm_middle.mem_iff.mp inside) with rfl | inside
    · exact Nat.lt_succ_self ticket
    · exact Nat.lt_succ_of_lt (issued ticket inside)
  · intro fifo
    obtain rfl := last fifo
    rw [append_nil] at issued increasing
    refine pairwise_append.mpr ⟨increasing fifo, List.pairwise_singleton _ _, ?_⟩
    intro one inside other new
    rw [List.mem_singleton.mp new]
    exact issued one inside

/-- The wait data of a blocked sender tell what it wants to send. -/
structure Requested (system : System T K B) (thread : T) : Prop where
  size : system.option thread = (system.request thread).size
  content : system.source thread = (system.request thread).content
  priority : (system.count thread).toInt32 = (system.request thread).priority
  whole : (system.request thread).content.length = (system.request thread).size

/-- Only the wait data of the thread matter. -/
theorem Requested.congr {before after : System T K B} {thread : T}
    (requested : Requested before thread) (option : after.option thread = before.option thread)
    (source : after.source thread = before.source thread)
    (count : after.count thread = before.count thread)
    (request : after.request thread = before.request thread) : Requested after thread := by
  obtain ⟨size, content, prio, whole⟩ := requested
  exact ⟨by rw [option, request, size], by rw [source, request, content],
    by rw [count, request, prio], by rw [request, whole]⟩

/-- The pending messages are counted, ordered and whole, and with those that were
delivered or discarded they are the accepted ones. -/
structure Stock (system : System T K B) : Prop where
  counted : system.numberOfPendingMessages = system.pendingMessages.length
  ordered : Ordered (accepted system.history) system.pending
  whole : ∀ message ∈ system.pending, message.content.length = message.size
  account : (accepted system.history).Perm
    (delivered system.history ++ discarded system.history ++ system.pending)

/-- The invariant of a run. -/
structure Sound (buffers : List K) (system : System T K B) : Prop where
  positive : buffers ≠ []
  distinct : buffers.Nodup
  stock : Stock system
  buffers : (system.pendingMessages ++ system.inactiveMessages).Perm buffers
  receivers : ∀ thread ∈ system.queue, system.sending thread = false →
    system.pendingMessages = []
  senders : ∀ thread ∈ system.queue, system.sending thread = true → system.inactiveMessages = []
  requests : ∀ thread ∈ system.queue, system.sending thread = true → Requested system thread
  once : system.queue.Nodup
  numbered : Numbered system.discipline system.calls system.tickets

variable {sys : System T K B}

theorem Initial.sound {buffers : List K} (initial : Initial buffers sys) : Sound buffers sys := by
  obtain ⟨pos, distinct, number, pending, inactive, queue, calls, history⟩ := initial
  refine ⟨pos, distinct, ⟨by simp [number, pending], ⟨?_, ?_⟩, ?_, ?_⟩,
    by simp [pending, inactive], ?_, ?_, ?_, ?_, ⟨?_, ?_, ?_⟩⟩
  all_goals simp [System.pending, System.tickets, System.waitingTickets, accepted, delivered,
    discarded, pending, queue, history]

section Stock

/-- Events that tell of no message. -/
theorem Stock.log (stock : Stock sys) (event : Event T B) (accepts : accepted [event] = [])
    (delivers : delivered [event] = []) (discards : discarded [event] = []) :
    Stock (sys.log event) := by
  have same : accepted (sys.log event).history = accepted sys.history ∧
      delivered (sys.log event).history = delivered sys.history ∧
      discarded (sys.log event).history = discarded sys.history := by
    refine ⟨?_, ?_, ?_⟩
    · exact (flatMap_append).trans (by rw [← accepted, ← accepted, accepts, append_nil])
    · exact (flatMap_append).trans (by rw [← delivered, ← delivered, delivers, append_nil])
    · exact (flatMap_append).trans (by rw [← discarded, ← discarded, discards, append_nil])
  obtain ⟨first, second, third⟩ := same
  refine ⟨stock.counted, ?_, stock.whole, ?_⟩
  · rw [first]
    exact stock.ordered
  · rw [first, second, third]
    exact stock.account

section Insert

variable [DecidableEq K]

/-- The nodes after an insertion. -/
theorem insertMessage_nodes (sys : System T K B) (node : K) (msg : Message B) :
    (sys.insertMessage node msg).pendingMessages.Perm (node :: sys.pendingMessages) := by
  unfold System.insertMessage
  simp only
  split
  · exact List.perm_append_singleton node sys.pendingMessages
  · split
    · obtain ⟨front, back, split, inserted, -, -⟩ := insertOrdered_split
        (fun other => decide (msg.priority < (update sys.buffer node
          { msg with content := copyBuffer msg.content msg.size } other).priority))
        node sys.pendingMessages
      rw [inserted, split]
      exact perm_middle
    · exact .refl _

/-- The messages after an insertion. -/
theorem insertMessage_pending (sys : System T K B) (node : K) (msg : Message B)
    (outside : node ∉ sys.pendingMessages) (whole : msg.content.length = msg.size) :
    (sys.insertMessage node msg).pending = place msg sys.pending := by
  have copied : { msg with content := copyBuffer msg.content msg.size } = msg := by
    rw [copyBuffer, ← whole, List.take_length]
    simp [whole]
  have others : sys.pendingMessages.map (update sys.buffer node msg) =
      sys.pending := by
    apply List.map_congr_left
    intro other inside
    rw [update_of_ne]
    rintro rfl
    exact outside inside
  unfold System.pending System.insertMessage place
  simp only [copied]
  split
  · rw [map_append, others]
    simp [System.pending]
  · split
    · rw [insertOrdered_map (update sys.buffer node msg)
        (fun other => decide (msg.priority < other.priority)), others, update_self]
      rfl
    · rw [map_cons, others, update_self]
      rfl

/-- A message is accepted and stored in a buffer. -/
theorem Stock.insert (stock : Stock sys) (node : K) (msg : Message B)
    (outside : node ∉ sys.pendingMessages) (whole : msg.content.length = msg.size) :
    Stock ((sys.insertMessage node msg).log (.submitted msg .successful)) := by
  have pending := insertMessage_pending sys node msg outside whole
  have history : accepted ((sys.insertMessage node msg).log
      (.submitted msg .successful)).history = accepted sys.history ++ [msg] :=
    flatMap_append
  have delivers : delivered ((sys.insertMessage node msg).log
      (.submitted msg .successful)).history = delivered sys.history := by
    simp [System.log, System.insertMessage, delivered]
  have discards : discarded ((sys.insertMessage node msg).log
      (.submitted msg .successful)).history = discarded sys.history := by
    simp [System.log, System.insertMessage, discarded]
  obtain ⟨ordered, stored⟩ := stock.ordered.place msg
  refine ⟨?_, ?_, ?_, ?_⟩
  · show sys.numberOfPendingMessages + 1 = _
    rw [stock.counted]
    exact (insertMessage_nodes sys node msg).length_eq.symm
  · rw [history]
    exact pending ▸ ordered
  · intro tested inside
    have inside : tested ∈ place msg sys.pending := pending ▸ inside
    rcases mem_cons.mp (stored.mem_iff.mp inside) with rfl | inside
    · exact whole
    · exact stock.whole tested inside
  · rw [history, delivers, discards]
    show (accepted sys.history ++ [msg]).Perm (delivered sys.history ++
      discarded sys.history ++ (sys.insertMessage node msg).pending)
    rw [pending]
    calc List.Perm (accepted sys.history ++ [msg]) (msg :: accepted sys.history) :=
          List.perm_append_singleton msg _
      List.Perm _ (msg :: (delivered sys.history ++ discarded sys.history ++
          sys.pending)) := stock.account.cons msg
      List.Perm _ (delivered sys.history ++ discarded sys.history ++
          msg :: sys.pending) := perm_middle.symm
      List.Perm _ _ := stored.symm.append_left _

end Insert

/-- A receiver gets a whole message as it is. -/
theorem receipt_eq (sys : System T K B) (thread : T) (msg : Message B)
    (whole : msg.content.length = msg.size)
    (count : sys.count thread = msg.priority.toUInt32) :
    sys.receipt thread msg = msg := by
  unfold System.receipt copyBuffer
  rw [count, Int32.toInt32_toUInt32, ← whole, List.take_length]
  simp [whole]

/-- The first pending message is delivered. -/
theorem Stock.deliver [DecidableEq T] (stock : Stock sys) (thread : T) (node : K) (rest : List K)
    (first : sys.pendingMessages = node :: rest) :
    Stock ({ sys with
      pendingMessages := rest
      numberOfPendingMessages := sys.numberOfPendingMessages - 1
      count := update sys.count thread (sys.buffer node).priority.toUInt32 }.log
        (.seized thread .successful (some (sys.buffer node)))) := by
  have pending : sys.pending = sys.buffer node :: rest.map sys.buffer := by
    rw [System.pending, first, map_cons]
  obtain ⟨counted, ordered, whole, account⟩ := stock
  rw [pending] at ordered whole account
  refine ⟨?_, ?_, ?_, ?_⟩
  · rw [counted, first]
    rfl
  · have kept := ordered.sublist (List.sublist_cons_self _ _)
    simpa [System.log, System.pending, accepted] using kept
  · exact fun msg inside => whole msg (mem_cons_of_mem _ inside)
  · have moved : (accepted sys.history).Perm (delivered sys.history ++
        [sys.buffer node] ++ discarded sys.history ++ rest.map sys.buffer) := by
      refine account.trans ?_
      rw [append_assoc, append_assoc, append_assoc]
      exact perm_middle.append_left _
    simpa [System.log, System.pending, accepted, delivered, discarded] using moved

/-- A message is accepted and delivered at once. -/
theorem Stock.hand (stock : Stock sys) (thread : T) (msg : Message B) :
    Stock ((sys.log (.seized thread .successful (some msg))).log (.submitted msg .successful)) := by
  obtain ⟨counted, ordered, whole, account⟩ := stock
  refine ⟨counted, ?_, whole, ?_⟩
  · simpa [System.log, System.pending, accepted] using ordered.accept msg
  · have more : (accepted sys.history ++ [msg]).Perm (delivered sys.history ++
        [msg] ++ discarded sys.history ++ sys.pending) := by
      refine (List.perm_append_singleton msg _).trans ((account.cons msg).trans ?_)
      rw [append_assoc, append_assoc, append_assoc]
      exact perm_middle.symm
    simpa [System.log, System.pending, accepted, delivered, discarded] using more

end Stock

namespace Sound

variable {buffers : List K} {sys : System T K B}

/-- Only senders wait while a message is pending. -/
theorem all_sending (sound : Sound buffers sys) (pending : sys.pendingMessages ≠ []) :
    ∀ thread ∈ sys.queue, sys.sending thread = true := by
  intro thread inside
  by_contra receiving
  exact pending (sound.receivers thread inside (Bool.not_eq_true _ ▸ receiving))

/-- Only receivers wait while a buffer is inactive. -/
theorem all_receiving (sound : Sound buffers sys) (inactive : sys.inactiveMessages ≠ []) :
    ∀ thread ∈ sys.queue, sys.sending thread = false := by
  intro thread inside
  by_contra sending
  exact inactive (sound.senders thread inside (Bool.not_eq_false _ ▸ sending))

/-- There is always a pending message or an inactive buffer. -/
theorem some_buffer (sound : Sound buffers sys) (pending : sys.pendingMessages = []) :
    sys.inactiveMessages ≠ [] := by
  intro inactive
  have none := sound.buffers
  rw [pending, inactive] at none
  exact sound.positive (List.nil_perm.mp none)

theorem no_waiting_tickets (receiving : ∀ thread ∈ sys.queue, sys.sending thread = false) :
    sys.waitingTickets = [] := by
  unfold System.waitingTickets
  rw [List.filter_eq_nil_iff.mpr, List.map_nil]
  intro thread inside
  simp [receiving thread inside]

/-- Events that tell of no message. -/
theorem log (sound : Sound buffers sys) (event : Event T B) (accepts : accepted [event] = [])
    (delivers : delivered [event] = []) (discards : discarded [event] = []) :
    Sound buffers (sys.log event) := by
  have same : (sys.log event).tickets = sys.tickets := by
    unfold System.tickets
    have history : accepted (sys.log event).history = accepted sys.history :=
      (flatMap_append).trans (by rw [← accepted, ← accepted, accepts, append_nil])
    rw [history]
    rfl
  exact ⟨sound.positive, sound.distinct, sound.stock.log event accepts delivers discards,
    sound.buffers, sound.receivers, sound.senders,
    fun thread inside sending => (sound.requests thread inside sending).congr rfl rfl rfl rfl,
    sound.once, same ▸ sound.numbered⟩

/-- A submit operation takes a ticket. -/
theorem call (sound : Sound buffers sys) : Sound buffers { sys with calls := sys.calls + 1 } := by
  obtain ⟨pos, distinct, ⟨counted, ordered, whole, account⟩, kept, receivers, senders,
    requests, once, numbered⟩ := sound
  exact ⟨pos, distinct, ⟨counted, ordered, whole, account⟩, kept, receivers, senders,
    fun thread inside sending => (requests thread inside sending).congr rfl rfl rfl rfl, once,
    numbered.call⟩

/-- A submit operation that fails at once. -/
theorem refuse (sound : Sound buffers sys) (msg : Message B) (status : Status)
    (failed : status ≠ .successful) :
    Sound buffers ({ sys with calls := sys.calls + 1 }.log (.submitted msg status)) := by
  refine sound.call.log _ ?_ rfl rfl
  cases status <;> first | rfl | exact absurd rfl failed

section Submit

variable [DecidableEq T] [DecidableEq K]

omit [DecidableEq K] in
/-- A thread that the queue hands out while no message is pending is a receiver, and no
sender waits. -/
theorem dequeue (sound : Sound buffers sys) (submitType : Int32) (receiver : T)
    (served : System T K B)
    (found : sys.dequeueReceiver submitType = some (receiver, served)) :
    (∀ thread ∈ sys.queue, sys.sending thread = false) ∧ sys.queue = receiver :: served.queue ∧
      served = { sys with
        queue := served.queue
        count := update sys.count receiver submitType.toUInt32 } ∧
      Sound buffers served := by
  unfold System.dequeueReceiver at found
  split at found
  · cases found
  rename_i zero
  rw [not_not] at zero
  split at found
  · cases found
  rename_i first rest queue
  obtain ⟨rfl, rfl⟩ := Prod.mk.inj (Option.some.inj found)
  have none : sys.pendingMessages = [] := by
    apply List.eq_nil_of_length_eq_zero
    rw [← sound.stock.counted, zero]
  have receiving := sound.all_receiving (sound.some_buffer none)
  have later : ∀ thread ∈ rest, sys.sending thread = false :=
    fun thread inside => receiving thread (queue ▸ mem_cons_of_mem first inside)
  refine ⟨receiving, queue, rfl, sound.positive, sound.distinct, { sound.stock with },
    sound.buffers, fun _ _ _ => none, ?_, ?_, ?_, ?_⟩
  iterate 2
    · intro thread inside sending
      exact absurd sending (by simp [later thread inside])
  · exact (nodup_cons.mp (queue ▸ sound.once)).2
  · refine sound.numbered.sublist (List.Sublist.append_left ?_ _)
    unfold System.waitingTickets
    rw [queue]
    exact ((List.sublist_cons_self first rest).filter _).map _

omit [DecidableEq K] in
/-- A message goes to a waiting receiver. -/
theorem hand (sound : Sound buffers sys) (msg : Message B) (receiver : T)
    (served : System T K B) (ticket : msg.ticket = sys.calls)
    (whole : msg.content.length = msg.size)
    (found : { sys with calls := sys.calls + 1 }.dequeueReceiver msg.priority =
      some (receiver, served)) :
    Sound buffers ((served.log
      (.seized receiver .successful (some (served.receipt receiver msg)))).log
      (.submitted msg .successful)) := by
  obtain ⟨receiving, queue, rest, kept⟩ := sound.call.dequeue msg.priority receiver served found
  have receiving : ∀ thread ∈ sys.queue, sys.sending thread = false := receiving
  have queue : sys.queue = receiver :: served.queue := queue
  have received : served.receipt receiver msg = msg := by
    refine receipt_eq served receiver msg whole ?_
    rw [rest]
    simp
  have stock := kept.stock.hand receiver msg
  have waiting : served.waitingTickets = [] := by
    apply no_waiting_tickets
    intro thread inside
    have sending : served.sending = sys.sending := by rw [rest]
    rw [sending]
    exact receiving thread (queue ▸ mem_cons_of_mem receiver inside)
  rw [received]
  refine ⟨kept.positive, kept.distinct, stock, kept.buffers, kept.receivers, kept.senders,
    fun thread inside sending => (kept.requests thread inside sending).congr rfl rfl rfl rfl,
    kept.once, ?_⟩
  have numbered := sound.numbered
  rw [System.tickets, no_waiting_tickets receiving] at numbered
  have history : served.history = sys.history := by rw [rest]
  have calls : served.calls = sys.calls + 1 := by rw [rest]
  have discipline : served.discipline = sys.discipline := by rw [rest]
  have tickets : ((served.log (.seized receiver .successful (some msg))).log
      (.submitted msg .successful)).tickets =
      (accepted sys.history).map (·.ticket) ++ [sys.calls] := by
    show (accepted (served.history ++ _ ++ _)).map (·.ticket) ++ served.waitingTickets = _
    rw [waiting, history]
    simp [accepted, ticket]
  rw [tickets]
  show Numbered served.discipline served.calls _
  rw [calls, discipline]
  exact numbered.insert fun _ => rfl

/-- A message goes into an inactive buffer. -/
theorem store (sound : Sound buffers sys) (msg : Message B) (node : K) (rest : List K)
    (ticket : msg.ticket = sys.calls) (whole : msg.content.length = msg.size)
    (inactive : sys.inactiveMessages = node :: rest)
    (missed : { sys with calls := sys.calls + 1 }.dequeueReceiver msg.priority = none) :
    Sound buffers (({ sys with
      calls := sys.calls + 1
      inactiveMessages := rest }.insertMessage node msg).log (.submitted msg .successful)) := by
  have empty : sys.queue = [] := by
    by_contra filled
    obtain ⟨thread, others, queue⟩ := List.exists_cons_of_ne_nil filled
    have receiving := sound.all_receiving (by simp [inactive]) thread (by simp [queue])
    have none := sound.receivers thread (by simp [queue]) receiving
    have zero : sys.numberOfPendingMessages = 0 := by rw [sound.stock.counted, none]; rfl
    simp [System.dequeueReceiver, zero, queue] at missed
  have distinct : (sys.pendingMessages ++ node :: rest).Nodup :=
    inactive ▸ sound.buffers.nodup_iff.mpr sound.distinct
  have outside : node ∉ sys.pendingMessages := by
    intro inside
    exact (List.nodup_append.mp distinct).2.2 node inside node List.mem_cons_self rfl
  have stock : Stock { sys with calls := sys.calls + 1, inactiveMessages := rest } :=
    { sound.stock with }
  refine ⟨sound.positive, sound.distinct, stock.insert node msg outside whole, ?_, ?_, ?_, ?_,
    sound.once, ?_⟩
  · have nodes := insertMessage_nodes { sys with calls := sys.calls + 1, inactiveMessages := rest }
      node msg
    refine (nodes.append_right rest).trans ?_
    have kept := sound.buffers
    rw [inactive] at kept
    exact perm_middle.symm.trans kept
  iterate 3
    · simp [System.log, System.insertMessage, empty]
  · have numbered := sound.numbered
    have waiting : sys.waitingTickets = [] := by simp [System.waitingTickets, empty]
    rw [System.tickets, waiting] at numbered
    have tickets : (({ sys with
        calls := sys.calls + 1
        inactiveMessages := rest }.insertMessage node msg).log
          (.submitted msg .successful)).tickets =
        (accepted sys.history).map (·.ticket) ++ [sys.calls] := by
      show (accepted (sys.history ++ _)).map (·.ticket) ++ sys.waitingTickets = _
      rw [waiting]
      simp [accepted, ticket]
    rw [tickets]
    exact numbered.insert fun _ => rfl

omit [DecidableEq T] [DecidableEq K] in
/-- Where a thread goes in the queue. -/
theorem enqueue_split (sys : System T K B) (thread : T) : ∃ front back, sys.queue = front ++ back ∧
      (sys.enqueue thread).queue = front ++ thread :: back ∧
      (sys.discipline = .fifo → back = []) := by
  unfold System.enqueue
  cases discipline : sys.discipline with
  | fifo => exact ⟨sys.queue, [], by simp, by simp, by simp⟩
  | priority =>
    obtain ⟨front, back, split, inserted, -, -⟩ := insertOrdered_split
      (fun other => decide (sys.priority thread < sys.priority other)) thread sys.queue
    exact ⟨front, back, split, inserted, by simp⟩

/-- The tickets of waiting threads do not depend on the data of another thread. -/
theorem tickets_update (sending : T → Bool) (request : T → Message B) (thread : T) (sends : Bool)
    (msg : Message B) (queue : List T) (outside : thread ∉ queue) :
    ((queue.filter (update sending thread sends)).map fun other =>
      (update request thread msg other).ticket) =
    (queue.filter sending).map fun other => (request other).ticket := by
  have others : ∀ other ∈ queue, other ≠ thread := by
    rintro other inside rfl
    exact outside inside
  have chosen : queue.filter (update sending thread sends) = queue.filter sending := by
    apply List.filter_congr
    intro other inside
    rw [update_of_ne (others other inside)]
  rw [chosen]
  apply List.map_congr_left
  intro other inside
  rw [update_of_ne (others other (List.mem_of_mem_filter inside))]

omit [DecidableEq K] in
/-- A sender has to wait. -/
theorem block (sound : Sound buffers sys) (thread : T) (msg : Message B)
    (ticket : msg.ticket = sys.calls) (whole : msg.content.length = msg.size)
    (fits : msg.size < 2 ^ 32) (inactive : sys.inactiveMessages = [])
    (outside : thread ∉ sys.queue) :
    Sound buffers ({ sys with
      calls := sys.calls + 1
      source := update sys.source thread msg.content
      option := update sys.option thread (msg.size % 2 ^ 32)
      count := update sys.count thread msg.priority.toUInt32
      sending := update sys.sending thread true
      request := update sys.request thread msg }.enqueue thread) := by
  obtain ⟨front, back, queue, enqueued, last⟩ := enqueue_split { sys with
      calls := sys.calls + 1
      source := update sys.source thread msg.content
      option := update sys.option thread (msg.size % 2 ^ 32)
      count := update sys.count thread msg.priority.toUInt32
      sending := update sys.sending thread true
      request := update sys.request thread msg } thread
  have queue : sys.queue = front ++ back := queue
  have member : ∀ tested ∈ front ++ thread :: back, tested = thread ∨
      tested ≠ thread ∧ tested ∈ sys.queue := by
    intro tested inside
    by_cases same : tested = thread
    · exact .inl same
    · rw [queue]
      exact .inr ⟨same, (mem_cons.mp (perm_middle.mem_iff.mp inside)).resolve_left same⟩
  refine ⟨sound.positive, sound.distinct, { sound.stock with },
    sound.buffers, ?_, fun _ _ _ => inactive, ?_, ?_, ?_⟩
  · intro tested inside receiving
    rw [enqueued] at inside
    rcases member tested inside with rfl | ⟨other, inside⟩
    · simp [System.enqueue] at receiving
    · exact sound.receivers tested inside (by simpa [System.enqueue, other] using receiving)
  · intro tested inside sending
    rw [enqueued] at inside
    rcases member tested inside with rfl | ⟨other, inside⟩
    · refine ⟨?_, ?_, ?_, ?_⟩
      · simpa [System.enqueue] using Nat.mod_eq_of_lt fits
      · simp [System.enqueue]
      · simp [System.enqueue]
      · simpa [System.enqueue] using whole
    · have requested := sound.requests tested inside
        (by simpa [System.enqueue, other] using sending)
      exact requested.congr (by simp [System.enqueue, other]) (by simp [System.enqueue, other])
        (by simp [System.enqueue, other]) (by simp [System.enqueue, other])
  · rw [enqueued]
    exact perm_middle.nodup_iff.mpr (nodup_cons.mpr ⟨queue ▸ outside, queue ▸ sound.once⟩)
  · rw [queue, List.mem_append, not_or] at outside
    have numbered := sound.numbered
    rw [System.tickets, System.waitingTickets, queue, filter_append, map_append,
      ← append_assoc] at numbered
    have ahead := numbered.insert (fun fifo => by rw [last fifo]; rfl)
    rw [System.tickets, System.waitingTickets, enqueued]
    show Numbered sys.discipline (sys.calls + 1) (_ ++
      ((front ++ thread :: back).filter (update sys.sending thread true)).map _)
    rw [filter_append, List.filter_cons_of_pos (by simp), map_append, map_cons]
    have first := tickets_update sys.sending sys.request thread true msg front outside.1
    have second := tickets_update sys.sending sys.request thread true msg back outside.2
    simp only [System.enqueue, first, second, update_self, ticket]
    rw [← append_assoc]
    exact ahead

theorem submit (sound : Sound buffers sys) (thread : T) (interrupt : Bool) (content : List B)
    (submitType : Int32) (wait : Bool)
    (permitted : Permitted sys (.submit thread interrupt content submitType wait))
    (fits : Fits sys (.submit thread interrupt content submitType wait)) :
    Sound buffers (sys.submit thread interrupt content submitType wait) := by
  unfold System.submit
  simp only
  split
  · exact sound.refuse _ _ (by simp)
  rename_i small
  split
  case h_1 receiver served found =>
    exact sound.hand ⟨sys.calls, content.length, content, submitType⟩ receiver served rfl rfl found
  case h_2 missed =>
    split
    case h_1 node rest inactive =>
      exact sound.store ⟨sys.calls, content.length, content, submitType⟩ node rest rfl rfl
        inactive missed
    case h_2 inactive =>
      split
      · exact sound.refuse _ _ (by simp)
      split
      · exact sound.refuse _ _ (by simp)
      rename_i waits free
      rw [Bool.not_eq_false] at waits
      rw [Bool.not_eq_true] at free
      have nobody : sys.numberOfPendingMessages ≠ 0 ∨ sys.queue = [] := by
        by_contra ready
        obtain ⟨zero, filled⟩ := not_or.mp ready
        obtain ⟨first, others, queue⟩ := List.exists_cons_of_ne_nil filled
        simp [System.dequeueReceiver, not_not.mp zero, queue] at missed
      exact sound.block thread ⟨sys.calls, content.length, content, submitType⟩ rfl rfl
        (fits ⟨Nat.not_lt.mp small, nobody, inactive, waits, free⟩) inactive (permitted free)

end Submit

section Seize

variable [DecidableEq T] [DecidableEq K]

omit [DecidableEq K] in
/-- The first pending message is delivered, and its node is in no chain. -/
theorem deliver (sound : Sound buffers sys) (thread : T) (node : K) (rest : List K)
    (first : sys.pendingMessages = node :: rest) :
    { sys with
      pendingMessages := rest
      numberOfPendingMessages := sys.numberOfPendingMessages - 1
      count := update sys.count thread (sys.buffer node).priority.toUInt32 }.receipt
        thread (sys.buffer node) = sys.buffer node ∧
      node ∉ rest ∧ (node :: (rest ++ sys.inactiveMessages)).Perm buffers := by
  have kept := sound.buffers
  rw [first] at kept
  have distinct : (node :: (rest ++ sys.inactiveMessages)).Nodup :=
    kept.nodup_iff.mpr sound.distinct
  refine ⟨?_, ?_, kept⟩
  · refine receipt_eq _ thread _ ?_ (by simp)
    exact sound.stock.whole _ (by simp [System.pending, first])
  · exact fun inside => (nodup_cons.mp distinct).1 (List.mem_append_left _ inside)

omit [DecidableEq K] in
/-- A receiver frees a buffer. -/
theorem release (sound : Sound buffers sys) (thread : T) (node : K) (rest : List K)
    (first : sys.pendingMessages = node :: rest) (empty : sys.queue = []) :
    Sound buffers ({ sys with
      pendingMessages := rest
      numberOfPendingMessages := sys.numberOfPendingMessages - 1
      count := update sys.count thread (sys.buffer node).priority.toUInt32
      inactiveMessages := sys.inactiveMessages ++ [node] }.log
        (.seized thread .successful (some (sys.buffer node)))) := by
  obtain ⟨-, -, kept⟩ := sound.deliver thread node rest first
  have stock := sound.stock.deliver thread node rest first
  refine ⟨sound.positive, sound.distinct, { stock with }, ?_, ?_, ?_, ?_, sound.once, ?_⟩
  · refine List.Perm.trans ?_ kept
    show (rest ++ (sys.inactiveMessages ++ [node])).Perm _
    rw [← append_assoc]
    exact List.perm_append_singleton node _
  iterate 3
    · simp [System.log, empty]
  · have tickets : accepted (sys.history ++
        [.seized thread .successful (some (sys.buffer node))]) = accepted sys.history := by
      simp [accepted]
    have numbered := sound.numbered
    unfold System.tickets at numbered ⊢
    show Numbered _ _ ((accepted (sys.history ++ _)).map _ ++ _)
    rw [tickets]
    exact numbered

/-- A receiver passes a buffer on to a blocked sender. -/
theorem handover (sound : Sound buffers sys) (thread : T) (node : K) (rest : List K)
    (sender : T) (others : List T) (first : sys.pendingMessages = node :: rest)
    (queue : sys.queue = sender :: others) (outside : thread ∉ sys.queue) :
    Sound buffers (({ { sys with
      pendingMessages := rest
      numberOfPendingMessages := sys.numberOfPendingMessages - 1
      count := update sys.count thread (sys.buffer node).priority.toUInt32 }.log
        (.seized thread .successful (some (sys.buffer node))) with
      queue := others }.insertMessage node (sys.request sender)).log
        (.submitted (sys.request sender) .successful)) := by
  obtain ⟨-, free, kept⟩ := sound.deliver thread node rest first
  have delivered := sound.stock.deliver thread node rest first
  have sending := sound.all_sending (by simp [first])
  have requested := sound.requests sender (by simp [queue]) (sending sender (by simp [queue]))
  have inactive := sound.senders sender (by simp [queue]) (sending sender (by simp [queue]))
  have taken : Stock { { sys with
      pendingMessages := rest
      numberOfPendingMessages := sys.numberOfPendingMessages - 1
      count := update sys.count thread (sys.buffer node).priority.toUInt32 }.log
        (.seized thread .successful (some (sys.buffer node))) with
      queue := others } :=
    { delivered with }
  have stock := taken.insert node (sys.request sender) free requested.whole
  have inside : ∀ tested ∈ others, tested ∈ sys.queue :=
    fun tested later => queue ▸ mem_cons_of_mem sender later
  refine ⟨sound.positive, sound.distinct, stock, ?_, ?_, fun _ _ _ => inactive, ?_,
    (nodup_cons.mp (queue ▸ sound.once)).2, ?_⟩
  · exact ((insertMessage_nodes _ node (sys.request sender)).append_right _).trans kept
  · intro tested later receiving
    have receiving : sys.sending tested = false := receiving
    rw [sending tested (inside tested later)] at receiving
    cases receiving
  · intro tested later sends
    have other : tested ≠ thread := by
      rintro rfl
      exact outside (inside tested later)
    refine (sound.requests tested (inside tested later) (sending tested (inside tested later))).congr
      rfl rfl ?_ rfl
    exact update_of_ne other _ _
  · have tickets : accepted (sys.history ++ [.seized thread .successful (some (sys.buffer node))] ++
        [.submitted (sys.request sender) .successful]) =
        accepted sys.history ++ [sys.request sender] := by
      simp [accepted]
    have numbered := sound.numbered
    unfold System.tickets System.waitingTickets at numbered ⊢
    rw [queue, List.filter_cons_of_pos (sending sender (by simp [queue])), map_cons] at numbered
    show Numbered _ _ ((accepted (sys.history ++ _ ++ _)).map _ ++ _)
    rw [tickets, map_append, append_assoc]
    exact numbered

omit [DecidableEq K] in
/-- A receiver has to wait. -/
theorem await (sound : Sound buffers sys) (thread : T) (none : sys.pendingMessages = [])
    (outside : thread ∉ sys.queue) :
    Sound buffers ({ sys with sending := update sys.sending thread false }.enqueue thread) := by
  obtain ⟨front, back, queue, enqueued, -⟩ := enqueue_split
    { sys with sending := update sys.sending thread false } thread
  have queue : sys.queue = front ++ back := queue
  have receiving := sound.all_receiving (sound.some_buffer none)
  have idle : ∀ tested ∈ front ++ thread :: back,
      update sys.sending thread false tested = false := by
    intro tested inside
    by_cases same : tested = thread
    · simp [same]
    · rw [update_of_ne same]
      apply receiving
      rw [queue]
      exact (mem_cons.mp (perm_middle.mem_iff.mp inside)).resolve_left same
  refine ⟨sound.positive, sound.distinct, { sound.stock with },
    sound.buffers, fun _ _ _ => none, ?_, ?_, ?_, ?_⟩
  iterate 2
    · intro tested inside sends
      rw [enqueued] at inside
      exact absurd sends (by simpa [System.enqueue] using idle tested inside)
  · rw [enqueued]
    exact perm_middle.nodup_iff.mpr (nodup_cons.mpr ⟨queue ▸ outside, queue ▸ sound.once⟩)
  · have waiting : ({ sys with
        sending := update sys.sending thread false }.enqueue thread).waitingTickets = [] := by
      apply no_waiting_tickets
      intro tested inside
      rw [enqueued] at inside
      exact idle tested inside
    have numbered := sound.numbered
    rw [System.tickets, no_waiting_tickets receiving] at numbered
    rw [System.tickets, waiting]
    exact numbered

theorem seize (sound : Sound buffers sys) (thread : T) (wait : Bool)
    (outside : thread ∉ sys.queue) : Sound buffers (sys.seize thread wait) := by
  unfold System.seize
  split
  case h_1 node rest first =>
    have receipt := (sound.deliver thread node rest first).1
    simp only [receipt]
    split
    case h_1 empty => exact sound.release thread node rest first empty
    case h_2 sender others queue =>
      have queue : sys.queue = sender :: others := queue
      have inside : sender ∈ sys.queue := by simp [queue]
      have sending := sound.all_sending (by simp [first]) sender inside
      have requested := sound.requests sender inside sending
      have other : sender ≠ thread := fun same => outside (same ▸ inside)
      have restored : Message.mk (sys.request sender).ticket (sys.option sender)
          (sys.source sender) (sys.count sender).toInt32 = sys.request sender := by
        rw [requested.size, requested.content, requested.priority]
      have handed := sound.handover thread node rest sender others first queue outside
      simp only [System.log, update_of_ne other, restored] at handed ⊢
      exact handed
  case h_2 none =>
    split
    · exact sound.log _ rfl rfl rfl
    · exact sound.await thread none outside

end Seize

/-- A flush that finds no blocked sender. -/
theorem flush (sound : Sound buffers sys)
    (receiving : ∀ thread ∈ sys.queue, sys.sending thread = false) :
    Sound buffers sys.flush := by
  unfold System.flush
  split
  · exact sound
  have history : accepted (sys.history ++ [.flushed sys.pending]) = accepted sys.history := by
    simp [accepted]
  refine ⟨sound.positive, sound.distinct, ⟨rfl, ⟨by simp [System.log, System.pending], ?_⟩, ?_, ?_⟩,
    sound.buffers, fun _ _ _ => rfl, ?_, ?_, sound.once, ?_⟩
  · simp [System.log, System.pending]
  · simp [System.log, System.pending]
  · have account := sound.stock.account
    simpa [System.log, System.pending, accepted, delivered, discarded] using account
  iterate 2
    · intro thread inside sends
      exact absurd (receiving thread inside) (by simpa [System.log] using sends)
  · have numbered := sound.numbered
    show Numbered _ _ ((accepted (sys.history ++ _)).map _ ++ _)
    rw [history]
    exact numbered

section Broadcast

variable [DecidableEq T]

/-- A round of a broadcast takes the first receiver from the queue. -/
theorem broadcastRound (sound : Sound buffers sys) (content : List B)
    (next : System T K B) (round : sys.broadcastRound content = some next) :
    Sound buffers next ∧ sys.queue.length = next.queue.length + 1 := by
  unfold System.broadcastRound at round
  split at round
  · cases round
  rename_i receiver served found
  cases round
  obtain ⟨-, queue, -, kept⟩ := sound.dequeue 0 receiver served found
  exact ⟨kept.log _ rfl rfl rfl, congrArg List.length queue⟩

theorem broadcastLoop (content : List B) (rounds : Nat) (sound : Sound buffers sys) :
    Sound buffers (sys.broadcastLoop content rounds) := by
  induction rounds generalizing sys with
  | zero => exact sound
  | succ rounds ih =>
    unfold System.broadcastLoop
    split
    case h_1 => exact sound
    case h_2 next round => exact ih (sound.broadcastRound content next round).1

/-- The loop of a broadcast ends when there is no receiver. -/
theorem broadcastLoop_done (content : List B) (rounds : Nat) (sound : Sound buffers sys)
    (enough : sys.queue.length ≤ rounds) :
    (sys.broadcastLoop content rounds).broadcastRound content = none := by
  induction rounds generalizing sys with
  | zero =>
    have empty : sys.queue = [] := List.eq_nil_of_length_eq_zero (Nat.le_zero.mp enough)
    simp [System.broadcastLoop, System.broadcastRound, System.dequeueReceiver, empty]
  | succ rounds ih =>
    unfold System.broadcastLoop
    split
    case h_1 done => exact done
    case h_2 next round =>
      obtain ⟨kept, shorter⟩ := sound.broadcastRound content next round
      exact ih kept (by omega)

theorem timeout (sound : Sound buffers sys) (thread : T) : Sound buffers (sys.timeout thread) := by
  have kept : Sound buffers { sys with queue := sys.queue.erase thread } := by
    have fewer : (sys.queue.erase thread).Sublist sys.queue := List.erase_sublist
    refine ⟨sound.positive, sound.distinct, { sound.stock with },
      sound.buffers, ?_, ?_, ?_, sound.once.sublist fewer, ?_⟩
    · exact fun tested inside => sound.receivers tested (fewer.subset inside)
    · exact fun tested inside => sound.senders tested (fewer.subset inside)
    · exact fun tested inside sends =>
        (sound.requests tested (fewer.subset inside) sends).congr rfl rfl rfl rfl
    · exact sound.numbered.sublist (List.Sublist.append_left ((fewer.filter _).map _) _)
  refine kept.log _ ?_ ?_ ?_ <;> split <;> rfl

end Broadcast

/-- One permitted operation in which no blocked sender has a message that does not fit. -/
theorem step [DecidableEq T] [DecidableEq K] (sound : Sound buffers sys)
    (op : Operation T B) (permitted : Permitted sys op)
    (fits : Fits sys op) (next : System T K B)
    (taken : sys.step op = some next) : Sound buffers next := by
  cases op with
  | submit thread interrupt content submitType wait =>
    cases taken
    exact sound.submit thread interrupt content submitType wait permitted fits
  | seize thread wait =>
    cases taken
    exact sound.seize thread wait permitted
  | flush =>
    cases taken
    exact sound.flush permitted
  | broadcast content =>
    cases taken
    unfold System.broadcast
    split
    · exact sound
    · exact sound.broadcastLoop content _
  | broadcastRound content =>
    cases taken
    cases round : sys.broadcastRound content with
    | none => exact sound
    | some served => exact (sound.broadcastRound content served round).1
  | timeout thread =>
    cases taken
    exact sound.timeout thread

end Sound

/-- In every run in which a sender has to wait only with a message of less than 2^32
bytes, the pending messages are counted, pending and inactive buffers are the buffers of
the queue, the pending messages are sorted by priority and those of one priority are in
the order of acceptance, the urgent ones in the reverse order. Receivers wait only if no
message is pending and senders only if all buffers are pending. The accepted messages,
which all have different tickets, are those that were delivered by a seize, discarded by
a flush or are pending, each once and with its content, size and priority. If the threads
wait in FIFO order, messages are accepted in the order of the calls. A broadcast ends
with no receiver left. -/
theorem runs_conserve_messages [DecidableEq T] [DecidableEq K] (buffers : List K)
    (past : List (System T K B)) (system : System T K B) (run : Trace (Initial buffers) (fun state
      operation => Permitted state operation ∧ Fits state operation) System.step past system) :
    system.numberOfPendingMessages = system.pendingMessages.length ∧
    (system.pendingMessages ++ system.inactiveMessages).Perm buffers ∧ buffers.Nodup ∧
    (system.pending.Pairwise fun one other => one.priority ≤ other.priority) ∧
    (∀ priority, (system.pending.filter (·.priority = priority)).Sublist
      (if priority = urgentRequest then (accepted system.history).reverse
        else accepted system.history)) ∧
    (∀ thread ∈ system.queue, system.sending thread = false → system.pendingMessages = []) ∧
    (∀ thread ∈ system.queue, system.sending thread = true → system.inactiveMessages = []) ∧
    (accepted system.history).Perm
      (delivered system.history ++ discarded system.history ++ system.pending) ∧
    ((accepted system.history).map (·.ticket)).Nodup ∧
    (system.discipline = .fifo → ((accepted system.history).map (·.ticket)).Pairwise (· < ·)) ∧
    ∀ content, content.length ≤ system.maximumMessageSize →
      (system.broadcast content).broadcastRound content = none := by
  have sound : Sound buffers system := by
    refine run.invariant (Sound buffers) (fun _ initial => initial.sound) ?_
    rintro state operation next sound ⟨permitted, fits⟩ taken
    exact sound.step operation permitted fits next taken
  have numbered : Numbered system.discipline system.calls
      ((accepted system.history).map (·.ticket)) :=
    sound.numbered.sublist (List.sublist_append_left _ _)
  refine ⟨sound.stock.counted, sound.buffers, sound.distinct, sound.stock.ordered.sorted,
    sound.stock.ordered.order, sound.receivers, sound.senders, sound.stock.account,
    numbered.distinct, numbered.increasing, ?_⟩
  intro content small
  unfold System.broadcast
  rw [if_neg (Nat.not_lt.mpr small)]
  exact sound.broadcastLoop_done content system.queue.length (Nat.le_refl _)

/-- An empty queue of three threads with the given buffers and maximum message size. -/
def start (buffers : List (Fin 2)) (maximum : Nat) : System (Fin 3) (Fin 2) Bool where
  discipline := .fifo
  maximumMessageSize := maximum
  numberOfPendingMessages := 0
  pendingMessages := []
  inactiveMessages := buffers
  buffer := fun _ => ⟨0, 0, [], 0⟩
  queue := []
  priority := fun _ => 0
  source := fun _ => []
  option := fun _ => 0
  count := fun _ => 0
  sending := fun _ => false
  request := fun _ => ⟨0, 0, [], 0⟩
  calls := 0
  history := []

theorem start_initial (buffers : List (Fin 2)) (maximum : Nat) (pos : buffers ≠ [])
    (distinct : buffers.Nodup) : Initial buffers (start buffers maximum) :=
  ⟨pos, distinct, rfl, rfl, rfl, rfl, rfl, rfl⟩

/-- A message, an urgent one and one of a blocked sender: the urgent one is received
first, and its buffer gets the third one, which goes before the first. -/
theorem runs_conserve_messages_blocked :
    ∃ (past : List (System (Fin 3) (Fin 2) Bool)) (system : System (Fin 3) (Fin 2) Bool),
      Trace (Initial [0, 1])
        (fun state operation => Permitted state operation ∧ Fits state operation)
        System.step past system ∧
      system.pending = [⟨2, 1, [true], 5⟩, ⟨0, 2, [true, false], sendRequest⟩] ∧
      delivered system.history = [⟨1, 0, [], urgentRequest⟩] ∧ (accepted system.history).Perm
        (delivered system.history ++ discarded system.history ++ system.pending) := by
  obtain ⟨past, system, run, seen⟩ := Trace.observe
    (fun state operation => Permitted state operation ∧ Fits state operation) System.step
    (start [0, 1] 16) (start_initial [0, 1] 16 (by decide) (by decide))
    [.submit 0 false [true, false] sendRequest false, .submit 0 false [] urgentRequest false,
      .submit 1 false [true] 5 true, .seize 2 false]
    (fun system => (system.pending, delivered system.history))
    ([⟨2, 1, [true], 5⟩, ⟨0, 2, [true, false], sendRequest⟩], [⟨1, 0, [], urgentRequest⟩])
    (by decide +kernel) (by decide +kernel)
  obtain ⟨pending, received⟩ := Prod.mk.inj seen
  obtain ⟨-, -, -, -, -, -, -, account, -⟩ := runs_conserve_messages [0, 1] past system run
  exact ⟨past, system, run, pending, received, account⟩

/-- A blocked sender whose message has a multiple of 2^32 bytes: the message is accepted
whole and delivered empty. -/
theorem blocked_sender_truncated (content : List Bool) (wraps : content.length % 2 ^ 32 = 0) :
    ∃ (past : List (System (Fin 3) (Fin 2) Bool)) (sys : System (Fin 3) (Fin 2) Bool),
      Trace (Initial [0]) Permitted System.step past sys ∧
      (accepted sys.history).map (·.size) = [0, content.length] ∧
      (delivered sys.history ++ discarded sys.history ++ sys.pending).map (·.size) = [0, 0] := by
  have begins := start_initial [0] content.length (by decide) (by decide)
  have first : Trace (Initial [0]) Permitted System.step [] (start [0] content.length) :=
    .start _ begins
  obtain ⟨past, run⟩ := first.feed
    [.submit 0 false [] sendRequest false, .submit 1 false content sendRequest true,
      .seize 0 false, .seize 0 false]
    ((((start [0] content.length).submit 0 false [] sendRequest false).submit 1 false content
      sendRequest true).seize 0 false |>.seize 0 false)
    (by
      simp [Allowed, System.step, Permitted, System.submit, System.seize, System.dequeueReceiver,
        System.insertMessage, System.enqueue, System.log, start])
    rfl
  refine ⟨past, _, run, ?_, ?_⟩
  · simp [System.submit, System.seize, System.dequeueReceiver, System.insertMessage,
      System.enqueue, System.log, start, accepted]
  · simpa [System.submit, System.seize, System.dequeueReceiver, System.insertMessage,
      System.enqueue, System.log, System.receipt, start, delivered, discarded,
      System.pending] using wraps

/-- The message of 2^32 bytes of a blocked sender is accepted and not delivered. -/
theorem blocked_sender_loses_size :
    ∃ (past : List (System (Fin 3) (Fin 2) Bool)) (system : System (Fin 3) (Fin 2) Bool),
      Trace (Initial [0]) Permitted System.step past system ∧
      (accepted system.history).map (·.size) = [0, 2 ^ 32] ∧ ¬(accepted system.history).Perm
        (delivered system.history ++ discarded system.history ++ system.pending) := by
  have large : (List.replicate (2 ^ 32) true).length = 2 ^ 32 := List.length_replicate
  obtain ⟨past, system, run, sent, received⟩ := blocked_sender_truncated
    (List.replicate (2 ^ 32) true) (by rw [large, Nat.mod_self])
  rw [large] at sent
  refine ⟨past, system, run, sent, ?_⟩
  intro account
  have sizes := account.map (·.size)
  rw [sent, received] at sizes
  have inside : 2 ^ 32 ∈ [0, 0] := sizes.mem_iff.mp (mem_cons_of_mem 0 List.mem_cons_self)
  simp at inside

end Rtems.MessageQueue
