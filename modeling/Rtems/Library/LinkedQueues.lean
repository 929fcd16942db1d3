import Mathlib.Data.List.Sort

/-!
# Singly linked queues that share their links

A node has one link, and a family of queues with a head, a tail and a count is threaded
through the links. The operations change the links as a program does. A node that is on no
queue may be put on any; the results say what list each queue holds afterwards. A walk that
would not end is cut off after a number of steps and has no result.
-/

namespace LinkedQueues

open Function (update update_of_ne update_self)
open List (getLast?_cons length_append length_cons mem_append mem_append_left mem_cons
  mem_cons_of_mem mem_cons_self mem_of_getLast? nodup_append nodup_cons nodup_middle)
open BitVec (ofNat ofNat_add)

universe u v w
variable {ι : Type u} {α : Type v} [DecidableEq ι] [DecidableEq α]

/-- The ends of a queue, and the number of its nodes as a machine word. -/
structure Queue (α : Type v) where
  head : Option α
  tail : Option α
  count : BitVec 32

/-- The queues and the links of the nodes. -/
structure Queues (ι : Type u) (α : Type v) where
  next : α → Option α
  queue : ι → Queue α

def empty : Queue α where
  head := none
  tail := none
  count := 0

/-- Put a node before the first one. -/
def pushHead (queues : Queues ι α) (name : ι) (node : α) : Queues ι α :=
  let queue := queues.queue name
  { next := update queues.next node queue.head
    queue := update queues.queue name
      { head := some node
        tail := if queue.tail = none then some node else queue.tail
        count := queue.count + 1 } }

/-- Take the first node off. -/
def popHead (queues : Queues ι α) (name : ι) : Option α × Queues ι α :=
  let queue := queues.queue name
  match queue.head with
  | none => (none, queues)
  | some node =>
    (some node,
      { next := update queues.next node none
        queue := update queues.queue name
          { head := queues.next node
            tail := if queues.next node = none then none else queue.tail
            count := queue.count - 1 } })

/-- Let a node, if there is one, point to another. -/
def link (next : α → Option α) (before : Option α) (after : Option α) : α → Option α :=
  match before with
  | none => next
  | some node => update next node after

/-- Put a node behind the last one. -/
def pushTail (queues : Queues ι α) (name : ι) (node : α) : Queues ι α :=
  let queue := queues.queue name
  let next := update queues.next node none
  if queue.head = none then
    { next := next
      queue := update queues.queue name
        { head := some node, tail := some node, count := queue.count + 1 } }
  else
    { next := link next queue.tail (some node)
      queue := update queues.queue name
        { head := queue.head, tail := some node, count := queue.count + 1 } }

/-- Take a node off that is reached from the head; `before` is the node before it. -/
def unlink (queues : Queues ι α) (name : ι) (node : α) (before : Option α) : Queues ι α :=
  let queue := queues.queue name
  let after := queues.next node
  { next := update (link queues.next before after) node none
    queue := update queues.queue name
      (match before with
      | none =>
        { head := after
          tail := if after = none then none else queue.tail
          count := queue.count - 1 }
      | some previous =>
        { head := queue.head
          tail := if queue.tail = some node then some previous else queue.tail
          count := queue.count - 1 }) }

/-- Look for a node from a place on, and take it off. -/
def removeFrom (queues : Queues ι α) (name : ι) (node : α) :
    Nat → Option α → Option α → Option (Queues ι α)
  | _, _, none => some queues
  | 0, _, some _ => none
  | fuel + 1, before, some place =>
    if node = place then some (unlink queues name node before)
    else removeFrom queues name node fuel (some place) (queues.next place)

def remove (queues : Queues ι α) (fuel : Nat) (name : ι) (node : α) : Option (Queues ι α) :=
  removeFrom queues name node fuel none (queues.queue name).head

/-- Put a node before an item of the queue that was reached; `before` is the node before the
item. -/
def splice (queues : Queues ι α) (name : ι) (item node : α) (before : Option α) : Queues ι α :=
  let queue := queues.queue name
  { next := link (update queues.next node (some item)) before (some node)
    queue := update queues.queue name
      { head := if before = none then some node else queue.head
        tail := queue.tail
        count := queue.count + 1 } }

/-- Look for an item from a place on, and put the node before it, or at the end. -/
def insertFrom (queues : Queues ι α) (name : ι) (item node : α) :
    Nat → Option α → Option α → Option (Queues ι α)
  | _, _, none => some (pushTail queues name node)
  | 0, _, some _ => none
  | fuel + 1, before, some place =>
    if item = place then some (splice queues name item node before)
    else insertFrom queues name item node fuel (some place) (queues.next place)

def insertBefore (queues : Queues ι α) (fuel : Nat) (name : ι) (item node : α) :
    Option (Queues ι α) :=
  insertFrom queues name item node fuel none (queues.queue name).head

/-- The first node from a place on that a test accepts. -/
def find (next : α → Option α) (test : α → Bool) : Nat → Option α → Option (Option α)
  | _, none => some none
  | 0, some _ => none
  | fuel + 1, some place =>
    if test place then some (some place) else find next test fuel (next place)

/-- Gather something over all the nodes from a place on. -/
def gather {β : Type w} (next : α → Option α) (add : β → α → β) :
    Nat → β → Option α → Option β
  | _, sum, none => some sum
  | 0, _, some _ => none
  | fuel + 1, sum, some place => gather next add fuel (add sum place) (next place)

/-- Look for the first node that has to stand behind the new one, and put the new one before
it, or at the end. -/
def insertSorted (queues : Queues ι α) (fuel : Nat) (name : ι) (behind : α → Bool) (node : α) :
    Option (Queues ι α) :=
  (find queues.next behind fuel (queues.queue name).head).bind fun found =>
    match found with
    | none => some (pushTail queues name node)
    | some item => insertBefore queues fuel name item node

/-- A walk from a place over the nodes of a list arrives at a stop. -/
def Reaches (next : α → Option α) : Option α → List α → Option α → Prop
  | place, [], stop => place = stop
  | place, node :: nodes, stop => place = some node ∧ Reaches next (next node) nodes stop

/-- Every queue holds its list, and no node is twice on the queues. -/
structure Holds (queues : Queues ι α) (lists : ι → List α) : Prop where
  linked : ∀ name, Reaches queues.next (queues.queue name).head (lists name) none
  tail : ∀ name, (queues.queue name).tail = (lists name).getLast?
  count : ∀ name, (queues.queue name).count = ofNat 32 (lists name).length
  nodup : ∀ name, (lists name).Nodup
  disjoint : ∀ one another node, node ∈ lists one → node ∈ lists another → one = another

variable {fuel : Nat}

section Walks

omit [DecidableEq ι] [DecidableEq α]

variable {next other : α → Option α} {place stop : Option α} {front back nodes : List α}

theorem reaches_append : Reaches next place (front ++ back) stop ↔
    ∃ middle, Reaches next place front middle ∧ Reaches next middle back stop := by
  induction front generalizing place with
  | nil => simp [Reaches]
  | cons node front ih => simp [Reaches, ih, and_assoc]

theorem reaches_congr (same : ∀ node ∈ nodes, other node = next node)
    (reaches : Reaches next place nodes stop) : Reaches other place nodes stop := by
  induction nodes generalizing place with
  | nil => exact reaches
  | cons node nodes ih =>
    constructor
    · exact reaches.1
    · rw [same node mem_cons_self]
      exact ih (fun other mem => same other (mem_cons_of_mem node mem)) reaches.2

theorem reaches_head (reaches : Reaches next place nodes none) : place = nodes.head? := by
  cases nodes with
  | nil => exact reaches
  | cons node nodes => exact reaches.1

/-- Searching the nodes of a list. -/
theorem find_reaches (test : α → Bool) (enough : nodes.length ≤ fuel)
    (reaches : Reaches next place nodes none) :
    find next test fuel place = some (nodes.find? test) := by
  induction nodes generalizing fuel place with
  | nil =>
    rw [show place = none from reaches]
    cases fuel <;> rfl
  | cons node nodes ih =>
    obtain ⟨rfl, onward⟩ := reaches
    obtain ⟨fuel, rfl⟩ : ∃ less, fuel = less + 1 := ⟨fuel - 1, by simp at enough; omega⟩
    cases accepted : test node with
    | true => simp [find, accepted]
    | false =>
      simp only [find, accepted, Bool.false_eq_true, ↓reduceIte]
      rw [ih (by simpa using enough) onward, List.find?_cons_of_neg (by simp [accepted])]

/-- Gathering over the nodes of a list. -/
theorem gather_reaches {β : Type w} (add : β → α → β) {sum : β} (enough : nodes.length ≤ fuel)
    (reaches : Reaches next place nodes none) :
    gather next add fuel sum place = some (nodes.foldl add sum) := by
  induction nodes generalizing fuel place sum with
  | nil =>
    rw [show place = none from reaches]
    cases fuel <;> rfl
  | cons node nodes ih =>
    obtain ⟨rfl, onward⟩ := reaches
    obtain ⟨fuel, rfl⟩ : ∃ less, fuel = less + 1 := ⟨fuel - 1, by simp at enough; omega⟩
    exact ih (by simpa using enough) onward

end Walks

section Lists

variable {queues : Queues ι α} {lists : ι → List α} {next : α → Option α}
  {place stop after : Option α} {front back : List α} {name : ι} {node item : α}

/-- The last node of a walk is led elsewhere. -/
theorem reaches_link (reaches : Reaches next place front stop) (nodup : front.Nodup) :
    Reaches (link next front.getLast? after) (if front = [] then after else place) front after := by
  obtain rfl | ⟨initial, last, rfl⟩ := front.eq_nil_or_concat'
  · rfl
  · obtain ⟨middle, walk, rfl, -⟩ := reaches_append.mp reaches
    rw [nodup_append] at nodup
    rw [if_neg (by simp), List.getLast?_append, reaches_append]
    refine ⟨some last, reaches_congr (fun node mem => ?_) walk, rfl, ?_⟩
    · exact update_of_ne (nodup.2.2 node mem last mem_cons_self) _ _
    · exact update_self last _ next

theorem link_of_ne {before : Option α} (apart : before ≠ some node) :
    link next before after node = next node := by
  cases before with
  | none => rfl
  | some previous => exact update_of_ne (fun equal => apart (by rw [equal])) _ _

omit [DecidableEq α] in
/-- One queue gets another list. -/
theorem Holds.replace (holds : Holds queues lists) {next : α → Option α} {queue : Queue α}
    {nodes : List α} (linked : Reaches next queue.head nodes none)
    (tail : queue.tail = nodes.getLast?) (count : queue.count = ofNat 32 nodes.length)
    (nodup : nodes.Nodup)
    (fresh : ∀ node ∈ nodes, node ∈ lists name ∨ ∀ other, node ∉ lists other)
    (same : ∀ other, other ≠ name → ∀ node ∈ lists other, next node = queues.next node) :
    Holds ⟨next, update queues.queue name queue⟩ (update lists name nodes) := by
  have apart : ∀ other, other ≠ name → ∀ node ∈ lists other, node ∉ nodes := by
    intro other ne node mem inside
    rcases fresh node inside with here | nowhere
    · exact ne (holds.disjoint other name node mem here)
    · exact nowhere other mem
  constructor
  case linked =>
    intro tested
    by_cases here : tested = name
    · subst here
      simpa only [update_self] using linked
    · simp only [update_of_ne here]
      exact reaches_congr (same tested here) (holds.linked tested)
  case tail =>
    intro tested
    by_cases here : tested = name
    · subst here
      simpa only [update_self] using tail
    · simpa only [update_of_ne here] using holds.tail tested
  case count =>
    intro tested
    by_cases here : tested = name
    · subst here
      simpa only [update_self] using count
    · simpa only [update_of_ne here] using holds.count tested
  case nodup =>
    intro tested
    by_cases here : tested = name
    · subst here
      simpa only [update_self] using nodup
    · simpa only [update_of_ne here] using holds.nodup tested
  case disjoint =>
    intro one another node first second
    by_cases here : one = name <;> by_cases there : another = name
    · rw [here, there]
    · rw [here, update_self] at first
      rw [update_of_ne there] at second
      exact absurd first (apart another there node second)
    · rw [there, update_self] at second
      rw [update_of_ne here] at first
      exact absurd second (apart one here node first)
    · rw [update_of_ne here] at first
      rw [update_of_ne there] at second
      exact holds.disjoint one another node first second

section

variable (holds : Holds queues lists)
include holds

/-- A node that is on no queue is put first. -/
theorem Holds.pushHead (free : ∀ other, node ∉ lists other) :
    Holds (LinkedQueues.pushHead queues name node) (update lists name (node :: lists name)) := by
  have unlinked : ∀ other, ∀ mem ∈ lists other,
      update queues.next node (queues.queue name).head mem = queues.next mem := by
    intro other mem inside
    apply update_of_ne
    rintro rfl
    exact free other inside
  apply holds.replace
  case linked =>
    refine ⟨rfl, ?_⟩
    rw [update_self]
    exact reaches_congr (unlinked name) (holds.linked name)
  case tail =>
    simp only [holds.tail name, getLast?_cons]
    cases (lists name).getLast? <;> rfl
  case count =>
    simp only [holds.count name, length_cons, ofNat_add]
    rfl
  case nodup => exact nodup_cons.mpr ⟨free name, holds.nodup name⟩
  case fresh =>
    intro mem inside
    rcases mem_cons.mp inside with rfl | inside
    · exact Or.inr free
    · exact Or.inl inside
  case same => exact fun other _ => unlinked other

/-- Nothing is taken off an empty queue. -/
theorem Holds.popHead_nil (nothing : lists name = []) :
    LinkedQueues.popHead queues name = (none, queues) := by
  have head : (queues.queue name).head = none := by
    rw [reaches_head (holds.linked name), nothing]
    rfl
  rw [LinkedQueues.popHead]
  simp only [head]

/-- The first node of a queue is taken off. -/
theorem Holds.popHead_cons (first : lists name = node :: back) :
    ∃ after, LinkedQueues.popHead queues name = (some node, after) ∧
      Holds after (update lists name back) := by
  have walk := holds.linked name
  rw [first] at walk
  have nodup := holds.nodup name
  rw [first, nodup_cons] at nodup
  have unlinked : ∀ mem ≠ node,
      update queues.next node none mem = queues.next mem :=
    fun mem ne => update_of_ne ne _ _
  have popped : LinkedQueues.popHead queues name = (some node,
      { next := update queues.next node none
        queue := update queues.queue name
          { head := queues.next node
            tail := if queues.next node = none then none else (queues.queue name).tail
            count := (queues.queue name).count - 1 } }) := by
    simp only [LinkedQueues.popHead, walk.1]
  refine ⟨_, popped, ?_⟩
  apply holds.replace
  case linked =>
    exact reaches_congr (fun mem inside =>
      unlinked mem (fun equal => nodup.1 (equal ▸ inside))) walk.2
  case tail =>
    simp only [reaches_head walk.2, holds.tail name, first]
    cases back with
    | nil => rfl
    | cons second back => simp [getLast?_cons]
  case count =>
    simp only [holds.count name, first, length_cons, ofNat_add]
    exact BitVec.add_sub_cancel _ _
  case nodup => exact nodup.2
  case fresh => exact fun mem inside => Or.inl (first ▸ mem_cons_of_mem node inside)
  case same =>
    intro other ne mem inside
    refine unlinked mem fun equal => ne ?_
    exact holds.disjoint other name mem inside (by rw [first, equal]; exact mem_cons_self)

/-- A node that is on no queue is put last. -/
theorem Holds.pushTail (free : ∀ other, node ∉ lists other) :
    Holds (LinkedQueues.pushTail queues name node) (update lists name (lists name ++ [node])) := by
  have unlinked : ∀ other, ∀ mem ∈ lists other,
      update queues.next node none mem = queues.next mem := by
    intro other mem inside
    apply update_of_ne
    rintro rfl
    exact free other inside
  have fresh : ∀ mem ∈ lists name ++ [node], mem ∈ lists name ∨ ∀ other, mem ∉ lists other := by
    intro mem inside
    rcases mem_append.mp inside with inside | inside
    · exact Or.inl inside
    · rw [List.mem_singleton.mp inside]
      exact Or.inr free
  have nodup : (lists name ++ [node]).Nodup :=
    nodup_append.mpr ⟨holds.nodup name, List.nodup_singleton node, by
      rintro mem inside other there rfl
      rw [List.mem_singleton.mp there] at inside
      exact free name inside⟩
  have walk := reaches_congr (unlinked name) (holds.linked name)
  by_cases nothing : (queues.queue name).head = none
  · have none : lists name = [] := by simpa [nothing] using (reaches_head (holds.linked name)).symm
    rw [LinkedQueues.pushTail, if_pos nothing]
    apply holds.replace
    case linked =>
      rw [none]
      exact ⟨rfl, update_self node _ queues.next⟩
    case tail => simp
    case count => simp [holds.count name, none]
    case nodup => exact nodup
    case fresh => exact fresh
    case same => exact fun other _ => unlinked other
  · have some : lists name ≠ [] := by
      rintro empty
      exact nothing (by rw [reaches_head (holds.linked name), empty]; rfl)
    rw [LinkedQueues.pushTail, if_neg nothing]
    apply holds.replace
    case linked =>
      have led : Reaches (link (update queues.next node Option.none)
          (lists name).getLast? (Option.some node)) _ (lists name) (Option.some node) :=
        reaches_link walk (holds.nodup name)
      rw [if_neg some] at led
      rw [holds.tail name, reaches_append]
      refine ⟨_, led, rfl, ?_⟩
      rw [link_of_ne, update_self]
      · rfl
      · intro last
        exact free name (mem_of_getLast? last)
    case tail => simp
    case count =>
      simp only [holds.count name, length_append, ofNat_add]
      rfl
    case nodup => exact nodup
    case fresh => exact fresh
    case same =>
      intro other ne mem inside
      rw [link_of_ne, unlinked other mem inside]
      rw [holds.tail name]
      intro last
      exact ne (holds.disjoint other name mem inside (mem_of_getLast? last))

/-- Taking a node off that stands between two parts of the list. -/
theorem Holds.unlink (split : lists name = front ++ node :: back) :
    Holds (LinkedQueues.unlink queues name node front.getLast?)
      (update lists name (front ++ back)) := by
  have nodup := holds.nodup name
  rw [split] at nodup
  obtain ⟨nodupFront, nodupBack, apart⟩ := nodup_append.mp nodup
  have walk := holds.linked name
  rw [split, reaches_append] at walk
  obtain ⟨_, ahead, rfl, onward⟩ := walk
  have unlinked : ∀ mem ≠ node, front.getLast? ≠ some mem →
      update (link queues.next front.getLast? (queues.next node)) node none mem =
        queues.next mem :=
    fun mem ne before => by rw [update_of_ne ne, link_of_ne before]
  have inside : ∀ mem, front.getLast? = some mem → mem ∈ lists name := by
    intro mem last
    rw [split]
    exact mem_append_left _ (mem_of_getLast? last)
  have linked : Reaches (update (link queues.next front.getLast? (queues.next node)) node none)
      (if front = [] then queues.next node else (queues.queue name).head) (front ++ back) none := by
    rw [reaches_append]
    refine ⟨queues.next node, ?_, ?_⟩
    · refine reaches_congr (fun mem within => ?_) (reaches_link ahead nodupFront)
      exact update_of_ne (apart mem within node mem_cons_self) _ _
    · refine reaches_congr (fun mem within => unlinked mem ?_ ?_) onward
      · rintro rfl
        exact (nodup_cons.mp nodupBack).1 within
      · intro last
        exact apart mem (mem_of_getLast? last) mem (mem_cons_of_mem node within) rfl
  apply holds.replace
  case linked =>
    cases first : front.getLast? with
    | none =>
      rw [List.getLast?_eq_none_iff.mp first] at linked ⊢
      exact linked
    | some previous =>
      rw [if_neg (by rintro rfl; cases first), first] at linked
      exact linked
  case tail =>
    have last := holds.tail name
    rw [split] at last
    cases first : front.getLast? with
    | none =>
      simp only [reaches_head onward, last, List.getLast?_eq_none_iff.mp first]
      cases back with
      | nil => rfl
      | cons second back => simp [getLast?_cons]
    | some previous =>
      simp only [last]
      cases back with
      | nil => simp [first]
      | cons second back =>
        have ne : (second :: back).getLast? ≠ some node := fun equal =>
          (nodup_cons.mp nodupBack).1 (mem_of_getLast? equal)
        rw [List.getLast?_append_of_ne_nil _ (by simp), List.getLast?_cons_cons, if_neg ne,
          List.getLast?_append_of_ne_nil _ (by simp)]
  case count =>
    have length : (queues.queue name).count - 1 = ofNat 32 (front ++ back).length := by
      simp only [holds.count name, split, length_append, length_cons, ← Nat.add_assoc, ofNat_add]
      exact BitVec.add_sub_cancel _ _
    cases front.getLast? <;> exact length
  case nodup => exact (nodup_middle.mp nodup).of_cons
  case fresh =>
    intro mem within
    rw [split]
    refine Or.inl ?_
    rcases mem_append.mp within with within | within
    · exact mem_append_left _ within
    · exact List.mem_append_right _ (mem_cons_of_mem node within)
  case same =>
    intro other ne mem within
    refine unlinked mem ?_ fun last => ?_
    · rintro rfl
      exact ne (holds.disjoint other name mem within (by rw [split]; simp))
    · exact ne (holds.disjoint other name mem within (inside mem last))

/-- The walk of a removal. -/
theorem Holds.removeFrom (enough : back.length ≤ fuel) (split : lists name = front ++ back)
    (absent : node ∉ front) (walk : Reaches queues.next place back none) :
    ∃ after, LinkedQueues.removeFrom queues name node fuel front.getLast? place = some after ∧
      Holds after (update lists name ((lists name).erase node)) := by
  induction back generalizing fuel front place with
  | nil =>
    rw [List.append_nil] at split
    rw [show place = none from walk, split, List.erase_of_not_mem absent, ← split,
      Function.update_eq_self]
    exact ⟨queues, by cases fuel <;> rfl, holds⟩
  | cons item back ih =>
    obtain ⟨rfl, onward⟩ := walk
    obtain ⟨fuel, rfl⟩ : ∃ less, fuel = less + 1 := ⟨fuel - 1, by simp at enough; omega⟩
    by_cases found : node = item
    · subst found
      refine ⟨_, by rw [LinkedQueues.removeFrom, if_pos rfl], ?_⟩
      rw [split, List.erase_append_right _ absent, List.erase_cons_head]
      exact holds.unlink split
    · rw [LinkedQueues.removeFrom, if_neg found]
      have shifted : lists name = (front ++ [item]) ++ back := by
        rw [split, List.append_assoc]
        rfl
      have later := ih (by simpa using enough) shifted (by simp [absent, found]) onward
      rwa [List.getLast?_concat] at later

theorem Holds.remove (enough : (lists name).length ≤ fuel) :
    ∃ after, LinkedQueues.remove queues fuel name node = some after ∧
      Holds after (update lists name ((lists name).erase node)) := by
  have whole : lists name = [] ++ lists name := rfl
  exact holds.removeFrom enough whole List.not_mem_nil (holds.linked name)

/-- Putting a node between two parts of the list. -/
theorem Holds.splice (free : ∀ other, node ∉ lists other)
    (split : lists name = front ++ item :: back) :
    Holds (LinkedQueues.splice queues name item node front.getLast?)
      (update lists name (front ++ node :: item :: back)) := by
  have unlinked : ∀ other, ∀ mem ∈ lists other, update queues.next node (some item) mem =
      queues.next mem := by
    intro other mem inside
    apply update_of_ne
    rintro rfl
    exact free other inside
  have absent : node ∉ front ++ item :: back := split ▸ free name
  have nodup := holds.nodup name
  rw [split] at nodup
  obtain ⟨nodupFront, -, apart⟩ := nodup_append.mp nodup
  have walk := reaches_congr (unlinked name) (holds.linked name)
  rw [split, reaches_append] at walk
  obtain ⟨middle, ahead, onward⟩ := walk
  have last : ∀ mem, front.getLast? = some mem → mem ∈ front := fun mem last => mem_of_getLast? last
  apply holds.replace
  case linked =>
    rw [reaches_append]
    refine ⟨some node, ?_, rfl, ?_⟩
    · have led : Reaches (link (update queues.next node (some item)) front.getLast?
          (some node)) _ front (some node) := reaches_link ahead nodupFront
      rcases front.eq_nil_or_concat' with rfl | ⟨initial, final, rfl⟩
      · exact led
      · rw [if_neg (by simp)] at led
        rwa [if_neg (by simp)]
    · rw [link_of_ne (fun equal => absent (mem_append_left _ (last node equal))), update_self]
      refine reaches_congr (fun mem within => link_of_ne fun equal => ?_) ⟨rfl, onward.2⟩
      exact apart mem (last mem equal) mem within rfl
  case tail =>
    simp only [holds.tail name, split]
    rw [List.getLast?_append_of_ne_nil _ (by simp), List.getLast?_append_of_ne_nil _ (by simp),
      List.getLast?_cons_cons]
  case count =>
    simp only [holds.count name, split, length_append, length_cons, ← Nat.add_assoc, ofNat_add]
    rfl
  case nodup => exact nodup_middle.mpr (nodup_cons.mpr ⟨absent, nodup⟩)
  case fresh =>
    intro mem within
    by_cases same : mem = node
    · exact Or.inr (same ▸ free)
    · rw [split]
      simp only [mem_append, mem_cons, same, false_or] at within ⊢
      exact Or.inl within
  case same =>
    intro other ne mem within
    rw [link_of_ne, unlinked other mem within]
    intro equal
    refine ne (holds.disjoint other name mem within ?_)
    rw [split]
    exact mem_append_left _ (last mem equal)

/-- The walk of an insertion before an item that is on the queue. -/
theorem Holds.insertFrom {ahead : List α} (free : ∀ other, node ∉ lists other)
    (enough : (front ++ item :: back).length ≤ fuel)
    (split : lists name = ahead ++ (front ++ item :: back)) (absent : item ∉ front)
    (walk : Reaches queues.next place (front ++ item :: back) none) :
    ∃ after, LinkedQueues.insertFrom queues name item node fuel ahead.getLast? place = some after ∧
      Holds after (update lists name (ahead ++ (front ++ node :: item :: back))) := by
  induction front generalizing fuel ahead place with
  | nil =>
    obtain ⟨rfl, -⟩ := walk
    obtain ⟨fuel, rfl⟩ : ∃ less, fuel = less + 1 := ⟨fuel - 1, by simp at enough; omega⟩
    exact ⟨_, by rw [LinkedQueues.insertFrom, if_pos rfl], holds.splice free split⟩
  | cons first front ih =>
    obtain ⟨rfl, onward⟩ := walk
    obtain ⟨fuel, rfl⟩ : ∃ less, fuel = less + 1 := ⟨fuel - 1, by simp at enough; omega⟩
    rw [mem_cons, not_or] at absent
    rw [LinkedQueues.insertFrom, if_neg absent.1]
    have shifted : lists name = (ahead ++ [first]) ++ (front ++ item :: back) := by
      rw [split]
      simp
    have later := ih (by simpa using enough) shifted absent.2 onward
    simpa using later

theorem Holds.insertBefore (free : ∀ other, node ∉ lists other)
    (enough : (lists name).length ≤ fuel) (split : lists name = front ++ item :: back) :
    ∃ after, LinkedQueues.insertBefore queues fuel name item node = some after ∧
      Holds after (update lists name (front ++ node :: item :: back)) := by
  have nodup := holds.nodup name
  rw [split, nodup_middle, nodup_cons, mem_append, not_or] at nodup
  have whole : lists name = [] ++ (front ++ item :: back) := split
  have walk := holds.linked name
  rw [split] at enough walk
  exact holds.insertFrom free enough whole nodup.1.1 walk

end

omit [DecidableEq α] in
theorem orderedInsert_append (precedes : α → α → Prop) [DecidableRel precedes] (node : α)
    (back : List α) (passed : ∀ other ∈ front, ¬precedes node other) :
    (front ++ back).orderedInsert precedes node = front ++ back.orderedInsert precedes node := by
  induction front with
  | nil => rfl
  | cons first front ih =>
    rw [List.cons_append, List.orderedInsert_of_not_le _ _ (passed first mem_cons_self),
      ih fun other mem => passed other (mem_cons_of_mem first mem)]
    rfl

/-- The node is put before the first one that has to stand behind it. -/
theorem Holds.insertSorted (holds : Holds queues lists) (precedes : α → α → Prop)
    [DecidableRel precedes] (free : ∀ other, node ∉ lists other)
    (enough : (lists name).length ≤ fuel) :
    ∃ after, LinkedQueues.insertSorted queues fuel name (fun other => decide (precedes node other))
        node = some after ∧
      Holds after (update lists name ((lists name).orderedInsert precedes node)) := by
  rw [LinkedQueues.insertSorted, find_reaches _ enough (holds.linked name)]
  cases found : (lists name).find? fun other => decide (precedes node other) with
  | none =>
    have after := orderedInsert_append precedes node [] (show ∀ other ∈ lists name, _ by
      simpa using found)
    rw [List.append_nil] at after
    rw [after]
    exact ⟨_, rfl, holds.pushTail free⟩
  | some item =>
    obtain ⟨accepted, front, back, split, refused⟩ := List.find?_eq_some_iff_append.mp found
    have after : (lists name).orderedInsert precedes node = front ++ node :: item :: back := by
      rw [split, orderedInsert_append precedes node (item :: back) (by simpa using refused),
        List.orderedInsert_cons_of_le _ back (by simpa using accepted)]
    rw [after]
    exact holds.insertBefore free enough split

end Lists

end LinkedQueues
