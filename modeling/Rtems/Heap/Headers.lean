import Rtems.Heap.Control

/-!
# Field maps of a set of blocks

The routines read and write words of a few blocks at a time. As long as the words
of these blocks do not overlap, the memory behaves like four independent maps
from block addresses to field values. `View` records that agreement for a set of
blocks whose two size words are in use and a set of blocks whose two link words
are in use; every field write is then an update of one map at one point. The two
sets differ because the last block of an area has no room for links and the
control block has links but no sizes.
-/

namespace Rtems.Heap

open ByteMemory LinkRing
open Function (update)

variable {port : Port}

/-- The fields of blocks as maps from block addresses. -/
structure Headers where
  prevSize : Nat → Nat
  sizeAndFlag : Nat → Nat
  links : Links Nat

/-- The size words of `sized` and the link words of `linked` do not overlap. -/
structure Apart (port : Port) (sized linked : Set Nat) : Prop where
  sizes : ∀ left ∈ sized, ∀ right ∈ sized,
    left = right ∨ left + 2 * port.wordSize ≤ right ∨ right + 2 * port.wordSize ≤ left
  links : ∀ left ∈ linked, ∀ right ∈ linked,
    left = right ∨ left + 2 * port.wordSize ≤ right ∨ right + 2 * port.wordSize ≤ left
  mixed : ∀ left ∈ sized, ∀ right ∈ linked, left ≤ right ∨ right + 4 * port.wordSize ≤ left

/-- The memory holds exactly the mapped field values at the named blocks. -/
structure View (port : Port) (memory : Memory) (sized linked : Set Nat) (fields : Headers) :
    Prop where
  prevSize : ∀ block ∈ sized, load memory block port.wordSize = fields.prevSize block
  sizeAndFlag : ∀ block ∈ sized,
    load memory (block + port.wordSize) port.wordSize = fields.sizeAndFlag block
  next : ∀ block ∈ linked,
    load memory (block + 2 * port.wordSize) port.wordSize = fields.links.next block
  prev : ∀ block ∈ linked,
    load memory (block + 3 * port.wordSize) port.wordSize = fields.links.prev block

/-- The field maps of a heap as it is. -/
def Control.headers (heap : Control port) : Headers where
  prevSize := heap.prevSize
  sizeAndFlag := heap.sizeAndFlag
  links := { next := heap.next, prev := heap.prev }

theorem view_self (heap : Control port) (sized linked : Set Nat) :
    View port heap.memory sized linked heap.headers :=
  ⟨fun _ _ => rfl, fun _ _ => rfl, fun _ _ => rfl, fun _ _ => rfl⟩

/-- Every word is a `uintptr_t` value. -/
theorem Control.word_lt (heap : Control port) (address : Nat) : heap.word address < port.modulus :=
  load_bound _ _ _

section Reading

variable {heap : Control port} {sized linked : Set Nat} {fields : Headers}

section

variable (view : View port heap.memory sized linked fields) (block : Nat)
include view

theorem View.read_sizeAndFlag
    (mem : block ∈ sized) : heap.sizeAndFlag block = fields.sizeAndFlag block :=
  view.sizeAndFlag block mem

theorem View.read_next (mem : block ∈ linked) : heap.next block = fields.links.next block :=
  view.next block mem

theorem View.read_prev (mem : block ∈ linked) : heap.prev block = fields.links.prev block :=
  view.prev block mem

end

end Reading

section Writing

/-- Reading back a `uintptr_t` word. -/
theorem load_store_word (memory : Memory) (address value : Nat) (bounded : value < port.modulus) :
    load (store memory address port.wordSize value) address port.wordSize = value := by
  rw [load_store_same]
  exact Nat.mod_eq_of_lt bounded

variable {memory : Memory} {sized linked : Set Nat} {fields : Headers}

section

variable (view : View port memory sized linked fields) (apart : Apart port sized linked)
  (block value : Nat)
include view apart

/-- Writing a `prev_size` word updates that map at the block and nothing else. -/
theorem View.write_prevSize (mem : block ∈ sized) (bounded : value < port.modulus) :
    View port (store memory block port.wordSize value) sized linked
      { fields with prevSize := update fields.prevSize block value } := by
  refine ⟨?_, ?_, ?_, ?_⟩ <;> intro tested inside
  · by_cases same : tested = block
    · subst same
      simp [load_store_word memory _ value bounded]
    · have far := apart.sizes tested inside block mem
      rw [load_store_disjoint _ _ _ _ _ _ (by omega), view.prevSize tested inside]
      simp [same]
  · have far := apart.sizes tested inside block mem
    rw [load_store_disjoint _ _ _ _ _ _ (by omega), view.sizeAndFlag tested inside]
  · have far := apart.mixed block mem tested inside
    rw [load_store_disjoint _ _ _ _ _ _ (by omega), view.next tested inside]
  · have far := apart.mixed block mem tested inside
    rw [load_store_disjoint _ _ _ _ _ _ (by omega), view.prev tested inside]

/-- Writing a `size_and_flag` word updates that map at the block and nothing else. -/
theorem View.write_sizeAndFlag (mem : block ∈ sized) (bounded : value < port.modulus) :
    View port (store memory (block + port.wordSize) port.wordSize value) sized linked
      { fields with sizeAndFlag := update fields.sizeAndFlag block value } := by
  refine ⟨?_, ?_, ?_, ?_⟩ <;> intro tested inside
  · have far := apart.sizes tested inside block mem
    rw [load_store_disjoint _ _ _ _ _ _ (by omega), view.prevSize tested inside]
  · by_cases same : tested = block
    · subst same
      simp [load_store_word memory _ value bounded]
    · have far := apart.sizes tested inside block mem
      rw [load_store_disjoint _ _ _ _ _ _ (by omega), view.sizeAndFlag tested inside]
      simp [same]
  · have far := apart.mixed block mem tested inside
    rw [load_store_disjoint _ _ _ _ _ _ (by omega), view.next tested inside]
  · have far := apart.mixed block mem tested inside
    rw [load_store_disjoint _ _ _ _ _ _ (by omega), view.prev tested inside]

/-- Writing a `next` word updates that map at the block and nothing else. -/
theorem View.write_next (mem : block ∈ linked) (bounded : value < port.modulus) :
    View port (store memory (block + 2 * port.wordSize) port.wordSize value) sized linked
      { fields with links :=
          { fields.links with next := update fields.links.next block value } } := by
  refine ⟨?_, ?_, ?_, ?_⟩ <;> intro tested inside
  · have far := apart.mixed tested inside block mem
    rw [load_store_disjoint _ _ _ _ _ _ (by omega), view.prevSize tested inside]
  · have far := apart.mixed tested inside block mem
    rw [load_store_disjoint _ _ _ _ _ _ (by omega), view.sizeAndFlag tested inside]
  · by_cases same : tested = block
    · subst same
      simp [load_store_word memory _ value bounded]
    · have far := apart.links tested inside block mem
      rw [load_store_disjoint _ _ _ _ _ _ (by omega), view.next tested inside]
      simp [same]
  · have far := apart.links tested inside block mem
    rw [load_store_disjoint _ _ _ _ _ _ (by omega), view.prev tested inside]

/-- Writing a `prev` word updates that map at the block and nothing else. -/
theorem View.write_prev (mem : block ∈ linked) (bounded : value < port.modulus) :
    View port (store memory (block + 3 * port.wordSize) port.wordSize value) sized linked
      { fields with links :=
          { fields.links with prev := update fields.links.prev block value } } := by
  refine ⟨?_, ?_, ?_, ?_⟩ <;> intro tested inside
  · have far := apart.mixed tested inside block mem
    rw [load_store_disjoint _ _ _ _ _ _ (by omega), view.prevSize tested inside]
  · have far := apart.mixed tested inside block mem
    rw [load_store_disjoint _ _ _ _ _ _ (by omega), view.sizeAndFlag tested inside]
  · have far := apart.links tested inside block mem
    rw [load_store_disjoint _ _ _ _ _ _ (by omega), view.next tested inside]
  · by_cases same : tested = block
    · subst same
      simp [load_store_word memory _ value bounded]
    · have far := apart.links tested inside block mem
      rw [load_store_disjoint _ _ _ _ _ _ (by omega), view.prev tested inside]
      simp [same]

end

end Writing

section Flags

variable {heap : Control port} {sized linked : Set Nat} {fields : Headers}

section

variable (heap : Control port) (view : View port heap.memory sized linked fields)
  (apart : Apart port sized linked)
include view apart

theorem View.block_set_size (block old size : Nat) (flag : Bool) (mem : block ∈ sized)
    (stored : fields.sizeAndFlag block = old + flag.toNat) (oldEven : 2 ∣ old) (even : 2 ∣ size)
    (bounded : size + 1 < port.modulus) :
    ∃ memory, heap.blockSetSize block size = heap.renew memory heap.stats ∧
      View port memory sized linked { fields with
        sizeAndFlag := update fields.sizeAndFlag block (size + flag.toNat) } := by
  have read : heap.sizeAndFlag block &&& prevBlockUsed = flag.toNat := by
    rw [view.read_sizeAndFlag block mem, stored, flag_of_even old oldEven flag]
  have bit : flag.toNat ≤ 1 := flag.toNat_le
  refine ⟨_, rfl, ?_⟩
  simp only [read, or_flag size even flag]
  exact view.write_sizeAndFlag apart block _ mem (by omega)

section

variable (block size : Nat) (flag : Bool) (mem : block ∈ sized)
  (stored : fields.sizeAndFlag block = size + flag.toNat) (even : 2 ∣ size)
include size flag mem stored even

theorem View.clear_flag : ∃ memory, heap.setSizeAndFlag block (clearFlag (heap.sizeAndFlag block)) =
        heap.renew memory heap.stats ∧
      View port memory sized linked { fields with
        sizeAndFlag := update fields.sizeAndFlag block size } := by
  have read : heap.sizeAndFlag block = size + flag.toNat := by
    rw [view.read_sizeAndFlag block mem, stored]
  have bounded : size + flag.toNat < port.modulus := read ▸ heap.word_lt _
  refine ⟨_, rfl, ?_⟩
  simp only [read, clearFlag_of_even size even flag]
  exact view.write_sizeAndFlag apart block _ mem (by omega)

/-- Clearing the flag of a block if it is set. -/
theorem View.clear_marked :
    ∃ memory, (if flag then heap.setSizeAndFlag block (clearFlag (heap.sizeAndFlag block))
        else heap) = heap.renew memory heap.stats ∧
      View port memory sized linked { fields with
        sizeAndFlag := update fields.sizeAndFlag block size } := by
  cases flag with
  | true => exact View.clear_flag heap view apart block size true mem stored even
  | false =>
    refine ⟨heap.memory, rfl, ?_⟩
    rw [← show fields.sizeAndFlag block = size from stored, Function.update_eq_self]
    exact view

/-- Setting the flag of a block. -/
theorem View.set_flag :
    ∃ memory, heap.setSizeAndFlag block (heap.sizeAndFlag block ||| prevBlockUsed) =
        heap.renew memory heap.stats ∧
      View port memory sized linked { fields with
        sizeAndFlag := update fields.sizeAndFlag block (size + 1) } := by
  have read : heap.sizeAndFlag block = size + flag.toNat := by
    rw [view.read_sizeAndFlag block mem, stored]
  have bounded : size + flag.toNat < port.modulus := read ▸ heap.word_lt _
  have modulusEven := port.modulus_even
  refine ⟨_, rfl, ?_⟩
  simp only [read, Heap.set_flag size even flag]
  exact view.write_sizeAndFlag apart block _ mem (by omega)

end

end

end Flags

section FreeList

variable {heap : Control port} {sized linked : Set Nat} {fields : Headers}

section

variable (heap : Control port) (view : View port heap.memory sized linked fields)
  (apart : Apart port sized linked)
include view apart

/-- Unlinking a block is the ring edit on the link maps. -/
theorem View.free_list_remove (block : Nat) (mem : block ∈ linked)
    (ahead : fields.links.next block ∈ linked) (behind : fields.links.prev block ∈ linked) :
    ∃ memory, heap.freeListRemove block = heap.renew memory heap.stats ∧
      View port memory sized linked { fields with links := fields.links.remove block } := by
  have nextValue : heap.next block = fields.links.next block := view.read_next block mem
  have prevValue : heap.prev block = fields.links.prev block := view.read_prev block mem
  have nextBound : fields.links.next block < port.modulus := nextValue ▸ heap.word_lt _
  have prevBound : fields.links.prev block < port.modulus := prevValue ▸ heap.word_lt _
  refine ⟨_, rfl, ?_⟩
  have first := view.write_next apart _ _ behind nextBound
  have second := first.write_prev apart _ _ ahead prevBound
  simpa only [Links.remove, Control.setNext, Control.setWord, nextValue, prevValue] using second

/-- Linking a block in after another is the ring edit on the link maps. -/
theorem View.free_list_insert_after (before block : Nat) (anchor : before ∈ linked)
    (mem : block ∈ linked) (ahead : fields.links.next before ∈ linked)
    (beforeBound : before < port.modulus) (bound : block < port.modulus) :
    ∃ memory, heap.freeListInsertAfter before block = heap.renew memory heap.stats ∧
      View port memory sized linked
        { fields with links := fields.links.insertAfter before block } := by
  have nextValue : heap.next before = fields.links.next before := view.read_next before anchor
  have nextBound : fields.links.next before < port.modulus := nextValue ▸ heap.word_lt _
  refine ⟨_, rfl, ?_⟩
  have first := view.write_next apart _ _ mem nextBound
  have second := first.write_prev apart _ _ mem beforeBound
  have third := second.write_next apart _ _ anchor bound
  have fourth := third.write_prev apart _ _ ahead bound
  simpa only [Links.insertAfter, Control.setNext, Control.setPrev, Control.setWord, nextValue] using
    fourth

end

/-- Putting a block in the place of another is the ring edit on the link maps. -/
theorem View.free_list_replace (view : View port heap.memory sized linked fields)
    (apart : Apart port sized linked) (old block : Nat) (anchor : old ∈ linked)
    (mem : block ∈ linked) (ahead : fields.links.next old ∈ linked)
    (behind : fields.links.prev old ∈ linked) (bound : block < port.modulus) :
    ∃ memory, heap.freeListReplace old block = heap.renew memory heap.stats ∧
      View port memory sized linked { fields with links := fields.links.replace old block } := by
  have nextValue : heap.next old = fields.links.next old := view.read_next old anchor
  have prevValue : heap.prev old = fields.links.prev old := view.read_prev old anchor
  have nextBound : fields.links.next old < port.modulus := nextValue ▸ heap.word_lt _
  have prevBound : fields.links.prev old < port.modulus := prevValue ▸ heap.word_lt _
  refine ⟨_, rfl, ?_⟩
  have first := view.write_next apart _ _ mem nextBound
  have second := first.write_prev apart _ _ mem prevBound
  have third := second.write_prev apart _ _ ahead bound
  have fourth := third.write_next apart _ _ behind bound
  simpa only [Links.replace, Control.setNext, Control.setPrev, Control.setWord, nextValue,
    prevValue] using fourth

end FreeList

end Rtems.Heap
