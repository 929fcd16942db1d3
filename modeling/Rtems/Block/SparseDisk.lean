import Mathlib.Algebra.Order.Ring.Nat
import Mathlib.Data.List.GetD
import Mathlib.Data.List.Pairwise
import Mathlib.Data.List.Perm.Basic
import Mathlib.Data.List.Sort
import Rtems.Library.BlockArray

/-!
# Sparse disk

A sparse disk keeps buffers for the blocks that differ from the fill pattern. A table of keys,
sorted by block, tells the data area of each block in use. The keys move with their data areas
when they are sorted.

Addresses of data areas are offsets in the memory behind the table. The size of that memory is
a product of 32-bit numbers.
-/

namespace Rtems.Block.SparseDisk

open BlockArray
open List (drop_left' length_append length_drop map_append map_map mem_cons_of_mem mem_cons_self
  mem_map mem_range pairwise_map replicate take_append_drop)

/-- `rtems_sparse_disk_key`. -/
structure Key where
  block : UInt32
  data : Nat
deriving DecidableEq

/-- The order of `sparse_disk_compare`. -/
def Ordered (keys : List Key) : Prop := keys.Pairwise fun first second => first.block ≤ second.block

/-- `qsort` and `bsearch` with `sparse_disk_compare`. The search gives the place of the key. -/
structure Library where
  qsort : List Key → List Key
  qsort_perm : ∀ keys, (qsort keys).Perm keys
  qsort_ordered : ∀ keys, Ordered (qsort keys)
  bsearch : UInt32 → List Key → Option Nat
  bsearch_some : ∀ {block keys place}, Ordered keys → bsearch block keys = some place →
    ∃ key, keys[place]? = some key ∧ key.block = block
  bsearch_none : ∀ {block keys}, Ordered keys → bsearch block keys = none →
    ∀ key ∈ keys, key.block ≠ block

/-- `rtems_sparse_disk` with the memory of its data areas. -/
structure Disk where
  blocksWithBuffer : Nat
  usedCount : Nat
  mediaBlockSize : Nat
  fillPattern : UInt8
  keyTable : List Key
  memory : Nat → UInt8

/-- The used part of the key table. -/
def Disk.used (disk : Disk) : List Key := disk.keyTable.take disk.usedCount

/-- `memcpy` to the memory of the data areas. -/
def copyTo (memory : Nat → UInt8) (address : Nat) (bytes : List UInt8) : Nat → UInt8 :=
  fun tested =>
    if address ≤ tested ∧ tested < address + bytes.length then
      bytes.getD (tested - address) 0
    else memory tested

/-- `memcpy` from the memory of the data areas. -/
def copyFrom (memory : Nat → UInt8) (address count : Nat) : List UInt8 :=
  (List.range count).map fun offset => memory (address + offset)

/-- `sparse_disk_initialize`. The product of the sizes has 32 bits. -/
def sparseDiskInitialize (mediaBlockSize blocksWithBuffer : Nat) (fillPattern : UInt8)
    (memory : Nat → UInt8) : Disk where
  blocksWithBuffer := blocksWithBuffer
  usedCount := 0
  mediaBlockSize := mediaBlockSize
  fillPattern := fillPattern
  keyTable := (List.range blocksWithBuffer).map fun i => ⟨0, i * mediaBlockSize⟩
  memory := fun address =>
    if address < blocksWithBuffer * mediaBlockSize % 2 ^ 32 then fillPattern else memory address

variable (library : Library)

/-- `sparse_disk_find_block`. -/
def findBlock (disk : Disk) (block : UInt32) : Option Key :=
  (library.bsearch block disk.used).bind fun place => disk.keyTable[place]?

/-- `sparse_disk_get_new_block`. -/
def getNewBlock (disk : Disk) (block : UInt32) : Disk × Option Key :=
  if disk.usedCount ≥ disk.blocksWithBuffer then (disk, none)
  else
    let table := disk.keyTable.modify disk.usedCount fun key => { key with block := block }
    let usedCount := disk.usedCount + 1
    let disk := { disk with
      usedCount := usedCount
      keyTable := library.qsort (table.take usedCount) ++ table.drop usedCount }
    (disk, findBlock library disk block)

/-- A `size_t` as an `int`. -/
def toInt (count : Nat) : Int :=
  if count % 2 ^ 32 < 2 ^ 31 then (count % 2 ^ 32 : Nat) else (count % 2 ^ 32 : Nat) - 2 ^ 32

/-- `sparse_disk_read_block`, with the buffer behind it. -/
def readBlock (disk : Disk) (block : UInt32) (buffer : List UInt8) : List UInt8 × Int :=
  let bytesToCopy := min disk.mediaBlockSize buffer.length
  let buffer :=
    match findBlock library disk block with
    | some key => copyFrom disk.memory key.data bytesToCopy ++ buffer.drop bytesToCopy
    | none => replicate buffer.length disk.fillPattern
  (buffer, toInt bytesToCopy)

/-- `sparse_disk_write_block`. -/
def writeBlock (disk : Disk) (block : UInt32) (buffer : List UInt8) : Disk × Int :=
  let bytesToCopy := min disk.mediaBlockSize buffer.length
  let copy (disk : Disk) (key : Key) : Disk × Int :=
    ({ disk with memory := copyTo disk.memory key.data (buffer.take bytesToCopy) },
      toInt bytesToCopy)
  match findBlock library disk block with
  | some key => copy disk key
  | none =>
    if (buffer.take bytesToCopy).any (· != disk.fillPattern) then
      match getNewBlock library disk block with
      | (disk, some key) => copy disk key
      | (disk, none) => (disk, -1)
    else (disk, toInt bytesToCopy)

/-- The status of a request. -/
inductive Status where
  | successful
  | ioError
deriving DecidableEq

/-- `rtems_blkdev_sg_buffer`. -/
structure SgBuffer where
  block : UInt32
  buffer : List UInt8
deriving DecidableEq

/-- `rtems_blkdev_request`. -/
structure Request where
  read : Bool
  bufs : List SgBuffer

/-- One round of the inner loop of `sparse_disk_read_write`. -/
def transfer (disk : Disk) (read : Bool) (block : UInt32) (buffer : List UInt8) :
    Disk × List UInt8 × Int :=
  if read then (disk, readBlock library disk block buffer)
  else
    let written := writeBlock library disk block buffer
    (written.1, buffer, written.2)

/-- The inner loop of `sparse_disk_read_write`. -/
def bufferLoop (read : Bool) :
    Nat → Disk → UInt32 → List UInt8 → Int → Disk × List UInt8 × Int
  | 0, disk, _, buffer, rv => (disk, buffer, rv)
  | fuel + 1, disk, block, buffer, rv =>
    if 0 ≤ rv ∧ 0 < buffer.length then
      let done := transfer library disk read block buffer
      let handled := done.2.2.toNat
      let rest := bufferLoop read fuel done.1 (block + 1) (done.2.1.drop handled) done.2.2
      (rest.1, done.2.1.take handled ++ rest.2.1, rest.2.2)
    else (disk, buffer, rv)

/-- The outer loop of `sparse_disk_read_write`. -/
def requestLoop (read : Bool) : Disk → List SgBuffer → Int → Disk × List SgBuffer × Int
  | disk, [], rv => (disk, [], rv)
  | disk, sg :: rest, rv =>
    if 0 ≤ rv then
      let done := bufferLoop library read sg.buffer.length disk sg.block sg.buffer rv
      let later := requestLoop read done.1 rest done.2.2
      (later.1, ⟨sg.block, done.2.1⟩ :: later.2.1, later.2.2)
    else (disk, sg :: rest, rv)

/-- `sparse_disk_read_write`. -/
def readWrite (disk : Disk) (request : Request) : Disk × List SgBuffer × Status :=
  let done := requestLoop library request.read disk request.bufs 0
  (done.1, done.2.1, if 0 > done.2.2 then .ioError else .successful)

/-- Requests one after the other, with their buffers and status. -/
def run : Disk → List Request → Disk × List (List SgBuffer × Status)
  | disk, [] => (disk, [])
  | disk, request :: rest =>
    let done := readWrite library disk request
    let later := run done.1 rest
    (later.1, done.2 :: later.2)

section Model

/-- A disk as an array of blocks, and the blocks that needed a buffer. -/
structure Model where
  contents : UInt32 → Nat → UInt8
  buffered : List UInt32

/-- What one block write is about: the block and its new first bytes. -/
abbrev Piece := UInt32 × List UInt8

variable (size capacity : Nat) (fill : UInt8)

/-- There is no buffer for the block. -/
def Model.Refuses (model : Model) (piece : Piece) : Prop :=
  piece.1 ∉ model.buffered ∧ (∃ byte ∈ piece.2, byte ≠ fill) ∧ capacity ≤ model.buffered.length
deriving Decidable

/-- A successful block write. -/
def Model.accept (model : Model) (piece : Piece) : Model where
  contents := put model.contents piece.1 piece.2
  buffered :=
    if piece.1 ∉ model.buffered ∧ ∃ byte ∈ piece.2, byte ≠ fill then piece.1 :: model.buffered
    else model.buffered

/-- Block writes up to the first that is refused. -/
def Model.write (model : Model) : List Piece → Model × Status
  | [] => (model, .successful)
  | piece :: rest =>
    if model.Refuses capacity fill piece then (model, .ioError)
    else Model.write (model.accept fill piece) rest

/-- A buffer in pieces for successive blocks. -/
def pieces : Nat → UInt32 → List UInt8 → List Piece
  | 0, _, _ => []
  | fuel + 1, block, bytes =>
    if bytes = [] then []
    else (block, bytes.take size) :: pieces fuel (block + 1) (bytes.drop size)

/-- Successive bytes of the disk from the start of a block on. -/
def Model.read (model : Model) (block : UInt32) (count : Nat) : List UInt8 :=
  (List.range count).map fun position =>
    model.contents (block + UInt32.ofNat (position / size)) (position % size)

/-- What a request does to an array of blocks. -/
def Model.serve (model : Model) (request : Request) : Model × List SgBuffer × Status :=
  if request.read then
    (model, request.bufs.map fun sg =>
      ⟨sg.block, model.read size sg.block sg.buffer.length⟩, .successful)
  else
    let written := model.write capacity fill
      (request.bufs.flatMap fun sg => pieces size sg.buffer.length sg.block sg.buffer)
    (written.1, request.bufs, written.2)

/-- Requests to an array of blocks. -/
def Model.serveAll : Model → List Request → Model × List (List SgBuffer × Status)
  | model, [] => (model, [])
  | model, request :: rest =>
    let done := model.serve size capacity fill request
    let later := Model.serveAll done.1 rest
    (later.1, done.2 :: later.2)

/-- A disk that nothing was written to. -/
def Model.blank : Model := ⟨fun _ _ => fill, []⟩

/-- Requests are served one after the other. -/
theorem Model.write_append (model : Model) (first second : List Piece) :
    model.write capacity fill (first ++ second) =
      if (model.write capacity fill first).2 = .successful then
        (model.write capacity fill first).1.write capacity fill second
      else model.write capacity fill first := by
  induction first generalizing model with
  | nil => rw [List.nil_append, Model.write, if_pos rfl]
  | cons piece rest ih =>
    rw [List.cons_append, Model.write, Model.write]
    split
    next => rfl
    next => exact ih _

end Model

/-- Data areas do not overlap. -/
def Apart (size first second : Nat) : Prop := first + size ≤ second ∨ second + size ≤ first

theorem Apart.symm {size first second : Nat} (apart : Apart size first second) :
    Apart size second first := Or.symm apart

/-- The used keys are sorted with distinct blocks, and all keys have data areas of their own. -/
structure WellFormed (disk : Disk) : Prop where
  table : disk.keyTable.length = disk.blocksWithBuffer
  bound : disk.usedCount ≤ disk.blocksWithBuffer
  sorted : disk.used.Pairwise fun first second => first.block < second.block
  areas : (disk.keyTable.map Key.data).Pairwise (Apart disk.mediaBlockSize)

/-- A disk holds an array of blocks. Areas that are not used hold the fill pattern. -/
structure Holds (disk : Disk) (model : Model) : Prop extends WellFormed disk where
  fresh : ∀ key ∈ disk.keyTable.drop disk.usedCount, ∀ offset < disk.mediaBlockSize,
    disk.memory (key.data + offset) = disk.fillPattern
  held : ∀ key ∈ disk.used, ∀ offset < disk.mediaBlockSize,
    disk.memory (key.data + offset) = model.contents key.block offset
  absent : ∀ block, (∀ key ∈ disk.used, key.block ≠ block) →
    ∀ offset < disk.mediaBlockSize, model.contents block offset = disk.fillPattern
  buffered : model.buffered.Perm (disk.used.map Key.block)

variable {bytes : List UInt8}

section Copy

variable {memory : Nat → UInt8}

theorem copyTo_self {addr off : Nat} :
    copyTo memory addr bytes (addr + off) = bytes.getD off (memory (addr + off)) := by
  rw [copyTo]
  by_cases inside : off < bytes.length
  · rw [if_pos ⟨Nat.le_add_right _ _, Nat.add_lt_add_left inside _⟩, Nat.add_sub_cancel_left,
      List.getD_eq_getElem _ _ inside, List.getD_eq_getElem _ _ inside]
  · rw [if_neg (by omega), List.getD_eq_default _ _ (Nat.le_of_not_lt inside)]

theorem copyTo_apart {addr other size off : Nat} (short : bytes.length ≤ size)
    (inside : off < size) (apart : Apart size addr other) :
    copyTo memory addr bytes (other + off) = memory (other + off) := by
  rw [copyTo, if_neg]
  rcases apart with before | behind
  · omega
  · omega

end Copy

variable {library} {disk : Disk} {model : Model}

variable {key : Key}

section Find

section

variable (formed : WellFormed disk)
include formed

theorem WellFormed.ordered : Ordered disk.used := formed.sorted.imp fun less => UInt32.le_of_lt less

/-- A block has one key. -/
theorem WellFormed.unique {first second : Key} (here : first ∈ disk.used)
    (there : second ∈ disk.used) (same : first.block = second.block) : first = second := by
  have distinct := formed.sorted.imp fun less => UInt32.ne_of_lt less
  exact List.inj_on_of_nodup_map (pairwise_map.mpr distinct) here there same

theorem findBlock_some {block : UInt32} (found : findBlock library disk block = some key) :
    key ∈ disk.used ∧ key.block = block := by
  obtain ⟨place, searched, entry⟩ := Option.bind_eq_some_iff.mp found
  obtain ⟨other, there, same⟩ := library.bsearch_some formed.ordered searched
  have inside : (disk.keyTable.take disk.usedCount)[place]? = some other := there
  have whole : disk.keyTable[place]? = some other := by
    obtain ⟨below, value⟩ := List.getElem?_eq_some_iff.mp inside
    rw [List.getElem_take] at value
    exact List.getElem?_eq_some_iff.mpr ⟨_, value⟩
  cases whole.symm.trans entry
  exact ⟨List.mem_of_getElem? inside, same⟩

theorem findBlock_none {block : UInt32}
    (found : findBlock library disk block = none) : ∀ key ∈ disk.used, key.block ≠ block := by
  rw [findBlock] at found
  cases searched : library.bsearch block disk.used with
  | none => exact library.bsearch_none formed.ordered searched
  | some place =>
    obtain ⟨other, there, same⟩ := library.bsearch_some formed.ordered searched
    have inside : (disk.keyTable.take disk.usedCount)[place]? = some other := there
    rw [searched, Option.bind_some] at found
    obtain ⟨below, value⟩ := List.getElem?_eq_some_iff.mp inside
    rw [List.length_take] at below
    rw [List.getElem?_eq_none_iff] at found
    omega

/-- A key in use is found. -/
theorem findBlock_of_mem (there : key ∈ disk.used) :
    findBlock library disk key.block = some key := by
  cases found : findBlock library disk key.block with
  | none => exact absurd rfl (findBlock_none formed found key there)
  | some other =>
    obtain ⟨here, same⟩ := findBlock_some formed found
    rw [formed.unique here there same]

/-- The areas of two keys. -/
theorem WellFormed.apart {first second : Key}
    (here : first ∈ disk.used) (there : second ∈ disk.used) (other : first ≠ second) :
    Apart disk.mediaBlockSize first.data second.data := by
  have areas : disk.used.Pairwise fun first second =>
      Apart disk.mediaBlockSize first.data second.data :=
    (pairwise_map.mp formed.areas).sublist (List.take_sublist _ _)
  have symmetric : Std.Symm fun first second : Key =>
      Apart disk.mediaBlockSize first.data second.data := ⟨fun _ _ apart => apart.symm⟩
  exact areas.forall here there other

theorem WellFormed.apart_unused {first second : Key}
    (here : first ∈ disk.used) (there : second ∈ disk.keyTable.drop disk.usedCount) :
    Apart disk.mediaBlockSize first.data second.data := by
  have areas := pairwise_map.mp formed.areas
  rw [← take_append_drop disk.usedCount disk.keyTable, List.pairwise_append] at areas
  exact areas.2.2 first here second there

end

end Find

section Write

/-- The bytes of a block with a buffer change. -/
theorem Holds.copy (holds : Holds disk model) (there : key ∈ disk.used)
    (short : bytes.length ≤ disk.mediaBlockSize) :
    Holds { disk with memory := copyTo disk.memory key.data bytes }
      { model with contents := put model.contents key.block bytes } where
  table := holds.table
  bound := holds.bound
  sorted := holds.sorted
  areas := holds.areas
  fresh := by
    intro other unused off inside
    refine (copyTo_apart short inside (holds.apart_unused there unused)).trans ?_
    exact holds.fresh other unused off inside
  held := by
    intro other used off inside
    dsimp only
    by_cases same : other = key
    · rw [same, copyTo_self, put_self, holds.held key there off inside]
    · have apart := holds.apart there used (Ne.symm same)
      have different : other.block ≠ key.block := fun equal => same (holds.unique used there equal)
      rw [copyTo_apart short inside apart, put_other different]
      exact holds.held other used off inside
  absent := by
    intro block none off inside
    dsimp only
    rw [put_other (none key there).symm]
    exact holds.absent block none off inside
  buffered := holds.buffered

/-- The disk with a free key that is sorted into the used ones. -/
def Disk.insert (library : Library) (disk : Disk) (block : UInt32) (free : Key)
    (rest : List Key) : Disk :=
  { disk with
    usedCount := disk.usedCount + 1
    keyTable := library.qsort (disk.used ++ [⟨block, free.data⟩]) ++ rest }

theorem WellFormed.length_used (formed : WellFormed disk) : disk.used.length = disk.usedCount :=
  List.length_take_of_le (formed.table.symm ▸ formed.bound)

theorem getNewBlock_eq (formed : WellFormed disk) (room : disk.usedCount < disk.blocksWithBuffer)
    (block : UInt32) :
    ∃ free rest, disk.keyTable = disk.used ++ free :: rest ∧
      getNewBlock library disk block = (disk.insert library block free rest,
        findBlock library (disk.insert library block free rest) block) := by
  have inside : disk.usedCount < disk.keyTable.length := formed.table.symm ▸ room
  have split : disk.keyTable = disk.used ++ disk.keyTable[disk.usedCount] ::
      disk.keyTable.drop (disk.usedCount + 1) := by
    rw [Disk.used, ← List.drop_eq_getElem_cons inside, take_append_drop]
  have length := formed.length_used
  refine ⟨disk.keyTable[disk.usedCount], disk.keyTable.drop (disk.usedCount + 1), split, ?_⟩
  have modified : (disk.keyTable.modify disk.usedCount fun key => { key with block := block }) =
      disk.used ++ ⟨block, disk.keyTable[disk.usedCount].data⟩ ::
        disk.keyTable.drop (disk.usedCount + 1) := by
    rw [List.modify_eq_take_cons_drop inside]
    rfl
  have front : (disk.keyTable.modify disk.usedCount fun key => { key with block := block }).take
      (disk.usedCount + 1) = disk.used ++ [⟨block, disk.keyTable[disk.usedCount].data⟩] := by
    rw [modified, List.take_append, length, Nat.add_sub_cancel_left, List.take_of_length_le
      (by rw [length]; exact Nat.le_succ _)]
    rfl
  have back : (disk.keyTable.modify disk.usedCount fun key => { key with block := block }).drop
      (disk.usedCount + 1) = disk.keyTable.drop (disk.usedCount + 1) := by
    rw [modified, List.drop_append, length, Nat.add_sub_cancel_left, List.drop_of_length_le
      (by rw [length]; exact Nat.le_succ _)]
    rfl
  rw [getNewBlock, if_neg (Nat.not_le_of_lt room)]
  dsimp only
  rw [front, back]
  rfl

section Insert

variable {block : UInt32} {free : Key} {rest : List Key}
  (split : disk.keyTable = disk.used ++ free :: rest)

section

variable (formed : WellFormed disk)
include formed

theorem WellFormed.length_qsort :
    (library.qsort (disk.used ++ [⟨block, free.data⟩])).length = disk.usedCount + 1 := by
  rw [(library.qsort_perm _).length_eq, length_append, formed.length_used]
  rfl

theorem WellFormed.used_insert :
    (disk.insert library block free rest).used = library.qsort (disk.used ++ [⟨block, free.data⟩]) :=
  List.take_left' formed.length_qsort

theorem WellFormed.drop_insert : (disk.insert library block free rest).keyTable.drop
      (disk.insert library block free rest).usedCount = rest :=
  drop_left' formed.length_qsort

theorem WellFormed.mem_insert :
    key ∈ (disk.insert library block free rest).used ↔ key ∈ disk.used ∨ key = ⟨block, free.data⟩ := by
  rw [formed.used_insert, (library.qsort_perm _).mem_iff, List.mem_append, List.mem_singleton]

end

include split

/-- The table stays well formed with a new block. -/
theorem WellFormed.insert (formed : WellFormed disk) (none : ∀ key ∈ disk.used, key.block ≠ block) :
    WellFormed (disk.insert library block free rest) := by
  have perm := library.qsort_perm (disk.used ++ [⟨block, free.data⟩])
  have total := formed.table
  rw [split, length_append, List.length_cons, formed.length_used] at total
  constructor
  · have length : (disk.insert library block free rest).keyTable.length =
        disk.usedCount + 1 + rest.length := by
      rw [Disk.insert, length_append, formed.length_qsort]
    rw [length]
    exact (Nat.add_right_comm _ _ _).trans total
  · have count : disk.usedCount + 1 ≤ disk.blocksWithBuffer := by omega
    exact count
  · have nodup : ((disk.used ++ [(⟨block, free.data⟩ : Key)]).map Key.block).Nodup := by
      rw [map_append, List.nodup_append']
      refine ⟨pairwise_map.mpr (formed.sorted.imp fun less => UInt32.ne_of_lt less),
        List.nodup_singleton _, ?_⟩
      intro number there here
      obtain ⟨key, present, rfl⟩ := mem_map.mp there
      exact none key present (List.mem_singleton.mp here)
    have distinct := pairwise_map.mp ((perm.map Key.block).nodup_iff.mpr nodup)
    rw [formed.used_insert]
    exact ((library.qsort_ordered _).and distinct).imp fun both =>
      UInt32.lt_of_le_of_ne both.1 both.2
  · have areas := formed.areas
    rw [split, map_append, List.map_cons] at areas
    have moved : ((disk.insert library block free rest).keyTable.map Key.data).Perm
        (disk.used.map Key.data ++ free.data :: rest.map Key.data) := by
      rw [Disk.insert, map_append]
      refine ((perm.map Key.data).append_right _).trans (List.Perm.of_eq ?_)
      rw [map_append, List.append_assoc]
      rfl
    exact (moved.pairwise_iff Apart.symm).mpr areas

/-- The area of a new block has the fill pattern. -/
theorem Holds.insert (holds : Holds disk model) (none : ∀ key ∈ disk.used, key.block ≠ block) :
    Holds (disk.insert library block free rest) ⟨model.contents, block :: model.buffered⟩ := by
  have formed := holds.toWellFormed
  have unused : disk.keyTable.drop disk.usedCount = free :: rest := by
    rw [split, drop_left' formed.length_used]
  refine ⟨formed.insert split none, ?_, ?_, ?_, ?_⟩
  · rw [formed.drop_insert]
    intro key there off inside
    exact holds.fresh key (unused ▸ mem_cons_of_mem _ there) off inside
  · intro key there off inside
    rcases formed.mem_insert.mp there with old | rfl
    · exact holds.held key old off inside
    · refine (holds.fresh free (unused ▸ mem_cons_self) off inside).trans ?_
      exact (holds.absent block none off inside).symm
  · intro tested missing off inside
    exact holds.absent tested
      (fun key there => missing key (formed.mem_insert.mpr (.inl there))) off inside
  · rw [formed.used_insert]
    refine List.Perm.trans ?_ ((library.qsort_perm _).map Key.block).symm
    rw [map_append]
    exact (holds.buffered.cons block).trans (List.perm_append_singleton _ _).symm

end Insert

/-- The sizes and the fill pattern of a disk stay. -/
structure SameShape (before after : Disk) : Prop where
  size : after.mediaBlockSize = before.mediaBlockSize
  fill : after.fillPattern = before.fillPattern
  capacity : after.blocksWithBuffer = before.blocksWithBuffer

theorem Holds.mem_buffered (holds : Holds disk model) {block : UInt32} :
    block ∈ model.buffered ↔ ∃ key ∈ disk.used, key.block = block := by
  rw [holds.buffered.mem_iff, mem_map]

theorem Holds.length_buffered (holds : Holds disk model) :
    model.buffered.length = disk.usedCount := by
  rw [holds.buffered.length_eq, List.length_map, holds.length_used]

variable {fill : UInt8}

theorem any_ne_fill : bytes.any (· != fill) = true ↔ ∃ byte ∈ bytes, byte ≠ fill := by
  rw [List.any_eq_true]
  simp only [bne_iff_ne]

/-- What is equal to the fill pattern needs no buffer. -/
theorem Holds.accept_fill (holds : Holds disk model) {block : UInt32}
    (short : bytes.length ≤ disk.mediaBlockSize) (none : ∀ key ∈ disk.used, key.block ≠ block)
    (same : ¬ ∃ byte ∈ bytes, byte ≠ disk.fillPattern) :
    Holds disk (model.accept disk.fillPattern (block, bytes)) := by
  have unchanged : put model.contents block bytes = model.contents := by
    apply put_same
    intro off
    by_cases inside : off < bytes.length
    · rw [List.getD_eq_getElem _ _ inside,
        holds.absent block none off (Nat.lt_of_lt_of_le inside short)]
      by_contra other
      exact same ⟨_, List.getElem_mem inside, other⟩
    · exact List.getD_eq_default _ _ (Nat.le_of_not_lt inside)
  have kept : model.accept disk.fillPattern (block, bytes) = model := by
    rw [Model.accept, unchanged, if_neg fun both => same both.2]
  rw [kept]
  exact holds

theorem Model.accept_known {block : UInt32} (known : block ∈ model.buffered) :
    model.accept fill (block, bytes) =
      { model with contents := put model.contents block bytes } := by
  rw [Model.accept, if_neg fun both => both.1 known]

theorem Model.accept_new {block : UInt32} (unknown : block ∉ model.buffered)
    (needs : ∃ byte ∈ bytes, byte ≠ fill) :
    model.accept fill (block, bytes) = ⟨put model.contents block bytes, block :: model.buffered⟩ := by
  rw [Model.accept, if_pos ⟨unknown, needs⟩]

theorem writeBlock_spec (holds : Holds disk model) (block : UInt32) (buf : List UInt8) :
    if model.Refuses disk.blocksWithBuffer disk.fillPattern
        (block, buf.take disk.mediaBlockSize) then
      writeBlock library disk block buf = (disk, -1) else
      Holds (writeBlock library disk block buf).1
          (model.accept disk.fillPattern (block, buf.take disk.mediaBlockSize)) ∧
        (writeBlock library disk block buf).2 = toInt (min disk.mediaBlockSize buf.length) ∧
        SameShape disk (writeBlock library disk block buf).1 := by
  have short : (buf.take disk.mediaBlockSize).length ≤ disk.mediaBlockSize :=
    List.length_take_le _ _
  rw [writeBlock]
  rw [← List.take_eq_take_min]
  cases found : findBlock library disk block with
  | some key =>
    obtain ⟨there, rfl⟩ := findBlock_some holds.toWellFormed found
    have known := holds.mem_buffered.mpr ⟨key, there, rfl⟩
    rw [if_neg fun refused => refused.1 known, Model.accept_known known]
    refine ⟨holds.copy there short, ?_, ⟨rfl, rfl, rfl⟩⟩
    dsimp only
  | none =>
    have none := findBlock_none holds.toWellFormed found
    have unknown : block ∉ model.buffered := fun known => by
      obtain ⟨key, there, same⟩ := holds.mem_buffered.mp known
      exact none key there same
    by_cases needs : ∃ byte ∈ buf.take disk.mediaBlockSize, byte ≠ disk.fillPattern
    · rw [if_pos (any_ne_fill.mpr needs)]
      by_cases full : disk.blocksWithBuffer ≤ disk.usedCount
      · have refused : model.Refuses disk.blocksWithBuffer disk.fillPattern
            (block, buf.take disk.mediaBlockSize) :=
          ⟨unknown, needs, holds.length_buffered.symm ▸ full⟩
        rw [if_pos refused, getNewBlock, if_pos full]
      · have room := Nat.lt_of_not_le full
        obtain ⟨free, rest, split, allocated⟩ :=
          @getNewBlock_eq library disk holds.toWellFormed room block
        have inserted := @Holds.insert library disk model block free rest split holds none
        have there : ⟨block, free.data⟩ ∈ (disk.insert library block free rest).used :=
          holds.mem_insert.mpr (.inr rfl)
        have key : findBlock library (disk.insert library block free rest) block =
            some ⟨block, free.data⟩ := findBlock_of_mem inserted.toWellFormed there
        rw [if_neg fun refused => full (holds.length_buffered ▸ refused.2.2), allocated, key,
          Model.accept_new unknown needs]
        refine ⟨inserted.copy there short, ?_, ⟨rfl, rfl, rfl⟩⟩
        dsimp only
    · rw [if_neg fun any => needs (any_ne_fill.mp any), if_neg fun refused => needs refused.2.1]
      refine ⟨holds.accept_fill short none needs, ?_, ⟨rfl, rfl, rfl⟩⟩
      dsimp only

end Write

section Loops

section

variable {count : Nat} (small : count < 2 ^ 31)
include small

/-- A count below half of the range is its `int`. -/
theorem toInt_eq : toInt count = count := by
  have range : count < 2 ^ 32 := Nat.lt_trans small (by decide)
  rw [toInt, Nat.mod_eq_of_lt range, if_pos small]

theorem toInt_toNat : (toInt count).toNat = count := by
  rw [toInt_eq small, Int.toNat_natCast]

theorem toInt_nonneg : 0 ≤ toInt count := by
  rw [toInt_eq small]
  exact Int.natCast_nonneg count

end

/-- What the pieces of a buffer do. -/
structure Wrote (disk : Disk) (model : Model) (pieces : List Piece) (result : Disk × Int) :
    Prop where
  holds : Holds result.1 (model.write disk.blocksWithBuffer disk.fillPattern pieces).1
  status : 0 ≤ result.2 ↔
    (model.write disk.blocksWithBuffer disk.fillPattern pieces).2 = .successful
  shape : SameShape disk result.1

theorem Wrote.nothing (holds : Holds disk model) {rv : Int} (good : 0 ≤ rv) :
    Wrote disk model [] (disk, rv) :=
  ⟨holds, iff_of_true good rfl, ⟨rfl, rfl, rfl⟩⟩

/-- A buffer is written piece by piece. -/
theorem bufferLoop_write (holds : Holds disk model) (pos : 0 < disk.mediaBlockSize)
    {fuel : Nat} {block : UInt32} {buf : List UInt8} {rv : Int} (good : 0 ≤ rv)
    (enough : buf.length ≤ fuel) (small : min disk.mediaBlockSize buf.length < 2 ^ 31) :
    (bufferLoop library false fuel disk block buf rv).2.1 = buf ∧
      Wrote disk model (pieces disk.mediaBlockSize fuel block buf)
        ((bufferLoop library false fuel disk block buf rv).1,
          (bufferLoop library false fuel disk block buf rv).2.2) := by
  induction fuel generalizing disk model block buf rv with
  | zero => exact ⟨rfl, .nothing holds good⟩
  | succ fuel ih =>
    rw [bufferLoop, pieces]
    by_cases empty : buf = []
    · rw [empty, if_neg (fun both => Nat.lt_irrefl 0 both.2), if_pos rfl]
      exact ⟨rfl, .nothing holds good⟩
    · have some_bytes := List.length_pos_iff.mpr empty
      have written := @writeBlock_spec library disk model holds block buf
      rw [if_pos ⟨good, some_bytes⟩, if_neg empty, transfer, if_neg (by decide)]
      dsimp only
      by_cases refused : model.Refuses disk.blocksWithBuffer disk.fillPattern
          (block, buf.take disk.mediaBlockSize)
      · have stopped (fuel : Nat) (rest : List UInt8) :
            bufferLoop library false fuel disk (block + 1) rest (-1) = (disk, rest, -1) := by
          cases fuel with
          | zero => rfl
          | succ fuel => rw [bufferLoop, if_neg fun both => absurd both.1 (by decide)]
        rw [if_pos refused] at written
        rw [written, stopped]
        refine ⟨take_append_drop _ _, ?_⟩
        have unchanged : model.write disk.blocksWithBuffer disk.fillPattern
            ((block, buf.take disk.mediaBlockSize) ::
              pieces disk.mediaBlockSize fuel (block + 1) (buf.drop disk.mediaBlockSize)) =
            (model, .ioError) := by
          rw [Model.write, if_pos refused]
        refine ⟨?_, ?_, ⟨rfl, rfl, rfl⟩⟩
        · rw [unchanged]
          exact holds
        · rw [unchanged]
          have negative : ¬ (0 : Int) ≤ -1 := by decide
          exact iff_of_false negative (by rintro ⟨⟩)
      · rw [if_neg refused] at written
        obtain ⟨next, count, shape⟩ := written
        rw [count, toInt_toNat small, ← List.take_eq_take_min, ← List.drop_eq_drop_min]
        have less : (buf.drop disk.mediaBlockSize).length ≤ fuel := by
          rw [length_drop]
          omega
        have smaller : min (writeBlock library disk block buf).1.mediaBlockSize
            (buf.drop disk.mediaBlockSize).length < 2 ^ 31 := by
          rw [shape.size, length_drop]
          omega
        obtain ⟨same, rest⟩ := @ih _ _ next (shape.size.symm ▸ pos)
          (block + 1) _ _ (toInt_nonneg small) less smaller
        have accepted : model.write disk.blocksWithBuffer disk.fillPattern
            ((block, buf.take disk.mediaBlockSize) ::
              pieces disk.mediaBlockSize fuel (block + 1) (buf.drop disk.mediaBlockSize)) =
            (model.accept disk.fillPattern (block, buf.take disk.mediaBlockSize)).write
              disk.blocksWithBuffer disk.fillPattern
              (pieces disk.mediaBlockSize fuel (block + 1) (buf.drop disk.mediaBlockSize)) := by
          rw [Model.write, if_neg refused]
        constructor
        · rw [same, take_append_drop]
        · obtain ⟨later, status, kept⟩ := rest
          rw [shape.size, shape.fill, shape.capacity] at later status
          refine ⟨?_, ?_, ?_⟩
          · rw [accepted]
            exact later
          · rw [accepted]
            exact status
          · exact ⟨kept.size.trans shape.size, kept.fill.trans shape.fill,
              kept.capacity.trans shape.capacity⟩

/-- The pieces of all buffers of a request. -/
def requestPieces (size : Nat) (bufs : List SgBuffer) : List Piece :=
  bufs.flatMap fun sg => pieces size sg.buffer.length sg.block sg.buffer

/-- Every piece has a length that fits into an `int`. -/
def Fits (size : Nat) (bufs : List SgBuffer) : Prop :=
  ∀ sg ∈ bufs, min size sg.buffer.length < 2 ^ 31
deriving Decidable

/-- All buffers of a request are written, up to the first piece that is refused. -/
theorem requestLoop_write (holds : Holds disk model) (pos : 0 < disk.mediaBlockSize)
    {bufs : List SgBuffer} {rv : Int} (good : 0 ≤ rv) (fits : Fits disk.mediaBlockSize bufs) :
    (requestLoop library false disk bufs rv).2.1 = bufs ∧
      Wrote disk model (requestPieces disk.mediaBlockSize bufs)
        ((requestLoop library false disk bufs rv).1, (requestLoop library false disk bufs rv).2.2) := by
  induction bufs generalizing disk model rv with
  | nil => exact ⟨rfl, .nothing holds good⟩
  | cons sg rest ih =>
    obtain ⟨same, wrote⟩ := @bufferLoop_write library disk model holds pos _ sg.block
      sg.buffer rv good (Nat.le_refl _) (fits sg mem_cons_self)
    obtain ⟨later, status, shape⟩ := wrote
    rw [requestLoop, if_pos good]
    dsimp only at later status shape ⊢
    rw [same]
    generalize bufferLoop library false sg.buffer.length disk sg.block sg.buffer rv = done
      at later status shape
    have split : requestPieces disk.mediaBlockSize (sg :: rest) =
        pieces disk.mediaBlockSize sg.buffer.length sg.block sg.buffer ++
          requestPieces disk.mediaBlockSize rest := List.flatMap_cons
    have both := Model.write_append disk.blocksWithBuffer disk.fillPattern model
      (pieces disk.mediaBlockSize sg.buffer.length sg.block sg.buffer)
      (requestPieces disk.mediaBlockSize rest)
    rw [← split] at both
    by_cases fine : 0 ≤ done.2.2
    · have rest_fits : Fits done.1.mediaBlockSize rest := by
        rw [shape.size]
        exact fun sg there => fits sg (mem_cons_of_mem _ there)
      obtain ⟨kept, more⟩ := ih later (shape.size.symm ▸ pos) fine rest_fits
      obtain ⟨final, finalStatus, finalShape⟩ := more
      rw [shape.size, shape.fill, shape.capacity] at final finalStatus
      rw [if_pos (status.mp fine)] at both
      rw [kept]
      refine ⟨rfl, ?_, ?_, ?_⟩
      · rw [both]
        exact final
      · rw [both]
        exact finalStatus
      · exact ⟨finalShape.size.trans shape.size, finalShape.fill.trans shape.fill,
          finalShape.capacity.trans shape.capacity⟩
    · have stopped : requestLoop library false done.1 rest done.2.2 = (done.1, rest, done.2.2) := by
        cases rest with
        | nil => rfl
        | cons next rest => rw [requestLoop, if_neg fine]
      rw [if_neg fun success => fine (status.mpr success)] at both
      rw [stopped]
      refine ⟨rfl, ?_, ?_, shape⟩
      · rw [both]
        exact later
      · rw [both]
        exact status

theorem readBlock_spec (holds : Holds disk model) (block : UInt32) (buf : List UInt8) :
    ∃ rest, readBlock library disk block buf =
        (get model.contents block (min disk.mediaBlockSize buf.length) ++ rest,
          toInt (min disk.mediaBlockSize buf.length)) ∧
      rest.length = buf.length - disk.mediaBlockSize := by
  have count : min disk.mediaBlockSize buf.length ≤ disk.mediaBlockSize := Nat.min_le_left _ _
  rw [readBlock]
  cases found : findBlock library disk block with
  | some key =>
    obtain ⟨there, rfl⟩ := findBlock_some holds.toWellFormed found
    have copied : copyFrom disk.memory key.data (min disk.mediaBlockSize buf.length) =
        get model.contents key.block (min disk.mediaBlockSize buf.length) := by
      refine List.map_congr_left fun off inside => ?_
      exact holds.held key there off (Nat.lt_of_lt_of_le (mem_range.mp inside) count)
    refine ⟨buf.drop (min disk.mediaBlockSize buf.length), ?_, ?_⟩
    · dsimp only
      rw [copied]
    · rw [length_drop]
      omega
  | none =>
    have none := findBlock_none holds.toWellFormed found
    have filled : get model.contents block (min disk.mediaBlockSize buf.length) =
        replicate (min disk.mediaBlockSize buf.length) disk.fillPattern := by
      refine List.eq_replicate_iff.mpr ⟨length_get _, fun byte there => ?_⟩
      obtain ⟨off, inside, rfl⟩ := mem_map.mp there
      exact holds.absent block none off (Nat.lt_of_lt_of_le (mem_range.mp inside) count)
    refine ⟨replicate (buf.length - disk.mediaBlockSize) disk.fillPattern, ?_,
      List.length_replicate⟩
    dsimp only
    rw [filled, List.replicate_append_replicate]
    congr 2
    omega

/-- The bytes of the first block, and those of the following ones. -/
theorem Model.read_split {size : Nat} (pos : 0 < size) (block : UInt32) (count : Nat) :
    model.read size block count =
      get model.contents block (min size count) ++ model.read size (block + 1) (count - size) := by
  have total : count = min size count + (count - size) := by omega
  rw [Model.read]
  conv_lhs => rw [total, List.range_add, map_append, map_map]
  congr 1
  · refine List.map_congr_left fun position inside => ?_
    have small : position < size := by
      have below := mem_range.mp inside
      omega
    rw [Nat.div_eq_of_lt small, Nat.mod_eq_of_lt small]
    exact congrArg (fun block => model.contents block position) (UInt32.add_zero block)
  · refine List.map_congr_left fun position inside => ?_
    have later := mem_range.mp inside
    have first : min size count = size := by omega
    rw [Function.comp_apply, first, Nat.add_div_left _ pos, Nat.add_mod_left]
    congr 1
    rw [UInt32.ofNat_add, UInt32.add_comm (UInt32.ofNat _), ← UInt32.add_assoc]
    rfl

theorem bufferLoop_read (holds : Holds disk model) (pos : 0 < disk.mediaBlockSize)
    {fuel : Nat} {block : UInt32} {buf : List UInt8} {rv : Int} (good : 0 ≤ rv)
    (enough : buf.length ≤ fuel) (small : min disk.mediaBlockSize buf.length < 2 ^ 31) :
    ∃ res, 0 ≤ res ∧ bufferLoop library true fuel disk block buf rv =
      (disk, model.read disk.mediaBlockSize block buf.length, res) := by
  induction fuel generalizing block buf rv with
  | zero =>
    obtain rfl := List.eq_nil_of_length_eq_zero (Nat.le_zero.mp enough)
    exact ⟨rv, good, rfl⟩
  | succ fuel ih =>
    rw [bufferLoop]
    by_cases empty : buf = []
    · rw [empty, if_neg (fun both => Nat.lt_irrefl 0 both.2)]
      exact ⟨rv, good, rfl⟩
    · have some_bytes := List.length_pos_iff.mpr empty
      obtain ⟨rest, blockRead, length⟩ := @readBlock_spec library disk model holds block buf
      rw [if_pos ⟨good, some_bytes⟩, transfer, if_pos rfl]
      dsimp only
      rw [blockRead]
      rw [toInt_toNat small, List.take_left' (length_get _), drop_left' (length_get _)]
      have less : rest.length ≤ fuel := by omega
      have smaller : min disk.mediaBlockSize rest.length < 2 ^ 31 := by omega
      obtain ⟨res, fine, looped⟩ := @ih (block + 1) rest _ (toInt_nonneg small) less smaller
      refine ⟨res, fine, ?_⟩
      rw [looped, length]
      rw [← Model.read_split pos]

theorem requestLoop_read (holds : Holds disk model) (pos : 0 < disk.mediaBlockSize)
    {bufs : List SgBuffer} {rv : Int} (good : 0 ≤ rv) (fits : Fits disk.mediaBlockSize bufs) :
    ∃ res, 0 ≤ res ∧ requestLoop library true disk bufs rv = (disk, bufs.map fun sg =>
        ⟨sg.block, model.read disk.mediaBlockSize sg.block sg.buffer.length⟩, res) := by
  induction bufs generalizing rv with
  | nil => exact ⟨rv, good, rfl⟩
  | cons sg rest ih =>
    obtain ⟨middle, fine, looped⟩ := @bufferLoop_read library disk model holds pos _ sg.block
      sg.buffer rv good (Nat.le_refl _) (fits sg mem_cons_self)
    obtain ⟨res, final, later⟩ := ih fine fun sg there => fits sg (mem_cons_of_mem _ there)
    refine ⟨res, final, ?_⟩
    rw [requestLoop, if_pos good, looped]
    dsimp only
    rw [later]
    rfl

end Loops

section Run

/-- A request is served as by the array of blocks. -/
theorem readWrite_spec (holds : Holds disk model) (pos : 0 < disk.mediaBlockSize)
    {request : Request} (fits : Fits disk.mediaBlockSize request.bufs) :
    Holds (readWrite library disk request).1
        (model.serve disk.mediaBlockSize disk.blocksWithBuffer disk.fillPattern request).1 ∧
      (readWrite library disk request).2 =
        (model.serve disk.mediaBlockSize disk.blocksWithBuffer disk.fillPattern request).2 ∧
      SameShape disk (readWrite library disk request).1 := by
  obtain ⟨read, bufs⟩ := request
  rw [readWrite, Model.serve]
  dsimp only at fits ⊢
  cases read with
  | true =>
    obtain ⟨res, fine, looped⟩ := @requestLoop_read library disk model holds pos bufs 0
      (Int.le_refl 0) fits
    rw [looped, if_pos rfl]
    rw [if_neg (Int.not_lt.mpr fine)]
    exact ⟨holds, rfl, ⟨rfl, rfl, rfl⟩⟩
  | false =>
    obtain ⟨same, later, status, shape⟩ := @requestLoop_write library disk model holds pos
      bufs 0 (Int.le_refl 0) fits
    refine ⟨later, ?_, shape⟩
    congr 1
    by_cases fine : 0 ≤ (requestLoop library false disk bufs 0).2.2
    · rw [if_neg (Int.not_lt.mpr fine)]
      exact (status.mp fine).symm
    · rw [if_pos (Int.not_le.mp fine)]
      cases written : (model.write disk.blocksWithBuffer disk.fillPattern
          (requestPieces disk.mediaBlockSize bufs)).2 with
      | successful => exact absurd (status.mpr written) fine
      | ioError => exact written.symm

/-- Requests are served as by the array of blocks. -/
theorem run_spec (holds : Holds disk model) (pos : 0 < disk.mediaBlockSize)
    {requests : List Request} (fits : ∀ request ∈ requests, Fits disk.mediaBlockSize request.bufs) :
    Holds (run library disk requests).1
        (model.serveAll disk.mediaBlockSize disk.blocksWithBuffer disk.fillPattern requests).1 ∧
      (run library disk requests).2 =
        (model.serveAll disk.mediaBlockSize disk.blocksWithBuffer disk.fillPattern requests).2 := by
  induction requests generalizing disk model with
  | nil => exact ⟨holds, rfl⟩
  | cons request rest ih =>
    obtain ⟨next, reply, shape⟩ := @readWrite_spec library disk model holds pos request
      (fits request mem_cons_self)
    have later : ∀ other ∈ rest,
        Fits (readWrite library disk request).1.mediaBlockSize other.bufs := by
      rw [shape.size]
      exact fun other there => fits other (mem_cons_of_mem _ there)
    obtain ⟨final, replies⟩ := ih next (shape.size.symm ▸ pos) later
    rw [shape.size, shape.fill, shape.capacity] at final replies
    refine ⟨final, ?_⟩
    rw [run, Model.serveAll]
    rw [reply, replies]

/-- The areas of a new disk hold the fill pattern if their size fits into 32 bits. -/
theorem sparseDiskInitialize_holds {mediaBlockSize blocksWithBuffer : Nat}
    (product : blocksWithBuffer * mediaBlockSize < 2 ^ 32) (fill : UInt8) (memory : Nat → UInt8) :
    Holds (sparseDiskInitialize mediaBlockSize blocksWithBuffer fill memory) (.blank fill) := by
  constructor
  · constructor
    · rw [sparseDiskInitialize, List.length_map, List.length_range]
    · exact Nat.zero_le _
    · exact .nil
    · rw [sparseDiskInitialize, map_map, pairwise_map]
      refine List.pairwise_lt_range.imp fun less => .inl ?_
      exact (Nat.succ_mul _ _).symm.le.trans (Nat.mul_le_mul_right _ less)
  · intro key there off inside
    obtain ⟨i, below, rfl⟩ := mem_map.mp there
    have last : i * mediaBlockSize + mediaBlockSize ≤ blocksWithBuffer * mediaBlockSize :=
      (Nat.succ_mul _ _).symm.le.trans (Nat.mul_le_mul_right _ (mem_range.mp below))
    rw [sparseDiskInitialize]
    dsimp only at inside ⊢
    rw [Nat.mod_eq_of_lt product, if_pos (Nat.lt_of_lt_of_le (Nat.add_lt_add_left inside _) last)]
  · intro key none
    cases none
  · intro block none off inside
    rfl
  · exact .nil

/-- A sparse disk serves every sequence of requests as an array of blocks does, if the size of
its data areas fits into 32 bits and every piece fits into an `int`. -/
theorem sparse_disk_serves_as_block_array (library : Library)
    {mediaBlockSize blocksWithBuffer : Nat} (positive : 0 < mediaBlockSize)
    (product : blocksWithBuffer * mediaBlockSize < 2 ^ 32) (fill : UInt8) (memory : Nat → UInt8)
    (requests : List Request) (fits : ∀ request ∈ requests, Fits mediaBlockSize request.bufs) :
    Holds (run library (sparseDiskInitialize mediaBlockSize blocksWithBuffer fill memory)
        requests).1 ((Model.blank fill).serveAll mediaBlockSize blocksWithBuffer fill requests).1 ∧
    (run library (sparseDiskInitialize mediaBlockSize blocksWithBuffer fill memory) requests).2 =
      ((Model.blank fill).serveAll mediaBlockSize blocksWithBuffer fill requests).2 :=
  run_spec (sparseDiskInitialize_holds product fill memory) positive fits

/-- A library with an insertion sort and a linear search. -/
def plainLibrary : Library where
  qsort := List.insertionSort fun first second => first.block ≤ second.block
  qsort_perm := List.perm_insertionSort _
  qsort_ordered keys := by
    have total : Std.Total fun first second : Key => first.block ≤ second.block :=
      ⟨fun first second => UInt32.le_total first.block second.block⟩
    have transitive : IsTrans Key fun first second => first.block ≤ second.block :=
      ⟨fun _ _ _ => UInt32.le_trans⟩
    exact List.pairwise_insertionSort _ keys
  bsearch block keys := keys.findIdx? fun key => key.block = block
  bsearch_some := by
    intro block keys place _ found
    obtain ⟨inside, same, _⟩ := List.findIdx?_eq_some_iff_getElem.mp found
    exact ⟨keys[place], List.getElem?_eq_getElem inside, of_decide_eq_true same⟩
  bsearch_none := by
    intro block keys _ found key there
    exact of_decide_eq_false (List.findIdx?_eq_none_iff.mp found key there)

/-- A part of a block is written, and the block is read. -/
def partialWrite (bytes : List UInt8) (count : Nat) : List Request :=
  [⟨false, [⟨5, bytes⟩]⟩, ⟨true, [⟨5, replicate count 0⟩]⟩]

theorem sparse_disk_serves_as_block_array_partial :
    (run plainLibrary (sparseDiskInitialize 4 2 255 fun _ => 0) (partialWrite [1, 2, 3] 4)).2 =
      [([⟨5, [1, 2, 3]⟩], .successful), ([⟨5, [1, 2, 3, 255]⟩], .successful)] :=
  (sparse_disk_serves_as_block_array plainLibrary (by decide) (by decide) 255 (fun _ => 0)
    (partialWrite [1, 2, 3] 4) (by decide)).2.trans (by decide +kernel)

/-- With four buffers of a gibibyte the size of the data areas is zero in 32 bits. The rest of a
block that was written in part is what was in the memory before. -/
theorem large_areas_lack_fill_pattern :
    (run plainLibrary (sparseDiskInitialize (2 ^ 30) 4 0 fun _ => 85) (partialWrite [7] 2)).2 ≠
      ((Model.blank 0).serveAll (2 ^ 30) 4 0 (partialWrite [7] 2)).2 := by
  decide +kernel

end Run

end Rtems.Block.SparseDisk
