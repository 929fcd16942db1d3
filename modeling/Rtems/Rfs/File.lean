import Mathlib.Algebra.Order.BigOperators.Group.List
import Rtems.Library.Paged
import Rtems.Library.Transition

/-!
# Regular files

A file is a list of blocks with a size. The size is kept as the number of blocks and an
offset into the last one, where offset zero stands for a full block. An open file has a
position of its own beside the offset of the file descriptor; reads and writes go block
by block from that position, and what is written behind the end makes the file longer.

Allocations and requests of buffers succeed. What a buffer holds that was requested
without reading its block is not known.
-/

namespace Rtems.Rfs.File

open Paged
open Transition
open Function (update update_of_ne update_self)
open List (append_assoc append_nil drop_drop length_append length_drop length_take replicate
  take_length take_nil take_zero)
open Nat (div_add_mod' mod_lt succ_mul)
open Option (getD_some some_ne_none)

/-- The part of `rtems_rfs_file_system` for files. -/
structure FileSystem where
  blockSize : Nat
  positive : 0 < blockSize
  narrow : blockSize < 2 ^ 32

/-- What the calls get from outside, by the round of a loop: the blocks that are
allocated, which are not in the map, and the contents of buffers that are not read. -/
structure Supply where
  next : Nat → List Nat → Nat
  noise : Nat → Nat → UInt8
  fresh : ∀ round blocks, next round blocks ∉ blocks

/-- An open file: the blocks and the size offset of its map with the position of the last
search, the size in the shared part, the position and the buffer of the handle, the
offset and the append flag of the descriptor, and the contents of all blocks. -/
structure State where
  blocks : List Nat
  offset : Nat
  mapBno : Nat
  mapBoff : Nat
  sizeCount : Nat
  sizeOffset : Nat
  bno : Nat
  boff : Nat
  buffer : Option Nat
  position : Nat
  append : Bool
  media : Nat → Nat → UInt8

section

variable (fs : FileSystem) (file : State)

/-- `rtems_rfs_file_size`. -/
def fileSize : Nat :=
  if file.sizeCount = 0 then 0
  else (file.sizeCount - 1) * fs.blockSize +
    if file.sizeOffset = 0 then fs.blockSize else file.sizeOffset

/-- `rtems_rfs_block_pos_past_end`. -/
def posPastEnd (bno boff count offset : Nat) : Prop :=
  bno ≠ 0 ∧ count = 0 ∨ count ≤ bno ∨ bno = count - 1 ∧ offset < boff
deriving Decidable

/-- The block of `rtems_rfs_block_size_get_bpos`. -/
def sizeBno (count offset : Nat) : Nat := if offset = 0 then count else count - 1

/-- `rtems_rfs_buffer_handle_request`. -/
def request (file : State) (block : Nat) (read : Bool) (noise : Nat → UInt8) : State :=
  if file.buffer = some block then file
  else
    { file with
      buffer := some block
      media := if read = true then file.media else update file.media block noise }

/-- Write bytes to a block. -/
def putBytes (file : State) (block place : Nat) (bytes : List UInt8) : State :=
  { file with
    media := update file.media block fun index =>
      if place ≤ index ∧ index < place + bytes.length then bytes.getD (index - place) 0
      else file.media block index }

/-- The bytes of a block from a place on. -/
def getBytes (file : State) (block place count : Nat) : List UInt8 :=
  (List.range count).map fun index => file.media block (place + index)

/-- The buffer of `rtems_rfs_file_io_start`. A read at the end of the file has none. -/
def ioBuffer (fs : FileSystem) (supply : Supply) (round : Nat) (file : State) (available : Nat)
    (read : Bool) : Option State :=
  if file.buffer = none then
    match file.blocks[file.bno]? with
    | none =>
      if read = true then none
      else
        let block := supply.next round file.blocks
        some (request { file with blocks := file.blocks ++ [block], offset := 0 } block false
          (supply.noise round))
    | some block =>
      let requestRead := read || decide (file.boff ≠ 0) || decide (available < fs.blockSize)
      some (request { file with mapBno := file.bno, mapBoff := file.boff } block requestRead
        (supply.noise round))
  else some file

/-- The size that is available from the position to the end of the block or of the file.
The difference is one of 32-bit numbers. -/
def ioAvailable (read : Bool) : Nat :=
  let last := file.mapBno = 0 ∧ file.blocks.length = 0 ∨ file.mapBno = file.blocks.length - 1
  let size := if read = true ∧ last ∧ file.offset ≠ 0 then file.offset else fs.blockSize
  (size + 2 ^ 32 - file.boff) % 2 ^ 32

/-- `rtems_rfs_file_io_start`. -/
def ioStart (fs : FileSystem) (supply : Supply) (round : Nat) (file : State) (available : Nat)
    (read : Bool) : Nat × State :=
  match ioBuffer fs supply round file available read with
  | none => (0, file)
  | some file => (ioAvailable fs file read, file)

/-- The new position of `rtems_rfs_file_io_end`. -/
def advance (size : Nat) : State :=
  let boff := file.boff + size
  if fs.blockSize ≤ boff then
    { file with buffer := none, bno := file.bno + 1, boff := boff - fs.blockSize }
  else { file with buffer := none, boff := boff }

/-- `rtems_rfs_file_io_end`. The buffer is released. -/
def ioEnd (size : Nat) (read : Bool) : State :=
  let file := advance fs file size
  if read = false ∧ posPastEnd file.bno file.boff file.blocks.length file.offset then
    { file with
      offset := file.boff
      sizeCount := file.blocks.length
      sizeOffset := file.boff }
  else file

/-- The loop of `rtems_rfs_rtems_file_read`. -/
def readLoop (fs : FileSystem) (supply : Supply) : Nat → State → Nat → List UInt8 × State
  | 0, file, _ => ([], file)
  | rounds + 1, file, count =>
    if count = 0 then ([], file)
    else
      let (available, file) := ioStart fs supply rounds file count true
      if available = 0 then ([], file)
      else
        let size := min available count
        let data := getBytes file (file.buffer.getD 0) file.boff size
        let rest := readLoop fs supply rounds (ioEnd fs file size true) (count - size)
        (data ++ rest.1, rest.2)

/-- `rtems_rfs_rtems_file_read`. -/
def fileRead (fs : FileSystem) (supply : Supply) (file : State) (count : Nat) :
    List UInt8 × State :=
  if file.position < fileSize fs file then
    let (data, next) := readLoop fs supply count file count
    (data, { next with position := file.position + data.length })
  else ([], file)

/-- The loop of `rtems_rfs_rtems_file_write`. -/
def writeLoop (fs : FileSystem) (supply : Supply) : Nat → State → List UInt8 → State
  | 0, file, _ => file
  | rounds + 1, file, data =>
    if data = [] then file
    else
      let (available, file) := ioStart fs supply rounds file data.length false
      let size := min available data.length
      let file := putBytes file (file.buffer.getD 0) file.boff (data.take size)
      writeLoop fs supply rounds (ioEnd fs file size false) (data.drop size)

/-- Where the zeros in a block of a file that is made longer end. -/
def fillLength (fs : FileSystem) (boff count : Nat) : Nat :=
  if count < fs.blockSize - boff then count + boff else fs.blockSize

/-- The end of a round of the loop of `rtems_rfs_file_set_size`: the block is filled with
zeros. It is read only if it is not filled up to its end. -/
def fill (fs : FileSystem) (supply : Supply) (round : Nat) (file : State) (block boff count : Nat) :
    State :=
  let length := fillLength fs boff count
  let short := decide (count < fs.blockSize - boff)
  let file := { file with offset := if short = true then length else 0 }
  let file := request file block short (supply.noise round)
  let file := putBytes file block boff (replicate (length - boff) 0)
  { file with buffer := none }

/-- A round of the loop of `rtems_rfs_file_set_size` that makes a file longer: the block
at the end is filled, and the count that is left is returned. -/
def growRound (fs : FileSystem) (supply : Supply) (round : Nat) (file : State) (count : Nat) :
    Nat × State :=
  let bno := sizeBno file.blocks.length file.offset
  let boff := file.offset
  let (block, file) :=
    match file.blocks[bno]? with
    | some block => (block, { file with mapBno := bno, mapBoff := boff })
    | none =>
      let block := supply.next round file.blocks
      (block, { file with blocks := file.blocks ++ [block], offset := 0 })
  (count - (fillLength fs boff count - boff), fill fs supply round file block boff count)

/-- The loop of `rtems_rfs_file_set_size` that makes a file longer. -/
def growLoop (fs : FileSystem) (supply : Supply) : Nat → State → Nat → State
  | 0, file, _ => file
  | rounds + 1, file, count =>
    if count = 0 then file
    else
      let (left, file) := growRound fs supply rounds file count
      growLoop fs supply rounds file left

/-- `rtems_rfs_block_map_shrink`. -/
def mapShrink (file : State) (blocks : Nat) : State :=
  if file.blocks.length = 0 then file
  else
    let count := file.blocks.length - blocks
    let file := { file with blocks := file.blocks.take count, offset := 0 }
    if posPastEnd file.mapBno file.mapBoff file.blocks.length 0 then
      { file with mapBno := file.blocks.length, mapBoff := 0 }
    else file

/-- The part of `rtems_rfs_file_set_size` that makes a file shorter. -/
def shrinkFile (newSize : Nat) : State :=
  let blocks := file.blocks.length - ((newSize - 1) / fs.blockSize + 1)
  let file := if blocks = 0 then file else mapShrink file blocks
  let file := { file with offset := newSize % fs.blockSize }
  if posPastEnd file.bno file.boff file.blocks.length file.offset then
    { file with bno := sizeBno file.blocks.length file.offset, boff := file.offset }
  else file

/-- `rtems_rfs_file_set_size`. -/
def setSize (fs : FileSystem) (supply : Supply) (file : State) (newSize : Nat) : State :=
  let size := fileSize fs file
  if size = newSize then file
  else
    let file :=
      if newSize = 0 then mapShrink file file.blocks.length
      else if size < newSize then growLoop fs supply (newSize - size) file (newSize - size)
      else shrinkFile fs file newSize
    { file with sizeCount := file.blocks.length, sizeOffset := file.offset }

/-- `rtems_rfs_file_seek`, with whether it succeeds. -/
def fileSeek (pos : Nat) : Bool × State :=
  if pos ≤ fileSize fs file then
    let file := { file with bno := pos / fs.blockSize, boff := pos % fs.blockSize }
    match file.buffer with
    | none => (true, file)
    | some attached =>
      match file.blocks[file.bno]? with
      | none => (false, file)
      | some block =>
        let file := { file with mapBno := file.bno, mapBoff := file.boff }
        (true, if attached = block then file else { file with buffer := none })
  else (true, { file with buffer := none })

/-- `rtems_rfs_rtems_file_lseek` to an offset. -/
def fileLseek (pos : Nat) : Bool × State :=
  let (done, next) := fileSeek fs file pos
  (done, { next with position := if done = true then pos else file.position })

/-- The position that `rtems_rfs_rtems_file_write` writes at, once the file reaches up to
it. -/
def writeStart (fs : FileSystem) (supply : Supply) (file : State) : Option (Nat × State) :=
  let size := fileSize fs file
  if size < file.position then
    let next := setSize fs supply file file.position
    some (file.position, { next with
      bno := file.position / fs.blockSize
      boff := file.position % fs.blockSize })
  else if file.position < size ∧ file.append = true then
    match fileSeek fs file size with
    | (true, next) => some (size, next)
    | (false, _) => none
  else some (file.position, file)

/-- `rtems_rfs_rtems_file_write`. An append that cannot seek to the end fails. -/
def fileWrite (fs : FileSystem) (supply : Supply) (file : State) (data : List UInt8) :
    Bool × State :=
  match writeStart fs supply file with
  | none => (false, (fileSeek fs file (fileSize fs file)).2)
  | some (pos, next) =>
    (true, { writeLoop fs supply data.length next data with position := pos + data.length })

/-- The calls on one open file. -/
inductive Operation where
  | read (count : Nat)
  | write (data : List UInt8)
  | lseek (pos : Nat)
  | ftruncate (newSize : Nat)

/-- Bytes with zeros behind them up to a size. -/
def extend (bytes : List UInt8) (size : Nat) : List UInt8 :=
  bytes ++ replicate (size - bytes.length) 0

/-- Bytes with others in their place from a position on. -/
def overwrite (bytes : List UInt8) (pos : Nat) (data : List UInt8) : List UInt8 :=
  bytes.take pos ++ data ++ bytes.drop (pos + data.length)

/-- An open file with the bytes that it should have. -/
structure Tracked where
  file : State
  bytes : List UInt8

/-- The position of a write. -/
def writePosition (file : State) (size : Nat) : Nat :=
  if file.position < size ∧ file.append = true then size else file.position

/-- A call, and what it should make of the bytes. -/
def step (fs : FileSystem) (tracked : Tracked) : Operation × Supply → Option Tracked
  | (.read count, supply) => some ⟨(fileRead fs supply tracked.file count).2, tracked.bytes⟩
  | (.write data, supply) =>
    let pos := writePosition tracked.file tracked.bytes.length
    some ⟨(fileWrite fs supply tracked.file data).2,
      overwrite (extend tracked.bytes pos) pos data⟩
  | (.lseek pos, _) => some ⟨(fileLseek fs tracked.file pos).2, tracked.bytes⟩
  | (.ftruncate newSize, supply) =>
    some ⟨setSize fs supply tracked.file newSize, (extend tracked.bytes newSize).take newSize⟩

/-- A file that was opened: its blocks hold its bytes, and the handle is at its start. -/
structure Initial (fs : FileSystem) (tracked : Tracked) : Prop where
  stored : Stored tracked.file.media fs.blockSize tracked.bytes tracked.file.blocks
  nodup : tracked.file.blocks.Nodup
  size : tracked.file.offset = tracked.bytes.length % fs.blockSize ∧
    tracked.file.sizeCount = tracked.file.blocks.length ∧
    tracked.file.sizeOffset = tracked.file.offset
  position : tracked.file.bno = 0 ∧ tracked.file.boff = 0
  buffer : tracked.file.buffer = none

/-- The position of the handle is a given one. -/
def At (pos : Nat) : Prop := file.bno = pos / fs.blockSize ∧ file.boff = pos % fs.blockSize
deriving Decidable

/-- A file of this size is made longer without losing bytes: the last block is full, or
the new end is inside it, or its buffer is held by the handle. -/
def Growable (newSize : Nat) : Prop :=
  let size := fileSize fs file
  size % fs.blockSize = 0 ∨ newSize < (size / fs.blockSize + 1) * fs.blockSize ∨
    file.buffer = file.blocks.getLast?
deriving Decidable

/-- A write does not end inside of a full last block. -/
def EndsOutside (fs : FileSystem) (size finish : Nat) : Prop :=
  ¬ (size % fs.blockSize = 0 ∧ finish < size ∧ size < finish + fs.blockSize)
deriving Decidable

/-- A write behind the end makes the file longer only as it can be. Another one that does
not append is made where the position of the handle is that of the descriptor, not with
the buffer of another block, and does not end inside of a full last block. -/
def CarefulWrite (data : List UInt8) : Prop :=
  if fileSize fs file < file.position then Growable fs file file.position
  else if file.position < fileSize fs file ∧ file.append = true then True
  else data ≠ [] → At fs file file.position ∧
    (file.buffer = none ∨ file.buffer = file.blocks[file.bno]?) ∧
    EndsOutside fs (fileSize fs file) (file.position + data.length)
deriving Decidable

/-- A call is made where the position of the handle is that of the descriptor, and a file
is made longer only as it can be. -/
def Careful (fs : FileSystem) (tracked : Tracked) : Operation × Supply → Prop
  | (.read count, _) => 0 < count → tracked.file.position < fileSize fs tracked.file →
      At fs tracked.file tracked.file.position
  | (.write data, _) => CarefulWrite fs tracked.file data
  | (.lseek _, _) => True
  | (.ftruncate newSize, _) =>
    fileSize fs tracked.file < newSize → Growable fs tracked.file newSize

/-- The blocks of a file hold its bytes. -/
structure Core (fs : FileSystem) (file : State) (bytes : List UInt8) : Prop where
  stored : Stored file.media fs.blockSize bytes file.blocks
  nodup : file.blocks.Nodup
  offset : file.offset = bytes.length % fs.blockSize
  boff : file.boff < fs.blockSize

/-- A buffer of the handle is that of the last block, which is not full, and the map was
searched there last. -/
def Held (bytes : List UInt8) : Prop :=
  ∀ block, file.buffer = some block → file.blocks[file.bno]? = some block ∧
    file.bno + 1 = file.blocks.length ∧ file.mapBno = file.bno ∧ bytes.length % fs.blockSize ≠ 0

/-- A buffer of the handle is that of a block that is no longer in the map. -/
def Stale (file : State) (bytes : List UInt8) : Prop :=
  ∀ block, file.buffer = some block → block ∉ file.blocks ∧ bytes.length ≤ file.position

/-- The offset of the descriptor is not before the block of a buffer that is held, and not
before the end if the block is no longer in the map. -/
def Attached (bytes : List UInt8) : Prop :=
  Held fs file bytes ∧ (file.buffer ≠ none → file.bno * fs.blockSize ≤ file.position) ∨
    Stale file bytes

end

/-- The shared size is that of the map. -/
structure Sized (fs : FileSystem) (file : State) (bytes : List UInt8) : Prop extends
    Core fs file bytes where
  sizeCount : file.sizeCount = file.blocks.length
  sizeOffset : file.sizeOffset = file.offset

/-- What holds between the calls. -/
structure Sound (fs : FileSystem) (file : State) (bytes : List UInt8) : Prop extends
    Sized fs file bytes where
  buffer : Attached fs file bytes

variable {fs : FileSystem} {file : State} {bytes : List UInt8}

/-- Without a buffer there is nothing to hold. -/
theorem Held.free (none : file.buffer = none) : Held fs file bytes := by
  intro block attached
  rw [none] at attached
  cases attached

theorem Attached.free (none : file.buffer = none) : Attached fs file bytes :=
  .inl ⟨.free none, fun attached => absurd none attached⟩

/-- The number of blocks in terms of the size. -/
theorem Core.count (core : Core fs file bytes) : bytes.length ≤ file.blocks.length * fs.blockSize ∧
      file.blocks.length * fs.blockSize < bytes.length + fs.blockSize :=
  (pageCount_eq_iff fs.positive _ _).mp core.stored.count.symm

/-- The size is the number of bytes. -/
theorem Sized.size (sound : Sized fs file bytes) : fileSize fs file = bytes.length := by
  have split := div_add_mod' bytes.length fs.blockSize
  have count := sound.stored.count
  rw [fileSize, sound.sizeCount, sound.sizeOffset, sound.offset, count, pageCount]
  by_cases full : bytes.length % fs.blockSize = 0
  · rw [if_pos full, if_pos full]
    by_cases none : bytes.length / fs.blockSize = 0
    · rw [if_pos none]
      rw [full, none] at split
      omega
    · rw [if_neg none]
      obtain ⟨less, more⟩ := Nat.exists_eq_succ_of_ne_zero none
      rw [more, succ_mul] at split
      rw [more, Nat.succ_sub_one]
      omega
  · rw [if_neg full, if_neg full, if_neg (Nat.succ_ne_zero _), Nat.add_sub_cancel]
    omega

/-- The block at the end of the file. -/
theorem Core.sizeBno (core : Core fs file bytes) :
    sizeBno file.blocks.length file.offset = bytes.length / fs.blockSize := by
  rw [File.sizeBno, core.offset, core.stored.count, pageCount]
  by_cases full : bytes.length % fs.blockSize = 0
  · rw [if_pos full, if_pos full]
  · rw [if_neg full, if_neg full, Nat.add_sub_cancel]

variable {pos : Nat}

/-- A position that is not behind the end and has no block is the end of a full block. -/
theorem Core.no_block (core : Core fs file bytes) (inside : pos ≤ bytes.length)
    (missing : file.blocks[pos / fs.blockSize]? = none) :
    pos = bytes.length ∧ bytes.length = file.blocks.length * fs.blockSize := by
  have count := core.count
  have behind := Nat.mul_le_mul_right fs.blockSize (List.getElem?_eq_none_iff.mp missing)
  have split := div_add_mod' pos fs.blockSize
  omega

variable {length : Nat}

/-- The test for the end of the file after a write. The end of a full last block is not
told from its start. -/
theorem pastEnd_write {width finish : Nat} (pos : 0 < width)
    (bound : finish ≤ pageCount width length * width)
    (outside : finish % width = 0 ∨ ¬ (length % width = 0 ∧ finish < length ∧ length < finish + width)) :
    (posPastEnd (finish / width) (finish % width) (pageCount width length) (length % width) →
      length ≤ finish) ∧
    (¬ posPastEnd (finish / width) (finish % width) (pageCount width length) (length % width) →
      finish ≤ length) := by
  have known := (pageCount_eq_iff pos length _).mp rfl
  have split := div_add_mod' finish width
  have small := mod_lt finish pos
  have whole := div_add_mod' length width
  generalize finish / width = bno at *
  generalize finish % width = boff at *
  generalize counted : pageCount width length = count at *
  have last : 0 < count → bno = count - 1 → bno * width + width = count * width := by
    intro some_block same
    obtain ⟨less, rfl⟩ : ∃ less, count = less + 1 := ⟨count - 1, by omega⟩
    rw [same, Nat.add_sub_cancel, succ_mul]
  have off : 0 < count → (length % width = 0 ∧ length = count * width) ∨
      (length % width ≠ 0 ∧ length + width = count * width + length % width) := by
    intro _
    by_cases full : length % width = 0
    · rw [pageCount, if_pos full] at counted
      rw [counted] at whole
      exact .inl ⟨full, by omega⟩
    · rw [pageCount, if_neg full] at counted
      rw [← counted, succ_mul]
      exact .inr ⟨full, by omega⟩
  constructor
  · rintro (⟨-, none⟩ | behind | ⟨same, more⟩)
    · rw [none] at known
      omega
    · have := Nat.mul_le_mul_right width behind
      omega
    · by_cases none : count = 0
      · rw [none] at known
        omega
      · omega
  · intro inside
    have before : bno < count := by
      by_contra behind
      exact inside (.inr (.inl (by omega)))
    by_cases same : bno = count - 1
    · have less : boff ≤ length % width := by
        by_contra more
        exact inside (.inr (.inr ⟨same, by omega⟩))
      omega
    · have less := Nat.mul_le_mul_right width (show bno + 2 ≤ count by omega)
      rw [Nat.add_mul] at less
      omega

/-- The position after a transfer inside of one block. -/
theorem advance_at (size : Nat) (here : At fs file pos) (few : file.boff + size ≤ fs.blockSize) :
    At fs (advance fs file size) (pos + size) := by
  have split := div_add_mod' pos fs.blockSize
  obtain ⟨bno, boff⟩ := here
  by_cases whole : fs.blockSize ≤ file.boff + size
  · have next : pos + size = (pos / fs.blockSize + 1) * fs.blockSize + 0 := by
      rw [succ_mul]
      omega
    obtain ⟨quotient, remainder⟩ := place_eq (pos / fs.blockSize + 1) fs.positive
    rw [← next] at quotient remainder
    rw [At, advance, if_pos whole, quotient, remainder]
    exact ⟨congrArg (· + 1) bno, by dsimp only; omega⟩
  · have next : pos + size = pos / fs.blockSize * fs.blockSize + (pos % fs.blockSize + size) := by
      omega
    obtain ⟨quotient, remainder⟩ := place_eq (pos / fs.blockSize)
      (show pos % fs.blockSize + size < fs.blockSize by omega)
    rw [← next] at quotient remainder
    rw [At, advance, if_neg whole, quotient, remainder]
    exact ⟨bno, by dsimp only; omega⟩

/-- What moving the position leaves alone. -/
theorem advance_frame (fs : FileSystem) (file : State) (size : Nat) :
    advance fs file size = { file with
      buffer := none
      bno := (advance fs file size).bno
      boff := (advance fs file size).boff } := by
  rw [advance]
  split
  · rfl
  · rfl

/-- The bytes in a block after a write, and those of other blocks. -/
theorem putBytes_media (file : State) (block place : Nat) (bytes : List UInt8) :
    (∀ other ≠ block, (putBytes file block place bytes).media other = file.media other) ∧
    (∀ index item, bytes[index]? = some item →
      (putBytes file block place bytes).media block (place + index) = item) ∧
    ∀ index, index < place ∨ place + bytes.length ≤ index →
      (putBytes file block place bytes).media block index = file.media block index := by
  constructor
  · intro other elsewhere
    exact update_of_ne elsewhere _ _
  constructor
  · intro index item present
    have short := (List.getElem?_eq_some_iff.mp present).1
    dsimp only [putBytes]
    rw [update_self, if_pos (by omega), Nat.add_sub_cancel_left,
      List.getD_eq_getElem?_getD, present, getD_some]
  · intro index apart
    dsimp only [putBytes]
    rw [update_self, if_neg (by omega)]

/-- A part of the file is written from a position on. The length is the larger one. -/
theorem length_overwrite (bytes data : List UInt8) (inside : pos ≤ bytes.length) :
    (overwrite bytes pos data).length = max bytes.length (pos + data.length) := by
  simp only [overwrite, length_append, length_take, length_drop]
  omega

theorem overwrite_nil (bytes : List UInt8) (pos : Nat) : overwrite bytes pos [] = bytes := by
  rw [overwrite, append_nil, List.length_nil, Nat.add_zero, List.take_append_drop]

/-- Two writes one after the other are one write. -/
theorem overwrite_append (bytes first second : List UInt8) (inside : pos ≤ bytes.length) :
    overwrite (overwrite bytes pos first) (pos + first.length) second =
      overwrite bytes pos (first ++ second) := by
  have size : (bytes.take pos ++ first).length = pos + first.length := by
    rw [length_append, length_take, Nat.min_eq_left inside]
  have front : (overwrite bytes pos first).take (pos + first.length) = bytes.take pos ++ first := by
    rw [overwrite, ← size, List.take_left]
  have back : (overwrite bytes pos first).drop (pos + first.length + second.length) =
      bytes.drop (pos + first.length + second.length) := by
    rw [← drop_drop, overwrite, ← size, List.drop_left, drop_drop]
  rw [overwrite, front, back, overwrite, length_append, Nat.add_assoc, append_assoc,
    append_assoc, append_assoc, append_assoc]

/-- A block for a write: one of the map, with its contents unless all of it is written,
or a new one at the end of the map. -/
inductive Ready (fs : FileSystem) (file : State) (length : Nat) (next : State) : Prop where
  | found (block : Nat) (buffer : next.buffer = some block)
      (present : file.blocks[file.bno]? = some block)
      (same : next = { file with
        mapBno := next.mapBno
        mapBoff := next.mapBoff
        buffer := some block
        media := next.media })
      (elsewhere : ∀ other ≠ block, next.media other = file.media other)
      (kept : file.boff = 0 ∧ fs.blockSize ≤ length ∨ next.media = file.media)
  | fresh (block : Nat) (missing : file.blocks[file.bno]? = none) (new : block ∉ file.blocks)
      (same : next = { file with
        blocks := file.blocks ++ [block]
        offset := 0
        buffer := some block
        media := next.media })
      (elsewhere : ∀ other ≠ block, next.media other = file.media other)

variable {next : State}

/-- What getting a block leaves alone. -/
theorem Ready.frame (ready : Ready fs file length next) (nodup : file.blocks.Nodup) :
    next.bno = file.bno ∧ next.boff = file.boff ∧ next.sizeCount = file.sizeCount ∧
      next.sizeOffset = file.sizeOffset ∧ next.blocks.Nodup := by
  cases ready with
  | found block buf present same elsewhere kept =>
    rw [same]
    exact ⟨rfl, rfl, rfl, rfl, nodup⟩
  | fresh block missing new same elsewhere =>
    rw [same]
    refine ⟨rfl, rfl, rfl, rfl, ?_⟩
    rw [← List.concat_eq_append]
    exact nodup.concat new

/-- A request of a handle without a buffer. -/
theorem request_free (block : Nat) (read : Bool) (noise : Nat → UInt8)
    (free : file.buffer = none) : request file block read noise = { file with
      buffer := some block
      media := if read = true then file.media else update file.media block noise } := by
  rw [request, if_neg]
  rw [free]
  exact some_ne_none block ∘ Eq.symm

/-- The start of a write gets such a block. -/
theorem ioStart_write (supply : Supply)
    (round length : Nat) (boff : file.boff < fs.blockSize) (held : Held fs file bytes) :
    ∃ next, ioStart fs supply round file length false = (fs.blockSize - file.boff, next) ∧
      Ready fs file length next := by
  have room : (fs.blockSize + 2 ^ 32 - file.boff) % 2 ^ 32 = fs.blockSize - file.boff := by
    have narrow := fs.narrow
    omega
  have available : ∀ next : State, next.boff = file.boff →
      ioAvailable fs next false = fs.blockSize - file.boff := by
    intro next same
    rw [ioAvailable, if_neg fun impossible => Bool.false_ne_true impossible.1, same, room]
  cases attached : file.buffer with
  | some block =>
    obtain ⟨present, -⟩ := held block attached
    refine ⟨file, ?_, .found block attached present ?_ (fun _ _ => rfl) (.inr rfl)⟩
    · simp only [ioStart, ioBuffer, attached, reduceCtorEq, if_false, available file rfl]
    · rw [← attached]
  | none =>
    cases present : file.blocks[file.bno]? with
    | none =>
      have started : ioBuffer fs supply round file length false = some (request
          { file with blocks := file.blocks ++ [supply.next round file.blocks], offset := 0 }
          (supply.next round file.blocks) false (supply.noise round)) := by
        simp only [ioBuffer, attached, present, if_true, Bool.false_eq_true, if_false]
      rw [request_free, if_neg Bool.false_ne_true] at started
      swap
      · exact attached
      rw [ioStart, started]
      refine ⟨_, congrArg (·, _) (available _ rfl), .fresh (supply.next round file.blocks) present
        (supply.fresh round file.blocks) rfl ?_⟩
      intro other elsewhere
      exact update_of_ne elsewhere _ _
    | some block =>
      have started : ioBuffer fs supply round file length false = some (request
          { file with mapBno := file.bno, mapBoff := file.boff } block
          (decide (file.boff ≠ 0) || decide (length < fs.blockSize)) (supply.noise round)) := by
        simp only [ioBuffer, attached, present, if_true, Bool.false_or]
      rw [request_free] at started
      swap
      · exact attached
      rw [ioStart, started]
      refine ⟨_, congrArg (·, _) (available _ rfl), .found block rfl present rfl ?_ ?_⟩
      · intro other elsewhere
        split
        · rfl
        · exact update_of_ne elsewhere _ _
      · by_cases whole : file.boff = 0 ∧ fs.blockSize ≤ length
        · exact .inl whole
        · refine .inr (if_pos ?_)
          simp only [Bool.or_eq_true, decide_eq_true_eq]
          omega

section

variable (ready : Ready fs file length next) (core : Core fs file bytes) (here : At fs file pos)
  (inside : pos ≤ bytes.length)
include ready core here inside

/-- After a write to a block the blocks hold the written bytes. -/
theorem Ready.stored (chunk : List UInt8) (some_bytes : 0 < chunk.length)
    (few : file.boff + chunk.length ≤ fs.blockSize)
    (whole : fs.blockSize ≤ length → fs.blockSize ≤ file.boff + chunk.length) :
    Stored (putBytes next (next.buffer.getD 0) next.boff chunk).media fs.blockSize
      (overwrite bytes pos chunk) next.blocks := by
  obtain ⟨bno, boff⟩ := here
  have split := div_add_mod' pos fs.blockSize
  cases ready with
  | found block buf present same elsewhere kept =>
    have blocks : next.blocks = file.blocks := by rw [same]
    have place : next.boff = pos % fs.blockSize := by rw [same, ← boff]
    rw [bno] at present
    rw [boff] at few whole kept
    rw [buf, getD_some, place, blocks, overwrite]
    obtain ⟨apart, written, rest⟩ := putBytes_media next block (pos % fs.blockSize) chunk
    have spliced := core.stored.splice core.nodup chunk present few fs.positive (by omega)
      (fun other ne index => by rw [apart other ne, elsewhere other ne])
      written
      (fun index small outside _ => by
        rw [rest index outside]
        obtain ⟨start, complete⟩ | untouched := kept
        · omega
        · rw [untouched])
    rwa [split] at spliced
  | fresh block missing new same elsewhere =>
    rw [bno] at missing
    obtain ⟨rfl, full⟩ := core.no_block inside missing
    have start : file.boff = 0 := by rw [boff, full, Nat.mul_mod_left]
    have appended : overwrite bytes bytes.length chunk = bytes ++ chunk := by
      rw [overwrite, take_length, List.drop_of_length_le (Nat.le_add_right _ _), append_nil]
    have blocks : next.blocks = file.blocks ++ [block] := by rw [same]
    have place : next.boff = 0 := by rw [same, ← start]
    have buf : next.buffer = some block := by rw [same]
    rw [buf, getD_some, place, blocks, appended]
    obtain ⟨apart, written, -⟩ := putBytes_media next block 0 chunk
    refine core.stored.open_page full fs.positive chunk some_bytes (by omega) ?_ ?_
    · intro other member index
      have ne : other ≠ block := fun equal => new (equal ▸ member)
      rw [apart other ne, elsewhere other ne]
    · intro index item present
      rw [← written index item present, Nat.zero_add]

/-- Where a write to a block ends tells whether the file gets longer. -/
theorem Ready.past {size : Nat} (some_bytes : 0 < size) (few : file.boff + size ≤ fs.blockSize)
    (outside : (pos + size) % fs.blockSize = 0 ∨ EndsOutside fs bytes.length (pos + size)) :
    (posPastEnd ((pos + size) / fs.blockSize) ((pos + size) % fs.blockSize) next.blocks.length
      next.offset → bytes.length ≤ pos + size) ∧
    (¬ posPastEnd ((pos + size) / fs.blockSize) ((pos + size) % fs.blockSize) next.blocks.length
      next.offset → pos + size ≤ bytes.length ∧ next.blocks = file.blocks ∧
        next.offset = file.offset) := by
  obtain ⟨bno, boff⟩ := here
  have split := div_add_mod' pos fs.blockSize
  cases ready with
  | found block buf present same elsewhere kept =>
    have blocks : next.blocks = file.blocks := by rw [same]
    have off : next.offset = file.offset := by rw [same]
    have index := (List.getElem?_eq_some_iff.mp present).1
    have bound := Nat.mul_le_mul_right fs.blockSize index
    rw [bno, succ_mul, core.stored.count] at bound
    have tested := pastEnd_write fs.positive (show pos + size ≤ _ by omega) outside
    rw [blocks, off, core.stored.count, core.offset]
    exact ⟨tested.1, fun before => ⟨tested.2 before, rfl, rfl⟩⟩
  | fresh block missing new same elsewhere =>
    rw [bno] at missing
    obtain ⟨rfl, full⟩ := core.no_block inside missing
    refine ⟨fun _ => Nat.le_add_right _ _, fun before => absurd ?_ before⟩
    have blocks : next.blocks.length = file.blocks.length + 1 := by
      rw [same, length_append, List.length_singleton]
    have off : next.offset = 0 := by rw [same]
    rw [blocks, off, full]
    by_cases whole : size < fs.blockSize
    · obtain ⟨quotient, remainder⟩ := place_eq file.blocks.length whole
      rw [quotient, remainder]
      exact .inr (.inr ⟨rfl, some_bytes⟩)
    · refine .inr (.inl ?_)
      rw [Nat.le_div_iff_mul_le fs.positive, succ_mul]
      omega

end

/-- A transfer to a block ends with the larger size, if the file got longer. -/
theorem ioEnd_write (fs : FileSystem) (file : State) (size : Nat) : ioEnd fs file size false =
      if posPastEnd (advance fs file size).bno (advance fs file size).boff file.blocks.length
        file.offset then
        { advance fs file size with
          offset := (advance fs file size).boff
          sizeCount := file.blocks.length
          sizeOffset := (advance fs file size).boff }
      else advance fs file size := by
  have blocks : (advance fs file size).blocks = file.blocks := by rw [advance_frame]
  have off : (advance fs file size).offset = file.offset := by rw [advance_frame]
  simp only [ioEnd, true_and, blocks, off]

/-- A round of the loop of a write. -/
def writeRound (fs : FileSystem) (supply : Supply) (round : Nat) (file : State)
    (data : List UInt8) : Nat × State :=
  let start := ioStart fs supply round file data.length false
  let size := min start.1 data.length
  (size, ioEnd fs (putBytes start.2 (start.2.buffer.getD 0) start.2.boff (data.take size)) size
    false)

variable {data : List UInt8}

theorem writeLoop_succ (fs : FileSystem) (supply : Supply) (rounds : Nat) (file : State)
    (more : data ≠ []) :
    writeLoop fs supply (rounds + 1) file data =
      writeLoop fs supply rounds (writeRound fs supply rounds file data).2
        (data.drop (writeRound fs supply rounds file data).1) := by
  rw [writeLoop, if_neg more]
  rfl

/-- A round writes up to the end of the block or of the data. -/
theorem Sized.write_round (sound : Sized fs file bytes) (held : Held fs file bytes) (here : At fs file pos)
    (inside : pos ≤ bytes.length) (more : data ≠ [])
    (outside : EndsOutside fs bytes.length (pos + data.length)) (supply : Supply) (round : Nat) :
    ∃ size next, writeRound fs supply round file data = (size, next) ∧
      0 < size ∧ size ≤ data.length ∧ next.buffer = none ∧ At fs next (pos + size) ∧
      Sized fs next (overwrite bytes pos (data.take size)) := by
  obtain ⟨start, started, ready⟩ := ioStart_write supply round data.length sound.boff held
  have room := sound.boff
  have some_data := List.length_pos_iff.mpr more
  generalize sized : min (fs.blockSize - file.boff) data.length = size
  have chunk : (data.take size).length = size := by
    rw [length_take]
    omega
  have stored := ready.stored sound.toCore here inside (data.take size)
    (by omega) (by omega) (by omega)
  obtain ⟨bno, boff, sizeCount, sizeOffset, nodup⟩ := ready.frame sound.nodup
  have finish : (pos + size) % fs.blockSize = 0 ∨ EndsOutside fs bytes.length (pos + size) := by
    by_cases rest : size = data.length
    · rw [rest]
      exact .inr outside
    · have split := div_add_mod' pos fs.blockSize
      have next : pos + size = (pos / fs.blockSize + 1) * fs.blockSize := by
        rw [succ_mul]
        have := here.2
        omega
      rw [next, Nat.mul_mod_left]
      exact .inl rfl
  have tested := ready.past sound.toCore here inside (by omega) (by omega) finish
  have length := length_overwrite bytes (data.take size) inside
  rw [chunk] at length
  generalize written : putBytes start (start.buffer.getD 0) start.boff (data.take size) = put
    at stored
  have same : put = { start with media := put.media } := by
    rw [← written, putBytes]
  have moved : At fs (advance fs put size) (pos + size) :=
    advance_at size (by rw [same]; exact ⟨bno.trans here.1, boff.trans here.2⟩) (by
      rw [same]
      dsimp only
      omega)
  have round_eq : writeRound fs supply round file data = (size, ioEnd fs put size false) := by
    rw [writeRound, started]
    rw [sized, written]
  refine ⟨size, ioEnd fs put size false, round_eq, by omega, by omega, ?_⟩
  have blocks : put.blocks = start.blocks := by rw [same]
  have off : put.offset = start.offset := by rw [same]
  have frame := advance_frame fs put size
  have media : (advance fs put size).media = put.media := by rw [frame]
  have free : (advance fs put size).buffer = none := by rw [frame]
  have kept : (advance fs put size).blocks = start.blocks := by rw [frame, blocks]
  have small : (advance fs put size).boff < fs.blockSize := by
    rw [moved.2]
    exact mod_lt _ fs.positive
  rw [ioEnd_write, blocks, off]
  by_cases past : posPastEnd (advance fs put size).bno (advance fs put size).boff
      start.blocks.length start.offset
  · rw [if_pos past]
    rw [moved.1, moved.2] at past
    refine ⟨free, moved, ⟨?_, ?_, ?_, small⟩, ?_, rfl⟩
    · rw [media, kept]
      exact stored
    · rw [kept]
      exact nodup
    · rw [moved.2, length, Nat.max_eq_right (tested.1 past)]
    · rw [kept]
  · rw [if_neg past]
    rw [moved.1, moved.2] at past
    obtain ⟨before, old, unchanged⟩ := tested.2 past
    refine ⟨free, moved, ⟨?_, ?_, ?_, small⟩, ?_, ?_⟩
    · rw [media, kept]
      exact stored
    · rw [kept]
      exact nodup
    · rw [frame, length, Nat.max_eq_left before, ← sound.offset, ← unchanged, ← off]
    · rw [frame, same]
      rw [sizeCount, old, sound.sizeCount]
    · rw [frame, same]
      rw [sizeOffset, unchanged, sound.sizeOffset]

/-- The loop of a write replaces the bytes from the position on. -/
theorem Sized.write_loop (supply : Supply) (rounds : Nat) (enough : data.length ≤ rounds)
    (sound : Sized fs file bytes) (held : Held fs file bytes) (inside : pos ≤ bytes.length)
    (here : At fs file pos) (more : data ≠ [])
    (outside : EndsOutside fs bytes.length (pos + data.length)) :
    Sized fs (writeLoop fs supply rounds file data) (overwrite bytes pos data) ∧
      (writeLoop fs supply rounds file data).buffer = none := by
  induction rounds generalizing file bytes data pos with
  | zero => exact absurd (List.length_eq_zero_iff.mp (Nat.le_zero.mp enough)) more
  | succ rounds ih =>
    obtain ⟨size, next, round, positive, few, free, moved, sound⟩ :=
      sound.write_round held here inside more outside supply rounds
    have chunk : (data.take size).length = size := by rw [length_take, Nat.min_eq_left few]
    have length := length_overwrite bytes (data.take size) inside
    have joined := overwrite_append bytes (data.take size) (data.drop size) inside
    rw [chunk] at length joined
    rw [List.take_append_drop] at joined
    rw [writeLoop_succ fs supply rounds file more, round, ← joined]
    by_cases finished : data.drop size = []
    · rw [finished, overwrite_nil]
      cases rounds with
      | zero => exact ⟨sound, free⟩
      | succ rounds =>
        exact ⟨sound, free⟩
    · refine ih ?_ sound (.free free) ?_ moved finished ?_
      · rw [length_drop]
        omega
      · rw [length]
        exact Nat.le_max_right _ _
      · rw [EndsOutside] at outside ⊢
        rw [length, length_drop]
        by_cases longer : bytes.length ≤ pos + size
        · omega
        · rw [Nat.max_eq_left (by omega), show pos + size + (data.length - size) =
            pos + data.length by omega]
          exact outside

/-- What reading leaves alone: all but the position and the buffer of the handle and where
the map was searched last. -/
def Unwritten (file next : State) : Prop :=
  next = { file with
    mapBno := next.mapBno
    mapBoff := next.mapBoff
    bno := next.bno
    boff := next.boff
    buffer := next.buffer }

theorem Unwritten.trans {first second third : State} (front : Unwritten first second)
    (back : Unwritten second third) : Unwritten first third := by
  rw [Unwritten] at *
  rw [back, front]

/-- What was not written still holds the bytes. -/
theorem Unwritten.core (same : Unwritten file next) (core : Core fs file bytes) (boff : next.boff < fs.blockSize) :
    Core fs next bytes := by
  refine ⟨?_, ?_, ?_, boff⟩
  · rw [same]
    exact core.stored
  · rw [same]
    exact core.nodup
  · rw [same]
    exact core.offset

/-- The offset of the descriptor is set when nothing was written. -/
theorem Unwritten.sound (same : Unwritten file next) (sound : Sound fs file bytes) (boff : next.boff < fs.blockSize)
    (position : Nat) (buf : Attached fs { next with position := position } bytes) :
    Sound fs { next with position := position } bytes := by
  have core := same.core sound.toCore boff
  refine ⟨⟨⟨core.stored, core.nodup, core.offset, boff⟩, ?_, ?_⟩, buf⟩
  · rw [same]
    exact sound.sizeCount
  · rw [same]
    exact sound.sizeOffset

variable {block : Nat}

section

variable (core : Core fs file bytes)
include core

/-- The bytes that are available to a read are those up to the end of the block or of the
file. -/
theorem Core.available (here : At fs file pos) (inside : pos ≤ bytes.length)
    (present : file.blocks[file.bno]? = some block) (searched : file.mapBno = file.bno) :
    ioAvailable fs file true = min (fs.blockSize - file.boff) (bytes.length - pos) := by
  have narrow := fs.narrow
  have split := div_add_mod' pos fs.blockSize
  have whole := div_add_mod' bytes.length fs.blockSize
  have small := mod_lt bytes.length fs.positive
  have index := (List.getElem?_eq_some_iff.mp present).1
  have count := core.stored.count
  have room := core.boff
  rw [ioAvailable, searched, core.offset]
  rw [here.1] at index ⊢
  rw [here.2] at room ⊢
  by_cases full : bytes.length % fs.blockSize = 0
  · rw [if_neg (by tauto)]
    rw [pageCount, if_pos full] at count
    have less := Nat.mul_le_mul_right fs.blockSize index
    rw [count, succ_mul] at less
    omega
  · rw [pageCount, if_neg full] at count
    by_cases last : pos / fs.blockSize = file.blocks.length - 1
    · rw [if_pos ⟨rfl, .inr last, full⟩]
      rw [last, count, Nat.add_sub_cancel] at split
      omega
    · rw [if_neg (by omega)]
      rw [count] at index last
      have before := Nat.lt_of_le_of_ne (Nat.le_of_lt_succ index) last
      have less := Nat.mul_le_mul_right fs.blockSize before
      rw [succ_mul] at less
      omega

/-- The bytes of a block are those of the file. -/
theorem Core.getBytes (size : Nat) (here : At fs file pos)
    (present : file.blocks[file.bno]? = some block)
    (few : size ≤ min (fs.blockSize - file.boff) (bytes.length - pos)) :
    getBytes file block file.boff size = (bytes.drop pos).take size := by
  have room := core.boff
  have split := div_add_mod' pos fs.blockSize
  rw [here.1] at present
  rw [here.2] at few room ⊢
  apply List.ext_getElem?
  intro index
  by_cases short : index < size
  · obtain ⟨quotient, remainder⟩ := place_eq (pos / fs.blockSize)
      (show pos % fs.blockSize + index < fs.blockSize by omega)
    rw [← Nat.add_assoc, split] at quotient remainder
    have read := List.getElem?_eq_getElem (show pos + index < bytes.length by omega)
    obtain ⟨found, where_found, same⟩ := core.stored.found (pos + index) _ read
    rw [quotient, present] at where_found
    cases where_found
    rw [List.getElem?_take_of_lt short, List.getElem?_drop, read, ← same, remainder,
      File.getBytes, List.getElem?_map, List.getElem?_range short]
    rfl
  · rw [List.getElem?_eq_none, List.getElem?_eq_none]
    · rw [length_take]
      omega
    · rw [File.getBytes, List.length_map, List.length_range]
      omega

/-- The start of a read finds the block of the position, unless it is at the end of a
full block. -/
theorem Core.ioStart_read (held : Held fs file bytes) (here : At fs file pos)
    (inside : pos ≤ bytes.length) (supply : Supply) (round count : Nat) :
    (ioStart fs supply round file count true = (0, file) ∧ pos = bytes.length) ∨
    ∃ next block, ioStart fs supply round file count true =
        (min (fs.blockSize - file.boff) (bytes.length - pos), next) ∧
      file.blocks[file.bno]? = some block ∧ next.mapBno = file.bno ∧
      next = { file with
        mapBno := next.mapBno
        mapBoff := next.mapBoff
        buffer := some block } := by
  cases attached : file.buffer with
  | some block =>
    obtain ⟨present, -, searched, -⟩ := held block attached
    refine .inr ⟨file, block, ?_, present, searched, ?_⟩
    · rw [ioStart, ioBuffer, if_neg (by rw [attached]; exact some_ne_none block)]
      exact congrArg (·, file) (core.available here inside present searched)
    · rw [← attached]
  | none =>
    cases present : file.blocks[file.bno]? with
    | none =>
      have missing := present
      rw [here.1] at missing
      refine .inl ⟨?_, (core.no_block inside missing).1⟩
      simp only [ioStart, ioBuffer, attached, present, if_true]
    | some block =>
      have started : ioBuffer fs supply round file count true = some (request
          { file with mapBno := file.bno, mapBoff := file.boff } block true
          (supply.noise round)) := by
        simp only [ioBuffer, attached, present, if_true, Bool.true_or]
      rw [request_free, if_pos rfl] at started
      swap
      · exact attached
      rw [ioStart, started]
      refine .inr ⟨_, block, congrArg (·, _) ?_, rfl, rfl, rfl⟩
      have found : Core fs { file with
          mapBno := file.bno
          mapBoff := file.boff
          buffer := some block } bytes := { core with }
      exact found.available here inside present rfl

/-- A block at the end of the file is the last one and not full. -/
theorem Core.held_at_end (here : At fs file bytes.length)
    (present : file.blocks[file.bno]? = some block) (searched : file.mapBno = file.bno)
    (attached : file.buffer = some block) : Held fs file bytes := by
  have index := (List.getElem?_eq_some_iff.mp present).1
  have count := core.stored.count
  intro other same
  rw [attached] at same
  cases same
  by_cases full : bytes.length % fs.blockSize = 0
  · rw [pageCount, if_pos full] at count
    have := here.1
    omega
  · rw [pageCount, if_neg full] at count
    exact ⟨present, by rw [count, here.1], searched, full⟩

end

variable {count : Nat}

/-- The loop of a read returns the bytes from the position on. -/
theorem Core.read_loop (supply : Supply) (rounds : Nat) (enough : count ≤ rounds) (core : Core fs file bytes)
    (held : Held fs file bytes) (inside : pos ≤ bytes.length) (here : At fs file pos) :
    ∃ next, readLoop fs supply rounds file count = ((bytes.drop pos).take count, next) ∧
      Unwritten file next ∧ Core fs next bytes ∧ Held fs next bytes ∧
      At fs next (min bytes.length (pos + count)) := by
  induction rounds generalizing file pos count with
  | zero =>
    obtain rfl := Nat.le_zero.mp enough
    rw [Nat.add_zero pos, Nat.min_eq_right inside]
    exact ⟨file, rfl, rfl, core, held, here⟩
  | succ rounds ih =>
    by_cases nothing : count = 0
    · subst nothing
      rw [Nat.add_zero pos, Nat.min_eq_right inside]
      exact ⟨file, by rw [readLoop, if_pos rfl, take_zero], rfl, core, held, here⟩
    have room := core.boff
    rw [readLoop, if_neg nothing]
    obtain ⟨started, rfl⟩ | ⟨next, block, started, present, searched, same⟩ :=
      core.ioStart_read held here inside supply rounds count
    · rw [started, List.drop_length, take_nil, Nat.min_eq_left (Nat.le_add_right _ _)]
      exact ⟨file, rfl, rfl, core, held, here⟩
    rw [started]
    dsimp only
    have unwritten : Unwritten file next := by
      rw [same]
      rfl
    have at_next : At fs next pos := by
      rw [same]
      exact here
    have found : next.blocks[next.bno]? = some block := by
      rw [same]
      exact present
    have attached : next.buffer = some block := by rw [same]
    have off : next.boff = file.boff := by rw [same]
    have searched : next.mapBno = next.bno := by rw [searched, same]
    have core := unwritten.core core (by rw [off]; exact room)
    by_cases finished : min (fs.blockSize - file.boff) (bytes.length - pos) = 0
    · obtain rfl : pos = bytes.length := by omega
      rw [if_pos finished, List.drop_length, take_nil, Nat.min_eq_left (Nat.le_add_right _ _)]
      have held := core.held_at_end at_next found searched attached
      exact ⟨next, rfl, unwritten, core, held, at_next⟩
    · rw [if_neg finished]
      generalize sized : min (min (fs.blockSize - file.boff) (bytes.length - pos)) count = size
      have moved := advance_at size at_next (by omega)
      have onward : Unwritten next (advance fs next size) := by
        rw [Unwritten]
        nth_rewrite 1 [advance_frame]
        rw [advance_frame]
      have free : (advance fs next size).buffer = none := by rw [advance_frame]
      have small : (advance fs next size).boff < fs.blockSize := by
        rw [moved.2]
        exact mod_lt _ fs.positive
      obtain ⟨last, rest, after, core_last, held, stop⟩ :=
        @ih (advance fs next size) (pos + size) (count - size) (by omega)
          (onward.core core small) (.free free) (by omega) moved
      have ended : ioEnd fs next size true = advance fs next size := by
        rw [ioEnd, if_neg]
        exact fun impossible => Bool.true_eq_false_eq_False impossible.1
      have bytes_eq := core.getBytes size at_next found (by omega)
      refine ⟨last, ?_, unwritten.trans (onward.trans after), core_last, held, ?_⟩
      · rw [ended, rest, attached, getD_some, bytes_eq, ← drop_drop, ← List.take_add]
        rw [show size + (count - size) = count by omega]
      · convert stop using 2
        omega

/-- Before the end of the file a buffer is that of the last block. -/
theorem Sound.held (sound : Sound fs file bytes) (inside : file.position < bytes.length) :
    Held fs file bytes := by
  obtain ⟨held, -⟩ | stale := sound.buffer
  · exact held
  · intro block attached
    have behind := (stale block attached).2
    omega

/-- The offset of the descriptor where the handle is. -/
theorem Held.attached (held : Held fs file bytes) (here : At fs file pos) :
    Attached fs { file with position := pos } bytes := by
  refine .inl ⟨held, fun _ => ?_⟩
  rw [here.1]
  exact Nat.div_mul_le_self pos fs.blockSize

/-- A read returns the bytes from the offset of the descriptor on and moves it. -/
theorem Sound.read (sound : Sound fs file bytes) (supply : Supply) (count : Nat)
    (here : 0 < count → file.position < fileSize fs file → At fs file file.position) :
    (fileRead fs supply file count).1 = (bytes.drop file.position).take count ∧
      (fileRead fs supply file count).2.position =
        file.position + ((bytes.drop file.position).take count).length ∧
      Sound fs (fileRead fs supply file count).2 bytes := by
  rw [fileRead, sound.size]
  rw [sound.size] at here
  by_cases inside : file.position < bytes.length
  · rw [if_pos inside]
    by_cases nothing : count = 0
    · subst nothing
      exact ⟨rfl, rfl, sound⟩
    · have here := here (by omega) inside
      obtain ⟨next, loop, same, core, held, stop⟩ := sound.read_loop supply count
        (Nat.le_refl count) (sound.held inside) (Nat.le_of_lt inside) here
      have length : file.position + ((bytes.drop file.position).take count).length =
          min bytes.length (file.position + count) := by
        rw [length_take, length_drop]
        omega
      rw [loop]
      refine ⟨rfl, rfl, ?_⟩
      dsimp only
      rw [length]
      exact same.sound sound core.boff _ (held.attached stop)
  · rw [if_neg inside, List.drop_of_length_le (by omega), take_nil]
    exact ⟨rfl, rfl, sound⟩

/-- A seek inside of the file moves the handle, and a buffer that is kept is that of the
block there. It fails only at the end of a full block while a buffer of a block that is
no longer in the map is attached. -/
theorem Sound.seek_inside (sound : Sound fs file bytes) (inside : pos ≤ bytes.length) :
    (∃ next, fileSeek fs file pos = (true, next) ∧ Unwritten file next ∧ At fs next pos ∧
      Held fs next bytes) ∨
    ∃ next, fileSeek fs file pos = (false, next) ∧ Unwritten file next ∧ At fs next pos ∧
      Stale next bytes ∧ bytes.length ≤ file.position := by
  rw [fileSeek, sound.size, if_pos inside]
  cases attached : file.buffer with
  | none =>
    exact .inl ⟨_, rfl, rfl, ⟨rfl, rfl⟩, .free rfl⟩
  | some block =>
    dsimp only
    cases present : file.blocks[pos / fs.blockSize]? with
    | none =>
      obtain ⟨rfl, full⟩ := sound.no_block inside present
      obtain ⟨held, -⟩ | stale := sound.buffer
      · have partly := (held block attached).2.2.2
        rw [full, Nat.mul_mod_left] at partly
        exact absurd rfl partly
      · refine .inr ⟨_, rfl, rfl, ⟨rfl, rfl⟩, ?_, (stale block attached).2⟩
        intro other same
        cases same
        exact stale block attached
    | some found =>
      dsimp only
      by_cases same : block = found
      · subst same
        rw [if_pos rfl]
        refine .inl ⟨_, rfl, rfl, ⟨rfl, rfl⟩, ?_⟩
        intro other equal
        cases equal
        obtain ⟨held, -⟩ | stale := sound.buffer
        · obtain ⟨where_held, last, -, partly⟩ := held block attached
          have index : pos / fs.blockSize = file.bno :=
            (List.getElem?_inj (List.getElem?_eq_some_iff.mp present).1 sound.nodup).mp
              (present.trans where_held.symm)
          exact ⟨present, by rw [← last, ← index], rfl, partly⟩
        · exact absurd (List.mem_of_getElem? present) (stale block attached).1
      · rw [if_neg same]
        exact .inl ⟨_, rfl, rfl, ⟨rfl, rfl⟩, .free rfl⟩

/-- An offset is set inside of the file and behind its end, and the bytes stay. -/
theorem Sound.lseek (sound : Sound fs file bytes) (pos : Nat) : Sound fs (fileLseek fs file pos).2 bytes := by
  have small := mod_lt pos fs.positive
  by_cases inside : pos ≤ bytes.length
  · obtain ⟨next, done, same, here, held⟩ | ⟨next, done, same, here, stale, -⟩ :=
      sound.seek_inside inside
    · rw [fileLseek, done]
      exact same.sound sound (here.2.symm ▸ small) pos (held.attached here)
    · have position : next.position = file.position := by rw [same]
      rw [fileLseek, done]
      dsimp only
      rw [if_neg Bool.false_ne_true, ← position]
      exact same.sound sound (here.2.symm ▸ small) next.position (.inr stale)
  · rw [fileLseek, fileSeek, sound.size, if_neg inside]
    exact ⟨⟨{ sound with }, sound.sizeCount,
      sound.sizeOffset⟩, .free rfl⟩

/-- What a request leaves alone. -/
theorem request_frame (file : State) (block : Nat) (read : Bool) (noise : Nat → UInt8) :
    request file block read noise = { file with
      buffer := some block
      media := (request file block read noise).media } ∧
    (∀ other ≠ block, (request file block read noise).media other = file.media other) ∧
    (file.buffer = some block ∨ read = true → (request file block read noise).media = file.media) := by
  by_cases attached : file.buffer = some block
  · rw [request, if_pos attached, ← attached]
    exact ⟨rfl, fun _ _ => rfl, fun _ => rfl⟩
  · rw [request, if_neg attached]
    refine ⟨rfl, ?_, ?_⟩
    · intro other elsewhere
      split
      · rfl
      · exact update_of_ne elsewhere _ _
    · rintro (same | rfl)
      · exact absurd same attached
      · rfl

theorem fillLength_eq {boff : Nat} (count : Nat) (room : boff < fs.blockSize) :
    fillLength fs boff count = boff + min count (fs.blockSize - boff) := by
  rw [fillLength]
  split
  next short => omega
  next long => omega

/-- The zeros that go to one block. -/
theorem fill_spec (fs : FileSystem) (supply : Supply) (round : Nat) (file : State)
    (block : Nat) {boff : Nat} (count : Nat) (room : boff < fs.blockSize) :
    let size := min count (fs.blockSize - boff)
    let next := fill fs supply round file block boff count
    next = { file with
      offset := (boff + size) % fs.blockSize
      buffer := none
      media := next.media } ∧
    (∀ other ≠ block, next.media other = file.media other) ∧
    (∀ index item, (replicate size (0 : UInt8))[index]? = some item →
      next.media block (boff + index) = item) ∧
    (file.buffer = some block ∨ count < fs.blockSize - boff → ∀ index, index < boff →
      next.media block index = file.media block index) := by
  intro size next
  have length : fillLength fs boff count = boff + size := fillLength_eq count room
  have off : (if decide (count < fs.blockSize - boff) = true then boff + size else 0) =
      (boff + size) % fs.blockSize := by
    split
    next short =>
      rw [decide_eq_true_eq] at short
      rw [Nat.mod_eq_of_lt (by omega)]
    next long =>
      rw [decide_eq_true_eq] at long
      rw [show boff + size = fs.blockSize by omega, Nat.mod_self]
  have filled : next = { putBytes (request { file with offset := (boff + size) % fs.blockSize }
      block (decide (count < fs.blockSize - boff)) (supply.noise round)) block boff
        (replicate size 0) with buffer := none } := by
    simp only [next, fill, length, off, Nat.add_sub_cancel_left]
  obtain ⟨same, elsewhere, kept⟩ := request_frame
    { file with offset := (boff + size) % fs.blockSize } block
    (decide (count < fs.blockSize - boff)) (supply.noise round)
  obtain ⟨apart, written, rest⟩ := putBytes_media (request
    { file with offset := (boff + size) % fs.blockSize } block
    (decide (count < fs.blockSize - boff)) (supply.noise round)) block boff (replicate size 0)
  refine ⟨?_, ?_, ?_, ?_⟩
  · rw [filled, putBytes, same]
  · intro other ne
    rw [filled]
    exact (apart other ne).trans (elsewhere other ne)
  · intro index item present
    rw [filled]
    exact written index item present
  · intro read index before
    rw [filled]
    refine (rest index (.inl before)).trans ?_
    rw [kept (read.imp id decide_eq_true)]

/-- A round fills the last block, or a new one when that is full. The bytes of the last
block stay if it is read or its buffer is still there. -/
theorem Core.grow_round (core : Core fs file bytes) (more : 0 < count)
    (kept : file.offset = 0 ∨ count < fs.blockSize - file.offset ∨
      file.buffer = file.blocks.getLast?) (supply : Supply) (round : Nat) :
    ∃ size next, growRound fs supply round file count = (count - size, next) ∧ 0 < size ∧
      size ≤ count ∧ Core fs next (bytes ++ replicate size 0) ∧ next.buffer = none ∧
      (size < count → next.offset = 0) := by
  have small := mod_lt bytes.length fs.positive
  rw [← core.offset] at small
  have split := div_add_mod' bytes.length fs.blockSize
  generalize sized : min count (fs.blockSize - file.offset) = size
  have zeros : (replicate size (0 : UInt8)).length = size := List.length_replicate
  have left : fillLength fs file.offset count - file.offset = size := by
    rw [fillLength_eq count small, sized, Nat.add_sub_cancel_left]
  -- What both cases have in common: the new size and the rest of the state.
  have off : (file.offset + size) % fs.blockSize =
      (bytes ++ replicate size 0).length % fs.blockSize := by
    rw [length_append, zeros, core.offset, Nat.mod_add_mod]
  have aligned : size < count → (file.offset + size) % fs.blockSize = 0 := by
    intro less
    rw [show file.offset + size = fs.blockSize by omega, Nat.mod_self]
  by_cases full : bytes.length % fs.blockSize = 0
  · have start : file.offset = 0 := core.offset.trans full
    have pages : file.blocks.length = bytes.length / fs.blockSize := by
      rw [core.stored.count, pageCount, if_pos full]
    have missing : file.blocks[File.sizeBno file.blocks.length file.offset]? = none := by
      rw [List.getElem?_eq_none_iff, core.sizeBno, pages]
    obtain ⟨same, elsewhere, written, -⟩ := fill_spec fs supply round
      { file with blocks := file.blocks ++ [supply.next round file.blocks], offset := 0 }
      (supply.next round file.blocks) count small
    rw [sized] at same written
    have filled : growRound fs supply round file count = (count - size, fill fs supply round
        { file with blocks := file.blocks ++ [supply.next round file.blocks], offset := 0 }
        (supply.next round file.blocks) file.offset count) := by
      simp only [growRound, missing, left]
    refine ⟨size, _, filled, by omega, by omega, ⟨?_, ?_, ?_, ?_⟩, ?_, ?_⟩
    · rw [same]
      refine core.stored.open_page (by rw [pages]; omega) fs.positive _ (by omega) (by omega) ?_ ?_
      · intro address member index
        rw [elsewhere address fun equal => supply.fresh round file.blocks (equal ▸ member)]
      · intro index item present
        have read := written index item present
        rwa [show file.offset + index = index by omega] at read
    · rw [same, ← List.concat_eq_append]
      exact core.nodup.concat (supply.fresh round file.blocks)
    · rw [same]
      exact off
    · rw [same]
      exact core.boff
    · rw [same]
    · rw [same]
      exact aligned
  · obtain ⟨front, block, blocks, index⟩ := core.stored.last_page full
    have present : file.blocks[File.sizeBno file.blocks.length file.offset]? = some block := by
      rw [core.sizeBno, blocks, ← index, List.getElem?_concat_length]
    have last : file.blocks.getLast? = some block := by rw [blocks, List.getLast?_concat]
    obtain ⟨same, elsewhere, written, unchanged⟩ := fill_spec fs supply round { file with
        mapBno := File.sizeBno file.blocks.length file.offset
        mapBoff := file.offset } block count small
    have kept := unchanged (by
      obtain start | short | attached := kept
      · exact absurd (core.offset.symm.trans start) full
      · exact .inr short
      · exact .inl (attached.trans last))
    rw [sized] at same written
    have filled : growRound fs supply round file count = (count - size, fill fs supply round
        { file with
          mapBno := File.sizeBno file.blocks.length file.offset
          mapBoff := file.offset } block file.offset count) := by
      simp only [growRound, present, left]
    refine ⟨size, _, filled, by omega, by omega, ⟨?_, ?_, ?_, ?_⟩, ?_, ?_⟩
    · rw [same]
      rw [core.sizeBno] at present
      have spliced := core.stored.splice core.nodup (replicate size 0) present
        (by omega) fs.positive (by rw [core.offset]; omega)
        (fun other ne index => by rw [elsewhere other ne]) written
        (fun index small outside before => kept index (by
          have := core.offset
          omega))
      rw [core.offset, split, take_length, List.drop_of_length_le (Nat.le_add_right _ _),
        append_nil] at spliced
      rw [core.offset]
      exact spliced
    · rw [same]
      exact core.nodup
    · rw [same]
      exact off
    · rw [same]
      exact core.boff
    · rw [same]
    · rw [same]
      exact aligned

/-- The loop that makes a file longer adds zeros. -/
theorem Core.grow_loop (supply : Supply) (rounds : Nat) (enough : count ≤ rounds)
    (core : Core fs file bytes) (more : 0 < count) (kept : file.offset = 0 ∨ count < fs.blockSize -
      file.offset ∨ file.buffer = file.blocks.getLast?) :
    Core fs (growLoop fs supply rounds file count) (bytes ++ replicate count 0) ∧
      (growLoop fs supply rounds file count).buffer = none := by
  induction rounds generalizing file bytes count with
  | zero => omega
  | succ rounds ih =>
    obtain ⟨size, next, round, pos, few, core, free, aligned⟩ :=
      core.grow_round more kept supply rounds
    rw [growLoop, if_neg (by omega), round]
    by_cases finished : size = count
    · subst finished
      rw [Nat.sub_self]
      cases rounds with
      | zero => exact ⟨core, free⟩
      | succ rounds =>
        exact ⟨core, free⟩
    · have rest := ih (by omega) core (show 0 < count - size by omega) (.inl (aligned (by omega)))
      rwa [append_assoc, List.replicate_append_replicate,
        show size + (count - size) = count by omega] at rest

/-- The blocks of the map are cut off, and it is no longer searched behind its end. -/
theorem mapShrink_frame (file : State) (blocks : Nat) : mapShrink file blocks = { file with
      blocks := file.blocks.take (file.blocks.length - blocks)
      offset := if file.blocks.length = 0 then file.offset else 0
      mapBno := (mapShrink file blocks).mapBno
      mapBoff := (mapShrink file blocks).mapBoff } := by
  by_cases empty : file.blocks.length = 0
  · rw [mapShrink, if_pos empty, if_pos empty, List.length_eq_zero_iff.mp empty, take_nil,
      ← List.length_eq_zero_iff.mp empty]
  · rw [mapShrink, if_neg empty, if_neg empty]
    dsimp only
    split
    · rfl
    · rfl

/-- The last block is not among those that stay. -/
theorem last_not_mem_take {blocks : List Nat} {index : Nat} (nodup : blocks.Nodup)
    (present : blocks[index]? = some block) (cut : count ≤ index) : block ∉ blocks.take count := by
  intro member
  obtain ⟨other, found⟩ := List.mem_iff_getElem?.mp member
  have short := (List.getElem?_eq_some_iff.mp found).1
  rw [length_take] at short
  rw [List.getElem?_take_of_lt (by omega)] at found
  have same := (List.getElem?_inj (List.getElem?_eq_some_iff.mp found).1 nodup).mp
    (found.trans present.symm)
  omega

/-- A file that is made shorter keeps its first bytes. A buffer of a block that is given
back stays with the handle. -/
theorem Sound.shrink {newSize : Nat}
    (sound : Sound fs file bytes) (some_bytes : 0 < newSize) (less : newSize < bytes.length) :
    Core fs (shrinkFile fs file newSize) (bytes.take newSize) ∧
      Attached fs (shrinkFile fs file newSize) (bytes.take newSize) := by
  have small := mod_lt newSize fs.positive
  have size : (bytes.take newSize).length = newSize := by
    rw [length_take, Nat.min_eq_left (Nat.le_of_lt less)]
  have known := sound.count
  have needed := (pageCount_eq_iff fs.positive newSize _).mp rfl
  have pages : (newSize - 1) / fs.blockSize + 1 = pageCount fs.blockSize newSize := by
    rw [← pageCount_succ fs.positive, Nat.sub_add_cancel some_bytes]
  have fewer : pageCount fs.blockSize newSize ≤ file.blocks.length := by
    have below : pageCount fs.blockSize newSize * fs.blockSize <
        (file.blocks.length + 1) * fs.blockSize := by
      rw [succ_mul]
      omega
    exact Nat.le_of_lt_succ (Nat.lt_of_mul_lt_mul_right below)
  have taken := sound.stored.take fs.positive (Nat.le_of_lt less)
  have bno : sizeBno (pageCount fs.blockSize newSize) (newSize % fs.blockSize) =
      newSize / fs.blockSize := by
    rw [sizeBno, pageCount]
    by_cases full : newSize % fs.blockSize = 0
    · rw [if_pos full, if_pos full]
    · rw [if_neg full, if_neg full, Nat.add_sub_cancel]
  -- The map after the blocks are given back.
  obtain ⟨cut, cutting, same, whole⟩ : ∃ cut : State,
      (if file.blocks.length - pageCount fs.blockSize newSize = 0 then file
        else mapShrink file (file.blocks.length - pageCount fs.blockSize newSize)) = cut ∧
      cut = { file with
        blocks := file.blocks.take (pageCount fs.blockSize newSize)
        offset := cut.offset
        mapBno := cut.mapBno
        mapBoff := cut.mapBoff } ∧
      (file.blocks.length = pageCount fs.blockSize newSize → cut = file) := by
    by_cases none : file.blocks.length - pageCount fs.blockSize newSize = 0
    · refine ⟨file, if_pos none, ?_, fun _ => rfl⟩
      rw [List.take_of_length_le (by omega)]
    · refine ⟨_, if_neg none, ?_, fun equal => absurd (by omega) none⟩
      nth_rewrite 1 [mapShrink_frame]
      rw [Nat.sub_sub_self fewer, mapShrink_frame]
  have length : cut.blocks.length = pageCount fs.blockSize newSize := by
    rw [same, length_take, Nat.min_eq_left fewer]
  have media : cut.media = file.media := by rw [same]
  have blocks : cut.blocks = file.blocks.take (pageCount fs.blockSize newSize) := by rw [same]
  -- The position of the handle is kept or moved to the new end.
  obtain ⟨next, result, last, inner, moved⟩ : ∃ next, shrinkFile fs file newSize = next ∧
      next = { cut with offset := newSize % fs.blockSize, bno := next.bno, boff := next.boff } ∧
      next.boff < fs.blockSize ∧ (next.bno = file.bno ∨ next.bno = newSize / fs.blockSize) := by
    rw [shrinkFile, pages, cutting]
    split
    · refine ⟨_, rfl, rfl, small, .inr ?_⟩
      rw [length, bno]
    · refine ⟨_, rfl, rfl, ?_, .inl ?_⟩
      · rw [same]
        exact sound.boff
      · rw [same]
  have kept : next.blocks = file.blocks.take (pageCount fs.blockSize newSize) := by
    rw [last, blocks]
  have buf : next.buffer = file.buffer := by rw [last, same]
  have position : next.position = file.position := by rw [last, same]
  rw [result]
  refine ⟨⟨?_, ?_, ?_, inner⟩, ?_⟩
  · rw [kept, last, media]
    exact taken
  · rw [kept]
    exact sound.nodup.sublist (List.take_sublist _ _)
  · rw [last, size]
  obtain ⟨held, behind⟩ | stale := sound.buffer
  · by_cases all : file.blocks.length = pageCount fs.blockSize newSize
    · -- The block of the buf is still the last one.
      have partly : newSize % fs.blockSize ≠ 0 := by
        intro full
        have split := div_add_mod' newSize fs.blockSize
        rw [all, pageCount, if_pos full] at known
        omega
      have stays : file.buffer ≠ none → next.bno = file.bno := by
        intro attached
        obtain ⟨block, attached⟩ := Option.ne_none_iff_exists'.mp attached
        have top := (held block attached).2.1
        rw [all, pageCount, if_neg partly] at top
        omega
      refine .inl ⟨?_, ?_⟩
      · intro block attached
        rw [buf] at attached
        obtain ⟨present, top, searched, -⟩ := held block attached
        rw [kept, stays (by rw [attached]; exact some_ne_none block), ← all, take_length, size]
        refine ⟨present, top, ?_, partly⟩
        rw [last, whole all]
        exact searched
      · intro attached
        rw [buf] at attached
        rw [stays attached, position]
        exact behind attached
    · refine .inr ?_
      intro block attached
      rw [buf] at attached
      obtain ⟨present, top, -, -⟩ := held block attached
      have below := behind (by rw [attached]; exact some_ne_none block)
      have before : pageCount fs.blockSize newSize ≤ file.bno := by omega
      have bound := Nat.mul_le_mul_right fs.blockSize before
      rw [kept, position, size]
      exact ⟨last_not_mem_take sound.nodup present before, by omega⟩
  · refine .inr ?_
    intro block attached
    rw [buf] at attached
    obtain ⟨gone, behind⟩ := stale block attached
    rw [kept, position, size]
    exact ⟨fun member => gone (List.mem_of_mem_take member), by omega⟩

/-- The size of a file is set. Behind the old end there are zeros. -/
theorem Sound.setSize {newSize : Nat} (sound : Sound fs file bytes) (supply : Supply)
    (growable : fileSize fs file < newSize → Growable fs file newSize) :
    Sound fs (setSize fs supply file newSize) ((extend bytes newSize).take newSize) ∧
      (bytes.length < newSize → (setSize fs supply file newSize).buffer = none) := by
  rw [Growable, sound.size] at growable
  rw [File.setSize, sound.size, extend]
  by_cases same : bytes.length = newSize
  · rw [if_pos same, ← same, Nat.sub_self, List.replicate_zero, append_nil, take_length]
    exact ⟨sound, fun less => absurd less (Nat.lt_irrefl _)⟩
  rw [if_neg same]
  by_cases empty : newSize = 0
  · have some_blocks : file.blocks.length ≠ 0 := by
      intro none
      have count := sound.count
      rw [none] at count
      omega
    rw [if_pos empty, empty, take_zero, mapShrink_frame, if_neg some_blocks, Nat.sub_self,
      take_zero]
    refine ⟨⟨⟨⟨.nil _ fs.positive, List.nodup_nil, (Nat.zero_mod _).symm, sound.boff⟩, rfl, rfl⟩,
      .inr ?_⟩, fun less => absurd less (Nat.not_lt_zero _)⟩
    · intro block attached
      exact ⟨List.not_mem_nil, Nat.zero_le _⟩
  rw [if_neg empty]
  by_cases longer : bytes.length < newSize
  · have kept : file.offset = 0 ∨ newSize - bytes.length < fs.blockSize - file.offset ∨
        file.buffer = file.blocks.getLast? := by
      have split := div_add_mod' bytes.length fs.blockSize
      rw [sound.offset]
      obtain full | inside | attached := growable longer
      · exact .inl full
      · rw [succ_mul] at inside
        exact .inr (.inl (by omega))
      · exact .inr (.inr attached)
    obtain ⟨core, free⟩ := sound.grow_loop supply (newSize - bytes.length) (Nat.le_refl _)
      (by omega) kept
    rw [if_pos longer, List.take_of_length_le (by
      rw [length_append, List.length_replicate]
      omega)]
    exact ⟨⟨⟨{ core with }, rfl, rfl⟩, .free free⟩,
      fun _ => free⟩
  · obtain ⟨core, attached⟩ := sound.shrink (show 0 < newSize by omega) (by omega)
    rw [if_neg longer, show newSize - bytes.length = 0 by omega, List.replicate_zero, append_nil]
    exact ⟨⟨⟨{ core with }, rfl, rfl⟩, attached⟩,
      fun less => absurd less longer⟩

/-- The bytes with zeros up to the position of the write. -/
theorem length_extend (bytes : List UInt8) (size : Nat) :
    (extend bytes size).length = max bytes.length size := by
  rw [extend, length_append, List.length_replicate]
  omega

theorem extend_of_le {size : Nat} (inside : size ≤ bytes.length) : extend bytes size = bytes := by
  rw [extend, Nat.sub_eq_zero_of_le inside, List.replicate_zero, append_nil]

section

variable (sound : Sound fs file bytes) (supply : Supply)
  (careful : Careful fs ⟨file, bytes⟩ (.write data, supply))
include sound careful

/-- A write starts at a position of the file, with no buffer of another block. -/
theorem Sound.write_start (position : writePosition file bytes.length = pos) :
    ∃ next, writeStart fs supply file = some (pos, next) ∧ Sized fs next (extend bytes pos) ∧
      Attached fs { next with position := pos } (extend bytes pos) ∧
      (data ≠ [] → Held fs next (extend bytes pos) ∧ At fs next pos ∧
        EndsOutside fs (extend bytes pos).length (pos + data.length)) := by
  rw [Careful, CarefulWrite, sound.size] at careful
  dsimp only at careful
  rw [writePosition] at position
  rw [writeStart, sound.size, EndsOutside, length_extend]
  by_cases behind : bytes.length < file.position
  · rw [if_pos behind] at careful
    rw [if_neg (by omega)] at position
    subst position
    obtain ⟨grown, free⟩ := sound.setSize supply (fun _ => careful)
    rw [List.take_of_length_le (by rw [length_extend]; omega)] at grown
    rw [if_pos behind]
    refine ⟨_, rfl, ⟨⟨grown.stored, grown.nodup, grown.offset, mod_lt _ fs.positive⟩,
      grown.sizeCount, grown.sizeOffset⟩, .free (free behind), fun _ => ?_⟩
    exact ⟨.free (free behind), ⟨rfl, rfl⟩, by omega⟩
  rw [if_neg behind] at careful ⊢
  by_cases append : file.position < bytes.length ∧ file.append = true
  · rw [if_pos append] at position ⊢
    subst position
    obtain ⟨next, done, same, here, held⟩ | ⟨-, -, -, -, -, stale⟩ :=
      sound.seek_inside (Nat.le_refl bytes.length)
    · have small : next.boff < fs.blockSize := by
        rw [here.2]
        exact mod_lt _ fs.positive
      have attached := held.attached here
      have moved := same.sound sound small bytes.length attached
      rw [done, extend_of_le (Nat.le_refl _)]
      refine ⟨next, rfl, ⟨⟨moved.stored, moved.nodup, moved.offset, small⟩, moved.sizeCount,
        moved.sizeOffset⟩, attached, fun _ => ⟨held, here, by omega⟩⟩
    · omega
  · rw [if_neg append] at position careful ⊢
    subst position
    rw [extend_of_le (by omega)]
    refine ⟨file, rfl, sound.toSized, sound.buffer, fun more => ?_⟩
    obtain ⟨here, buf, outside⟩ := careful more
    refine ⟨?_, here, by rwa [Nat.max_eq_left (by omega)]⟩
    obtain ⟨held, -⟩ | stale := sound.buffer
    · exact held
    · intro block attached
      obtain none | present := buf
      · rw [none] at attached
        cases attached
      · have member := List.mem_of_getElem? (present.symm.trans attached)
        exact absurd member (stale block attached).1

/-- A write replaces the bytes from its position on and moves the offset behind them. -/
theorem Sound.write :
    (fileWrite fs supply file data).1 = true ∧ (fileWrite fs supply file data).2.position =
        writePosition file bytes.length + data.length ∧ Sound fs (fileWrite fs supply file data).2
        (overwrite (extend bytes (writePosition file bytes.length))
          (writePosition file bytes.length) data) := by
  generalize position : writePosition file bytes.length = pos
  obtain ⟨next, begun, sized, attached, ready⟩ := sound.write_start supply careful position
  rw [fileWrite, begun]
  refine ⟨rfl, rfl, ?_⟩
  by_cases empty : data = []
  · subst empty
    rw [overwrite_nil]
    exact ⟨⟨{ sized with }, sized.sizeCount,
      sized.sizeOffset⟩, attached⟩
  · obtain ⟨held, here, outside⟩ := ready empty
    obtain ⟨written, free⟩ := sized.write_loop supply data.length (Nat.le_refl _) held
      (by rw [length_extend]; exact Nat.le_max_right _ _) here empty outside
    exact ⟨{ written with }, .free free⟩

end

/-- A call keeps the file and its bytes together. -/
theorem Sound.step {tracked next : Tracked} {input : Operation × Supply}
    (sound : Sound fs tracked.file tracked.bytes) (careful : Careful fs tracked input)
    (taken : step fs tracked input = some next) : Sound fs next.file next.bytes := by
  obtain ⟨operation, supply⟩ := input
  cases operation with
  | read count =>
    cases taken
    exact (sound.read supply count careful).2.2
  | write data =>
    cases taken
    exact (sound.write supply careful).2.2
  | lseek pos =>
    cases taken
    exact sound.lseek pos
  | ftruncate newSize =>
    cases taken
    exact (sound.setSize supply careful).1

/-- In every run of careful calls an open file is a byte array. Its size is the number of
bytes. A read returns the bytes at the offset of the descriptor and moves it behind them.
A write succeeds, moves the offset behind what was written and makes the size the larger
one, and `ftruncate` makes it the given one. -/
theorem runs_are_byte_arrays (fs : FileSystem) (past : List Tracked) (tracked : Tracked)
    (run : Trace (Initial fs) (Careful fs) (step fs) past tracked) :
    fileSize fs tracked.file = tracked.bytes.length ∧
    (∀ count supply, Careful fs tracked (.read count, supply) →
      (fileRead fs supply tracked.file count).1 =
          (tracked.bytes.drop tracked.file.position).take count ∧
        (fileRead fs supply tracked.file count).2.position = tracked.file.position +
          (fileRead fs supply tracked.file count).1.length) ∧
    (∀ data supply, Careful fs tracked (.write data, supply) →
      let pos := writePosition tracked.file tracked.bytes.length
      (fileWrite fs supply tracked.file data).1 = true ∧
        (fileWrite fs supply tracked.file data).2.position = pos + data.length ∧
        fileSize fs (fileWrite fs supply tracked.file data).2 =
          max tracked.bytes.length (pos + data.length)) ∧
    ∀ newSize supply, Careful fs tracked (.ftruncate newSize, supply) →
      fileSize fs (setSize fs supply tracked.file newSize) = newSize := by
  have sound : Sound fs tracked.file tracked.bytes := by
    refine run.invariant (fun tracked => Sound fs tracked.file tracked.bytes) ?_ ?_
    · intro tracked begins
      have inside : tracked.file.boff < fs.blockSize := by
        rw [begins.position.2]
        exact fs.positive
      exact ⟨⟨⟨begins.stored, begins.nodup, begins.size.1, inside⟩, begins.size.2.1,
        begins.size.2.2⟩, .free begins.buffer⟩
    · intro tracked input next sound careful taken
      exact sound.step careful taken
  refine ⟨sound.size, ?_, ?_, ?_⟩
  · intro count supply careful
    obtain ⟨data, position, -⟩ := sound.read supply count careful
    exact ⟨data, by rw [data, position]⟩
  · intro data supply careful
    obtain ⟨done, position, written⟩ := sound.write supply careful
    refine ⟨done, position, ?_⟩
    rw [written.size, length_overwrite _ _ (by rw [length_extend]; exact Nat.le_max_right _ _),
      length_extend]
    omega
  · intro newSize supply careful
    rw [(sound.setSize supply careful).1.size, List.length_take, length_extend]
    omega

instance (fs : FileSystem) (tracked : Tracked) (input : Operation × Supply) :
    Decidable (Careful fs tracked input) :=
  match input with
  | (.read _, _) => inferInstanceAs (Decidable (_ → _ → _))
  | (.write _, _) => inferInstanceAs (Decidable (CarefulWrite _ _ _))
  | (.lseek _, _) => .isTrue trivial
  | (.ftruncate _, _) => inferInstanceAs (Decidable (_ → _))

/-- Blocks of four bytes. -/
def small : FileSystem where
  blockSize := 4
  positive := by decide
  narrow := by decide

/-- Blocks are taken behind those of the map, and a buffer that is not read is full of
ones. -/
def supply : Supply where
  next _ blocks := blocks.sum + 1
  noise _ _ := 1
  fresh := by
    intro _ blocks member
    have := List.le_sum_of_mem member
    omega

/-- An empty file. -/
def start : Tracked where
  file :=
    { blocks := []
      offset := 0
      mapBno := 0
      mapBoff := 0
      sizeCount := 0
      sizeOffset := 0
      bno := 0
      boff := 0
      buffer := none
      position := 0
      append := false
      media := fun _ _ => 0 }
  bytes := []

theorem start_initial (fs : FileSystem) : Initial fs start where
  stored := .nil _ fs.positive
  nodup := List.nodup_nil
  size := ⟨(Nat.zero_mod _).symm, rfl, rfl⟩
  position := ⟨rfl, rfl⟩
  buffer := rfl

/-- Ten bytes are written, two of them are replaced, the file is read to its end, made
longer and shorter again. -/
theorem runs_are_byte_arrays_small :
    ∃ (past : List Tracked) (tracked : Tracked),
      Trace (Initial small) (Careful small) (step small) past tracked ∧
      (tracked.bytes, tracked.file.blocks, tracked.file.position) =
        ([2, 3, 4, 9, 8, 7, 8], [1, 2], 3) ∧ fileSize small tracked.file = 7 ∧
      (fileRead small supply tracked.file 3).1 = [9, 8, 7] := by
  obtain ⟨past, tracked, run, seen⟩ := Trace.observe (Careful small) (step small) start
    (start_initial small)
    [(.write [2, 3, 4, 5, 6, 7, 8, 9, 10, 11], supply), (.lseek 3, supply),
      (.write [9, 8], supply), (.read 9, supply), (.ftruncate 11, supply), (.ftruncate 7, supply),
      (.lseek 3, supply)]
    (fun tracked => ((tracked.bytes, tracked.file.blocks, tracked.file.position),
      decide (Careful small tracked (.read 3, supply))))
    (([2, 3, 4, 9, 8, 7, 8], [1, 2], 3), true) (by decide +kernel) (by decide +kernel)
  obtain ⟨size, read, -⟩ := runs_are_byte_arrays small past tracked run
  obtain ⟨shown, careful⟩ := Prod.mk.inj seen
  obtain ⟨bytes, rest⟩ := Prod.mk.inj shown
  obtain ⟨blocks, position⟩ := Prod.mk.inj rest
  refine ⟨past, tracked, run, shown, ?_, ?_⟩
  · rw [size, bytes]
    rfl
  · rw [(read 3 supply (of_decide_eq_true careful)).1, bytes, position]
    rfl

/-- Blocks of 512 bytes. -/
def common : FileSystem where
  blockSize := 512
  positive := by decide
  narrow := by decide

/-- A block is written, and then its first byte again. The file has only one byte then. -/
theorem overwriting_shrinks_full_block :
    ∃ (past : List Tracked) (tracked : Tracked),
      Trace (Initial common) (fun _ _ => True) (step common) past tracked ∧
      (tracked.bytes.length, fileSize common tracked.file) = (512, 1) := by
  exact Trace.observe (fun _ _ => True) (step common) start (start_initial common)
    [(.write (replicate 512 7), supply), (.lseek 0, supply), (.write [8], supply)]
    (fun tracked => (tracked.bytes.length, fileSize common tracked.file)) (512, 1)
    (by decide +kernel) (by decide +kernel)

end Rtems.Rfs.File
