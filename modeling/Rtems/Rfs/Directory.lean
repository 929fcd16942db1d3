import Rtems.Library.ByteString
import Rtems.Library.Transition

/-!
# Directories

A directory is a list of blocks. Variable-length entries are packed from the start of a
block: the inode number, the hash of the name, the length of the entry and the name. The
rest of the block is filled with ones, so that the length of an entry of all ones ends
the entries of a block. An entry goes into the first block that has room for it; removing
one moves the bytes behind it to its place.

A call opens the block map of the directory and closes it again, so the map is the list
of its blocks here. A block that cannot be allocated ends the search for room.
-/

namespace Rtems.Rfs.Directory

open ByteString
open Transition
open Function (update update_of_ne update_self)
open List (append_assoc append_nil drop_left flatten_append flatten_cons length_append length_map
  map_append map_cons map_nil mem_append mem_cons mem_cons_of_mem mem_cons_self nil_append
  replicate take_left)

abbrev Name := List UInt8
abbrev Block := List UInt8

/-- `RTEMS_RFS_DIR_ENTRY_SIZE`. -/
def entrySize : Nat := 10

/-- `RTEMS_RFS_DIR_ENTRY_EMPTY`. -/
def entryEmpty : Nat := 0xffff

/-- `RTEMS_RFS_ROOT_INO`. -/
def rootIno : Nat := 1

/-- `NAME_MAX`. -/
def nameMax : Nat := 255

/-- The part of `rtems_rfs_file_system` for directories. A block holds at least the header
of an entry, since it holds at least one inode. -/
structure FileSystem where
  blockSize : Nat
  maxName : Nat
  inodes : Nat
  header_fits : entrySize < blockSize

/-- The error codes of the directory calls. -/
inductive Errno where
  | enoent
  | eio
  | enospc
deriving DecidableEq, Repr

/-- The internal state of the hash. -/
structure Mixer where
  a : UInt32
  b : UInt32
  c : UInt32

/-- `rot`. -/
def rot (x k : UInt32) : UInt32 := (x <<< k) ||| (x >>> (32 - k))

/-- `mix`. -/
def mix (state : Mixer) : Mixer :=
  let ⟨a, b, c⟩ := state
  let a := (a - c) ^^^ rot c 4
  let c := c + b
  let b := (b - a) ^^^ rot a 6
  let a := a + c
  let c := (c - b) ^^^ rot b 8
  let b := b + a
  let a := (a - c) ^^^ rot c 16
  let c := c + b
  let b := (b - a) ^^^ rot a 19
  let a := a + c
  let c := (c - b) ^^^ rot b 4
  let b := b + a
  ⟨a, b, c⟩

/-- `final`. -/
def final (state : Mixer) : UInt32 :=
  let ⟨a, b, c⟩ := state
  let c := (c ^^^ b) - rot b 14
  let a := (a ^^^ c) - rot c 11
  let b := (b ^^^ a) - rot a 25
  let c := (c ^^^ b) - rot b 16
  let a := (a ^^^ c) - rot c 4
  let b := (b ^^^ a) - rot a 14
  (c ^^^ b) - rot b 24

/-- Four bytes of the key, the least significant first. The bytes behind the end of the
key, which the last block does not add, are zero. -/
def keyWord (key : List UInt8) (index : Nat) : UInt32 :=
  let byte := fun i => (key.getD (index + i) 0).toUInt32
  byte 0 + (byte 1 <<< 8) + (byte 2 <<< 16) + (byte 3 <<< 24)

/-- Add the next twelve bytes of the key. -/
def absorb (state : Mixer) (key : List UInt8) : Mixer :=
  ⟨state.a + keyWord key 0, state.b + keyWord key 4, state.c + keyWord key 8⟩

/-- The loop over the key. -/
def hashLoop : Nat → Mixer → List UInt8 → UInt32
  | 0, state, _ => state.c
  | rounds + 1, state, key =>
    if 12 < key.length then hashLoop rounds (mix (absorb state key)) (key.drop 12)
    else if key.length = 0 then state.c
    else final (absorb state key)

/-- `rtems_rfs_dir_hash`. -/
def dirHash (key : List UInt8) : Nat :=
  let seed : UInt32 := 0xdeadbeef + UInt32.ofNat key.length + 20010928
  (hashLoop (key.length + 1) ⟨seed, seed, seed⟩ key).toNat

/-- `rtems_rfs_dir_entry_ino`. -/
def entryIno (entry : List UInt8) : Nat := read 4 entry

/-- `rtems_rfs_dir_entry_hash`. -/
def entryHash (entry : List UInt8) : Nat := read 4 (entry.drop 4)

/-- `rtems_rfs_dir_entry_length`. -/
def entryLength (entry : List UInt8) : Nat := read 2 (entry.drop 8)

section

variable (fs : FileSystem)

/-- `rtems_rfs_dir_entry_valid`, which holds for the entries to refuse. -/
def dirEntryValid (length ino : Nat) : Prop :=
  length ≤ entrySize ∨ fs.maxName ≤ length ∨ ino < rootIno ∨ fs.inodes < ino
deriving Decidable

/-- The search of `rtems_rfs_dir_lookup_ino` in a block, from an entry on: the inode and
the offset of the entry. The comparison reads as many bytes as the name has, also where
the entry is shorter; it fails here at the end of the block. Every round advances by the
length of an entry. -/
def lookupBlock (fs : FileSystem) (name : Name) :
    Nat → List UInt8 → Nat → Option (Except Errno (Nat × Nat))
  | 0, _, _ => none
  | rounds + 1, entry, boff =>
    if boff < fs.blockSize - entrySize then
      if entryLength entry = entryEmpty then none
      else if dirEntryValid fs (entryLength entry) (entryIno entry) then some (.error .eio)
      else if entryHash entry = dirHash name ∧ (entry.drop entrySize).take name.length = name then
        some (.ok (entryIno entry, boff))
      else lookupBlock fs name rounds (entry.drop (entryLength entry)) (boff + entryLength entry)
    else none

/-- The loop of `rtems_rfs_dir_lookup_ino` over the blocks. The offset that is returned
has 32 bits. -/
def lookupFrom (fs : FileSystem) (name : Name) : Nat → List Block → Except Errno (Nat × Nat)
  | _, [] => .error .enoent
  | bno, block :: rest =>
    match lookupBlock fs name fs.blockSize block 0 with
    | some (.ok (ino, boff)) => .ok (ino, (bno * fs.blockSize + boff) % 2 ^ 32)
    | some (.error errno) => .error errno
    | none => lookupFrom fs name (bno + 1) rest

/-- `rtems_rfs_dir_lookup_ino`. -/
def dirLookupIno (blocks : List Block) (name : Name) : Except Errno (Nat × Nat) :=
  lookupFrom fs name 0 blocks

/-- The fields of an entry are set one after the other. -/
def setEntry (block : Block) (offset : Nat) (name : Name) (ino : Nat) : Block :=
  let block := splice block (offset + 4) (number 4 (dirHash name))
  let block := splice block offset (number 4 ino)
  let block := splice block (offset + 8) (number 2 (entrySize + name.length))
  splice block (offset + entrySize) name

/-- The search of `rtems_rfs_dir_add_entry` for room in a block. -/
def addBlock (fs : FileSystem) (name : Name) (ino : Nat) (block : Block) :
    Nat → Nat → Option (Except Errno Block)
  | 0, _ => none
  | rounds + 1, offset =>
    let entry := block.drop offset
    if offset < fs.blockSize - entrySize then
      if entryLength entry = entryEmpty then
        if name.length + entrySize < fs.blockSize - offset then
          some (.ok (setEntry block offset name ino))
        else none
      else if dirEntryValid fs (entryLength entry) (entryIno entry) then some (.error .eio)
      else addBlock fs name ino block rounds (offset + entryLength entry)
    else none

/-- The blocks that `rtems_rfs_dir_add_entry` grows the map by. The list has the content
on the media of the blocks that can still be allocated. A fresh block is filled with ones
in its buffer, which is marked dirty only if the entry goes into it. -/
def addGrow (fs : FileSystem) (name : Name) (ino : Nat) :
    List Block → Except Errno Unit × List Block
  | [] => (.error .enospc, [])
  | stale :: media =>
    match addBlock fs name ino (replicate fs.blockSize 255) fs.blockSize 0 with
    | some (.ok block) => (.ok (), [block])
    | some (.error errno) => (.error errno, [stale])
    | none =>
      let grown := addGrow fs name ino media
      (grown.1, stale :: grown.2)

/-- `rtems_rfs_dir_add_entry`. -/
def dirAddEntry (fs : FileSystem) (name : Name) (ino : Nat) (media : List Block) :
    List Block → Except Errno Unit × List Block
  | [] => addGrow fs name ino media
  | block :: rest =>
    match addBlock fs name ino block fs.blockSize 0 with
    | some (.ok added) => (.ok (), added :: rest)
    | some (.error errno) => (.error errno, block :: rest)
    | none =>
      let added := dirAddEntry fs name ino media rest
      (added.1, block :: added.2)

/-- The `memmove` and the `memset` of `rtems_rfs_dir_del_entry`. -/
def removeEntry (block : Block) (eoffset elength : Nat) : Block :=
  let remaining := fs.blockSize - (eoffset + elength)
  let block := splice block eoffset ((block.drop (eoffset + elength)).take remaining)
  splice block (eoffset + remaining) (replicate elength 255)

/-- The loop of `rtems_rfs_dir_del_entry` in a block: the block without the entry, and
whether it is empty now. -/
def delBlock (fs : FileSystem) (ino : Nat) (search : Bool) (block : Block) :
    Nat → Nat → Option (Except Errno (Block × Bool))
  | 0, _ => none
  | rounds + 1, eoffset =>
    let entry := block.drop eoffset
    if eoffset < fs.blockSize - entrySize then
      if entryLength entry = entryEmpty then none
      else if dirEntryValid fs (entryLength entry) (entryIno entry) then some (.error .eio)
      else if ino = entryIno entry then
        let removed := removeEntry fs block eoffset (entryLength entry)
        some (.ok (removed,
          decide (entryLength (removed.drop eoffset) = entryEmpty ∧ eoffset = 0)))
      else if search = false then some (.error .eio)
      else delBlock fs ino search block rounds (eoffset + entryLength entry)
    else none

/-- The loop of `rtems_rfs_dir_del_entry` over the blocks. The last block of the map is
given back when it is empty. -/
def delFrom (fs : FileSystem) (ino : Nat) (search : Bool) (eoffset : Nat) :
    List Block → Except Errno (List Block)
  | [] => .error .enoent
  | block :: rest =>
    match delBlock fs ino search block fs.blockSize eoffset with
    | some (.ok (removed, emptied)) =>
      if emptied = true ∧ rest = [] then .ok [] else .ok (removed :: rest)
    | some (.error errno) => .error errno
    | none =>
      match delFrom fs ino search eoffset rest with
      | .ok later => .ok (block :: later)
      | .error errno => .error errno

/-- `rtems_rfs_dir_del_entry`. -/
def dirDelEntry (blocks : List Block) (ino offset : Nat) : Except Errno (List Block) :=
  -- At offset zero the entry is searched for, from the start of every block.
  let bno := offset / fs.blockSize
  match delFrom fs ino (decide (offset = 0)) (offset % fs.blockSize) (blocks.drop bno) with
  | .ok later => .ok (blocks.take bno ++ later)
  | .error errno => .error errno

/-- The fields of `struct dirent` that depend on the entry. -/
structure Dirent where
  dIno : Nat
  dOff : Nat
  dName : Name
deriving DecidableEq, Repr

/-- The loop of `rtems_rfs_dir_read`, with the length that is returned. What remains of
the block behind the entry is counted when no entry can follow. -/
def readFrom (fs : FileSystem) : Nat → Nat → Nat → List Block → Except Errno Dirent × Nat
  | _, _, length, [] => (.error .enoent, length)
  | bno, boff, length, block :: rest =>
    let entry := block.drop boff
    let elength := entryLength entry
    if elength = entryEmpty then readFrom fs (bno + 1) 0 (length + (fs.blockSize - boff)) rest
    else if dirEntryValid fs elength (entryIno entry) then (.error .eio, length)
    else
      let remaining := fs.blockSize - (boff + elength)
      let name := (entry.drop entrySize).take (min (elength - entrySize) nameMax)
      (.ok ⟨entryIno entry, bno * fs.blockSize + boff, name⟩,
        length + elength + if remaining ≤ entrySize then remaining else 0)

/-- `rtems_rfs_dir_read`. -/
def dirRead (blocks : List Block) (offset : Nat) : Except Errno Dirent × Nat :=
  let offset :=
    if fs.blockSize - offset % fs.blockSize ≤ entrySize then
      (offset / fs.blockSize + 1) * fs.blockSize
    else offset
  let bno := offset / fs.blockSize
  readFrom fs bno (offset % fs.blockSize) 0 (blocks.drop bno)

/-- A name with its inode. -/
structure Entry where
  name : Name
  ino : Nat
deriving DecidableEq, Repr

/-- The length of an entry in a block. -/
def Entry.length (entry : Entry) : Nat := entrySize + entry.name.length

/-- The bytes of an entry. -/
def Entry.bytes (entry : Entry) : List UInt8 :=
  number 4 entry.ino ++ (number 4 (dirHash entry.name) ++ (number 2 entry.length ++ entry.name))

/-- The calls accept the entry when they meet it in a block. -/
structure Entry.Good (fs : FileSystem) (entry : Entry) : Prop where
  named : 0 < entry.name.length
  bounded : entry.length < fs.maxName
  ends : entry.length < entryEmpty
  root : rootIno ≤ entry.ino
  inode : entry.ino ≤ fs.inodes
  word : entry.ino < 2 ^ 32

/-- The bytes that entries take. -/
def extent (entries : List Entry) : Nat := (entries.map Entry.length).sum

/-- Entries with bytes of ones behind them. -/
def pack (entries : List Entry) (room : Nat) : List UInt8 :=
  entries.flatMap Entry.bytes ++ replicate room 255

/-- The block of some entries. -/
def image (entries : List Entry) : Block := pack entries (fs.blockSize - extent entries)

/-- The entries that are read from a block, from an offset on. -/
def entriesFrom (fs : FileSystem) : Nat → List UInt8 → Nat → List Entry
  | 0, _, _ => []
  | rounds + 1, entry, boff =>
    if boff < fs.blockSize - entrySize then
      if entryLength entry = entryEmpty then []
      else
        ⟨(entry.drop entrySize).take (entryLength entry - entrySize), entryIno entry⟩ ::
          entriesFrom fs rounds (entry.drop (entryLength entry)) (boff + entryLength entry)
    else []

/-- The entries of every block. -/
def layout (blocks : List Block) : List (List Entry) :=
  blocks.map fun block => entriesFrom fs fs.blockSize block 0

/-- Another entry is taken for the name: it has the same hash, and the name is what is
stored from its name on. -/
def Mistaken (name : Name) (entry : Entry) (behind : List UInt8) : Prop :=
  entry.name ≠ name ∧ dirHash entry.name = dirHash name ∧
    (entry.name ++ behind).take name.length = name
deriving Decidable

/-- No entry before that of the name is taken for it. -/
def ClearBlock (name : Name) (room : Nat) : List Entry → Prop
  | [] => True
  | entry :: rest => entry.name = name ∨ ¬ Mistaken name entry (pack rest room) ∧
      ClearBlock name room rest

/-- No entry before that of the name is taken for it in any block. -/
def Clear (fs : FileSystem) (name : Name) : List (List Entry) → Prop
  | [] => True
  | entries :: rest => ClearBlock name (fs.blockSize - extent entries) entries ∧
      ((∃ entry ∈ entries, entry.name = name) ∨ Clear fs name rest)

/-- A directory with the map from names to inodes that it should be. -/
structure State where
  blocks : List Block
  contents : Name → Option Nat

/-- A directory starts without blocks. -/
def Initial (state : State) : Prop := state.blocks = [] ∧ state.contents = fun _ => none

/-- The calls. An entry is deleted at the offset that a lookup of its name returns. -/
inductive Operation where
  | addEntry (name : Name) (ino : Nat) (media : List Block)
  | delEntry (name : Name)

/-- A call that succeeds. -/
def step (state : State) : Operation → Option State
  | .addEntry name ino media =>
    match dirAddEntry fs name ino media state.blocks with
    | (.ok (), blocks) => some ⟨blocks, Function.update state.contents name (some ino)⟩
    | (.error _, _) => none
  | .delEntry name =>
    match dirLookupIno fs state.blocks name with
    | .ok (ino, offset) =>
      match dirDelEntry fs state.blocks ino offset with
      | .ok blocks => some ⟨blocks, Function.update state.contents name none⟩
      | .error _ => none
    | .error _ => none

/-- A name that is not present is added with a valid inode number; one that is present is
deleted. -/
def Offered (state : State) : Operation → Prop
  | .addEntry name ino _ =>
    state.contents name = none ∧ rootIno ≤ ino ∧ ino ≤ fs.inodes ∧ ino < 2 ^ 32
  | .delEntry name => state.contents name ≠ none

/-- The name of a new entry is not empty and its entry stays below the limits of the
validity test and of the end marker. A deleted entry is the first that is taken for its
name, and its offset has 32 bits. -/
def Careful (state : State) : Operation → Prop
  | .addEntry name _ _ => 0 < name.length ∧ entrySize + name.length < fs.maxName ∧
      entrySize + name.length < entryEmpty
  | .delEntry name => Clear fs name (layout fs state.blocks) ∧
      state.blocks.length * fs.blockSize ≤ 2 ^ 32

/-- The entries that are read one after the other, up to the end of the directory. -/
def Lists (fs : FileSystem) (blocks : List Block) : Nat → List Entry → Prop
  | offset, [] => (dirRead fs blocks offset).1 = .error .enoent
  | offset, entry :: rest =>
    ∃ position length, dirRead fs blocks offset =
        (.ok ⟨entry.ino, position, entry.name.take nameMax⟩, length) ∧
      Lists fs blocks (offset + length) rest

theorem dirHash_bound (key : List UInt8) : dirHash key < 256 ^ 4 := UInt32.toNat_lt _

@[simp] theorem Entry.length_bytes (entry : Entry) : entry.bytes.length = entry.length := by
  simp only [Entry.bytes, Entry.length, entrySize, length_append, length_number]
  omega

variable {entry : Entry}

/-- The inode number is read back. -/
theorem entryIno_bytes (word : entry.ino < 2 ^ 32) (rest : List UInt8) :
    entryIno (entry.bytes ++ rest) = entry.ino := by
  rw [entryIno, Entry.bytes, append_assoc, read_number]
  exact Nat.mod_eq_of_lt word

/-- The hash is read back. -/
theorem entryHash_bytes (entry : Entry) (rest : List UInt8) :
    entryHash (entry.bytes ++ rest) = dirHash entry.name := by
  have skip : (entry.bytes ++ rest).drop 4 =
      number 4 (dirHash entry.name) ++ (number 2 entry.length ++ entry.name ++ rest) := by
    simp [Entry.bytes]
  rw [entryHash, skip, read_number]
  exact Nat.mod_eq_of_lt (dirHash_bound entry.name)

/-- The length is read back. -/
theorem entryLength_bytes (ends : entry.length < entryEmpty)
    (rest : List UInt8) : entryLength (entry.bytes ++ rest) = entry.length := by
  have skip : (entry.bytes ++ rest).drop 8 = number 2 entry.length ++ (entry.name ++ rest) := by
    simp [Entry.bytes, List.drop_append]
  rw [entryLength, skip, read_number]
  exact Nat.mod_eq_of_lt (Nat.lt_of_lt_of_le ends (by decide))

/-- The name follows the header. -/
theorem drop_entrySize_bytes (entry : Entry) (rest : List UInt8) :
    (entry.bytes ++ rest).drop entrySize = entry.name ++ rest := by
  have header : (number 4 entry.ino ++ number 4 (dirHash entry.name) ++
      number 2 entry.length).length = entrySize := by simp [entrySize]
  have split : entry.bytes ++ rest = (number 4 entry.ino ++ number 4 (dirHash entry.name) ++
      number 2 entry.length) ++ (entry.name ++ rest) := by
    simp [Entry.bytes]
  rw [split, ← header]
  exact drop_left

/-- Bytes of ones end the entries. -/
theorem entryLength_ones (room : Nat) (enough : entrySize ≤ room) :
    entryLength (replicate room 255) = entryEmpty := by
  rw [entryLength, List.drop_replicate]
  have ones := read_ones 2 (room - 8) (by unfold entrySize at enough; omega)
  have width : (256 : Nat) ^ 2 = entryEmpty + 1 := rfl
  omega

@[simp] theorem extent_nil : extent [] = 0 := rfl

@[simp] theorem extent_cons (entry : Entry) (rest : List Entry) :
    extent (entry :: rest) = entry.length + extent rest := rfl

@[simp] theorem extent_append (front back : List Entry) :
    extent (front ++ back) = extent front + extent back := by
  simp [extent]

theorem extent_eq_zero (entries : List Entry) : extent entries = 0 ↔ entries = [] := by
  cases entries with
  | nil => simp
  | cons entry rest => simp [Entry.length, entrySize]

theorem pack_cons (entry : Entry) (rest : List Entry) (room : Nat) :
    pack (entry :: rest) room = entry.bytes ++ pack rest room := by
  simp [pack]

theorem length_flatMap_bytes (entries : List Entry) :
    (entries.flatMap Entry.bytes).length = extent entries := by
  induction entries with
  | nil => rfl
  | cons entry rest ih => simp [ih]

theorem pack_append (front back : List Entry) (room : Nat) :
    pack (front ++ back) room = front.flatMap Entry.bytes ++ pack back room := by
  simp [pack]

/-- Advancing over the first entries. -/
theorem drop_pack (front back : List Entry) (room : Nat) :
    (pack (front ++ back) room).drop (extent front) = pack back room := by
  rw [pack_append, ← length_flatMap_bytes]
  exact drop_left

/-- Behind the entries of a block there are bytes of ones. -/
theorem drop_image (fs : FileSystem) (entries : List Entry) :
    (image fs entries).drop (extent entries) = replicate (fs.blockSize - extent entries) 255 := by
  have rest := drop_pack entries [] (fs.blockSize - extent entries)
  rwa [append_nil] at rest

/-- Advancing over an entry. -/
theorem drop_pack_cons (entry : Entry) (rest : List Entry) (room : Nat) :
    (pack (entry :: rest) room).drop entry.length = pack rest room := by
  rw [pack_cons, ← Entry.length_bytes]
  exact drop_left

theorem Entry.Good.accepted {fs : FileSystem} (good : entry.Good fs) :
    ¬ dirEntryValid fs entry.length entry.ino := by
  have named := good.named
  have bounded := good.bounded
  have root := good.root
  have inode := good.inode
  unfold dirEntryValid Entry.length at *
  omega

/-- What a call reads where a good entry stands. -/
theorem Entry.Good.reads {fs : FileSystem} (good : entry.Good fs) (rest : List Entry) (room : Nat) :
    entryLength (pack (entry :: rest) room) = entry.length ∧
      entryIno (pack (entry :: rest) room) = entry.ino ∧ entry.length ≠ entryEmpty := by
  rw [pack_cons]
  exact ⟨entryLength_bytes good.ends _, entryIno_bytes good.word _, Nat.ne_of_lt good.ends⟩

variable {boff : Nat}

/-- There is room for a good entry where it stands. -/
theorem Entry.Good.before_end {fs : FileSystem} (good : entry.Good fs)
    {size : Nat} (fits : boff + entry.length ≤ size) : boff < size - entrySize := by
  have named := good.named
  unfold Entry.length at fits
  omega

/-- The first entry of a name with its offset. -/
def findBlock (name : Name) : List Entry → Nat → Option (Entry × Nat)
  | [], _ => none
  | entry :: rest, boff =>
    if entry.name = name then some (entry, boff) else findBlock name rest (boff + entry.length)

/-- The search in a block finds the entry of the name when no other is taken for it. -/
theorem lookupBlock_pack (fs : FileSystem) (name : Name) (room : Nat) (entries : List Entry)
    (rounds boff : Nat) (good : ∀ entry ∈ entries, entry.Good fs)
    (clear : ClearBlock name room entries) (fits : boff + extent entries + room = fs.blockSize)
    (enough : extent entries ≤ rounds) :
    lookupBlock fs name rounds (pack entries room) boff =
      (findBlock name entries boff).map fun found => .ok (found.1.ino, found.2) := by
  induction entries generalizing rounds boff with
  | nil =>
    cases rounds with
    | zero => rfl
    | succ rounds =>
      simp only [lookupBlock, findBlock, Option.map_none, pack, List.flatMap_nil, nil_append]
      split
      · rw [if_pos (entryLength_ones room (by rw [extent_nil] at fits; omega))]
      · rfl
  | cons entry rest ih =>
    have here := good entry mem_cons_self
    obtain ⟨length, ino, more⟩ := here.reads rest room
    rw [extent_cons] at fits enough
    obtain ⟨rounds, rfl⟩ : ∃ less, rounds = less + 1 :=
      ⟨rounds - 1, by have := here.named; unfold Entry.length at enough; omega⟩
    have hash : entryHash (pack (entry :: rest) room) = dirHash entry.name := by
      rw [pack_cons, entryHash_bytes]
    have stored : (pack (entry :: rest) room).drop entrySize = entry.name ++ pack rest room := by
      rw [pack_cons, drop_entrySize_bytes]
    simp only [lookupBlock, length, ino, hash, stored, drop_pack_cons]
    rw [if_pos (here.before_end (by omega)), if_neg more, if_neg here.accepted]
    by_cases same : entry.name = name
    · rw [if_pos ⟨by rw [same], by rw [same]; exact take_left⟩, findBlock, if_pos same]
      rfl
    · obtain ⟨other, clear⟩ := clear.resolve_left same
      rw [if_neg fun taken => other ⟨same, taken⟩, findBlock, if_neg same]
      exact ih rounds (boff + entry.length)
        (fun entry mem => good entry (mem_cons_of_mem _ mem)) clear (by omega)
        (by have := here.named; unfold Entry.length at enough; omega)

/-- The entries of a block are good and leave a byte free. -/
structure Packed (fs : FileSystem) (entries : List Entry) : Prop where
  good : ∀ entry ∈ entries, entry.Good fs
  fits : extent entries < fs.blockSize

theorem Packed.nil (fs : FileSystem) : Packed fs [] := by
  constructor
  · intro entry mem
    cases mem
  · exact Nat.zero_lt_of_lt fs.header_fits

variable {entries : List Entry} {name : Name} {ino : Nat}

/-- A block takes another entry that it has room for. -/
theorem Packed.concat {fs : FileSystem} (packed : Packed fs entries)
    (good : Entry.Good fs ⟨name, ino⟩)
    (room : name.length + entrySize < fs.blockSize - extent entries) :
    Packed fs (entries ++ [⟨name, ino⟩]) := by
  constructor
  · intro entry mem
    obtain old | new := mem_append.mp mem
    · exact packed.good entry old
    · rwa [List.mem_singleton.mp new]
  · simp only [extent_append, extent_cons, extent_nil, Entry.length]
    omega

theorem Packed.without {fs : FileSystem} {front back : List Entry}
    (packed : Packed fs (front ++ entry :: back)) : Packed fs (front ++ back) := by
  constructor
  · intro other mem
    obtain early | late := mem_append.mp mem
    · exact packed.good other (by simp [early])
    · exact packed.good other (by simp [late])
  · have fits := packed.fits
    rw [extent_append, extent_cons] at fits
    rw [extent_append]
    omega

/-- The entries that are read from a block are those it was packed with. -/
theorem entriesFrom_pack (fs : FileSystem) (room : Nat) (entries : List Entry)
    (rounds boff : Nat) (good : ∀ entry ∈ entries, entry.Good fs)
    (fits : boff + extent entries + room = fs.blockSize) (enough : extent entries ≤ rounds) :
    entriesFrom fs rounds (pack entries room) boff = entries := by
  induction entries generalizing rounds boff with
  | nil =>
    cases rounds with
    | zero => rfl
    | succ rounds =>
      simp only [entriesFrom, pack, List.flatMap_nil, nil_append]
      split
      · rw [if_pos (entryLength_ones room (by rw [extent_nil] at fits; omega))]
      · rfl
  | cons entry rest ih =>
    have here := good entry mem_cons_self
    obtain ⟨length, ino, more⟩ := here.reads rest room
    rw [extent_cons] at fits enough
    obtain ⟨rounds, rfl⟩ : ∃ less, rounds = less + 1 :=
      ⟨rounds - 1, by have := here.named; unfold Entry.length at enough; omega⟩
    have stored : (pack (entry :: rest) room).drop entrySize = entry.name ++ pack rest room := by
      rw [pack_cons, drop_entrySize_bytes]
    have cut : entry.length - entrySize = entry.name.length := by simp [Entry.length]
    simp only [entriesFrom, length, ino, stored, drop_pack_cons, cut, take_left]
    rw [if_pos (here.before_end (by omega)), if_neg more]
    rw [ih rounds (boff + entry.length)
      (fun entry mem => good entry (mem_cons_of_mem _ mem)) (by omega)
      (by have := here.named; unfold Entry.length at enough; omega)]

/-- A packed directory is laid out as its blocks were packed. -/
theorem layout_image (fs : FileSystem) (blocks : List (List Entry))
    (packed : ∀ entries ∈ blocks, Packed fs entries) :
    layout fs (blocks.map (image fs)) = blocks := by
  rw [layout, List.map_map]
  conv_rhs => rw [← List.map_id blocks]
  apply List.map_congr_left
  intro entries mem
  have fits := (packed entries mem).fits
  exact entriesFrom_pack fs _ entries _ 0 (packed entries mem).good (by omega) (by omega)

/-- The entry that is found stands behind other entries of its block. -/
theorem findBlock_some {off : Nat} (found : findBlock name entries boff = some (entry, off)) :
    entry.name = name ∧
      ∃ front back, entries = front ++ entry :: back ∧ off = boff + extent front := by
  induction entries generalizing boff with
  | nil => cases found
  | cons first rest ih =>
    rw [findBlock] at found
    by_cases same : first.name = name
    · rw [if_pos same] at found
      cases found
      exact ⟨same, [], rest, rfl, rfl⟩
    · rw [if_neg same] at found
      obtain ⟨named, front, back, split, pos⟩ := ih found
      refine ⟨named, first :: front, back, by rw [split, List.cons_append], ?_⟩
      rw [pos, extent_cons, Nat.add_assoc]

theorem findBlock_none (missing : findBlock name entries boff = none) : ∀ entry ∈ entries, entry.name ≠ name := by
  induction entries generalizing boff with
  | nil =>
    intro entry mem
    cases mem
  | cons first rest ih =>
    rw [findBlock] at missing
    by_cases same : first.name = name
    · rw [if_pos same] at missing
      cases missing
    · rw [if_neg same] at missing
      intro entry mem
      cases mem with
      | head => exact same
      | tail _ later => exact ih missing entry later

/-- A lookup finds the entry of a name with its offset, or the name is in no block. -/
theorem lookupFrom_image (fs : FileSystem) (name : Name) (blocks : List (List Entry)) (bno : Nat)
    (packed : ∀ entries ∈ blocks, Packed fs entries) (clear : Clear fs name blocks) :
    (∃ before front entry back after, blocks = before ++ (front ++ entry :: back) :: after ∧
        entry.name = name ∧ lookupFrom fs name bno (blocks.map (image fs)) =
          .ok (entry.ino, ((bno + before.length) * fs.blockSize + extent front) % 2 ^ 32)) ∨
      ((∀ entry ∈ blocks.flatten, entry.name ≠ name) ∧
        lookupFrom fs name bno (blocks.map (image fs)) = .error .enoent) := by
  induction blocks generalizing bno with
  | nil => exact .inr ⟨by simp, rfl⟩
  | cons entries rest ih =>
    have here := packed entries mem_cons_self
    obtain ⟨first, others⟩ := clear
    have searched : lookupBlock fs name fs.blockSize (image fs entries) 0 =
        (findBlock name entries 0).map fun found => .ok (found.1.ino, found.2) :=
      lookupBlock_pack fs name _ entries fs.blockSize 0 here.good first
        (by have := here.fits; omega) (Nat.le_of_lt here.fits)
    cases found : findBlock name entries 0 with
    | some pair =>
      obtain ⟨entry, off⟩ := pair
      obtain ⟨named, front, back, split, pos⟩ := findBlock_some found
      rw [found, Option.map_some] at searched
      refine .inl ⟨[], front, entry, back, rest, by rw [split, nil_append], named, ?_⟩
      simp only [map_cons, lookupFrom, searched, List.length_nil, Nat.add_zero]
      rw [pos, Nat.zero_add]
    | none =>
      have missing := findBlock_none found
      rw [found, Option.map_none] at searched
      have skip : lookupFrom fs name bno ((entries :: rest).map (image fs)) =
          lookupFrom fs name (bno + 1) (rest.map (image fs)) := by
        simp only [map_cons, lookupFrom, searched]
      have later := ih (bno + 1) (fun entries mem => packed entries (mem_cons_of_mem _ mem))
        (others.resolve_left fun ⟨entry, mem, same⟩ => missing entry mem same)
      rw [skip]
      obtain ⟨before, front, entry, back, after, split, named, res⟩ | ⟨absent, res⟩ := later
      · refine .inl ⟨entries :: before, front, entry, back, after, by rw [split]; rfl, named, ?_⟩
        rw [res, List.length_cons, Nat.add_right_comm bno 1, Nat.add_assoc bno]
      · refine .inr ⟨?_, res⟩
        intro entry mem
        rw [flatten_cons, mem_append] at mem
        exact mem.elim (missing entry) (absent entry)

/-- The fields of a new entry are its bytes. -/
theorem setEntry_image (fs : FileSystem) (entries : List Entry) (name : Name) (ino : Nat)
    (room : name.length + entrySize < fs.blockSize - extent entries) :
    setEntry (image fs entries) (extent entries) name ino = image fs (entries ++ [⟨name, ino⟩]) := by
  obtain ⟨left, count⟩ : ∃ left, fs.blockSize - extent entries = 4 + 4 + 2 + name.length + left :=
    ⟨fs.blockSize - extent entries - (entrySize + name.length), by unfold entrySize at *; omega⟩
  have after : fs.blockSize - extent (entries ++ [⟨name, ino⟩]) = left := by
    simp only [extent_append, extent_cons, extent_nil, Entry.length, entrySize]
    omega
  have start := length_flatMap_bytes entries
  have before : image fs entries = entries.flatMap Entry.bytes ++ replicate 4 255 ++
      replicate 4 255 ++ replicate 2 255 ++ replicate name.length 255 ++
      replicate left 255 := by
    simp only [image, pack, count, List.replicate_add, append_assoc]
  have spliced : setEntry (image fs entries) (extent entries) name ino =
      entries.flatMap Entry.bytes ++ number 4 ino ++ number 4 (dirHash name) ++
        number 2 (entrySize + name.length) ++ name ++ replicate left 255 := by
    have hash := splice_middle (entries.flatMap Entry.bytes ++ replicate 4 255)
      (replicate 4 255) (replicate 2 255 ++ replicate name.length 255 ++
        replicate left 255) (number 4 (dirHash name)) (extent entries + 4)
      (by simp [start]) (by simp)
    have inode := splice_middle (entries.flatMap Entry.bytes) (replicate 4 255)
      (number 4 (dirHash name) ++ replicate 2 255 ++ replicate name.length 255 ++
        replicate left 255) (number 4 ino) (extent entries) start.symm (by simp)
    have length := splice_middle (entries.flatMap Entry.bytes ++ number 4 ino ++
        number 4 (dirHash name)) (replicate 2 255) (replicate name.length 255 ++
        replicate left 255) (number 2 (entrySize + name.length)) (extent entries + 8)
      (by simp [start]) (by simp)
    have text := splice_middle (entries.flatMap Entry.bytes ++ number 4 ino ++
        number 4 (dirHash name) ++ number 2 (entrySize + name.length))
      (replicate name.length 255) (replicate left 255) name (extent entries + entrySize)
      (by simp [start, entrySize]) (by simp)
    simp only [append_assoc] at hash inode length text before ⊢
    simp only [before, setEntry, hash, inode, length, text]
  rw [spliced, image, after]
  simp [pack, Entry.bytes, Entry.length]

/-- The search for room in a block ends at its last entry. -/
theorem addBlock_image (fs : FileSystem) (name : Name) (ino : Nat) (entries : List Entry)
    (packed : Packed fs entries) (front back : List Entry) (split : entries = front ++ back)
    (rounds : Nat) (enough : extent back < rounds) :
    addBlock fs name ino (image fs entries) rounds (extent front) =
      if name.length + entrySize < fs.blockSize - extent entries then
        some (.ok (image fs (entries ++ [⟨name, ino⟩]))) else none := by
  induction back generalizing front rounds with
  | nil =>
    obtain ⟨rounds, rfl⟩ : ∃ less, rounds = less + 1 := ⟨rounds - 1, by omega⟩
    obtain rfl : entries = front := by rw [split, append_nil]
    simp only [addBlock, drop_image]
    by_cases inside : extent entries < fs.blockSize - entrySize
    · rw [if_pos inside, if_pos (entryLength_ones _ (by omega))]
      by_cases room : name.length + entrySize < fs.blockSize - extent entries
      · rw [if_pos room, if_pos room, setEntry_image fs entries name ino room]
      · rw [if_neg room, if_neg room]
    · rw [if_neg inside, if_neg (by omega)]
  | cons entry rest ih =>
    have here := packed.good entry (by simp [split])
    have fits := packed.fits
    rw [extent_cons] at enough
    obtain ⟨rounds, rfl⟩ : ∃ less, rounds = less + 1 := ⟨rounds - 1, by omega⟩
    have whole : extent entries = extent front + (entry.length + extent rest) := by
      rw [split, extent_append, extent_cons]
    have pointed : (image fs entries).drop (extent front) =
        pack (entry :: rest) (fs.blockSize - extent entries) := by
      rw [image, split, drop_pack]
    obtain ⟨length, inode, more⟩ := here.reads rest (fs.blockSize - extent entries)
    simp only [addBlock, pointed, length, inode]
    rw [if_pos (here.before_end (by omega)), if_neg more, if_neg here.accepted]
    have next := ih (front ++ [entry]) (by rw [split]; simp) rounds
      (by have := here.named; unfold Entry.length at enough; omega)
    rwa [extent_append, extent_cons, extent_nil, Nat.add_zero] at next

/-- A new entry is put behind the entries of a block with room for it, or into a block of
its own. -/
theorem dirAddEntry_image (fs : FileSystem) (name : Name) (ino : Nat) (media : List Block)
    (blocks : List (List Entry)) (packed : ∀ entries ∈ blocks, Packed fs entries)
    {later : List Block}
    (added : dirAddEntry fs name ino media (blocks.map (image fs)) = (.ok (), later)) :
    (∃ before entries after, blocks = before ++ entries :: after ∧
        name.length + entrySize < fs.blockSize - extent entries ∧
        later = (before ++ (entries ++ [⟨name, ino⟩]) :: after).map (image fs)) ∨
      (name.length + entrySize < fs.blockSize ∧
        later = (blocks ++ [[Entry.mk name ino]]).map (image fs)) := by
  induction blocks generalizing later with
  | nil =>
    have search := addBlock_image fs name ino [] ⟨by simp, Nat.zero_lt_of_lt fs.header_fits⟩ [] []
      rfl fs.blockSize (Nat.zero_lt_of_lt fs.header_fits)
    have ones : image fs [] = replicate fs.blockSize 255 := by simp [image, pack]
    rw [ones, extent_nil, Nat.sub_zero] at search
    rw [map_nil, dirAddEntry] at added
    by_cases room : name.length + entrySize < fs.blockSize
    · rw [if_pos room] at search
      cases media with
      | nil => cases added
      | cons stale media =>
        rw [addGrow, search] at added
        cases added
        exact .inr ⟨room, rfl⟩
    · -- A name that no block has room for grows the map until no block is left.
      exfalso
      rw [if_neg room] at search
      induction media generalizing later with
      | nil => cases added
      | cons stale media ih =>
        rw [addGrow, search] at added
        exact ih (Prod.ext (Prod.mk.inj added).1 rfl)
  | cons entries rest ih =>
    have here := packed entries mem_cons_self
    have search := addBlock_image fs name ino entries here [] entries rfl fs.blockSize here.fits
    rw [extent_nil] at search
    rw [map_cons, dirAddEntry, search] at added
    by_cases room : name.length + entrySize < fs.blockSize - extent entries
    · rw [if_pos room] at added
      cases added
      exact .inl ⟨[], entries, rest, rfl, room, rfl⟩
    · rw [if_neg room] at added
      obtain ⟨success, rfl⟩ := Prod.mk.inj added
      have others := ih (fun entries mem => packed entries (mem_cons_of_mem _ mem))
        (Prod.ext success rfl)
      obtain ⟨before, target, after, split, room, res⟩ | ⟨room, res⟩ := others
      · refine .inl ⟨entries :: before, target, after, by rw [split]; rfl, room, ?_⟩
        exact congrArg (image fs entries :: ·) res
      · exact .inr ⟨room, congrArg (image fs entries :: ·) res⟩

/-- Moving the bytes behind an entry to its place removes it. -/
theorem removeEntry_image (fs : FileSystem) (front back : List Entry) (entry : Entry)
    (fits : extent (front ++ entry :: back) < fs.blockSize) :
    removeEntry fs (image fs (front ++ entry :: back)) (extent front) entry.length =
      image fs (front ++ back) := by
  rw [extent_append, extent_cons] at fits
  -- The bytes behind the entry, and what is left of the old ones when they are moved.
  let behind := pack back (fs.blockSize - extent (front ++ entry :: back))
  let stale := (entry.bytes ++ behind).drop behind.length
  have size : behind.length = fs.blockSize - (extent front + entry.length) := by
    simp only [behind, pack, length_append, length_flatMap_bytes, List.length_replicate,
      extent_append, extent_cons]
    omega
  have before : image fs (front ++ entry :: back) =
      front.flatMap Entry.bytes ++ (entry.bytes ++ behind) := by
    rw [image, pack_append, pack_cons]
  have cut : (image fs (front ++ entry :: back)).drop (extent front + entry.length) = behind := by
    rw [before, ← append_assoc, ← length_flatMap_bytes, ← Entry.length_bytes, ← length_append]
    exact drop_left
  have moved : splice (image fs (front ++ entry :: back)) (extent front) behind =
      front.flatMap Entry.bytes ++ behind ++ stale ++ [] := by
    rw [splice, before, ← length_flatMap_bytes, take_left, List.drop_length_add_append, append_nil]
  have filled := splice_middle (front.flatMap Entry.bytes ++ behind) stale []
    (replicate entry.length 255) (extent front + behind.length)
    (by rw [length_append, length_flatMap_bytes])
    (by simp only [stale, List.length_replicate, List.length_drop, length_append,
          Entry.length_bytes]; omega)
  have ones : fs.blockSize - extent (front ++ back) =
      fs.blockSize - extent (front ++ entry :: back) + entry.length := by
    simp only [extent_append, extent_cons]
    omega
  simp only [removeEntry, ← size, cut, List.take_length, moved, filled]
  simp only [image, ones, pack_append, append_nil, behind]
  simp only [pack, append_assoc, List.replicate_add]

/-- Deleting the entry at its offset removes it. The last block goes with its only
entry. -/
theorem dirDelEntry_image (fs : FileSystem) (before after : List (List Entry))
    (front back : List Entry) (entry : Entry) (packed : Packed fs (front ++ entry :: back)) :
    dirDelEntry fs ((before ++ (front ++ entry :: back) :: after).map (image fs)) entry.ino
        (before.length * fs.blockSize + extent front) =
      .ok ((before ++ if front ++ back = [] ∧ after = [] then []
        else (front ++ back) :: after).map (image fs)) := by
  have fits := packed.fits
  have here := packed.good entry (by simp)
  rw [extent_append, extent_cons] at fits
  have number : (before.length * fs.blockSize + extent front) / fs.blockSize = before.length := by
    rw [Nat.mul_comm, Nat.mul_add_div (by omega), Nat.div_eq_of_lt (by omega), Nat.add_zero]
  have off : (before.length * fs.blockSize + extent front) % fs.blockSize = extent front := by
    rw [Nat.mul_comm, Nat.mul_add_mod, Nat.mod_eq_of_lt (by omega)]
  have pointed : (image fs (front ++ entry :: back)).drop (extent front) =
      pack (entry :: back) (fs.blockSize - extent (front ++ entry :: back)) := by
    rw [image, drop_pack]
  obtain ⟨length, ino, more⟩ := here.reads back (fs.blockSize - extent (front ++ entry :: back))
  have empty : (entryLength ((image fs (front ++ back)).drop (extent front)) = entryEmpty ∧
      extent front = 0) ↔ front ++ back = [] := by
    rw [image, drop_pack, extent_eq_zero, List.append_eq_nil_iff, and_comm]
    refine and_congr_right fun _ => ?_
    cases back with
    | nil =>
      have last : entryLength (pack [] (fs.blockSize - extent (front ++ []))) = entryEmpty :=
        entryLength_ones _ (by
          simp only [extent_append, Entry.length] at *
          omega)
      exact iff_of_true last rfl
    | cons next rest =>
      obtain ⟨next_length, -, next_more⟩ := (packed.good next (by simp)).reads rest
        (fs.blockSize - extent (front ++ next :: rest))
      exact iff_of_false (by rwa [next_length]) (List.cons_ne_nil next rest)
  have search (wide : Bool) : delBlock fs entry.ino wide (image fs (front ++ entry :: back))
      fs.blockSize (extent front) =
        some (.ok (image fs (front ++ back), decide (front ++ back = []))) := by
    obtain ⟨rounds, count⟩ : ∃ less, fs.blockSize = less + 1 := ⟨fs.blockSize - 1, by omega⟩
    nth_rewrite 1 [count]
    simp only [delBlock, pointed, length, ino]
    rw [if_pos (here.before_end (by omega)), if_neg more, if_neg here.accepted,
      if_pos trivial, removeEntry_image fs front back entry packed.fits]
    simp only [empty]
  have dropped : ((before ++ (front ++ entry :: back) :: after).map (image fs)).drop
      before.length = image fs (front ++ entry :: back) :: after.map (image fs) := by
    rw [map_append, map_cons, ← length_map (image fs), drop_left]
  have kept : ((before ++ (front ++ entry :: back) :: after).map (image fs)).take
      before.length = before.map (image fs) := by
    rw [map_append, map_cons, ← length_map (image fs), take_left]
  simp only [dirDelEntry, number, off, dropped, kept, delFrom, search]
  by_cases alone : front ++ back = [] ∧ after = []
  · rw [if_pos alone, if_pos ⟨decide_eq_true alone.1, by rw [alone.2, map_nil]⟩]
    simp only [append_nil]
  · rw [if_neg alone, if_neg fun both => alone ⟨of_decide_eq_true both.1,
      List.map_eq_nil_iff.mp both.2⟩]
    rw [map_append, map_cons]

/-- The entries that are still to be read at an offset: it is the place of an entry or of
the bytes behind the last one, or the end of the directory. -/
def Rest (blocks : List (List Entry)) (offset : Nat) (entries : List Entry) : Prop :=
  (∃ before front back after, blocks = before ++ (front ++ back) :: after ∧
      offset = before.length * fs.blockSize + extent front ∧
      extent front + entrySize < fs.blockSize ∧ entries = back ++ after.flatten) ∨
    (offset = blocks.length * fs.blockSize ∧ entries = [])

/-- Behind the last block there is nothing left, and before another one its entries. -/
theorem Rest.start (fs : FileSystem) (before after : List (List Entry)) :
    Rest fs (before ++ after) (before.length * fs.blockSize) after.flatten := by
  cases after with
  | nil => exact .inr ⟨by rw [append_nil], rfl⟩
  | cons entries rest =>
    exact .inl ⟨before, [], entries, rest, rfl, by rw [extent_nil, Nat.add_zero],
      by rw [extent_nil, Nat.zero_add]; exact fs.header_fits, rfl⟩

/-- What a read at an offset returns when some entries are left. -/
def Next (blocks : List (List Entry)) (offset length : Nat) (result : Except Errno Dirent × Nat) :
    List Entry → Prop
  | [] => result.1 = .error .enoent
  | entry :: rest => ∃ position advance,
      result = (.ok ⟨entry.ino, position, entry.name.take nameMax⟩, length + advance) ∧
        Rest fs blocks (offset + advance) rest

end

/-- What is skipped counts for the length. -/
theorem Next.skip {fs : FileSystem} {blocks : List (List Entry)} {off length : Nat}
    {res : Except Errno Dirent × Nat} (skipped : Nat)
    (next : Next fs blocks (off + skipped) (length + skipped) res entries) :
    Next fs blocks off length res entries := by
  cases entries with
  | nil => exact next
  | cons entry rest =>
    obtain ⟨pos, advance, returned, left⟩ := next
    exact ⟨pos, skipped + advance, by rw [returned, Nat.add_assoc], by rwa [← Nat.add_assoc]⟩

section

variable (fs : FileSystem)

theorem readFrom_entry (before after : List (List Entry)) (front back : List Entry)
    (entry : Entry) (length : Nat) (packed : Packed fs (front ++ entry :: back)) :
    Next fs (before ++ (front ++ entry :: back) :: after)
      (before.length * fs.blockSize + extent front) length
      (readFrom fs before.length (extent front) length
        (((front ++ entry :: back) :: after).map (image fs))) (entry :: (back ++ after.flatten)) := by
  have fits := packed.fits
  have here := packed.good entry (by simp)
  rw [extent_append, extent_cons] at fits
  have pointed : (image fs (front ++ entry :: back)).drop (extent front) =
      pack (entry :: back) (fs.blockSize - extent (front ++ entry :: back)) := by
    rw [image, drop_pack]
  obtain ⟨size, ino, more⟩ := here.reads back (fs.blockSize - extent (front ++ entry :: back))
  have name : ((pack (entry :: back) (fs.blockSize - extent (front ++ entry :: back))).drop
      entrySize).take (min (entry.length - entrySize) nameMax) = entry.name.take nameMax := by
    rw [pack_cons, drop_entrySize_bytes, Entry.length, Nat.add_sub_cancel_left, Nat.min_comm,
      ← List.take_take, take_left]
  simp only [map_cons, readFrom, pointed, size, ino, name]
  rw [if_neg more, if_neg here.accepted]
  refine ⟨_, _, by rw [Nat.add_assoc], ?_⟩
  by_cases close : fs.blockSize - (extent front + entry.length) ≤ entrySize
  · -- No other entry fits behind this one, so the next read starts at the next block.
    obtain rfl : back = [] := by
      cases back with
      | nil => rfl
      | cons next rest =>
        have header : entrySize ≤ next.length := Nat.le_add_right _ _
        rw [extent_cons] at fits
        omega
    have start := Rest.start fs (before ++ [front ++ [entry]]) after
    have place : before.length * fs.blockSize + extent front +
        (entry.length + (fs.blockSize - (extent front + entry.length))) =
          (before ++ [front ++ [entry]]).length * fs.blockSize := by
      rw [length_append, List.length_singleton, Nat.succ_mul]
      omega
    rw [if_pos close, place]
    rwa [append_assoc] at start
  · rw [if_neg close, Nat.add_zero]
    refine .inl ⟨before, front ++ [entry], back, after, by simp, ?_, ?_, rfl⟩
    · rw [extent_append, extent_cons, extent_nil, Nat.add_zero, Nat.add_assoc]
    · rw [extent_append, extent_cons, extent_nil]
      omega

/-- Reading behind the last entry of a block goes on with the next block. -/
theorem readFrom_end (bno length : Nat) (entries : List Entry)
    (others : List Block) (room : extent entries + entrySize < fs.blockSize) :
    readFrom fs bno (extent entries) length (image fs entries :: others) =
      readFrom fs (bno + 1) 0 (length + (fs.blockSize - extent entries)) others := by
  rw [readFrom, drop_image, entryLength_ones _ (by omega), if_pos rfl]

/-- Reading returns the first entry from a place on, also when it stands in a later
block. -/
theorem readFrom_place (before after : List (List Entry)) (front back : List Entry) (length : Nat)
    (packed : Packed fs (front ++ back)) (others : ∀ entries ∈ after, Packed fs entries)
    (room : extent front + entrySize < fs.blockSize) :
    Next fs (before ++ (front ++ back) :: after) (before.length * fs.blockSize + extent front) length
      (readFrom fs before.length (extent front) length (((front ++ back) :: after).map (image fs)))
      (back ++ after.flatten) := by
  induction after generalizing before front back length with
  | nil =>
    cases back with
    | cons entry back => exact readFrom_entry fs before [] front back entry length packed
    | nil =>
      rw [append_nil, map_cons, readFrom_end fs _ _ front _ room]
      rfl
  | cons entries rest ih =>
    cases back with
    | cons entry back => exact readFrom_entry fs before (entries :: rest) front back entry length packed
    | nil =>
      have later := ih (before ++ [front]) [] entries
        (length + (fs.blockSize - extent front)) (others entries mem_cons_self)
        (fun entries mem => others entries (mem_cons_of_mem _ mem))
        (by rw [extent_nil, Nat.zero_add]; exact fs.header_fits)
      rw [append_assoc, length_append, List.length_singleton, Nat.succ_mul,
        extent_nil, Nat.add_zero] at later
      rw [append_nil, map_cons, readFrom_end fs _ _ front _ room]
      refine Next.skip (fs.blockSize - extent front) ?_
      rw [Nat.add_assoc, Nat.add_sub_cancel' (by omega)]
      exact later

section

variable (blocks : List (List Entry)) (off : Nat) (entries : List Entry)
  (packed : ∀ entries ∈ blocks, Packed fs entries) (left : Rest fs blocks off entries)
include packed left

/-- A read returns the next entry and how far to go on. -/
theorem dirRead_rest : Next fs blocks off 0 (dirRead fs (blocks.map (image fs)) off) entries := by
  have header := fs.header_fits
  obtain ⟨before, front, back, after, rfl, rfl, room, rfl⟩ | ⟨rfl, rfl⟩ := left
  · have number : (before.length * fs.blockSize + extent front) / fs.blockSize = before.length := by
      rw [Nat.mul_comm, Nat.mul_add_div (by omega), Nat.div_eq_of_lt (by omega), Nat.add_zero]
    have place : (before.length * fs.blockSize + extent front) % fs.blockSize = extent front := by
      rw [Nat.mul_comm, Nat.mul_add_mod, Nat.mod_eq_of_lt (by omega)]
    have dropped : ((before ++ (front ++ back) :: after).map (image fs)).drop before.length =
        ((front ++ back) :: after).map (image fs) := by
      rw [map_append, ← length_map (image fs), drop_left]
    rw [dirRead, place, if_neg (by omega)]
    simp only [number, place, dropped]
    exact readFrom_place fs before after front back 0 (packed _ (by simp))
      (fun entries mem => packed entries (by simp [mem])) room
  · rw [dirRead, Nat.mul_mod_left, if_neg (by omega)]
    have number : blocks.length * fs.blockSize / fs.blockSize = blocks.length :=
      Nat.mul_div_cancel _ (by omega)
    have dropped : (blocks.map (image fs)).drop blocks.length = [] :=
      List.drop_eq_nil_of_le (by rw [length_map])
    simp only [number, dropped]
    rfl

/-- Reading on returns every entry that is left. -/
theorem lists_rest : Lists fs (blocks.map (image fs)) off entries := by
  induction entries generalizing off with
  | nil => exact dirRead_rest fs blocks off [] packed left
  | cons entry rest ih =>
    obtain ⟨pos, advance, returned, further⟩ :=
      dirRead_rest fs blocks off (entry :: rest) packed left
    rw [Nat.zero_add] at returned
    exact ⟨pos, advance, returned, ih (off + advance) further⟩

end

end

/-- The blocks are packed with entries of different names, which are the map. -/
structure Represents (fs : FileSystem) (state : State) (blocks : List (List Entry)) : Prop where
  image : state.blocks = blocks.map (image fs)
  packed : ∀ entries ∈ blocks, Packed fs entries
  names : (blocks.flatten.map Entry.name).Nodup
  contents : ∀ entry, entry ∈ blocks.flatten ↔ state.contents entry.name = some entry.ino

namespace Represents

variable {fs : FileSystem} {st : State} {blocks : List (List Entry)}

section

variable (rep : Represents fs st blocks)
include rep

theorem layout_eq : layout fs st.blocks = blocks := by
  rw [rep.image, layout_image fs blocks rep.packed]

/-- The entry of a present name is found at its place. -/
theorem lookup_present
    (clear : Clear fs name (layout fs st.blocks)) (present : st.contents name = some ino) :
    ∃ before front back after, blocks = before ++ (front ++ ⟨name, ino⟩ :: back) :: after ∧
      dirLookupIno fs st.blocks name =
        .ok (ino, (before.length * fs.blockSize + extent front) % 2 ^ 32) := by
  rw [rep.layout_eq] at clear
  obtain ⟨before, front, entry, back, after, split, named, res⟩ | ⟨absent, -⟩ :=
    lookupFrom_image fs name blocks 0 rep.packed clear
  · have mem : entry ∈ blocks.flatten := by rw [split]; simp
    have same := (rep.contents entry).mp mem
    rw [named, present] at same
    obtain rfl : entry = ⟨name, ino⟩ := by
      cases named
      cases same
      rfl
    refine ⟨before, front, back, after, split, ?_⟩
    rw [dirLookupIno, rep.image, res, Nat.zero_add]
  · exact absurd rfl (absent ⟨name, ino⟩ ((rep.contents ⟨name, ino⟩).mpr present))

/-- A lookup of a name that is not present fails. -/
theorem lookup_absent (clear : Clear fs name (layout fs st.blocks))
    (absent : st.contents name = none) : dirLookupIno fs st.blocks name = .error .enoent := by
  rw [rep.layout_eq] at clear
  obtain ⟨before, front, entry, back, after, split, named, -⟩ | ⟨-, res⟩ :=
    lookupFrom_image fs name blocks 0 rep.packed clear
  · have mem : entry ∈ blocks.flatten := by rw [split]; simp
    have present := (rep.contents entry).mp mem
    rw [named, absent] at present
    cases present
  · rw [dirLookupIno, rep.image, res]

end

variable {later : List (List Entry)}

/-- A new entry extends the map. -/
theorem add (rep : Represents fs st blocks) (good : entry.Good fs)
    (absent : st.contents entry.name = none) (packed : ∀ entries ∈ later, Packed fs entries)
    (more : later.flatten.Perm (entry :: blocks.flatten)) :
    Represents fs ⟨later.map (Directory.image fs),
      update st.contents entry.name (some entry.ino)⟩ later := by
  have fresh : ∀ other ∈ blocks.flatten, other.name ≠ entry.name := by
    intro other mem same
    have present := (rep.contents other).mp mem
    rw [same, absent] at present
    cases present
  constructor
  · rfl
  · exact packed
  · rw [(more.map Entry.name).nodup_iff, map_cons, List.nodup_cons]
    refine ⟨?_, rep.names⟩
    intro mem
    obtain ⟨other, inside, same⟩ := List.mem_map.mp mem
    exact fresh other inside same
  · intro other
    dsimp only
    rw [more.mem_iff, mem_cons]
    by_cases same : other.name = entry.name
    · rw [same, update_self]
      constructor
      · rintro (rfl | mem)
        · rfl
        · exact absurd same (fresh other mem)
      · intro equal
        left
        cases other
        cases same
        cases equal
        rfl
    · rw [update_of_ne same, ← rep.contents other]
      exact or_iff_right fun equal => same (congrArg Entry.name equal)

section

variable (rep : Represents fs st blocks)
include rep

/-- Without an entry the map loses its name. -/
theorem remove (entry : Entry) (packed : ∀ entries ∈ later, Packed fs entries)
    (fewer : blocks.flatten.Perm (entry :: later.flatten)) :
    Represents fs ⟨later.map (Directory.image fs), update st.contents entry.name none⟩ later := by
  have names := rep.names
  rw [(fewer.map Entry.name).nodup_iff, map_cons, List.nodup_cons] at names
  constructor
  · rfl
  · exact packed
  · exact names.2
  · intro other
    dsimp only
    by_cases same : other.name = entry.name
    · rw [same, update_self]
      refine iff_of_false (fun mem => names.1 ?_) (by simp)
      rw [← same]
      exact List.mem_map_of_mem mem
    · rw [update_of_ne same, ← rep.contents other, fewer.mem_iff, mem_cons]
      exact (or_iff_right fun equal => same (congrArg Entry.name equal)).symm

theorem addEntry {media : List Block} (offered : Offered fs st (.addEntry name ino media))
    (careful : Careful fs st (.addEntry name ino media)) {next : State}
    (taken : step fs st (.addEntry name ino media) = some next) :
    ∃ later, Represents fs next later := by
  obtain ⟨absent, root, inode, word⟩ := offered
  obtain ⟨named, bounded, ends⟩ := careful
  have good : Entry.Good fs ⟨name, ino⟩ := ⟨named, bounded, ends, root, inode, word⟩
  rw [step, rep.image] at taken
  cases added : dirAddEntry fs name ino media (blocks.map (Directory.image fs)) with
  | mk outcome written =>
    rw [added] at taken
    cases outcome with
    | error errno => cases taken
    | ok =>
      cases taken
      obtain ⟨before, entries, after, rfl, room, rfl⟩ | ⟨room, rfl⟩ :=
        dirAddEntry_image fs name ino media blocks rep.packed added
      · refine ⟨_, rep.add good absent ?_ ?_⟩
        · intro others mem
          simp only [mem_append, mem_cons] at mem
          obtain early | rfl | late := mem
          · exact rep.packed others (by simp [early])
          · exact (rep.packed entries (by simp)).concat good room
          · exact rep.packed others (by simp [late])
        · simp only [flatten_append, flatten_cons, append_assoc]
          simp only [List.singleton_append]
          rw [← append_assoc, ← append_assoc]
          exact List.perm_middle
      · refine ⟨_, rep.add good absent ?_ ?_⟩
        · intro others mem
          obtain old | new := mem_append.mp mem
          · exact rep.packed others old
          · rw [List.mem_singleton.mp new]
            exact (Packed.nil fs).concat good room
        · rw [flatten_append, List.flatten_singleton]
          exact List.perm_append_singleton _ _

/-- Deleting the entry of a present name succeeds and keeps the representation. -/
theorem delEntry
    (present : st.contents name = some ino) (careful : Careful fs st (.delEntry name)) :
    ∃ off later, dirLookupIno fs st.blocks name = .ok (ino, off) ∧
      dirDelEntry fs st.blocks ino off = .ok (later.map (Directory.image fs)) ∧
      Represents fs ⟨later.map (Directory.image fs), update st.contents name none⟩ later := by
  obtain ⟨clear, narrow⟩ := careful
  obtain ⟨before, front, back, after, rfl, found⟩ := rep.lookup_present clear present
  have here := rep.packed (front ++ ⟨name, ino⟩ :: back) (by simp)
  have deleted := dirDelEntry_image fs before after front back ⟨name, ino⟩ here
  have small : before.length * fs.blockSize + extent front < 2 ^ 32 := by
    have fits := here.fits
    rw [extent_append] at fits
    rw [rep.image, length_map, length_append, List.length_cons] at narrow
    have blocks_before : (before.length + 1) * fs.blockSize ≤
        (before.length + (after.length + 1)) * fs.blockSize :=
      Nat.mul_le_mul_right _ (by omega)
    rw [Nat.succ_mul] at blocks_before
    omega
  rw [Nat.mod_eq_of_lt small] at found
  rw [← rep.image] at deleted
  refine ⟨_, _, found, deleted, rep.remove ⟨name, ino⟩ ?_ ?_⟩
  · intro others mem
    obtain early | late := mem_append.mp mem
    · exact rep.packed others (by simp [early])
    · split at late
      · cases late
      · cases late with
        | head => exact here.without
        | tail _ further => exact rep.packed others (by
            simp [show others ∈ after from further])
  · have rest : (if front ++ back = [] ∧ after = [] then []
        else (front ++ back) :: after).flatten = front ++ back ++ after.flatten := by
      split
      · next alone =>
        rw [alone.1, alone.2]
        rfl
      · rfl
    rw [flatten_append, flatten_append, rest, flatten_cons, append_assoc,
      append_assoc, List.cons_append, ← append_assoc, ← append_assoc]
    exact List.perm_middle

end

/-- A permitted call keeps the representation. -/
theorem step (rep : Represents fs st blocks) {op : Operation} {next : State}
    (offered : Offered fs st op) (careful : Careful fs st op)
    (taken : Directory.step fs st op = some next) :
    ∃ later, Represents fs next later := by
  cases op with
  | addEntry name ino media => exact rep.addEntry offered careful taken
  | delEntry name =>
    obtain ⟨ino, present⟩ := Option.ne_none_iff_exists'.mp offered
    obtain ⟨off, later, found, deleted, kept⟩ := rep.delEntry present careful
    simp only [Directory.step, found, deleted, Option.some.injEq] at taken
    exact ⟨later, taken ▸ kept⟩

end Represents

/-- A directory is the map that the calls made of it. A name that no other entry is taken
for is found with its inode if it is present and only then; its entry can be deleted at
the offset of the lookup. Reading from the start, each time as much further as was
returned, gives every entry once. -/
theorem runs_are_maps (fs : FileSystem) (past : List State) (state : State)
    (run : Trace Initial (fun state operation => Offered fs state operation ∧
      Careful fs state operation) (step fs) past state) :
    (∀ name, Clear fs name (layout fs state.blocks) →
      match state.contents name with
      | some ino => ∃ offset, dirLookupIno fs state.blocks name = .ok (ino, offset)
      | none => dirLookupIno fs state.blocks name = .error .enoent) ∧
    (∀ name ino, state.contents name = some ino → Careful fs state (.delEntry name) →
      ∃ next, step fs state (.delEntry name) = some next) ∧
    ∃ entries : List Entry, (entries.map Entry.name).Nodup ∧
      (∀ entry, entry ∈ entries ↔ state.contents entry.name = some entry.ino) ∧
      Lists fs state.blocks 0 entries := by
  obtain ⟨blocks, represents⟩ : ∃ blocks, Represents fs state blocks := by
    refine run.invariant (fun state => ∃ blocks, Represents fs state blocks) ?_ ?_
    · rintro ⟨blocks, contents⟩ ⟨rfl, rfl⟩
      exact ⟨[], rfl, by simp, by simp, by simp⟩
    · rintro state operation next ⟨blocks, represents⟩ ⟨offered, careful⟩ taken
      exact represents.step offered careful taken
  refine ⟨?_, ?_, blocks.flatten, represents.names, represents.contents, ?_⟩
  · intro name clear
    cases present : state.contents name with
    | none => exact represents.lookup_absent clear present
    | some ino =>
      obtain ⟨before, front, back, after, -, found⟩ := represents.lookup_present clear present
      exact ⟨_, found⟩
  · intro name ino present careful
    obtain ⟨offset, later, found, deleted, -⟩ := represents.delEntry present careful
    refine ⟨⟨later.map (image fs), Function.update state.contents name none⟩, ?_⟩
    simp only [step, found, deleted]
  · rw [represents.image]
    have start := Rest.start fs [] blocks
    rw [List.length_nil, Nat.zero_mul] at start
    exact lists_rest fs blocks 0 blocks.flatten represents.packed start

instance ClearBlock.decidable (name : Name) (room : Nat) (entries : List Entry) :
    Decidable (ClearBlock name room entries) :=
  match entries with
  | [] => .isTrue trivial
  | _ :: rest =>
    have : Decidable (ClearBlock name room rest) := ClearBlock.decidable name room rest
    inferInstanceAs (Decidable (_ ∨ _ ∧ _))

instance Clear.decidable (fs : FileSystem) (name : Name) (blocks : List (List Entry)) :
    Decidable (Clear fs name blocks) :=
  match blocks with
  | [] => .isTrue trivial
  | _ :: rest =>
    have : Decidable (Clear fs name rest) := Clear.decidable fs name rest
    inferInstanceAs (Decidable (_ ∧ (_ ∨ _)))

instance (fs : FileSystem) (state : State) (operation : Operation) :
    Decidable (Offered fs state operation) :=
  match operation with
  | .addEntry .. => inferInstanceAs (Decidable (_ ∧ _ ∧ _ ∧ _))
  | .delEntry _ => inferInstanceAs (Decidable (_ ≠ _))

instance (fs : FileSystem) (state : State) (operation : Operation) :
    Decidable (Careful fs state operation) :=
  match operation with
  | .addEntry .. => inferInstanceAs (Decidable (_ ∧ _ ∧ _))
  | .delEntry _ => inferInstanceAs (Decidable (_ ∧ _))

/-- A directory without blocks. -/
def start : State where
  blocks := []
  contents := fun _ => none

theorem start_initial : Initial start := ⟨rfl, rfl⟩

/-- A small file system whose blocks hold a few short names. -/
def small : FileSystem where
  blockSize := 64
  maxName := 64
  inodes := 16
  header_fits := by decide

/-- Three names are added, the first one is deleted and its place is reused. -/
theorem runs_are_maps_small :
    ∃ (past : List State) (state : State),
      Trace Initial (fun state operation => Offered small state operation ∧
        Careful small state operation) (step small) past state ∧
      (state.blocks.length, state.contents [97], state.contents [98, 99]) = (2, none, some 3) ∧
      ∃ entries : List Entry, (entries.map Entry.name).Nodup ∧
        (∀ entry, entry ∈ entries ↔ state.contents entry.name = some entry.ino) ∧
        Lists small state.blocks 0 entries := by
  obtain ⟨past, state, run, seen⟩ := Trace.observe
    (fun state operation => Offered small state operation ∧ Careful small state operation)
    (step small) start start_initial
    [.addEntry [97] 2 [[]], .addEntry [98, 99] 3 [], .addEntry (replicate 40 100) 2 [[]],
      .delEntry [97], .addEntry (replicate 30 101) 4 []]
    (fun state => (state.blocks.length, state.contents [97], state.contents [98, 99]))
    (2, none, some 3) (by decide +kernel) (by decide +kernel)
  obtain ⟨-, -, listed⟩ := runs_are_maps small past state run
  exact ⟨past, state, run, seen, listed⟩

/-- The default limit for names with blocks of 1024 bytes. -/
def wide : FileSystem where
  blockSize := 1024
  maxName := 512
  inodes := 16
  header_fits := by decide

/-- A name of 502 bytes is added, and its lookup fails with an input and output error. -/
theorem long_name_spoils_directory :
    ∃ (past : List State) (state : State), Trace Initial (Offered wide) (step wide) past state ∧
      (state.contents (replicate 502 97),
        dirLookupIno wide state.blocks (replicate 502 97)) = (some 2, .error .eio) := by
  exact Trace.observe (Offered wide) (step wide) start start_initial
    [.addEntry (replicate 502 97) 2 [[]]]
    (fun state => (state.contents (replicate 502 97),
      dirLookupIno wide state.blocks (replicate 502 97)))
    (some 2, .error .eio) (by decide +kernel) (by decide +kernel)

end Rtems.Rfs.Directory
