import Mathlib.Algebra.Order.Ring.Nat
import Rtems.Library.WriteBack

/-!
# Symbolic links

The target of a symbolic link is kept in the inode if it is shorter than the slots of the
inode, and in a data block otherwise. The length of the target is the block offset of the
inode, and the block count tells where the target is.
-/

namespace Rtems.Rfs.Symlink

open WriteBack

/-- `RTEMS_RFS_INODE_DATA_NAME_SIZE`. -/
def inodeDataNameSize : Nat := 20

/-- The part of `rtems_rfs_file_system` for the places of inodes. -/
structure FileSystem where
  blockSize : Nat
  groupBlocks : Nat
  groupInodes : Nat
  inodesPerBlock : Nat

/-- The error codes of the calls. -/
inductive Errno where
  | enametoolong
  | einval
  | failed
deriving DecidableEq

/-- The union `data` of an inode: a name, or the slots of the block map. -/
inductive Data where
  | name (bytes : List UInt8)
  | blocks (slots : Nat → Nat)

/-- `rtems_rfs_inode`, as far as links use it. -/
structure Inode where
  mode : Nat
  blockCount : Nat
  blockOffset : Nat
  data : Data

/-- `RTEMS_RFS_S_SYMLINK`. -/
def modeSymlink : Nat := 0o120777

/-- `RTEMS_RFS_S_ISLNK`. -/
def isLink (mode : Nat) : Bool := mode &&& 0o170000 == 0o120000

/-- `rtems_rfs_inode_initialise`. -/
def inodeInitialise (mode : Nat) : Inode := ⟨mode, 0, 0, .blocks fun _ => 0⟩

/-- The blocks of inodes and the blocks of data. -/
structure State where
  inodes : Store Nat (Nat → Inode)
  blocks : Store Nat (List UInt8)

section

variable (fs : FileSystem)

/-- The block of an inode, by `rtems_rfs_inode_open`: the groups begin with block 1, and the two
bitmaps of a group come before its inodes. -/
def inodeBlock (ino : Nat) : Nat :=
  1 + (ino - 1) / fs.groupInodes * fs.groupBlocks + 2 + (ino - 1) % fs.groupInodes / fs.inodesPerBlock

/-- The place in the block. -/
def inodeOffset (ino : Nat) : Nat := (ino - 1) % fs.groupInodes % fs.inodesPerBlock

variable (state : State)

/-- An inode is opened and loaded. -/
def inodeOpen (ino : Nat) : Inode :=
  state.inodes.read (inodeBlock fs ino) (inodeOffset fs ino)

/-- An inode that was set, and so marked as dirty, is closed. -/
def inodeClose (ino : Nat) (inode : Inode) : State :=
  let contents := state.inodes.read (inodeBlock fs ino)
  let contents := Function.update contents (inodeOffset fs ino) inode
  { state with inodes := state.inodes.release (inodeBlock fs ino) contents true }

/-- What a new link meets: the results of `rtems_rfs_inode_create` and of `rtems_rfs_block_map_grow`. -/
structure Answers where
  create : Except Errno Nat
  grow : Except Errno Nat

/-- `rtems_rfs_symlink`. -/
def symlink (answers : Answers) (link : List UInt8) : Except Errno (Nat × State) := do
  if fs.blockSize ≤ link.length then throw .enametoolong
  let ino ← answers.create
  let state := inodeClose fs state ino (inodeInitialise modeSymlink)
  let inode := inodeOpen fs state ino
  if link.length < inodeDataNameSize then
    let name := link ++ List.replicate (inodeDataNameSize - link.length) 0
    let inode := { inode with data := .name name, blockCount := 0 }
    return (ino, inodeClose fs state ino { inode with blockOffset := link.length % 2 ^ 16 })
  else
    let block ← answers.grow
    -- the buffer is requested without reading, and it is not marked as dirty
    let data := link ++ List.replicate (fs.blockSize - link.length) 0xff
    let state := { state with blocks := state.blocks.release block data false }
    let inode := { inode with data := .blocks (Function.update (fun _ => 0) 0 block), blockCount := 1 }
    return (ino, inodeClose fs state ino { inode with blockOffset := link.length % 2 ^ 16 })

/-- `rtems_rfs_symlink_read`. The buffer of a long target is requested without reading. -/
def symlinkRead (given : List UInt8) (ino size : Nat) : Except Errno (List UInt8 × Nat) :=
  let inode := inodeOpen fs state ino
  if isLink inode.mode = false then .error .einval
  else
    let length := min size inode.blockOffset
    match inode.blockCount, inode.data with
    | 0, .name bytes => .ok (bytes.take length, length)
    | 0, .blocks _ => .error .failed
    | _ + 1, .blocks slots => .ok ((state.blocks.request (slots 0) given).take length, length)
    | _ + 1, .name _ => .error .failed

/-- What happens to the buffers. -/
def State.after (state : State) (inodes blocks : List (Event Nat)) : State :=
  ⟨inodes.foldl Store.after state.inodes, blocks.foldl Store.after state.blocks⟩

/-- A new link is read back, whatever happened to the buffers and whatever a request without reading
finds. -/
def RoundTrip (link : List UInt8) : Prop :=
  ∀ state answers ino new, symlink fs state answers link = .ok (ino, new) →
    ∀ inodes blocks given size, given.length = fs.blockSize → link.length ≤ size →
      symlinkRead fs (new.after inodes blocks) given ino size = .ok (link, link.length)

variable (ino : Nat) (inode : Inode)

/-- A closed inode is held. -/
theorem inodeClose_holds : ∃ contents,
    (inodeClose fs state ino inode).inodes.Holds (inodeBlock fs ino) contents ∧
      contents (inodeOffset fs ino) = inode :=
  ⟨_, holds_release, Function.update_self ..⟩

/-- A closed inode is the one that is opened, whatever happened to the buffers. -/
theorem inodeOpen_close (inodes blocks : List (Event Nat)) :
    inodeOpen fs ((inodeClose fs state ino inode).after inodes blocks) ino = inode := by
  obtain ⟨contents, holds, here⟩ := inodeClose_holds fs state ino inode
  rw [inodeOpen, State.after, (holds.run inodes).read, here]

theorem inodeOpen_initialised :
    inodeOpen fs (inodeClose fs state ino (inodeInitialise modeSymlink)) ino =
      inodeInitialise modeSymlink :=
  inodeOpen_close fs state ino (inodeInitialise modeSymlink) [] []

end

variable {fs : FileSystem} {link : List UInt8}

/-- A target in the inode is read back. -/
theorem round_trip_short (short : link.length < inodeDataNameSize) : RoundTrip fs link := by
  intro state answers ino new linked inodes blocks given size whole room
  have length : min size (link.length % 2 ^ 16) = link.length := by
    rw [inodeDataNameSize] at short
    omega
  cases create : answers.create with
  | error errno =>
    simp only [symlink, create] at linked
    split at linked <;> contradiction
  | ok made =>
    simp only [symlink, create, short, if_true] at linked
    split at linked
    · contradiction
    · obtain ⟨rfl, rfl⟩ := Prod.mk.inj (Except.ok.inj linked)
      rw [symlinkRead, inodeOpen_close]
      simp only [length, inodeOpen_initialised]
      rw [if_neg (by decide), List.take_left]

/-- A target that is written to a block. -/
theorem symlink_long (long : inodeDataNameSize ≤ link.length)
    (fits : link.length < fs.blockSize) (state : State) (ino block : Nat) :
    symlink fs state ⟨.ok ino, .ok block⟩ link = .ok (ino, inodeClose fs
      { inodeClose fs state ino (inodeInitialise modeSymlink) with
        blocks := state.blocks.release block (link ++ List.replicate (fs.blockSize - link.length) 0xff) false } ino
      ⟨modeSymlink, 1, link.length % 2 ^ 16, .blocks (Function.update (fun _ => 0) 0 block)⟩) := by
  simp only [symlink, Nat.not_le.mpr fits, Nat.not_lt.mpr long, if_false, inodeOpen_initialised]
  rfl

/-- A target in a block is lost when the buffer is dropped. -/
theorem round_trip_long (long : inodeDataNameSize ≤ link.length) (fits : link.length < fs.blockSize) :
    ¬ RoundTrip fs link := by
  intro returns
  cases link with
  | nil => exact absurd long (by decide)
  | cons first rest =>
    obtain ⟨byte, other⟩ : ∃ byte : UInt8, byte ≠ first := by
      by_cases zero : first = 0
      · exact ⟨1, by rw [zero]; decide⟩
      · exact ⟨0, Ne.symm zero⟩
    -- the buffer of the target is dropped, and the next one has another byte throughout
    let state : State := ⟨⟨fun _ _ => inodeInitialise 0, fun _ => none⟩, ⟨fun _ => [], fun _ => none⟩⟩
    have read := returns state _ 2 _ (symlink_long long fits state 2 9) [] [.evict 9]
      (List.replicate fs.blockSize byte) _ List.length_replicate (Nat.le_refl _)
    rw [symlinkRead, inodeOpen_close] at read
    simp only [show isLink modeSymlink = true from by decide, Bool.true_eq_false, if_false, State.after,
      List.foldl_cons, List.foldl_nil, inodeClose, Function.update_self] at read
    rw [request_evicted rfl, List.take_replicate] at read
    have member : first ∈ List.replicate _ byte :=
      (Prod.mk.inj (Except.ok.inj read)).1 ▸ List.mem_cons_self
    exact other (List.eq_of_mem_replicate member).symm

/-- A link whose target is shorter than a block is read back exactly when the target fits the slots of
the inode. -/
theorem symlink_round_trip_iff (fs : FileSystem) (link : List UInt8) (fits : link.length < fs.blockSize) :
    RoundTrip fs link ↔ link.length < inodeDataNameSize := by
  constructor
  · intro returns
    by_contra long
    exact round_trip_long (Nat.not_lt.mp long) fits returns
  · exact round_trip_short

/-- A file system with blocks of 512 bytes. -/
def small : FileSystem := ⟨512, 100, 32, 9⟩

/-- The target `/etc`. -/
theorem symlink_round_trip_etc : RoundTrip small [0x2f, 0x65, 0x74, 0x63] :=
  (symlink_round_trip_iff small [0x2f, 0x65, 0x74, 0x63] (by decide)).mpr (by decide)

end Rtems.Rfs.Symlink
