import Rtems.Dosfs.Keys

/-!
# The descriptors of open files

A descriptor belongs to a file. It is in one of two hash tables by the key of the directory entry of the file: the
table of the valid files, or the one of the files that were removed while they were open. The key is the inode
number of the file, or a number of a pool if a removed file has the key as its number.
-/

namespace Rtems.Dosfs

open Function (update)

/-- `fat_file_fd_t`: the count of the links, the inode number, the flag `FAT_FILE_REMOVED` and the position of the
short name. -/
structure Fd where
  linksNum : Nat
  ino : Nat
  removed : Bool
  pos : Pos

/-- The pool of the unique inode numbers: its size, the next index and the bits. -/
structure Pool where
  size : Nat
  index : Nat
  busy : Nat → Bool

namespace Pool

/-- The loop of `fat_get_unique_ino` over the bits. -/
def scan : Nat → Pool → Bool × Pool
  | 0, pool => (false, pool)
  | fuel + 1, pool =>
    if pool.busy pool.index = false then
      (true, { pool with busy := update pool.busy pool.index true })
    else
      scan fuel { pool with index := if pool.size ≤ pool.index + 1 then 0 else pool.index + 1 }

/-- The pool gets twice the bytes. The contents of the new ones are unknown. -/
def grow (unknown : Nat → Bool) (pool : Pool) : Pool where
  size := pool.size * 2 % 2 ^ 32
  index := pool.size * 2 % 2 ^ 32
  busy bit := if bit < pool.size * 8 then pool.busy bit else unknown bit

/-- `fat_get_unique_ino`, where 0 is a failure. There is none if the pool gets bigger more often than its size
has bits. -/
def getUniqueIno (base : Nat) (unknown : Nat → Bool) : Nat → Pool → Option (Nat × Pool)
  | 0, _ => none
  | fuel + 1, pool =>
    match scan pool.size pool with
    | (true, pool) => some ((base + pool.index) % 2 ^ 32, pool)
    | (false, pool) =>
      if pool.size * 2 % 2 ^ 32 < minus 0x0fffffff base then
        getUniqueIno base unknown fuel (pool.grow unknown)
      else some (0, pool)

/-- `fat_free_unique_ino` -/
def free (base ino : Nat) (pool : Pool) : Pool :=
  { pool with busy := update pool.busy (minus ino base) false }

end Pool

/-- `fat_ino_is_unique` -/
def inoIsUnique (vol : Volume) (ino : Nat) : Bool := decide (uinoBase vol ≤ ino)

/-- A hash table: a chain for each remainder of the keys modulo `FAT_HASH_MODULE`. -/
abbrev Hash := Nat → List Nat

/-- The descriptors by their addresses, the tables `vhash` and `rhash` and the pool. -/
structure FileTables where
  fds : Nat → Option Fd
  fresh : Nat
  vhash : Hash
  rhash : Hash
  pool : Pool

/-- `_hash_insert` -/
def Hash.insert (hash : Hash) (key el : Nat) : Hash :=
  update hash (key % 2) (hash (key % 2) ++ [el])

/-- `_hash_delete` -/
def Hash.delete (hash : Hash) (el : Nat) : Hash := fun chain => (hash chain).erase el

namespace FileTables

/-- `_hash_search` -/
def search (vol : Volume) (files : FileTables) (hash : Hash) (key1 key2 : Nat) : Option Nat :=
  (hash (key1 % 2)).find? fun el =>
    match files.fds el with
    | some ffd => decide (key1 = constructKey vol ffd.pos ∧ (key2 = 0 ∨ key2 = ffd.ino))
    | none => false

/-- A change of one descriptor. -/
def set (files : FileTables) (el : Nat) (fd : Option Fd) : FileTables :=
  { files with fds := update files.fds el fd }

/-- A new descriptor in the table of the valid files. -/
def add (files : FileTables) (key ino : Nat) (pos : Pos) : Except Errno Nat × FileTables :=
  (.ok files.fresh,
    { files.set files.fresh (some ⟨1, ino, false, pos⟩) with
      fresh := files.fresh + 1
      vhash := files.vhash.insert key files.fresh })

/-- The inode number for a key comes from the pool, as a removed file has the key as its number. -/
def fromPool (vol : Volume) (files : FileTables) (key : Nat) : Bool :=
  (files.search vol files.rhash key key).isSome

/-- The inode number for a key. -/
def newIno (vol : Volume) (unknown : Nat → Bool) (files : FileTables) (key : Nat) : Option (Nat × Pool) :=
  if files.fromPool vol key then Pool.getUniqueIno (uinoBase vol) unknown 33 files.pool
  else some (key, files.pool)

/-- `fat_file_open`. There may be no memory for a new descriptor. -/
def fileOpen (vol : Volume) (memory : Bool) (unknown : Nat → Bool) (files : FileTables) (pos : Pos) :
    Option (Except Errno Nat × FileTables) :=
  let key := constructKey vol pos
  match files.search vol files.vhash key 0 with
  | some el =>
    some (.ok el, files.set el ((files.fds el).map fun fd => { fd with linksNum := fd.linksNum + 1 }))
  | none =>
    if memory = false then some (.error .enomem, files)
    else
      (files.newIno vol unknown key).map fun (ino, pool) =>
        if files.fromPool vol key = true ∧ ino = 0 then (.error .enomem, { files with pool := pool })
        else { files with pool := pool }.add key ino pos

/-- `fat_file_reopen` -/
def fileReopen (files : FileTables) (el : Nat) (fd : Fd) : FileTables :=
  files.set el (some { fd with linksNum := fd.linksNum + 1 })

/-- The number of a file goes back to the pool if it is from there. -/
def freeIno (vol : Volume) (files : FileTables) (ino : Nat) : FileTables :=
  { files with
    pool := if inoIsUnique vol ino then files.pool.free (uinoBase vol) ino else files.pool }

/-- `fat_file_close`. The clusters of a removed file are freed, which may fail. -/
def fileClose (vol : Volume) (truncated : Bool) (files : FileTables) (el : Nat) (fd : Fd) : FileTables :=
  if 1 < fd.linksNum then files.set el (some { fd with linksNum := fd.linksNum - 1 })
  else if fd.removed then
    if truncated then
      { (files.freeIno vol fd.ino).set el none with rhash := files.rhash.delete el }
    else files
  else if inoIsUnique vol fd.ino then files.set el (some { fd with linksNum := 0 })
  else { files.set el none with vhash := files.vhash.delete el }

/-- `fat_file_mark_removed` -/
def fileMarkRemoved (vol : Volume) (files : FileTables) (el : Nat) (fd : Fd) : FileTables :=
  { files.set el (some { fd with removed := true }) with
    vhash := files.vhash.delete el
    rhash := files.rhash.insert (constructKey vol fd.pos) el }

/-- `fat_file_get_new_inode_for` behind its assertion. -/
def fileGetNewInodeFor (vol : Volume) (unknown : Nat → Bool) (files : FileTables) (el : Nat) (fd : Fd)
    (pos : Pos) : Option FileTables :=
  let key := constructKey vol pos
  let freed := files.freeIno vol fd.ino
  (freed.newIno vol unknown key).map fun (ino, pool) =>
    { freed.set el (some { fd with ino := ino, pos := pos }) with
      vhash := (files.vhash.delete el).insert key el
      pool := pool }

end FileTables

/-- The calls. The descriptors are named by their addresses. -/
inductive FileCall where
  | openAt (pos : Pos) (memory : Bool) (unknown : Nat → Bool)
  | reopen (el : Nat)
  | close (el : Nat) (truncated : Bool)
  | markRemoved (el : Nat)
  | getNewInodeFor (el : Nat) (pos : Pos) (unknown : Nat → Bool)

/-- The files, with the count of the opens of each descriptor that are not closed, and whether its inode number
came from the pool. -/
structure OpenFiles where
  files : FileTables
  opens : Nat → Nat
  pooled : Nat → Bool

/-- One call. -/
def OpenFiles.step (vol : Volume) (state : OpenFiles) : FileCall → Option OpenFiles
  | .openAt pos memory unknown =>
    (state.files.fileOpen vol memory unknown pos).map fun (result, files) =>
      match result with
      | .error _ => { state with files := files }
      | .ok el =>
        { files := files
          opens := update state.opens el (state.opens el + 1)
          pooled := if (state.files.fds el).isSome then state.pooled
            else update state.pooled el
              (state.files.fromPool vol (constructKey vol pos)) }
  | .reopen el =>
    (state.files.fds el).map fun fd =>
      { state with
        files := state.files.fileReopen el fd
        opens := update state.opens el (state.opens el + 1) }
  | .close el truncated =>
    (state.files.fds el).map fun fd =>
      { state with
        files := state.files.fileClose vol truncated el fd
        opens := update state.opens el (state.opens el - 1) }
  | .markRemoved el =>
    (state.files.fds el).map fun fd =>
      { state with files := state.files.fileMarkRemoved vol el fd }
  | .getNewInodeFor el pos unknown =>
    (state.files.fds el).bind fun fd =>
      if (state.files.search vol state.files.vhash (constructKey vol pos) 0).isSome then none
      else
        (state.files.fileGetNewInodeFor vol unknown el fd pos).map fun files =>
          { state with
            files := files
            pooled := update state.pooled el
              (state.files.fromPool vol (constructKey vol pos)) }

end Rtems.Dosfs
