import Rtems.Dosfs.Cache
import Rtems.Dosfs.Geometry

/-!
# The buffer of the sector cache

The block device layer lends buffers to the file system. It may refuse to lend a buffer and to take it
back. The contents of a buffer can only be reached, and a buffer can only be given back, while it is lent.
Every buffer that is lent has a new number, so that an old pointer is never one to a lent buffer again.

The results of the functions are none if a buffer is used that is not lent.
-/

namespace Rtems.Dosfs.Lending

open ByteRange

/-- `rtems_bdbuf_buffer` -/
structure Bd where
  block : Nat
  buffer : Content

/-- `fat_cache_t` with a pointer to the buffer, and the block device layer with its contents and the buffers
that are lent. -/
structure Fs where
  blkNum : Nat
  modified : Bool
  actual : Bool
  buf : Option Nat
  disk : Content
  lent : Nat → Option Bd
  fresh : Nat

/-- What the block device layer answers in one call: whether it takes the buffer of the cache back, whether it
lends a new one and what this holds if it was not read, and the same for the buffers of the other FATs. -/
structure Answers where
  released : Bool
  obtained : Bool
  unread : Content
  copyObtained : Nat → Bool
  copyUnread : Nat → Content
  copyReleased : Nat → Bool

namespace Fs

/-- A buffer for a block is lent. -/
def obtain (fs : Fs) (blk : Nat) (contents : Content) : Fs :=
  { fs with lent := Function.update fs.lent fs.fresh (some ⟨blk, contents⟩), fresh := fs.fresh + 1 }

/-- The contents of a block. -/
def block (vol : Volume) (fs : Fs) (blk : Nat) : Content := fun place =>
  fs.disk (blk * vol.bytesPerBlock + place)

/-- Bytes are copied to a buffer. -/
def write (fs : Fs) (bd place : Nat) (bytes : List UInt8) : Option Fs :=
  (fs.lent bd).map fun buffer =>
    { fs with
      lent := Function.update fs.lent bd (some { buffer with buffer := put buffer.buffer place bytes }) }

/-- `rtems_bdbuf_release` and `rtems_bdbuf_release_modified`. -/
def giveBack (vol : Volume) (fs : Fs) (bd : Nat) (modified : Bool) : Option Fs :=
  (fs.lent bd).map fun buffer =>
    { fs with
      lent := Function.update fs.lent bd none
      disk := if modified then
          put fs.disk (buffer.block * vol.bytesPerBlock) (get buffer.buffer 0 vol.bytesPerBlock)
        else fs.disk }

/-- The buffer of the cache. -/
def held (fs : Fs) : Option Bd := fs.buf.bind fs.lent

section

variable (vol : Volume) (answers : Answers)

/-- The buffer of the cache is given back. The block device layer refuses a null pointer. -/
def giveUp (fs : Fs) : Option (Bool × Fs) :=
  match fs.buf with
  | none => some (false, fs)
  | some bd =>
    (fs.giveBack vol bd fs.modified).map fun after => if answers.released then (true, after) else (false, fs)

/-- The loop of `fat_buf_release` over the other FATs. -/
def copyToFats (vol : Volume) (answers : Answers) (secBuf : List UInt8) :
    Nat → Nat → Fs → Option (Except Errno Unit × Fs)
  | 0, _, fs => some (.ok (), fs)
  | fuel + 1, i, fs =>
    let secNum := (fs.blkNum + vol.fatLength * i) % 2 ^ 32
    let blk := sectorNumToBlockNum vol secNum
    let blkOfs := sectorOffsetToBlockOffset vol secNum 0
    if answers.copyObtained i then
      let contents := if blkOfs = 0 ∧ vol.bps = vol.bytesPerBlock then answers.copyUnread i
        else fs.block vol blk
      ((fs.obtain blk contents).write fs.fresh blkOfs secBuf).bind fun between =>
        if answers.copyReleased i then
          (between.giveBack vol fs.fresh true).bind fun after =>
            copyToFats vol answers secBuf fuel (i + 1) after
        else some (.error .enomem, between)
    else some (.error .enomem, fs)

/-- The part of `fat_buf_release` behind the release of the buffer itself. -/
def finish (secBuf : Option (List UInt8)) (fs : Fs) : Option (Except Errno Unit × Fs) :=
  match secBuf with
  | none => some (.ok (), { fs with actual := false })
  | some secBuf =>
    (copyToFats vol answers secBuf (vol.fats - 1) 1 fs).map fun (result, fs) =>
      match result with
      | .error errno => (.error errno, fs)
      | .ok _ => (.ok (), { fs with actual := false })

/-- `fat_buf_release` -/
def bufRelease (fs : Fs) : Option (Except Errno Unit × Fs) :=
  if fs.actual = false then some (.ok (), fs)
  else if fs.modified ∧ FsInfo.Mirrored vol fs.blkNum then
    fs.held.bind fun bd =>
      let secBuf := get bd.buffer (sectorOffsetToBlockOffset vol fs.blkNum 0) vol.bps
      (fs.giveUp vol answers).bind fun (given, fs) =>
        if given then finish vol answers (some secBuf) { fs with modified := false }
        else some (.error .eio, fs)
  else
    (fs.giveUp vol answers).bind fun (given, fs) =>
      if given then finish vol answers none { fs with modified := false }
      else some (.error .eio, fs)

/-- The part of `fat_buf_access` behind the release of the old buffer: the offset of the sector in the new
one. -/
def fetch (fs : Fs) (secNum : Nat) (opType : OpType) : Except Errno Nat × Fs :=
  let blk := sectorNumToBlockNum vol secNum
  if answers.obtained then
    let contents := match opType with
      | .read => fs.block vol blk
      | .get => answers.unread
    (.ok (sectorOffsetToBlockOffset vol secNum 0),
      { fs.obtain blk contents with
        buf := some fs.fresh, blkNum := secNum, modified := false, actual := true })
  else (.error .eio, { fs with buf := none })

/-- `fat_buf_access` -/
def bufAccess (fs : Fs) (secNum : Nat) (opType : OpType) : Option (Except Errno Nat × Fs) :=
  if fs.actual = false ∨ fs.blkNum ≠ secNum then
    (fs.bufRelease vol answers).map fun (_, fs) => fs.fetch vol answers secNum opType
  else fs.held.map fun _ => (.ok (sectorOffsetToBlockOffset vol secNum 0), fs)

end

/-- Bytes are copied to the sector, and `fat_buf_mark_modified` is called. -/
def modify (vol : Volume) (fs : Fs) (place : Nat) (bytes : List UInt8) :
    Option (Except Errno Nat × Fs) :=
  fs.buf.bind fun bd =>
    (fs.write bd (sectorOffsetToBlockOffset vol fs.blkNum 0 + place) bytes).map fun fs =>
      (.ok bytes.length, { fs with modified := true })

end Fs

/-- The calls. -/
inductive Call where
  | access (secNum : Nat) (opType : OpType)
  | modify (place : Nat) (bytes : List UInt8)
  | release

/-- A call. -/
def perform (vol : Volume) (answers : Answers) (fs : Fs) : Call → Option (Except Errno Nat × Fs)
  | .access secNum opType => fs.bufAccess vol answers secNum opType
  | .modify place bytes => fs.modify vol place bytes
  | .release => (fs.bufRelease vol answers).map fun (result, fs) => (result.map fun _ => 0, fs)

/-! ## The effect of the functions -/

/-- The cache holds a buffer, and no other buffer is lent. -/
structure Holds (fs : Fs) (bd : Nat) (buffer : Bd) : Prop where
  actual : fs.actual = true
  buf : fs.buf = some bd
  lent : fs.lent = Function.update (fun _ => none) bd (some buffer)

/-- The cache is empty, and no buffer is lent. -/
structure Empty (fs : Fs) : Prop where
  actual : fs.actual = false
  lent : fs.lent = fun _ => none

/-- The block device layer lends the buffers for the other FATs and takes them back. -/
def Complete (vol : Volume) (answers : Answers) : Prop :=
  ∀ i, i < vol.fats → 1 ≤ i → answers.copyObtained i = true ∧ answers.copyReleased i = true

/-- The contents of the disk after the copies of a sector to the other FATs. -/
def copies (vol : Volume) (secNum : Nat) (secBuf : List UInt8) : Nat → Nat → Content → Content
  | 0, _, disk => disk
  | fuel + 1, i, disk =>
    copies vol secNum secBuf fuel (i + 1)
      (put disk ((secNum + vol.fatLength * i) % 2 ^ 32 * vol.bps) secBuf)

/-- The contents of the disk after the release of the buffer that is held. -/
def settled (vol : Volume) (fs : Fs) (buffer : Bd) : Content :=
  if fs.modified then
    let stored := put fs.disk (buffer.block * vol.bytesPerBlock)
      (get buffer.buffer 0 vol.bytesPerBlock)
    if FsInfo.Mirrored vol fs.blkNum then
      copies vol fs.blkNum
        (get buffer.buffer (sectorOffsetToBlockOffset vol fs.blkNum 0) vol.bps) (vol.fats - 1) 1 stored
    else stored
  else fs.disk

variable {vol : Volume} {answers : Answers} {fs : Fs} {bd : Nat} {buf : Bd}

theorem Holds.held_eq (holds : Holds fs bd buf) : fs.held = some buf := by
  rw [Fs.held, holds.buf, Option.bind_some, holds.lent, Function.update_self]

/-- The buffer that is held is given back. -/
theorem Holds.giveUp_eq (holds : Holds fs bd buf) (taken : answers.released = true) :
    fs.giveUp vol answers = some (true, { fs with
      lent := fun _ => none
      disk := if fs.modified then
          put fs.disk (buf.block * vol.bytesPerBlock) (get buf.buffer 0 vol.bytesPerBlock)
        else fs.disk }) := by
  simp [Fs.giveUp, holds.buf, Fs.giveBack, holds.lent, taken]

theorem Holds.giveUp_refused (holds : Holds fs bd buf) (refused : answers.released = false) :
    fs.giveUp vol answers = some (false, fs) := by
  simp [Fs.giveUp, holds.buf, Fs.giveBack, holds.lent, refused]

/-- A sector that is put into the buffer of its block and stored with it. -/
theorem store_sector (sized : vol.Sized) {disk contents : Content} {secNum : Nat}
    (word : secNum < 2 ^ 32) {secBuf : List UInt8} (length : secBuf.length = vol.bps) (filled : (∀
      place, contents place = disk (sectorNumToBlockNum vol secNum * vol.bytesPerBlock + place)) ∨
      sectorOffsetToBlockOffset vol secNum 0 = 0 ∧ vol.bps = vol.bytesPerBlock) :
    put disk (sectorNumToBlockNum vol secNum * vol.bytesPerBlock)
        (get (put contents (sectorOffsetToBlockOffset vol secNum 0) secBuf) 0 vol.bytesPerBlock) =
      put disk (secNum * vol.bps) secBuf := by
  have bounded := sized.offset_le word
  rw [← sized.sector_place word]
  apply put_get_patch
  · intro index inside outside
    obtain filled | whole := filled
    · exact filled index
    · omega
  · omega

section

variable (sized : vol.Sized) {secBuf : List UInt8} (length : secBuf.length = vol.bps) (fuel i : Nat)
include sized length

/-- One pass of the loop over the other FATs. -/
theorem copyToFats_step (lent : fs.lent = fun _ => none) (obtained : answers.copyObtained i = true)
    (released : answers.copyReleased i = true) :
    Fs.copyToFats vol answers secBuf (fuel + 1) i fs =
      Fs.copyToFats vol answers secBuf fuel (i + 1) { fs with
        disk := put fs.disk ((fs.blkNum + vol.fatLength * i) % 2 ^ 32 * vol.bps) secBuf
        fresh := fs.fresh + 1 } := by
  have word : (fs.blkNum + vol.fatLength * i) % 2 ^ 32 < 2 ^ 32 := Nat.mod_lt _ (Nat.two_pow_pos 32)
  rw [Fs.copyToFats]
  generalize (fs.blkNum + vol.fatLength * i) % 2 ^ 32 = secNum at word ⊢
  have filled : (∀ place, (if sectorOffsetToBlockOffset vol secNum 0 = 0 ∧
        vol.bps = vol.bytesPerBlock then answers.copyUnread i
      else fs.block vol (sectorNumToBlockNum vol secNum)) place =
        fs.disk (sectorNumToBlockNum vol secNum * vol.bytesPerBlock + place)) ∨
      sectorOffsetToBlockOffset vol secNum 0 = 0 ∧ vol.bps = vol.bytesPerBlock := by
    split
    case isTrue whole => exact .inr whole
    case isFalse => exact .inl fun _ => rfl
  have stored := store_sector sized word length filled
  rw [if_pos obtained]
  simp [Fs.obtain, Fs.write, Fs.giveBack, released, stored, lent]

/-- The copies for the other FATs are written if no request fails. -/
theorem copyToFats_complete (fs : Fs) (lent : fs.lent = fun _ => none)
    (complete : ∀ j, i ≤ j → j < i + fuel →
      answers.copyObtained j = true ∧ answers.copyReleased j = true) :
    ∃ fresh, Fs.copyToFats vol answers secBuf fuel i fs = some (.ok (), { fs with
      disk := copies vol fs.blkNum secBuf fuel i fs.disk, fresh := fresh }) := by
  induction fuel generalizing i fs with
  | zero => exact ⟨fs.fresh, rfl⟩
  | succ fuel ih =>
    obtain ⟨obtained, released⟩ := complete i (le_refl i) (by omega)
    rw [copyToFats_step sized length fuel i lent obtained released]
    exact ih (i + 1) _ lent fun j least most => complete j (by omega) (by omega)

end

/-- The end of a release with copies for the other FATs. -/
theorem finish_copied (sized : vol.Sized) {secBuf : List UInt8} (length : secBuf.length = vol.bps)
    (lent : fs.lent = fun _ => none) (complete : Complete vol answers) :
    ∃ fresh, Fs.finish vol answers (some secBuf) fs = some (.ok (), { fs with
      disk := copies vol fs.blkNum secBuf (vol.fats - 1) 1 fs.disk
      actual := false
      fresh := fresh }) := by
  obtain ⟨fresh, copied⟩ := copyToFats_complete sized length (vol.fats - 1) 1 fs lent
    fun j least most => complete j (by omega) least
  exact ⟨fresh, by rw [Fs.finish, copied, Option.map_some]⟩

/-- The condition on a release: the copies of a modified sector of a FAT do not fail once the buffer itself
was taken back. -/
def Whole (vol : Volume) (answers : Answers) (fs : Fs) : Prop :=
  fs.actual = true → fs.modified = true → FsInfo.Mirrored vol fs.blkNum →
    answers.released = true → Complete vol answers

theorem Holds.bufRelease_refused (holds : Holds fs bd buf) (refused : answers.released = false) :
    fs.bufRelease vol answers = some (.error .eio, fs) := by
  simp [Fs.bufRelease, holds.actual, holds.held_eq, holds.giveUp_refused refused]

/-- A release leaves the cache empty and the contents of the buffer on the disk. -/
theorem Holds.bufRelease_taken (holds : Holds fs bd buf) (sized : vol.Sized)
    (taken : answers.released = true) (whole : Whole vol answers fs) :
    ∃ after, fs.bufRelease vol answers = some (.ok (), after) ∧ Empty after ∧
      after.disk = settled vol fs buf := by
  cases modified : fs.modified with
  | false =>
    refine ⟨{ fs with lent := fun _ => none, modified := false, actual := false }, ?_, ⟨rfl, rfl⟩, ?_⟩
    · simp [Fs.bufRelease, holds.actual, holds.giveUp_eq taken, Fs.finish, modified]
    · simp [settled, modified]
  | true =>
    by_cases mirrored : FsInfo.Mirrored vol fs.blkNum
    · have complete := whole holds.actual modified mirrored taken
      have length : (get buf.buffer (sectorOffsetToBlockOffset vol fs.blkNum 0) vol.bps).length =
        vol.bps := length_get
      obtain ⟨fresh, finished⟩ := @finish_copied vol answers { fs with
          lent := fun _ => none
          disk := put fs.disk (buf.block * vol.bytesPerBlock) (get buf.buffer 0 vol.bytesPerBlock)
          modified := false } sized _ length rfl complete
      refine ⟨{ fs with
          lent := fun _ => none
          disk := settled vol fs buf
          modified := false
          actual := false
          fresh := fresh }, ?_, ⟨rfl, rfl⟩, rfl⟩
      rw [settled, if_pos modified, if_pos mirrored, ← finished]
      simp [Fs.bufRelease, holds.actual, modified, mirrored, holds.held_eq, holds.giveUp_eq taken]
    · refine ⟨{ fs with
          lent := fun _ => none
          disk := put fs.disk (buf.block * vol.bytesPerBlock) (get buf.buffer 0 vol.bytesPerBlock)
          modified := false
          actual := false }, ?_, ⟨rfl, rfl⟩, ?_⟩
      · simp [Fs.bufRelease, holds.actual, holds.giveUp_eq taken, Fs.finish, modified, mirrored]
      · simp [settled, modified, mirrored]

end Rtems.Dosfs.Lending
