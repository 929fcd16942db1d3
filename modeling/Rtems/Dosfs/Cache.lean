import Rtems.Dosfs.Volume

/-!
# The sector cache

The file system holds one buffer of the block device layer, which it addresses by a sector. A
modified buffer goes to the disk when another sector is accessed; a sector of the first FAT is then
copied to the other ones.

The results are those of the functions, or the error number in place of -1.
-/

namespace Rtems.Dosfs

open ByteRange

/-- `FAT_OP_TYPE_READ` and `FAT_OP_TYPE_GET` -/
inductive OpType where
  | read
  | get
deriving DecidableEq

namespace FsInfo

/-- The contents of a block. -/
def block (fs : FsInfo) (blk : Nat) : Content := fun place => fs.disk (blk * fs.vol.bytesPerBlock + place)

/-- A buffer goes to its block. -/
def store (fs : FsInfo) (blk : Nat) (buffer : Content) : FsInfo :=
  { fs with
    disk := put fs.disk (blk * fs.vol.bytesPerBlock) (get buffer 0 fs.vol.bytesPerBlock) }

/-- Whether a sector is one of a FAT, and so has to be copied to the other ones. -/
def Mirrored (vol : Volume) (secNum : Nat) : Prop :=
  vol.fatLoc ≤ secNum ∧ secNum < vol.rdirLoc ∧ vol.mirror = 0
deriving Decidable

/-- The loop of `fat_buf_release` over the other FATs. -/
def copyToFats (secBuf : List UInt8) : Nat → Nat → FsInfo → Except Errno Unit × FsInfo
  | 0, _, fs => (.ok (), fs)
  | fuel + 1, i, fs =>
    let secNum := (fs.c.blkNum + fs.vol.fatLength * i) % 2 ^ 32
    let blk := sectorNumToBlockNum fs.vol secNum
    let blkOfs := sectorOffsetToBlockOffset fs.vol secNum 0
    if blk < fs.device.blockCount then
      let bd := if blkOfs = 0 ∧ fs.vol.bps = fs.vol.bytesPerBlock then fs.unread blk else fs.block blk
      copyToFats secBuf fuel (i + 1) (fs.store blk (put bd blkOfs secBuf))
    else (.error .enomem, fs)

/-- The modified buffer goes to its block. -/
def writeBack (fs : FsInfo) : FsInfo :=
  { fs.store (sectorNumToBlockNum fs.vol fs.c.blkNum) fs.c.buf with
    c := { fs.c with modified := false } }

/-- `fat_buf_release` -/
def bufRelease (fs : FsInfo) : Except Errno Unit × FsInfo :=
  if fs.c.actual = false then (.ok (), fs)
  else if fs.c.modified then
    let secBuf := get fs.c.buf (sectorOffsetToBlockOffset fs.vol fs.c.blkNum 0) fs.vol.bps
    match
      if Mirrored fs.vol fs.c.blkNum then copyToFats secBuf (fs.vol.fats - 1) 1 fs.writeBack
      else (.ok (), fs.writeBack) with
    | (.error errno, fs) => (.error errno, fs)
    | (.ok _, fs) => (.ok (), { fs with c := { fs.c with actual := false } })
  else (.ok (), { fs with c := { fs.c with actual := false } })

/-- `fat_buf_access`: the offset of the sector in the buffer. -/
def bufAccess (fs : FsInfo) (secNum : Nat) (opType : OpType) : Except Errno Nat × FsInfo :=
  let blk := sectorNumToBlockNum fs.vol secNum
  let blkOfs := sectorOffsetToBlockOffset fs.vol secNum 0
  if fs.c.actual = false ∨ fs.c.blkNum ≠ secNum then
    let fs := fs.bufRelease.2
    if blk < fs.device.blockCount then
      let buf := match opType with
        | .read => fs.block blk
        | .get => fs.unread blk
      (.ok blkOfs,
        { fs with c := { blkNum := secNum, modified := false, actual := true, buf := buf } })
    else (.error .eio, fs)
  else (.ok blkOfs, fs)

/-- Bytes are copied to the buffer, which `fat_buf_mark_modified` marks. -/
def modify (fs : FsInfo) (place : Nat) (bytes : List UInt8) : FsInfo :=
  { fs with c := { fs.c with buf := put fs.c.buf place bytes, modified := true } }

/-- `_fat_block_read` -/
def blockRead : Nat → FsInfo → Nat → Nat → Nat → Except Errno (List UInt8) × FsInfo
  | 0, fs, _, _, _ => (.ok [], fs)
  | fuel + 1, fs, secNum, ofs, count =>
    if count = 0 then (.ok [], fs)
    else
      match fs.bufAccess secNum .read with
      | (.error errno, fs) => (.error errno, fs)
      | (.ok secBuf, fs) =>
        let c := min count (fs.vol.bps - ofs)
        let bytes := get fs.c.buf (secBuf + ofs) c
        match blockRead fuel fs ((secNum + 1) % 2 ^ 32) 0 (count - c) with
        | (.error errno, fs) => (.error errno, fs)
        | (.ok rest, fs) => (.ok (bytes ++ rest), fs)

/-- `fat_block_write`: the count of the bytes that were written. `fat_block_set` differs from it in the
bytes only. -/
def blockWrite (fs : FsInfo) (startBlk offset : Nat) (bytes : List UInt8) :
    Except Errno Nat × FsInfo :=
  let bytesToWrite := min bytes.length (fs.vol.bytesPerBlock - offset)
  let secNum := blockNumToSectorNum fs.vol startBlk
  if 0 < bytesToWrite then
    let opType := if bytesToWrite = fs.vol.bytesPerBlock then OpType.get else OpType.read
    match fs.bufAccess secNum opType with
    | (.error errno, fs) => (.error errno, fs)
    | (.ok blkBuf, fs) => (.ok bytesToWrite, fs.modify (blkBuf + offset) (bytes.take bytesToWrite))
  else (.ok 0, fs)

/-- The loop of `fat_cluster_write` and of `fat_cluster_set` over the blocks. -/
def writeBlocks : Nat → FsInfo → Nat → Nat → List UInt8 → Except Errno Unit × FsInfo
  | 0, fs, _, _, _ => (.ok (), fs)
  | fuel + 1, fs, curBlk, ofsBlk, bytes =>
    if bytes.length = 0 then (.ok (), fs)
    else
      let c := min bytes.length (fs.vol.bytesPerBlock - ofsBlk)
      match fs.blockWrite curBlk ofsBlk (bytes.take c) with
      | (.error errno, fs) => (.error errno, fs)
      | (.ok ret, fs) =>
        if c ≠ ret then (.error .eio, fs)
        else writeBlocks fuel fs ((curBlk + 1) % 2 ^ 32) 0 (bytes.drop ret)

/-- `fat_cluster_write`: the bytes that were written. -/
def clusterWrite (fs : FsInfo) (startCln offset : Nat) (bytes : List UInt8) :
    Except Errno Nat × FsInfo :=
  let bytesToWrite := min bytes.length (fs.vol.bpc - offset)
  let curBlk := clusterNumToBlockNum fs.vol startCln
  let blocksInOffset := offset / 2 ^ fs.vol.bytesPerBlockLog2
  let ofsBlk := offset - blocksInOffset * 2 ^ fs.vol.bytesPerBlockLog2
  match writeBlocks bytesToWrite fs ((curBlk + blocksInOffset) % 2 ^ 32) ofsBlk
      (bytes.take bytesToWrite) with
  | (.error errno, fs) => (.error errno, fs)
  | (.ok _, fs) => (.ok bytesToWrite, fs)

/-- `fat_cluster_set` -/
def clusterSet (fs : FsInfo) (startCln offset count : Nat) (pattern : UInt8) :
    Except Errno Nat × FsInfo :=
  fs.clusterWrite startCln offset (List.replicate count pattern)

end FsInfo

end Rtems.Dosfs
