import Mathlib.Data.Nat.Log
import Rtems.Library.ByteRange
import Rtems.Library.LittleEndian

/-!
# The volume of a FAT file system

The volume is described by the boot record in the first block of the disk. The block device layer
works with blocks of one sector or, if the parts of the volume are aligned, of one cluster.

A disk is a function of the place of a byte. The transfers of the driver succeed; a block fails only
behind the end of the device. Numbers are words of 32 bits.
-/

namespace Rtems.Dosfs

open ByteRange

/-- The bytes of a disk or of a buffer. -/
abbrev Content := Nat → UInt8

/-- The values of `errno` that occur. -/
inductive Errno where
  | einval
  | eio
  | enomem
  | enospc
  | efbig
deriving DecidableEq

/-- `FAT_FAT12`, `FAT_FAT16` and `FAT_FAT32` -/
inductive FatType where
  | fat12
  | fat16
  | fat32
deriving DecidableEq

def fat12MaxCln : Nat := 4085
def fat16MaxCln : Nat := 65525
def rsrvdCln : Nat := 2
def direntrySize : Nat := 32
def undefinedValue : Nat := 0xffffffff
def genfatEoc : Nat := 0xffffffff
def genfatFree : Nat := 0
def fsinfoLeadSignatureValue : Nat := 0x41615252

namespace FatType

/-- The field `mask`, which follows from the type. -/
def mask : FatType → Nat
  | fat12 => 0xfff
  | fat16 => 0xffff
  | fat32 => 0xfffffff

/-- The field `eoc_val`, which follows from the type. -/
def eocVal : FatType → Nat
  | fat12 => 0xff8
  | fat16 => 0xfff8
  | fat32 => 0xffffff8

end FatType

/-- Subtraction of 32-bit words. -/
def minus (word other : Nat) : Nat := (word + (2 ^ 32 - other)) % 2 ^ 32

/-- The part of `rtems_disk_device` that block sizes and block numbers depend on, with the buffer
descriptors of a block size as `rtems_bdbuf_bds_per_group` counts them. -/
structure Device where
  mediaBlockSize : Nat
  size : Nat
  fits : size < 2 ^ 32
  bdsPerGroup : Nat → Nat
  blockCount : Nat

/-- `rtems_bdbuf_set_block_size`. A size below the one of the media blocks divides by zero. -/
def Device.setBlockSize (device : Device) (blockSize : Nat) : Option Device :=
  if 0 < blockSize ∧ device.bdsPerGroup blockSize ≠ 0 ∧ device.mediaBlockSize ≤ blockSize then
    some { device with blockCount := device.size / (blockSize / device.mediaBlockSize) }
  else none

/-- `fat_vol_t`. The counts that change are fields of the file system. -/
structure Volume where
  bps : Nat
  secLog2 : Nat
  spc : Nat
  spcLog2 : Nat
  bpc : Nat
  bpcLog2 : Nat
  bytesPerBlock : Nat
  bytesPerBlockLog2 : Nat
  fats : Nat
  type : FatType
  fatLoc : Nat
  fatLength : Nat
  rdirLoc : Nat
  rdirEntrs : Nat
  rdirSecs : Nat
  rdirSize : Nat
  totSecs : Nat
  dataFsec : Nat
  dataCls : Nat
  rdirCl : Nat
  infoSec : Nat
  mirror : Nat
  afat : Nat
  afatLoc : Nat
deriving DecidableEq

/-- `fat_cache_t`, with the contents of the buffer. -/
structure Cache where
  blkNum : Nat
  modified : Bool
  actual : Bool
  buf : Content

/-- `fat_fs_info_t` with its disk. What a buffer holds that was obtained without reading its block
is unknown. -/
structure FsInfo where
  vol : Volume
  freeCls : Nat
  nextCl : Nat
  c : Cache
  device : Device
  disk : Content
  unread : Nat → Content

/-- `FAT_GET_VAL8`, `FAT_GET_VAL16` and `FAT_GET_VAL32` -/
def getVal (bytes : Content) (place size : Nat) : Nat := LittleEndian.read (get bytes place size)

/-- The loops of `fat_init_volume_info` that count the shifts until a number is odd. -/
def shiftsToOdd : Nat → Nat → Nat
  | 0, _ => 0
  | fuel + 1, i => if i % 2 = 0 then shiftsToOdd fuel (i / 2) + 1 else 0

def log2 (i : Nat) : Nat := shiftsToOdd 32 i

/-- The type of a volume by its count of clusters. -/
def typeOf (dataCls : Nat) : Option FatType :=
  if dataCls < fat12MaxCln then some .fat12
  else if dataCls < fat16MaxCln then some .fat16
  else if dataCls < FatType.fat32.mask - 1 then some .fat32
  else none

def fatLengthOf (boot : Content) : Nat :=
  if getVal boot 22 2 ≠ 0 then getVal boot 22 2 else getVal boot 36 4

def totSecsOf (boot : Content) : Nat :=
  if getVal boot 19 2 ≠ 0 then getVal boot 19 2 else getVal boot 32 4

def rdirLocOf (boot : Content) : Nat :=
  (getVal boot 14 2 + getVal boot 16 1 * fatLengthOf boot) % 2 ^ 32

def rdirSecsOf (boot : Content) : Nat :=
  (getVal boot 17 2 * direntrySize + (getVal boot 11 2 - 1)) / getVal boot 11 2

def dataFsecOf (boot : Content) : Nat :=
  (getVal boot 14 2 + getVal boot 16 1 * fatLengthOf boot + rdirSecsOf boot) % 2 ^ 32

def dataClsOf (boot : Content) : Nat :=
  minus (totSecsOf boot) (dataFsecOf boot) / getVal boot 13 1

/-- The mirror flag and the active FAT, which only FAT32 has. -/
def mirrorOf (boot : Content) : FatType → Nat
  | .fat32 => getVal boot 40 2 / 0x80 % 2 * 0x80
  | _ => 0

def afatOf (boot : Content) (type : FatType) : Nat :=
  if mirrorOf boot type ≠ 0 then getVal boot 40 2 % 0x10 else 0

/-- The fields of the volume from the boot record. -/
def volumeOf (boot : Content) (type : FatType) : Volume where
  bps := getVal boot 11 2
  secLog2 := log2 (getVal boot 11 2)
  spc := getVal boot 13 1
  spcLog2 := log2 (getVal boot 13 1)
  bpc := getVal boot 11 2 * 2 ^ log2 (getVal boot 13 1)
  bpcLog2 := log2 (getVal boot 11 2 * 2 ^ log2 (getVal boot 13 1))
  bytesPerBlock := getVal boot 11 2
  bytesPerBlockLog2 := log2 (getVal boot 11 2)
  fats := getVal boot 16 1
  type := type
  fatLoc := getVal boot 14 2
  fatLength := fatLengthOf boot
  rdirLoc := rdirLocOf boot
  rdirEntrs := getVal boot 17 2
  rdirSecs := rdirSecsOf boot
  rdirSize := rdirSecsOf boot * 2 ^ log2 (getVal boot 11 2)
  totSecs := totSecsOf boot
  dataFsec := dataFsecOf boot
  dataCls := dataClsOf boot
  rdirCl := if type = .fat32 then getVal boot 44 4 else 0
  infoSec := if type = .fat32 then getVal boot 48 2 else 0
  mirror := mirrorOf boot type
  afat := afatOf boot type
  afatLoc := (getVal boot 14 2 + fatLengthOf boot * afatOf boot type) % 2 ^ 32

/-- The free clusters and the next free cluster as the information sector of FAT32 has them. The
other types have none. -/
def readInfoSector (disk : Content) (device : Device) (vol : Volume) : Except Errno (Nat × Nat) :=
  if vol.type ≠ .fat32 then .ok (undefinedValue, undefinedValue)
  else if vol.infoSec = 0 then .error .einval
  else if device.blockCount ≤ vol.infoSec then .error .eio
  else if getVal disk (vol.infoSec * vol.bps) 4 ≠ fsinfoLeadSignatureValue then .error .einval
  else .ok (getVal disk (vol.infoSec * vol.bps + 488) 4, getVal disk (vol.infoSec * vol.bps + 492) 4)

/-- `is_cluster_aligned` -/
def isClusterAligned (vol : Volume) (secNum : Nat) : Bool := decide (secNum % vol.spc = 0)

/-- The end of `fat_init_volume_info`: the blocks become clusters if this is possible. -/
def raiseBlockSize (device : Device) (vol : Volume) : Device × Volume :=
  if isClusterAligned vol vol.dataFsec ∧ (vol.type = .fat32 ∨ isClusterAligned vol vol.rdirLoc) then
    match device.setBlockSize vol.bpc with
    | some device => (device, { vol with bytesPerBlock := vol.bpc, bytesPerBlockLog2 := vol.bpcLog2 })
    | none => (device, vol)
  else (device, vol)

/-- `fat_init_volume_info` on a block device. -/
def fatInitVolumeInfo (disk : Content) (unread : Nat → Content) (device : Device) :
    Except Errno FsInfo :=
  let bps := getVal disk 11 2
  let spc := getVal disk 13 1
  if bps ≠ 512 ∧ bps ≠ 1024 ∧ bps ≠ 2048 ∧ bps ≠ 4096 then .error .einval
  else
    match device.setBlockSize bps with
    | none => .error .einval
    | some device =>
      if spc = 0 then .error .einval
      else if spc ≠ 2 ^ log2 spc then .error .einval
      else
        match typeOf (dataClsOf disk) with
        | none => .error .einval
        | some type =>
          match readInfoSector disk device (volumeOf disk type) with
          | .error errno => .error errno
          | .ok (freeCls, nextCl) =>
            let (device, vol) := raiseBlockSize device (volumeOf disk type)
            .ok { vol := vol, freeCls := freeCls, nextCl := nextCl, device := device, disk := disk
                  c := { blkNum := 0, modified := false, actual := false, buf := fun _ => 0 }
                  unread := unread }

/-- `fat_cluster_num_to_sector_num` -/
def clusterNumToSectorNum (vol : Volume) (cln : Nat) : Nat :=
  if cln = 0 ∧ vol.type ≠ .fat32 then vol.rdirLoc
  else (minus cln rsrvdCln * 2 ^ vol.spcLog2 + vol.dataFsec) % 2 ^ 32

/-- `fat_block_num_to_sector_num` -/
def blockNumToSectorNum (vol : Volume) (blockNumber : Nat) : Nat :=
  blockNumber * 2 ^ (vol.bytesPerBlockLog2 - vol.secLog2) % 2 ^ 32

/-- `fat_sector_num_to_block_num` -/
def sectorNumToBlockNum (vol : Volume) (sectorNumber : Nat) : Nat :=
  sectorNumber / 2 ^ (vol.bytesPerBlockLog2 - vol.secLog2)

/-- `fat_sector_offset_to_block_offset` -/
def sectorOffsetToBlockOffset (vol : Volume) (sector sectorOffset : Nat) : Nat :=
  (sectorOffset +
    minus sector (blockNumToSectorNum vol (sectorNumToBlockNum vol sector)) * 2 ^ vol.secLog2) %
      2 ^ 32

/-- `fat_cluster_num_to_block_num` -/
def clusterNumToBlockNum (vol : Volume) (cln : Nat) : Nat :=
  if cln = 0 ∧ vol.type ≠ .fat32 then sectorNumToBlockNum vol vol.rdirLoc
  else
    (minus cln rsrvdCln * 2 ^ (vol.bpcLog2 - vol.bytesPerBlockLog2) +
      sectorNumToBlockNum vol vol.dataFsec) % 2 ^ 32

end Rtems.Dosfs
