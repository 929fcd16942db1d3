import Mathlib.Data.Fin.VecNotation
import Mathlib.Data.Fintype.Pi
import Rtems.Library.ByteRange
import Rtems.Library.LittleEndian

/-!
# Partition tables

The master boot record has four entries. If there are more partitions than that, the fourth entry
is the extended partition, and each further partition has a boot record of its own in front of it,
with a second entry that leads to the next one.

A block of the disk is a function of the offset. Reading and writing a block of the disk succeeds.
-/

namespace Rtems.Block.Bdpart

open ByteRange
open List (length_cons mem_cons_of_mem mem_cons_self)

/-- The status codes that occur. -/
inductive Status where
  | successful
  | tooMany
  | invalidAddress
  | invalidId
  | invalidNumber
  | notImplemented
  | ioError
deriving DecidableEq

/-- `uuid_t` -/
abbrev Uuid := Fin 16 → UInt8

/-- `rtems_bdpart_partition`, without the identifier that is neither written nor read. -/
structure Partition where
  begin : Nat
  ending : Nat
  type : Uuid
  flags : Nat
deriving DecidableEq

/-- `rtems_bdpart_format_type` -/
inductive FormatType where
  | mbr
  | gpt
deriving DecidableEq

/-- `rtems_bdpart_format` -/
structure Format where
  type : FormatType
  diskId : UInt32
  dosCompatibility : Bool
deriving DecidableEq

/-- The contents of a block. -/
abbrev Content := Nat → UInt8

/-- `rtems_disk_device` -/
structure Disk where
  start : Nat
  size : Nat
  blockSize : Nat
  blocks : Nat → Content
  fits : size < 2 ^ 32

/-- A buffer of the cache that is in use: the index of its block and the contents. -/
structure Record where
  index : Nat
  buffer : Content

def mbrEmpty : UInt8 := 0x0
def mbrExtended : UInt8 := 0x5
def mbrGpt : UInt8 := 0xee
def cylinderSize : Nat := 63
def bdpartBlockSize : Nat := 512
def tableEntrySize : Nat := 16
def offsetTable0 : Nat := 446
def offsetTable1 : Nat := offsetTable0 + tableEntrySize
def offsetDiskId : Nat := 440
def offsetSignature0 : Nat := 510
def offsetSignature1 : Nat := 511
def signature0 : UInt8 := 0x55
def signature1 : UInt8 := 0xaa
def offsetBegin : Nat := 8
def offsetSize : Nat := 12
def offsetType : Nat := 4
def offsetFlags : Nat := 0

/-- Subtraction of 32-bit words. -/
def minus (word other : Nat) : Nat := (word + (2 ^ 32 - other)) % 2 ^ 32

/-- `rtems_uint32_to_little_endian` -/
def uint32ToLittleEndian (value : Nat) (data : Content) (place : Nat) : Content :=
  put data place (LittleEndian.number 4 value)

/-- `rtems_uint32_from_little_endian` -/
def uint32FromLittleEndian (data : Content) (place : Nat) : Nat :=
  LittleEndian.read (get data place 4)

/-- `RTEMS_BDPART_MBR_MASTER_TYPE` with the first byte given. -/
def toPartitionType (mbrType : UInt8) : Uuid :=
  ![mbrType, 0xa2, 0x2e, 0x38, 0x38, 0xb5, 0xde, 0x11, 0xbc, 0x13, 0x00, 0x1d, 0x09, 0xb0, 0x5f, 0xa4]

/-- `rtems_bdpart_mbr_partition_type` -/
def mbrPartitionType (type : Uuid) : UInt8 := type 0

/-- `rtems_bdpart_to_mbr_partition_type`: whether the type is one of the format. -/
def toMbrPartitionType (type : Uuid) : Bool :=
  decide (∀ i, i ≠ 0 → type i = toPartitionType mbrEmpty i)

/-- `rtems_bdpart_get_disk_data`: the end of the disk. -/
def getDiskData (disk : Disk) : Except Status Nat :=
  if disk.blockSize < bdpartBlockSize then .error .ioError
  else if disk.start ≠ 0 then .error .ioError
  else .ok disk.size

/-- `rtems_bdbuf_read` -/
def bdbufRead (disk : Disk) (index : Nat) : Except Status Record :=
  if index < disk.size then .ok { index := index, buffer := disk.blocks index }
  else .error .invalidId

/-- `rtems_bdbuf_sync` -/
def bdbufSync (disk : Disk) (block : Record) : Disk :=
  { disk with blocks := Function.update disk.blocks block.index block.buffer }

/-- `rtems_bdpart_write_mbr_partition` to an entry. -/
def writeMbrPartition (data : Content) (entry begin size : Nat) (type flags : UInt8) : Content :=
  let data := uint32ToLittleEndian begin data (entry + offsetBegin)
  let data := uint32ToLittleEndian size data (entry + offsetSize)
  let data := put data (entry + offsetType) [type]
  put data (entry + offsetFlags) [flags]

/-- The cleared record with the signature that `rtems_bdpart_new_record` makes of a block. -/
def cleared (block : Record) : Record :=
  let buffer := put block.buffer 0 (List.replicate bdpartBlockSize 0)
  let buffer := put buffer offsetSignature0 [signature0]
  { block with buffer := put buffer offsetSignature1 [signature1] }

/-- `rtems_bdpart_new_record` after the block before has been written. -/
def newRecord (disk : Disk) (index : Nat) : Except Status Record :=
  (bdbufRead disk index).map cleared

/-- The checks of begin, end and overlap, in the order of the table. -/
def checkTable (diskEnd : Nat) : Option Partition → List Partition → Status
  | _, [] => .successful
  | before, p :: rest =>
    if p.begin ≥ diskEnd ∨ p.ending > diskEnd then .invalidNumber
    else if p.begin ≥ p.ending then .invalidNumber
    else if before.any fun q => decide (q.ending > p.begin) then .invalidNumber
    else checkTable diskEnd (some p) rest

/-- The check for the space of the extended boot records, behind the partition `before`. -/
def checkSpace (recordSpace : Nat) : Partition → List Partition → Status
  | _, [] => .successful
  | before, p :: rest =>
    if minus p.begin before.ending < recordSpace then .invalidNumber
    else checkSpace recordSpace p rest

/-- The check that the types and flags can be written. -/
def checkConversion : List Partition → Status
  | [] => .successful
  | p :: rest =>
    if !toMbrPartitionType p.type then .invalidId
    else if p.flags > 0xff then .invalidId
    else checkConversion rest

/-- The entries of the primary partitions from an entry on. -/
def writePrimaries : Nat → List Partition → Content → Content
  | _, [], data => data
  | entry, p :: rest, data =>
    writePrimaries (entry + tableEntrySize) rest
      (writeMbrPartition data entry p.begin (minus p.ending p.begin) (mbrPartitionType p.type)
        (UInt8.ofNat p.flags))

/-- The loop over the logical partitions. The record before is that of the partition before, or
for the first one the master boot record. -/
def writeLogical (recordSpace epBegin diskEnd : Nat) :
    Bool → List Partition → Disk → Record → Status × Disk × Record
  | _, [], disk, block => (.successful, disk, block)
  | first, p :: rest, disk, block =>
    let begin := minus p.begin recordSpace
    let block :=
      if first then block
      else
        { block with
          buffer := writeMbrPartition block.buffer offsetTable1 (minus begin epBegin)
            (minus diskEnd begin) mbrExtended 0 }
    let disk := bdbufSync disk block
    match newRecord disk begin with
    | .error sc => (sc, disk, block)
    | .ok block =>
      writeLogical recordSpace epBegin diskEnd false rest disk
        { block with
          buffer := writeMbrPartition block.buffer offsetTable0 recordSpace
            (minus p.ending p.begin) (mbrPartitionType p.type) (UInt8.ofNat p.flags) }

/-- The part of `rtems_bdpart_write` behind the checks. -/
def writeTable (format : Format) (recordSpace diskEnd : Nat) (pt : List Partition) (disk : Disk) :
    Status × Disk :=
  let ppc := if pt.length ≤ 4 then pt.length else 3
  match newRecord disk 0 with
  | .error sc => (sc, disk)
  | .ok block =>
    let buffer := uint32ToLittleEndian format.diskId.toNat block.buffer offsetDiskId
    let block := { block with buffer := writePrimaries offsetTable0 (pt.take ppc) buffer }
    match pt.drop ppc with
    | [] => (.successful, bdbufSync disk block)
    | p :: rest =>
      let epBegin := minus p.begin recordSpace
      let block :=
        { block with
          buffer := writeMbrPartition block.buffer (offsetTable0 + ppc * tableEntrySize) epBegin
            (minus diskEnd epBegin) mbrExtended 0 }
      let (sc, disk, block) := writeLogical recordSpace epBegin diskEnd true (p :: rest) disk block
      (sc, bdbufSync disk block)

/-- `rtems_bdpart_write` -/
def write (disk : Disk) (format : Option Format) (pt : List Partition) : Status × Disk :=
  match pt, format with
  | [], _ => (.successful, disk)
  | _ :: _, none => (.invalidAddress, disk)
  | first :: rest, some format =>
    let pt := first :: rest
    let dosCompatibility := decide (format.type = .mbr) && format.dosCompatibility
    let recordSpace := if dosCompatibility then cylinderSize else 1
    match getDiskData disk with
    | .error sc => (sc, disk)
    | .ok diskEnd =>
      let diskEnd := if dosCompatibility then diskEnd - diskEnd % recordSpace else diskEnd
      if checkTable diskEnd none pt ≠ .successful then (checkTable diskEnd none pt, disk)
      else if format.type ≠ .mbr then (.notImplemented, disk)
      else
        let ppc := if pt.length ≤ 4 then pt.length else 3
        if dosCompatibility ∧ first.begin ≠ cylinderSize then (.invalidNumber, disk)
        else
          let space :=
            match pt.drop (ppc - 1) with
            | [] => .successful
            | before :: logical => checkSpace recordSpace before logical
          if space ≠ .successful then (space, disk)
          else if checkConversion pt ≠ .successful then (checkConversion pt, disk)
          else writeTable format recordSpace diskEnd pt disk

/-- `rtems_bdpart_read_mbr_partition`: the partitions read so far, the last one first, and the
begin of the extended partition. -/
def readMbrPartition (data : Content) (entry room : Nat) (partitions : List Partition)
    (epBegin : Nat) : Except Status (List Partition × Nat) :=
  let begin := uint32FromLittleEndian data (entry + offsetBegin)
  let size := uint32FromLittleEndian data (entry + offsetSize)
  let ending := (begin + size) % 2 ^ 32
  let type := data (entry + offsetType)
  if type = mbrEmpty then .ok (partitions, epBegin)
  else if partitions.length = room + 1 then .error .tooMany
  else if begin ≥ ending then .error .ioError
  else if type = mbrExtended then .ok (partitions, begin)
  else
    .ok ({ begin := begin
           ending := ending
           type := toPartitionType type
           flags := (data (entry + offsetFlags)).toNat } :: partitions, epBegin)

/-- `rtems_bdpart_read_record` -/
def readRecord (disk : Disk) (index : Nat) : Except Status Content := do
  let block ← bdbufRead disk index
  if block.buffer offsetSignature0 = signature0 ∧ block.buffer offsetSignature1 = signature1 then
    .ok block.buffer
  else .error .ioError

/-- `rtems_bdpart_next_ebr` of the second entry. -/
def nextEbr (data : Content) : Nat :=
  if data (offsetTable1 + offsetType) = mbrExtended then
    uint32FromLittleEndian data (offsetTable1 + offsetBegin)
  else 0

/-- The begin and the end of a logical partition count from its boot record. -/
def adjust (ebr : Nat) (p : Partition) : Except Status Partition :=
  let begin := (p.begin + ebr) % 2 ^ 32
  let ending := (p.ending + ebr) % 2 ^ 32
  if begin > p.begin then
    if ending > p.ending then .ok { p with begin := begin, ending := ending } else .error .ioError
  else .error .ioError

/-- One round of the loop over the extended boot records: the partitions and the next record. An
empty table in front of the first partition would be changed before its start; it is refused. -/
def readEbr (disk : Disk) (room epBegin ebr : Nat) (partitions : List Partition) :
    Except Status (List Partition × Nat) := do
  let data ← readRecord disk ebr
  -- The begin of the extended partition is not set here.
  let (partitions, _) ← readMbrPartition data offsetTable0 room partitions epBegin
  match partitions with
  | [] => .error .ioError
  | p :: rest =>
    let p ← adjust ebr p
    let next := nextEbr data
    if next ≠ 0 then
      let place := (next + epBegin) % 2 ^ 32
      if place > next then .ok (p :: rest, place) else .error .ioError
    else .ok (p :: rest, 0)

/-- The loop over the extended boot records. -/
def readLogical (disk : Disk) (room epBegin : Nat) :
    Nat → Nat → List Partition → Option (Except Status (List Partition))
  | _, 0, partitions => some (.ok partitions)
  | 0, _ + 1, _ => none
  | fuel + 1, ebr + 1, partitions =>
    match readEbr disk room epBegin (ebr + 1) partitions with
    | .error sc => some (.error sc)
    | .ok (partitions, next) => readLogical disk room epBegin fuel next partitions

/-- The loop over the rest of the primary partition table. -/
def readPrimaries (data : Content) (room : Nat) :
    Nat → Nat → List Partition → Nat → Except Status (List Partition × Nat)
  | 0, _, partitions, epBegin => .ok (partitions, epBegin)
  | left + 1, entry, partitions, epBegin => do
    let (partitions, epBegin) ← readMbrPartition data entry room partitions epBegin
    readPrimaries data room left (entry + tableEntrySize) partitions epBegin

/-- The tables of `rtems_bdpart_read`: the disk identifier, the partitions with the last one first
and the begin of the extended partition. -/
def readMbr (disk : Disk) (room : Nat) : Except Status (UInt32 × List Partition × Nat) := do
  let _ ← getDiskData disk
  let data ← readRecord disk 0
  let (partitions, epBegin) ← readMbrPartition data offsetTable0 room [] 0
  if partitions.head?.any fun p => mbrPartitionType p.type == mbrGpt then .error .notImplemented
  else
    let (partitions, epBegin) ←
      readPrimaries data room 3 (offsetTable0 + tableEntrySize) partitions epBegin
    .ok (UInt32.ofNat (uint32FromLittleEndian data offsetDiskId), partitions, epBegin)

/-- `rtems_bdpart_read` with room for some partitions. A round of the loop over the extended boot
records adds a partition or raises the begin of the last one. -/
def read (disk : Disk) (room : Nat) : Option (Except Status (Format × List Partition)) :=
  match readMbr disk room with
  | .error sc => some (.error sc)
  | .ok (diskId, partitions, epBegin) =>
    (readLogical disk room epBegin ((room + 2) * 2 ^ 32) epBegin partitions).map fun result =>
      result.map fun partitions =>
        ({ type := .mbr, diskId := diskId, dosCompatibility := true }, partitions.reverse)

theorem minus_of_le {word other : Nat} (below : other ≤ word) (small : word < 2 ^ 32) :
    minus word other = word - other := by
  rw [minus]
  omega

variable {after : Content} {tested : Nat}

section Entries

variable {data : Content} {entry begin size place value : Nat} {type flags : UInt8}

theorem uint32_written (small : value < 2 ^ 32) :
    uint32FromLittleEndian (uint32ToLittleEndian value data place) place = value := by
  rw [uint32FromLittleEndian, uint32ToLittleEndian,
    get_put_self (LittleEndian.length_number 4 value), LittleEndian.read_number]
  exact Nat.mod_eq_of_lt small

theorem uint32_congr (same : ∀ tested, place ≤ tested → tested < place + 4 → after tested = data tested) :
    uint32FromLittleEndian after place = uint32FromLittleEndian data place := by
  rw [uint32FromLittleEndian, uint32FromLittleEndian, get_congr same]

theorem put_first {byte : UInt8} : put data place [byte] place = byte := by
  have inside : 0 < [byte].length := Nat.one_pos
  exact put_inside inside

/-- An entry of a table has its values. -/
structure Entry (data : Content) (entry begin size : Nat) (type flags : UInt8) : Prop where
  begins : uint32FromLittleEndian data (entry + offsetBegin) = begin
  sized : uint32FromLittleEndian data (entry + offsetSize) = size
  typed : data (entry + offsetType) = type
  flagged : data (entry + offsetFlags) = flags

/-- Outside of the entry nothing is written. -/
theorem writeMbrPartition_outside (outside : tested < entry ∨ entry + tableEntrySize ≤ tested) :
    writeMbrPartition data entry begin size type flags tested = data tested := by
  simp only [tableEntrySize] at outside
  simp only [writeMbrPartition, uint32ToLittleEndian, offsetBegin, offsetSize, offsetType,
    offsetFlags]
  rw [put_outside (by simp; omega), put_outside (by simp; omega), put_outside (by simp; omega),
    put_outside (by simp; omega)]

theorem entry_written (beginSmall : begin < 2 ^ 32) (sizeSmall : size < 2 ^ 32) :
    Entry (writeMbrPartition data entry begin size type flags) entry begin size type flags := by
  constructor
  case begins =>
    have written : uint32FromLittleEndian (uint32ToLittleEndian begin data (entry + offsetBegin))
        (entry + offsetBegin) = begin := uint32_written beginSmall
    refine (uint32_congr ?_).trans written
    intro tested least below
    simp only [offsetBegin] at least below
    simp only [writeMbrPartition, uint32ToLittleEndian, offsetSize, offsetType, offsetFlags]
    rw [put_outside (by simp; omega), put_outside (by simp; omega), put_outside (by simp; omega)]
  case sized =>
    have written : uint32FromLittleEndian (uint32ToLittleEndian size
        (uint32ToLittleEndian begin data (entry + offsetBegin)) (entry + offsetSize))
        (entry + offsetSize) = size := uint32_written sizeSmall
    refine (uint32_congr ?_).trans written
    intro tested least below
    simp only [offsetSize] at least below
    simp only [writeMbrPartition, offsetType, offsetFlags]
    rw [put_outside (by simp; omega), put_outside (by simp; omega)]
  case typed =>
    rw [writeMbrPartition, put_outside (by simp [offsetType, offsetFlags])]
    exact put_first
  case flagged => exact put_first

theorem Entry.congr (held : Entry data entry begin size type flags)
    (same : ∀ tested, entry ≤ tested → tested < entry + tableEntrySize →
      after tested = data tested) : Entry after entry begin size type flags where
  begins := (uint32_congr fun tested least below => same tested
    (by simp only [offsetBegin] at least; omega)
    (by simp only [offsetBegin, tableEntrySize] at *; omega)).trans held.begins
  sized := (uint32_congr fun tested least below => same tested
    (by simp only [offsetSize] at least; omega)
    (by simp only [offsetSize, tableEntrySize] at *; omega)).trans held.sized
  typed := (same _ (by omega) (by simp [offsetType, tableEntrySize])).trans held.typed
  flagged := (same _ (by omega) (by simp [offsetFlags, tableEntrySize])).trans held.flagged

/-- The record is one. -/
def Signed (data : Content) : Prop :=
  data offsetSignature0 = signature0 ∧ data offsetSignature1 = signature1

theorem cleared_signed (block : Record) : Signed (cleared block).buffer := by
  constructor
  · simp only [cleared]
    rw [put_outside (Or.inl (by decide))]
    exact put_first
  · simp only [cleared]
    exact put_first

theorem cleared_zero (block : Record) (inside : tested < offsetSignature0) :
    (cleared block).buffer tested = 0 := by
  have first : offsetSignature0 < offsetSignature1 := by decide
  have size : offsetSignature1 < bdpartBlockSize := by decide
  have short : tested < (List.replicate bdpartBlockSize (0 : UInt8)).length := by
    rw [List.length_replicate]
    omega
  simp only [cleared]
  rw [put_outside (Or.inl (by omega)), put_outside (Or.inl inside)]
  have read : put block.buffer 0 (List.replicate bdpartBlockSize 0) (0 + tested) = _ :=
    put_inside short
  rw [Nat.zero_add] at read
  rw [read, List.getElem_replicate]

end Entries

variable {begin size place : Nat} {type flags : UInt8}

section Reading

variable {disk : Disk} {data : Content} {entry room : Nat} {p : Partition}
  {partitions rest : List Partition} {epBegin gap : Nat}

/-- A partition that can be written to an entry and is neither empty nor extended. -/
structure Plain (p : Partition) : Prop where
  type : toMbrPartitionType p.type = true
  flags : p.flags ≤ 0xff
  empty : mbrPartitionType p.type ≠ mbrEmpty
  extended : mbrPartitionType p.type ≠ mbrExtended
  some : p.begin < p.ending
  fits : p.ending < 2 ^ 32

theorem Plain.type_eq (plain : Plain p) : toPartitionType (mbrPartitionType p.type) = p.type := by
  have rest := of_decide_eq_true plain.type
  funext i
  by_cases first : i = 0
  · subst first
    rfl
  · obtain ⟨j, rfl⟩ := Fin.exists_succ_eq.mpr first
    rw [rest j.succ first]
    rfl

theorem Plain.flags_eq (plain : Plain p) : (UInt8.ofNat p.flags).toNat = p.flags := by
  have small := plain.flags
  simp
  omega

theorem readMbrPartition_entry (room : Nat) (partitions : List Partition) (epBegin : Nat)
    (held : Entry data entry begin size type flags) (empty : type ≠ mbrEmpty)
    (extended : type ≠ mbrExtended) (few : partitions.length ≠ room + 1) (pos : 0 < size)
    (fits : begin + size < 2 ^ 32) :
    readMbrPartition data entry room partitions epBegin =
      .ok ({ begin := begin
             ending := begin + size
             type := toPartitionType type
             flags := flags.toNat } :: partitions, epBegin) := by
  simp only [readMbrPartition, held.begins, held.sized, held.typed, held.flagged,
    Nat.mod_eq_of_lt fits]
  rw [if_neg empty, if_neg few, if_neg (by omega), if_neg extended]

theorem readMbrPartition_plain (plain : Plain p)
    (held : Entry data entry p.begin (p.ending - p.begin) (mbrPartitionType p.type)
      (UInt8.ofNat p.flags)) (few : partitions.length ≠ room + 1) :
    readMbrPartition data entry room partitions epBegin = .ok (p :: partitions, epBegin) := by
  have some := plain.some
  have fits := plain.fits
  rw [readMbrPartition_entry room partitions epBegin held plain.empty plain.extended few (by omega)
    (by omega), plain.type_eq, plain.flags_eq, Nat.add_sub_cancel' some.le]

theorem readMbrPartition_empty (empty : data (entry + offsetType) = mbrEmpty) :
    readMbrPartition data entry room partitions epBegin = .ok (partitions, epBegin) := by
  simp only [readMbrPartition, empty]
  rfl

/-- The entries of partitions follow each other. -/
def Table (data : Content) : Nat → List Partition → Prop
  | _, [] => True
  | entry, p :: rest =>
    Entry data entry p.begin (p.ending - p.begin) (mbrPartitionType p.type) (UInt8.ofNat p.flags) ∧
      Table data (entry + tableEntrySize) rest

theorem readPrimaries_table (room epBegin left : Nat) (partitions : List Partition) (held : Table data entry rest)
    (plain : ∀ p ∈ rest, Plain p) (few : partitions.length + rest.length ≤ room) :
    readPrimaries data room (rest.length + left) entry partitions epBegin =
      readPrimaries data room left (entry + rest.length * tableEntrySize)
        (rest.reverse ++ partitions) epBegin := by
  induction rest generalizing entry partitions with
  | nil => simp
  | cons p rest ih =>
    obtain ⟨first, others⟩ := held
    rw [length_cons] at few ⊢
    have length : rest.length + 1 + left = rest.length + left + 1 := by omega
    have place : entry + (rest.length + 1) * tableEntrySize =
        entry + tableEntrySize + rest.length * tableEntrySize := by
      rw [Nat.succ_mul]
      omega
    rw [length, readPrimaries, readMbrPartition_plain (plain p mem_cons_self) first (by omega)]
    change readPrimaries data room (rest.length + left) (entry + tableEntrySize) (p :: partitions)
      epBegin = _
    rw [ih (p :: partitions) others
      (fun q mem => plain q (mem_cons_of_mem _ mem)) (by rw [length_cons]; omega),
      place]
    simp

theorem readPrimaries_empty (left : Nat)
    (empty : ∀ index < left, data (entry + index * tableEntrySize + offsetType) = mbrEmpty) :
    readPrimaries data room left entry partitions epBegin = .ok (partitions, epBegin) := by
  induction left generalizing entry with
  | zero => rfl
  | succ left ih =>
    have first := empty 0 (by omega)
    rw [Nat.zero_mul, Nat.add_zero] at first
    rw [readPrimaries, readMbrPartition_empty first]
    refine ih fun index below => ?_
    have later := empty (index + 1) (by omega)
    rwa [Nat.succ_mul, Nat.add_comm (index * tableEntrySize), ← Nat.add_assoc] at later

/-- The boot records of logical partitions follow each other. -/
def Chain (disk : Disk) (recordSpace epBegin : Nat) : List Partition → Prop
  | [] => True
  | p :: rest =>
    Signed (disk.blocks (p.begin - recordSpace)) ∧
    Entry (disk.blocks (p.begin - recordSpace)) offsetTable0 recordSpace (p.ending - p.begin)
      (mbrPartitionType p.type) (UInt8.ofNat p.flags) ∧
    (match rest with
      | [] => disk.blocks (p.begin - recordSpace) (offsetTable1 + offsetType) = mbrEmpty
      | q :: _ => ∃ size, Entry (disk.blocks (p.begin - recordSpace)) offsetTable1
          (q.begin - recordSpace - epBegin) size mbrExtended 0) ∧
    Chain disk recordSpace epBegin rest

/-- Partitions with room for a record in front of each, behind a place and before the end. -/
def Spaced (recordSpace diskEnd : Nat) : Nat → List Partition → Prop
  | _, [] => True
  | place, p :: rest =>
    place + recordSpace ≤ p.begin ∧ p.begin < p.ending ∧ p.ending ≤ diskEnd ∧
      Spaced recordSpace diskEnd p.ending rest

theorem readRecord_signed {index : Nat} (inside : index < disk.size)
    (signed : Signed (disk.blocks index)) : readRecord disk index = .ok (disk.blocks index) := by
  rw [readRecord, bdbufRead, if_pos inside]
  exact if_pos signed

theorem adjust_eq {ebr : Nat} (pos : 0 < ebr) (sized : p.begin < p.ending)
    (fits : p.ending + ebr < 2 ^ 32) :
    adjust ebr p = .ok { p with begin := p.begin + ebr, ending := p.ending + ebr } := by
  rw [adjust, Nat.mod_eq_of_lt (by omega), Nat.mod_eq_of_lt fits, if_pos (by omega),
    if_pos (by omega)]

/-- The record behind that of a logical partition, if there is one. -/
def following (recordSpace : Nat) : List Partition → Nat
  | [] => 0
  | q :: _ => q.begin - recordSpace

theorem readLogical_done (fuel : Nat) :
    readLogical disk room epBegin fuel 0 partitions = some (.ok partitions) := by
  cases fuel <;> rfl

theorem Table.congr (table : Table data entry rest)
    (same : ∀ tested, entry ≤ tested → tested < entry + rest.length * tableEntrySize →
      after tested = data tested) : Table after entry rest := by
  induction rest generalizing entry with
  | nil => trivial
  | cons p rest ih =>
    obtain ⟨first, others⟩ := table
    rw [length_cons, Nat.succ_mul] at same
    exact ⟨first.congr fun tested least below => same tested least (by omega),
      ih others fun tested least below => same tested (by omega) (by omega)⟩

/-- An extended boot record gives its partition and leads to the next record. -/
theorem readEbr_chain (pos : 0 < gap) (chain : Chain disk gap epBegin (p :: rest))
    (spaced : Spaced gap disk.size place (p :: rest)) (behind : 0 < place)
    (start : epBegin ≤ p.begin - gap) (extended : 0 < epBegin) (plain : Plain p)
    (few : partitions.length < room) :
    readEbr disk room epBegin (p.begin - gap) partitions =
      .ok (p :: partitions, following gap rest) := by
  obtain ⟨signed, first, second, -⟩ := chain
  obtain ⟨least, sized, inside, later⟩ := spaced
  have size := disk.fits
  have read := readMbrPartition_entry room partitions epBegin first plain.empty plain.extended
    (by omega) (by omega) (by omega)
  rw [plain.type_eq, plain.flags_eq] at read
  have adjusted : adjust (p.begin - gap)
      { p with begin := gap, ending := gap + (p.ending - p.begin) } = .ok p := by
    rw [adjust_eq (by omega) (by dsimp only; omega) (by dsimp only; omega)]
    have begins : gap + (p.begin - gap) = p.begin := by omega
    have ends : gap + (p.ending - p.begin) + (p.begin - gap) = p.ending := by omega
    rw [begins, ends]
  rw [readEbr, readRecord_signed (by omega) signed]
  change (readMbrPartition (disk.blocks (p.begin - gap)) offsetTable0 room partitions
    epBegin).bind _ = _
  rw [read]
  change (adjust (p.begin - gap)
    { p with begin := gap, ending := gap + (p.ending - p.begin) }).bind _ = _
  rw [adjusted]
  cases rest with
  | nil =>
    have ended : nextEbr (disk.blocks (p.begin - gap)) = 0 := by
      rw [nextEbr, second]
      rfl
    rw [ended]
    rfl
  | cons q rest =>
    obtain ⟨qLeast, qSized, qInside, -⟩ := later
    obtain ⟨length, entry⟩ := second
    have next : nextEbr (disk.blocks (p.begin - gap)) = q.begin - gap - epBegin := by
      rw [nextEbr, entry.typed, if_pos rfl, entry.begins]
    have sum : (q.begin - gap - epBegin + epBegin) % 2 ^ 32 = q.begin - gap := by
      rw [Nat.sub_add_cancel (by omega), Nat.mod_eq_of_lt (by omega)]
    change (if nextEbr (disk.blocks (p.begin - gap)) ≠ 0 then
      if (nextEbr (disk.blocks (p.begin - gap)) + epBegin) % 2 ^ 32 >
        nextEbr (disk.blocks (p.begin - gap)) then _ else _ else _) = _
    rw [next, sum, if_pos (by omega), if_pos (by omega)]
    rfl

/-- The loop over the extended boot records gives the logical partitions. -/
theorem readLogical_chain (room fuel : Nat) (partitions : List Partition) (pos : 0 < gap)
    (chain : Chain disk gap epBegin (p :: rest)) (spaced : Spaced gap disk.size place (p :: rest))
    (behind : 0 < place) (start : epBegin ≤ p.begin - gap) (extended : 0 < epBegin)
    (plain : ∀ q ∈ p :: rest, Plain q) (enough : rest.length < fuel)
    (few : partitions.length + rest.length < room) :
    readLogical disk room epBegin fuel (p.begin - gap) partitions =
      some (.ok ((p :: rest).reverse ++ partitions)) := by
  induction rest generalizing p partitions fuel place with
  | nil =>
    have read := readEbr_chain pos chain spaced behind start extended
      (plain p mem_cons_self) (by omega : partitions.length < room)
    obtain ⟨fuel, rfl⟩ : ∃ more, fuel = more + 1 := ⟨fuel - 1, by omega⟩
    obtain ⟨ebr, place⟩ : ∃ ebr, p.begin - gap = ebr + 1 := ⟨p.begin - gap - 1, by omega⟩
    rw [place] at read ⊢
    rw [readLogical, read]
    exact readLogical_done fuel
  | cons q rest ih =>
    rw [length_cons] at enough few
    have read := readEbr_chain pos chain spaced behind start extended
      (plain p mem_cons_self) (by omega : partitions.length < room)
    obtain ⟨-, -, -, others⟩ := chain
    obtain ⟨least, sized, inside, later⟩ := spaced
    have qLeast := later.1
    obtain ⟨fuel, rfl⟩ : ∃ more, fuel = more + 1 := ⟨fuel - 1, by omega⟩
    obtain ⟨ebr, place⟩ : ∃ ebr, p.begin - gap = ebr + 1 := ⟨p.begin - gap - 1, by omega⟩
    rw [place] at read ⊢
    rw [readLogical, read]
    change readLogical disk room epBegin fuel (q.begin - gap) (p :: partitions) = _
    rw [ih fuel (p :: partitions) others later (by omega) (by omega)
      (fun r mem => plain r (mem_cons_of_mem _ mem)) (by omega)
      (by rw [length_cons]; omega)]
    simp

end Reading

section Writing

variable {disk : Disk} {block : Record} {p : Partition} {rest : List Partition}
  {gap epBegin diskEnd place : Nat}

/-- The disk is the same but for its blocks. -/
structure Same (disk after : Disk) : Prop where
  start : after.start = disk.start
  size : after.size = disk.size
  blockSize : after.blockSize = disk.blockSize

theorem Same.trans {after last : Disk} (first : Same disk after) (second : Same after last) :
    Same disk last :=
  ⟨second.start.trans first.start, second.size.trans first.size,
    second.blockSize.trans first.blockSize⟩

/-- The record before logical partitions when it is written: the second entry leads to the first
of them, unless the record is the master boot record. -/
def linked (recordSpace epBegin diskEnd : Nat) (first : Bool) (block : Record) :
    List Partition → Content
  | [] => block.buffer
  | p :: _ =>
    if first then block.buffer
    else
      writeMbrPartition block.buffer offsetTable1 (minus (minus p.begin recordSpace) epBegin)
        (minus diskEnd (minus p.begin recordSpace)) mbrExtended 0

/-- The entries of a table do not reach the signature. -/
theorem written_signed {data : Content} {entry : Nat} (signed : Signed data)
    (inside : entry + tableEntrySize ≤ offsetSignature0) :
    Signed (writeMbrPartition data entry begin size type flags) := by
  have next : offsetSignature0 ≤ offsetSignature1 := by decide
  constructor
  · rw [writeMbrPartition_outside (Or.inr inside)]
    exact signed.1
  · rw [writeMbrPartition_outside (Or.inr (inside.trans next))]
    exact signed.2

theorem linked_signed (first : Bool) (signed : Signed block.buffer) :
    Signed (linked gap epBegin diskEnd first block rest) := by
  cases rest with
  | nil => exact signed
  | cons p rest =>
    cases first with
    | true => exact signed
    | false => exact written_signed signed (by decide)

/-- The link to the next record does not change the first entry. -/
theorem linked_entry (first : Bool) (held : Entry block.buffer offsetTable0 begin size type flags) :
    Entry (linked gap epBegin diskEnd first block rest) offsetTable0 begin size type flags := by
  cases rest with
  | nil => exact held
  | cons p rest =>
    cases first with
    | true => exact held
    | false => exact held.congr fun tested _ below => writeMbrPartition_outside (Or.inl below)

/-- The logical partitions are written, each with its record, and no block before them but the
record in front. -/
theorem writeLogical_spec (disk : Disk) (block : Record) (first : Bool) (epBegin : Nat)
    (pos : 0 < gap) (inside : diskEnd ≤ disk.size)
    (spaced : Spaced gap diskEnd place rest) (behind : block.index < place)
    (start : ∀ p, rest.head? = some p → epBegin ≤ p.begin - gap)
    (plain : ∀ q ∈ rest, Plain q) :
    ∃ after last, writeLogical gap epBegin diskEnd first rest disk block =
        (.successful, after, last) ∧ Same disk (bdbufSync after last) ∧
      (∀ index < block.index, (bdbufSync after last).blocks index = disk.blocks index) ∧
      (bdbufSync after last).blocks block.index = linked gap epBegin diskEnd first block rest ∧
      Chain (bdbufSync after last) gap epBegin rest := by
  induction rest generalizing first disk block place with
  | nil =>
    refine ⟨disk, block, rfl, ⟨rfl, rfl, rfl⟩, ?_, ?_, trivial⟩
    · intro index before
      exact Function.update_of_ne (by omega) _ _
    · exact Function.update_self _ _ _
  | cons p rest ih =>
    obtain ⟨least, sized, ends, later⟩ := spaced
    have size := disk.fits
    have extended := start p rfl
    have next : ∀ q, rest.head? = some q → epBegin ≤ q.begin - gap := by
      intro q head
      obtain ⟨others, rfl⟩ := List.head?_eq_some_iff.mp head
      have qLeast := later.1
      omega
    have begins : minus p.begin gap = p.begin - gap := minus_of_le (by omega) (by omega)
    have length : minus p.ending p.begin = p.ending - p.begin := minus_of_le sized.le (by omega)
    generalize written : ({ block with
      buffer := linked gap epBegin diskEnd first block (p :: rest) } : Record) = before
    have fresh : newRecord (bdbufSync disk before) (p.begin - gap) =
        .ok (cleared ⟨p.begin - gap, (bdbufSync disk before).blocks (p.begin - gap)⟩) := by
      rw [newRecord, bdbufRead, if_pos (by change p.begin - gap < disk.size; omega)]
      rfl
    generalize made : cleared ⟨p.begin - gap,
      (bdbufSync disk before).blocks (p.begin - gap)⟩ = new at fresh
    have newIndex : new.index = p.begin - gap := by
      rw [← made]
      rfl
    have newSigned : Signed new.buffer := made ▸ cleared_signed _
    have newZero : ∀ tested < offsetSignature0, new.buffer tested = 0 := by
      intro tested below
      rw [← made]
      exact cleared_zero _ below
    generalize filled : ({ new with
      buffer := writeMbrPartition new.buffer offsetTable0 gap (p.ending - p.begin)
        (mbrPartitionType p.type) (UInt8.ofNat p.flags) } : Record) = full
    have round : writeLogical gap epBegin diskEnd first (p :: rest) disk block =
        writeLogical gap epBegin diskEnd false rest (bdbufSync disk before) full := by
      have linkedBlock : (if first then block else
          { block with
            buffer := writeMbrPartition block.buffer offsetTable1
              (minus (minus p.begin gap) epBegin)
              (minus diskEnd (minus p.begin gap)) mbrExtended 0 }) = before := by
        rw [← written]
        cases first <;> rfl
      rw [writeLogical, linkedBlock, begins, fresh]
      simp only [length, filled]
    have index : full.index = p.begin - gap := by
      rw [← filled]
      exact newIndex
    have beforeIndex : before.index = block.index := by rw [← written]
    have insideAfter : diskEnd ≤ (bdbufSync disk before).size := inside
    obtain ⟨after, last, result, same, untouched, own, chain⟩ :=
      ih (bdbufSync disk before) full false insideAfter later (by omega) next
        fun q mem => plain q (mem_cons_of_mem _ mem)
    rw [index] at untouched own
    have fullBuffer : full.buffer = writeMbrPartition new.buffer offsetTable0 gap
        (p.ending - p.begin) (mbrPartitionType p.type) (UInt8.ofNat p.flags) := by
      rw [← filled]
    have unchanged : Same disk (bdbufSync disk before) := ⟨rfl, rfl, rfl⟩
    refine ⟨after, last, round.trans result, unchanged.trans same, ?_, ?_, ?_, ?_, ?_, chain⟩
    · intro i below
      rw [untouched i (by omega)]
      exact Function.update_of_ne (by omega) _ _
    · rw [untouched block.index (by omega), ← beforeIndex]
      have wrote : (bdbufSync disk before).blocks before.index = before.buffer :=
        Function.update_self _ _ _
      rw [wrote, ← written]
    · rw [own]
      apply linked_signed
      rw [fullBuffer]
      exact written_signed newSigned (by decide)
    · rw [own]
      apply linked_entry
      rw [fullBuffer]
      exact entry_written (by omega) (by omega)
    · rw [own]
      cases rest with
      | nil =>
        change full.buffer (offsetTable1 + offsetType) = mbrEmpty
        rw [fullBuffer, writeMbrPartition_outside (Or.inr (by decide))]
        exact newZero _ (by decide)
      | cons q rest =>
        obtain ⟨qLeast, qSized, qEnds, -⟩ := later
        have qBegins : minus q.begin gap = q.begin - gap := minus_of_le (by omega) (by omega)
        have link : minus (q.begin - gap) epBegin = q.begin - gap - epBegin :=
          minus_of_le (by omega) (by omega)
        refine ⟨diskEnd - (q.begin - gap), ?_⟩
        change Entry (writeMbrPartition full.buffer offsetTable1
          (minus (minus q.begin gap) epBegin) (minus diskEnd (minus q.begin gap))
          mbrExtended 0) _ _ _ _ _
        rw [qBegins, link, minus_of_le (by omega) (by omega)]
        exact entry_written (by omega) (by omega)

/-- The entries of the primary partitions. -/
theorem writePrimaries_table (data : Content) (entry : Nat) (plain : ∀ q ∈ rest, Plain q) :
    Table (writePrimaries entry rest data) entry rest ∧
      ∀ tested, tested < entry ∨ entry + rest.length * tableEntrySize ≤ tested →
        writePrimaries entry rest data tested = data tested := by
  induction rest generalizing data entry with
  | nil => exact ⟨trivial, fun _ _ => rfl⟩
  | cons p rest ih =>
    have good := plain p mem_cons_self
    have some := good.some
    have fits := good.fits
    obtain ⟨table, outside⟩ := ih
      (writeMbrPartition data entry p.begin (minus p.ending p.begin) (mbrPartitionType p.type)
        (UInt8.ofNat p.flags)) (entry + tableEntrySize) fun q mem => plain q (mem_cons_of_mem _ mem)
    rw [writePrimaries, Table, length_cons, Nat.succ_mul]
    refine ⟨⟨?_, table⟩, ?_⟩
    · have written : Entry (writeMbrPartition data entry p.begin (minus p.ending p.begin)
          (mbrPartitionType p.type) (UInt8.ofNat p.flags)) entry p.begin (p.ending - p.begin)
          (mbrPartitionType p.type) (UInt8.ofNat p.flags) := by
        rw [minus_of_le some.le fits]
        exact entry_written (by omega) (by omega)
      exact written.congr fun tested _ below => outside tested (Or.inl below)
    · intro tested apart
      rw [outside tested (by omega), writeMbrPartition_outside (by omega)]

/-- The table of a master boot record, read back. -/
theorem readMbr_table (disk : Disk) {data : Content} {room : Nat} {pt : List Partition}
    {id : UInt32} (size : ¬disk.blockSize < bdpartBlockSize) (zero : disk.start = 0)
    (some : 0 < disk.size) (content : disk.blocks 0 = data) (signed : Signed data)
    (name : uint32FromLittleEndian data offsetDiskId = id.toNat)
    (table : Table data offsetTable0 (p :: pt)) (plain : ∀ q ∈ p :: pt, Plain q)
    (gpt : mbrPartitionType p.type ≠ mbrGpt) {more : List Partition} {epBegin : Nat}
    (few : pt.length < room) (others : readPrimaries data room (3 - pt.length) (offsetTable0 +
      tableEntrySize + pt.length * tableEntrySize) ((p :: pt).reverse) 0 = .ok (more, epBegin))
    (short : pt.length ≤ 3) : readMbr disk room = .ok (id, more, epBegin) := by
  obtain ⟨first, table⟩ := table
  have read := readPrimaries_table room 0 (3 - pt.length) [p] table (fun q mem => plain q (mem_cons_of_mem _ mem))
    (by simp; omega)
  rw [show pt.length + (3 - pt.length) = 3 by omega] at read
  rw [readMbr, getDiskData, if_neg size, if_neg (not_not.mpr zero)]
  rw [readRecord_signed some (content ▸ signed), content]
  change (readMbrPartition data offsetTable0 room [] 0).bind _ = _
  rw [readMbrPartition_plain (plain p mem_cons_self) first (by simp)]
  change (if ([p].head?.any fun p => mbrPartitionType p.type == mbrGpt) = true then _ else _) = _
  rw [if_neg (by simp [gpt])]
  have reversed : pt.reverse ++ [p] = (p :: pt).reverse := (List.reverse_cons).symm
  rw [read, reversed, others]
  change Except.ok (UInt32.ofNat (uint32FromLittleEndian data offsetDiskId), more, epBegin) = _
  rw [name, UInt32.ofNat_toNat]

end Writing

section Checks

variable {diskEnd gap : Nat} {before : Option Partition} {pt : List Partition}

theorem checkTable_cons {p : Partition} {rest : List Partition}
    (checked : checkTable diskEnd before (p :: rest) = .successful) :
    p.begin < p.ending ∧ p.ending ≤ diskEnd ∧ (∀ q, before = some q → q.ending ≤ p.begin) ∧
      checkTable diskEnd (some p) rest = .successful := by
  rw [checkTable] at checked
  by_cases bounds : p.begin ≥ diskEnd ∨ p.ending > diskEnd
  · rw [if_pos bounds] at checked
    cases checked
  rw [if_neg bounds] at checked
  by_cases sized : p.begin ≥ p.ending
  · rw [if_pos sized] at checked
    cases checked
  rw [if_neg sized] at checked
  by_cases overlap : before.any (fun q => decide (q.ending > p.begin)) = true
  · rw [if_pos overlap] at checked
    cases checked
  rw [if_neg overlap] at checked
  refine ⟨by omega, by omega, ?_, checked⟩
  rintro q rfl
  simpa using overlap

theorem checkTable_bounds (checked : checkTable diskEnd before pt = .successful) :
    ∀ p ∈ pt, p.begin < p.ending ∧ p.ending ≤ diskEnd := by
  induction pt generalizing before with
  | nil => simp
  | cons first rest ih =>
    obtain ⟨sized, inside, -, later⟩ := checkTable_cons checked
    intro p mem
    rcases List.mem_cons.mp mem with rfl | there
    · exact ⟨sized, inside⟩
    · exact ih later p there

/-- Behind a partition the checks say that there is room for each record. -/
theorem spaced_of_checks {p : Partition} (small : diskEnd < 2 ^ 32)
    (checked : checkTable diskEnd (some p) pt = .successful)
    (space : checkSpace gap p pt = .successful) : Spaced gap diskEnd p.ending pt := by
  induction pt generalizing p with
  | nil => trivial
  | cons first rest ih =>
    obtain ⟨sized, inside, behind, later⟩ := checkTable_cons checked
    have apart := behind p rfl
    rw [checkSpace] at space
    by_cases narrow : minus first.begin p.ending < gap
    · rw [if_pos narrow] at space
      cases space
    rw [if_neg narrow] at space
    rw [minus_of_le apart (by omega)] at narrow
    exact ⟨by omega, sized, inside, ih later space⟩

theorem Spaced.mono {more : Nat} (spaced : Spaced gap diskEnd place pt) (larger : diskEnd ≤ more) :
    Spaced gap more place pt := by
  induction pt generalizing place with
  | nil => trivial
  | cons first rest ih =>
    obtain ⟨least, sized, inside, later⟩ := spaced
    exact ⟨least, sized, inside.trans larger, ih later⟩

theorem checkConversion_mem (checked : checkConversion pt = .successful) :
    ∀ p ∈ pt, toMbrPartitionType p.type = true ∧ p.flags ≤ 0xff := by
  induction pt with
  | nil => simp
  | cons first rest ih =>
    rw [checkConversion] at checked
    by_cases foreign : (!toMbrPartitionType first.type) = true
    · rw [if_pos foreign] at checked
      cases checked
    rw [if_neg foreign] at checked
    by_cases large : first.flags > 0xff
    · rw [if_pos large] at checked
      cases checked
    rw [if_neg large] at checked
    intro p mem
    rcases List.mem_cons.mp mem with rfl | there
    · exact ⟨by simpa using foreign, by omega⟩
    · exact ih checked p there

/-- A table that is written has passed all checks. -/
structure Accepted (disk : Disk) (format : Format) (pt : List Partition)
    (recordSpace diskEnd : Nat) : Prop where
  positive : 0 < recordSpace
  blockSize : ¬disk.blockSize < bdpartBlockSize
  start : disk.start = 0
  inside : diskEnd ≤ disk.size
  table : checkTable diskEnd none pt = .successful
  space : ∀ before logical, pt.drop ((if pt.length ≤ 4 then pt.length else 3) - 1) =
    before :: logical → checkSpace recordSpace before logical = .successful
  conversion : checkConversion pt = .successful
  result : write disk (some format) pt = writeTable format recordSpace diskEnd pt disk

theorem accepted_of_write {disk : Disk} {format : Format} (some : pt ≠ [])
    (written : (write disk (.some format) pt).1 = .successful) :
    ∃ gap diskEnd, Accepted disk format pt gap diskEnd := by
  obtain ⟨first, rest, rfl⟩ := List.exists_cons_of_ne_nil some
  generalize dos : (decide (format.type = .mbr) && format.dosCompatibility) = dosCompatibility
  generalize space : (if dosCompatibility then cylinderSize else 1) = gap
  have pos : 0 < gap := by
    rw [← space]
    cases dosCompatibility <;> decide
  by_cases blockSize : disk.blockSize < bdpartBlockSize
  · simp [write, getDiskData, blockSize] at written
  by_cases start : disk.start = 0
  · generalize last : (if dosCompatibility then disk.size - disk.size % gap
      else disk.size) = diskEnd
    have inside : diskEnd ≤ disk.size := by
      rw [← last]
      split
      · exact Nat.sub_le _ _
      · exact Nat.le_refl _
    have whole : write disk (.some format) (first :: rest) =
        if checkTable diskEnd none (first :: rest) ≠ .successful then
          (checkTable diskEnd none (first :: rest), disk)
        else if format.type ≠ .mbr then (.notImplemented, disk)
        else if dosCompatibility ∧ first.begin ≠ cylinderSize then (.invalidNumber, disk)
        else
          let space :=
            match (first :: rest).drop
              ((if (first :: rest).length ≤ 4 then (first :: rest).length else 3) - 1) with
            | [] => .successful
            | before :: logical => checkSpace gap before logical
          if space ≠ .successful then (space, disk)
          else if checkConversion (first :: rest) ≠ .successful then
            (checkConversion (first :: rest), disk)
          else writeTable format gap diskEnd (first :: rest) disk := by
      simp only [write, getDiskData, blockSize, start, dos, space, last, if_false, ne_eq,
        not_true_eq_false]
    rw [whole] at written
    by_cases table : checkTable diskEnd none (first :: rest) = .successful
    · rw [if_neg (not_not.mpr table)] at written whole
      by_cases mbr : format.type = .mbr
      · rw [if_neg (not_not.mpr mbr)] at written whole
        by_cases head : dosCompatibility = true ∧ first.begin ≠ cylinderSize
        · rw [if_pos head] at written
          cases written
        rw [if_neg head] at written whole
        generalize checked : (match (first :: rest).drop
            ((if (first :: rest).length ≤ 4 then (first :: rest).length else 3) - 1) with
          | [] => Status.successful
          | before :: logical => checkSpace gap before logical) = gaps at written whole
        by_cases room : gaps = .successful
        · rw [if_neg (not_not.mpr room)] at written whole
          by_cases conversion : checkConversion (first :: rest) = .successful
          · rw [if_neg (not_not.mpr conversion)] at whole
            refine ⟨gap, diskEnd, pos, blockSize, start, inside, table, ?_, conversion, whole⟩
            intro before logical split
            rw [split] at checked
            exact checked.trans room
          · rw [if_pos conversion] at written
            exact absurd written conversion
        · rw [if_pos room] at written
          exact absurd written room
      · rw [if_pos mbr] at written
        cases written
    · rw [if_pos table] at written
      exact absurd written table
  · simp [write, getDiskData, start] at written

end Checks

section RoundTrip

variable {disk : Disk} {format : Format} {pt : List Partition} {gap diskEnd room : Nat}

/-- The types that stand for a partition with data, as the reader sees it. -/
def Ordinary (p : Partition) : Prop :=
  mbrPartitionType p.type ≠ mbrEmpty ∧ mbrPartitionType p.type ≠ mbrExtended ∧
    mbrPartitionType p.type ≠ mbrGpt
deriving Decidable

theorem Accepted.plain (accepted : Accepted disk format pt gap diskEnd)
    (ordinary : ∀ p ∈ pt, Ordinary p) : ∀ p ∈ pt, Plain p := by
  intro p mem
  obtain ⟨sized, inside⟩ := checkTable_bounds accepted.table p mem
  obtain ⟨type, flags⟩ := checkConversion_mem accepted.conversion p mem
  obtain ⟨empty, extended, -⟩ := ordinary p mem
  have fits := disk.fits
  have size := accepted.inside
  exact ⟨type, flags, empty, extended, sized, by omega⟩

/-- The master boot record with its identifier, before the entries. -/
def headed (disk : Disk) (format : Format) : Content :=
  uint32ToLittleEndian format.diskId.toNat (cleared ⟨0, disk.blocks 0⟩).buffer offsetDiskId

theorem headed_outside (behind : offsetTable0 ≤ tested)
    (inside : tested < offsetSignature0) : headed disk format tested = 0 := by
  have apart : offsetDiskId + 4 ≤ offsetTable0 := by decide
  rw [headed, uint32ToLittleEndian,
    put_outside (Or.inr (by rw [LittleEndian.length_number]; omega))]
  exact cleared_zero _ inside

theorem headed_signed : Signed (headed disk format) := by
  obtain ⟨first, second⟩ := cleared_signed ⟨0, disk.blocks 0⟩
  constructor
  · exact first
  · exact second

/-- The identifier and the signature of a record whose entries are written. -/
theorem headed_entries (disk : Disk) (format : Format) (data : Content) {count : Nat} (few : count ≤ 4)
    (outside : ∀ tested, tested < offsetTable0 ∨ offsetTable0 + count * tableEntrySize ≤ tested →
      data tested = headed disk format tested) :
    Signed data ∧ uint32FromLittleEndian data offsetDiskId = format.diskId.toNat := by
  have limit : offsetTable0 + count * tableEntrySize ≤ offsetSignature0 := by
    simp only [offsetTable0, tableEntrySize, offsetSignature0]
    omega
  have next : offsetSignature0 ≤ offsetSignature1 := by decide
  have identifier : offsetDiskId + 4 ≤ offsetTable0 := by decide
  have signed : Signed (headed disk format) := headed_signed
  refine ⟨⟨?_, ?_⟩, ?_⟩
  · rw [outside _ (Or.inr limit)]
    exact signed.1
  · rw [outside _ (Or.inr (limit.trans next))]
    exact signed.2
  · have same : uint32FromLittleEndian data offsetDiskId =
        uint32FromLittleEndian (headed disk format) offsetDiskId :=
      uint32_congr fun tested _ below => outside tested (Or.inl (by omega))
    rw [same]
    exact uint32_written format.diskId.toNat_lt

theorem newRecord_first (some : 0 < disk.size) :
    newRecord disk 0 = .ok (cleared ⟨0, disk.blocks 0⟩) := by
  rw [newRecord, bdbufRead, if_pos some]
  rfl

section

variable (accepted : Accepted disk format pt gap diskEnd) (ordinary : ∀ p ∈ pt, Ordinary p)
include accepted ordinary

/-- Up to four partitions are in the master boot record. -/
theorem read_primaries (some : pt ≠ []) (few : pt.length ≤ 4) (enough : pt.length ≤ room) :
    read (writeTable format gap diskEnd pt disk).2 room =
      .some (.ok ({ type := .mbr, diskId := format.diskId, dosCompatibility := true }, pt)) := by
  have plain := accepted.plain ordinary
  obtain ⟨p, rest, rfl⟩ := List.exists_cons_of_ne_nil some
  have mem : p ∈ p :: rest := mem_cons_self
  obtain ⟨sized, inside⟩ := checkTable_bounds accepted.table p mem
  have size := accepted.inside
  have pos : 0 < disk.size := by omega
  rw [length_cons] at few enough
  obtain ⟨table, outside⟩ := writePrimaries_table (headed disk format) offsetTable0 plain
  rw [length_cons] at outside
  obtain ⟨signed, name⟩ := headed_entries disk format _ (by omega) outside
  generalize filled : writePrimaries offsetTable0 (p :: rest) (headed disk format) = data at *
  have result : (writeTable format gap diskEnd (p :: rest) disk).2 = bdbufSync disk ⟨0, data⟩ := by
    rw [writeTable]
    rw [length_cons, if_pos few, newRecord_first pos, ← length_cons,
      List.take_length, List.drop_length]
    rw [← filled]
    rfl
  have content : (bdbufSync disk ⟨0, data⟩).blocks 0 = data := by simp [bdbufSync]
  have others : readPrimaries data room (3 - rest.length)
      (offsetTable0 + tableEntrySize + rest.length * tableEntrySize) ((p :: rest).reverse) 0 =
        .ok ((p :: rest).reverse, 0) := by
    apply readPrimaries_empty
    intro index below
    rw [outside _ (Or.inr (by simp only [tableEntrySize, offsetType]; omega))]
    exact headed_outside (by omega)
      (by simp only [tableEntrySize, offsetType, offsetTable0, offsetSignature0]; omega)
  have master : readMbr (bdbufSync disk ⟨0, data⟩) room = _ :=
    readMbr_table (bdbufSync disk ⟨0, data⟩) accepted.blockSize accepted.start pos content signed name table plain
      (ordinary p mem).2.2 (by omega) others (by omega)
  rw [result, read, master]
  dsimp only
  rw [readLogical_done]
  simp [Except.map]

/-- More partitions are behind the third one in a chain of records. -/
theorem read_logical (many : ¬pt.length ≤ 4) (enough : pt.length ≤ room) :
    read (writeTable format gap diskEnd pt disk).2 room =
      .some (.ok ({ type := .mbr, diskId := format.diskId, dosCompatibility := true }, pt)) := by
  have plain := accepted.plain ordinary
  have pos := accepted.positive
  have fits := disk.fits
  have size := accepted.inside
  obtain ⟨a, b, third, p, logical, rfl⟩ : ∃ a b third p logical,
      pt = a :: b :: third :: p :: logical := by
    match pt, many with
    | [], many => exact absurd (by simp) many
    | [_], many => exact absurd (by simp) many
    | [_, _], many => exact absurd (by simp) many
    | [_, _, _], many => exact absurd (by simp) many
    | a :: b :: third :: p :: logical, _ => exact ⟨a, b, third, p, logical, rfl⟩
  obtain ⟨-, -, -, afterFirst⟩ := checkTable_cons accepted.table
  obtain ⟨-, -, -, afterSecond⟩ := checkTable_cons afterFirst
  obtain ⟨thirdSized, thirdInside, -, afterThird⟩ := checkTable_cons afterSecond
  have space := accepted.space third (p :: logical) (by rw [if_neg many]; rfl)
  have spaced := spaced_of_checks (by omega) afterThird space
  obtain ⟨least, sized, inside, -⟩ := id spaced
  have plainPrimary : ∀ q ∈ [a, b, third], Plain q := fun q mem => plain q (by
    simp only [List.mem_cons] at mem ⊢
    tauto)
  have plainLogical : ∀ q ∈ p :: logical, Plain q := fun q mem => plain q (by
    tauto)
  have begins : minus p.begin gap = p.begin - gap := minus_of_le (by omega) (by omega)
  obtain ⟨table, outside⟩ := writePrimaries_table (headed disk format) offsetTable0 plainPrimary
  generalize filled : writePrimaries offsetTable0 [a, b, third] (headed disk format) = data at *
  have extended : Entry (writeMbrPartition data (offsetTable0 + 3 * tableEntrySize)
      (p.begin - gap) (diskEnd - (p.begin - gap)) mbrExtended 0)
      (offsetTable0 + 3 * tableEntrySize) (p.begin - gap)
      (diskEnd - (p.begin - gap)) mbrExtended 0 :=
    entry_written (by omega) (by omega)
  have whole : Table (writeMbrPartition data (offsetTable0 + 3 * tableEntrySize)
      (p.begin - gap) (diskEnd - (p.begin - gap)) mbrExtended 0) offsetTable0
      [a, b, third] := table.congr fun tested _ below =>
    writeMbrPartition_outside (Or.inl below)
  obtain ⟨signed, name⟩ := headed_entries disk format
    (writeMbrPartition data (offsetTable0 + 3 * tableEntrySize)
      (p.begin - gap) (diskEnd - (p.begin - gap)) mbrExtended 0)
    (Nat.le_refl 4) (fun tested apart => by
      simp only [offsetTable0, tableEntrySize] at apart outside
      rw [writeMbrPartition_outside (by simp only [offsetTable0, tableEntrySize]; omega),
        outside tested (by simp; omega)])
  generalize made : writeMbrPartition data (offsetTable0 + 3 * tableEntrySize)
      (p.begin - gap) (diskEnd - (p.begin - gap)) mbrExtended 0 = full at *
  obtain ⟨after, last, result, same, -, first, chain⟩ :=
    writeLogical_spec disk ⟨0, full⟩ true (p.begin - gap) pos size spaced (by dsimp only; omega) (by
        rintro q head
        obtain rfl : p = q := by simpa using head
        exact Nat.le_refl _) plainLogical
  have final : (writeTable format gap diskEnd (a :: b :: third :: p :: logical) disk).2 =
      bdbufSync after last := by
    have written : writeMbrPartition
        (writePrimaries offsetTable0 [a, b, third] (headed disk format))
        (offsetTable0 + 3 * tableEntrySize) (minus p.begin gap)
        (minus diskEnd (minus p.begin gap)) mbrExtended 0 = full := by
      rw [filled, begins, minus_of_le (by omega) (by omega), made]
    rw [← begins] at result
    rw [writeTable]
    rw [if_neg many, newRecord_first (by omega)]
    have shape : ∀ answer : Status × Disk × Record,
        writeLogical gap (minus p.begin gap) diskEnd true (p :: logical) disk
          ⟨0, writeMbrPartition (writePrimaries offsetTable0 [a, b, third] (headed disk format))
            (offsetTable0 + 3 * tableEntrySize) (minus p.begin gap)
            (minus diskEnd (minus p.begin gap)) mbrExtended 0⟩ = answer →
        (let (sc, disk, block) :=
          writeLogical gap (minus p.begin gap) diskEnd true (p :: logical) disk
            ⟨0, writeMbrPartition (writePrimaries offsetTable0 [a, b, third] (headed disk format))
              (offsetTable0 + 3 * tableEntrySize) (minus p.begin gap)
              (minus diskEnd (minus p.begin gap)) mbrExtended 0⟩
        ((sc, bdbufSync disk block) : Status × Disk)).2 = bdbufSync answer.2.1 answer.2.2 := by
      rintro answer rfl
      rfl
    refine shape (.successful, after, last) ?_
    rw [written, result]
  rw [final]
  generalize bdbufSync after last = written at same first chain
  have sameSize := same.size
  have others : readPrimaries full room 1 (offsetTable0 + 3 * tableEntrySize) [third, b, a] 0 =
      .ok ([third, b, a], p.begin - gap) := by
    have entry : readMbrPartition full (offsetTable0 + 3 * tableEntrySize) room [third, b, a] 0 =
        .ok ([third, b, a], p.begin - gap) := by
      simp only [readMbrPartition, extended.begins, extended.sized, extended.typed]
      rw [if_neg (by decide), if_neg (by simp at enough ⊢; omega), if_neg (by omega),
        if_pos trivial]
    rw [readPrimaries, entry]
    rfl
  have positiveSize : 0 < written.size := by omega
  have few : [b, third].length < room := by
    simp at enough ⊢
    omega
  have master : readMbr written room = _ :=
    readMbr_table written (same.blockSize ▸ accepted.blockSize) (same.start.trans accepted.start)
      positiveSize first signed name whole plainPrimary (ordinary a mem_cons_self).2.2 few
      others (by simp)
  have spacedSize : Spaced gap written.size third.ending (p :: logical) := spaced.mono (by omega)
  have chained := readLogical_chain room ((room + 2) * 2 ^ 32) [third, b, a] pos chain
    spacedSize (by omega) (Nat.le_refl _) (by omega) plainLogical (by simp at enough; omega)
    (by simp at enough ⊢; omega)
  rw [read, master]
  dsimp only
  rw [chained]
  simp [Except.map]

end

/-- A partition table that is written and not empty is read back, with the disk identifier. -/
theorem partition_table_round_trip {disk : Disk} {format : Format} {pt : List Partition} {room : Nat}
    (some : pt ≠ []) (written : (write disk (.some format) pt).1 = .successful)
    (ordinary : ∀ p ∈ pt, Ordinary p) (enough : pt.length ≤ room) :
    read (write disk (.some format) pt).2 room =
      .some (.ok ({ type := .mbr, diskId := format.diskId, dosCompatibility := true }, pt)) := by
  obtain ⟨recordSpace, diskEnd, accepted⟩ := accepted_of_write some written
  rw [accepted.result]
  by_cases few : pt.length ≤ 4
  · exact read_primaries accepted ordinary some few enough
  · exact read_logical accepted ordinary few enough

theorem disk100_fits : 100 < 2 ^ 32 := by decide

/-- A disk of ones. -/
def disk100 : Disk where
  start := 0
  size := 100
  blockSize := 512
  blocks _ _ := 0xff
  fits := disk100_fits

/-- Five partitions with data. -/
def five : List Partition :=
  [⟨1, 10, toPartitionType 0xda, 0x80⟩, ⟨10, 20, toPartitionType 0xda, 0⟩,
    ⟨20, 30, toPartitionType 0xb, 0⟩, ⟨31, 40, toPartitionType 0xb, 0⟩,
    ⟨41, 50, toPartitionType 0xc, 1⟩]

theorem partition_table_round_trip_five :
    (write disk100 (.some ⟨.mbr, 77, false⟩) five).1 = .successful ∧
      read (write disk100 (.some ⟨.mbr, 77, false⟩) five).2 5 = .some (.ok (⟨.mbr, 77, true⟩, five)) := by
  have written : (write disk100 (.some ⟨.mbr, 77, false⟩) five).1 = .successful := by decide +kernel
  exact ⟨written, partition_table_round_trip (by decide) written (by decide +kernel) (by decide)⟩

/-- An empty table is accepted, and nothing is written. -/
theorem empty_table_not_written :
    (write disk100 (.some ⟨.mbr, 77, false⟩) []).1 = .successful ∧
      read (write disk100 (.some ⟨.mbr, 77, false⟩) []).2 0 = .some (.error .ioError) := by
  constructor
  · rfl
  · rfl

end RoundTrip

end Rtems.Block.Bdpart
