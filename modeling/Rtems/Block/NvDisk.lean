import Rtems.Block.FlashDisk
import Rtems.Library.ByteRange

/-!
# The NV disk

A disk over memories that keep their contents. The first pages of a device hold the checksums of
the other pages, two bytes each, in the order of the processor's bytes. A checksum of all ones says
that the page was never written.

The driver stores bytes. The numbers are words of 32 bits.
-/

namespace Rtems.Block.NvDisk

open ByteRange
open Function (update_of_ne update_self)
open List (mem_cons mem_cons_of_mem mem_cons_self replicate)

abbrev Byte := BitVec 8

/-- The contents of the devices. -/
abbrev Medium := Nat → Nat → Byte

/-- `rtems_nvdisk_config` with the sizes of the devices. -/
structure Config where
  blockSize : Nat
  devices : List Nat
  bigEndian : Bool

/-- `rtems_nvdisk_device_ctl` -/
structure DeviceCtl where
  device : Nat
  pages : Nat
  pagesDesc : Nat
  blockBase : Nat
deriving DecidableEq

/-- `rtems_nvdisk` -/
structure Nvdisk where
  blockSize : Nat
  blockCount : Nat
  devices : List DeviceCtl
  bigEndian : Bool

/-- Subtraction of 32-bit words. -/
def minus (word other : Nat) : Nat := (word + (2 ^ 32 - other)) % 2 ^ 32

def eio : Nat := 5

/-- `rtems_nvdisk_pages_in_device` -/
def pagesInDevice (blockSize size : Nat) : Nat := size / blockSize

/-- `rtems_nvdisk_page_desc_pages` -/
def pageDescPages (blockSize size : Nat) : Nat :=
  (minus (pagesInDevice blockSize size * 2 % 2 ^ 32) 1 / blockSize + 1) % 2 ^ 32

/-- The loop of `rtems_nvdisk_initialize` over the devices: their controls and the blocks. -/
def initializeDevices (blockSize : Nat) : Nat → Nat → List Nat → List DeviceCtl × Nat
  | _, blocks, [] => ([], blocks)
  | device, blocks, size :: rest =>
    let pages := pagesInDevice blockSize size
    let pagesDesc := pageDescPages blockSize size
    let (others, count) :=
      initializeDevices blockSize (device + 1) ((blocks + minus pages pagesDesc) % 2 ^ 32) rest
    ({ device := device, pages := pages, pagesDesc := pagesDesc, blockBase := blocks } :: others,
      count)

/-- `rtems_nvdisk_initialize` of one disk. -/
def nvdiskInitialize (c : Config) : Nvdisk :=
  let (devices, blocks) := initializeDevices c.blockSize 0 0 c.devices
  { blockSize := c.blockSize, blockCount := blocks, devices := devices, bigEndian := c.bigEndian }

/-- `rtems_nvdisk_page_checksum`: the factors are those of the flash disk. -/
def pageChecksum (buffer : List Byte) : BitVec 16 := buffer.foldl FlashDisk.calcCrc16 0xffff

/-- The driver stores bytes. -/
def deviceWrite (medium : Medium) (device offset : Nat) (buffer : List Byte) : Medium :=
  Function.update medium device (put (medium device) offset buffer)

def deviceRead (medium : Medium) (device offset size : Nat) : List Byte :=
  get (medium device) offset size

/-- The bytes of a `uint16_t` in memory. -/
def bytesOf (bigEndian : Bool) (word : BitVec 16) : List Byte :=
  if bigEndian then [(word >>> 8).setWidth 8, word.setWidth 8]
  else [word.setWidth 8, (word >>> 8).setWidth 8]

/-- The `uint16_t` that bytes in memory make. -/
def wordOf (bigEndian : Bool) (bytes : List Byte) : BitVec 16 :=
  let first := (bytes.getD 0 0).setWidth 16
  let second := (bytes.getD 1 0).setWidth 16
  if bigEndian then first <<< 8 ||| second else second <<< 8 ||| first

section

variable (nvd : Nvdisk) (medium : Medium)

/-- `rtems_nvdisk_read_page` -/
def readPage (device page : Nat) : List Byte :=
  deviceRead medium device (page * nvd.blockSize % 2 ^ 32) nvd.blockSize

/-- `rtems_nvdisk_write_page` -/
def writePage (device page : Nat) (buffer : List Byte) : Medium :=
  deviceWrite medium device (page * nvd.blockSize % 2 ^ 32) buffer

/-- `rtems_nvdisk_read_checksum` -/
def readChecksum (device page : Nat) : BitVec 16 :=
  wordOf nvd.bigEndian (deviceRead medium device (page * 2 % 2 ^ 32) 2)

/-- `rtems_nvdisk_write_checksum` -/
def writeChecksum (device page : Nat) (cs : BitVec 16) : Medium :=
  deviceWrite medium device (page * 2 % 2 ^ 32) (bytesOf nvd.bigEndian cs)

/-- `rtems_nvdisk_get_device` -/
def getDevice (nvd : Nvdisk) (block : Nat) : Option DeviceCtl :=
  if block ≥ nvd.blockCount then none
  else nvd.devices.find? fun dc =>
    decide (block ≥ dc.blockBase ∧ block < minus (dc.blockBase + dc.pages) dc.pagesDesc)

/-- `rtems_nvdisk_get_page` -/
def getPage (dc : DeviceCtl) (block : Nat) : Nat := minus block dc.blockBase

/-- `rtems_nvdisk_read_block` -/
def readBlock (block : Nat) : Except Nat (List Byte) :=
  match getDevice nvd block with
  | none => .error eio
  | some dc =>
    let page := getPage dc block
    let crc := readChecksum nvd medium dc.device page
    if crc = 0xffff then .ok (replicate nvd.blockSize 0)
    else
      let buffer := readPage nvd medium dc.device ((page + dc.pagesDesc) % 2 ^ 32)
      if pageChecksum buffer ≠ crc then .error eio else .ok buffer

/-- `rtems_nvdisk_write_block` -/
def writeBlock (block : Nat) (buffer : List Byte) : Nat × Medium :=
  match getDevice nvd block with
  | none => (eio, medium)
  | some dc =>
    let page := getPage dc block
    let cs := pageChecksum buffer
    let medium := writePage nvd medium dc.device ((page + dc.pagesDesc) % 2 ^ 32) buffer
    (0, writeChecksum nvd medium dc.device page cs)

/-- `rtems_nvdisk_erase_disk` -/
def eraseDisk : Medium :=
  nvd.devices.foldl (fun medium dc =>
    (List.range (minus dc.pages dc.pagesDesc)).foldl (fun medium page =>
      writeChecksum nvd medium dc.device page 0xffff) medium) medium

/-- What a block reads, as far as it is known: a disk may hold anything before its first erasure. -/
inductive Content where
  | unknown
  | erased
  | written (data : List Byte)

/-- The requests for blocks and for the disk. -/
inductive Request where
  | read (block : Nat)
  | write (block : Nat) (buffer : List Byte)
  | erase

/-- A request is served. -/
def serve : Request → Medium
  | .read _ => medium
  | .write block buffer => (writeBlock nvd medium block buffer).2
  | .erase => eraseDisk nvd medium

end

/-- What the blocks hold after a request. -/
def Content.record (contents : Nat → Content) : Request → Nat → Content
  | .read _ => contents
  | .write block buffer => Function.update contents block (.written buffer)
  | .erase => fun _ => .erased

/-- A result of a read is that of the content. -/
def Content.Gives (blockSize : Nat) (result : Except Nat (List Byte)) : Content → Prop
  | .unknown => True
  | .erased => result = .ok (replicate blockSize 0)
  | .written data => result = .ok data

section Words

variable {word other : Nat}

theorem minus_of_le (below : other ≤ word) (small : word - other < 2 ^ 32) (fits : other ≤ 2 ^ 32) :
    minus word other = word - other := by
  rw [minus]
  omega

theorem halves (word : BitVec 16) :
    ((word >>> 8).setWidth 8).setWidth 16 <<< 8 ||| (word.setWidth 8).setWidth 16 = word := by
  ext place small
  by_cases low : place < 8
  · simp [low, BitVec.getLsbD_eq_getElem small]
  · have shifted : 8 + (place - 8) = place := by omega
    simp [low, shifted, BitVec.getLsbD_eq_getElem small]
    omega

theorem wordOf_bytesOf (bigEndian : Bool) (word : BitVec 16) :
    wordOf bigEndian (bytesOf bigEndian word) = word := by
  cases bigEndian with
  | false | true => exact halves word

theorem length_bytesOf (bigEndian : Bool) (word : BitVec 16) : (bytesOf bigEndian word).length = 2 := by
  cases bigEndian <;> rfl

end Words

/-- The pages of a device: those for the checksums, some for data, and all addresses are words. -/
structure Laid (blockSize : Nat) (dc : DeviceCtl) : Prop where
  data : dc.pagesDesc < dc.pages
  checksums : dc.pages * 2 ≤ dc.pagesDesc * blockSize
  bytes : dc.pages * blockSize < 2 ^ 32
  last : dc.blockBase + (dc.pages - dc.pagesDesc) < 2 ^ 32

/-- A block is in a device. -/
def Inside (dc : DeviceCtl) (block : Nat) : Prop :=
  dc.blockBase ≤ block ∧ block < dc.blockBase + (dc.pages - dc.pagesDesc)

/-- The devices hold all the blocks. -/
structure Sound (nvd : Nvdisk) : Prop where
  laid : ∀ dc ∈ nvd.devices, Laid nvd.blockSize dc
  once : ∀ dc ∈ nvd.devices, ∀ other ∈ nvd.devices, dc.device = other.device → dc = other
  covers : ∀ block < nvd.blockCount, ∃ dc ∈ nvd.devices, Inside dc block

variable {dev : Nat}

variable {page : Nat}

section Layout

variable {nvd : Nvdisk} {dc : DeviceCtl} {block : Nat}

theorem Laid.pages_lt (laid : Laid nvd.blockSize dc) (pos : 0 < nvd.blockSize) :
    dc.pages < 2 ^ 32 :=
  (Nat.le_mul_of_pos_right dc.pages pos).trans_lt laid.bytes

theorem Laid.end_eq (laid : Laid nvd.blockSize dc) (pos : 0 < nvd.blockSize) :
    minus (dc.blockBase + dc.pages) dc.pagesDesc = dc.blockBase + (dc.pages - dc.pagesDesc) := by
  have pages := laid.pages_lt pos
  have data := laid.data
  have last := laid.last
  rw [minus_of_le (by omega) (by omega) (by omega)]
  omega

/-- Every block of the disk has its device. -/
theorem Sound.getDevice (sound : Sound nvd) (pos : 0 < nvd.blockSize)
    (below : block < nvd.blockCount) :
    ∃ dc ∈ nvd.devices, getDevice nvd block = some dc ∧ Inside dc block := by
  have same : ∀ dc ∈ nvd.devices, (block ≥ dc.blockBase ∧
      block < minus (dc.blockBase + dc.pages) dc.pagesDesc) ↔ Inside dc block := by
    intro dc mem
    rw [(sound.laid dc mem).end_eq pos]
    exact Iff.rfl
  obtain ⟨dc, mem, inside⟩ := sound.covers block below
  rw [NvDisk.getDevice, if_neg (by omega)]
  cases found : nvd.devices.find? fun dc => decide (block ≥ dc.blockBase ∧
      block < minus (dc.blockBase + dc.pages) dc.pagesDesc) with
  | none =>
    have missed := List.find?_eq_none.mp found dc mem
    exact absurd ((same dc mem).mpr inside) (by simpa using missed)
  | some other =>
    have there := List.mem_of_find?_eq_some found
    have matched := List.find?_some found
    exact ⟨other, there, rfl, (same other there).mp (of_decide_eq_true matched)⟩

theorem getPage_eq (laid : Laid nvd.blockSize dc) (inside : Inside dc block) :
    getPage dc block = block - dc.blockBase := by
  have last := laid.last
  obtain ⟨least, below⟩ := inside
  exact minus_of_le least (by omega) (by omega)

/-- The checksums come before the data. -/
theorem Laid.places (laid : Laid nvd.blockSize dc) (inside : page < dc.pages - dc.pagesDesc) :
    page * 2 % 2 ^ 32 = page * 2 ∧ (page + dc.pagesDesc) % 2 ^ 32 * nvd.blockSize % 2 ^ 32 =
      (page + dc.pagesDesc) * nvd.blockSize ∧ page * 2 + 2 ≤ dc.pagesDesc * nvd.blockSize := by
  have data := laid.data
  have bytes := laid.bytes
  have checksums := laid.checksums
  have all : dc.pagesDesc * nvd.blockSize ≤ dc.pages * nvd.blockSize :=
    Nat.mul_le_mul_right _ data.le
  have pos : 0 < nvd.blockSize := by
    rcases Nat.eq_zero_or_pos nvd.blockSize with zero | pos
    · rw [zero, Nat.mul_zero] at checksums
      omega
    · exact pos
  have page_lt : (page + dc.pagesDesc) * nvd.blockSize < dc.pages * nvd.blockSize :=
    Nat.mul_lt_mul_of_pos_right (by omega) pos
  refine ⟨Nat.mod_eq_of_lt (by omega), ?_, by omega⟩
  rw [Nat.mod_eq_of_lt (by omega : page + dc.pagesDesc < 2 ^ 32), Nat.mod_eq_of_lt (by omega)]

/-- The data and the checksum of a page are written. -/
def store (nvd : Nvdisk) (medium : Medium) (dc : DeviceCtl) (page : Nat) (buffer : List Byte)
    (cs : BitVec 16) : Medium :=
  writeChecksum nvd (writePage nvd medium dc.device ((page + dc.pagesDesc) % 2 ^ 32) buffer)
    dc.device page cs

variable {medium : Medium} {page : Nat} {buffer : List Byte} {cs : BitVec 16}

theorem store_device : store nvd medium dc page buffer cs dc.device =
    put (put (medium dc.device) ((page + dc.pagesDesc) % 2 ^ 32 * nvd.blockSize % 2 ^ 32) buffer)
      (page * 2 % 2 ^ 32) (bytesOf nvd.bigEndian cs) := by
  simp [store, writeChecksum, writePage, deviceWrite]

theorem store_elsewhere (differs : dev ≠ dc.device) :
    store nvd medium dc page buffer cs dev = medium dev := by
  simp [store, writeChecksum, writePage, deviceWrite, update_of_ne differs]

theorem checksum_store :
    readChecksum nvd (store nvd medium dc page buffer cs) dc.device page = cs := by
  rw [readChecksum, deviceRead, store_device, get_put_self (length_bytesOf _ _), wordOf_bytesOf]

theorem page_store (laid : Laid nvd.blockSize dc) (inside : page < dc.pages - dc.pagesDesc)
    (length : buffer.length = nvd.blockSize) :
    readPage nvd (store nvd medium dc page buffer cs) dc.device ((page + dc.pagesDesc) % 2 ^ 32) =
      buffer := by
  obtain ⟨sum, data, before⟩ := laid.places inside
  have start : dc.pagesDesc * nvd.blockSize ≤ (page + dc.pagesDesc) * nvd.blockSize :=
    Nat.mul_le_mul_right _ (Nat.le_add_left _ _)
  rw [readPage, deviceRead, store_device, sum, data,
    get_put_apart (by rw [length_bytesOf]; omega), get_put_self length]

/-- The other pages of the device, and their checksums, stay as they are. -/
theorem store_other (laid : Laid nvd.blockSize dc) (inside : page < dc.pages - dc.pagesDesc)
    {place : Nat} (other : place < dc.pages - dc.pagesDesc) (differs : place ≠ page)
    (length : buffer.length = nvd.blockSize) :
    readChecksum nvd (store nvd medium dc page buffer cs) dc.device place =
        readChecksum nvd medium dc.device place ∧
      readPage nvd (store nvd medium dc page buffer cs) dc.device
          ((place + dc.pagesDesc) % 2 ^ 32) =
        readPage nvd medium dc.device ((place + dc.pagesDesc) % 2 ^ 32) := by
  obtain ⟨sum, data, before⟩ := laid.places inside
  obtain ⟨otherSum, otherData, otherBefore⟩ := laid.places other
  have start : dc.pagesDesc * nvd.blockSize ≤ (page + dc.pagesDesc) * nvd.blockSize :=
    Nat.mul_le_mul_right _ (Nat.le_add_left _ _)
  have otherStart : dc.pagesDesc * nvd.blockSize ≤ (place + dc.pagesDesc) * nvd.blockSize :=
    Nat.mul_le_mul_right _ (Nat.le_add_left _ _)
  have apart : (place + dc.pagesDesc) * nvd.blockSize + nvd.blockSize ≤
        (page + dc.pagesDesc) * nvd.blockSize ∨
      (page + dc.pagesDesc) * nvd.blockSize + nvd.blockSize ≤
        (place + dc.pagesDesc) * nvd.blockSize := by
    rw [← Nat.succ_mul, ← Nat.succ_mul]
    rcases Nat.lt_or_gt_of_ne differs with less | more
    · exact Or.inl (Nat.mul_le_mul_right _ (by omega))
    · exact Or.inr (Nat.mul_le_mul_right _ (by omega))
  constructor
  · rw [readChecksum, readChecksum, deviceRead, deviceRead, store_device, sum, data, otherSum,
      get_put_apart (by rw [length_bytesOf]; omega), get_put_apart (by omega)]
  · rw [readPage, readPage, deviceRead, deviceRead, store_device, sum, data, otherData,
      get_put_apart (by rw [length_bytesOf]; omega), get_put_apart (by omega)]

/-- What is kept of a block: its checksum and its data. -/
def kept (nvd : Nvdisk) (medium : Medium) (block : Nat) : Option (BitVec 16 × List Byte) :=
  (getDevice nvd block).map fun dc =>
    (readChecksum nvd medium dc.device (getPage dc block),
      readPage nvd medium dc.device ((getPage dc block + dc.pagesDesc) % 2 ^ 32))

theorem readBlock_eq (nvd : Nvdisk) (medium : Medium) (block : Nat) : readBlock nvd medium block =
      match kept nvd medium block with
      | none => .error eio
      | some (crc, buffer) =>
        if crc = 0xffff then .ok (replicate nvd.blockSize 0)
        else if pageChecksum buffer ≠ crc then .error eio else .ok buffer := by
  rw [readBlock, kept]
  cases getDevice nvd block with
  | none => rfl
  | some dc => rfl

variable (sound : Sound nvd) (pos : 0 < nvd.blockSize)
include sound pos

/-- A block is written, and nothing else. -/
theorem writeBlock_spec (medium : Medium) (below : block < nvd.blockCount) (length : buffer.length = nvd.blockSize) :
    (writeBlock nvd medium block buffer).1 = 0 ∧
      kept nvd (writeBlock nvd medium block buffer).2 block = some (pageChecksum buffer, buffer) ∧
      ∀ other < nvd.blockCount, other ≠ block →
        kept nvd (writeBlock nvd medium block buffer).2 other = kept nvd medium other := by
  obtain ⟨dc, mem, dev, inside⟩ := sound.getDevice pos below
  have laid := sound.laid dc mem
  have page := getPage_eq laid inside
  have within : getPage dc block < dc.pages - dc.pagesDesc := by
    obtain ⟨least, bound⟩ := inside
    omega
  have result : writeBlock nvd medium block buffer =
      (0, store nvd medium dc (getPage dc block) buffer (pageChecksum buffer)) := by
    rw [writeBlock, dev]
    rfl
  rw [result]
  refine ⟨rfl, ?_, ?_⟩
  · rw [kept, dev, Option.map_some, checksum_store, page_store laid within length]
  · intro other otherBelow differs
    obtain ⟨otherDc, otherMember, otherDevice, otherInside⟩ := sound.getDevice pos otherBelow
    rw [kept, kept, otherDevice, Option.map_some, Option.map_some]
    by_cases same : otherDc.device = dc.device
    · obtain rfl := sound.once otherDc otherMember dc mem same
      have otherPage := getPage_eq laid otherInside
      have otherWithin : getPage otherDc other < otherDc.pages - otherDc.pagesDesc := by
        obtain ⟨least, bound⟩ := otherInside
        omega
      have apart : getPage otherDc other ≠ getPage otherDc block := by
        obtain ⟨least, -⟩ := inside
        obtain ⟨otherLeast, -⟩ := otherInside
        omega
      obtain ⟨sums, pages⟩ :
          readChecksum nvd (store nvd medium otherDc (getPage otherDc block) buffer
              (pageChecksum buffer)) otherDc.device (getPage otherDc other) = _ ∧
            readPage nvd (store nvd medium otherDc (getPage otherDc block) buffer
              (pageChecksum buffer)) otherDc.device _ = _ :=
        store_other laid within otherWithin apart length
      rw [sums, pages]
    · simp only [readChecksum, readPage, deviceRead, store_elsewhere same]

end Layout

section Erase

variable {nvd : Nvdisk} {medium : Medium}

theorem bytesOf_ones (bigEndian : Bool) : bytesOf bigEndian 0xffff = [0xff, 0xff] := by
  cases bigEndian <;> decide

/-- A byte of ones stays when checksums of ones are written. -/
theorem writeChecksum_ones {place : Nat} (ones : medium dev place = 0xff)
    (target page : Nat) : writeChecksum nvd medium target page 0xffff dev place = 0xff := by
  rw [writeChecksum, deviceWrite, bytesOf_ones]
  by_cases here : dev = target
  · subst here
    rw [update_self, put]
    split
    · rename_i bounds
      have inside : place - page * 2 % 2 ^ 32 < 2 := by
        have upper := bounds.2
        simp at upper
        omega
      rcases (by omega : place - page * 2 % 2 ^ 32 = 0 ∨ place - page * 2 % 2 ^ 32 = 1) with
        first | second
      · rw [first]
        rfl
      · rw [second]
        rfl
    · exact ones
  · rw [update_of_ne here]
    exact ones

/-- Both bytes of a checksum are ones. -/
def Cleared (medium : Medium) (device page : Nat) : Prop :=
  medium device (page * 2 % 2 ^ 32) = 0xff ∧ medium device (page * 2 % 2 ^ 32 + 1) = 0xff

theorem Cleared.stays (cleared : Cleared medium dev page) (target other : Nat) :
    Cleared (writeChecksum nvd medium target other 0xffff) dev page :=
  ⟨writeChecksum_ones cleared.1 target other, writeChecksum_ones cleared.2 target other⟩

theorem writeChecksum_cleared (dev page : Nat) :
    Cleared (writeChecksum nvd medium dev page 0xffff) dev page := by
  rw [writeChecksum, deviceWrite, bytesOf_ones]
  constructor
  iterate 2
    · rw [update_self, put, if_pos (by simp)]
      simp

theorem Cleared.checksum (cleared : Cleared medium dev page) :
    readChecksum nvd medium dev page = 0xffff := by
  have bytes : deviceRead medium dev (page * 2 % 2 ^ 32) 2 = bytesOf nvd.bigEndian 0xffff := by
    have two : deviceRead medium dev (page * 2 % 2 ^ 32) 2 =
        [medium dev (page * 2 % 2 ^ 32), medium dev (page * 2 % 2 ^ 32 + 1)] := rfl
    rw [two, cleared.1, cleared.2, bytesOf_ones]
  rw [readChecksum, bytes, wordOf_bytesOf]

/-- The checksums of one device are cleared. -/
theorem erasePages_cleared (nvd : Nvdisk) (dev count : Nat) (medium : Medium) :
    let after := (List.range count).foldl (fun medium page =>
      writeChecksum nvd medium dev page 0xffff) medium
    (∀ page < count, Cleared after dev page) ∧
      ∀ other page, Cleared medium other page → Cleared after other page := by
  induction count with
  | zero =>
    refine ⟨?_, fun _ _ cleared => cleared⟩
    omega
  | succ count ih =>
    obtain ⟨before, stays⟩ := ih
    rw [List.range_succ, List.foldl_append]
    refine ⟨?_, fun other page cleared => (stays other page cleared).stays _ _⟩
    intro page below
    by_cases last : page = count
    · rw [last]
      exact writeChecksum_cleared dev count
    · exact (before page (by omega)).stays _ _

theorem eraseDisk_cleared (nvd : Nvdisk) (devices : List DeviceCtl) (medium : Medium) :
    let after := devices.foldl (fun medium dc =>
      (List.range (minus dc.pages dc.pagesDesc)).foldl (fun medium page =>
        writeChecksum nvd medium dc.device page 0xffff) medium) medium
    (∀ dc ∈ devices, ∀ page < minus dc.pages dc.pagesDesc, Cleared after dc.device page) ∧
      ∀ dev page, Cleared medium dev page → Cleared after dev page := by
  induction devices generalizing medium with
  | nil => exact ⟨by simp, fun _ _ cleared => cleared⟩
  | cons first rest ih =>
    obtain ⟨own, kept⟩ :=
      erasePages_cleared nvd first.device (minus first.pages first.pagesDesc) medium
    obtain ⟨others, stays⟩ := ih ((List.range (minus first.pages
      first.pagesDesc)).foldl (fun medium page =>
        writeChecksum nvd medium first.device page 0xffff) medium)
    refine ⟨?_, fun dev page cleared => stays dev page (kept dev page cleared)⟩
    intro dc mem page below
    rcases mem_cons.mp mem with rfl | there
    · exact stays dc.device page (own page below)
    · exact others dc there page below

/-- After an erasure every block reads as zeros. -/
theorem readBlock_erased (sound : Sound nvd) (pos : 0 < nvd.blockSize) {block : Nat}
    (below : block < nvd.blockCount) :
    readBlock nvd (eraseDisk nvd medium) block = .ok (replicate nvd.blockSize 0) := by
  obtain ⟨dc, mem, dev, inside⟩ := sound.getDevice pos below
  have laid := sound.laid dc mem
  have data := laid.data
  have pages := laid.pages_lt pos
  have page := getPage_eq laid inside
  have within : getPage dc block < minus dc.pages dc.pagesDesc := by
    obtain ⟨least, bound⟩ := inside
    rw [minus_of_le data.le (by omega) (by omega)]
    omega
  have cleared := (eraseDisk_cleared nvd nvd.devices medium).1 dc mem _ within
  have checksum : readChecksum nvd (eraseDisk nvd medium) dc.device (getPage dc block) = 0xffff :=
    Cleared.checksum cleared
  rw [readBlock, dev]
  dsimp only
  rw [if_pos checksum]

end Erase

section Initialize

/-- The disks of the configuration: every device has a data page. -/
structure Proper (c : Config) : Prop where
  blockSize : 0 < c.blockSize
  sizes : ∀ size ∈ c.devices, size < 2 ^ 32
  data : ∀ size ∈ c.devices, pageDescPages c.blockSize size < pagesInDevice c.blockSize size

/-- The numbers of the layout are words: the bytes of the checksums of a device, and the blocks. -/
structure Bounded (c : Config) : Prop where
  checksums : ∀ size ∈ c.devices, pagesInDevice c.blockSize size * 2 < 2 ^ 32
  blocks : (c.devices.map fun size =>
    pagesInDevice c.blockSize size - pageDescPages c.blockSize size).sum < 2 ^ 32

variable {blockSize : Nat}

theorem checksums_fit {size : Nat} (pos : 0 < blockSize)
    (few : pagesInDevice blockSize size * 2 < 2 ^ 32)
    (data : pageDescPages blockSize size < pagesInDevice blockSize size) :
    pagesInDevice blockSize size * 2 ≤ pageDescPages blockSize size * blockSize := by
  have exact : pageDescPages blockSize size =
      (pagesInDevice blockSize size * 2 - 1) / blockSize + 1 := by
    have less : (pagesInDevice blockSize size * 2 - 1) / blockSize ≤
        pagesInDevice blockSize size * 2 - 1 := Nat.div_le_self _ _
    rw [pageDescPages, Nat.mod_eq_of_lt few, minus_of_le (by omega) (by omega) (by omega),
      Nat.mod_eq_of_lt (by omega)]
  have enough := Nat.lt_mul_div_succ (pagesInDevice blockSize size * 2 - 1) pos
  rw [exact, Nat.mul_comm _ blockSize]
  omega

/-- What the loop over the devices has built. -/
structure Built (blockSize device blocks : Nat) (devices : List DeviceCtl) (count : Nat) : Prop where
  laid : ∀ dc ∈ devices, Laid blockSize dc
  later : ∀ dc ∈ devices, device ≤ dc.device
  once : ∀ dc ∈ devices, ∀ other ∈ devices, dc.device = other.device → dc = other
  covers : ∀ block, blocks ≤ block → block < count → ∃ dc ∈ devices, Inside dc block

theorem initializeDevices_built (pos : 0 < blockSize) (sizes : List Nat)
    (dev blocks : Nat) (small : ∀ size ∈ sizes, size < 2 ^ 32)
    (data : ∀ size ∈ sizes, pageDescPages blockSize size < pagesInDevice blockSize size)
    (few : ∀ size ∈ sizes, pagesInDevice blockSize size * 2 < 2 ^ 32) (total : blocks + (sizes.map
      fun size => pagesInDevice blockSize size - pageDescPages blockSize size).sum < 2 ^ 32) :
    Built blockSize dev blocks (initializeDevices blockSize dev blocks sizes).1
      (initializeDevices blockSize dev blocks sizes).2 := by
  induction sizes generalizing dev blocks with
  | nil =>
    constructor
    case covers =>
      intro block least below
      exact absurd below (Nat.not_lt.mpr least)
    all_goals simp [initializeDevices]
  | cons size rest ih =>
    have fewHere := few size mem_cons_self
    have dataHere := data size mem_cons_self
    rw [List.map_cons, List.sum_cons] at total
    have difference : minus (pagesInDevice blockSize size) (pageDescPages blockSize size) =
        pagesInDevice blockSize size - pageDescPages blockSize size :=
      minus_of_le dataHere.le (by omega) (by omega)
    have next : (blocks + minus (pagesInDevice blockSize size) (pageDescPages blockSize size)) %
        2 ^ 32 = blocks + (pagesInDevice blockSize size - pageDescPages blockSize size) := by
      rw [difference, Nat.mod_eq_of_lt (by omega)]
    have built := ih (dev + 1)
      (blocks + (pagesInDevice blockSize size - pageDescPages blockSize size))
      (fun other mem => small other (mem_cons_of_mem _ mem))
      (fun other mem => data other (mem_cons_of_mem _ mem))
      (fun other mem => few other (mem_cons_of_mem _ mem)) (by omega)
    rw [initializeDevices]
    rw [next]
    constructor
    case laid =>
      intro dc mem
      rcases mem_cons.mp mem with rfl | there
      · constructor
        case data => exact dataHere
        case checksums => exact checksums_fit pos fewHere dataHere
        case bytes => exact (Nat.div_mul_le_self size blockSize).trans_lt (small size mem_cons_self)
        case last =>
          dsimp only
          omega
      · exact built.laid dc there
    case later =>
      intro dc mem
      rcases mem_cons.mp mem with rfl | there
      · exact Nat.le_refl dev
      · exact (Nat.le_succ dev).trans (built.later dc there)
    case once =>
      intro dc mem other otherMember same
      rcases mem_cons.mp mem with rfl | there
      · rcases mem_cons.mp otherMember with rfl | otherThere
        · rfl
        · have more := built.later other otherThere
          dsimp only at same
          omega
      · rcases mem_cons.mp otherMember with rfl | otherThere
        · have more := built.later dc there
          dsimp only at same
          omega
        · exact built.once dc there other otherThere same
    case covers =>
      intro block least below
      by_cases here : block < blocks + (pagesInDevice blockSize size - pageDescPages blockSize size)
      · exact ⟨_, mem_cons_self, least, here⟩
      · obtain ⟨dc, mem, inside⟩ := built.covers block (by omega) below
        exact ⟨dc, mem_cons_of_mem _ mem, inside⟩

variable {c : Config}

theorem nvdiskInitialize_sound (proper : Proper c) (bounded : Bounded c) :
    Sound (nvdiskInitialize c) := by
  have built := initializeDevices_built proper.blockSize c.devices 0 0 proper.sizes proper.data
    bounded.checksums (by rw [Nat.zero_add]; exact bounded.blocks)
  exact ⟨built.laid, built.once, fun block below => built.covers block (Nat.zero_le block) below⟩

end Initialize

section Requests

variable {nvd : Nvdisk} {medium : Medium} {contents : Nat → Content}

/-- The data of a write have the size of a block, and a checksum that is told from that of a page
that was never written, or they are zeros. -/
def Storable (blockSize : Nat) : Request → Prop
  | .write _ buffer => buffer.length = blockSize ∧
      (pageChecksum buffer ≠ 0xffff ∨ buffer = replicate blockSize 0)
  | _ => True

instance (blockSize : Nat) (request : Request) : Decidable (Storable blockSize request) :=
  match request with
  | .read _ => .isTrue trivial
  | .write .. => inferInstanceAs (Decidable (_ ∧ _))
  | .erase => .isTrue trivial

/-- Every block reads as its content says. -/
def Serves (nvd : Nvdisk) (medium : Medium) (contents : Nat → Content) : Prop :=
  ∀ block < nvd.blockCount, (contents block).Gives nvd.blockSize (readBlock nvd medium block)

theorem Serves.step (sound : Sound nvd) (pos : 0 < nvd.blockSize)
    (serves : Serves nvd medium contents) {request : Request}
    (storable : Storable nvd.blockSize request) :
    Serves nvd (serve nvd medium request) (Content.record contents request) := by
  intro block below
  cases request with
  | read target => exact serves block below
  | erase => exact readBlock_erased sound pos below
  | write target buffer =>
    obtain ⟨length, told⟩ := storable
    by_cases outside : target < nvd.blockCount
    · obtain ⟨-, own, others⟩ := writeBlock_spec sound pos medium outside length
      by_cases here : block = target
      · subst here
        rw [Content.record, update_self]
        change readBlock nvd (writeBlock nvd medium block buffer).2 block = .ok buffer
        rw [readBlock_eq, own]
        dsimp only
        by_cases ones : pageChecksum buffer = 0xffff
        · rw [if_pos ones, told.resolve_left (not_not.mpr ones)]
        · rw [if_neg ones, if_neg (not_not.mpr rfl)]
      · rw [Content.record, update_of_ne here]
        have same : readBlock nvd (writeBlock nvd medium target buffer).2 block =
            readBlock nvd medium block := by
          rw [readBlock_eq, readBlock_eq, others block below here]
        rw [serve, same]
        exact serves block below
    · have refused : (writeBlock nvd medium target buffer).2 = medium := by
        rw [writeBlock, NvDisk.getDevice, if_pos (by omega)]
      have here : block ≠ target := by omega
      rw [Content.record, update_of_ne here, serve, refused]
      exact serves block below

/-- A disk whose layout is of words returns what was written, if the checksum of no data is that of
a page that was never written; and a write changes no other block. -/
theorem nvdisk_returns_written {c : Config} (proper : Proper c) (bounded : Bounded c)
    (medium : Medium) (requests : List Request)
    (storable : ∀ request ∈ requests, Storable c.blockSize request) :
    (∀ block < (nvdiskInitialize c).blockCount,
      ((requests.foldl Content.record fun _ => .unknown) block).Gives c.blockSize
        (readBlock (nvdiskInitialize c) (requests.foldl (serve (nvdiskInitialize c)) medium) block)) ∧
      ∀ (medium : Medium) (block : Nat) (buffer : List Byte), block < (nvdiskInitialize c).blockCount →
        buffer.length = c.blockSize → (writeBlock (nvdiskInitialize c) medium block buffer).1 = 0 ∧
        ∀ other < (nvdiskInitialize c).blockCount, other ≠ block →
          kept (nvdiskInitialize c) (writeBlock (nvdiskInitialize c) medium block buffer).2 other =
            kept (nvdiskInitialize c) medium other := by
  have sound := nvdiskInitialize_sound proper bounded
  have positive : 0 < (nvdiskInitialize c).blockSize := proper.blockSize
  have run : ∀ (requests : List Request) (medium : Medium) (contents : Nat → Content),
      (∀ request ∈ requests, Storable c.blockSize request) →
      Serves (nvdiskInitialize c) medium contents →
      Serves (nvdiskInitialize c) (requests.foldl (serve (nvdiskInitialize c)) medium)
        (requests.foldl Content.record contents) := by
    intro requests
    induction requests with
    | nil => exact fun _ _ _ serves => serves
    | cons request rest ih =>
      intro medium contents storable serves
      exact ih _ _ (fun other member => storable other (mem_cons_of_mem _ member))
        (serves.step sound positive (storable request mem_cons_self))
  refine ⟨run requests medium (fun _ => .unknown) storable fun _ _ => trivial, ?_⟩
  intro medium block buffer below length
  obtain ⟨ret, -, others⟩ := writeBlock_spec sound positive medium below length
  exact ⟨ret, others⟩

/-- One device of four pages with four bytes each: two for the checksums, two for data. -/
def small : Config where
  blockSize := 4
  devices := [16]
  bigEndian := false

theorem nvdisk_returns_written_twice :
    readBlock (nvdiskInitialize small)
      ([Request.erase, .write 0 [1, 2, 3, 4], .write 1 [5, 6, 7, 8], .write 0 [9, 9, 9, 9]].foldl
        (serve (nvdiskInitialize small)) fun _ _ => 0x55) 1 = .ok [5, 6, 7, 8] := by
  have proper : Proper small := by constructor <;> decide
  have bounded : Bounded small := by constructor <;> decide
  exact (nvdisk_returns_written proper bounded (fun _ _ => 0x55)
    [.erase, .write 0 [1, 2, 3, 4], .write 1 [5, 6, 7, 8], .write 0 [9, 9, 9, 9]] (by decide +kernel)).1 1
    (by decide)

/-- Data whose checksum is all ones read as zeros. -/
theorem data_with_unset_checksum_lost :
    Proper small ∧ readBlock (nvdiskInitialize small)
      ([Request.erase, .write 0 [0, 0, 153, 3]].foldl (serve (nvdiskInitialize small))
        fun _ _ => 0x55) 0 = .ok [0, 0, 0, 0] := by
  refine ⟨?_, ?_⟩
  · constructor <;> decide
  · decide +kernel

end Requests

end Rtems.Block.NvDisk
