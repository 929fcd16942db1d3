import Mathlib.Algebra.Order.Ring.Nat
import Mathlib.Data.Fintype.BigOperators
import Rtems.Library.LinkedQueues

/-!
# The flash disk driver

The disk keeps its blocks in the pages of erasable segments. A page is erased, active, used or
bad; writing a block again flags its old page as used and takes an erased page for the new data.
Segments with erased pages are on the available queue, full ones on the used queue, those that
only wait for their erasure on the erase queue and those that failed on the failed queue. A
compaction moves the active pages of full segments together and erases the segments.

The flash devices are behind their handlers. A handler may look at everything, its answer is an
error number, and it leaves a device state of any kind. Segments are numbered through all the
devices. A loop over a queue that has not ended after as many rounds as there are segments has no
result. The counters for statistics only and the texts of messages are left out.
-/

namespace Rtems.Block.FlashDisk

open LinkedQueues

/-- `rtems_fdisk_page_desc` -/
structure PageDesc where
  crc : BitVec 16
  flags : BitVec 16
  block : BitVec 32
deriving DecidableEq

/-- `RTEMS_FDISK_PAGE_ACTIVE` -/
def pageActive : BitVec 16 := 1

/-- `RTEMS_FDISK_PAGE_USED` -/
def pageUsed : BitVec 16 := 2

/-- What a descriptor reads after an erasure. -/
def PageDesc.blank : PageDesc where
  crc := 0xffff
  flags := 0xffff
  block := 0xffffffff

namespace PageDesc

/-- `rtems_fdisk_page_desc_erased` -/
def erased (pd : PageDesc) : Bool :=
  pd.crc == 0xffff && pd.flags == 0xffff && pd.block == 0xffffffff

/-- `rtems_fdisk_page_desc_flags_set`: a flag is set by clearing its bit. -/
def flagsSet (pd : PageDesc) (flags : BitVec 16) : Bool := pd.flags &&& flags == 0

/-- `rtems_fdisk_page_desc_flags_clear` -/
def flagsClear (pd : PageDesc) (flags : BitVec 16) : Bool := pd.flags &&& flags == flags

/-- `rtems_fdisk_page_desc_set_flags` -/
def setFlags (pd : PageDesc) (flags : BitVec 16) : PageDesc :=
  { pd with flags := pd.flags &&& ~~~flags }

/-- The page holds a current block. -/
def active (pd : PageDesc) : Bool := pd.flagsSet pageActive && !pd.flagsSet pageUsed

/-- The page held a block that has been written again or moved. -/
def used (pd : PageDesc) : Bool := pd.flagsSet pageUsed

/-- The page is none of these. -/
def bad (pd : PageDesc) : Bool := !pd.erased && !pd.active && !pd.used

end PageDesc

/-! Unsigned words of 32 bits. -/

def increment (word : Nat) : Nat := if word + 1 = 2 ^ 32 then 0 else word + 1

def decrement (word : Nat) : Nat := if word = 0 then 2 ^ 32 - 1 else word - 1

def minus (word other : Nat) : Nat :=
  if other ≤ word then word - other else 2 ^ 32 - (other - word)

/-- `rtems_fdisk_segment_ctl`, without its link. The length of the list is `pages`. -/
structure SegmentCtl where
  pageDescriptors : List PageDesc
  pagesActive : Nat
  pagesUsed : Nat
  pagesBad : Nat
  failed : Bool
deriving DecidableEq

def SegmentCtl.pages (sc : SegmentCtl) : Nat := sc.pageDescriptors.length

/-- `rtems_fdisk_seg_pages_available` -/
def SegmentCtl.pagesAvailable (sc : SegmentCtl) : Nat :=
  minus sc.pages ((sc.pagesActive + sc.pagesUsed + sc.pagesBad) % 2 ^ 32)

/-- `rtems_fdisk_seg_next_available_page`: the number of pages if there is none. -/
def SegmentCtl.nextAvailablePage (sc : SegmentCtl) : Nat :=
  sc.pageDescriptors.findIdx PageDesc.erased

/-- The queues of the disk. -/
inductive QueueName where
  | available
  | used
  | erase
  | failed
deriving DecidableEq

/-- The data of a page. -/
abbrev Page (blockSize : Nat) := Fin blockSize → BitVec 8

/-- The sizes in bytes of the segments of all the devices. -/
structure Geometry (n blockSize : Nat) where
  segmentSize : Fin n → Nat

namespace Geometry

variable {n blockSize : Nat}

/-- `rtems_fdisk_pages_in_segment` -/
def pagesInSegment (g : Geometry n blockSize) (segment : Fin n) : Nat :=
  g.segmentSize segment / blockSize

/-- `rtems_fdisk_page_desc_pages`: a descriptor has eight bytes. -/
def pageDescPages (g : Geometry n blockSize) (segment : Fin n) : Nat :=
  minus (g.pagesInSegment segment * 8 % 2 ^ 32) 1 / blockSize + 1

/-- The pages for data of a segment. -/
def pages (g : Geometry n blockSize) (segment : Fin n) : Nat :=
  minus (g.pagesInSegment segment) (g.pageDescPages segment)

/-- The sum of `rtems_fdisk_blocks_in_device`. -/
def blockCount (g : Geometry n blockSize) : Nat := ∑ segment, g.pages segment

/-- The number of data pages of the largest segment. -/
def starvationThreshold (g : Geometry n blockSize) : Nat :=
  (List.finRange n).foldl (fun largest segment =>
    if g.pages segment > largest then g.pages segment else largest) 0

end Geometry

/-- `rtems_flashdisk_config`: the number of blocks is a word, and the blocks that are not
available are some of them. -/
structure Config (n blockSize : Nat) extends Geometry n blockSize where
  backgroundErase : Bool
  backgroundCompact : Bool
  blankCheckBeforeWrite : Bool
  unavailBlocks : Nat
  compactSegs : Nat
  availCompactSegs : Nat
  fits : toGeometry.blockCount < 2 ^ 32
  spare : unavailBlocks ≤ toGeometry.blockCount

/-- `rtems_flashdisk` -/
structure Flashdisk (n : Nat) (δ : Type) where
  blocks : BitVec 32 → Option (Fin n × Nat)
  erasedBlocks : Nat
  segments : Fin n → SegmentCtl
  queues : Queues QueueName (Fin n)
  device : δ

/-- What is programmed into a segment. -/
inductive Program (blockSize : Nat) where
  | data (page : Nat) (buffer : Page blockSize)
  | descriptor (page : Nat) (pd : PageDesc)
  | flags (page : Nat) (flags : BitVec 16)

/-- A part of a segment that is checked to be blank. -/
inductive Area where
  | data (page : Nat)
  | descriptor (page : Nat)

/-- `rtems_fdisk_driver_handlers`: the error number, what is read and the device state. -/
structure Handlers (n blockSize : Nat) (δ : Type) where
  readDescriptors : Flashdisk n δ → Fin n → Nat × (Nat → PageDesc) × δ
  readFlags : Flashdisk n δ → Fin n → Nat → Nat × BitVec 16 × δ
  readPage : Flashdisk n δ → Fin n → Nat → Nat × Page blockSize × δ
  write : Flashdisk n δ → Fin n → Program blockSize → Nat × δ
  blank : Flashdisk n δ → Fin n → Area → Nat × δ
  verify : Flashdisk n δ → Fin n → Nat → Page blockSize → Nat × δ
  erase : Flashdisk n δ → Fin n → Nat × δ

def eio : Nat := 5

def enospc : Nat := 28

variable {n blockSize : Nat} {δ : Type}

/-- Change the control of one segment. -/
def Flashdisk.setSegment (fd : Flashdisk n δ) (sc : Fin n) (control : SegmentCtl) :
    Flashdisk n δ :=
  { fd with segments := Function.update fd.segments sc control }

/-- `rtems_fdisk_segment_queue_present` -/
def Flashdisk.present (fd : Flashdisk n δ) (name : QueueName) (sc : Fin n) : Option Bool :=
  (find fd.queues.next (fun other => decide (other = sc)) n (fd.queues.queue name).head).map
    Option.isSome

/-- `rtems_fdisk_segment_count_queue` -/
def Flashdisk.countQueue (fd : Flashdisk n δ) (name : QueueName) : Option Nat :=
  gather fd.queues.next (fun count _ => increment count) n 0 (fd.queues.queue name).head

/-- `rtems_fdisk_segment_queue_remove` -/
def Flashdisk.remove (fd : Flashdisk n δ) (name : QueueName) (sc : Fin n) :
    Option (Flashdisk n δ) :=
  (LinkedQueues.remove fd.queues n name sc).map fun queues => { fd with queues := queues }

def Flashdisk.pushHead (fd : Flashdisk n δ) (name : QueueName) (sc : Fin n) : Flashdisk n δ :=
  { fd with queues := LinkedQueues.pushHead fd.queues name sc }

def Flashdisk.pushTail (fd : Flashdisk n δ) (name : QueueName) (sc : Fin n) : Flashdisk n δ :=
  { fd with queues := LinkedQueues.pushTail fd.queues name sc }

def Flashdisk.popHead (fd : Flashdisk n δ) (name : QueueName) : Option (Fin n) × Flashdisk n δ :=
  let (head, queues) := LinkedQueues.popHead fd.queues name
  (head, { fd with queues := queues })

/-- `rtems_fdisk_seg_most_available` -/
def Flashdisk.mostAvailable (fd : Flashdisk n δ) (name : QueueName) : Option (Option (Fin n)) :=
  match (fd.queues.queue name).head with
  | none => some none
  | some first =>
    (gather fd.queues.next (fun biggest sc =>
      if (fd.segments sc).pagesAvailable > (fd.segments biggest).pagesAvailable then sc
      else biggest) n first (some first)).map some

/-- `rtems_fdisk_seg_write`: a failure is kept with the segment. -/
def segWrite (h : Handlers n blockSize δ) (fd : Flashdisk n δ) (sc : Fin n)
    (program : Program blockSize) : Nat × Flashdisk n δ :=
  let (ret, device) := h.write fd sc program
  let fd := { fd with device := device }
  if ret = 0 then (ret, fd)
  else (ret, fd.setSegment sc { fd.segments sc with failed := true })

variable (c : Config n blockSize) (h : Handlers n blockSize δ) (fd : Flashdisk n δ)

/-- `rtems_fdisk_seg_blank_check`, if it is configured for writing. -/
def blankCheck (sc : Fin n) (area : Area) : Nat × Flashdisk n δ :=
  if c.blankCheckBeforeWrite then
    let (ret, device) := h.blank fd sc area
    (ret, { fd with device := device })
  else (0, fd)

/-- `rtems_fdisk_seg_write_page` -/
def segWritePage (sc : Fin n) (page : Nat) (buffer : Page blockSize) : Nat × Flashdisk n δ :=
  let (ret, fd) := blankCheck c h fd sc (.data page)
  if ret = 0 then
    segWrite h { fd with erasedBlocks := decrement fd.erasedBlocks } sc (.data page buffer)
  else (ret, fd)

/-- `rtems_fdisk_seg_copy_page` -/
def segCopyPage (source : Fin n) (sourcePage : Nat) (destination : Fin n) (destinationPage : Nat) :
    Nat × Flashdisk n δ :=
  let (ret, buffer, device) := h.readPage fd source sourcePage
  let fd := { fd with device := device }
  if ret = 0 then segWritePage c h fd destination destinationPage buffer
  else (ret, fd)

/-- `rtems_fdisk_seg_write_page_desc` -/
def segWritePageDesc (sc : Fin n) (page : Nat) (pd : PageDesc) : Nat × Flashdisk n δ :=
  let (ret, fd) := blankCheck c h fd sc (.descriptor page)
  if ret = 0 then segWrite h fd sc (.descriptor page pd)
  else (ret, fd)

/-- `rtems_fdisk_seg_write_page_desc_flags`: flags that would need a bit to be set again are not
written, with no error. -/
def segWritePageDescFlags (sc : Fin n) (page : Nat) (pd : PageDesc) : Nat × Flashdisk n δ :=
  if c.blankCheckBeforeWrite then
    let (ret, flashFlags, device) := h.readFlags fd sc page
    let fd := { fd with device := device }
    if ret ≠ 0 then (ret, fd)
    else if flashFlags &&& pd.flags ≠ pd.flags then (ret, fd)
    else segWrite h fd sc (.flags page pd.flags)
  else segWrite h fd sc (.flags page pd.flags)

/-- Push to the failed queue unless the segment is there. -/
def Flashdisk.pushFailed (fd : Flashdisk n δ) (sc : Fin n) : Option (Flashdisk n δ) := do
  if ← fd.present .failed sc then return fd
  else return fd.pushTail .failed sc

/-- The control of a segment after its erasure. -/
def SegmentCtl.reset (sc : SegmentCtl) : SegmentCtl where
  pageDescriptors := List.replicate sc.pages PageDesc.blank
  pagesActive := 0
  pagesUsed := 0
  pagesBad := 0
  failed := false

/-- `rtems_fdisk_erase_segment` -/
def eraseSegment (h : Handlers n blockSize δ) (fd : Flashdisk n δ) (sc : Fin n) :
    Option (Nat × Flashdisk n δ) := do
  let (ret, device) := h.erase fd sc
  let fd := { fd with device := device }
  if ret ≠ 0 then
    let fd ← (fd.setSegment sc { fd.segments sc with failed := true }).pushFailed sc
    return (ret, fd)
  else
    let fd := { fd with erasedBlocks := (fd.erasedBlocks + (fd.segments sc).pages) % 2 ^ 32 }
    let fd := fd.setSegment sc (fd.segments sc).reset
    return (0, fd.pushTail .available sc)

/-- The loop of `rtems_fdisk_erase_used`, with the first error so far. -/
def eraseUsedFrom (h : Handlers n blockSize δ) :
    Nat → Nat → Flashdisk n δ → Option (Nat × Flashdisk n δ)
  | fuel, latched, fd =>
    match fd.popHead .erase, fuel with
    | (none, fd), _ => some (latched, fd)
    | (some _, _), 0 => none
    | (some sc, fd), fuel + 1 => do
      let (ret, fd) ← eraseSegment h fd sc
      eraseUsedFrom h fuel (if latched = 0 then ret else latched) fd

/-- `rtems_fdisk_erase_used` -/
def eraseUsed (h : Handlers n blockSize δ) (fd : Flashdisk n δ) : Option (Nat × Flashdisk n δ) :=
  eraseUsedFrom h n 0 fd

/-- `rtems_fdisk_queue_segment` -/
def queueSegment (sc : Fin n) : Option (Flashdisk n δ) := do
  if (fd.segments sc).failed then fd.pushFailed sc
  else
    let fd ← fd.remove .available sc
    let fd ← fd.remove .used sc
    if (fd.segments sc).pagesAvailable = 0 then
      if (fd.segments sc).pagesActive ≠ 0 then
        let queues ← insertSorted fd.queues n .used (fun seg =>
          decide ((fd.segments seg).pagesUsed < (fd.segments sc).pagesUsed)) sc
        return { fd with queues := queues }
      else if c.backgroundErase then return fd.pushTail .erase sc
      else
        let (_, fd) ← eraseSegment h fd sc
        return fd
    else
      let queues ← insertSorted fd.queues n .available (fun seg =>
        decide ((fd.segments sc).pagesAvailable < (fd.segments seg).pagesAvailable)) sc
      return { fd with queues := queues }

/-- How the loop over the pages of a recycled segment goes on: with a destination and the number
of pages still to move, or out of the function. -/
inductive Progress (n : Nat) (δ : Type) where
  | proceed (fd : Flashdisk n δ) (dsc : Fin n) (pages : Nat)
  | leave (ret : Nat) (pages : Nat) (fd : Flashdisk n δ)

/-- A page could not be moved. -/
def abandonRecycling (ssc dsc : Fin n) (pages ret : Nat) : Option (Progress n δ) := do
  let fd ← queueSegment c h fd dsc
  return .leave ret pages (fd.pushHead .used ssc)

/-- The destination has its page; look for another one if it is full. -/
def pageMoved (ssc dsc : Fin n) (pages : Nat) : Option (Progress n δ) := do
  let fd ← queueSegment c h fd dsc
  if (fd.segments dsc).pagesAvailable = 0 then
    match ← fd.mostAvailable .available with
    | some dsc => return .proceed fd dsc (decrement pages)
    | none =>
      if (fd.segments ssc).pagesActive = 0 then
        let (ret, fd) ← eraseSegment h fd ssc
        return .leave ret pages fd
      else return .leave eio pages fd
  else return .proceed fd dsc (decrement pages)

/-- The active page `spage` of the source is moved. -/
def movePage (ssc dsc : Fin n) (spage : Nat) (spd : PageDesc) (pages : Nat) :
    Option (Progress n δ) :=
  let dpage := (fd.segments dsc).nextAvailablePage
  if dpage ≥ (fd.segments dsc).pages then
    abandonRecycling c h (fd.setSegment dsc { fd.segments dsc with failed := true }) ssc dsc pages eio
  else
    let (ret, fd) := segCopyPage c h fd ssc spage dsc dpage
    if ret ≠ 0 then abandonRecycling c h fd ssc dsc pages ret
    else
      let control := fd.segments dsc
      let fd := fd.setSegment dsc
        { control with pageDescriptors := control.pageDescriptors.set dpage spd }
      let (ret, fd) := segWritePageDesc c h fd dsc dpage spd
      if ret ≠ 0 then abandonRecycling c h fd ssc dsc pages ret
      else
        let control := fd.segments dsc
        let fd := fd.setSegment dsc { control with pagesActive := increment control.pagesActive }
        let control := fd.segments ssc
        let fd := fd.setSegment ssc
          { control with
            pagesActive := decrement control.pagesActive
            pagesUsed := increment control.pagesUsed }
        let fd := { fd with blocks := Function.update fd.blocks spd.block (some (dsc, dpage)) }
        pageMoved c h fd ssc dsc pages

/-- One round of the loop over the pages of the source. -/
def recyclePage (ssc dsc : Fin n) (spage : Nat) (pages : Nat) : Option (Progress n δ) :=
  match (fd.segments ssc).pageDescriptors[spage]? with
  | none => none
  | some spd =>
    if spd.active then movePage c h fd ssc dsc spage spd pages
    else if spd.erased then
      some (.proceed { fd with erasedBlocks := decrement fd.erasedBlocks } dsc pages)
    else some (.proceed fd dsc pages)

/-- The loop of `rtems_fdisk_recycle_segment` over the `left` pages from `spage` on. -/
def recycleFrom (c : Config n blockSize) (h : Handlers n blockSize δ) (ssc : Fin n) :
    Nat → Nat → Flashdisk n δ → Fin n → Nat → Option (Nat × Nat × Flashdisk n δ)
  | 0, _, fd, _, pages => do
    let (ret, fd) ← eraseSegment h fd ssc
    return (ret, pages, fd)
  | left + 1, spage, fd, dsc, pages => do
    match ← recyclePage c h fd ssc dsc spage pages with
    | .proceed fd dsc pages => recycleFrom c h ssc left (spage + 1) fd dsc pages
    | .leave ret pages fd => return (ret, pages, fd)

/-- `rtems_fdisk_recycle_segment` -/
def recycleSegment (ssc dsc : Fin n) (pages : Nat) : Option (Nat × Nat × Flashdisk n δ) :=
  recycleFrom c h ssc (fd.segments ssc).pages 0 fd dsc pages

/-- `rtems_fdisk_is_erased_blocks_starvation` -/
def isErasedBlocksStarvation (c : Config n blockSize) (fd : Flashdisk n δ) : Bool :=
  fd.erasedBlocks < c.starvationThreshold

/-- The segment that is recycled to resolve a starvation: a used one, else an available one. -/
def Flashdisk.popSource (fd : Flashdisk n δ) : Option (Fin n) × Flashdisk n δ :=
  match fd.popHead .used with
  | (some ssc, fd) => (some ssc, fd)
  | (none, fd) => fd.popHead .available

/-- The part of `rtems_fdisk_compact` that resolves a starvation. The number of pages is not set
there, and nothing depends on it. -/
def resolveStarvation : Option (Nat × Flashdisk n δ) := do
  match fd.popSource with
  | (none, fd) => return (eio, fd)
  | (some ssc, fd) =>
    match ← fd.mostAvailable .available with
    | none => return (eio, fd)
    | some dsc =>
      let (ret, _, fd) ← recycleSegment c h fd ssc dsc 0
      return (ret, fd)

/-- Count the used segments from a place on whose active pages fit: the first that does not, the
pages and the segments. -/
def fittingFrom (c : Config n blockSize) (fd : Flashdisk n δ) (dstPages compactedSegs : Nat) :
    Nat → Option (Fin n) → Nat → Nat → Option (Option (Fin n) × Nat × Nat)
  | _, none, pages, segments => some (none, pages, segments)
  | 0, some _, _, _ => none
  | fuel + 1, some ssc, pages, segments =>
    if (pages + (fd.segments ssc).pagesActive) % 2 ^ 32 < dstPages ∧
        (compactedSegs + segments) % 2 ^ 32 < c.compactSegs then
      fittingFrom c fd dstPages compactedSegs fuel (fd.queues.next ssc)
        ((pages + (fd.segments ssc).pagesActive) % 2 ^ 32) (increment segments)
    else some (some ssc, pages, segments)

/-- The loop that copies the counted pages into the destination. -/
def compactInto (c : Config n blockSize) (h : Handlers n blockSize δ) (dsc : Fin n) :
    Nat → Nat → Flashdisk n δ → Option (Nat × Flashdisk n δ)
  | _, 0, fd => some (0, fd)
  | 0, _ + 1, _ => none
  | fuel + 1, pages + 1, fd =>
    match fd.popHead .used with
    | (none, _) => none
    | (some ssc, fd) => do
      let (ret, pages, fd) ← recycleSegment c h fd ssc dsc (pages + 1)
      if ret ≠ 0 then return (ret, fd)
      else compactInto c h dsc fuel pages fd

/-- The loop of `rtems_fdisk_compact` over the used segments. -/
def compactUsed (c : Config n blockSize) (h : Handlers n blockSize δ) :
    Nat → Nat → Flashdisk n δ → Option (Nat × Flashdisk n δ)
  | fuel, compactedSegs, fd =>
    match (fd.queues.queue .used).head, fuel with
    | none, _ => some (0, fd)
    | some _, 0 => none
    | some first, fuel + 1 => do
      match ← fd.mostAvailable .available with
      | none => return (eio, fd)
      | some dsc =>
        let (ssc, pages, segments) ← fittingFrom c fd (fd.segments dsc).pagesAvailable
          compactedSegs n (some first) 0 0
        if ssc = none ∨ pages = 0 ∨ (compactedSegs + segments) % 2 ^ 32 = 1 then return (0, fd)
        else
          let fd ← fd.remove .available dsc
          let (ret, fd) ← compactInto c h dsc n pages fd
          if ret ≠ 0 then return (ret, fd)
          else compactUsed c h fuel ((compactedSegs + segments) % 2 ^ 32) fd

/-- `rtems_fdisk_compact` -/
def compact : Option (Nat × Flashdisk n δ) := do
  let (ret, fd) ←
    if isErasedBlocksStarvation c fd then resolveStarvation c h fd else some (0, fd)
  if ret ≠ 0 then return (ret, fd)
  else compactUsed c h n 0 fd

/-- The page is examined when the disk is attached. -/
def recoverPage (c : Config n blockSize) (h : Handlers n blockSize δ) (sc : Fin n)
    (fd : Flashdisk n δ) (page : Nat) : Flashdisk n δ :=
  let control := fd.segments sc
  let pd := control.pageDescriptors.getD page PageDesc.blank
  if pd.erased then
    let (ret, device) := h.blank fd sc (.data page)
    let fd := { fd with device := device }
    if ret = 0 then { fd with erasedBlocks := increment fd.erasedBlocks }
    else
      let pd := pd.setFlags pageUsed
      let fd := fd.setSegment sc
        { control with pageDescriptors := control.pageDescriptors.set page pd }
      let (_, fd) := segWritePageDesc c h fd sc page pd
      let control := fd.segments sc
      fd.setSegment sc { control with pagesUsed := increment control.pagesUsed }
  else if pd.flagsSet pageUsed then
    fd.setSegment sc { control with pagesUsed := increment control.pagesUsed }
  else if pd.flagsSet pageActive then
    if pd.block.toNat ≥ c.blockCount ∨ fd.blocks pd.block ≠ none then
      fd.setSegment sc { control with pagesBad := increment control.pagesBad }
    else
      let fd := { fd with blocks := Function.update fd.blocks pd.block (some (sc, page)) }
      fd.setSegment sc { control with pagesActive := increment control.pagesActive }
  else fd.setSegment sc { control with pagesBad := increment control.pagesBad }

/-- The segment is examined when the disk is attached. -/
def recoverSegment (sc : Fin n) : Option (Nat × Flashdisk n δ) := do
  let (ret, descriptors, device) := h.readDescriptors fd sc
  let fd := { fd with device := device }.setSegment sc
    { pageDescriptors := (List.range (c.pages sc)).map descriptors
      pagesActive := 0
      pagesUsed := 0
      pagesBad := 0
      failed := false }
  if ret ≠ 0 then return (ret, fd)
  else
    let fd := (List.range (c.pages sc)).foldl (recoverPage c h sc) fd
    let fd ← queueSegment c h fd sc
    return (0, fd)

/-- The loop of `rtems_fdisk_recover_block_mappings`. -/
def recoverFrom (c : Config n blockSize) (h : Handlers n blockSize δ) :
    List (Fin n) → Flashdisk n δ → Option (Nat × Flashdisk n δ)
  | [], fd => some (0, fd)
  | sc :: rest, fd => do
    let (ret, fd) ← recoverSegment c h fd sc
    if ret ≠ 0 then return (ret, fd)
    else recoverFrom c h rest fd

/-- `rtems_fdisk_recover_block_mappings` -/
def recoverBlockMappings : Option (Nat × Flashdisk n δ) :=
  recoverFrom c h (List.finRange n)
    { fd with
      queues := { fd.queues with queue := fun _ => empty }
      blocks := fun _ => none
      erasedBlocks := 0 }

/-- The factors of `rtems_fdisk_crc16_gen_factors` for the pattern `0x8408`. -/
def crc16Factor (byte : BitVec 8) : BitVec 16 :=
  (fun v : BitVec 16 => if v &&& 1 = 0 then v >>> 1 else (v >>> 1) ^^^ 0x8408)^[8]
    (byte.setWidth 16)

/-- `rtems_fdisk_calc_crc16` -/
def calcCrc16 (cs : BitVec 16) (byte : BitVec 8) : BitVec 16 :=
  crc16Factor (byte ^^^ cs.setWidth 8) ^^^ (cs >>> 8)

/-- `rtems_fdisk_page_checksum` -/
def pageChecksum (buffer : Page blockSize) : BitVec 16 :=
  (List.ofFn buffer).foldl calcCrc16 0xffff

/-- `rtems_fdisk_read_block`: an error number or the data. -/
def readBlock (block : BitVec 32) : Except Nat (Page blockSize) × Flashdisk n δ :=
  if block.toNat ≥ c.blockCount - c.unavailBlocks then (.error eio, fd)
  else
    match fd.blocks block with
    | none => (.ok fun _ => 0xff, fd)
    | some (sc, page) =>
      let pd := (fd.segments sc).pageDescriptors.getD page PageDesc.blank
      if pd.flagsSet pageActive && pd.flagsClear pageUsed then
        let (ret, buffer, device) := h.readPage fd sc page
        let fd := { fd with device := device }
        if ret ≠ 0 then (.error ret, fd)
        else if pageChecksum buffer = pd.crc then (.ok buffer, fd)
        else (.error eio, fd)
      else (.error eio, fd)

/-- The old page of a block is flagged as used, and its segment queued again. -/
def flagUsed (sc : Fin n) (page : Nat) : Option (Flashdisk n δ) :=
  let control := fd.segments sc
  let pd := (control.pageDescriptors.getD page PageDesc.blank).setFlags pageUsed
  let fd := fd.setSegment sc
    { control with pageDescriptors := control.pageDescriptors.set page pd }
  let (ret, fd) := segWritePageDescFlags c h fd sc page pd
  let control := fd.segments sc
  let fd :=
    if ret ≠ 0 then fd
    else fd.setSegment sc
      { control with
        pagesActive := decrement control.pagesActive
        pagesUsed := increment control.pagesUsed }
  queueSegment c h fd sc

/-- `rtems_fdisk_write_block` is cut before each of its compactions: the stages in which it has
still to store the data, the one after that and the end. -/
inductive Stage (blockSize : Nat) where
  | foreground (block : BitVec 32) (buffer : Page blockSize)
  | sizing (block : BitVec 32) (buffer : Page blockSize)
  | claiming (block : BitVec 32) (buffer : Page blockSize)
  | full (block : BitVec 32) (buffer : Page blockSize)
  | stored (ret : Nat)
  | done (ret : Nat)

/-- The first part of `rtems_fdisk_write_block`: a block with the same data is left alone. -/
def beginWrite (block : BitVec 32) (buffer : Page blockSize) :
    Option (Stage blockSize × Flashdisk n δ) :=
  if block.toNat ≥ c.blockCount - c.unavailBlocks then some (.done eio, fd)
  else
    match fd.blocks block with
    | none => some (.sizing block buffer, fd)
    | some (sc, page) => do
      let (ret, device) := h.verify fd sc page buffer
      let fd := { fd with device := device }
      if ret = 0 then return (.done 0, fd)
      else
        let fd ← flagUsed c h fd sc page
        return (.foreground block buffer, fd)

/-- The data go to the first erased page of a segment that was taken from the available queue. -/
def storeBlock (sc : Fin n) (block : BitVec 32) (buffer : Page blockSize) :
    Option (Stage blockSize × Flashdisk n δ) := do
  let control := fd.segments sc
  let page := control.nextAvailablePage
  if page < control.pages then
    let old := control.pageDescriptors.getD page PageDesc.blank
    let pd := { old with crc := pageChecksum buffer, block := block }.setFlags pageActive
    let fd := { fd with blocks := Function.update fd.blocks block (some (sc, page)) }
    let fd := fd.setSegment sc
      { control with pageDescriptors := control.pageDescriptors.set page pd }
    let (ret, fd) := segWritePage c h fd sc page buffer
    let (ret, fd) :=
      if ret ≠ 0 then (ret, fd)
      else
        let (ret, fd) := segWritePageDesc c h fd sc page pd
        let control := fd.segments sc
        if ret ≠ 0 then (ret, fd)
        else (ret, fd.setSegment sc { control with pagesActive := increment control.pagesActive })
    let fd ← queueSegment c h fd sc
    return (.stored ret, fd)
  else
    let fd ← queueSegment c h (fd.setSegment sc { control with failed := true }) sc
    return (.done eio, fd)

/-- A compaction whose result does not matter. -/
def compactIf (c : Config n blockSize) (h : Handlers n blockSize δ) (wanted : Bool)
    (fd : Flashdisk n δ) : Option (Flashdisk n δ) :=
  if wanted then (compact c h fd).map Prod.snd else some fd

/-- The write goes on from a stage to the next. -/
def advance (c : Config n blockSize) (h : Handlers n blockSize δ) :
    Stage blockSize → Flashdisk n δ → Option (Stage blockSize × Flashdisk n δ)
  | .foreground block buffer, fd => do
    let fd ← compactIf c h (!c.backgroundCompact) fd
    return (.sizing block buffer, fd)
  | .sizing block buffer, fd => do
    let count ← fd.countQueue .available
    let fd ← compactIf c h (count ≤ c.availCompactSegs) fd
    return (.claiming block buffer, fd)
  | .claiming block buffer, fd =>
    match fd.popHead .available with
    | (none, fd) => some (.full block buffer, fd)
    | (some sc, fd) => storeBlock c h fd sc block buffer
  | .full block buffer, fd => do
    let fd ← compactIf c h c.backgroundCompact fd
    match fd.popHead .available with
    | (none, fd) => return (.done enospc, fd)
    | (some sc, fd) => storeBlock c h fd sc block buffer
  | .stored ret, fd => do
    let fd ← compactIf c h (isErasedBlocksStarvation c fd) fd
    return (.done ret, fd)
  | .done ret, fd => some (.done ret, fd)

/-- `rtems_fdisk_write_block` -/
def writeBlock (block : BitVec 32) (buffer : Page blockSize) :
    Option (Stage blockSize × Flashdisk n δ) := do
  let (stage, fd) ← beginWrite c h fd block buffer
  let (stage, fd) ← advance c h stage fd
  let (stage, fd) ← advance c h stage fd
  let (stage, fd) ← advance c h stage fd
  let (stage, fd) ← advance c h stage fd
  advance c h stage fd

end Rtems.Block.FlashDisk
