import Rtems.Dosfs.Cache

/-!
# The file allocation table

The entry of a cluster has the number of the next one in the chain. The entries have 12, 16 or 32
bits; those of 12 bits share a byte and may reach into the next sector.

A chain is allocated from a free cluster on that rotates through the table.
-/

namespace Rtems.Dosfs

open ByteRange

/-- `FAT_FAT_OFFSET` -/
def fatOffset (type : FatType) (cln : Nat) : Nat :=
  match type with
  | .fat12 => cln + cln / 2
  | .fat16 => cln * 2
  | .fat32 => cln * 4

namespace FatType

/-- Whether a value ends a chain. -/
def isEoc (type : FatType) (cln : Nat) : Bool := decide (type.eocVal ≤ cln % (type.mask + 1))

end FatType

namespace FsInfo

/-- The sanity check on the number of a cluster. -/
def insane (fs : FsInfo) (cln : Nat) : Prop := cln < 2 ∨ fs.vol.dataCls + 1 < cln
deriving Decidable

/-- The sector with the entry of a cluster. -/
def entrySector (vol : Volume) (cln : Nat) : Nat :=
  (fatOffset vol.type cln / 2 ^ vol.secLog2 + vol.afatLoc) % 2 ^ 32

def entryOffset (vol : Volume) (cln : Nat) : Nat := fatOffset vol.type cln % vol.bps

/-- The entry of 12 bits from its two bytes. -/
def entry12 (cln : Nat) (first second : UInt8) : Nat :=
  let value := first.toNat + second.toNat * 2 ^ 8
  if cln % 2 = 1 then value / 2 ^ 4 else value % 2 ^ 12

/-- The first byte of an entry of 12 bits after a value is set. -/
def first12 (cln value : Nat) (old : UInt8) : UInt8 :=
  if cln % 2 = 1 then UInt8.ofNat (old.toNat % 2 ^ 4 + value % 2 ^ 4 * 2 ^ 4) else UInt8.ofNat value

/-- The second byte of an entry of 12 bits after a value is set. -/
def second12 (cln value : Nat) (old : UInt8) : UInt8 :=
  if cln % 2 = 1 then UInt8.ofNat (value / 2 ^ 4)
  else UInt8.ofNat (value / 2 ^ 8 % 2 ^ 4 + old.toNat / 2 ^ 4 * 2 ^ 4)

/-- `fat_get_fat_cluster` -/
def getFatCluster (fs : FsInfo) (cln : Nat) : Except Errno Nat × FsInfo :=
  if fs.insane cln then (.error .eio, fs)
  else
    let sec := entrySector fs.vol cln
    let ofs := entryOffset fs.vol cln
    match fs.bufAccess sec .read with
    | (.error errno, fs) => (.error errno, fs)
    | (.ok secBuf, fs) =>
      match fs.vol.type with
      | .fat12 =>
        let first := fs.c.buf (secBuf + ofs)
        if ofs = fs.vol.bps - 1 then
          match fs.bufAccess ((sec + 1) % 2 ^ 32) .read with
          | (.error errno, fs) => (.error errno, fs)
          | (.ok secBuf, fs) => (.ok (entry12 cln first (fs.c.buf secBuf)), fs)
        else (.ok (entry12 cln first (fs.c.buf (secBuf + ofs + 1))), fs)
      | .fat16 => (.ok (getVal fs.c.buf (secBuf + ofs) 2), fs)
      | .fat32 => (.ok (getVal fs.c.buf (secBuf + ofs) 4), fs)

/-- `fat_set_fat_cluster`. The upper four bits of an entry of FAT32 are kept. -/
def setFatCluster (fs : FsInfo) (cln inVal : Nat) : Except Errno Unit × FsInfo :=
  if fs.insane cln then (.error .eio, fs)
  else
    let sec := entrySector fs.vol cln
    let ofs := entryOffset fs.vol cln
    match fs.bufAccess sec .read with
    | (.error errno, fs) => (.error errno, fs)
    | (.ok secBuf, fs) =>
      match fs.vol.type with
      | .fat12 =>
        let fs := fs.modify (secBuf + ofs) [first12 cln inVal (fs.c.buf (secBuf + ofs))]
        if ofs = fs.vol.bps - 1 then
          match fs.bufAccess ((sec + 1) % 2 ^ 32) .read with
          | (.error errno, fs) => (.error errno, fs)
          | (.ok secBuf, fs) =>
            (.ok (), fs.modify secBuf [second12 cln inVal (fs.c.buf secBuf)])
        else
          (.ok (), fs.modify (secBuf + ofs + 1) [second12 cln inVal (fs.c.buf (secBuf + ofs + 1))])
      | .fat16 => (.ok (), fs.modify (secBuf + ofs) (LittleEndian.number 2 inVal))
      | .fat32 =>
        let kept := getVal fs.c.buf (secBuf + ofs) 4 / 2 ^ 28 * 2 ^ 28
        (.ok (), fs.modify (secBuf + ofs) (LittleEndian.number 4 (kept + inVal % 2 ^ 28)))

/-- The count of the free clusters changes, if it is known. -/
def countFree (fs : FsInfo) (freeCls : Nat) : FsInfo :=
  if fs.freeCls ≠ undefinedValue then { fs with freeCls := freeCls % 2 ^ 32 } else fs

/-- The loop of `fat_free_fat_clusters_chain`: an error of setting an entry is returned at the end.
A cluster that comes again has a free entry, so more clusters than the volume has are not passed. -/
def freeLoop : Nat → FsInfo → Nat → Nat → Except Errno Unit → Except Errno Unit × FsInfo × Nat × Bool
  | 0, fs, _, freed, rc1 => (rc1, fs, freed, true)
  | fuel + 1, fs, curCln, freed, rc1 =>
    if fs.vol.type.isEoc curCln then (rc1, fs, freed, true)
    else
      match fs.getFatCluster curCln with
      | (.error errno, fs) => (.error errno, fs, freed, false)
      | (.ok nextCln, fs) =>
        match fs.setFatCluster curCln genfatFree with
        | (.error errno, fs) => freeLoop fuel fs nextCln (freed + 1) (.error errno)
        | (.ok _, fs) => freeLoop fuel fs nextCln (freed + 1) rc1

/-- `fat_free_fat_clusters_chain` -/
def freeFatClustersChain (fs : FsInfo) (chain : Nat) : Except Errno Unit × FsInfo :=
  let (rc, fs, freed, finished) := freeLoop (fs.vol.dataCls + 3) fs chain 0 (.ok ())
  let fs := if finished then { fs with nextCl := chain } else fs
  (rc, (fs.countFree (fs.freeCls + freed)).bufRelease.2)

/-- The variables of `fat_scan_fat_for_free_clusters`. -/
structure Scan where
  chain : Nat
  clsAdded : Nat
  saveCln : Nat
  cl4find : Nat

/-- The label `cleanup` of `fat_scan_fat_for_free_clusters`. -/
def scanCleanup (fs : FsInfo) (scan : Scan) : FsInfo :=
  let fs := (fs.freeFatClustersChain scan.chain).2
  (fs.setFatCluster scan.cl4find genfatFree).2.bufRelease.2

/-- A cluster that was found free becomes the last one of the chain. -/
def scanTake (fs : FsInfo) (zeroFill : Bool) (scan : Scan) : Except Errno Scan × FsInfo :=
  let first := scan.clsAdded = 0
  let scan := if first then { scan with chain := scan.cl4find } else scan
  match fs.setFatCluster scan.cl4find genfatEoc with
  | (.error errno, fs) =>
    (.error errno, if first then fs else (fs.freeFatClustersChain scan.chain).2)
  | (.ok _, fs) =>
    match if first then (.ok (), fs) else fs.setFatCluster scan.saveCln scan.cl4find with
    | (.error errno, fs) => (.error errno, fs.scanCleanup scan)
    | (.ok _, fs) =>
      let taken := { scan with saveCln := scan.cl4find, clsAdded := scan.clsAdded + 1 }
      if zeroFill then
        match fs.clusterSet scan.cl4find 0 fs.vol.bpc 0 with
        | (.error errno, fs) => (.error errno, fs.scanCleanup scan)
        | (.ok written, fs) =>
          if fs.vol.bpc ≠ written then (.error .eio, fs.scanCleanup scan) else (.ok taken, fs)
      else (.ok taken, fs)

/-- The loop of `fat_scan_fat_for_free_clusters` over the clusters. -/
def scanLoop (count : Nat) (zeroFill : Bool) : Nat → FsInfo → Scan → Except Errno Scan × FsInfo
  | 0, fs, scan => (.ok scan, fs)
  | rest + 1, fs, scan =>
    if scan.clsAdded = count then (.ok scan, fs)
    else
      match fs.getFatCluster scan.cl4find with
      | (.error errno, fs) =>
        (.error errno, if scan.clsAdded ≠ 0 then (fs.freeFatClustersChain scan.chain).2 else fs)
      | (.ok nextCln, fs) =>
        match if nextCln = genfatFree then fs.scanTake zeroFill scan else (.ok scan, fs) with
        | (.error errno, fs) => (.error errno, fs)
        | (.ok scan, fs) =>
          let cl4find := if scan.cl4find + 1 ≥ fs.vol.dataCls + 2 then 2 else scan.cl4find + 1
          scanLoop count zeroFill rest fs { scan with cl4find := cl4find }

/-- `fat_scan_fat_for_free_clusters`: the first and the last cluster and their count. -/
def scanFatForFreeClusters (fs : FsInfo) (count : Nat) (zeroFill : Bool) :
    Except Errno Scan × FsInfo :=
  let cl4find := if minus fs.nextCl 2 < fs.vol.dataCls then fs.nextCl else 2
  let scan := { chain := 0, clsAdded := 0, saveCln := undefinedValue, cl4find := cl4find }
  match scanLoop count zeroFill fs.vol.dataCls fs scan with
  | (.error errno, fs) => (.error errno, fs)
  | (.ok scan, fs) =>
    let fs := { fs with nextCl := scan.saveCln }
    (.ok scan, (fs.countFree (minus fs.freeCls scan.clsAdded)).bufRelease.2)

/-- The loop of `fat_init_clusters_chain`. -/
def initLoop : Nat → FsInfo → Nat → Except Errno Unit × FsInfo
  | 0, fs, _ => (.ok (), fs)
  | fuel + 1, fs, curCln =>
    if fs.vol.type.isEoc curCln then (.ok (), fs)
    else
      match fs.clusterSet curCln 0 fs.vol.bpc 0 with
      | (.error errno, fs) => (.error errno, fs)
      | (.ok ret, fs) =>
        if ret ≠ fs.vol.bpc then (.error .eio, fs)
        else
          match fs.getFatCluster curCln with
          | (.error errno, fs) => (.error errno, fs)
          | (.ok nextCln, fs) => initLoop fuel fs nextCln

/-- `fat_init_clusters_chain`, for a chain without a cluster that comes twice. -/
def initClustersChain (fs : FsInfo) (startCln : Nat) : Except Errno Unit × FsInfo :=
  initLoop (fs.vol.dataCls + 1) fs startCln

end FsInfo

end Rtems.Dosfs
