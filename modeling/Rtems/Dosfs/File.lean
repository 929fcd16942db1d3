import Rtems.Dosfs.Table

/-!
# Files of clusters

A file is a chain of clusters. The descriptor remembers one position in the chain and the last
cluster. The root directory of FAT12 and FAT16 has no chain; it lies in front of the clusters.
-/

namespace Rtems.Dosfs

open ByteRange

def msdosMaxDirLength : Nat := 0x200000
def msdosMaxFileSize : Nat := 0xffffffff

/-- `fat_file_map_t` -/
structure FileMap where
  fileCln : Nat
  diskCln : Nat
  lastCln : Nat
deriving DecidableEq

/-- `fat_file_fd_t`. The field `dir_pos` serves only to tell the root directory. -/
structure FileFd where
  ofRootDir : Bool
  directory : Bool
  linksNum : Nat
  sizeLimit : Nat
  fatFileSize : Nat
  cln : Nat
  removed : Bool
  map : FileMap
deriving DecidableEq

namespace FileFd

/-- Whether the file is the root directory of FAT12 or FAT16. -/
def isFat12OrFat16RootDir (fd : FileFd) (type : FatType) : Bool := fd.ofRootDir && decide (type ≠ .fat32)

/-- The loop of `fat_file_lseek` over the clusters. -/
def skipClusters : Nat → FsInfo → Nat → Except Errno Nat × FsInfo
  | 0, fs, curCln => (.ok curCln, fs)
  | count + 1, fs, curCln =>
    match fs.getFatCluster curCln with
    | (.error errno, fs) => (.error errno, fs)
    | (.ok next, fs) => skipClusters count fs next

variable (fs : FsInfo) (fd : FileFd)

/-- `fat_file_lseek`: the cluster on the disk. -/
def fatFileLseek (fileCln : Nat) : Except Errno Nat × FsInfo × FileFd :=
  if fileCln = fd.map.fileCln then (.ok fd.map.diskCln, fs, fd)
  else
    let (curCln, count) :=
      if fileCln > fd.map.fileCln then (fd.map.diskCln, fileCln - fd.map.fileCln)
      else (fd.cln, fileCln)
    match skipClusters count fs curCln with
    | (.error errno, fs) => (.error errno, fs, fd)
    | (.ok curCln, fs) =>
      (.ok curCln, fs, { fd with map := { fd.map with fileCln := fileCln, diskCln := curCln } })

/-- The loop of `fat_file_read`: the bytes and the last cluster that was read. The peek at the next
cluster reads ahead only. -/
def readLoop : Nat → FsInfo → Nat → Nat → Nat → Nat → Except Errno (List UInt8 × Nat) × FsInfo
  | 0, fs, _, saveCln, _, _ => (.ok ([], saveCln), fs)
  | fuel + 1, fs, curCln, saveCln, ofs, count =>
    if count = 0 then (.ok ([], saveCln), fs)
    else
      let c := min count (fs.vol.bpc - ofs)
      let sec := clusterNumToSectorNum fs.vol curCln
      match fs.getFatCluster curCln with
      | (.error errno, fs) => (.error errno, fs)
      | (.ok nextCln, fs) =>
        let sec := (sec + ofs / 2 ^ fs.vol.secLog2) % 2 ^ 32
        match fs.blockRead c sec (ofs % fs.vol.bps) c with
        | (.error errno, fs) => (.error errno, fs)
        | (.ok bytes, fs) =>
          match readLoop fuel fs nextCln curCln 0 (count - c) with
          | (.error errno, fs) => (.error errno, fs)
          | (.ok (rest, saveCln), fs) => (.ok (bytes ++ rest, saveCln), fs)

/-- `fat_file_read`: the bytes that were read. -/
def fatFileRead (start count : Nat) : Except Errno (List UInt8) × FsInfo × FileFd :=
  if count = 0 then (.ok [], fs, fd)
  else if start ≥ fd.fatFileSize then (.ok [], fs, fd)
  else
    let count :=
      if count > fd.fatFileSize ∨ start > fd.fatFileSize - count then fd.fatFileSize - start
      else count
    if fd.isFat12OrFat16RootDir fs.vol.type then
      let sec := (clusterNumToSectorNum fs.vol fd.cln + start / 2 ^ fs.vol.secLog2) % 2 ^ 32
      match fs.blockRead count sec (start % fs.vol.bps) count with
      | (.error errno, fs) => (.error errno, fs, fd)
      | (.ok bytes, fs) => (.ok bytes, fs, fd)
    else
      let clStart := start / 2 ^ fs.vol.bpcLog2
      let ofs := start % fs.vol.bpc
      match fatFileLseek fs fd clStart with
      | (.error errno, fs, fd) => (.error errno, fs, fd)
      | (.ok curCln, fs, fd) =>
        match readLoop count fs curCln 0 ofs count with
        | (.error errno, fs) => (.error errno, fs, fd)
        | (.ok (bytes, saveCln), fs) =>
          let fileCln := (clStart + minus (ofs + count) 1 / 2 ^ fs.vol.bpcLog2) % 2 ^ 32
          (.ok bytes, fs, { fd with map := { fd.map with fileCln := fileCln, diskCln := saveCln } })

/-- The loop of `fat_file_write_fat32_or_non_root_dir`: the bytes that were written and the last
cluster that was. -/
def writeLoop : Nat → FsInfo → Nat → Nat → Nat → Nat → List UInt8 →
    Except Errno Unit × Nat × Nat × FsInfo
  | 0, fs, _, saveCln, _, cmpltd, _ => (.ok (), cmpltd, saveCln, fs)
  | fuel + 1, fs, curCln, saveCln, ofsCln, cmpltd, bytes =>
    if bytes.length = 0 then (.ok (), cmpltd, saveCln, fs)
    else
      let c := min bytes.length (fs.vol.bpc - ofsCln)
      match fs.clusterWrite curCln ofsCln (bytes.take c) with
      | (.error errno, fs) => (.error errno, cmpltd, saveCln, fs)
      | (.ok ret, fs) =>
        let rest := bytes.drop ret
        if 0 < rest.length then
          match fs.getFatCluster curCln with
          | (.error errno, fs) => (.error errno, cmpltd + ret, curCln, fs)
          | (.ok nextCln, fs) => writeLoop fuel fs nextCln curCln 0 (cmpltd + ret) rest
        else (.ok (), cmpltd + ret, curCln, fs)

/-- `fat_file_write_fat32_or_non_root_dir` -/
def fatFileWriteFat32OrNonRootDir (start : Nat) (bytes : List UInt8) : Except Errno Nat × FsInfo ×
    FileFd :=
  let startCln := start / 2 ^ fs.vol.bpcLog2
  let ofsCln := start - startCln * 2 ^ fs.vol.bpcLog2
  match fatFileLseek fs fd startCln with
  | (.error errno, fs, fd) => (.error errno, fs, fd)
  | (.ok curCln, fs, fd) =>
    let (rc, cmpltd, saveCln, fs) := writeLoop bytes.length fs curCln 0 ofsCln 0 bytes
    let fileCln := (startCln + minus (ofsCln + cmpltd) 1 / 2 ^ fs.vol.bpcLog2) % 2 ^ 32
    let fd := { fd with map := { fd.map with fileCln := fileCln, diskCln := saveCln } }
    match rc with
    | .error errno => (.error errno, fs, fd)
    | .ok _ => (.ok cmpltd, fs, fd)

/-- `fat_file_ioctl` for `F_CLU_NUM` -/
def fatFileIoctl (pos : Nat) : Except Errno Nat × FsInfo × FileFd :=
  if pos ≥ fd.fatFileSize then (.error .eio, fs, fd)
  else if fd.isFat12OrFat16RootDir fs.vol.type then (.ok 0, fs, fd)
  else fatFileLseek fs fd (pos / 2 ^ fs.vol.bpcLog2)

/-- The part of `fat_file_extend` that puts a new chain behind the file. -/
def linkChain (chain : Nat) : Except Errno Unit × FsInfo × FileFd :=
  if fd.fatFileSize = 0 then
    (.ok (), fs, { fd with cln := chain, map := { fd.map with diskCln := chain, fileCln := 0 } })
  else
    match
      if fd.map.lastCln ≠ undefinedValue then (.ok fd.map.lastCln, fs, fd)
      else fatFileIoctl fs fd (fd.fatFileSize - 1) with
    | (.error errno, fs, fd) => (.error errno, (fs.freeFatClustersChain chain).2, fd)
    | (.ok oldLastCl, fs, fd) =>
      match fs.setFatCluster oldLastCl chain with
      | (.error errno, fs) => (.error errno, (fs.freeFatClustersChain chain).2, fd)
      | (.ok _, fs) => (.ok (), fs.bufRelease.2, fd)

/-- The rest of the last cluster of a file. -/
def bytesRemain (vol : Volume) (size : Nat) : Nat := minus vol.bpc (size % vol.bpc) % vol.bpc

/-- The part of `fat_file_extend` that clears the rest of the last cluster. -/
def clearRest (remain : Nat) : Except Errno Unit × FsInfo × FileFd :=
  match fatFileLseek fs fd (fd.fatFileSize / 2 ^ fs.vol.bpcLog2) with
  | (.error errno, fs, fd) => (.error errno, fs, fd)
  | (.ok curCln, fs, fd) =>
    match fs.clusterSet curCln (fd.fatFileSize % fs.vol.bpc) remain 0 with
    | (.error errno, fs) => (.error errno, fs, fd)
    | (.ok written, fs) => (if remain ≠ written then .error .eio else .ok (), fs, fd)

/-- The part of `fat_file_extend` that allocates clusters: the new length. -/
def addClusters (zeroFill : Bool) (newLength remain bytes2add : Nat) : Except Errno Nat × FsInfo ×
    FileFd :=
  let cls2add := (bytes2add - 1) / 2 ^ fs.vol.bpcLog2 + 1
  match fs.scanFatForFreeClusters cls2add zeroFill with
  | (.error errno, fs) => (.error errno, fs, fd)
  | (.ok scan, fs) =>
    if scan.clsAdded = 0 ∧ remain = 0 then (.error .enospc, fs, fd)
    else
      let missing := minus cls2add scan.clsAdded * 2 ^ fs.vol.bpcLog2 % 2 ^ 32
      let newLength :=
        if cls2add ≠ scan.clsAdded then minus newLength (min bytes2add missing) else newLength
      if scan.clsAdded > 0 then
        match linkChain fs fd scan.chain with
        | (.error errno, fs, fd) => (.error errno, fs, fd)
        | (.ok _, fs, fd) =>
          let fd := { fd with map := { fd.map with lastCln := scan.saveCln } }
          match if fd.directory then fs.initClustersChain scan.chain else (.ok (), fs) with
          | (.error errno, fs) => (.error errno, (fs.freeFatClustersChain scan.chain).2, fd)
          | (.ok _, fs) => (.ok newLength, fs, { fd with fatFileSize := newLength })
      else (.ok newLength, fs, { fd with fatFileSize := newLength })

/-- `fat_file_extend`: the actual new length. -/
def fatFileExtend (zeroFill : Bool) (newLength : Nat) : Except Errno Nat × FsInfo × FileFd :=
  if newLength ≤ fd.fatFileSize then (.ok newLength, fs, fd)
  else if fd.isFat12OrFat16RootDir fs.vol.type then (.error .enospc, fs, fd)
  else
    let remain := bytesRemain fs.vol fd.fatFileSize
    let bytes2add := newLength - fd.fatFileSize - remain
    match
      if zeroFill = true ∧ remain > 0 then clearRest fs fd remain else (.ok (), fs, fd) with
    | (.error errno, fs, fd) => (.error errno, fs, fd)
    | (.ok _, fs, fd) =>
      if bytes2add = 0 then (.ok newLength, fs, fd)
      else addClusters fs fd zeroFill newLength remain bytes2add

/-- `fat_file_write` of bytes in memory: the count of the bytes that were written. -/
def fatFileWrite (start count : Nat) (buf : Content) : Except Errno Nat × FsInfo × FileFd :=
  let zeroFill := decide (start > fd.fatFileSize)
  if count = 0 then (.ok 0, fs, fd)
  else if start ≥ fd.sizeLimit then (.error .efbig, fs, fd)
  else
    let count := if count > fd.sizeLimit - start then fd.sizeLimit - start else count
    match fatFileExtend fs fd zeroFill ((start + count) % 2 ^ 32) with
    | (.error errno, fs, fd) => (.error errno, fs, fd)
    | (.ok c, fs, fd) =>
      let count := if c ≠ (start + count) % 2 ^ 32 then minus c start else count
      if fd.isFat12OrFat16RootDir fs.vol.type then
        let cln := (fd.cln + start / 2 ^ fs.vol.bpcLog2) % 2 ^ 32
        match fs.clusterWrite cln (start % fs.vol.bpc) (get buf 0 count) with
        | (.error errno, fs) => (.error errno, fs, fd)
        | (.ok ret, fs) => (.ok ret, fs, fd)
      else fatFileWriteFat32OrNonRootDir fs fd start (get buf 0 count)

/-- `fat_file_truncate` -/
def fatFileTruncate (newLength : Nat) : Except Errno Unit × FsInfo × FileFd :=
  if newLength ≥ fd.fatFileSize then (.ok (), fs, fd)
  else
    let clStart := minus (newLength + fs.vol.bpc) 1 / 2 ^ fs.vol.bpcLog2
    if clStart * 2 ^ fs.vol.bpcLog2 % 2 ^ 32 ≥ fd.fatFileSize then (.ok (), fs, fd)
    else
      match
        if clStart ≠ 0 then fatFileLseek fs fd (clStart - 1) else (.ok undefinedValue, fs, fd) with
      | (.error errno, fs, fd) => (.error errno, fs, fd)
      | (.ok newLastCln, fs, fd) =>
        match fatFileLseek fs fd clStart with
        | (.error errno, fs, fd) => (.error errno, fs, fd)
        | (.ok curCln, fs, fd) =>
          match fs.freeFatClustersChain curCln with
          | (.error errno, fs) => (.error errno, fs, fd)
          | (.ok _, fs) =>
            if clStart ≠ 0 then
              match fs.setFatCluster newLastCln genfatEoc with
              | (.error errno, fs) => (.error errno, fs, fd)
              | (.ok _, fs) =>
                (.ok (), fs,
                  { fd with
                    map := { fileCln := clStart - 1, diskCln := newLastCln, lastCln := newLastCln } })
            else
              (.ok (), fs,
                { fd with
                  cln := genfatFree
                  map :=
                    { fileCln := undefinedValue, diskCln := undefinedValue,
                      lastCln := undefinedValue } })

end FileFd

/-- The descriptor of the root directory that `msdos_initialize_support` opens, for FAT12 and FAT16. -/
def rootFd (vol : Volume) : FileFd :=
  { ofRootDir := true, directory := true, linksNum := 1, sizeLimit := msdosMaxDirLength
    fatFileSize := vol.rdirSize, cln := vol.rdirCl, removed := false
    map := { fileCln := 0, diskCln := vol.rdirCl, lastCln := undefinedValue } }

end Rtems.Dosfs
