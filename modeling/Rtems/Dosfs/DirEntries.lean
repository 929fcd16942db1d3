import Rtems.Dosfs.Keys

/-!
# The entries of directories

A directory is a sequence of entries of 32 bytes in the clusters of its chain; the root directory of FAT12 and FAT16
is in sectors of its own. A name takes one short entry, with a part of a long name in each of the entries in front of
it. Creation looks for a run of free entries. A new directory gets a cluster with the entries of itself and of its
parent. A rename creates another short entry with the contents of the old one, whose name it then deletes. The parent
of a directory is found by the cluster numbers in these entries.

Offsets are counted in entries. Files are those that were created here, without data.
-/

namespace Rtems.Dosfs.Tree

open Function (update)

/-- A name as a lookup compares it: converted, without blanks and in lower case. -/
abbrev Name := List UInt8

def dotName : Name := [46]
def dotdotName : Name := [46, 46]

/-- An entry: `MSDOS_THIS_DIR_ENTRY_AND_REST_EMPTY`, `MSDOS_THIS_DIR_ENTRY_EMPTY`, a part of a long name or a short
entry. A part of a long name has a unit of the name where a short entry has the upper half of its cluster number. -/
inductive Entry where
  | last
  | empty
  | long (unit : Nat)
  | short (name : Name) (directory : Bool) (cln : Nat)
deriving DecidableEq

/-- `MSDOS_EXTRACT_CLUSTER_NUM` -/
def Entry.clusterNum : Entry → Nat
  | short _ _ cln => cln
  | long unit => unit * 2 ^ 16
  | _ => 0

/-- The fields of the first cluster of an entry are written. -/
def Entry.setClusterNum (cln : Nat) : Entry → Entry
  | short name directory _ => short name directory cln
  | long _ => long (cln / 2 ^ 16)
  | entry => entry

/-- The descriptor of a directory: its first cluster, and `FAT_FD_OF_ROOT_DIR`. -/
structure DirFd where
  cln : Nat
  root : Bool

/-- The descriptor that a lookup opens for the directory with a first cluster. -/
def fdOf (vol : Volume) (cln : Nat) : DirFd := ⟨cln, decide (cln = vol.rdirCl)⟩

/-- A volume: its entries by their place in bytes, and the clusters that the table links from a first one on. -/
structure Disk where
  entries : Nat → Entry
  chain : Nat → List Nat

/-- Where an entry is. -/
def address (vol : Volume) (pos : Pos) : Nat := clusterNumToSectorNum vol pos.cln * vol.bps + pos.ofs

/-- `fat_is_fat12_or_fat16_root_dir` -/
def DirFd.fixed (vol : Volume) (fd : DirFd) : Bool := fd.root && decide (vol.type ≠ .fat32)

/-- `bts2rd`, the bytes of a block of the directory. -/
def bts2rd (vol : Volume) (fd : DirFd) : Nat := if fd.fixed vol then vol.rdirSize else vol.bpc

variable (vol : Volume) (disk : Disk)

variable (fd : DirFd)

/-- The clusters of a directory. Cluster 0 is the root directory of FAT12 and FAT16. -/
def clusters : List Nat := if fd.fixed vol then [0] else disk.chain fd.cln

/-- `fat_file_size` -/
def fileSize : Nat := (clusters vol disk fd).length * bts2rd vol fd

/-- The count of the entries. -/
def size : Nat := fileSize vol disk fd / 32

/-- The position of an entry: `F_CLU_NUM` of the start of its block, and its offset in the block. -/
def place (i : Nat) : Pos where
  cln := ((clusters vol disk fd)[32 * i / bts2rd vol fd]?).getD 0
  ofs := 32 * i % bts2rd vol fd

/-- An entry as the blocks of the directory are read. -/
def entryAt (i : Nat) : Entry := disk.entries (address vol (place vol disk fd i))

/-- The search for an entry, up to the end mark. -/
def search (wanted : Entry → Bool) (entry : Nat → Entry) : Nat → Nat → Option Nat
  | 0, _ => none
  | left + 1, i =>
    match entry i with
    | .last => none
    | .empty => search wanted entry left (i + 1)
    | found => if wanted found then some i else search wanted entry left (i + 1)

/-- A short entry with a name. -/
def named (name : Name) : Entry → Bool
  | .short other _ _ => decide (other = name)
  | _ => false

/-- `msdos_find_name_in_fat_file` for a name that is short and not created. -/
def findNameInFatFile (name : Name) : Option Nat :=
  search (named name) (entryAt vol disk fd) (size vol disk fd) 0

/-- `msdos_find_node_by_cluster_num_in_fat_file` -/
def findNodeByClusterNum (cl4find : Nat) : Option Pos :=
  (search (fun entry => decide (entry.clusterNum = cl4find)) (entryAt vol disk fd) (size vol disk fd) 0).map
    (place vol disk fd)

/-- `msdos_get_dotdot_dir_info_cluster_num_and_offset` -/
def getDotdotDirInfo (cln : Nat) : Option Pos :=
  let fd : DirFd := ⟨cln, false⟩
  match findNameInFatFile vol disk fd dotName, findNameInFatFile vol disk fd dotdotName with
  | some dot, some dotdot =>
    let cl4find := (entryAt vol disk fd dot).clusterNum
    let above := (entryAt vol disk fd dotdot).clusterNum
    if above = 0 then findNodeByClusterNum vol disk ⟨vol.rdirCl, true⟩ cl4find
    else findNodeByClusterNum vol disk ⟨above, false⟩ cl4find
  | _, _ => none

/-- The position of the root directory, which has no entry. -/
def rootPos : Pos := ⟨1, 0⟩

/-- `msdos_get_name_node` for the name of the parent. -/
def getDotdotNode : Option Pos :=
  match findNameInFatFile vol disk fd dotdotName with
  | some dotdot =>
    let cln := (entryAt vol disk fd dotdot).clusterNum
    if cln = 0 then some rootPos else getDotdotDirInfo vol disk cln
  | none => none

/-- The search of `msdos_find_file_in_directory` for free entries: where they begin and how many they are. The name
is taken not to be found. -/
def findEmpty (perBlock need : Nat) (entry : Nat → Entry) : Nat → Nat → Nat → Nat → Bool → Nat × Nat
  | 0, _, offset, count, _ => (offset, count)
  | left + 1, i, offset, count, found =>
    let offset := if count = 0 then i else offset
    match entry i with
    | .last => if found then (offset, count) else (offset, count + (perBlock - i % perBlock))
    | .empty => findEmpty perBlock need entry left (i + 1) offset (count + 1) (found || decide (count + 1 = need))
    | _ =>
      if found then findEmpty perBlock need entry left (i + 1) offset count true
      else findEmpty perBlock need entry left (i + 1) 0 0 false

/-- The free entries for a name: where they begin and how many they are. -/
def freeEntries (need : Nat) : Nat × Nat :=
  findEmpty (bts2rd vol fd / 32) need (entryAt vol disk fd) (size vol disk fd) 0 0 0 false

/-- `empty_file_offset` of `msdos_add_file`. Too few free entries are taken to be the last ones. -/
def emptyOffset (need : Nat) : Nat :=
  if (freeEntries vol disk fd need).2 < need then size vol disk fd - (freeEntries vol disk fd need).2
  else (freeEntries vol disk fd need).1

/-- Entries are written from an index on. -/
def writeAll (spot : Nat → Nat) : List Entry → Nat → (Nat → Entry) → Nat → Entry
  | [], _, entries => entries
  | entry :: rest, i, entries => writeAll spot rest (i + 1) (update entries (spot i) entry)

/-- A cluster is filled with zeros. -/
def zeroCluster (vol : Volume) (cln : Nat) (entries : Nat → Entry) : Nat → Entry := fun byte =>
  if address vol ⟨cln, 0⟩ ≤ byte ∧ byte < address vol ⟨cln, 0⟩ + vol.bpc then .last else entries byte

/-- A cluster of the volume that no chain has. -/
def Free (cln : Nat) : Prop :=
  2 ≤ cln ∧ cln < vol.dataCls + 2 ∧ ∀ first < vol.dataCls + 2, cln ∉ disk.chain first

instance (vol : Volume) (disk : Disk) (cln : Nat) : Decidable (Free vol disk cln) :=
  inferInstanceAs (Decidable (_ ∧ _))

/-- A cluster is added to a chain and filled with zeros. -/
def link (first cln : Nat) : Disk where
  entries := zeroCluster vol cln disk.entries
  chain := update disk.chain first (disk.chain first ++ [cln])

/-- `fat_file_extend` of a directory by a cluster that was found free. -/
def extend (grown : Nat) : Option Disk :=
  if fd.fixed vol then none
  else if Free vol disk grown then some (link vol disk fd.cln grown)
  else none

/-- `msdos_get_pos` -/
def getPos (i : Nat) : Option Pos :=
  if i < size vol disk fd then
    some ⟨(place vol disk fd i).cln, (32 * i) &&& (bts2rd vol fd - 1)⟩
  else none

/-- Where `fat_file_write` puts the entries of a write from an offset on. For the root directory of FAT12 and FAT16 a
cluster number is computed from the offset. -/
def written (offset i : Nat) : Nat :=
  if fd.fixed vol then
    address vol ⟨fd.cln + 32 * offset / vol.bpc, 32 * offset % vol.bpc⟩ + 32 * (i - offset)
  else address vol (place vol disk fd i)

/-- The end of `msdos_add_file`: the position of the short entry, and the entries written. The write to the root
directory of FAT12 and FAT16 ends with the cluster, and directories end at `MSDOS_MAX_DIR_LENGTH`. -/
def writeEntries (offset : Nat) (units : List Nat) (entry : Entry) : Option (Pos × Disk) :=
  match getPos vol disk fd (offset + units.length) with
  | none => none
  | some pos =>
    if 0x200000 < 32 * (offset + units.length + 1) then none
    else if fd.fixed vol = true ∧ vol.bpc < 32 * offset % vol.bpc + 32 * (units.length + 1) then none
    else some (pos, { disk with
      entries := writeAll (written vol disk fd offset) (units.map .long ++ [entry]) offset disk.entries })

/-- `msdos_add_file`, behind the search for free entries. A cluster is added if they are too few. -/
def addFile (units : List Nat) (entry : Entry) (grown : Nat) : Option (Pos × Disk) :=
  let offset := emptyOffset vol disk fd (units.length + 1)
  if (freeEntries vol disk fd (units.length + 1)).2 < units.length + 1 then
    match extend vol disk fd grown with
    | none => none
    | some larger => writeEntries vol larger fd offset units entry
  else writeEntries vol disk fd offset units entry

/-- What is created: a file, a directory with a cluster that was found free, or the "hard link" of a rename. -/
inductive NodeType where
  | file
  | directory (fresh : Nat)
  | hardLink (pos : Pos)

/-- The short entry of a new node. -/
def shortNode (name : Name) : NodeType → Option Entry
  | .file => some (.short name false 0)
  | .directory _ => some (.short name true 0)
  | .hardLink pos =>
    match disk.entries (address vol pos) with
    | .short _ directory cln => some (.short name directory cln)
    | _ => none

/-- The cluster number in the entry of the parent. -/
def parentNum (vol : Volume) (parent : DirFd) : Nat :=
  if parent.root = true ∧ vol.type = .fat32 then 0 else parent.cln

/-- The end of `msdos_creat_node` for a directory. -/
def makeDirectory (parent : DirFd) (pos : Pos) (fresh : Nat) : Option Disk :=
  if Free vol disk fresh then
    let disk := link vol disk fresh fresh
    let entries := update disk.entries (address vol ⟨fresh, 0⟩) (.short dotName true fresh)
    let entries := update entries (address vol ⟨fresh, 32⟩)
      (.short dotdotName true (parentNum vol parent))
    some { disk with
      entries := update entries (address vol pos) ((entries (address vol pos)).setClusterNum fresh) }
  else none

/-- `msdos_creat_node` -/
def creatNode (parent : DirFd) (type : NodeType) (name : Name) (units : List Nat) (grown : Nat) :
    Option Disk :=
  match shortNode vol disk name type with
  | none => none
  | some entry =>
    match addFile vol disk parent units entry grown with
    | none => none
    | some (pos, disk) =>
      match type with
      | .directory fresh => makeDirectory vol disk parent pos fresh
      | _ => some disk

/-- A node as a lookup finds it: the directory, the first entry of its name and its short entry. -/
structure Node where
  dir : Nat
  first : Nat
  idx : Nat
deriving DecidableEq

/-- `msdos_set_first_char4file_name` with the character of an empty entry. -/
def setFirstChar (node : Node) : Disk :=
  { disk with
    entries := writeAll (fun i => address vol (place vol disk (fdOf vol node.dir) i))
      (List.replicate (node.idx + 1 - node.first) .empty) node.first disk.entries }

/-- `msdos_dir_is_empty` -/
def dirIsEmpty (entry : Nat → Entry) : Nat → Nat → Bool
  | 0, _ => true
  | left + 1, i =>
    match entry i with
    | .last => true
    | .short name _ _ => if name = dotName ∨ name = dotdotName then dirIsEmpty entry left (i + 1) else false
    | _ => dirIsEmpty entry left (i + 1)

/-- The close of a removed file frees its clusters. -/
def release (disk : Disk) (cln : Nat) : Disk := { disk with chain := update disk.chain cln [] }

/-- `msdos_rmnod` and the close of the node. The directory is not open. -/
def rmnod (node : Node) : Option Disk :=
  match entryAt vol disk (fdOf vol node.dir) node.idx with
  | .short _ directory cln =>
    let fd : DirFd := ⟨cln, false⟩
    if directory = true ∧ dirIsEmpty (entryAt vol disk fd) (size vol disk fd) 0 = false then none
    else some (release (setFirstChar vol disk node) cln)
  | _ => none

/-- `msdos_rename` -/
def rename (node : Node) (parent : DirFd) (name : Name) (units : List Nat) (grown : Nat) : Option
    Disk :=
  (creatNode vol disk parent (.hardLink (place vol disk (fdOf vol node.dir) node.idx)) name units grown).map
    fun disk => setFirstChar vol disk node

/-- The operations on directories with given first clusters. -/
inductive Op where
  | mknod (parent : Nat) (name : Name) (units : List Nat) (grown : Nat)
  | mkdir (parent : Nat) (name : Name) (units : List Nat) (grown fresh : Nat)
  | rmnod (node : Node)
  | rename (node : Node) (parent : Nat) (name : Name) (units : List Nat) (grown : Nat)

/-- An operation that succeeds. -/
def step : Op → Option Disk
  | .mknod parent name units grown => creatNode vol disk (fdOf vol parent) .file name units grown
  | .mkdir parent name units grown fresh => creatNode vol disk (fdOf vol parent) (.directory fresh) name units grown
  | .rmnod node => rmnod vol disk node
  | .rename node parent name units grown => rename vol disk node (fdOf vol parent) name units grown

end Rtems.Dosfs.Tree
