import Rtems.Dosfs.Contents
import Rtems.Dosfs.Table

/-!
# The entries of the table

If the volume fits on its device and the table has room for all clusters, reading and setting an
entry are those of an array. Setting an entry changes no data.
-/

namespace Rtems.Dosfs

open ByteRange FsInfo
open Function (update update_of_ne update_self)
open Nat (mod_eq_of_lt mod_lt succ_mul)

/-- The bytes of an entry. -/
def FatType.entrySize : FatType → Nat
  | fat12 => 2
  | fat16 => 2
  | fat32 => 4

/-- A volume that fits on its device and has an entry for each cluster. -/
structure Laid (vol : Volume) (device : Device) : Prop extends Mounted vol device where
  fits : (vol.fatLoc + vol.fats * vol.fatLength + vol.rdirSecs + vol.dataCls * vol.spc) * vol.bps ≤
    device.blockCount * vol.bytesPerBlock
  active : vol.afat < vol.fats
  room : fatOffset vol.type (vol.dataCls + 1) + vol.type.entrySize ≤ vol.fatLength * vol.bps
  numbers : vol.dataCls + 1 < vol.type.eocVal

/-- The number of a cluster of the volume. -/
def Valid (vol : Volume) (cln : Nat) : Prop := 2 ≤ cln ∧ cln ≤ vol.dataCls + 1
deriving Decidable

/-- Where a cluster is. -/
def clusterPlace (vol : Volume) (cln : Nat) : Nat :=
  (vol.dataFsec + (cln - rsrvdCln) * vol.spc) * vol.bps

/-- Where the entry of a cluster is. -/
def entryPlace (vol : Volume) (cln : Nat) : Nat := vol.afatLoc * vol.bps + fatOffset vol.type cln

/-- The entry of a cluster in the contents of a volume. -/
def entryIn (vol : Volume) (contents : Content) (cln : Nat) : Nat :=
  match vol.type with
  | .fat12 => entry12 cln (contents (entryPlace vol cln)) (contents (entryPlace vol cln + 1))
  | .fat16 => getVal contents (entryPlace vol cln) 2
  | .fat32 => getVal contents (entryPlace vol cln) 4

/-- The value that an entry has after a value is set. -/
def storedEntry (type : FatType) (old value : Nat) : Nat :=
  match type with
  | .fat12 => value % 2 ^ 12
  | .fat16 => value % 2 ^ 16
  | .fat32 => old / 2 ^ 28 * 2 ^ 28 + value % 2 ^ 28

/-- The entries of the clusters, their bytes and the count of the free ones. -/
structure Clusters where
  table : Nat → Nat
  data : Nat → Nat → UInt8
  freeCls : Nat

namespace FsInfo

/-- The entries of the clusters. -/
def table (fs : FsInfo) (cln : Nat) : Nat :=
  if Valid fs.vol cln then entryIn fs.vol fs.volume cln else genfatFree

/-- The bytes of the clusters. -/
def data (fs : FsInfo) (cln ofs : Nat) : UInt8 :=
  if Valid fs.vol cln ∧ ofs < fs.vol.bpc then fs.volume (clusterPlace fs.vol cln + ofs) else 0

/-- The clusters of a file system. -/
def clusters (fs : FsInfo) : Clusters :=
  { table := fs.table, data := fs.data, freeCls := fs.freeCls }

/-- A file system that was mounted from such a volume. -/
structure Ready (fs : FsInfo) : Prop extends Laid fs.vol fs.device, Coherent fs where
  home : Home fs
  nextWord : fs.nextCl < 2 ^ 32

/-- An operation that succeeds and leaves the clusters in a state. -/
structure Becomes (before after : FsInfo) (state : Clusters) : Prop where
  ready : Ready after
  vol : after.vol = before.vol
  device : after.device = before.device
  clusters : after.clusters = state

theorem Becomes.trans {first second third : FsInfo} {between st : Clusters}
    (left : Becomes first second between) (right : Becomes second third st) :
    Becomes first third st :=
  ⟨right.ready, right.vol.trans left.vol, right.device.trans left.device, right.clusters⟩

end FsInfo

variable {vol : Volume} {dev : Device} {fs after : FsInfo} {cln : Nat}

theorem FsInfo.Ready.next (ready : Ready fs) (still : Still fs after) (coherent : Coherent after) :
    Ready after :=
  { toLaid := by
      rw [still.vol, still.device]
      exact ready.toLaid
    toCoherent := coherent
    home := still.home ready.home
    nextWord := still.nextCl.symm ▸ ready.nextWord }

variable {sec : Nat}

namespace Laid

variable (laid : Laid vol dev)
include laid

/-- The regions of the volume do not pass the last sector number. -/
theorem sectors_lt :
    vol.fatLoc + vol.fats * vol.fatLength + vol.rdirSecs + vol.dataCls * vol.spc < 2 ^ 32 := by
  have fits := laid.fits
  rw [laid.bytesPerBlock_eq, ← Nat.mul_assoc] at fits
  exact (Nat.le_of_mul_le_mul_right fits laid.bps_pos).trans_lt laid.sectors

/-- The numbers of the clusters have 28 bits. -/
theorem dataCls_lt : vol.dataCls < 2 ^ 28 := by
  have typed := laid.typed
  rw [typeOf, fat12MaxCln, fat16MaxCln, FatType.mask] at typed
  by_contra far
  rw [if_neg (by omega), if_neg (by omega), if_neg (by omega)] at typed
  cases typed

theorem rdirLoc_eq : vol.rdirLoc = vol.fatLoc + vol.fats * vol.fatLength := by
  have bounded := laid.sectors_lt
  rw [laid.fatEnd, mod_eq_of_lt (by omega)]

theorem dataFsec_eq : vol.dataFsec = vol.rdirLoc + vol.rdirSecs := by
  have bounded := laid.sectors_lt
  have location := laid.rdirLoc_eq
  rw [laid.dataFsec, mod_eq_of_lt (by omega)]

/-- The active table. -/
theorem afatLoc_eq : vol.afatLoc = vol.fatLoc + vol.afat * vol.fatLength ∧
    vol.afatLoc + vol.fatLength ≤ vol.rdirLoc := by
  have bounded := laid.sectors_lt
  have location := laid.rdirLoc_eq
  have product := Nat.mul_le_mul_right vol.fatLength (Nat.succ_le_of_lt laid.active)
  rw [succ_mul] at product
  rw [laid.afatLoc, Nat.mul_comm vol.fatLength, mod_eq_of_lt (by omega)]
  exact ⟨rfl, by omega⟩

/-- The data of the volume are behind the tables and on the device. -/
theorem extent_le (inside : sec ≤ vol.dataFsec + vol.dataCls * vol.spc) :
    sec * vol.bps ≤ dev.blockCount * vol.bytesPerBlock := by
  have location := laid.rdirLoc_eq
  have data := laid.dataFsec_eq
  exact (Nat.mul_le_mul_right _ (by omega)).trans laid.fits

/-- The entry of a cluster lies in the active table. -/
theorem entry_inside (valid : Valid vol cln) :
    fatOffset vol.type cln + vol.type.entrySize ≤ vol.fatLength * vol.bps := by
  have room := laid.room
  have bounded := valid.2
  cases type : vol.type <;> simp only [type, fatOffset, FatType.entrySize] at room ⊢ <;> omega

theorem table_sector (before : sec < vol.afatLoc + vol.fatLength) :
    sec < 2 ^ 32 ∧ sectorNumToBlockNum vol sec < dev.blockCount := by
  have active := laid.afatLoc_eq
  have bounded := laid.sectors_lt
  have location := laid.rdirLoc_eq
  have fits := laid.fits
  rw [laid.bytesPerBlock_eq, ← Nat.mul_assoc] at fits
  have most := Nat.le_of_mul_le_mul_right fits laid.bps_pos
  refine ⟨by omega, Nat.div_lt_of_lt_mul ?_⟩
  rw [Nat.mul_comm]
  omega

/-- The copies of a sector of the active table leave the active table and the data alone. -/
theorem apart {place : Nat} (behind : vol.afatLoc ≤ sec)
    (before : sec < vol.afatLoc + vol.fatLength)
    (kept : vol.afatLoc * vol.bps ≤ place ∧ place < (vol.afatLoc + vol.fatLength) * vol.bps ∨
      vol.rdirLoc * vol.bps ≤ place) : Apart vol sec place := by
  rintro ⟨_, _, mirror⟩ num index least most inside found
  have active := laid.afatLoc_eq
  have bounded := laid.sectors_lt
  have location := laid.rdirLoc_eq
  have first := laid.afat mirror
  rw [first, Nat.zero_mul] at active
  have low := Nat.mul_le_mul_right vol.fatLength least
  have high := Nat.mul_le_mul_right vol.fatLength (Nat.succ_le_of_lt most)
  rw [succ_mul] at high
  rw [Nat.mul_comm vol.fatLength, mod_eq_of_lt (by omega)] at found
  have far := Nat.mul_le_mul_right vol.bps
    (by omega : vol.afatLoc + vol.fatLength ≤ sec + num * vol.fatLength)
  have near := Nat.mul_le_mul_right vol.bps (by omega : sec + num * vol.fatLength + 1 ≤ vol.rdirLoc)
  rw [succ_mul] at near
  omega

end Laid

theorem entryPlace_eq (laid : Laid vol dev) (valid : Valid vol cln) :
    entrySector vol cln * vol.bps + entryOffset vol cln = entryPlace vol cln ∧
      vol.afatLoc ≤ entrySector vol cln ∧
      entrySector vol cln < vol.afatLoc + vol.fatLength ∧ entryOffset vol cln < vol.bps := by
  have active := laid.afatLoc_eq
  have bounded := laid.sectors_lt
  have location := laid.rdirLoc_eq
  have inside := laid.entry_inside valid
  have positive := laid.bps_pos
  have some : 0 < vol.type.entrySize := by cases vol.type <;> decide
  have sector : fatOffset vol.type cln / vol.bps < vol.fatLength :=
    Nat.div_lt_of_lt_mul (by rw [Nat.mul_comm]; omega)
  have split := Nat.div_add_mod' (fatOffset vol.type cln) vol.bps
  have num : entrySector vol cln = fatOffset vol.type cln / vol.bps + vol.afatLoc := by
    rw [entrySector, ← laid.bps, mod_eq_of_lt (by omega)]
  have rest := mod_lt (fatOffset vol.type cln) positive
  rw [num, entryOffset, entryPlace, Nat.add_mul]
  generalize fatOffset vol.type cln / vol.bps = quotient at sector split ⊢
  exact ⟨by omega, by omega, by omega, rest⟩

/-- Entries of 16 and 32 bits do not reach into the next sector. -/
theorem entry_sector_end (sized : vol.Sized) (cln : Nat) :
    (vol.type = .fat16 → entryOffset vol cln + 2 ≤ vol.bps) ∧
      (vol.type = .fat32 → entryOffset vol cln + 4 ≤ vol.bps) := by
  obtain ⟨k, large⟩ : ∃ k, vol.secLog2 = k + 2 := ⟨vol.secLog2 - 2, by have := sized.single; omega⟩
  have bps : vol.bps = 2 ^ k * 4 := by rw [sized.bps, large, Nat.pow_add]
  have positive := Nat.two_pow_pos k
  constructor
  · intro type
    rw [entryOffset, type, fatOffset, bps]
    have even : cln * 2 % (2 ^ k * 4) = cln % (2 ^ k * 2) * 2 := by
      rw [← Nat.mul_mod_mul_right]
      congr 1
      omega
    have bounded := mod_lt cln (by omega : 0 < 2 ^ k * 2)
    omega
  · intro type
    rw [entryOffset, type, fatOffset, bps, Nat.mul_mod_mul_right]
    omega

/-- The second byte of an entry of 12 bits at the end of a sector. -/
theorem next_sector (laid : Laid vol dev) (valid : Valid vol cln) (type : vol.type = .fat12)
    (last : entryOffset vol cln = vol.bps - 1) :
    entrySector vol cln + 1 < vol.afatLoc + vol.fatLength ∧
      (entrySector vol cln + 1) * vol.bps = entryPlace vol cln + 1 := by
  obtain ⟨place, _, _, _⟩ := entryPlace_eq laid valid
  have inside := laid.entry_inside valid
  rw [type, FatType.entrySize, ← type] at inside
  rw [entryPlace] at place ⊢
  constructor
  · by_contra far
    have product := Nat.mul_le_mul_right vol.bps (Nat.not_lt.mp far)
    rw [Nat.add_mul, succ_mul] at product
    omega
  · rw [succ_mul]
    omega

/-- An entry is read from the active table. -/
theorem getFatCluster_spec (ready : Ready fs) (valid : Valid fs.vol cln) :
    ∃ after, fs.getFatCluster cln = (.ok (fs.table cln), after) ∧ after.volume = fs.volume ∧
      Ready after ∧ Still fs after := by
  obtain ⟨place, behind, before, inside⟩ := entryPlace_eq ready.toLaid valid
  obtain ⟨word, there⟩ := ready.table_sector before
  obtain ⟨after, access, contents, coherent, same, buffered⟩ :=
    access_read ready.toSized ready.toCoherent word there
  have sane : ¬ fs.insane cln := by
    have bounds := valid
    rw [insane]
    rw [Valid] at bounds
    omega
  have vol : after.vol = fs.vol := same.vol
  have read : fs.table cln = entryIn fs.vol fs.volume cln := if_pos valid
  rw [getFatCluster, if_neg sane, read]
  dsimp only
  rw [access]
  dsimp only
  rw [vol]
  have ends := entry_sector_end ready.toSized cln
  have bytes : ∀ size, entryOffset fs.vol cln + size ≤ fs.vol.bps →
      getVal after.c.buf (sectorOffsetToBlockOffset fs.vol (entrySector fs.vol cln) 0 +
        entryOffset fs.vol cln) size = getVal fs.volume (entryPlace fs.vol cln) size := by
    intro size fits
    refine congrArg LittleEndian.read (List.map_congr_left ?_)
    intro index member
    have bounded := List.mem_range.mp member
    rw [Nat.add_assoc, buffered _ (by omega), ← place, Nat.add_assoc]
  cases type : fs.vol.type with
  | fat16 =>
    refine ⟨after, ?_, contents, ready.next same coherent, same⟩
    rw [entryIn, type]
    rw [bytes 2 (ends.1 type)]
  | fat32 =>
    refine ⟨after, ?_, contents, ready.next same coherent, same⟩
    rw [entryIn, type]
    rw [bytes 4 (ends.2 type)]
  | fat12 =>
    dsimp only
    have first := buffered _ inside
    rw [place] at first
    split
    case isFalse within =>
      refine ⟨after, ?_, contents, ready.next same coherent, same⟩
      have second := buffered (entryOffset fs.vol cln + 1) (by omega)
      rw [← Nat.add_assoc, ← Nat.add_assoc, place] at second
      rw [entryIn, type, first, second]
    case isTrue last =>
      obtain ⟨further, nextPlace⟩ := next_sector ready.toLaid valid type last
      obtain ⟨nextWord, nextThere⟩ := ready.table_sector further
      obtain ⟨final, nextAccess, unchanged, finished, kept, next⟩ := access_read
        (vol.symm ▸ ready.toSized) coherent nextWord (by rw [vol, same.device]; exact nextThere)
      refine ⟨final, ?_, unchanged.trans contents, ready.next (same.trans kept) finished,
        same.trans kept⟩
      have second := next 0 (by rw [vol]; exact ready.bps_pos)
      rw [vol, contents, Nat.add_zero, Nat.add_zero, nextPlace] at second
      rw [vol] at nextAccess
      rw [mod_eq_of_lt nextWord, nextAccess, entryIn, type, first]
      dsimp only
      rw [second]

/-- The bytes of an entry after a value is set. -/
def entryBytes (vol : Volume) (contents : Content) (cln value : Nat) : List UInt8 :=
  match vol.type with
  | .fat12 =>
    [first12 cln value (contents (entryPlace vol cln)),
      second12 cln value (contents (entryPlace vol cln + 1))]
  | .fat16 => LittleEndian.number 2 value
  | .fat32 =>
    LittleEndian.number 4
      (getVal contents (entryPlace vol cln) 4 / 2 ^ 28 * 2 ^ 28 + value % 2 ^ 28)

/-- Two changes of the buffer that follow each other. -/
theorem modify_modify (fs : FsInfo) (place : Nat) (first second : List UInt8) :
    (fs.modify place first).modify (place + first.length) second = fs.modify place (first ++ second) := by
  rw [FsInfo.modify, FsInfo.modify, FsInfo.modify, put_append]

/-- A place in the active table or behind the tables. -/
def Kept (vol : Volume) (place : Nat) : Prop :=
  vol.afatLoc * vol.bps ≤ place ∧ place < (vol.afatLoc + vol.fatLength) * vol.bps ∨
    vol.rdirLoc * vol.bps ≤ place

/-- A part of a sector of the active table is changed. -/
theorem table_modify (ready : Ready fs) (ofs : Nat) (bytes : List UInt8)
    (behind : fs.vol.afatLoc ≤ sec) (before : sec < fs.vol.afatLoc + fs.vol.fatLength)
    (inside : ofs + bytes.length ≤ fs.vol.bps)
    (access : fs.bufAccess sec .read = (.ok (sectorOffsetToBlockOffset fs.vol sec 0), after)) :
    Ready (after.modify (sectorOffsetToBlockOffset fs.vol sec 0 + ofs) bytes) ∧
      Still fs (after.modify (sectorOffsetToBlockOffset fs.vol sec 0 + ofs) bytes) ∧
      ∀ place, Kept fs.vol place →
        (after.modify (sectorOffsetToBlockOffset fs.vol sec 0 + ofs) bytes).volume place =
          put fs.volume (sec * fs.vol.bps + ofs) bytes place := by
  obtain ⟨word, _⟩ := ready.table_sector before
  have bounded := ready.toSized.offset_le word
  obtain ⟨_, coherent, unchanged⟩ := coherent_modify ready.toCoherent word access
    (sectorOffsetToBlockOffset fs.vol sec 0 + ofs) bytes
  obtain ⟨_, blkNum, _⟩ := bufAccess_buffer ready.toCoherent word access
  have same : Still fs (after.modify (sectorOffsetToBlockOffset fs.vol sec 0 + ofs) bytes) := by
    refine ⟨unchanged, fun _ _ _ mirrored => ?_⟩
    have num : (after.modify (sectorOffsetToBlockOffset fs.vol sec 0 + ofs) bytes).c.blkNum =
      sec := blkNum
    rw [num, unchanged.vol] at mirrored ⊢
    have first := ready.afatLoc_eq.1
    rw [ready.afat mirrored.2.2, Nat.zero_mul] at first
    omega
  refine ⟨ready.next same coherent, same, fun place kept => ?_⟩
  exact volume_modify_apart ready.toSized ready.toCoherent word access (by omega) (by rintro ⟨⟩)
    (ready.apart behind before kept)

/-- An entry is set in the active table, and nothing else there or behind the tables changes. -/
theorem setFatCluster_spec (ready : Ready fs) (valid : Valid fs.vol cln) (value : Nat) :
    ∃ after, fs.setFatCluster cln value = (.ok (), after) ∧ Ready after ∧ Still fs after ∧
      ∀ place, Kept fs.vol place → after.volume place =
          put fs.volume (entryPlace fs.vol cln) (entryBytes fs.vol fs.volume cln value) place := by
  obtain ⟨place, behind, before, inside⟩ := entryPlace_eq ready.toLaid valid
  obtain ⟨word, there⟩ := ready.table_sector before
  obtain ⟨middle, access, contents, coherent, same, buffered⟩ :=
    access_read ready.toSized ready.toCoherent word there
  have sane : ¬ fs.insane cln := by
    have bounds := valid
    rw [insane]
    rw [Valid] at bounds
    omega
  have vol : middle.vol = fs.vol := same.vol
  have ends := entry_sector_end ready.toSized cln
  rw [setFatCluster, if_neg sane]
  dsimp only
  rw [access]
  dsimp only
  rw [vol]
  rw [entryBytes]
  cases type : fs.vol.type with
  | fat16 =>
    obtain ⟨finished, still, changed⟩ := table_modify ready (entryOffset fs.vol cln)
      (LittleEndian.number 2 value) behind before
      (by rw [LittleEndian.length_number]; exact ends.1 type) access
    exact ⟨_, rfl, finished, still, fun tested kept => place ▸ changed tested kept⟩
  | fat32 =>
    have bytes : getVal middle.c.buf (sectorOffsetToBlockOffset fs.vol (entrySector fs.vol cln) 0 +
        entryOffset fs.vol cln) 4 = getVal fs.volume (entryPlace fs.vol cln) 4 := by
      refine congrArg LittleEndian.read (List.map_congr_left ?_)
      intro index member
      have bounded := List.mem_range.mp member
      have fits := ends.2 type
      rw [Nat.add_assoc, buffered _ (by omega), ← place, Nat.add_assoc]
    rw [bytes]
    generalize getVal fs.volume (entryPlace fs.vol cln) 4 / 2 ^ 28 * 2 ^ 28 + value % 2 ^ 28 = combined
    obtain ⟨finished, still, changed⟩ := table_modify ready (entryOffset fs.vol cln)
      (LittleEndian.number 4 combined) behind before
      (by rw [LittleEndian.length_number]; exact ends.2 type) access
    exact ⟨_, rfl, finished, still, fun tested kept => place ▸ changed tested kept⟩
  | fat12 =>
    have first := buffered _ inside
    rw [place] at first
    dsimp only
    rw [first]
    have modified : ∀ bytes, (middle.modify (sectorOffsetToBlockOffset fs.vol
        (entrySector fs.vol cln) 0 + entryOffset fs.vol cln) bytes).vol = fs.vol := fun _ => vol
    rw [modified]
    split
    case isFalse within =>
      have second := buffered (entryOffset fs.vol cln + 1) (by omega)
      rw [← Nat.add_assoc, ← Nat.add_assoc, place] at second
      have untouched : (middle.modify (sectorOffsetToBlockOffset fs.vol (entrySector fs.vol cln) 0 +
          entryOffset fs.vol cln) [first12 cln value (fs.volume (entryPlace fs.vol cln))]).c.buf
            (sectorOffsetToBlockOffset fs.vol (entrySector fs.vol cln) 0 +
              entryOffset fs.vol cln + 1) = fs.volume (entryPlace fs.vol cln + 1) :=
        (put_outside (by simp)).trans second
      obtain ⟨finished, still, changed⟩ := table_modify ready (entryOffset fs.vol cln)
        [first12 cln value (fs.volume (entryPlace fs.vol cln)),
          second12 cln value (fs.volume (entryPlace fs.vol cln + 1))] behind before
        (by simp; omega) access
      rw [untouched]
      refine ⟨_, congrArg (fun fs => (Except.ok (), fs)) ?_, finished, still,
        fun tested kept => place ▸ changed tested kept⟩
      exact modify_modify middle _ [_] [_]
    case isTrue last =>
      obtain ⟨further, nextPlace⟩ := next_sector ready.toLaid valid type last
      obtain ⟨nextWord, nextThere⟩ := ready.table_sector further
      obtain ⟨finished, still, changed⟩ := table_modify ready (entryOffset fs.vol cln)
        [first12 cln value (fs.volume (entryPlace fs.vol cln))] behind before
        (by simp; omega) access
      generalize middle.modify (sectorOffsetToBlockOffset fs.vol (entrySector fs.vol cln) 0 +
        entryOffset fs.vol cln) [first12 cln value (fs.volume (entryPlace fs.vol cln))] = between
        at finished still changed
      obtain ⟨final, nextAccess, _, _, _, next⟩ := access_read finished.toSized
        finished.toCoherent nextWord (by rw [still.vol, still.device]; exact nextThere)
      rw [still.vol] at nextAccess next
      have reached : Kept fs.vol (entryPlace fs.vol cln + 1) := by
        have product := Nat.mul_lt_mul_of_pos_right further ready.bps_pos
        have low := Nat.mul_le_mul_right fs.vol.bps behind
        rw [Kept]
        omega
      have second : final.c.buf (sectorOffsetToBlockOffset fs.vol (entrySector fs.vol cln + 1) 0) =
          fs.volume (entryPlace fs.vol cln + 1) := by
        have read := next 0 ready.bps_pos
        rw [Nat.add_zero, Nat.add_zero, nextPlace, changed _ reached, place,
          put_outside (by simp)] at read
        exact read
      obtain ⟨done, kept', stored⟩ := table_modify finished 0
        [second12 cln value (fs.volume (entryPlace fs.vol cln + 1))]
        (by rw [still.vol]; omega : between.vol.afatLoc ≤ entrySector fs.vol cln + 1)
        (by rw [still.vol]; exact further) (by rw [still.vol]; exact ready.bps_pos)
        (by rw [still.vol]; exact nextAccess)
      rw [still.vol, Nat.add_zero] at done kept' stored
      rw [mod_eq_of_lt nextWord, nextAccess]
      dsimp only
      rw [second]
      refine ⟨_, rfl, done, still.trans kept', fun tested at' => ?_⟩
      have first' : put (put fs.volume (entryPlace fs.vol cln)
          [first12 cln value (fs.volume (entryPlace fs.vol cln))]) (entryPlace fs.vol cln + 1)
            [second12 cln value (fs.volume (entryPlace fs.vol cln + 1))] = _ :=
        (put_append [_] [_]).symm
      rw [stored tested at', nextPlace, put_congr (changed tested at'), place]
      exact congrFun first' tested

theorem put_pair (contents : Content) (place tested : Nat) (first second : UInt8) :
    put contents place [first, second] tested =
      if tested = place then first else if tested = place + 1 then second else contents tested := by
  split
  case isTrue same =>
    rw [same, ← Nat.add_zero place]
    exact put_inside (by simp : 0 < [first, second].length)
  case isFalse =>
    split
    case isTrue same =>
      rw [same]
      exact put_inside (by simp : 1 < [first, second].length)
    case isFalse =>
      have length : [first, second].length = 2 := rfl
      exact put_outside (by omega)

/-- An entry of 12 bits is read back. -/
theorem entry12_set (cln value : Nat) (first second : UInt8) :
    entry12 cln (first12 cln value first) (second12 cln value second) = value % 2 ^ 12 := by
  rw [entry12, first12, second12]
  split
  · simp only [UInt8.toNat_ofNat']
    omega
  · simp only [UInt8.toNat_ofNat']
    omega

variable {other : Nat}

variable {cln : Nat}

/-- The entry behind one of an even cluster has its upper bits in the shared byte. -/
theorem entry12_next (even : cln % 2 = 0) (odd : other % 2 = 1) (value : Nat)
    (shared second : UInt8) :
    entry12 other (second12 cln value shared) second = entry12 other shared second := by
  have bounded := shared.toNat_lt
  rw [entry12, entry12, second12, if_pos odd, if_pos odd, if_neg (by omega)]
  simp only [UInt8.toNat_ofNat']
  omega

/-- The entry in front of one of an odd cluster has its lower bits in the shared byte. -/
theorem entry12_previous (odd : cln % 2 = 1) (even : other % 2 = 0) (value : Nat)
    (first shared : UInt8) :
    entry12 other first (first12 cln value shared) = entry12 other first shared := by
  have lower : ¬ other % 2 = 1 := by omega
  rw [entry12, entry12, first12, if_pos odd, if_neg lower, if_neg lower]
  simp only [UInt8.toNat_ofNat']
  omega

/-- The entries after the bytes of one are changed. -/
theorem entryIn_put (contents : Content) (cln value other : Nat) :
    entryIn vol (put contents (entryPlace vol cln) (entryBytes vol contents cln value)) other =
      if other = cln then storedEntry vol.type (entryIn vol contents cln) value
      else entryIn vol contents other := by
  rw [entryIn, entryIn, entryIn, entryBytes, entryPlace, entryPlace]
  generalize vol.afatLoc * vol.bps = start
  cases vol.type with
  | fat12 =>
    dsimp only [fatOffset, storedEntry]
    rw [put_pair, put_pair]
    by_cases same : other = cln
    · subst same
      rw [if_pos rfl, if_pos rfl, if_neg (by omega), if_pos rfl, entry12_set]
    · rw [if_neg same]
      by_cases next : start + (other + other / 2) = start + (cln + cln / 2) + 1
      · rw [if_neg (by omega), if_pos next, if_neg (by omega), if_neg (by omega), next,
          entry12_next (by omega) (by omega)]
      · by_cases previous : start + (other + other / 2) + 1 = start + (cln + cln / 2)
        · rw [if_neg (by omega), if_neg next, if_pos previous, previous,
            entry12_previous (by omega) (by omega)]
        · rw [if_neg (by omega), if_neg next, if_neg previous, if_neg (by omega)]
  | fat16 =>
    dsimp only [fatOffset, storedEntry]
    split
    case isTrue same =>
      rw [same, getVal, get_put_self (LittleEndian.length_number 2 value), LittleEndian.read_number]
      exact congrArg (value % ·) (by decide : 256 ^ 2 = 2 ^ 16)
    case isFalse distinct =>
      rw [getVal, get_put_apart (by rw [LittleEndian.length_number]; omega), getVal]
  | fat32 =>
    dsimp only [fatOffset, storedEntry]
    split
    case isTrue same =>
      have bounded := getVal_lt contents (start + cln * 4) 4
      rw [same]
      rw [getVal, get_put_self (LittleEndian.length_number 4 _), LittleEndian.read_number]
      omega
    case isFalse distinct =>
      rw [getVal, get_put_apart (by rw [LittleEndian.length_number]; omega), getVal]

/-- The contents decide the clusters. -/
theorem becomes_of_volume (ready : Ready after) (still : Still fs after)
    (volume : after.volume = fs.volume) : Becomes fs after fs.clusters := by
  refine ⟨ready, still.vol, still.device, ?_⟩
  have table : after.table = fs.table := by
    funext cln
    rw [FsInfo.table, FsInfo.table, still.vol, volume]
  have data : after.data = fs.data := by
    funext cln ofs
    rw [FsInfo.data, FsInfo.data, still.vol, volume]
  rw [clusters, clusters, table, data, still.freeCls]

theorem becomes_self (ready : Ready fs) : Becomes fs fs fs.clusters :=
  becomes_of_volume ready (Still.refl fs) rfl

/-- An entry depends on its bytes. -/
theorem entryIn_congr {first second : Content}
    (same : ∀ place, entryPlace vol cln ≤ place → place < entryPlace vol cln + vol.type.entrySize →
      first place = second place) : entryIn vol first cln = entryIn vol second cln := by
  rw [entryIn, entryIn]
  cases type : vol.type with
  | fat12 =>
    rw [type, FatType.entrySize] at same
    rw [same _ (by omega) (by omega), same _ (by omega) (by omega)]
  | fat16 | fat32 =>
    rw [type, FatType.entrySize] at same
    exact congrArg LittleEndian.read (get_congr same)

namespace Laid

variable (laid : Laid vol dev) (valid : Valid vol cln)
include laid valid

theorem entry_kept {place : Nat} (behind : entryPlace vol cln ≤ place)
    (before : place < entryPlace vol cln + vol.type.entrySize) :
    Kept vol place ∧ place < vol.rdirLoc * vol.bps := by
  have inside := laid.entry_inside valid
  have product := Nat.mul_le_mul_right vol.bps laid.afatLoc_eq.2
  rw [entryPlace] at behind before
  rw [Nat.add_mul] at product
  rw [Kept, Nat.add_mul]
  omega

/-- The clusters are behind the tables and on the device. -/
theorem cluster_inside : clusterNumToSectorNum vol cln = vol.dataFsec + (cln - rsrvdCln) * vol.spc ∧
      vol.rdirLoc ≤ clusterNumToSectorNum vol cln ∧
      clusterPlace vol cln + vol.bpc ≤ dev.blockCount * vol.bytesPerBlock := by
  have bounded := laid.sectors_lt
  have location := laid.rdirLoc_eq
  have data := laid.dataFsec_eq
  have bounds := valid
  rw [Valid] at bounds
  have few := laid.dataCls_lt
  have difference : minus cln rsrvdCln = cln - 2 := by
    rw [minus, rsrvdCln]
    omega
  have product := Nat.mul_le_mul_right vol.spc (by omega : cln - 2 + 1 ≤ vol.dataCls)
  rw [succ_mul] at product
  have num : clusterNumToSectorNum vol cln = vol.dataFsec + (cln - rsrvdCln) * vol.spc := by
    rw [clusterNumToSectorNum, if_neg (by omega), difference, ← laid.spc, rsrvdCln,
      mod_eq_of_lt (by omega), Nat.add_comm]
  refine ⟨num, by omega, ?_⟩
  rw [clusterPlace, laid.bpc_eq, ← Nat.add_mul]
  exact laid.extent_le (by rw [rsrvdCln]; omega)

end Laid

theorem clusterPlace_apart (sized : vol.Sized) (valid : Valid vol cln)
    (otherValid : Valid vol other) (distinct : other ≠ cln) :
    clusterPlace vol other + vol.bpc ≤ clusterPlace vol cln ∨
      clusterPlace vol cln + vol.bpc ≤ clusterPlace vol other := by
  have lower := valid.1
  have otherLower := otherValid.1
  have step : ∀ first second, first + 1 ≤ second → rsrvdCln ≤ first →
      clusterPlace vol first + vol.bpc ≤ clusterPlace vol second := by
    intro first second less least
    have product := Nat.mul_le_mul_right vol.spc
      (by omega : first - rsrvdCln + 1 ≤ second - rsrvdCln)
    rw [succ_mul] at product
    rw [clusterPlace, clusterPlace, sized.bpc_eq, ← Nat.add_mul]
    exact Nat.mul_le_mul_right _ (by omega)
  rcases Nat.lt_or_gt_of_ne distinct with less | greater
  · exact Or.inl (step other cln less otherLower)
  · exact Or.inr (step cln other greater lower)

theorem clusterPlace_front (laid : Laid vol dev) (cln : Nat) :
    vol.rdirLoc * vol.bps ≤ clusterPlace vol cln := by
  have data := laid.dataFsec_eq
  exact Nat.mul_le_mul_right _ (by omega)

/-- An entry is read. -/
theorem getFatCluster_clusters (ready : Ready fs) (valid : Valid fs.vol cln) :
    ∃ after, fs.getFatCluster cln = (.ok (fs.clusters.table cln), after) ∧
      Becomes fs after fs.clusters := by
  obtain ⟨after, read, contents, finished, still⟩ := getFatCluster_spec ready valid
  exact ⟨after, read, becomes_of_volume finished still contents⟩

/-- The state after an entry is set. -/
def Clusters.set (state : Clusters) (type : FatType) (cln value : Nat) : Clusters :=
  { state with
    table := Function.update state.table cln (storedEntry type (state.table cln) value) }

theorem setFatCluster_clusters (ready : Ready fs) (valid : Valid fs.vol cln) (value : Nat) :
    ∃ after, fs.setFatCluster cln value = (.ok (), after) ∧
      Becomes fs after (fs.clusters.set fs.vol.type cln value) := by
  obtain ⟨after, wrote, finished, still, changed⟩ := setFatCluster_spec ready valid value
  refine ⟨after, wrote, finished, still.vol, still.device, ?_⟩
  have table : after.table =
      update fs.table cln (storedEntry fs.vol.type (fs.table cln) value) := by
    funext other
    by_cases inside : Valid fs.vol other
    · have entry : after.table other = entryIn fs.vol after.volume other := by
        rw [FsInfo.table, still.vol, if_pos inside]
      have stored := @entryIn_put fs.vol fs.volume cln value other
      rw [entry, entryIn_congr fun place behind before =>
        changed place (ready.entry_kept inside behind before).1, stored]
      by_cases same : other = cln
      · rw [if_pos same, same, update_self, FsInfo.table, if_pos valid]
      · rw [if_neg same, update_of_ne same, FsInfo.table, if_pos inside]
    · have other_ne : other ≠ cln := by
        rintro rfl
        exact inside valid
      rw [update_of_ne other_ne, FsInfo.table, FsInfo.table, still.vol, if_neg inside,
        if_neg inside]
  have data : after.data = fs.data := by
    funext other ofs
    rw [FsInfo.data, FsInfo.data, still.vol]
    split
    case isFalse => rfl
    case isTrue =>
      have front := clusterPlace_front ready.toLaid other
      have last : entryPlace fs.vol cln + (entryBytes fs.vol fs.volume cln value).length ≤
          fs.vol.rdirLoc * fs.vol.bps := by
        have size : (entryBytes fs.vol fs.volume cln value).length = fs.vol.type.entrySize := by
          rw [entryBytes]
          cases fs.vol.type <;> simp [FatType.entrySize]
        have some : 0 < fs.vol.type.entrySize := by cases fs.vol.type <;> decide
        have stop := (ready.entry_kept valid (Nat.le_add_right _ (fs.vol.type.entrySize - 1))
          (by omega)).2
        omega
      rw [changed _ (Or.inr (by omega)), put_outside (by omega)]
  rw [clusters, table, data, still.freeCls]
  rfl

/-- The state after bytes are written to a cluster. -/
def Clusters.write (state : Clusters) (cln ofs : Nat) (bytes : List UInt8) : Clusters :=
  { state with data := Function.update state.data cln (put (state.data cln) ofs bytes) }

theorem Clusters.write_self (st : Clusters) (cln ofs : Nat) (bytes : List UInt8) :
    (st.write cln ofs bytes).data cln = put (st.data cln) ofs bytes :=
  update_self _ _ _

theorem Clusters.write_of_ne (st : Clusters) (distinct : other ≠ cln) (ofs : Nat)
    (bytes : List UInt8) : (st.write cln ofs bytes).data other = st.data other :=
  update_of_ne distinct _ _

/-- Bytes are written to a cluster. -/
theorem clusterWrite_clusters (ready : Ready fs) (valid : Valid fs.vol cln) {ofs : Nat}
    {bytes : List UInt8} (inside : ofs + bytes.length ≤ fs.vol.bpc) :
    ∃ after, fs.clusterWrite cln ofs bytes = (.ok bytes.length, after) ∧
      Becomes fs after (fs.clusters.write cln ofs bytes) := by
  obtain ⟨num, front, bounded⟩ := ready.cluster_inside valid
  have place : clusterNumToSectorNum fs.vol cln * fs.vol.bps = clusterPlace fs.vol cln := by
    rw [num, clusterPlace]
  obtain ⟨after, wrote, written, coherent, still⟩ := clusterWrite_spec ready.toMounted
    ready.toCoherent cln ofs bytes inside front (by rw [place, extent]; omega)
  rw [place] at written
  refine ⟨after, wrote, ready.next still coherent, still.vol, still.device, ?_⟩
  have table : after.table = fs.table := by
    funext other
    rw [FsInfo.table, FsInfo.table, still.vol]
    split
    case isFalse => rfl
    case isTrue otherValid =>
      refine entryIn_congr fun tested behind before => ?_
      have kept := (ready.entry_kept otherValid behind before).2
      have behind := clusterPlace_front ready.toLaid cln
      rw [written, put_outside (by omega)]
  have data : after.data = update fs.data cln (put (fs.data cln) ofs bytes) := by
    funext other tested
    by_cases same : other = cln
    · subst same
      rw [update_self, FsInfo.data, still.vol, written]
      by_cases within : ofs ≤ tested ∧ tested < ofs + bytes.length
      · obtain ⟨index, rfl⟩ : ∃ index, tested = ofs + index := ⟨tested - ofs, by omega⟩
        rw [if_pos ⟨valid, by omega⟩, ← Nat.add_assoc, put_inside (by omega), put_inside (by omega)]
      · rw [put_outside (by omega), put_outside (by omega), FsInfo.data]
    · rw [update_of_ne same, FsInfo.data, FsInfo.data, still.vol, written]
      split
      case isFalse => rfl
      case isTrue there =>
        have apart := clusterPlace_apart ready.toSized valid there.1 same
        rw [put_outside (by omega)]
  rw [clusters, table, data, still.freeCls]
  rfl

theorem blockRead_clusters (ready : Ready fs) (valid : Valid fs.vol cln) {ofs count : Nat}
    (some : 0 < count) (inside : ofs + count ≤ fs.vol.bpc) :
    ∃ after, fs.blockRead count ((clusterNumToSectorNum fs.vol cln + ofs / 2 ^ fs.vol.secLog2) %
        2 ^ 32) (ofs % fs.vol.bps) count = (.ok (get (fs.clusters.data cln) ofs count), after) ∧
      Becomes fs after fs.clusters := by
  obtain ⟨num, _, bounded⟩ := ready.cluster_inside valid
  have positive := ready.bps_pos
  have split := Nat.div_add_mod' ofs fs.vol.bps
  have rest := mod_lt ofs positive
  have place : (clusterNumToSectorNum fs.vol cln + ofs / fs.vol.bps) * fs.vol.bps =
      clusterPlace fs.vol cln + ofs / fs.vol.bps * fs.vol.bps := by
    rw [num, Nat.add_mul, clusterPlace]
  have there := (sector_there ready.toMounted (clusterNumToSectorNum fs.vol cln + ofs / fs.vol.bps)
    (ofs % fs.vol.bps) (by rw [place, extent]; omega)).2.1
  obtain ⟨after, read, contents, coherent, still⟩ := @blockRead_spec fs ready.toMounted
    ready.toCoherent count (clusterNumToSectorNum fs.vol cln + ofs / fs.vol.bps) (ofs % fs.vol.bps)
    count (le_refl _) rest (by rw [place, extent]; omega)
  have bytes : get fs.volume ((clusterNumToSectorNum fs.vol cln + ofs / fs.vol.bps) * fs.vol.bps +
      ofs % fs.vol.bps) count = get (fs.clusters.data cln) ofs count := by
    rw [place, Nat.add_assoc, split]
    apply List.map_congr_left
    intro index member
    have less := List.mem_range.mp member
    have read : fs.data cln (ofs + index) = fs.volume (clusterPlace fs.vol cln + (ofs + index)) :=
      if_pos ⟨valid, by omega⟩
    rw [Nat.add_assoc]
    exact read.symm
  rw [← ready.toSized.bps, mod_eq_of_lt (by omega), read, bytes]
  exact ⟨after, rfl, becomes_of_volume (ready.next still coherent) still contents⟩

/-- The copies for the other FATs are on the device. -/
theorem copyToFats_ok {secBuf : List UInt8} {fuel i : Nat} (there : ∀ num, i ≤ num → num <
      i + fuel → sectorNumToBlockNum fs.vol ((fs.c.blkNum + fs.vol.fatLength * num) % 2 ^ 32) <
      fs.device.blockCount) : (copyToFats secBuf fuel i fs).1 = .ok () := by
  induction fuel generalizing i fs with
  | zero => rfl
  | succ fuel ih =>
    rw [copyToFats]
    rw [if_pos (there i (le_refl i) (by omega))]
    apply ih
    intro num least most
    exact there num (by omega) (by omega)

/-- The copies of a sector of the first table are on the device. -/
theorem copied_ok (ready : Ready fs) (actual : fs.c.actual = true) (modified : fs.c.modified = true) :
    fs.copied.1 = .ok () := by
  rw [copied]
  split
  case isFalse => rfl
  case isTrue mirrored =>
    have home := ready.home actual modified mirrored
    apply copyToFats_ok
    intro num least most
    have product := Nat.mul_le_mul_right fs.vol.fatLength (by omega : num + 1 ≤ fs.vol.fats)
    have bounded := ready.sectors_lt
    have fits := ready.fits
    rw [ready.bytesPerBlock_eq, ← Nat.mul_assoc] at fits
    have most := Nat.le_of_mul_le_mul_right fits ready.bps_pos
    rw [succ_mul] at product
    change sectorNumToBlockNum fs.vol ((fs.c.blkNum + fs.vol.fatLength * num) % 2 ^ 32) <
      fs.device.blockCount
    rw [Nat.mul_comm fs.vol.fatLength num, mod_eq_of_lt (by omega)]
    refine Nat.div_lt_of_lt_mul ?_
    rw [Nat.mul_comm (2 ^ _)]
    omega

theorem bufRelease_clusters (ready : Ready fs) : Becomes fs fs.bufRelease.2 fs.clusters := by
  obtain ⟨same, settled, _⟩ := bufRelease_spec fs
  have released : fs.bufRelease.2.c.actual = false := by
    cases actual : fs.c.actual with
    | false =>
      rw [bufRelease, if_pos actual]
      exact actual
    | true =>
      rw [bufRelease, if_neg (by simp [actual])]
      cases modified : fs.c.modified with
      | false => rfl
      | true =>
        have done := copied_ok ready actual modified
        rw [copied] at done
        dsimp only
        generalize (if Mirrored fs.vol fs.c.blkNum then _ else _) = result at done ⊢
        obtain ⟨answer, after⟩ := result
        cases done
        rfl
  have unused : ∀ P : Prop, fs.bufRelease.2.c.actual = true → P := by
    intro P actual
    rw [released] at actual
    cases actual
  have coherent : Coherent fs.bufRelease.2 := ⟨unused _, unused _, unused _⟩
  have still : Still fs fs.bufRelease.2 := ⟨same, fun _ => unused _⟩
  exact becomes_of_volume (ready.next still coherent) still settled.volume_eq

end Rtems.Dosfs
