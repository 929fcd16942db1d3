import Rtems.Dosfs.Geometry

/-!
# The keys of directory entries

A file is identified by the place of its directory entry: the number of the sector of 512 bytes and the number
of the entry in it make a word. The root directory has no entry; it counts as the first one of sector 1.
-/

namespace Rtems.Dosfs

/-- `fat_pos_t` -/
@[ext]
structure Pos where
  cln : Nat
  ofs : Nat
deriving DecidableEq

/-- The field `sec_mul`: a sector has that power of two of sectors of 512 bytes. -/
def secMul (vol : Volume) : Nat := vol.secLog2 - 9

/-- `fat_cluster_num_to_sector512_num` -/
def clusterNumToSector512Num (vol : Volume) (cln : Nat) : Nat :=
  if cln = 1 then 1 else clusterNumToSectorNum vol cln * 2 ^ secMul vol % 2 ^ 32

/-- `fat_construct_key` -/
def constructKey (vol : Volume) (pos : Pos) : Nat :=
  ((clusterNumToSector512Num vol pos.cln + pos.ofs / 512) * 16 + pos.ofs / 32 % 16) % 2 ^ 32

/-- The field `uino_base`. -/
def uinoBase (vol : Volume) : Nat := vol.totSecs * 2 ^ secMul vol * 16 % 2 ^ 32

/-- The entries of a sector. -/
def sectorEntries (vol : Volume) : Nat := 2 ^ secMul vol * 16

/-- A position of the volume: the root directory, an entry of the root directory of FAT12 and FAT16, or an entry
in a cluster. -/
def Pos.There (vol : Volume) (pos : Pos) : Prop :=
  pos.ofs % 32 = 0 ∧
    (pos.cln = 1 ∧ pos.ofs = 0 ∨
      pos.cln = 0 ∧ vol.type ≠ .fat32 ∧ pos.ofs < vol.rdirSize ∨
      2 ≤ pos.cln ∧ pos.cln < vol.dataCls + 2 ∧ pos.ofs < vol.bpc)
deriving Decidable

/-- The parts of the volume follow each other, no entry is the first one of sector 1, and every entry of the volume
has a number that is a word. -/
structure Addressable (vol : Volume) : Prop where
  root : vol.rdirLoc + vol.rdirSecs = vol.dataFsec
  data : vol.dataFsec + vol.dataCls * vol.spc ≤ vol.totSecs
  first : vol.type ≠ .fat32 → 16 < vol.rdirLoc * sectorEntries vol
  later : 16 < vol.dataFsec * sectorEntries vol
  small : vol.totSecs * sectorEntries vol < 2 ^ 32

/-- The number of an entry, in the order of the volume. -/
def number (vol : Volume) (pos : Pos) : Nat :=
  if pos.cln = 1 then 16
  else if pos.cln = 0 then vol.rdirLoc * sectorEntries vol + pos.ofs / 32
  else (vol.dataFsec + (pos.cln - 2) * vol.spc) * sectorEntries vol + pos.ofs / 32

variable {vol : Volume}

theorem bps_entries (sized : vol.Sized) : vol.bps = sectorEntries vol * 32 := by
  have single := sized.single
  rw [sized.bps, sectorEntries, secMul, Nat.mul_assoc]
  calc 2 ^ vol.secLog2 = 2 ^ (vol.secLog2 - 9 + 9) := by rw [Nat.sub_add_cancel single]
    _ = 2 ^ (vol.secLog2 - 9) * (16 * 32) := by rw [Nat.pow_add]

theorem sectorEntries_pos : 0 < sectorEntries vol := Nat.mul_pos (Nat.two_pow_pos _) (by decide)

variable {ofs : Nat}

/-- The entries of the root directory are before the data. -/
theorem Addressable.root_number (addressable : Addressable vol) (sized : vol.Sized)
    (inside : ofs < vol.rdirSize) :
    vol.rdirLoc * sectorEntries vol + ofs / 32 < vol.dataFsec * sectorEntries vol := by
  have size : vol.rdirSize = vol.rdirSecs * sectorEntries vol * 32 := by
    rw [sized.rdirSize, bps_entries sized, Nat.mul_assoc]
  rw [← addressable.root, Nat.add_mul]
  omega

theorem cluster_entries (sized : vol.Sized) (inside : ofs < vol.bpc) :
    ofs / 32 < vol.spc * sectorEntries vol := by
  have size : vol.bpc = vol.spc * sectorEntries vol * 32 := by
    rw [sized.bpc_eq, bps_entries sized, Nat.mul_assoc]
  omega

/-- The entries of the clusters are before the end of the volume. -/
theorem Addressable.cluster_number (addressable : Addressable vol) (sized : vol.Sized) {cln : Nat}
    (most : cln < vol.dataCls + 2) (least : 2 ≤ cln) (inside : ofs < vol.bpc) :
    (vol.dataFsec + (cln - 2) * vol.spc) * sectorEntries vol + ofs / 32 <
      vol.totSecs * sectorEntries vol := by
  have entries := cluster_entries sized inside
  have clusters : (cln - 2) * vol.spc + vol.spc ≤ vol.dataCls * vol.spc := by
    rw [← Nat.succ_mul]
    exact Nat.mul_le_mul_right _ (by omega)
  have sectors : vol.dataFsec + (cln - 2) * vol.spc + vol.spc ≤ vol.totSecs := by
    have data := addressable.data
    omega
  have scaled := Nat.mul_le_mul_right (sectorEntries vol) sectors
  rw [Nat.add_mul _ vol.spc] at scaled
  omega

variable {pos : Pos}

/-- Every number is below the base of the unique numbers. -/
theorem Addressable.number_lt (addressable : Addressable vol) (sized : vol.Sized)
    (there : pos.There vol) : number vol pos < vol.totSecs * sectorEntries vol := by
  have data : vol.dataFsec * sectorEntries vol ≤ vol.totSecs * sectorEntries vol := by
    have bounded := addressable.data
    exact Nat.mul_le_mul_right _ (by omega)
  obtain ⟨_, ⟨root, _⟩ | ⟨root, _, inside⟩ | ⟨least, most, inside⟩⟩ := there
  · have later := addressable.later
    rw [number, if_pos root]
    omega
  · have bounded := addressable.root_number sized inside
    rw [number, if_neg (by omega), if_pos root]
    omega
  · rw [number, if_neg (by omega), if_neg (by omega)]
    exact addressable.cluster_number sized most least inside

/-- A sector whose entries have words as numbers makes a key without overflow. -/
theorem key_of_sector {sector : Nat} (small : sector * sectorEntries vol + ofs / 32 < 2 ^ 32) :
    (sector * 2 ^ secMul vol % 2 ^ 32 + ofs / 512) * 16 + ofs / 32 % 16 =
      sector * sectorEntries vol + ofs / 32 := by
  have entries : sector * sectorEntries vol = sector * 2 ^ secMul vol * 16 := by
    rw [sectorEntries, Nat.mul_assoc]
  omega

section

variable (addressable : Addressable vol) (sized : vol.Sized)
include addressable sized

/-- The key of a position is its number. -/
theorem Addressable.key_eq (there : pos.There vol) : constructKey vol pos = number vol pos := by
  have small := (addressable.number_lt sized there).trans addressable.small
  obtain ⟨_, ⟨root, start⟩ | ⟨root, type, _⟩ | ⟨least, most, _⟩⟩ := there
  · simp [constructKey, clusterNumToSector512Num, number, root, start]
  · have sector : clusterNumToSectorNum vol pos.cln = vol.rdirLoc := if_pos ⟨root, type⟩
    rw [number, if_neg (by omega), if_pos root] at small ⊢
    rw [constructKey, clusterNumToSector512Num, if_neg (by omega), sector, key_of_sector small,
      Nat.mod_eq_of_lt small]
  · rw [number, if_neg (by omega), if_neg (by omega)] at small ⊢
    have positive := @sectorEntries_pos vol
    have bounded : vol.dataFsec + (pos.cln - 2) * vol.spc < 2 ^ 32 := by
      refine Nat.lt_of_le_of_lt ?_ small
      exact (Nat.le_mul_of_pos_right _ positive).trans (Nat.le_add_right _ _)
    have spc : 1 ≤ vol.spc := by
      rw [sized.spc]
      exact Nat.two_pow_pos _
    have cluster : pos.cln - 2 < 2 ^ 32 := by
      have scaled := Nat.le_mul_of_pos_right (pos.cln - 2) spc
      omega
    have sector : clusterNumToSectorNum vol pos.cln = vol.dataFsec + (pos.cln - 2) * vol.spc := by
      have word : minus pos.cln rsrvdCln = pos.cln - 2 := by
        rw [minus, rsrvdCln]
        omega
      rw [clusterNumToSectorNum, if_neg (by omega), word, ← sized.spc, Nat.add_comm,
        Nat.mod_eq_of_lt bounded]
    rw [constructKey, clusterNumToSector512Num, if_neg (by omega), sector, key_of_sector small,
      Nat.mod_eq_of_lt small]

/-- The three kinds of positions and their numbers. -/
theorem Addressable.number_cases (there : pos.There vol) :
    (pos.cln = 1 ∧ pos.ofs = 0 ∧ number vol pos = 16) ∨
    (pos.cln = 0 ∧ 16 < number vol pos ∧ number vol pos < vol.dataFsec * sectorEntries vol ∧
      number vol pos = vol.rdirLoc * sectorEntries vol + pos.ofs / 32) ∨
    (2 ≤ pos.cln ∧ pos.ofs / 32 < vol.spc * sectorEntries vol ∧
      number vol pos = vol.dataFsec * sectorEntries vol +
        ((pos.cln - 2) * (vol.spc * sectorEntries vol) + pos.ofs / 32)) := by
  obtain ⟨_, ⟨root, start⟩ | ⟨root, type, inside⟩ | ⟨least, _, inside⟩⟩ := there
  · exact .inl ⟨root, start, if_pos root⟩
  · have first := addressable.first type
    have bounded := addressable.root_number sized inside
    have value : number vol pos = vol.rdirLoc * sectorEntries vol + pos.ofs / 32 := by
      rw [number, if_neg (by omega), if_pos root]
    exact .inr (.inl ⟨root, by omega, by omega, value⟩)
  · refine .inr (.inr ⟨least, cluster_entries sized inside, ?_⟩)
    rw [number, if_neg (by omega), if_neg (by omega), Nat.add_mul, Nat.mul_assoc, Nat.add_assoc]

/-- Two positions have two numbers. -/
theorem Addressable.number_injective {other : Pos} (there : pos.There vol)
    (there' : other.There vol) (same : number vol pos = number vol other) : pos = other := by
  have later := addressable.later
  have aligned := there.1
  have aligned' := there'.1
  obtain ⟨root, start, value⟩ | ⟨root, above, below, value⟩ | ⟨least, inside, value⟩ :=
    addressable.number_cases sized there
  · obtain ⟨root', start', _⟩ | ⟨_, above', _, _⟩ | ⟨_, _, value'⟩ :=
      addressable.number_cases sized there'
    · exact Pos.ext (root.trans root'.symm) (start.trans start'.symm)
    · omega
    · omega
  · obtain ⟨_, _, value'⟩ | ⟨root', _, _, value'⟩ | ⟨_, _, value'⟩ :=
      addressable.number_cases sized there'
    · omega
    · exact Pos.ext (root.trans root'.symm) (by omega)
    · omega
  · obtain ⟨_, _, value'⟩ | ⟨_, _, below', _⟩ | ⟨least', inside', value'⟩ :=
      addressable.number_cases sized there'
    · omega
    · omega
    · have places : (pos.cln - 2) * (vol.spc * sectorEntries vol) + pos.ofs / 32 =
          (other.cln - 2) * (vol.spc * sectorEntries vol) + other.ofs / 32 := by omega
      have clusters : pos.cln - 2 = other.cln - 2 := by
        have quotients := congrArg (· / (vol.spc * sectorEntries vol)) places
        simp only [Nat.mul_comm _ (vol.spc * sectorEntries vol)] at quotients
        rwa [Nat.mul_add_div (by omega), Nat.mul_add_div (by omega), Nat.div_eq_of_lt inside,
          Nat.div_eq_of_lt inside'] at quotients
      rw [clusters] at places
      exact Pos.ext (by omega) (by omega)

/-- Two positions have two keys. -/
theorem Addressable.key_injective {other : Pos} (there : pos.There vol) (there' : other.There vol)
    (same : constructKey vol pos = constructKey vol other) : pos = other := by
  rw [addressable.key_eq sized there, addressable.key_eq sized there'] at same
  exact addressable.number_injective sized there there' same

/-- The keys are below the base of the unique numbers, and not zero. -/
theorem Addressable.key_lt
    (there : pos.There vol) : 0 < constructKey vol pos ∧ constructKey vol pos < uinoBase vol := by
  have base : uinoBase vol = vol.totSecs * sectorEntries vol := by
    rw [uinoBase, Nat.mul_assoc, ← sectorEntries, Nat.mod_eq_of_lt addressable.small]
  rw [addressable.key_eq sized there, base]
  refine ⟨?_, addressable.number_lt sized there⟩
  have later := addressable.later
  obtain ⟨_, _, value⟩ | ⟨_, above, _, _⟩ | ⟨_, _, value⟩ := addressable.number_cases sized there <;>
    omega

end

end Rtems.Dosfs
