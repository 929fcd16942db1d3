import Rtems.Dosfs.Lending

/-!
# The FATs and the buffer that is held

A modified sector of the first FAT is stored with its block and then copied to the other FATs. The block may
have other sectors of the FATs, which the buffer has as the disk has them.
-/

namespace Rtems.Dosfs.Lending

open ByteRange

variable {vol : Volume} {answers : Answers} {fs : Fs} {bd : Nat} {buffer : Bd}

/-- The FATs are on the device. -/
def Placed (vol : Volume) : Prop := vol.fatLoc + vol.fats * vol.fatLength < 2 ^ 32

/-- A place is in a sector. -/
def Within (vol : Volume) (secNum place : Nat) : Prop :=
  secNum * vol.bps ≤ place ∧ place < secNum * vol.bps + vol.bps

/-- A place is in a FAT. -/
def InFats (vol : Volume) (place : Nat) : Prop :=
  vol.fatLoc * vol.bps ≤ place ∧ place < vol.rdirLoc * vol.bps

/-- The FATs have the contents of the first one. -/
def Equal (vol : Volume) (disk : Content) : Prop :=
  ∀ i, i < vol.fats → ∀ place, place < vol.fatLength * vol.bps →
    disk ((vol.fatLoc + vol.fatLength * i) * vol.bps + place) = disk (vol.fatLoc * vol.bps + place)

theorem rdirLoc_eq (sized : vol.Sized) (placed : Placed vol) :
    vol.rdirLoc = vol.fatLoc + vol.fats * vol.fatLength := by
  rw [sized.fatEnd, Nat.mod_eq_of_lt placed]

variable {secNum place : Nat}

/-- A place is in one sector only. -/
theorem Within.unique {other : Nat} (within : Within vol secNum place)
    (within' : Within vol other place) : secNum = other := by
  obtain ⟨low, high⟩ := within
  obtain ⟨low', high'⟩ := within'
  have first : secNum < other + 1 := by
    refine Nat.lt_of_mul_lt_mul_right (a := vol.bps) ?_
    rw [Nat.succ_mul]
    omega
  have second : other < secNum + 1 := by
    refine Nat.lt_of_mul_lt_mul_right (a := vol.bps) ?_
    rw [Nat.succ_mul]
    omega
  omega

variable {secBuf : List UInt8}

/-- The copies change their sectors only. -/
theorem copies_apart (length : secBuf.length = vol.bps) (fuel i : Nat) (disk : Content)
    (apart : ∀ j, i ≤ j → j < i + fuel → ¬ Within vol ((secNum + vol.fatLength * j) % 2 ^ 32) place)
    : copies vol secNum secBuf fuel i disk place = disk place := by
  induction fuel generalizing i disk with
  | zero => rfl
  | succ fuel ih =>
    have outside := apart i (le_refl i) (by omega)
    rw [copies, ih (i + 1) _ fun j least most => apart j (by omega) (by omega)]
    refine put_outside ?_
    unfold Within at outside
    omega

variable {index : Nat}

/-- Every copy has the contents of the sector. -/
theorem copies_inside (length : secBuf.length = vol.bps) (inside : index < vol.bps) (fuel i j : Nat)
    (disk : Content) (least : i ≤ j) (most : j < i + fuel) :
    copies vol secNum secBuf fuel i disk
        ((secNum + vol.fatLength * j) % 2 ^ 32 * vol.bps + index) = secBuf.getD index 0 := by
  induction fuel generalizing i j disk with
  | zero => omega
  | succ fuel ih =>
    rw [copies]
    by_cases later : ∃ k, i + 1 ≤ k ∧ k < i + 1 + fuel ∧
        (secNum + vol.fatLength * k) % 2 ^ 32 = (secNum + vol.fatLength * j) % 2 ^ 32
    · obtain ⟨k, least', most', same⟩ := later
      rw [← same]
      exact ih (i + 1) k _ least' most'
    · have same : j = i := by
        by_contra different
        exact later ⟨j, by omega, by omega, rfl⟩
      subst same
      rw [copies_apart length]
      · rw [put_inside (by omega), List.getD_eq_getElem _ _ (by omega)]
      · intro k least' most' within
        exact later ⟨k, least', most', within.unique ⟨by omega, by omega⟩⟩

/-- The file system and the bytes of the disk that were modified since the sector of the cache was accessed. -/
structure Tracked where
  fs : Fs
  dirty : Nat → Option UInt8

/-- What holds of the buffer that is held. It has the modified bytes, and the bytes of the FATs that are in its
block but not in its sector are those of the disk. -/
structure Held (vol : Volume) (tracked : Tracked) (bd : Nat) (buffer : Bd) : Prop
    extends Holds tracked.fs bd buffer where
  blk : buffer.block = sectorNumToBlockNum vol tracked.fs.blkNum
  word : tracked.fs.blkNum < 2 ^ 32
  dirty : ∀ place byte, tracked.dirty place = some byte → tracked.fs.modified = true ∧
    ∃ index, index < vol.bytesPerBlock ∧ place = buffer.block * vol.bytesPerBlock + index ∧
      buffer.buffer index = byte
  sector : FsInfo.Mirrored vol tracked.fs.blkNum → ∀ place byte, tracked.dirty place = some byte →
    Within vol tracked.fs.blkNum place
  first : tracked.fs.modified = true → FsInfo.Mirrored vol tracked.fs.blkNum →
    tracked.fs.blkNum < vol.fatLoc + vol.fatLength
  shadow : vol.mirror = 0 → ∀ index, index < vol.bytesPerBlock →
    buffer.buffer index = tracked.fs.disk (buffer.block * vol.bytesPerBlock + index) ∨
      ¬ InFats vol (buffer.block * vol.bytesPerBlock + index) ∨
      Within vol tracked.fs.blkNum (buffer.block * vol.bytesPerBlock + index)

/-- What is kept by the calls. -/
structure Sound (vol : Volume) (tracked : Tracked) : Prop where
  sized : vol.Sized
  placed : Placed vol
  cache : (Empty tracked.fs ∧ ∀ place, tracked.dirty place = none) ∨
    ∃ bd buffer, Held vol tracked bd buffer
  equal : vol.mirror = 0 → Equal vol tracked.fs.disk

variable {tracked : Tracked}

/-- The contents of a stored buffer. -/
theorem put_block (disk : Content) (inside : index < vol.bytesPerBlock) :
    put disk (buffer.block * vol.bytesPerBlock) (get buffer.buffer 0 vol.bytesPerBlock)
        (buffer.block * vol.bytesPerBlock + index) = buffer.buffer index := by
  have bounded : index < (get buffer.buffer 0 vol.bytesPerBlock).length := by rwa [length_get]
  rw [put_inside bounded, ← List.getD_eq_getElem _ 0 bounded, getD_get inside, Nat.zero_add]

/-- A sector of the first FAT does not meet its copies. -/
theorem copy_apart (placed : Placed vol) {j : Nat} (most : j < vol.fats)
    (least : 1 ≤ j) (first : vol.fatLoc ≤ secNum) (last : secNum < vol.fatLoc + vol.fatLength)
    (within : Within vol secNum place) :
    ¬ Within vol ((secNum + vol.fatLength * j) % 2 ^ 32) place := by
  intro within'
  have same := within.unique within'
  have bounded : vol.fatLength * j + vol.fatLength ≤ vol.fats * vol.fatLength := by
    rw [← Nat.mul_succ, Nat.mul_comm]
    exact Nat.mul_le_mul_right _ most
  unfold Placed at placed
  have positive : vol.fatLength * 1 ≤ vol.fatLength * j := Nat.mul_le_mul_left _ least
  omega

/-- A release takes every modified byte to the disk. -/
theorem Held.settled_dirty (held : Held vol tracked bd buffer) (placed : Placed vol)
    {byte : UInt8} (dirty : tracked.dirty place = some byte) :
    settled vol tracked.fs buffer place = byte := by
  obtain ⟨modified, index, inside, rfl, value⟩ := held.dirty place byte dirty
  rw [settled, if_pos modified]
  by_cases mirrored : FsInfo.Mirrored vol tracked.fs.blkNum
  · have within := held.sector mirrored _ byte dirty
    have last := held.first modified mirrored
    rw [if_pos mirrored, copies_apart length_get, put_block _ inside, value]
    intro j least most
    exact copy_apart placed (by omega) least mirrored.1 last within
  · rw [if_neg mirrored, put_block _ inside, value]

/-- The bytes of the FATs that are not in the sector of the cache are stored as they were. -/
theorem Held.stored_same (held : Held vol tracked bd buffer) (mirror : vol.mirror = 0)
    (inFats : InFats vol place) (apart : ¬ Within vol tracked.fs.blkNum place) :
    put tracked.fs.disk (buffer.block * vol.bytesPerBlock) (get buffer.buffer 0 vol.bytesPerBlock)
      place = tracked.fs.disk place := by
  by_cases inside : buffer.block * vol.bytesPerBlock ≤ place ∧
      place < buffer.block * vol.bytesPerBlock + vol.bytesPerBlock
  · obtain ⟨index, rfl⟩ : ∃ index, place = buffer.block * vol.bytesPerBlock + index :=
      ⟨_, (Nat.add_sub_cancel' inside.1).symm⟩
    have bounded : index < vol.bytesPerBlock := by omega
    rw [put_block _ bounded]
    obtain same | outside | within := held.shadow mirror index bounded
    · exact same
    · exact absurd inFats outside
    · exact absurd within apart
  · refine put_outside ?_
    rw [length_get]
    omega

variable {i : Nat}

/-- A place of a FAT as a sector of the FAT and a place in it. -/
theorem inFats_of (sized : vol.Sized) (placed : Placed vol) (member : i < vol.fats)
    (inside : place < vol.fatLength * vol.bps) :
    InFats vol ((vol.fatLoc + vol.fatLength * i) * vol.bps + place) := by
  have bounded : vol.fatLength * i + vol.fatLength ≤ vol.fats * vol.fatLength := by
    rw [← Nat.mul_succ, Nat.mul_comm]
    exact Nat.mul_le_mul_right _ member
  have scaled := Nat.mul_le_mul_right vol.bps bounded
  rw [InFats, rdirLoc_eq sized placed]
  rw [Nat.add_mul] at scaled
  rw [Nat.add_mul, Nat.add_mul]
  omega

/-- A sector that is not in a FAT has no place of one. -/
theorem apart_of_plain (mirror : vol.mirror = 0) (plain : ¬ FsInfo.Mirrored vol secNum)
    (inFats : InFats vol place) : ¬ Within vol secNum place := by
  rintro ⟨low, high⟩
  obtain ⟨begins, ends⟩ := inFats
  refine plain ⟨?_, ?_, mirror⟩
  · refine Nat.le_of_lt_succ (Nat.lt_of_mul_lt_mul_right (a := vol.bps) ?_)
    rw [Nat.succ_mul]
    omega
  · refine Nat.lt_of_mul_lt_mul_right (a := vol.bps) ?_
    omega

/-- A sector of a FAT and its copy in another one are as far apart as the FATs. -/
theorem copy_word (placed : Placed vol) (member : i < vol.fats)
    (last : secNum < vol.fatLoc + vol.fatLength) : secNum + vol.fatLength * i < 2 ^ 32 := by
  have bounded : vol.fatLength * i + vol.fatLength ≤ vol.fats * vol.fatLength := by
    rw [← Nat.mul_succ, Nat.mul_comm]
    exact Nat.mul_le_mul_right _ member
  unfold Placed at placed
  omega

section

variable (held : Held vol tracked bd buffer) (sized : vol.Sized) (placed : Placed vol)
include held sized placed

section

variable (modified : tracked.fs.modified = true) (mirrored : FsInfo.Mirrored vol tracked.fs.blkNum)
include modified mirrored

/-- After the release of a modified sector of the first FAT all FATs have its bytes. -/
theorem Held.settled_sector (member : i < vol.fats) (inside : index < vol.bps) :
    settled vol tracked.fs buffer ((tracked.fs.blkNum + vol.fatLength * i) * vol.bps + index) =
      buffer.buffer (sectorOffsetToBlockOffset vol tracked.fs.blkNum 0 + index) := by
  have last := held.first modified mirrored
  rw [settled, if_pos modified, if_pos mirrored]
  cases i with
  | zero =>
    have bounded := sized.offset_le held.word
    have place : tracked.fs.blkNum * vol.bps + index = buffer.block * vol.bytesPerBlock +
        (sectorOffsetToBlockOffset vol tracked.fs.blkNum 0 + index) := by
      rw [held.blk, ← sized.sector_place held.word, Nat.add_assoc]
    rw [Nat.mul_zero, Nat.add_zero, copies_apart length_get, place, put_block _ (by omega)]
    intro j least most
    exact copy_apart placed (by omega) least mirrored.1 last ⟨by omega, by omega⟩
  | succ i =>
    rw [← Nat.mod_eq_of_lt (copy_word placed member last),
      copies_inside length_get inside _ _ _ _ (by omega) (by omega), getD_get inside]

/-- A place of the FATs in another sector than the modified one and its copies is as it was. -/
theorem Held.settled_other (inFats : InFats vol place)
    (apart : ∀ i, i < vol.fats → ¬ Within vol (tracked.fs.blkNum + vol.fatLength * i) place) :
    settled vol tracked.fs buffer place = tracked.fs.disk place := by
  have last := held.first modified mirrored
  have present : 0 < vol.fats := by
    by_contra without
    obtain ⟨begins, ends, _⟩ := mirrored
    rw [rdirLoc_eq sized placed, Nat.eq_zero_of_not_pos without] at ends
    omega
  have apart' := apart 0 present
  rw [settled, if_pos modified, if_pos mirrored, copies_apart length_get,
    held.stored_same mirrored.2.2 inFats apart']
  intro j least most
  rw [Nat.mod_eq_of_lt (copy_word placed (by omega) last)]
  exact apart j (by omega)

end

/-- The release of the buffer that is held keeps the FATs equal. -/
theorem Held.settled_equal (mirror : vol.mirror = 0) (equal : Equal vol tracked.fs.disk) :
    Equal vol (settled vol tracked.fs buffer) := by
  cases modified : tracked.fs.modified with
  | false => simpa [settled, modified] using equal
  | true =>
    intro i member place inside
    have present := Nat.zero_lt_of_lt member
    have first := inFats_of sized placed present inside
    have other := inFats_of sized placed member inside
    rw [Nat.mul_zero, Nat.add_zero] at first
    by_cases mirrored : FsInfo.Mirrored vol tracked.fs.blkNum
    · have last := held.first modified mirrored
      obtain ⟨k, blkNum⟩ := Nat.exists_eq_add_of_le mirrored.1
      have split := Nat.div_add_mod' place vol.bps
      have rest := Nat.mod_lt place sized.bps_pos
      have quotient : place / vol.bps < vol.fatLength := by
        rw [Nat.div_lt_iff_lt_mul sized.bps_pos]
        exact inside
      by_cases same : place / vol.bps = k
      · have sector : ∀ i, (vol.fatLoc + vol.fatLength * i) * vol.bps + place =
            (tracked.fs.blkNum + vol.fatLength * i) * vol.bps + place % vol.bps := by
          intro i
          rw [blkNum, ← same, Nat.add_right_comm, Nat.add_mul _ (place / vol.bps), Nat.add_assoc, split]
        have base := held.settled_sector sized placed modified mirrored present rest
        rw [← sector 0, Nat.mul_zero, Nat.add_zero] at base
        rw [sector i, held.settled_sector sized placed modified mirrored member rest, base]
      · have apart : ∀ i, i < vol.fats → ∀ j, j < vol.fats →
            ¬ Within vol (tracked.fs.blkNum + vol.fatLength * j)
              ((vol.fatLoc + vol.fatLength * i) * vol.bps + place) := by
          intro i _ j _ within
          have own : Within vol (vol.fatLoc + vol.fatLength * i + place / vol.bps)
              ((vol.fatLoc + vol.fatLength * i) * vol.bps + place) := by
            rw [Within, Nat.add_mul _ (place / vol.bps)]
            omega
          have number := within.unique own
          have remainders : (vol.fatLength * j + k) % vol.fatLength =
              (vol.fatLength * i + place / vol.bps) % vol.fatLength := by
            congr 1
            omega
          rw [Nat.mul_add_mod, Nat.mul_add_mod, Nat.mod_eq_of_lt (by omega),
            Nat.mod_eq_of_lt quotient] at remainders
          exact same remainders.symm
        have apart' := apart 0 present
        rw [held.settled_other sized placed modified mirrored other (apart i member),
          held.settled_other sized placed modified mirrored first apart']
        exact equal i member place inside
    · rw [settled, if_pos modified, if_neg mirrored,
        held.stored_same mirror other (apart_of_plain mirror mirrored other),
        held.stored_same mirror first (apart_of_plain mirror mirrored first)]
      exact equal i member place inside

end

end Rtems.Dosfs.Lending
