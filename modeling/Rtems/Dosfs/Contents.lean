import Rtems.Dosfs.Cache
import Rtems.Dosfs.Geometry

/-!
# The contents of the volume

The contents are what the disk has after the buffer of the cache is released. Accesses keep them,
and bytes that are written to the buffer are written to the contents.
-/

namespace Rtems.Dosfs

open ByteRange
open Nat (mod_eq_of_lt mod_lt succ_mul)

namespace FsInfo

/-- What does not change while sectors are accessed. -/
structure Same (before after : FsInfo) : Prop where
  vol : after.vol = before.vol
  device : after.device = before.device
  freeCls : after.freeCls = before.freeCls
  nextCl : after.nextCl = before.nextCl

@[refl] theorem Same.refl (fs : FsInfo) : Same fs fs := ⟨rfl, rfl, rfl, rfl⟩

theorem Same.trans {first second third : FsInfo} (left : Same first second)
    (right : Same second third) : Same first third :=
  ⟨right.vol.trans left.vol, right.device.trans left.device, right.freeCls.trans left.freeCls,
    right.nextCl.trans left.nextCl⟩

/-- A modified buffer of a FAT is one of the first FAT. -/
def Home (fs : FsInfo) : Prop :=
  fs.c.actual = true → fs.c.modified = true → Mirrored fs.vol fs.c.blkNum →
    fs.c.blkNum < fs.vol.fatLoc + fs.vol.fatLength

/-- An access to a sector that a file system has a use for. -/
structure Still (before after : FsInfo) : Prop extends Same before after where
  home : Home before → Home after

@[refl] theorem Still.refl (fs : FsInfo) : Still fs fs := ⟨Same.refl fs, id⟩

theorem Still.trans {first second third : FsInfo} (left : Still first second)
    (right : Still second third) : Still first third :=
  ⟨left.toSame.trans right.toSame, fun home => right.home (left.home home)⟩

/-- The contents of the volume. -/
def volume (fs : FsInfo) : Content := fs.bufRelease.2.disk

/-- A buffer that need not go to the disk. -/
def Settled (fs : FsInfo) : Prop := fs.c.actual = false ∨ fs.c.modified = false

/-- The buffer is one of a block of the device, and it is that block unless it is modified. -/
structure Coherent (fs : FsInfo) : Prop where
  word : fs.c.actual = true → fs.c.blkNum < 2 ^ 32
  there : fs.c.actual = true → sectorNumToBlockNum fs.vol fs.c.blkNum < fs.device.blockCount
  same : fs.c.actual = true → fs.c.modified = false →
    ∀ place, place < fs.vol.bytesPerBlock →
      fs.c.buf place = fs.block (sectorNumToBlockNum fs.vol fs.c.blkNum) place

variable {fs : FsInfo}

theorem store_same (blk : Nat) (buf : Content) : Same fs (fs.store blk buf) := ⟨rfl, rfl, rfl, rfl⟩

theorem writeBack_same (fs : FsInfo) : Same fs fs.writeBack := ⟨rfl, rfl, rfl, rfl⟩

theorem copyToFats_same (secBuf : List UInt8) (fuel i : Nat) (fs : FsInfo) :
    Same fs (copyToFats secBuf fuel i fs).2 ∧ (copyToFats secBuf fuel i fs).2.c = fs.c := by
  induction fuel generalizing i fs with
  | zero => exact ⟨Same.refl fs, rfl⟩
  | succ fuel ih =>
    rw [copyToFats]
    split
    · obtain ⟨same, c⟩ := ih (i + 1) (fs.store _ _)
      exact ⟨(store_same _ _).trans same, c⟩
    · exact ⟨Same.refl fs, rfl⟩

/-- The disk after a modified buffer was released, with the copies for the other FATs. -/
def copied (fs : FsInfo) : Except Errno Unit × FsInfo :=
  if Mirrored fs.vol fs.c.blkNum then
    copyToFats (get fs.c.buf (sectorOffsetToBlockOffset fs.vol fs.c.blkNum 0) fs.vol.bps)
      (fs.vol.fats - 1) 1 fs.writeBack
  else (.ok (), fs.writeBack)

theorem copied_same (fs : FsInfo) : Same fs fs.copied.2 ∧ fs.copied.2.c = fs.writeBack.c := by
  rw [copied]
  split
  · obtain ⟨same, c⟩ := copyToFats_same _ (fs.vol.fats - 1) 1 fs.writeBack
    exact ⟨(writeBack_same fs).trans same, c⟩
  · exact ⟨writeBack_same fs, rfl⟩

theorem bufRelease_of_modified (actual : fs.c.actual = true) (modified : fs.c.modified = true) :
    fs.bufRelease.2.disk = fs.copied.2.disk ∧ Same fs.copied.2 fs.bufRelease.2 ∧
      fs.bufRelease.2.c.blkNum = fs.c.blkNum ∧ fs.bufRelease.2.c.modified = false := by
  have blkNum : fs.copied.2.c.blkNum = fs.c.blkNum :=
    (congrArg Cache.blkNum (copied_same fs).2).trans rfl
  have clean : fs.copied.2.c.modified = false :=
    (congrArg Cache.modified (copied_same fs).2).trans rfl
  rw [bufRelease, if_neg (by simp [actual]), if_pos modified]
  dsimp only
  split
  iterate 2
    · rename_i _ after same
      have same : fs.copied = _ := same
      rw [same] at blkNum clean ⊢
      exact ⟨rfl, ⟨rfl, rfl, rfl, rfl⟩, blkNum, clean⟩

theorem bufRelease_spec (fs : FsInfo) : Same fs fs.bufRelease.2 ∧ Settled fs.bufRelease.2 ∧
      (fs.c.actual = false ∨ fs.bufRelease.2.c.blkNum = fs.c.blkNum) := by
  cases actual : fs.c.actual with
  | false =>
    rw [bufRelease, if_pos actual]
    exact ⟨Same.refl fs, Or.inl actual, Or.inl rfl⟩
  | true =>
    cases modified : fs.c.modified with
    | true =>
      obtain ⟨_, same, blkNum, clean⟩ := bufRelease_of_modified actual modified
      exact ⟨(copied_same fs).1.trans same, Or.inr clean, Or.inr blkNum⟩
    | false =>
      rw [bufRelease, if_neg (by simp [actual]), if_neg (by simp [modified])]
      exact ⟨⟨rfl, rfl, rfl, rfl⟩, Or.inl rfl, Or.inr rfl⟩

theorem Settled.volume_eq (settled : Settled fs) : fs.volume = fs.disk := by
  rw [volume, bufRelease]
  rcases settled with empty | clean
  · rw [if_pos empty]
  · split
    · rfl
    · rw [if_neg (by simp [clean])]

/-- The disk with the buffer in its block, but without the copies for the other FATs. -/
def laid (fs : FsInfo) : Content :=
  if fs.c.actual ∧ fs.c.modified then fs.writeBack.disk else fs.disk

theorem Settled.laid_eq (settled : Settled fs) : fs.laid = fs.disk := by
  rw [laid, if_neg]
  rintro ⟨actual, modified⟩
  rcases settled with empty | clean
  · rw [actual] at empty
    cases empty
  · rw [modified] at clean
    cases clean

/-- An access keeps the contents. -/
theorem volume_bufAccess (fs : FsInfo) (secNum : Nat) (opType : OpType) :
    (fs.bufAccess secNum opType).2.volume = fs.volume ∧ Same fs (fs.bufAccess secNum opType).2 := by
  obtain ⟨same, settled, _⟩ := bufRelease_spec fs
  rw [bufAccess]
  dsimp only
  split
  case isFalse => exact ⟨rfl, Same.refl fs⟩
  case isTrue =>
    split
    case isFalse => exact ⟨settled.volume_eq, same⟩
    case isTrue => exact ⟨Settled.volume_eq (Or.inr rfl), same.trans ⟨rfl, rfl, rfl, rfl⟩⟩

/-- An access succeeds for the sectors of the device. -/
theorem bufAccess_ok (coherent : Coherent fs) (secNum : Nat) (opType : OpType) :
    (fs.bufAccess secNum opType).1 = .ok (sectorOffsetToBlockOffset fs.vol secNum 0) ∧
        sectorNumToBlockNum fs.vol secNum < fs.device.blockCount ∨
      (∃ errno, (fs.bufAccess secNum opType).1 = .error errno) ∧
        fs.device.blockCount ≤ sectorNumToBlockNum fs.vol secNum := by
  obtain ⟨same, _, _⟩ := bufRelease_spec fs
  have device := same.device
  rw [bufAccess]
  dsimp only
  split
  case isFalse cached =>
    simp only [not_or, Bool.not_eq_false, Classical.not_not] at cached
    exact Or.inl ⟨rfl, cached.2 ▸ coherent.there cached.1⟩
  case isTrue =>
    rw [device]
    split
    case isFalse far => exact Or.inr ⟨⟨_, rfl⟩, by omega⟩
    case isTrue there => exact Or.inl ⟨rfl, there⟩

variable {opType : OpType}

variable {after : FsInfo}

/-- The buffer after an access: it is of the block of the sector, and it has the contents of that
block if it was read. -/
theorem bufAccess_buffer (coherent : Coherent fs) {secNum : Nat} (word : secNum < 2 ^ 32)
    {ofs : Nat} (access : fs.bufAccess secNum opType = (.ok ofs, after)) :
    after.c.actual = true ∧ after.c.blkNum = secNum ∧ (opType = .read → Coherent after) ∧
      (after.c.modified = false ∨ after = fs ∧ fs.c.modified = true) := by
  obtain ⟨same, settled, _⟩ := bufRelease_spec fs
  rw [bufAccess] at access
  dsimp only at access
  split at access
  case isFalse cached =>
    simp only [not_or, Bool.not_eq_false, Classical.not_not] at cached
    cases access
    refine ⟨cached.1, cached.2, fun _ => coherent, ?_⟩
    cases clean : fs.c.modified with
    | false => exact Or.inl rfl
    | true => exact Or.inr ⟨rfl, rfl⟩
  case isTrue =>
    split at access
    case isFalse => cases access
    case isTrue there =>
      cases access
      refine ⟨rfl, rfl, ?_, Or.inl rfl⟩
      rintro rfl
      refine ⟨fun _ => word, fun _ => ?_, fun _ _ place _ => ?_⟩
      · exact same.vol.symm ▸ there
      · change fs.bufRelease.2.block _ place = fs.bufRelease.2.block _ place
        rw [same.vol]

/-- Bytes that are put into the buffer after an access. -/
theorem coherent_modify (coherent : Coherent fs) {secNum : Nat} (word : secNum < 2 ^ 32)
    {base : Nat} (access : fs.bufAccess secNum opType = (.ok base, after)) (place : Nat)
    (bytes : List UInt8) :
    base = sectorOffsetToBlockOffset fs.vol secNum 0 ∧
      Coherent (after.modify place bytes) ∧ Same fs (after.modify place bytes) := by
  obtain ⟨_, blkNum, _⟩ := bufAccess_buffer coherent word access
  obtain ⟨_, same⟩ := volume_bufAccess fs secNum opType
  rw [access] at same
  have off : base = sectorOffsetToBlockOffset fs.vol secNum 0 ∧
      sectorNumToBlockNum fs.vol secNum < fs.device.blockCount := by
    rcases bufAccess_ok coherent secNum opType with ⟨ok, there⟩ | ⟨⟨_, error⟩, _⟩
    · rw [access] at ok
      exact ⟨Except.ok.inj ok, there⟩
    · rw [access] at error
      cases error
  refine ⟨off.1, ⟨fun _ => blkNum ▸ word, fun _ => ?_, fun _ clean => ?_⟩,
    same.trans ⟨rfl, rfl, rfl, rfl⟩⟩
  · change sectorNumToBlockNum after.vol after.c.blkNum < after.device.blockCount
    rw [blkNum, same.vol, same.device]
    exact off.2
  · cases clean

/-- A sector that is put into its block. -/
theorem store_sector (sized : fs.vol.Sized) {secNum : Nat} (word : secNum < 2 ^ 32)
    {secBuf : List UInt8} (length : secBuf.length = fs.vol.bps) {bd : Content}
    (filled : bd = fs.block (sectorNumToBlockNum fs.vol secNum) ∨
      sectorOffsetToBlockOffset fs.vol secNum 0 = 0 ∧ fs.vol.bps = fs.vol.bytesPerBlock) :
    (fs.store (sectorNumToBlockNum fs.vol secNum)
        (put bd (sectorOffsetToBlockOffset fs.vol secNum 0) secBuf)).disk =
      put fs.disk (secNum * fs.vol.bps) secBuf := by
  have bounded := sized.offset_le word
  rw [← sized.sector_place word]
  apply put_get_patch
  · intro index inside outside
    rcases filled with rfl | whole
    · rfl
    · omega
  · omega

/-- The copies for the other FATs change their sectors only. -/
theorem copyToFats_disk (fs : FsInfo) (secBuf : List UInt8) (sized : fs.vol.Sized)
    (length : secBuf.length = fs.vol.bps) (fuel i place : Nat) :
    (copyToFats secBuf fuel i fs).2.disk place = fs.disk place ∨
      ∃ num index, i ≤ num ∧ num < i + fuel ∧ index < fs.vol.bps ∧
        place = (fs.c.blkNum + fs.vol.fatLength * num) % 2 ^ 32 * fs.vol.bps + index ∧
          (copyToFats secBuf fuel i fs).2.disk place = secBuf.getD index 0 := by
  induction fuel generalizing i fs with
  | zero => exact Or.inl rfl
  | succ fuel ih =>
    rw [copyToFats]
    dsimp only
    split
    case isFalse => exact Or.inl rfl
    case isTrue =>
      have word : (fs.c.blkNum + fs.vol.fatLength * i) % 2 ^ 32 < 2 ^ 32 :=
        mod_lt _ (Nat.two_pow_pos 32)
      have filled : ∀ unread : Content,
          (if sectorOffsetToBlockOffset fs.vol ((fs.c.blkNum + fs.vol.fatLength * i) % 2 ^ 32) 0 = 0 ∧
              fs.vol.bps = fs.vol.bytesPerBlock then unread
            else fs.block (sectorNumToBlockNum fs.vol
              ((fs.c.blkNum + fs.vol.fatLength * i) % 2 ^ 32))) =
            fs.block (sectorNumToBlockNum fs.vol ((fs.c.blkNum + fs.vol.fatLength * i) % 2 ^ 32)) ∨
          sectorOffsetToBlockOffset fs.vol ((fs.c.blkNum + fs.vol.fatLength * i) % 2 ^ 32) 0 = 0 ∧
            fs.vol.bps = fs.vol.bytesPerBlock := by
        intro unread
        split
        case isTrue whole => exact Or.inr whole
        case isFalse => exact Or.inl rfl
      have patched := store_sector sized word length (filled (fs.unread (sectorNumToBlockNum fs.vol
        ((fs.c.blkNum + fs.vol.fatLength * i) % 2 ^ 32))))
      generalize stored : fs.store _ _ = between at patched ⊢
      have vol : between.vol = fs.vol := stored ▸ rfl
      have c : between.c = fs.c := stored ▸ rfl
      have later := ih between (vol ▸ sized) (vol ▸ length) (i + 1)
      rw [vol, c] at later
      rcases later with same | ⟨num, index, least, most, inside, found, value⟩
      · by_cases within : (fs.c.blkNum + fs.vol.fatLength * i) % 2 ^ 32 * fs.vol.bps ≤ place ∧
            place < (fs.c.blkNum + fs.vol.fatLength * i) % 2 ^ 32 * fs.vol.bps + fs.vol.bps
        · obtain ⟨index, rfl⟩ : ∃ index, place =
              (fs.c.blkNum + fs.vol.fatLength * i) % 2 ^ 32 * fs.vol.bps + index :=
            ⟨_, (Nat.add_sub_cancel' within.1).symm⟩
          refine Or.inr ⟨i, index, le_refl i, by omega, by omega, rfl, ?_⟩
          rw [same, patched, put_inside (by omega), List.getD_eq_getElem _ _ (by omega)]
        · rw [patched, put_outside (by omega)] at same
          exact Or.inl same
      · exact Or.inr ⟨num, index, by omega, by omega, inside, found, value⟩

/-- A place that the copies of a sector for the other FATs do not change. -/
def Apart (vol : Volume) (secNum place : Nat) : Prop :=
  Mirrored vol secNum → ∀ number index, 1 ≤ number → number < vol.fats → index < vol.bps →
    place ≠ (secNum + vol.fatLength * number) % 2 ^ 32 * vol.bps + index

theorem apart_of_plain {vol : Volume} {secNum place : Nat} (plain : ¬ Mirrored vol secNum) :
    Apart vol secNum place := fun mirrored => absurd mirrored plain

theorem volume_laid (sized : fs.vol.Sized) {place : Nat} (apart : Apart fs.vol fs.c.blkNum place) :
    fs.volume place = fs.laid place := by
  by_cases pending : fs.c.actual = true ∧ fs.c.modified = true
  · rw [volume, (bufRelease_of_modified pending.1 pending.2).1, laid, if_pos pending, copied]
    split
    case isFalse => rfl
    case isTrue mirrored =>
      rcases copyToFats_disk fs.writeBack
          (get fs.c.buf (sectorOffsetToBlockOffset fs.vol fs.c.blkNum 0) fs.vol.bps) sized length_get
          (fs.vol.fats - 1) 1 place with same | ⟨num, index, least, most, inside, found, _⟩
      · exact same
      · exact absurd found (apart mirrored num index least (by omega) inside)
  · have settled : Settled fs := by
      rw [Settled]
      simpa [Classical.or_iff_not_imp_left] using pending
    rw [settled.volume_eq, settled.laid_eq]

section

variable (sized : fs.vol.Sized) (coherent : Coherent fs) {secNum : Nat} (word : secNum < 2 ^ 32)
include sized coherent word

section

variable {opType : OpType} {base ofs : Nat} {after : FsInfo} {bytes : List UInt8}
  (access : fs.bufAccess secNum opType = (.ok base, after))
  (inside : base + ofs + bytes.length ≤ fs.vol.bytesPerBlock)
  (whole : opType = .get → base + ofs = 0 ∧ bytes.length = fs.vol.bytesPerBlock)
include access inside whole

/-- Bytes that are put into the buffer of a sector are put on the disk with it. -/
theorem laid_modify :
    (after.modify (base + ofs) bytes).laid = put after.laid (secNum * fs.vol.bps + ofs) bytes := by
  obtain ⟨actual, blkNum, read, kept⟩ := bufAccess_buffer coherent word access
  obtain ⟨_, same⟩ := volume_bufAccess fs secNum opType
  rw [access] at same
  obtain ⟨off, _, _⟩ := coherent_modify coherent word access (base + ofs) bytes
  have vol : after.vol = fs.vol := same.vol
  have place : secNum * fs.vol.bps + ofs =
      sectorNumToBlockNum fs.vol secNum * fs.vol.bytesPerBlock + (base + ofs) := by
    rw [off, ← Nat.add_assoc, sized.sector_place word]
  have stored : (after.modify (base + ofs) bytes).laid =
      put after.disk (sectorNumToBlockNum fs.vol secNum * fs.vol.bytesPerBlock)
        (get (put after.c.buf (base + ofs) bytes) 0 fs.vol.bytesPerBlock) := by
    have laid' : (after.modify (base + ofs) bytes).laid =
        put after.disk (sectorNumToBlockNum after.vol after.c.blkNum * after.vol.bytesPerBlock)
          (get (put after.c.buf (base + ofs) bytes) 0 after.vol.bytesPerBlock) :=
      if_pos ⟨actual, rfl⟩
    rw [laid', blkNum, vol]
  rw [stored, place]
  rcases kept with clean | ⟨rfl, modified⟩
  · rw [Settled.laid_eq (Or.inr clean)]
    apply put_get_patch
    · intro index bounded outside
      cases opType with
      | read =>
        have read := (read rfl).same actual clean index (by rwa [vol])
        rw [read, block, blkNum, vol]
      | get =>
        have all := whole rfl
        omega
    · exact inside
  · have before : after.laid =
        put after.disk (sectorNumToBlockNum after.vol secNum * after.vol.bytesPerBlock)
          (get after.c.buf 0 after.vol.bytesPerBlock) := by
      rw [laid, if_pos ⟨actual, modified⟩, ← blkNum]
      rfl
    have buffered : ∀ index, index < after.vol.bytesPerBlock → after.c.buf index = after.laid
          (sectorNumToBlockNum after.vol secNum * after.vol.bytesPerBlock + index) := by
      intro index bounded
      rw [before, put_inside (by simpa using bounded)]
      simp [ByteRange.get]
    have patch : put after.laid (sectorNumToBlockNum after.vol secNum * after.vol.bytesPerBlock)
        (get (put after.c.buf (base + ofs) bytes) 0 after.vol.bytesPerBlock) = _ :=
      put_get_patch (fun index bounded _ => buffered index bounded) (by omega)
    rw [← patch, before, put_put_same (by simp)]

/-- Bytes that are put into the buffer of a sector are put into the contents, apart from the copies
for the other FATs. -/
theorem volume_modify_apart {place : Nat} (apart : Apart fs.vol secNum place) :
    (after.modify (base + ofs) bytes).volume place =
      put fs.volume (secNum * fs.vol.bps + ofs) bytes place := by
  obtain ⟨_, blkNum, _⟩ := bufAccess_buffer coherent word access
  obtain ⟨contents, same⟩ := volume_bufAccess fs secNum opType
  rw [access] at contents same
  have vol : after.vol = fs.vol := same.vol
  have num : (after.modify (base + ofs) bytes).c.blkNum = secNum := blkNum
  have unchanged : (after.modify (base + ofs) bytes).vol = fs.vol := vol
  have written := @volume_laid (after.modify (base + ofs) bytes) (unchanged ▸ sized) place
    (by rwa [num, unchanged])
  have before := @volume_laid after (vol ▸ sized) place (by rwa [blkNum, vol])
  rw [written, laid_modify sized coherent word access inside whole]
  refine put_congr (before.symm.trans (congrFun contents place))

end

/-- Bytes that are put into the buffer of a sector outside the FATs are put into the contents. -/
theorem volume_modify (plain : ¬ Mirrored fs.vol secNum) {base ofs : Nat} {bytes : List UInt8}
    (access : fs.bufAccess secNum opType = (.ok base, after))
    (inside : base + ofs + bytes.length ≤ fs.vol.bytesPerBlock)
    (whole : opType = .get → base + ofs = 0 ∧ bytes.length = fs.vol.bytesPerBlock) :
    (after.modify (base + ofs) bytes).volume = put fs.volume (secNum * fs.vol.bps + ofs) bytes ∧
      Coherent (after.modify (base + ofs) bytes) ∧ Still fs (after.modify (base + ofs) bytes) := by
  obtain ⟨_, finished, same⟩ := coherent_modify coherent word access (base + ofs) bytes
  obtain ⟨_, blkNum, _⟩ := bufAccess_buffer coherent word access
  have still : Still fs (after.modify (base + ofs) bytes) := by
    refine ⟨same, fun _ _ _ mirrored => absurd mirrored ?_⟩
    have num : (after.modify (base + ofs) bytes).c.blkNum = secNum := blkNum
    rwa [num, same.vol]
  exact ⟨funext fun place => volume_modify_apart sized coherent word access inside whole
    (apart_of_plain plain), finished, still⟩

end

/-- The buffer has the contents of its sector. -/
theorem Coherent.sector (sized : fs.vol.Sized) (coherent : Coherent fs) (actual : fs.c.actual = true)
    {index : Nat} (inside : index < fs.vol.bps) :
    fs.c.buf (sectorOffsetToBlockOffset fs.vol fs.c.blkNum 0 + index) =
      fs.volume (fs.c.blkNum * fs.vol.bps + index) := by
  have word := coherent.word actual
  have bounded := sized.offset_le word
  have place : fs.c.blkNum * fs.vol.bps + index =
      sectorNumToBlockNum fs.vol fs.c.blkNum * fs.vol.bytesPerBlock +
        (sectorOffsetToBlockOffset fs.vol fs.c.blkNum 0 + index) := by
    rw [← Nat.add_assoc, sized.sector_place word]
  cases modified : fs.c.modified with
  | false =>
    rw [Settled.volume_eq (Or.inr modified), place]
    exact coherent.same actual modified _ (by omega)
  | true =>
    have written : fs.writeBack.disk (fs.c.blkNum * fs.vol.bps + index) =
        fs.c.buf (sectorOffsetToBlockOffset fs.vol fs.c.blkNum 0 + index) := by
      have stored : fs.writeBack.disk = put fs.disk
          (sectorNumToBlockNum fs.vol fs.c.blkNum * fs.vol.bytesPerBlock)
            (get fs.c.buf 0 fs.vol.bytesPerBlock) := rfl
      rw [stored, place, put_inside (by rw [length_get]; omega)]
      simp [ByteRange.get]
    rw [volume, (bufRelease_of_modified actual modified).1, copied]
    split
    case isFalse => exact written.symm
    case isTrue =>
      rcases copyToFats_disk fs.writeBack
          (get fs.c.buf (sectorOffsetToBlockOffset fs.vol fs.c.blkNum 0) fs.vol.bps) sized length_get
          (fs.vol.fats - 1) 1 (fs.c.blkNum * fs.vol.bps + index) with
        same | ⟨num, other, _, _, within, found, value⟩
      · rw [same, written]
      · rw [value]
        have equal : other = index := by
          have left : (fs.c.blkNum * fs.vol.bps + index) % fs.vol.bps = index := by
            rw [Nat.mul_add_mod_self_right, mod_eq_of_lt inside]
          have right : ((fs.writeBack.c.blkNum + fs.vol.fatLength * num) % 2 ^ 32 * fs.vol.bps +
              other) % fs.vol.bps = other := by
            rw [Nat.mul_add_mod_self_right]
            exact mod_eq_of_lt within
          rw [← left, found]
          exact right.symm
        rw [equal, getD_get inside]

/-- The bytes of a device with the blocks of its volume. -/
def extent (fs : FsInfo) : Nat := fs.device.blockCount * fs.vol.bytesPerBlock

theorem Same.extent_eq {before : FsInfo} (same : Same before after) :
    after.extent = before.extent := by
  rw [extent, extent, same.vol, same.device]

/-- The sectors of a device. -/
theorem extent_eq (sized : fs.vol.Sized) :
    fs.extent = fs.device.blockCount * 2 ^ (fs.vol.bytesPerBlockLog2 - fs.vol.secLog2) * fs.vol.bps := by
  rw [extent, sized.bytesPerBlock_eq, Nat.mul_assoc]

/-- A sector with a byte on the device. -/
theorem sector_there (mounted : Mounted fs.vol fs.device) (secNum ofs : Nat)
    (there : secNum * fs.vol.bps + ofs < fs.extent) :
    sectorNumToBlockNum fs.vol secNum < fs.device.blockCount ∧ secNum + 1 < 2 ^ 32 ∧
      secNum * fs.vol.bps + fs.vol.bps ≤ fs.extent := by
  rw [extent_eq mounted.toSized] at there
  have sector : secNum < fs.device.blockCount *
      2 ^ (fs.vol.bytesPerBlockLog2 - fs.vol.secLog2) := by
    by_contra far
    have product := Nat.mul_le_mul_right fs.vol.bps (Nat.not_lt.mp far)
    omega
  have sectors := mounted.sectors
  refine ⟨Nat.div_lt_of_lt_mul (by rwa [Nat.mul_comm]), by omega, ?_⟩
  rw [extent_eq mounted.toSized, ← succ_mul]
  exact Nat.mul_le_mul_right _ sector

/-- A sector of the device is accessed and its bytes are in the buffer. -/
theorem access_read (sized : fs.vol.Sized) (coherent : Coherent fs) {secNum : Nat}
    (word : secNum < 2 ^ 32) (there : sectorNumToBlockNum fs.vol secNum < fs.device.blockCount) :
    ∃ after, fs.bufAccess secNum .read = (.ok (sectorOffsetToBlockOffset fs.vol secNum 0), after) ∧
      after.volume = fs.volume ∧ Coherent after ∧ Still fs after ∧ ∀ index, index < fs.vol.bps →
        after.c.buf (sectorOffsetToBlockOffset fs.vol secNum 0 + index) =
          fs.volume (secNum * fs.vol.bps + index) := by
  obtain ⟨contents, same⟩ := volume_bufAccess fs secNum .read
  rcases bufAccess_ok coherent secNum .read with ⟨ok, _⟩ | ⟨_, far⟩
  case inr => omega
  generalize access : fs.bufAccess secNum .read = result at ok contents same
  obtain ⟨answer, after⟩ := result
  cases ok
  obtain ⟨actual, blkNum, read, buf⟩ := bufAccess_buffer coherent word access
  have vol : after.vol = fs.vol := same.vol
  have home : Home fs → Home after := by
    intro home
    rcases buf with clean | ⟨rfl, _⟩
    · intro _ modified
      rw [clean] at modified
      cases modified
    · exact home
  refine ⟨after, rfl, contents, read rfl, ⟨same, home⟩, fun index inside => ?_⟩
  have sector := @Coherent.sector _ (vol ▸ sized) (read rfl) actual index (by rwa [vol])
  rw [blkNum, vol] at sector
  exact sector.trans (congrFun contents _)

section

variable (mounted : Mounted fs.vol fs.device)
include mounted

/-- Sectors are read from the contents. -/
theorem blockRead_spec (coherent : Coherent fs) {fuel secNum ofs count : Nat}
    (enough : count ≤ fuel) (inside : ofs < fs.vol.bps)
    (there : secNum * fs.vol.bps + ofs + count ≤ fs.extent) :
    ∃ after, blockRead fuel fs secNum ofs count =
        (.ok (get fs.volume (secNum * fs.vol.bps + ofs) count), after) ∧
      after.volume = fs.volume ∧ Coherent after ∧ Still fs after := by
  induction fuel generalizing fs secNum ofs count with
  | zero =>
    obtain rfl : count = 0 := by omega
    exact ⟨fs, rfl, rfl, coherent, Still.refl fs⟩
  | succ fuel ih =>
    rw [blockRead]
    by_cases none : count = 0
    · subst none
      exact ⟨fs, rfl, rfl, coherent, Still.refl fs⟩
    · rw [if_neg none]
      obtain ⟨block, next, ends⟩ := sector_there mounted secNum ofs (by omega)
      obtain ⟨middle, access, contents, finished, same, buffered⟩ :=
        access_read mounted.toSized coherent (by omega) block
      have vol : middle.vol = fs.vol := same.vol
      have bytes : get middle.c.buf (sectorOffsetToBlockOffset fs.vol secNum 0 + ofs)
            (min count (fs.vol.bps - ofs)) =
          get fs.volume (secNum * fs.vol.bps + ofs) (min count (fs.vol.bps - ofs)) := by
        apply List.map_congr_left
        intro index member
        have bounded := List.mem_range.mp member
        rw [Nat.add_assoc, buffered _ (by omega), Nat.add_assoc]
      rw [access]
      have rest := @ih middle (by rw [vol, same.device]; exact mounted) finished
        (secNum + 1) 0 (count - min count (fs.vol.bps - ofs)) (by omega)
        (by rw [vol]; exact mounted.toSized.bps_pos)
        (by rw [vol, same.extent_eq, succ_mul]; omega)
      obtain ⟨after, done, unchanged, finished, kept⟩ := rest
      refine ⟨after, ?_, unchanged.trans contents, finished, same.trans kept⟩
      have split : get fs.volume (secNum * fs.vol.bps + ofs) count =
          get fs.volume (secNum * fs.vol.bps + ofs) (min count (fs.vol.bps - ofs)) ++
            get middle.volume ((secNum + 1) * fs.vol.bps) (count - min count (fs.vol.bps - ofs)) := by
        have counts : count = min count (fs.vol.bps - ofs) + (count - min count (fs.vol.bps - ofs)) := by
          omega
        conv_lhs => rw [counts, get_add]
        congr 1
        by_cases short : count ≤ fs.vol.bps - ofs
        · rw [Nat.min_eq_left short, Nat.sub_self]
          rfl
        · rw [Nat.min_eq_right (by omega), contents, succ_mul]
          congr 1
          omega
      dsimp only
      rw [vol, mod_eq_of_lt next, done, bytes, split, vol]
      rfl

theorem block_sector (blk : Nat) : blockNumToSectorNum fs.vol blk < 2 ^ 32 ∧
      sectorOffsetToBlockOffset fs.vol (blockNumToSectorNum fs.vol blk) 0 = 0 := by
  have word : blockNumToSectorNum fs.vol blk < 2 ^ 32 := mod_lt _ (Nat.two_pow_pos 32)
  have bounded := mounted.toSized.block_le
  have small := mounted.small
  have power : 2 ^ (fs.vol.bytesPerBlockLog2 - fs.vol.secLog2) ∣ 2 ^ 32 :=
    Nat.pow_dvd_pow 2 (by omega)
  have aligned : 2 ^ (fs.vol.bytesPerBlockLog2 - fs.vol.secLog2) ∣
      blockNumToSectorNum fs.vol blk := (Nat.dvd_mod_iff power).mpr (Nat.dvd_mul_left _ _)
  refine ⟨word, ?_⟩
  rw [mounted.toSized.offset_eq word, Nat.mod_eq_zero_of_dvd aligned, Nat.zero_mul]

/-- The block of a block number that may be too large. -/
theorem block_place (blk : Nat) :
    sectorNumToBlockNum fs.vol (blockNumToSectorNum fs.vol blk) * fs.vol.bytesPerBlock =
      blockNumToSectorNum fs.vol blk * fs.vol.bps := by
  obtain ⟨word, aligned⟩ := block_sector mounted blk
  have place := mounted.toSized.sector_place word
  omega

theorem next_block {blk : Nat}
    (there : sectorNumToBlockNum fs.vol (blockNumToSectorNum fs.vol blk) < fs.device.blockCount) :
    blockNumToSectorNum fs.vol blk ≤ blockNumToSectorNum fs.vol ((blk + 1) % 2 ^ 32) ∧
      blockNumToSectorNum fs.vol ((blk + 1) % 2 ^ 32) * fs.vol.bps =
        blockNumToSectorNum fs.vol blk * fs.vol.bps + fs.vol.bytesPerBlock := by
  have sectors := mounted.sectors
  have bounded : blockNumToSectorNum fs.vol blk +
      2 ^ (fs.vol.bytesPerBlockLog2 - fs.vol.secLog2) < 2 ^ 32 := by
    obtain ⟨word, aligned⟩ := block_sector mounted blk
    have product := Nat.mul_le_mul_right (2 ^ (fs.vol.bytesPerBlockLog2 - fs.vol.secLog2))
      (Nat.succ_le_of_lt there)
    rw [mounted.toSized.offset_eq word, Nat.mul_eq_zero] at aligned
    have positive := mounted.toSized.bps_pos
    have whole := Nat.div_mul_cancel (Nat.dvd_of_mod_eq_zero (aligned.resolve_right (by omega)))
    rw [succ_mul, sectorNumToBlockNum, whole] at product
    omega
  have next : blockNumToSectorNum fs.vol ((blk + 1) % 2 ^ 32) =
      blockNumToSectorNum fs.vol blk + 2 ^ (fs.vol.bytesPerBlockLog2 - fs.vol.secLog2) := by
    rw [blockNumToSectorNum, Nat.mod_mul_mod, succ_mul, Nat.add_mod,
      mod_eq_of_lt (by omega : 2 ^ (fs.vol.bytesPerBlockLog2 - fs.vol.secLog2) < 2 ^ 32)]
    exact mod_eq_of_lt bounded
  rw [next, Nat.add_mul, mounted.toSized.bytesPerBlock_eq]
  exact ⟨Nat.le_add_right _ _, rfl⟩

/-- Bytes are written to a block behind the FATs. -/
theorem blockWrite_spec (coherent : Coherent fs) (blk ofs : Nat) (bytes : List UInt8)
    (some : 0 < bytes.length) (inside : ofs + bytes.length ≤ fs.vol.bytesPerBlock)
    (front : fs.vol.rdirLoc ≤ blockNumToSectorNum fs.vol blk) :
    ∃ after, (sectorNumToBlockNum fs.vol (blockNumToSectorNum fs.vol blk) < fs.device.blockCount →
        fs.blockWrite blk ofs bytes = (.ok bytes.length, after) ∧
          after.volume = put fs.volume (blockNumToSectorNum fs.vol blk * fs.vol.bps + ofs) bytes ∧
          Coherent after ∧ Still fs after) ∧
      (fs.device.blockCount ≤ sectorNumToBlockNum fs.vol (blockNumToSectorNum fs.vol blk) →
        ∃ errno, fs.blockWrite blk ofs bytes = (.error errno, after)) := by
  obtain ⟨word, aligned⟩ := block_sector mounted blk
  have count : min bytes.length (fs.vol.bytesPerBlock - ofs) = bytes.length := by omega
  have plain : ¬ Mirrored fs.vol (blockNumToSectorNum fs.vol blk) := by
    rintro ⟨_, behind, _⟩
    omega
  rw [blockWrite]
  dsimp only
  rw [count, if_pos some]
  generalize chosen : (if bytes.length = fs.vol.bytesPerBlock then OpType.get else OpType.read) =
    opType
  rcases bufAccess_ok coherent (blockNumToSectorNum fs.vol blk) opType with
    ⟨ok, there⟩ | ⟨⟨errno, failed⟩, far⟩
  · generalize access : fs.bufAccess (blockNumToSectorNum fs.vol blk) opType = result at ok
    obtain ⟨answer, middle⟩ := result
    cases ok
    have whole : opType = .get →
        sectorOffsetToBlockOffset fs.vol (blockNumToSectorNum fs.vol blk) 0 + ofs = 0 ∧
          bytes.length = fs.vol.bytesPerBlock := by
      intro get
      rw [get] at chosen
      split at chosen
      case isTrue all => omega
      case isFalse => cases chosen
    obtain ⟨written, finished, same⟩ := volume_modify mounted.toSized coherent word plain access
      (by omega) whole
    refine ⟨_, fun _ => ⟨rfl, ?_⟩, fun far => absurd there (by omega)⟩
    rw [List.take_length]
    exact ⟨written, finished, same⟩
  · generalize fs.bufAccess (blockNumToSectorNum fs.vol blk) opType = result at failed
    obtain ⟨answer, middle⟩ := result
    cases failed
    exact ⟨_, fun there => absurd there (by omega), fun _ => ⟨errno, rfl⟩⟩

/-- Bytes are written to blocks behind the FATs, if they are on the device. -/
theorem writeBlocks_spec (coherent : Coherent fs) {fuel blk ofs : Nat} {bytes : List UInt8}
    (enough : bytes.length ≤ fuel) (inside : ofs < fs.vol.bytesPerBlock)
    (front : fs.vol.rdirLoc ≤ blockNumToSectorNum fs.vol blk) :
    ∃ after, (blockNumToSectorNum fs.vol blk * fs.vol.bps + ofs + bytes.length ≤ fs.extent →
        writeBlocks fuel fs blk ofs bytes = (.ok (), after) ∧
          after.volume = put fs.volume (blockNumToSectorNum fs.vol blk * fs.vol.bps + ofs) bytes ∧
          Coherent after ∧ Still fs after) ∧ (0 < bytes.length →
        fs.extent < blockNumToSectorNum fs.vol blk * fs.vol.bps + ofs + bytes.length →
          ∃ errno, writeBlocks fuel fs blk ofs bytes = (.error errno, after)) := by
  induction fuel generalizing fs blk ofs bytes with
  | zero =>
    obtain rfl : bytes = [] := List.eq_nil_of_length_eq_zero (by omega)
    exact ⟨fs, fun _ => ⟨rfl, put_nil.symm, coherent, Still.refl fs⟩, fun some => absurd some (by simp)⟩
  | succ fuel ih =>
    rw [writeBlocks]
    by_cases none : bytes.length = 0
    · obtain rfl := List.eq_nil_of_length_eq_zero none
      exact
        ⟨fs, fun _ => ⟨rfl, put_nil.symm, coherent, Still.refl fs⟩, fun some => absurd some (by simp)⟩
    · rw [if_neg none]
      have place := block_place mounted blk
      have count : (bytes.take (min bytes.length (fs.vol.bytesPerBlock - ofs))).length =
          min bytes.length (fs.vol.bytesPerBlock - ofs) := by simp
      obtain ⟨middle, there, far⟩ := blockWrite_spec mounted coherent blk ofs
        (bytes.take (min bytes.length (fs.vol.bytesPerBlock - ofs))) (by omega) (by omega) front
      rw [count] at there
      by_cases block : sectorNumToBlockNum fs.vol (blockNumToSectorNum fs.vol blk) <
          fs.device.blockCount
      case neg =>
        obtain ⟨errno, failed⟩ := far (Nat.not_lt.mp block)
        have product := Nat.mul_le_mul_right fs.vol.bytesPerBlock (Nat.not_lt.mp block)
        refine ⟨middle, fun bounded => ?_, fun _ _ => ⟨errno, ?_⟩⟩
        · rw [extent] at bounded
          omega
        · dsimp only
          rw [failed]
      case pos =>
        obtain ⟨written, contents, finished, same⟩ := there block
        have product := Nat.mul_le_mul_right fs.vol.bytesPerBlock (Nat.succ_le_of_lt block)
        rw [succ_mul, place] at product
        obtain ⟨next, nextPlace⟩ := next_block mounted block
        have vol : middle.vol = fs.vol := same.vol
        obtain ⟨after, ok, error⟩ := @ih middle
          (by rw [vol, same.device]; exact mounted) finished ((blk + 1) % 2 ^ 32) 0
          (bytes.drop (min bytes.length (fs.vol.bytesPerBlock - ofs))) (by simp; omega)
          (by rw [vol]; exact mounted.toSized.bytesPerBlock_pos) (by rw [vol]; omega)
        rw [vol, same.extent_eq, Nat.add_zero, nextPlace, List.length_drop] at ok error
        rw [extent] at ok error ⊢
        dsimp only
        rw [written]
        dsimp only
        rw [if_neg (by simp)]
        refine ⟨after, fun bounded => ?_, fun some far => ?_⟩
        · obtain ⟨done, stored, kept, still⟩ := ok (by omega)
          refine ⟨done, ?_, kept, same.trans still⟩
          rw [stored, contents]
          by_cases short : bytes.length ≤ fs.vol.bytesPerBlock - ofs
          · rw [Nat.min_eq_left short, List.take_length, List.drop_length, put_nil]
          · have split := List.take_append_drop (fs.vol.bytesPerBlock - ofs) bytes
            have first : (bytes.take (fs.vol.bytesPerBlock - ofs)).length =
                fs.vol.bytesPerBlock - ofs := by
              rw [List.length_take]
              omega
            conv_rhs => rw [← split, put_append, first]
            rw [Nat.min_eq_right (by omega)]
            congr 1
            omega
        · exact error (by omega) (by omega)

end

/-- The first block of a cluster begins with the first sector of the cluster. -/
theorem cluster_sector (sized : fs.vol.Sized) (cln : Nat) :
    blockNumToSectorNum fs.vol (clusterNumToBlockNum fs.vol cln) = clusterNumToSectorNum fs.vol cln := by
  have cluster := sized.cluster
  have whole : ∀ sec, (fs.vol.bytesPerBlockLog2 = fs.vol.secLog2 ∨ sec % fs.vol.spc = 0 ∧
      fs.vol.bytesPerBlockLog2 = fs.vol.bpcLog2) →
      sectorNumToBlockNum fs.vol sec * 2 ^ (fs.vol.bytesPerBlockLog2 - fs.vol.secLog2) = sec := by
    intro sec aligned
    apply Nat.div_mul_cancel
    rcases aligned with single | ⟨aligned, raised⟩
    · rw [single, Nat.sub_self]
      exact Nat.one_dvd sec
    · have shift : fs.vol.bytesPerBlockLog2 - fs.vol.secLog2 = fs.vol.spcLog2 := by omega
      rw [shift, ← sized.spc]
      exact Nat.dvd_of_mod_eq_zero aligned
  rw [blockNumToSectorNum, clusterNumToBlockNum, clusterNumToSectorNum]
  by_cases root : cln = 0 ∧ fs.vol.type ≠ .fat32
  · rw [if_pos root, if_pos root, whole, mod_eq_of_lt sized.rdirLoc]
    rcases sized.raised with single | ⟨raised, _, type | aligned⟩
    · exact Or.inl single
    · exact absurd type root.2
    · exact Or.inr ⟨aligned, raised⟩
  · have shift : fs.vol.bpcLog2 - fs.vol.bytesPerBlockLog2 +
        (fs.vol.bytesPerBlockLog2 - fs.vol.secLog2) = fs.vol.spcLog2 := by
      rcases sized.raised with single | ⟨raised, _⟩ <;> omega
    rw [if_neg root, if_neg root, Nat.mod_mul_mod, Nat.add_mul, whole, Nat.mul_assoc, ← Nat.pow_add,
      shift]
    rcases sized.raised with single | ⟨raised, aligned, _⟩
    · exact Or.inl single
    · exact Or.inr ⟨aligned, raised⟩

/-- A block behind another one. -/
theorem block_add (blk count : Nat) :
    blockNumToSectorNum fs.vol ((blk + count) % 2 ^ 32) = (blockNumToSectorNum fs.vol blk +
        count * 2 ^ (fs.vol.bytesPerBlockLog2 - fs.vol.secLog2)) % 2 ^ 32 := by
  rw [blockNumToSectorNum, blockNumToSectorNum, Nat.mod_mul_mod, Nat.add_mul, Nat.mod_add_mod]

/-- The sector that a write at an offset of a cluster begins in. -/
def writeSector (vol : Volume) (cln offset : Nat) : Nat :=
  (clusterNumToSectorNum vol cln +
    offset / vol.bytesPerBlock * 2 ^ (vol.bytesPerBlockLog2 - vol.secLog2)) % 2 ^ 32

section

variable (mounted : Mounted fs.vol fs.device) (coherent : Coherent fs)
include mounted coherent

/-- Bytes are written to a cluster behind the FATs exactly if their blocks are on the device. -/
theorem clusterWrite_cases (cln off : Nat) (bytes : List UInt8)
    (inside : off + bytes.length ≤ fs.vol.bpc)
    (front : fs.vol.rdirLoc ≤ writeSector fs.vol cln off) :
    ∃ after, (writeSector fs.vol cln off * fs.vol.bps + off % fs.vol.bytesPerBlock + bytes.length ≤
          fs.extent → fs.clusterWrite cln off bytes = (.ok bytes.length, after) ∧
          after.volume = put fs.volume
            (writeSector fs.vol cln off * fs.vol.bps + off % fs.vol.bytesPerBlock) bytes ∧
          Coherent after ∧ Still fs after) ∧ (0 < bytes.length →
        fs.extent < writeSector fs.vol cln off * fs.vol.bps + off % fs.vol.bytesPerBlock +
            bytes.length → ∃ errno, fs.clusterWrite cln off bytes = (.error errno, after)) := by
  have sector : blockNumToSectorNum fs.vol
      ((clusterNumToBlockNum fs.vol cln + off / fs.vol.bytesPerBlock) % 2 ^ 32) =
        writeSector fs.vol cln off := by
    rw [block_add, cluster_sector mounted.toSized, writeSector]
  have count : min bytes.length (fs.vol.bpc - off) = bytes.length := by omega
  have rest : off - off / fs.vol.bytesPerBlock * fs.vol.bytesPerBlock =
      off % fs.vol.bytesPerBlock := by
    have split := Nat.div_add_mod' off fs.vol.bytesPerBlock
    omega
  obtain ⟨after, ok, error⟩ := @writeBlocks_spec fs mounted coherent bytes.length
    ((clusterNumToBlockNum fs.vol cln + off / fs.vol.bytesPerBlock) % 2 ^ 32)
    (off % fs.vol.bytesPerBlock) bytes (le_refl _)
    (mod_lt _ mounted.toSized.bytesPerBlock_pos) (by rwa [sector])
  rw [sector] at ok error
  rw [clusterWrite, count, List.take_length, ← mounted.toSized.block, rest]
  refine ⟨after, fun there => ?_, fun some far => ?_⟩
  · obtain ⟨written, contents⟩ := ok there
    rw [written]
    exact ⟨rfl, contents⟩
  · obtain ⟨errno, failed⟩ := error some far
    rw [failed]
    exact ⟨errno, rfl⟩

/-- Bytes are written to a cluster of the device behind the FATs. -/
theorem clusterWrite_spec (cln off : Nat) (bytes : List UInt8)
    (inside : off + bytes.length ≤ fs.vol.bpc)
    (front : fs.vol.rdirLoc ≤ clusterNumToSectorNum fs.vol cln)
    (there : clusterNumToSectorNum fs.vol cln * fs.vol.bps + off + bytes.length ≤ fs.extent) :
    ∃ after, fs.clusterWrite cln off bytes = (.ok bytes.length, after) ∧ after.volume =
        put fs.volume (clusterNumToSectorNum fs.vol cln * fs.vol.bps + off) bytes ∧
      Coherent after ∧ Still fs after := by
  have split := Nat.div_add_mod' off fs.vol.bytesPerBlock
  have blocks : off / fs.vol.bytesPerBlock *
      2 ^ (fs.vol.bytesPerBlockLog2 - fs.vol.secLog2) * fs.vol.bps =
        off / fs.vol.bytesPerBlock * fs.vol.bytesPerBlock := by
    rw [Nat.mul_assoc, ← mounted.toSized.bytesPerBlock_eq]
  have sectors := mounted.sectors
  have bounded : clusterNumToSectorNum fs.vol cln + off / fs.vol.bytesPerBlock *
      2 ^ (fs.vol.bytesPerBlockLog2 - fs.vol.secLog2) < 2 ^ 32 := by
    rw [extent_eq mounted.toSized] at there
    by_contra far
    have product := Nat.mul_le_mul_right fs.vol.bps (Nat.not_lt.mp far)
    have most := Nat.mul_lt_mul_of_pos_right sectors mounted.toSized.bps_pos
    rw [Nat.add_mul] at product
    omega
  have sector : writeSector fs.vol cln off = clusterNumToSectorNum fs.vol cln +
      off / fs.vol.bytesPerBlock * 2 ^ (fs.vol.bytesPerBlockLog2 - fs.vol.secLog2) :=
    mod_eq_of_lt bounded
  have place : writeSector fs.vol cln off * fs.vol.bps + off % fs.vol.bytesPerBlock =
      clusterNumToSectorNum fs.vol cln * fs.vol.bps + off := by
    rw [sector, Nat.add_mul]
    omega
  obtain ⟨after, ok, _⟩ := clusterWrite_cases mounted coherent cln off bytes inside (by omega)
  rw [place] at ok
  exact ⟨after, ok there⟩

end

end FsInfo

end Rtems.Dosfs
