import Rtems.Dosfs.Volume

/-!
# The geometry of a volume

The sizes of a volume that was accepted are powers of two, so that sectors, blocks and clusters are
shifts of each other.
-/

namespace Rtems.Dosfs

/-- The sizes of a volume. -/
structure Volume.Sized (vol : Volume) : Prop where
  bps : vol.bps = 2 ^ vol.secLog2
  spc : vol.spc = 2 ^ vol.spcLog2
  bpc : vol.bpc = 2 ^ vol.bpcLog2
  cluster : vol.bpcLog2 = vol.secLog2 + vol.spcLog2
  block : vol.bytesPerBlock = 2 ^ vol.bytesPerBlockLog2
  single : 9 ≤ vol.secLog2
  small : vol.bpcLog2 ≤ 19
  raised : vol.bytesPerBlockLog2 = vol.secLog2 ∨
    vol.bytesPerBlockLog2 = vol.bpcLog2 ∧ vol.dataFsec % vol.spc = 0 ∧
      (vol.type = .fat32 ∨ vol.rdirLoc % vol.spc = 0)
  rdirSize : vol.rdirSize = vol.rdirSecs * vol.bps
  rdirSecs : vol.rdirSecs ≤ 4096
  dataFsec : vol.dataFsec = (vol.rdirLoc + vol.rdirSecs) % 2 ^ 32
  rdirLoc : vol.rdirLoc < 2 ^ 32
  rootLimit : vol.rdirSize ≤ 0x200000
  rdirCl : vol.type ≠ .fat32 → vol.rdirCl = 0
  fatEnd : vol.rdirLoc = (vol.fatLoc + vol.fats * vol.fatLength) % 2 ^ 32
  afatLoc : vol.afatLoc = (vol.fatLoc + vol.fatLength * vol.afat) % 2 ^ 32
  afat : vol.mirror = 0 → vol.afat = 0
  typed : typeOf vol.dataCls = some vol.type

variable {k : Nat}

theorem shiftsToOdd_pow {fuel : Nat} (small : k < fuel) : shiftsToOdd fuel (2 ^ k) = k := by
  induction fuel generalizing k with
  | zero => omega
  | succ fuel ih =>
    cases k with
    | zero => simp [shiftsToOdd]
    | succ k =>
      have even : 2 ^ (k + 1) % 2 = 0 := by omega
      have half : 2 ^ (k + 1) / 2 = 2 ^ k := by omega
      rw [shiftsToOdd, if_pos even, half, ih (by omega)]

theorem log2_pow (small : k < 32) : log2 (2 ^ k) = k := shiftsToOdd_pow small

theorem getVal_lt (bytes : Content) (place size : Nat) : getVal bytes place size < 256 ^ size := by
  have bounded := LittleEndian.read_lt (ByteRange.get bytes place size)
  rwa [ByteRange.length_get] at bounded

/-- The sectors of a device, counted in blocks of the volume, are words. -/
structure Mounted (vol : Volume) (device : Device) : Prop extends vol.Sized where
  sectors : device.blockCount * 2 ^ (vol.bytesPerBlockLog2 - vol.secLog2) < 2 ^ 32

variable {vol : Volume} {device : Device}

namespace Volume.Sized

variable (sized : vol.Sized)
include sized

theorem single_le : vol.secLog2 ≤ vol.bytesPerBlockLog2 := by
  have cluster := sized.cluster
  rcases sized.raised with same | ⟨same, _⟩ <;> omega

theorem block_le : vol.bytesPerBlockLog2 ≤ vol.bpcLog2 := by
  have cluster := sized.cluster
  rcases sized.raised with same | ⟨same, _⟩ <;> omega

theorem bps_pos : 0 < vol.bps := by
  rw [sized.bps]
  exact Nat.two_pow_pos _

theorem bytesPerBlock_eq :
    vol.bytesPerBlock = 2 ^ (vol.bytesPerBlockLog2 - vol.secLog2) * vol.bps := by
  rw [sized.block, sized.bps, ← Nat.pow_add, Nat.sub_add_cancel sized.single_le]

theorem bytesPerBlock_lt : vol.bytesPerBlock < 2 ^ 32 := by
  have bounded := sized.block_le
  have small := sized.small
  rw [sized.block]
  exact Nat.pow_lt_pow_right (by decide) (by omega)

theorem bytesPerBlock_pos : 0 < vol.bytesPerBlock := by
  rw [sized.block]
  exact Nat.two_pow_pos _

theorem bpc_eq : vol.bpc = vol.spc * vol.bps := by
  rw [sized.bpc, sized.spc, sized.bps, sized.cluster, ← Nat.pow_add, Nat.add_comm]

variable {sec : Nat}

/-- A sector in its block. -/
theorem offset_eq (word : sec < 2 ^ 32) :
    sectorOffsetToBlockOffset vol sec 0 = sec % 2 ^ (vol.bytesPerBlockLog2 - vol.secLog2) * vol.bps := by
  have split := Nat.div_add_mod' sec (2 ^ (vol.bytesPerBlockLog2 - vol.secLog2))
  have back : blockNumToSectorNum vol (sectorNumToBlockNum vol sec) =
      sec / 2 ^ (vol.bytesPerBlockLog2 - vol.secLog2) *
        2 ^ (vol.bytesPerBlockLog2 - vol.secLog2) := by
    rw [blockNumToSectorNum, sectorNumToBlockNum, Nat.mod_eq_of_lt (by omega)]
  have rest : minus sec (blockNumToSectorNum vol (sectorNumToBlockNum vol sec)) =
      sec % 2 ^ (vol.bytesPerBlockLog2 - vol.secLog2) := by
    rw [back, minus]
    omega
  have inside : sec % 2 ^ (vol.bytesPerBlockLog2 - vol.secLog2) * vol.bps < 2 ^ 32 := by
    have bounded : sec % 2 ^ (vol.bytesPerBlockLog2 - vol.secLog2) * vol.bps <
        vol.bytesPerBlock := by
      rw [sized.bytesPerBlock_eq]
      exact Nat.mul_lt_mul_of_pos_right (Nat.mod_lt _ (Nat.two_pow_pos _)) sized.bps_pos
    exact bounded.trans sized.bytesPerBlock_lt
  rw [sectorOffsetToBlockOffset, rest, Nat.zero_add, ← sized.bps, Nat.mod_eq_of_lt inside]

theorem sector_place (word : sec < 2 ^ 32) :
    sectorNumToBlockNum vol sec * vol.bytesPerBlock + sectorOffsetToBlockOffset vol sec 0 =
      sec * vol.bps := by
  rw [sized.offset_eq word, sectorNumToBlockNum, sized.bytesPerBlock_eq, ← Nat.mul_assoc,
    ← Nat.add_mul, Nat.div_add_mod']

theorem offset_le (word : sec < 2 ^ 32) :
    sectorOffsetToBlockOffset vol sec 0 + vol.bps ≤ vol.bytesPerBlock := by
  have bounded := Nat.mod_lt sec (Nat.two_pow_pos (vol.bytesPerBlockLog2 - vol.secLog2))
  rw [sized.offset_eq word, sized.bytesPerBlock_eq, ← Nat.succ_mul]
  exact Nat.mul_le_mul_right _ bounded

end Volume.Sized

theorem volumeOf_sized {disk : Content} (type : FatType) (known : ¬ (getVal disk 11 2 ≠ 512 ∧ getVal
      disk 11 2 ≠ 1024 ∧ getVal disk 11 2 ≠ 2048 ∧ getVal disk 11 2 ≠ 4096))
    (power : getVal disk 13 1 = 2 ^ log2 (getVal disk 13 1))
    (typed : typeOf (dataClsOf disk) = some type) :
    (volumeOf disk type).Sized ∧
      (volumeOf disk type).bytesPerBlockLog2 = (volumeOf disk type).secLog2 := by
  obtain ⟨k, bps, low, high⟩ : ∃ k, getVal disk 11 2 = 2 ^ k ∧ 9 ≤ k ∧ k ≤ 12 := by
    rcases Classical.not_and_iff_not_or_not.mp known with same | others
    · exact ⟨9, by omega, by omega, by omega⟩
    · rcases Classical.not_and_iff_not_or_not.mp others with same | others
      · exact ⟨10, by omega, by omega, by omega⟩
      · rcases Classical.not_and_iff_not_or_not.mp others with same | same
        · exact ⟨11, by omega, by omega, by omega⟩
        · exact ⟨12, by omega, by omega, by omega⟩
  have secLog2 : log2 (getVal disk 11 2) = k := by rw [bps, log2_pow (by omega)]
  have shift : log2 (getVal disk 13 1) ≤ 7 := by
    by_contra large
    have least := Nat.pow_le_pow_right (by decide : 0 < 2) (by omega : 8 ≤ log2 (getVal disk 13 1))
    have bounded := getVal_lt disk 13 1
    omega
  have bpc : getVal disk 11 2 * 2 ^ log2 (getVal disk 13 1) = 2 ^ (k + log2 (getVal disk 13 1)) := by
    rw [bps, Nat.pow_add]
  have bpcLog2 : log2 (getVal disk 11 2 * 2 ^ log2 (getVal disk 13 1)) =
      k + log2 (getVal disk 13 1) := by rw [bpc, log2_pow (by omega)]
  have entries := getVal_lt disk 17 2
  have secs : rdirSecsOf disk = (getVal disk 17 2 * 32 + (2 ^ k - 1)) / 2 ^ k := by
    rw [rdirSecsOf, bps, direntrySize]
  have size : rdirSecsOf disk * 2 ^ k ≤ 0x200000 ∧ rdirSecsOf disk ≤ 4096 := by
    have cases : k = 9 ∨ k = 10 ∨ k = 11 ∨ k = 12 := by omega
    rcases cases with rfl | rfl | rfl | rfl <;> omega
  refine ⟨?_, rfl⟩
  constructor
  · exact bps.trans (congrArg _ secLog2.symm)
  · exact power
  · exact bpc.trans (congrArg _ bpcLog2.symm)
  · exact bpcLog2.trans (congrArg (· + _) secLog2.symm)
  · exact bps.trans (congrArg _ secLog2.symm)
  · exact low.trans_eq secLog2.symm
  · exact bpcLog2.le.trans (by omega)
  · exact Or.inl rfl
  · exact (congrArg (rdirSecsOf disk * ·) (bps.trans (congrArg _ secLog2.symm))).symm
  · exact size.2
  · change dataFsecOf disk = (rdirLocOf disk + rdirSecsOf disk) % 2 ^ 32
    rw [dataFsecOf, rdirLocOf]
    omega
  · exact Nat.mod_lt _ (Nat.two_pow_pos 32)
  · exact (congrArg (rdirSecsOf disk * 2 ^ ·) secLog2).le.trans size.1
  · exact fun other => if_neg other
  · rfl
  · rfl
  · intro mirror
    exact if_neg (Classical.not_not.mpr mirror)
  · exact typed

/-- The blocks of a device hold at most as many sectors as the device has media blocks. -/
theorem setBlockSize_sectors {before after : Device} {bps : Nat} (least : before.mediaBlockSize ≤ bps)
    (set : before.setBlockSize (2 ^ k * bps) = some after) : after.blockCount * 2 ^ k < 2 ^ 32 := by
  rw [Device.setBlockSize] at set
  split at set
  case isFalse => cases set
  case isTrue =>
    cases set
    have fits := before.fits
    rcases Nat.eq_zero_or_pos before.mediaBlockSize with none | some
    · simp [none]
    · have blocks : 2 ^ k ≤ 2 ^ k * bps / before.mediaBlockSize :=
        (Nat.le_div_iff_mul_le some).mpr (Nat.mul_le_mul_left _ least)
      have bounded : before.size / (2 ^ k * bps / before.mediaBlockSize) * 2 ^ k ≤ before.size :=
        (Nat.mul_le_mul_left _ blocks).trans (Nat.div_mul_le_self _ _)
      exact bounded.trans_lt fits

theorem raiseBlockSize_mounted (mounted : Mounted vol device)
    (least : device.mediaBlockSize ≤ vol.bps) :
    Mounted (raiseBlockSize device vol).2 (raiseBlockSize device vol).1 := by
  simp only [raiseBlockSize]
  split
  case isFalse => exact mounted
  case isTrue aligned =>
    split
    case h_2 => exact mounted
    case h_1 raised set =>
      simp only [isClusterAligned, decide_eq_true_eq] at aligned
      have cluster := mounted.cluster
      have difference : vol.bpcLog2 - vol.secLog2 = vol.spcLog2 := by omega
      have shape : device.setBlockSize (2 ^ vol.spcLog2 * vol.bps) = some raised := by
        rw [← mounted.spc, ← mounted.toSized.bpc_eq]
        exact set
      refine { mounted with block := mounted.bpc, raised := Or.inr ⟨rfl, aligned⟩, sectors := ?_ }
      rw [difference]
      exact setBlockSize_sectors least shape

/-- The volume of an accepted boot record. -/
theorem fatInitVolumeInfo_mounted {disk : Content} {unread : Nat → Content} {fs : FsInfo}
    (accepted : fatInitVolumeInfo disk unread device = .ok fs) : Mounted fs.vol fs.device := by
  simp only [fatInitVolumeInfo] at accepted
  split at accepted
  case isTrue => cases accepted
  case isFalse known =>
    split at accepted
    case h_1 => cases accepted
    case h_2 first set =>
      split at accepted
      case isTrue => cases accepted
      case isFalse =>
        split at accepted
        case isTrue => cases accepted
        case isFalse power =>
          split at accepted
          case h_1 => cases accepted
          case h_2 type typed =>
            split at accepted
            case h_1 => cases accepted
            case h_2 =>
              cases accepted
              obtain ⟨sized, single⟩ := volumeOf_sized type known (Classical.not_not.mp power) typed
              have least : first.mediaBlockSize ≤ (volumeOf disk type).bps := by
                rw [Device.setBlockSize] at set
                split at set
                case isFalse => cases set
                case isTrue enough =>
                  cases set
                  exact enough.2.2
              have plain : Mounted (volumeOf disk type) first := by
                refine { toSized := sized, sectors := ?_ }
                rw [single, Nat.sub_self]
                have shape : device.setBlockSize (2 ^ 0 * (volumeOf disk type).bps) = some first := by
                  rw [Nat.pow_zero, Nat.one_mul]
                  exact set
                refine setBlockSize_sectors ?_ shape
                rw [Device.setBlockSize] at set
                split at set
                case isFalse => cases set
                case isTrue enough => exact enough.2.2
              exact raiseBlockSize_mounted plain least

end Rtems.Dosfs
