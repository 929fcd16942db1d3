import Rtems.Dosfs.Contents
import Rtems.Dosfs.File

/-!
# The root directory of FAT12 and FAT16

The root directory is not a chain of clusters. It is read by sectors from its location on. It is
written by a cluster number: the one of the file, which is zero, with the clusters in front of the
offset added. Zero stands for the location of the root directory, but other numbers are those of
data clusters.
-/

namespace Rtems.Dosfs

open ByteRange FsInfo FileFd

/-- What a write to the root directory should do: all bytes are written, they are read back, and no
other byte of the volume changes. -/
def WritesLand (vol : Volume) (device : Device) (p n : Nat) : Prop :=
  ∀ (fs : FsInfo) (buf : Content), fs.vol = vol → fs.device = device → Coherent fs →
    ∃ written fd, fatFileWrite fs (rootFd vol) p n buf = (.ok n, written, fd) ∧
      written.volume = put fs.volume (vol.rdirLoc * vol.bps + p) (get buf 0 n) ∧
      ∃ read, fatFileRead written fd p n = (.ok (get buf 0 n), read, fd) ∧
        read.volume = written.volume

/-- Where a write lands: it does not pass the end of a cluster of the root directory, and it is in
the first cluster or the root directory has exactly two. -/
structure RootCluster (vol : Volume) (device : Device) (p n : Nat) : Prop where
  one : p % vol.bpc + n ≤ vol.bpc
  first : p < vol.bpc ∨ vol.rdirSize = 2 * vol.bpc
  there : vol.rdirLoc * vol.bps + p + n ≤ device.blockCount * vol.bytesPerBlock

variable {vol : Volume} {fs : FsInfo} {p n : Nat}

theorem rootFd_isRoot (type : vol.type ≠ .fat32) : (rootFd vol).isFat12OrFat16RootDir vol.type = true := by
  simp [isFat12OrFat16RootDir, rootFd, type]

/-- A write to the root directory goes to one cluster. -/
theorem root_write (sized : fs.vol.Sized) (type : fs.vol.type ≠ .fat32) (some : 0 < n)
    (inside : p + n ≤ fs.vol.rdirSize) (buf : Content) :
    fatFileWrite fs (rootFd fs.vol) p n buf =
      (match fs.clusterWrite (p / fs.vol.bpc) (p % fs.vol.bpc) (get buf 0 n) with
      | (.error errno, after) => (.error errno, after, rootFd fs.vol)
      | (.ok ret, after) => (.ok ret, after, rootFd fs.vol)) := by
  have limit := sized.rootLimit
  have bpc := sized.bpc
  have within : (p + n) % 2 ^ 32 = p + n := Nat.mod_eq_of_lt (by omega)
  have extended : fatFileExtend fs (rootFd fs.vol)
      (decide (p > (rootFd fs.vol).fatFileSize)) (p + n) = (.ok (p + n), fs, rootFd fs.vol) :=
    if_pos inside
  have cluster : (0 + p / 2 ^ fs.vol.bpcLog2) % 2 ^ 32 = p / fs.vol.bpc := by
    have bounded := Nat.div_le_self p (2 ^ fs.vol.bpcLog2)
    rw [Nat.zero_add, Nat.mod_eq_of_lt (by omega), bpc]
  have cln : (rootFd fs.vol).cln = 0 := sized.rdirCl type
  have sizeLimit : (rootFd fs.vol).sizeLimit = 0x200000 := rfl
  rw [fatFileWrite]
  dsimp only
  rw [if_neg (by omega), if_neg (by omega), if_neg (by omega), within, extended]
  dsimp only
  rw [if_pos (rootFd_isRoot type), if_neg (Classical.not_not.mpr rfl), cln, cluster] <;> rfl

theorem root_read (sized : fs.vol.Sized) (type : fs.vol.type ≠ .fat32) (some : 0 < n)
    (inside : p + n ≤ fs.vol.rdirSize) :
    fatFileRead fs (rootFd fs.vol) p n =
      (match blockRead n fs ((fs.vol.rdirLoc + p / fs.vol.bps) % 2 ^ 32) (p % fs.vol.bps) n with
      | (.error errno, after) => (.error errno, after, rootFd fs.vol)
      | (.ok bytes, after) => (.ok bytes, after, rootFd fs.vol)) := by
  have size : (rootFd fs.vol).fatFileSize = fs.vol.rdirSize := rfl
  have cln : (rootFd fs.vol).cln = 0 := sized.rdirCl type
  have location : clusterNumToSectorNum fs.vol 0 = fs.vol.rdirLoc := if_pos ⟨rfl, type⟩
  rw [fatFileRead]
  rw [if_pos (rootFd_isRoot type), if_neg (by omega), if_neg (by omega), if_neg (by omega), cln,
    location, ← sized.bps] <;> rfl

/-- The sectors that the write adds to the location of the root directory for a cluster of it. -/
def rootLead (vol : Volume) (cluster : Nat) : Nat :=
  if cluster = 0 then 0 else vol.rdirSecs + cluster * vol.spc - 2 * vol.spc

theorem root_cluster (sized : vol.Sized) (some : 0 < n) (inside : p + n ≤ vol.rdirSize) :
    p / vol.bpc * vol.spc < vol.rdirSecs ∧ 0 < vol.spc ∧ vol.spc ≤ 1024 := by
  have size := sized.rdirSize
  have small := sized.small
  have single := sized.single
  have cluster := sized.cluster
  have split := Nat.div_add_mod' p vol.bpc
  have product : p / vol.bpc * vol.bpc = p / vol.bpc * vol.spc * vol.bps := by
    rw [sized.bpc_eq, Nat.mul_assoc]
  refine ⟨?_, ?_, ?_⟩
  · by_contra far
    have scaled := Nat.mul_le_mul_right vol.bps (Nat.not_lt.mp far)
    omega
  · rw [sized.spc]
    exact Nat.two_pow_pos _
  · rw [sized.spc]
    exact Nat.pow_le_pow_right (by decide) (by omega : vol.spcLog2 ≤ 10)

/-- The sector of a cluster of the root directory, as the write takes it. -/
theorem root_sector (sized : vol.Sized) (type : vol.type ≠ .fat32) (some : 0 < n)
    (inside : p + n ≤ vol.rdirSize) :
    clusterNumToSectorNum vol (p / vol.bpc) = (vol.rdirLoc + rootLead vol (p / vol.bpc)) % 2 ^ 32 := by
  obtain ⟨bounded, positive, small⟩ := root_cluster sized some inside
  have location := sized.rdirLoc
  have secs := sized.rdirSecs
  rw [clusterNumToSectorNum, rootLead]
  generalize p / vol.bpc = cluster at bounded ⊢
  by_cases first : cluster = 0
  · rw [if_pos ⟨first, type⟩, if_pos first, Nat.add_zero, Nat.mod_eq_of_lt location]
  · rw [if_neg (fun both => first both.1), if_neg first, ← sized.spc, sized.dataFsec, minus, rsrvdCln]
    have factor := Nat.le_mul_of_pos_right cluster positive
    rcases Nat.lt_or_ge cluster 2 with one | more
    · obtain rfl : cluster = 1 := by omega
      omega
    · have difference : (cluster + (2 ^ 32 - 2)) % 2 ^ 32 = cluster - 2 := by omega
      rw [difference, Nat.sub_mul]
      have least := Nat.mul_le_mul_right vol.spc more
      omega

variable {dev : Device}

/-- Under the condition a write lands. -/
theorem RootCluster.lands (mounted : Mounted vol dev) (type : vol.type ≠ .fat32) (some : 0 < n)
    (inside : p + n ≤ vol.rdirSize) (cluster : RootCluster vol dev p n) :
    WritesLand vol dev p n := by
  rintro fs buf rfl rfl coherent
  have sized := mounted.toSized
  obtain ⟨bounded, positive, small⟩ := root_cluster sized some inside
  have bps := sized.bps_pos
  have bpc := sized.bpc_eq
  have split := Nat.div_add_mod' p fs.vol.bpc
  have there := cluster.there
  have extent : fs.device.blockCount * fs.vol.bytesPerBlock = fs.extent := rfl
  have lead : rootLead fs.vol (p / fs.vol.bpc) = p / fs.vol.bpc * fs.vol.spc := by
    rw [rootLead]
    rcases cluster.first with first | two
    · rw [if_pos (Nat.div_eq_of_lt first), Nat.div_eq_of_lt first, Nat.zero_mul]
    · have secs : fs.vol.rdirSecs = 2 * fs.vol.spc := by
        rw [sized.rdirSize, bpc, ← Nat.mul_assoc] at two
        exact Nat.eq_of_mul_eq_mul_right bps two
      have second : p / fs.vol.bpc < 2 := Nat.lt_of_mul_lt_mul_right (secs ▸ bounded)
      generalize p / fs.vol.bpc = number at second
      rcases Nat.lt_or_ge number 1 with zero | one
      · obtain rfl : number = 0 := by omega
        rw [if_pos rfl, Nat.zero_mul]
      · obtain rfl : number = 1 := by omega
        rw [if_neg (by decide), secs]
        omega
  have place : p / fs.vol.bpc * fs.vol.spc * fs.vol.bps = p / fs.vol.bpc * fs.vol.bpc := by
    rw [bpc, Nat.mul_assoc]
  have word : fs.vol.rdirLoc + p / fs.vol.bpc * fs.vol.spc < 2 ^ 32 := by
    have start := (sector_there mounted (fs.vol.rdirLoc + p / fs.vol.bpc * fs.vol.spc)
      (p % fs.vol.bpc) (by rw [Nat.add_mul]; omega)).2.1
    omega
  have sector : clusterNumToSectorNum fs.vol (p / fs.vol.bpc) =
      fs.vol.rdirLoc + p / fs.vol.bpc * fs.vol.spc := by
    rw [root_sector sized type some inside, lead, Nat.mod_eq_of_lt word]
  have one := cluster.one
  obtain ⟨written, ok, contents, finished, same⟩ := clusterWrite_spec mounted coherent
    (p / fs.vol.bpc) (p % fs.vol.bpc) (get buf 0 n) (by rwa [length_get])
    (by rw [sector]; omega) (by rw [sector, length_get, Nat.add_mul]; omega)
  have range : clusterNumToSectorNum fs.vol (p / fs.vol.bpc) * fs.vol.bps + p % fs.vol.bpc =
      fs.vol.rdirLoc * fs.vol.bps + p := by
    rw [sector, Nat.add_mul]
    omega
  rw [range] at contents
  rw [length_get] at ok
  have sectorPlace := Nat.div_add_mod' p fs.vol.bps
  have readWord : (fs.vol.rdirLoc + p / fs.vol.bps) % 2 ^ 32 = fs.vol.rdirLoc + p / fs.vol.bps := by
    have start := (sector_there mounted (fs.vol.rdirLoc + p / fs.vol.bps)
      (p % fs.vol.bps) (by rw [Nat.add_mul]; omega)).2.1
    exact Nat.mod_eq_of_lt (by omega)
  have vol : written.vol = fs.vol := same.vol
  obtain ⟨read, bytes, unchanged, _⟩ := @blockRead_spec written
    (by rw [vol, same.device]; exact mounted) finished n (fs.vol.rdirLoc + p / fs.vol.bps)
    (p % fs.vol.bps) n (le_refl n) (by rw [vol]; exact Nat.mod_lt _ bps)
    (by rw [vol, same.extent_eq, Nat.add_mul]; omega)
  have readRange : (fs.vol.rdirLoc + p / fs.vol.bps) * fs.vol.bps + p % fs.vol.bps =
      fs.vol.rdirLoc * fs.vol.bps + p := by
    rw [Nat.add_mul]
    omega
  refine ⟨written, rootFd fs.vol, ?_, contents, read, ?_, unchanged⟩
  · rw [root_write sized type some inside, ok]
  · rw [vol, readRange, contents, get_put_self (length_get)] at bytes
    have shape := @root_read written p n (vol ▸ sized) (vol ▸ type) some (vol ▸ inside)
    rw [vol] at shape
    rw [shape, readWord, bytes]

theorem clusterWrite_ret {cln off ret : Nat} {bytes : List UInt8} {after : FsInfo}
    (wrote : fs.clusterWrite cln off bytes = (.ok ret, after)) :
    ret = min bytes.length (fs.vol.bpc - off) := by
  rw [clusterWrite] at wrote
  split at wrote
  · cases wrote
  · cases wrote
    rfl

theorem blockWrite_buffer (mounted : Mounted fs.vol fs.device) (coherent : Coherent fs)
    {blk ofs ret : Nat} {bytes : List UInt8} {after : FsInfo} (some : 0 < bytes.length)
    (inside : ofs + bytes.length ≤ fs.vol.bytesPerBlock)
    (wrote : fs.blockWrite blk ofs bytes = (.ok ret, after)) :
    Coherent after ∧ Same fs after ∧ ret = bytes.length ∧
      ∃ middle opType, fs.bufAccess (blockNumToSectorNum fs.vol blk) opType = (.ok 0, middle) ∧
        (opType = .get → bytes.length = fs.vol.bytesPerBlock) ∧ after = middle.modify ofs bytes := by
  obtain ⟨word, aligned⟩ := block_sector mounted blk
  have count : min bytes.length (fs.vol.bytesPerBlock - ofs) = bytes.length := by omega
  rw [blockWrite] at wrote
  dsimp only at wrote
  rw [count, if_pos some, List.take_length] at wrote
  generalize chosen : (if bytes.length = fs.vol.bytesPerBlock then OpType.get else OpType.read) =
    opType at wrote
  split at wrote
  · cases wrote
  · rename_i base middle access
    cases wrote
    obtain ⟨off, finished, same⟩ := coherent_modify coherent word access (base + ofs) bytes
    obtain rfl : base = 0 := off.trans aligned
    refine ⟨finished, same, rfl, middle, opType, access, ?_, by rw [Nat.zero_add]⟩
    rintro rfl
    split at chosen
    case isTrue all => exact all
    case isFalse => cases chosen

theorem writeBlocks_last (mounted : Mounted fs.vol fs.device) (coherent : Coherent fs)
    {fuel blk ofs : Nat} {bytes : List UInt8} {after : FsInfo} (some : 0 < bytes.length)
    (enough : bytes.length ≤ fuel) (inside : ofs < fs.vol.bytesPerBlock)
    (wrote : writeBlocks fuel fs blk ofs bytes = (.ok (), after)) :
    ∃ middle last place part ret, Coherent middle ∧ Same fs middle ∧ 0 < part.length ∧
      place + part.length ≤ fs.vol.bytesPerBlock ∧ (∀ byte ∈ part, byte ∈ bytes) ∧
      middle.blockWrite last place part = (.ok ret, after) ∧
      blockNumToSectorNum fs.vol last * fs.vol.bps + place <
        blockNumToSectorNum fs.vol blk * fs.vol.bps + ofs + bytes.length ∧
      (ofs + bytes.length ≤ fs.vol.bytesPerBlock → middle = fs) := by
  induction fuel generalizing fs blk ofs bytes with
  | zero => omega
  | succ fuel ih =>
    rw [writeBlocks, if_neg (by omega)] at wrote
    dsimp only at wrote
    have count : (bytes.take (min bytes.length (fs.vol.bytesPerBlock - ofs))).length =
        min bytes.length (fs.vol.bytesPerBlock - ofs) := by simp
    split at wrote
    · cases wrote
    · rename_i ret between first
      obtain ⟨finished, same, length, buffered⟩ := blockWrite_buffer mounted coherent (by omega)
        (by omega) first
      rw [count] at length
      subst length
      rw [if_neg (Classical.not_not.mpr rfl)] at wrote
      by_cases short : ofs + bytes.length ≤ fs.vol.bytesPerBlock
      · refine ⟨fs, blk, ofs, bytes.take (min bytes.length (fs.vol.bytesPerBlock - ofs)),
          min bytes.length (fs.vol.bytesPerBlock - ofs), coherent, Same.refl fs, by omega, by omega,
          fun byte member => List.mem_of_mem_take member, ?_, by omega, fun _ => rfl⟩
        · have nothing : bytes.drop (min bytes.length (fs.vol.bytesPerBlock - ofs)) = [] :=
            List.drop_eq_nil_of_le (by omega)
          rw [nothing] at wrote
          have done : writeBlocks fuel between ((blk + 1) % 2 ^ 32) 0 [] = (.ok (), between) := by
            cases fuel <;> rfl
          rw [done] at wrote
          cases wrote
          exact first
      · have vol : between.vol = fs.vol := same.vol
        obtain ⟨middle, opType, access, _⟩ := buffered
        have there : sectorNumToBlockNum fs.vol (blockNumToSectorNum fs.vol blk) <
            fs.device.blockCount := by
          rcases bufAccess_ok coherent (blockNumToSectorNum fs.vol blk) opType with
            ⟨_, there⟩ | ⟨⟨errno, failed⟩, _⟩
          · exact there
          · rw [access] at failed
            cases failed
        obtain ⟨_, next⟩ := next_block mounted there
        obtain ⟨middle, last, place, part, ret, kept, still, more, bounded, members, wrote, before, _⟩ :=
          @ih between (by rw [vol, same.device]; exact mounted) finished
            ((blk + 1) % 2 ^ 32) 0 (bytes.drop (min bytes.length (fs.vol.bytesPerBlock - ofs)))
            (by rw [List.length_drop]; omega) (by rw [List.length_drop]; omega)
            (by rw [vol]; exact mounted.toSized.bytesPerBlock_pos) wrote
        rw [vol, next, List.length_drop] at before
        refine ⟨middle, last, place, part, ret, kept, same.trans still, more, vol ▸ bounded, ?_, wrote,
          by omega, fun short' => absurd short' short⟩
        exact fun byte member => List.mem_of_mem_drop (members byte member)

/-- A file system with an empty disk. -/
def blank (vol : Volume) (device : Device) : FsInfo :=
  { vol := vol, freeCls := 0, nextCl := 0, device := device, disk := fun _ => 0
    c := { blkNum := 0, modified := false, actual := false, buf := fun _ => 0 }
    unread := fun _ _ => 0 }

theorem blank_coherent (vol : Volume) (dev : Device) : Coherent (blank vol dev) :=
  ⟨fun actual => (by cases actual), fun actual => (by cases actual), fun actual => (by cases actual)⟩

theorem blank_volume (vol : Volume) (dev : Device) : (blank vol dev).volume = fun _ => 0 :=
  Settled.volume_eq (Or.inl rfl)

/-- A block of the empty disk is written behind its first sector: nothing reaches places outside the
block, as the other FATs only get copies of the first sector. -/
theorem blank_block (mounted : Mounted vol dev) {blk place ret : Nat} {part : List UInt8}
    {after : FsInfo} (some : 0 < part.length) (bounded : place + part.length ≤ vol.bytesPerBlock)
    (behind : vol.bps ≤ place)
    (wrote : (blank vol dev).blockWrite blk place part = (.ok ret, after)) (tested : Nat)
    (outside : blockNumToSectorNum vol blk * vol.bps + vol.bytesPerBlock ≤ tested) :
    after.volume tested = 0 := by
  obtain ⟨_, same, _, middle, opType, access, _, rfl⟩ :=
    blockWrite_buffer mounted (blank_coherent vol dev) some bounded wrote
  obtain ⟨actual, blkNum, _⟩ := bufAccess_buffer (blank_coherent vol dev)
    (@block_sector (blank vol dev) mounted blk).1 access
  have empty : middle.disk = (fun _ => 0) ∧ middle.c.buf = fun _ => 0 := by
    have unused : (blank vol dev).c.actual = false := rfl
    rw [bufAccess, if_pos (Or.inl unused)] at access
    dsimp only at access
    split at access
    · have accessed : _ = middle := congrArg Prod.snd access
      rw [← accessed]
      exact ⟨rfl, by cases opType <;> rfl⟩
    · cases congrArg Prod.fst access
  have sized : (middle.modify place part).vol.Sized := same.vol.symm ▸ mounted.toSized
  have vol' : middle.vol = vol := same.vol
  have stored : (middle.modify place part).writeBack.disk tested = 0 := by
    have apart : (middle.modify place part).writeBack.disk =
        put (fun _ => 0) (sectorNumToBlockNum middle.vol middle.c.blkNum * middle.vol.bytesPerBlock)
          (get (middle.modify place part).c.buf 0 middle.vol.bytesPerBlock) :=
      congrArg (fun disk => put disk _ _) empty.1
    have location := @block_place (blank vol dev) mounted blk
    rw [apart, blkNum, vol']
    refine put_outside (Or.inr ?_)
    rw [length_get]
    exact (congrArg (· + vol.bytesPerBlock) location).le.trans outside
  have released := (@bufRelease_of_modified (middle.modify place part) actual rfl).1
  rw [volume, released, copied]
  split
  case isFalse => exact stored
  case isTrue =>
    rcases copyToFats_disk (middle.modify place part).writeBack _ sized length_get
        ((middle.modify place part).vol.fats - 1) 1 tested with same | ⟨_, index, _, _, first, _, value⟩
    · exact same.trans stored
    · refine value.trans ?_
      have aligned := (@block_sector (blank vol dev) mounted blk).2
      have start : sectorOffsetToBlockOffset middle.vol middle.c.blkNum 0 = 0 := by
        rw [blkNum, vol']
        exact aligned
      have untouched : (middle.modify place part).c.buf index = 0 := by
        have inside : index < vol.bps := first.trans_eq (congrArg Volume.bps vol')
        have patched : (middle.modify place part).c.buf = put (fun _ => 0) place part :=
          congrArg (fun buf => put buf place part) empty.2
        rw [patched]
        exact put_outside (Or.inl (inside.trans_le behind))
      refine (getD_get first).trans ((congrArg (middle.modify place part).c.buf ?_).trans untouched)
      exact (congrArg (· + index) start).trans (Nat.zero_add index)

theorem ones_place {first second : Nat} (some : 0 < n)
    (same : put (fun _ => (0 : UInt8)) first (get (fun _ => 1) 0 n) =
      put (fun _ => (0 : UInt8)) second (get (fun _ => 1) 0 n)) : first = second := by
  have one : ∀ place tested, put (fun _ => (0 : UInt8)) place (get (fun _ => 1) 0 n) tested =
      if place ≤ tested ∧ tested < place + n then 1 else 0 := by
    intro place tested
    split
    case isTrue inside =>
      obtain ⟨index, rfl⟩ : ∃ index, tested = place + index := ⟨tested - place, by omega⟩
      rw [put_inside (by rw [length_get]; omega)]
      simp [ByteRange.get]
    case isFalse outside => exact put_outside (by rw [length_get]; omega)
  have left := congrFun same first
  have right := congrFun same second
  have begins : ∀ place, place ≤ place ∧ place < place + n := fun place => ⟨le_refl place, by omega⟩
  rw [one first, one second, if_pos (begins first)] at left
  rw [one first, one second, if_pos (begins second)] at right
  split at left
  case isFalse => cases left
  case isTrue before =>
    split at right
    case isFalse => cases right
    case isTrue behind => omega

/-- A write that would begin behind the last sector number begins in the first sectors again. Then
something is written there, or nothing is written to the root directory. -/
theorem wrapped_write (mounted : Mounted vol dev) {cln off ret root : Nat} {written : FsInfo}
    (some : 0 < n) (inside : off + n ≤ vol.bpc)
    (wrote : (blank vol dev).clusterWrite cln off (get (fun _ => 1) 0 n) = (.ok ret, written))
    (far : writeSector vol cln off * vol.bps + 3 * vol.bpc ≤ root) :
    written.volume ≠ put (fun _ => 0) root (get (fun _ => 1) 0 n) := by
  intro contents
  have sized := mounted.toSized
  have sector : blockNumToSectorNum vol
      ((clusterNumToBlockNum vol cln + off / vol.bytesPerBlock) % 2 ^ 32) =
        writeSector vol cln off :=
    (@block_add (blank vol dev) _ _).trans
      (congrArg (fun first => (first + _) % 2 ^ 32) (@cluster_sector (blank vol dev) sized cln))
  have split := Nat.div_add_mod' off vol.bytesPerBlock
  have bounded := Nat.mod_lt off sized.bytesPerBlock_pos
  obtain ⟨middle, last, place, part, ret', coherent, same, more, within, members, wrote, before, single⟩ :
      ∃ middle last place part ret, Coherent middle ∧ Same (blank vol dev) middle ∧
        0 < part.length ∧ place + part.length ≤ vol.bytesPerBlock ∧
        (∀ byte ∈ part, byte ∈ get (fun _ => (1 : UInt8)) 0 n) ∧
        middle.blockWrite last place part = (.ok ret, written) ∧
        blockNumToSectorNum vol last * vol.bps + place < writeSector vol cln off * vol.bps +
          off % vol.bytesPerBlock + n ∧
        (off % vol.bytesPerBlock + n ≤ vol.bytesPerBlock → middle = blank vol dev) := by
    have count : min (get (fun _ => (1 : UInt8)) 0 n).length (vol.bpc - off) = n := by
      rw [length_get]
      omega
    have remaining : off - off / vol.bytesPerBlock * vol.bytesPerBlock =
        off % vol.bytesPerBlock := by omega
    rw [clusterWrite] at wrote
    split at wrote
    case h_1 => cases wrote
    case h_2 after looped =>
      cases wrote
      change writeBlocks (min (get (fun _ => (1 : UInt8)) 0 n).length (vol.bpc - off))
        (blank vol dev) ((clusterNumToBlockNum vol cln + off / 2 ^ vol.bytesPerBlockLog2) %
          2 ^ 32) (off - off / 2 ^ vol.bytesPerBlockLog2 * 2 ^ vol.bytesPerBlockLog2)
        ((get (fun _ => (1 : UInt8)) 0 n).take
          (min (get (fun _ => (1 : UInt8)) 0 n).length (vol.bpc - off))) = _ at looped
      have whole : (get (fun _ => (1 : UInt8)) 0 n).take n = get (fun _ => 1) 0 n :=
        List.take_of_length_le (by rw [length_get])
      rw [count, whole, ← sized.block, remaining] at looped
      obtain ⟨middle, last, place, part, ret, facts⟩ := @writeBlocks_last (blank vol dev) mounted
        (blank_coherent vol dev) n _ _ _ _ (by rwa [length_get]) (by rw [length_get]) bounded looped
      rw [length_get] at facts
      have vol' : (blank vol dev).vol = vol := rfl
      rw [vol', sector] at facts
      exact ⟨middle, last, place, part, ret, facts⟩
  have vol' : middle.vol = vol := same.vol
  have mounted' : Mounted middle.vol middle.device := by
    rw [vol', same.device]
    exact mounted
  by_cases first : place < vol.bps
  · obtain ⟨finished, still, _, buffer, opType, access, _, rfl⟩ :=
      blockWrite_buffer mounted' coherent more (vol' ▸ within) wrote
    obtain ⟨actual, blkNum, _⟩ := bufAccess_buffer coherent (block_sector mounted' last).1 access
    have aligned := (block_sector mounted' last).2
    have volumes : (buffer.modify place part).vol = vol := still.vol.trans vol'
    have read := @Coherent.sector _ (volumes ▸ sized) finished actual place (by rwa [volumes])
    have number : (buffer.modify place part).c.blkNum = blockNumToSectorNum vol last := by
      rw [← vol']
      exact blkNum
    rw [number, volumes, ← vol', aligned, Nat.zero_add, contents, vol',
      put_outside (Or.inl (by omega))] at read
    have byte : (buffer.modify place part).c.buf place = part[0] := put_inside more
    have one : part[0] = 1 := by
      have member := members part[0] (List.getElem_mem more)
      simp only [ByteRange.get, List.mem_map] at member
      obtain ⟨_, _, equal⟩ := member
      exact equal.symm
    rw [byte, one] at read
    cases read
  · have raised : vol.bytesPerBlock = vol.bpc := by
      rcases sized.raised with plain | ⟨raised, _⟩
      · have equal : vol.bytesPerBlock = vol.bps := by rw [sized.block, plain, sized.bps]
        omega
      · rw [sized.block, raised, sized.bpc]
    obtain rfl := single (by omega)
    have nothing := blank_block mounted more within (Nat.not_lt.mp first) wrote root (by omega)
    have begins : put (fun _ => (0 : UInt8)) root (get (fun _ => 1) 0 n) (root + 0) = 1 := by
      rw [put_inside (by rwa [length_get])]
      simp [ByteRange.get]
    rw [contents] at nothing
    rw [Nat.add_zero, nothing] at begins
    cases begins

theorem WritesLand.cluster (mounted : Mounted vol dev) (type : vol.type ≠ .fat32) (some : 0 < n)
    (inside : p + n ≤ vol.rdirSize) (lands : WritesLand vol dev p n) : RootCluster vol dev p n := by
  have sized := mounted.toSized
  obtain ⟨bounded, positive, small⟩ := root_cluster sized some inside
  have bps := sized.bps_pos
  have bpc := sized.bpc_eq
  have secs := sized.rdirSecs
  have split := Nat.div_add_mod' p vol.bpc
  have place : p / vol.bpc * vol.spc * vol.bps = p / vol.bpc * vol.bpc := by rw [bpc, Nat.mul_assoc]
  obtain ⟨written, fd, wrote, contents, _⟩ :=
    lands (blank vol dev) (fun _ => 1) rfl rfl (blank_coherent vol dev)
  replace wrote := (@root_write (blank vol dev) p n sized type some inside (fun _ => 1)).symm.trans
    wrote
  replace wrote : (blank vol dev).clusterWrite (p / vol.bpc) (p % vol.bpc)
      (get (fun _ => 1) 0 n) = (.ok n, written) := by
    split at wrote
    · cases wrote
    · rename_i written' same
      cases wrote
      exact same
  have one : p % vol.bpc + n ≤ vol.bpc := by
    have count := clusterWrite_ret wrote
    rw [length_get] at count
    have all : n ≤ vol.bpc - p % vol.bpc := by
      have least := Nat.min_le_right n (vol.bpc - p % vol.bpc)
      exact count.le.trans least
    omega
  have blocks := Nat.div_add_mod' (p % vol.bpc) vol.bytesPerBlock
  have rest : p % vol.bpc / vol.bytesPerBlock *
      2 ^ (vol.bytesPerBlockLog2 - vol.secLog2) * vol.bps =
        p % vol.bpc / vol.bytesPerBlock * vol.bytesPerBlock := by
    rw [Nat.mul_assoc, ← sized.bytesPerBlock_eq]
  have cluster : p % vol.bpc / vol.bytesPerBlock * 2 ^ (vol.bytesPerBlockLog2 - vol.secLog2) <
      vol.spc := by
    by_contra far
    have product := Nat.mul_le_mul_right vol.bps (Nat.not_lt.mp far)
    omega
  have lead : rootLead vol (p / vol.bpc) ≤ 8192 := by
    rw [rootLead]
    split <;> omega
  have sector : writeSector vol (p / vol.bpc) (p % vol.bpc) =
      (vol.rdirLoc + rootLead vol (p / vol.bpc) + p % vol.bpc / vol.bytesPerBlock *
        2 ^ (vol.bytesPerBlockLog2 - vol.secLog2)) % 2 ^ 32 := by
    rw [writeSector, root_sector sized type some inside, Nat.mod_add_mod]
  rcases Nat.lt_or_ge (vol.rdirLoc + rootLead vol (p / vol.bpc) + p % vol.bpc / vol.bytesPerBlock *
      2 ^ (vol.bytesPerBlockLog2 - vol.secLog2)) (2 ^ 32) with word | wrapped
  · rw [Nat.mod_eq_of_lt word] at sector
    have front : vol.rdirLoc ≤ writeSector vol (p / vol.bpc) (p % vol.bpc) := by omega
    obtain ⟨after, ok, error⟩ := @clusterWrite_cases (blank vol dev) mounted
      (blank_coherent vol dev) (p / vol.bpc) (p % vol.bpc) (get (fun _ => 1) 0 n)
      (by rw [length_get]; exact one) front
    rw [length_get] at ok error
    have vol' : (blank vol dev).vol = vol := rfl
    rw [vol', extent, blank_volume] at ok
    rcases Nat.lt_or_ge (dev.blockCount * vol.bytesPerBlock)
        (writeSector vol (p / vol.bpc) (p % vol.bpc) * vol.bps + p % vol.bpc % vol.bytesPerBlock + n)
      with far | there
    · obtain ⟨errno, failed⟩ := error some far
      rw [failed] at wrote
      cases wrote
    · obtain ⟨done, written', _⟩ := ok there
      rw [done] at wrote
      cases wrote
      have same := ones_place some (written'.symm.trans contents)
      have equal : rootLead vol (p / vol.bpc) * vol.bps = p / vol.bpc * vol.spc * vol.bps := by
        rw [sector, Nat.add_mul, Nat.add_mul] at same
        omega
      refine ⟨one, ?_, by omega⟩
      have leads := Nat.eq_of_mul_eq_mul_right bps equal
      rw [rootLead] at leads
      split at leads
      case isTrue first =>
        exact Or.inl ((Nat.div_eq_zero_iff_lt (by rw [bpc]; exact Nat.mul_pos positive bps)).mp first)
      case isFalse later =>
        refine Or.inr ?_
        have least := Nat.mul_le_mul_right vol.spc (Nat.one_le_iff_ne_zero.mpr later)
        have two : vol.rdirSecs = 2 * vol.spc := by omega
        rw [sized.rdirSize, two, bpc, Nat.mul_assoc]
  · refine absurd contents (wrapped_write mounted some one wrote ?_)
    have product := Nat.mul_le_mul_right vol.bps (by omega :
      writeSector vol (p / vol.bpc) (p % vol.bpc) + 3 * vol.spc ≤ vol.rdirLoc)
    rw [Nat.add_mul, Nat.mul_assoc, ← bpc] at product
    omega

/-- Nothing is written at the end of the bytes. -/
theorem writesLand_zero (vol : Volume) (dev : Device) (p : Nat) : WritesLand vol dev p 0 := by
  rintro fs buf rfl rfl _
  have nothing : get buf 0 0 = [] := rfl
  refine ⟨fs, rootFd fs.vol, ?_, ?_, fs, ?_, rfl⟩
  · rw [fatFileWrite]
    exact if_pos rfl
  · rw [nothing, put_nil]
  · exact if_pos rfl

/-- On a FAT12 or FAT16 volume a write inside the root directory lands exactly if it stays inside
one cluster of it, and this is the first cluster or one of exactly two. -/
theorem root_directory_write_lands {disk : Content} {unread : Nat → Content} {device : Device}
    (accepted : fatInitVolumeInfo disk unread device = .ok fs) (type : fs.vol.type ≠ .fat32)
    (inside : p + n ≤ fs.vol.rdirSize) :
    WritesLand fs.vol fs.device p n ↔ n = 0 ∨ RootCluster fs.vol fs.device p n := by
  have mounted := fatInitVolumeInfo_mounted accepted
  constructor
  · intro lands
    rcases Nat.eq_zero_or_pos n with none | some
    · exact Or.inl none
    · exact Or.inr (lands.cluster mounted type some inside)
  · rintro (rfl | cluster)
    · exact writesLand_zero fs.vol fs.device p
    · rcases Nat.eq_zero_or_pos n with rfl | some
      · exact writesLand_zero fs.vol fs.device p
      · exact cluster.lands mounted type some inside

/-- A disk of 2880 sectors: clusters of one sector and 224 entries in the root directory. -/
def floppyDisk : Content
  | 12 => 2
  | 13 => 1
  | 14 => 1
  | 16 => 2
  | 17 => 224
  | 19 => 0x40
  | 20 => 0x0b
  | 21 => 0xf0
  | 22 => 9
  | _ => 0

def floppyDevice : Device :=
  { mediaBlockSize := 512, size := 2880, fits := by decide, bdsPerGroup := fun _ => 1
    blockCount := 2880 }

def floppy : FsInfo :=
  { vol := volumeOf floppyDisk .fat12, freeCls := undefinedValue, nextCl := undefinedValue
    device := floppyDevice, disk := floppyDisk, unread := fun _ _ => 0
    c := { blkNum := 0, modified := false, actual := false, buf := fun _ => 0 } }

theorem floppy_accepted :
    fatInitVolumeInfo floppyDisk (fun _ _ => 0) floppyDevice = .ok floppy := rfl

theorem root_directory_write_lands_floppy :
    WritesLand floppy.vol floppy.device 0 32 ↔ 32 = 0 ∨ RootCluster floppy.vol floppy.device 0 32 :=
  root_directory_write_lands floppy_accepted (by decide) (by decide)

/-- The seventeenth entry of the root directory is written to the last sector of the directory. -/
theorem second_cluster_is_missed :
    ¬ ∀ (disk : Content) (unread : Nat → Content) (device : Device) (fs : FsInfo),
      fatInitVolumeInfo disk unread device = .ok fs → fs.vol.type ≠ .fat32 →
        ∀ p n, p + n ≤ fs.vol.rdirSize → WritesLand fs.vol fs.device p n := by
  intro claim
  have lands := claim _ _ _ floppy floppy_accepted (by decide) 512 32 (by decide)
  have cluster := lands.cluster (fatInitVolumeInfo_mounted floppy_accepted) (by decide) (by decide)
    (by decide)
  exact absurd cluster.first (by decide)

end Rtems.Dosfs
