import Rtems.Dosfs.LendingFats
import Rtems.Library.Transition

/-!
# Runs of the sector cache

The calls come in any order, and the block device layer answers each of them as it likes.
-/

namespace Rtems.Dosfs.Lending

open ByteRange Transition

variable {vol : Volume} {answers : Answers} {fs : Fs} {bd : Nat} {buf : Bd} {tracked : Tracked}

/-- The requests of the block device layer that fail leave the cache in order: a buffer that has to be given up
for another sector is taken back, and the copies for the other FATs do not fail once the buffer itself was taken
back. -/
def Served (vol : Volume) (answers : Answers) (fs : Fs) : Call → Prop
  | .access secNum _ => fs.actual = true → fs.blkNum ≠ secNum →
    answers.released = true ∧ Whole vol answers fs
  | .modify _ _ => True
  | .release => Whole vol answers fs

/-- What the callers keep to. Bytes are modified in the block that is held. If the FATs are mirrored, bytes of the
FATs are modified in the sector of the first FAT that is held only, and a block with sectors of a FAT is not
overwritten as a whole unless it is one sector. -/
def Disciplined (vol : Volume) (fs : Fs) : Call → Prop
  | .access secNum opType => secNum < 2 ^ 32 ∧ (vol.mirror = 0 → opType = .get →
    vol.bps = vol.bytesPerBlock ∨ ∀ index, index < vol.bytesPerBlock →
      ¬ InFats vol (sectorNumToBlockNum vol secNum * vol.bytesPerBlock + index))
  | .modify place bytes => fs.actual = true ∧
    sectorOffsetToBlockOffset vol fs.blkNum 0 + place + bytes.length ≤ vol.bytesPerBlock ∧
    (FsInfo.Mirrored vol fs.blkNum → fs.blkNum < vol.fatLoc + vol.fatLength ∧
      place + bytes.length ≤ vol.bps) ∧
    (vol.mirror = 0 → ¬ FsInfo.Mirrored vol fs.blkNum → ∀ index, index < bytes.length →
      ¬ InFats vol (fs.blkNum * vol.bps + place + index))
  | .release => True

/-- The condition on a call. -/
def Careful (vol : Volume) (tracked : Tracked) (input : Answers × Call) : Prop :=
  Served vol input.1 tracked.fs input.2 ∧ Disciplined vol tracked.fs input.2

instance (answers : Answers) : Decidable (Complete vol answers) :=
  inferInstanceAs (Decidable (∀ i, i < vol.fats → 1 ≤ i → _))

instance (answers : Answers) (fs : Fs) : Decidable (Whole vol answers fs) :=
  inferInstanceAs (Decidable (_ → _ → _ → _ → Complete vol answers))

instance (place : Nat) : Decidable (InFats vol place) := inferInstanceAs (Decidable (_ ∧ _))

instance (answers : Answers) (fs : Fs) (call : Call) : Decidable (Served vol answers fs call) :=
  match call with
  | .access .. => inferInstanceAs (Decidable (_ → _ → _ ∧ Whole vol answers fs))
  | .modify .. => .isTrue trivial
  | .release => inferInstanceAs (Decidable (Whole vol answers fs))

instance (fs : Fs) (call : Call) : Decidable (Disciplined vol fs call) :=
  match call with
  | .access .. => inferInstanceAs (Decidable (_ ∧ (_ → _ → _ ∨ ∀ index, index < _ → ¬ InFats vol _)))
  | .modify .. =>
    inferInstanceAs (Decidable (_ ∧ _ ∧ (_ → _ ∧ _) ∧ (_ → _ → ∀ index, index < _ → ¬ InFats vol _)))
  | .release => .isTrue trivial

instance (tracked : Tracked) (input : Answers × Call) : Decidable (Careful vol tracked input) :=
  inferInstanceAs (Decidable (_ ∧ _))

/-- The bytes that are modified after a call. -/
def Tracked.remember (vol : Volume) (tracked : Tracked) (after : Fs) :
    Call → Nat → Option UInt8
  | .access secNum _ =>
    if tracked.fs.actual = true ∧ tracked.fs.blkNum = secNum then tracked.dirty else fun _ => none
  | .modify place bytes =>
    put tracked.dirty (tracked.fs.blkNum * vol.bps + place) (bytes.map some)
  | .release => if after.actual then tracked.dirty else fun _ => none

/-- One call. -/
def step (vol : Volume) (tracked : Tracked) (input : Answers × Call) : Option Tracked :=
  (perform vol input.1 tracked.fs input.2).map fun (_, after) =>
    ⟨after, tracked.remember vol after input.2⟩

/-- The cache is empty, and the FATs are equal if they are mirrored. -/
def Initial (vol : Volume) (tracked : Tracked) : Prop :=
  vol.Sized ∧ Placed vol ∧ Empty tracked.fs ∧ (∀ place, tracked.dirty place = none) ∧
    (vol.mirror = 0 → Equal vol tracked.fs.disk)

/-- The cache holds a buffer that is lent exactly if its state says so, and no other buffer is lent. -/
structure Owned (fs : Fs) : Prop where
  held : fs.actual = true → ∃ bd, fs.buf = some bd ∧ (fs.lent bd).isSome = true
  only : ∀ bd, (fs.lent bd).isSome = true → fs.actual = true ∧ fs.buf = some bd

/-- The call gave up the sector that was held. -/
def GaveUp (fs : Fs) (result : Except Errno Nat) : Call → Prop
  | .access secNum _ => fs.blkNum ≠ secNum
  | .modify _ _ => False
  | .release => result.toOption.isSome = true

/-- The buffer that is fetched, with the contents of its block if it was read. -/
theorem fetch_obtained (obtained : answers.obtained = true) (secNum : Nat) (opType : OpType) :
    ∃ contents : Content,
      (opType = .read → contents = fs.block vol (sectorNumToBlockNum vol secNum)) ∧
      fs.fetch vol answers secNum opType = (.ok (sectorOffsetToBlockOffset vol secNum 0),
        { fs.obtain (sectorNumToBlockNum vol secNum) contents with
          buf := some fs.fresh, blkNum := secNum, modified := false, actual := true }) := by
  cases opType with
  | read => exact ⟨_, fun _ => rfl, by rw [Fs.fetch, if_pos obtained]⟩
  | get => exact ⟨answers.unread, fun other => (by cases other), by rw [Fs.fetch, if_pos obtained]⟩

/-- A new buffer is held, or the cache stays empty. -/
theorem Empty.fetch (empty : Empty fs) (sized : vol.Sized) (placed : Placed vol)
    (equal : vol.mirror = 0 → Equal vol fs.disk) {before : Fs} {secNum : Nat} {opType : OpType}
    (disciplined : Disciplined vol before (.access secNum opType)) :
    Sound vol ⟨(fs.fetch vol answers secNum opType).2, fun _ => none⟩ ∧
      (fs.fetch vol answers secNum opType).2.disk = fs.disk := by
  obtain ⟨word, whole⟩ := disciplined
  cases obtained : answers.obtained with
  | false =>
    have fetched : fs.fetch vol answers secNum opType = (.error .eio, { fs with buf := none }) := by
      simp [Fs.fetch, obtained]
    rw [fetched]
    exact ⟨⟨sized, placed, .inl ⟨⟨empty.actual, empty.lent⟩, fun _ => rfl⟩, equal⟩, rfl⟩
  | true =>
    obtain ⟨contents, read, fetched⟩ := fetch_obtained obtained secNum opType
    rw [fetched]
    refine ⟨⟨sized, placed, .inr ⟨fs.fresh, ⟨sectorNumToBlockNum vol secNum, contents⟩, ?_⟩, equal⟩,
      rfl⟩
    constructor
    case toHolds => exact ⟨rfl, rfl, by simp [Fs.obtain, empty.lent]⟩
    case blk => rfl
    case word => exact word
    case dirty => simp
    case sector => simp
    case first => simp
    case shadow =>
      intro mirror index inside
      cases opType with
      | read =>
        rw [read rfl]
        exact .inl rfl
      | get =>
        obtain single | outside := whole mirror rfl
        · refine .inr (.inr ?_)
          have place := sized.sector_place word
          have bounded := sized.offset_le word
          simp only [Within]
          omega
        · exact .inr (.inl (outside index inside))

/-- A modified byte is one of the latest modification or an older one. -/
theorem modified_cases {dirty : Nat → Option UInt8} {start place : Nat} {bytes : List UInt8}
    {byte : UInt8} (modified : put dirty start (bytes.map some) place = some byte) :
    (∃ i, ∃ inside : i < bytes.length, place = start + i ∧ bytes[i] = byte) ∨
      (place < start ∨ start + bytes.length ≤ place) ∧ dirty place = some byte := by
  by_cases within : start ≤ place ∧ place < start + bytes.length
  · obtain ⟨i, rfl⟩ : ∃ i, place = start + i := ⟨_, (Nat.add_sub_cancel' within.1).symm⟩
    have inside : i < bytes.length := by omega
    rw [put_inside (by simpa using inside)] at modified
    exact .inl ⟨i, inside, rfl, by simpa using modified⟩
  · have outside : place < start ∨ start + (bytes.map some).length ≤ place := by
      rw [List.length_map]
      omega
    rw [put_outside outside] at modified
    exact .inr ⟨by omega, modified⟩

/-- A modification of the buffer that is held. -/
theorem Held.modify (held : Held vol tracked bd buf) (sized : vol.Sized) {place : Nat}
    {bytes : List UInt8} (disciplined : Disciplined vol tracked.fs (.modify place bytes)) :
    ∃ after, tracked.fs.modify vol place bytes = some (.ok bytes.length, after) ∧
      Held vol ⟨after, tracked.remember vol after (.modify place bytes)⟩ bd
        ⟨buf.block, put buf.buffer
          (sectorOffsetToBlockOffset vol tracked.fs.blkNum 0 + place) bytes⟩ ∧
      after.disk = tracked.fs.disk := by
  obtain ⟨_, bounded, first, outside⟩ := disciplined
  have start : tracked.fs.blkNum * vol.bps + place = buf.block * vol.bytesPerBlock +
      (sectorOffsetToBlockOffset vol tracked.fs.blkNum 0 + place) := by
    rw [held.blk, ← Nat.add_assoc, sized.sector_place held.word]
  generalize ofs : sectorOffsetToBlockOffset vol tracked.fs.blkNum 0 + place = offset at *
  refine ⟨{ tracked.fs with
      lent := Function.update tracked.fs.lent bd (some ⟨buf.block, put buf.buffer offset bytes⟩)
      modified := true }, ?_, ?_, rfl⟩
  · simp [Fs.modify, held.buf, Fs.write, held.lent, ofs]
  · constructor
    case toHolds => exact ⟨held.actual, held.buf, by simp [held.lent]⟩
    case blk => exact held.blk
    case word => exact held.word
    case first => exact fun _ mirrored => (first mirrored).1
    case dirty =>
      intro place' byte dirty
      refine ⟨rfl, ?_⟩
      obtain ⟨i, inside, rfl, value⟩ | ⟨apart, older⟩ := modified_cases dirty
      · refine ⟨offset + i, by omega, ?_, (put_inside inside).trans value⟩
        change _ = buf.block * vol.bytesPerBlock + (offset + i)
        omega
      · obtain ⟨_, index, inside, rfl, value⟩ := held.dirty place' byte older
        refine ⟨index, inside, rfl, ?_⟩
        exact (put_outside (by omega)).trans value
    case sector =>
      intro mirrored place' byte dirty
      obtain ⟨i, inside, rfl, _⟩ | ⟨_, older⟩ := modified_cases dirty
      · have fits := (first mirrored).2
        simp only [Within]
        omega
      · exact held.sector mirrored place' byte older
    case shadow =>
      intro mirror index inside
      by_cases touched : offset ≤ index ∧ index < offset + bytes.length
      · obtain ⟨i, rfl⟩ : ∃ i, index = offset + i := ⟨_, (Nat.add_sub_cancel' touched.1).symm⟩
        have place' : buf.block * vol.bytesPerBlock + (offset + i) =
            tracked.fs.blkNum * vol.bps + place + i := by omega
        by_cases mirrored : FsInfo.Mirrored vol tracked.fs.blkNum
        · have fits := (first mirrored).2
          refine .inr (.inr ?_)
          simp only [Within]
          omega
        · refine .inr (.inl ?_)
          rw [place']
          exact outside mirror mirrored i (by omega)
      · obtain same | others := held.shadow mirror index inside
        · exact .inl ((put_outside (by omega)).trans same)
        · exact .inr others

/-- A careful call uses lent buffers only. It keeps the cache sound, and a sector that is given up takes its
modified bytes to the disk. -/
theorem Sound.perform (sound : Sound vol tracked) {call : Call}
    (careful : Careful vol tracked (answers, call)) :
    ∃ result after, Lending.perform vol answers tracked.fs call = some (result, after) ∧
      Sound vol ⟨after, tracked.remember vol after call⟩ ∧
      (GaveUp tracked.fs result call → ∀ place byte, tracked.dirty place = some byte →
        after.disk place = byte) := by
  obtain ⟨served, disciplined⟩ := careful
  obtain ⟨empty, clean⟩ | ⟨bd, buf, held⟩ := sound.cache
  · cases call with
    | access secNum opType =>
      have release : tracked.fs.bufRelease vol answers = some (.ok (), tracked.fs) := by
        simp [Fs.bufRelease, empty.actual]
      have missed : tracked.remember vol (tracked.fs.fetch vol answers secNum opType).2
          (.access secNum opType) = fun _ => none := by
        simp [Tracked.remember, empty.actual]
      obtain ⟨after, _⟩ := empty.fetch sound.sized sound.placed sound.equal disciplined
      refine ⟨(tracked.fs.fetch vol answers secNum opType).1,
        (tracked.fs.fetch vol answers secNum opType).2, ?_, missed ▸ after, ?_⟩
      · rw [Lending.perform, Fs.bufAccess, if_pos (.inl empty.actual), release, Option.map_some]
      · intro _ place byte dirty
        rw [clean place] at dirty
        cases dirty
    | modify place bytes => exact absurd disciplined.1 (by simp [empty.actual])
    | release =>
      refine ⟨.ok 0, tracked.fs, ?_, ?_, ?_⟩
      · simp [Lending.perform, Fs.bufRelease, empty.actual, Except.map]
      · have kept : tracked.remember vol tracked.fs .release = fun _ => none := by
          simp [Tracked.remember, empty.actual]
        rw [kept]
        exact ⟨sound.sized, sound.placed, .inl ⟨empty, fun _ => rfl⟩, sound.equal⟩
      · intro _ place byte dirty
        rw [clean place] at dirty
        cases dirty
  · cases call with
    | access secNum opType =>
      by_cases hit : tracked.fs.blkNum = secNum
      · have kept : tracked.remember vol tracked.fs (.access secNum opType) = tracked.dirty := by
          simp [Tracked.remember, held.actual, hit]
        refine ⟨.ok (sectorOffsetToBlockOffset vol secNum 0), tracked.fs, ?_, kept ▸ sound,
          fun gave => absurd hit gave⟩
        rw [Lending.perform, Fs.bufAccess, if_neg (by simp [held.actual, hit]), held.held_eq,
          Option.map_some]
      · obtain ⟨taken, whole⟩ := served held.actual hit
        obtain ⟨between, release, empty, disk⟩ := held.bufRelease_taken sound.sized taken whole
        have equal : vol.mirror = 0 → Equal vol between.disk := fun mirror =>
          disk ▸ held.settled_equal sound.sized sound.placed mirror (sound.equal mirror)
        obtain ⟨after, same⟩ := @Empty.fetch vol answers between empty sound.sized sound.placed equal _ _ _
          disciplined
        have missed : tracked.remember vol (between.fetch vol answers secNum opType).2
            (.access secNum opType) = fun _ => none := by
          simp [Tracked.remember, hit]
        refine ⟨(between.fetch vol answers secNum opType).1,
          (between.fetch vol answers secNum opType).2, ?_, missed ▸ after, ?_⟩
        · rw [Lending.perform, Fs.bufAccess, if_pos (.inr hit), release, Option.map_some]
        · intro _ place byte dirty
          rw [same, disk]
          exact held.settled_dirty sound.placed dirty
    | modify place bytes =>
      obtain ⟨after, modified, held', disk⟩ := held.modify sound.sized disciplined
      refine ⟨_, after, modified, ⟨sound.sized, sound.placed, .inr ⟨bd, _, held'⟩, ?_⟩, False.elim⟩
      exact disk ▸ sound.equal
    | release =>
      cases taken : answers.released with
      | false =>
        refine ⟨.error .eio, tracked.fs, ?_, ?_, ?_⟩
        · simp [Lending.perform, held.bufRelease_refused taken, Except.map]
        · have kept : tracked.remember vol tracked.fs .release = tracked.dirty := by
            simp [Tracked.remember, held.actual]
          exact kept ▸ sound
        · simp [GaveUp, Except.toOption]
      | true =>
        obtain ⟨after, release, empty, disk⟩ := held.bufRelease_taken sound.sized taken served
        have equal : vol.mirror = 0 → Equal vol after.disk := fun mirror =>
          disk ▸ held.settled_equal sound.sized sound.placed mirror (sound.equal mirror)
        have given : tracked.remember vol after .release = fun _ => none := by
          simp [Tracked.remember, empty.actual]
        refine ⟨.ok 0, after, ?_, ?_, ?_⟩
        · simp [Lending.perform, release, Except.map]
        · rw [given]
          exact ⟨sound.sized, sound.placed, .inl ⟨empty, fun _ => rfl⟩, equal⟩
        · intro _ place byte dirty
          rw [disk]
          exact held.settled_dirty sound.placed dirty

/-- A careful call keeps the cache sound. -/
theorem Sound.step {next : Tracked} {input : Answers × Call} (sound : Sound vol tracked)
    (careful : Careful vol tracked input) (taken : step vol tracked input = some next) :
    Sound vol next := by
  obtain ⟨result, after, performed, kept, _⟩ := sound.perform careful
  rw [Lending.step, performed] at taken
  cases taken
  exact kept

/-- The buffers that are lent are as the state of the cache says. -/
theorem Sound.owned (sound : Sound vol tracked) : Owned tracked.fs := by
  obtain ⟨empty, _⟩ | ⟨bd, buf, held⟩ := sound.cache
  · exact ⟨by simp [empty.actual], by simp [empty.lent]⟩
  · refine ⟨fun _ => ⟨bd, held.buf, by simp [held.lent]⟩, fun other lent => ⟨held.actual, ?_⟩⟩
    by_cases same : other = bd
    · rw [same, held.buf]
    · simp [held.lent, same] at lent

/-- In every run in which the block device layer takes back the buffers that are given up and no copy for another
FAT fails, the cache owns its buffer, modified bytes reach the disk, and the FATs are equal. -/
theorem served_cache_owns_its_buffer {past : List Tracked}
    (run : Trace (Initial vol) (Careful vol) (step vol) past tracked) :
    Owned tracked.fs ∧ (∀ answers call, Careful vol tracked (answers, call) →
        ∃ result after, perform vol answers tracked.fs call = some (result, after) ∧
          (GaveUp tracked.fs result call → ∀ place byte, tracked.dirty place = some byte →
            after.disk place = byte)) ∧
      (tracked.fs.actual = false → vol.mirror = 0 → Equal vol tracked.fs.disk) := by
  have sound : Sound vol tracked := by
    refine run.invariant (Sound vol) (fun tracked initial => ?_)
      fun tracked input next sound careful taken => sound.step careful taken
    obtain ⟨sized, placed, empty, clean, equal⟩ := initial
    exact ⟨sized, placed, .inl ⟨empty, clean⟩, equal⟩
  refine ⟨sound.owned, ?_, fun _ => sound.equal⟩
  intro answers call careful
  obtain ⟨result, after, performed, _, reached⟩ := sound.perform careful
  exact ⟨result, after, performed, reached⟩

/-- A volume with two FATs of one sector. -/
def twoFats : Volume where
  bps := 512
  secLog2 := 9
  spc := 1
  spcLog2 := 0
  bpc := 512
  bpcLog2 := 9
  bytesPerBlock := 512
  bytesPerBlockLog2 := 9
  fats := 2
  type := .fat12
  fatLoc := 1
  fatLength := 1
  rdirLoc := 3
  rdirEntrs := 16
  rdirSecs := 1
  rdirSize := 512
  totSecs := 14
  dataFsec := 4
  dataCls := 10
  rdirCl := 0
  infoSec := 0
  mirror := 0
  afat := 0
  afatLoc := 1

/-- Its file system behind the mount. -/
def unused : Tracked where
  fs := { blkNum := 0, modified := false, actual := false, buf := none, disk := fun _ => 0
          lent := fun _ => none, fresh := 0 }
  dirty := fun _ => none

theorem unused_initial : Initial twoFats unused :=
  ⟨by constructor <;> decide, by unfold Placed; decide, ⟨rfl, rfl⟩, fun _ => rfl, fun _ _ _ _ _ => rfl⟩

/-- The block device layer as it grants everything, and as it grants no copy. -/
def granting : Answers :=
  ⟨true, true, fun _ => 0, fun _ => true, fun _ _ => 0, fun _ => true⟩
def noCopies : Answers := { granting with copyObtained := fun _ => false }

/-- A byte of the FAT is modified and released. -/
theorem served_cache_owns_its_buffer_two_fats : ∃ past tracked,
    Trace (Initial twoFats) (Careful twoFats) (step twoFats) past tracked ∧
      (tracked.fs.actual, tracked.fs.disk 515, tracked.fs.disk 1027) = (false, 7, 7) ∧
      Owned tracked.fs ∧ Equal twoFats tracked.fs.disk := by
  obtain ⟨past, tracked, run, seen⟩ := Trace.observe (Careful twoFats) (step twoFats) unused
    unused_initial
    [(granting, .access 1 .read), (granting, .modify 3 [7]), (granting, .release)]
    (fun tracked => (tracked.fs.actual, tracked.fs.disk 515, tracked.fs.disk 1027)) (false, 7, 7)
    (by decide +kernel) (by decide +kernel)
  obtain ⟨owned, _, equal⟩ := served_cache_owns_its_buffer run
  exact ⟨past, tracked, run, seen, owned, equal (Prod.mk.inj seen).1 rfl⟩

/-- Where the copy for the second FAT fails, the cache still claims to hold the buffer that it gave back. The next
access of the sector uses it. -/
theorem failed_copy_leaves_released_buffer : ∃ past tracked,
    Trace (Initial twoFats) (fun _ _ => True) (step twoFats) past tracked ∧
      (tracked.fs.actual, tracked.fs.held.isSome) = (true, false) ∧
      (perform twoFats granting tracked.fs (.access 1 .read)).isNone = true := by
  obtain ⟨past, tracked, run, seen⟩ := Trace.observe (fun _ _ => True) (step twoFats) unused
    unused_initial
    [(granting, .access 1 .read), (granting, .modify 3 [7]), (noCopies, .release)]
    (fun tracked => ((tracked.fs.actual, tracked.fs.held.isSome),
      (perform twoFats granting tracked.fs (.access 1 .read)).isNone)) ((true, false), true)
    (by decide +kernel) (by decide +kernel)
  obtain ⟨places, faults⟩ := Prod.mk.inj seen
  exact ⟨past, tracked, run, places, faults⟩

end Rtems.Dosfs.Lending
