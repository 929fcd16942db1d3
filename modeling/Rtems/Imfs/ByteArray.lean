import Rtems.Library.Transition
import Rtems.Imfs.Memfile

/-!
# A file in memory is a byte array

The bytes of a file are those that were written last, and zeros where nothing was written, as long as no
read begins behind the end of the file and no sum of an offset and a count is too large for 32 bits.
-/

namespace Rtems.Imfs

open ByteRange Transition

variable {cfg : Config}
variable {config : Config} {file : Memfile}

/-- A length below the maximum has a block that can be found. -/
theorem block_lt {length : Nat} (small : length < cfg.maximumSize) :
    length / cfg.bytesPerBlock < cfg.lastTriply :=
  (Nat.div_lt_iff_lt_mul cfg.sizes.2.1).mpr small

section

variable (sound : file.Sound cfg)
include sound

theorem memfileExtend_spec (zeroFill : Bool) {newLength : Nat}
    (more : file.size < newLength) (small : newLength < cfg.maximumSize) :
    ∃ after zeros, memfileExtend cfg file zeroFill newLength = some (.ok (), after) ∧
      after.size = newLength ∧ after.Sound cfg ∧ newLength ≤ file.size + zeros ∧
      after.byte cfg = if zeroFill then put (file.byte cfg) file.size (List.replicate zeros 0)
        else file.byte cfg := by
  obtain ⟨-, positive, bound⟩ := cfg.sizes
  obtain ⟨old, oldLess⟩ := length_eq cfg file.size
  obtain ⟨new, newLess⟩ := length_eq cfg newLength
  have blocks := block_lt small
  have order : file.size / cfg.bytesPerBlock ≤ newLength / cfg.bytesPerBlock :=
    block_le (Nat.le_of_lt more)
  have newWord : newLength / cfg.bytesPerBlock < 2 ^ 32 :=
    Nat.lt_of_le_of_lt (Nat.div_le_self _ _) (by omega)
  have allocated : ∀ tested, tested < file.size / cfg.bytesPerBlock →
      ∃ data, file.find cfg tested = some data := by
    intro tested less
    refine sound.allocated ?_ tested (Nat.le_of_lt less)
    intro none
    rw [none, Nat.zero_div] at less
    omega
  obtain ⟨after, done, size, all, bytes⟩ := @extendLoop_spec cfg file
    (file.size / cfg.bytesPerBlock) zeroFill (file.size / cfg.bytesPerBlock)
    (newLength / cfg.bytesPerBlock + 1 - file.size / cfg.bytesPerBlock)
    (file.size % cfg.bytesPerBlock) (by omega) (Nat.le_of_lt oldLess) allocated
  have off : file.size - file.size / cfg.bytesPerBlock * cfg.bytesPerBlock =
      file.size % cfg.bytesPerBlock := by omega
  have product : (newLength / cfg.bytesPerBlock + 1 - file.size / cfg.bytesPerBlock) *
      cfg.bytesPerBlock = newLength / cfg.bytesPerBlock * cfg.bytesPerBlock +
        cfg.bytesPerBlock - file.size / cfg.bytesPerBlock * cfg.bytesPerBlock := by
    rw [Nat.sub_mul, Nat.succ_mul]
  refine ⟨{ after with size := newLength },
    (newLength / cfg.bytesPerBlock + 1 - file.size / cfg.bytesPerBlock) * cfg.bytesPerBlock -
      file.size % cfg.bytesPerBlock, ?_, rfl, ⟨small, ?_⟩, ?_, ?_⟩
  · rw [memfileExtend, if_neg (by omega), if_neg (by omega)]
    dsimp only
    rw [uint_of_lt newWord, uint_of_lt (by omega), off, uint_of_lt (by omega), done]
  · intro _ tested less
    exact all tested (by dsimp only at less; omega)
  · omega
  · rw [← old] at bytes
    exact bytes

/-- The size of a file does not matter for its bytes. -/
theorem sound_resize {length : Nat} (less : length ≤ file.size) :
    Memfile.Sound cfg { file with size := length } := by
  refine ⟨Nat.lt_of_le_of_lt less sound.size, ?_⟩
  intro some tested inside
  have present : file.size ≠ 0 := by
    dsimp only at some
    omega
  exact sound.allocated present tested (Nat.le_trans inside (block_le less))

/-- A read that begins in the file or at its end. -/
theorem memfileRead_spec {start length : Nat} (inside : start ≤ file.size)
    (word : start + length < 2 ^ 32) :
    memfileRead cfg file start length =
      some (get (file.byte cfg) start (min length (file.size - start))) := by
  have amount : (if uint (start + length) > file.size then
      (((file.size : Int) - start) % 2 ^ 32).toNat else length) = min length (file.size - start) := by
    rw [uint_of_lt word]
    split
    case isTrue behind => omega
    case isFalse within => omega
  rw [memfileRead, amount]
  by_cases none : file.size = 0
  · have start0 : start = 0 := by omega
    have length0 : min length (file.size - start) = 0 := by omega
    rw [length0, start0, readBlocks]
    rw [Nat.zero_mod, if_pos rfl, Nat.zero_div, readLoop, if_pos rfl]
    rfl
  · apply readBlocks_spec (by omega)
    intro tested less
    exact sound.allocated none tested (Nat.le_trans less (block_le (by omega)))

/-- A write that does not go beyond the largest size. -/
theorem memfileWrite_spec {start : Nat} {source : List UInt8}
    (word : start + source.length < 2 ^ 32)
    (small : start + source.length ≤ file.size ∨ start + source.length < cfg.maximumSize) :
    ∃ after, memfileWrite cfg file start source.length source = some (.ok source.length, after) ∧
      after.Sound cfg ∧ after.size = max file.size (start + source.length) ∧
      ∀ pos < after.size, after.byte cfg pos =
        put (fun place => if place < file.size then file.byte cfg place else 0) start source pos := by
  obtain ⟨-, -, bound⟩ := cfg.sizes
  have size := sound.size
  rw [memfileWrite]
  rw [uint_of_lt word]
  by_cases behind : start + source.length > file.size
  · rw [if_pos behind]
    have maximum : start + source.length < cfg.maximumSize := by omega
    obtain ⟨extended, zeros, done, length, kept, enough, bytes⟩ :=
      memfileExtend_spec sound (decide (start > file.size)) behind maximum
    rw [done]
    have positive : extended.size ≠ 0 := by omega
    have allocated := kept.allocated positive
    have last : extended.size / cfg.bytesPerBlock < 2 ^ 32 :=
      Nat.lt_of_le_of_lt (Nat.div_le_self _ _) (by omega)
    obtain ⟨after, written, sized, all, byte⟩ :=
      @writeBlocks_spec cfg extended start source _ allocated (by rw [length]) last
    refine ⟨after, by dsimp only; rw [written]; rfl, ⟨by omega, ?_⟩, by omega, ?_⟩
    · intro _
      rw [sized]
      exact all
    · intro pos less
      rw [byte, bytes]
      apply put_congr_outside
      intro outside
      by_cases gap : start > file.size
      · rw [if_pos (decide_eq_true gap)]
        by_cases old : pos < file.size
        · rw [if_pos old, put_outside (Or.inl old)]
        · obtain ⟨index, rfl⟩ : ∃ index, pos = file.size + index := ⟨pos - file.size, by omega⟩
          rw [if_neg old, put_inside (by rw [List.length_replicate]; omega), List.getElem_replicate]
      · rw [if_neg (by simpa using gap), if_pos (by omega)]
  · rw [if_neg behind]
    by_cases none : file.size = 0
    · obtain rfl : start = 0 := by omega
      obtain rfl := List.eq_nil_of_length_eq_zero (by omega : source.length = 0)
      refine ⟨file, ?_, sound, by rw [none]; rfl, fun pos less => by omega⟩
      rw [writeBlocks]
      rw [Nat.zero_mod, if_pos rfl, List.length_nil, Nat.zero_div, writeLoop, if_pos rfl]
      rfl
    · have last : file.size / cfg.bytesPerBlock < 2 ^ 32 :=
        Nat.lt_of_le_of_lt (Nat.div_le_self _ _) (by omega)
      obtain ⟨after, written, sized, all, byte⟩ := @writeBlocks_spec cfg file start source _
        (sound.allocated none) (block_le (by omega)) last
      refine ⟨after, by rw [written]; rfl, ⟨by omega, ?_⟩, by omega, ?_⟩
      · intro _
        rw [sized]
        exact all
      · intro pos less
        rw [byte]
        exact put_congr (if_pos (by omega)).symm

end

/-- A write that goes beyond the largest size fails. -/
theorem memfileWrite_large {start : Nat} {source : List UInt8} (word : start + source.length < 2 ^ 32)
    (behind : file.size < start + source.length) (large : cfg.maximumSize ≤ start + source.length) :
    memfileWrite cfg file start source.length source = some (.error .fileTooBig, file) := by
  rw [memfileWrite]
  rw [uint_of_lt word, if_pos behind, memfileExtend, if_pos large]

inductive Whence where
  | set
  | current
  | fromEnd
deriving DecidableEq, Repr

/-- The part of `rtems_libio_t` that the operations use. -/
structure Iop where
  offset : Nat
  append : Bool
deriving DecidableEq, Repr

inductive Operation where
  | read (count : Nat)
  | write (data : List UInt8)
  | lseek (whence : Whence) (offset : Int)
  | ftruncate (length : Nat)
deriving Repr

inductive Answer where
  | bytes (read : List UInt8)
  | count (written : Nat)
  | offset (place : Nat)
  | done
  | error (errno : Errno)
deriving DecidableEq, Repr

/-- `rtems_filesystem_default_lseek_file`; an offset has 64 bits with a sign. -/
def lseekFile (size : Nat) (whence : Whence) (offset : Int) (iop : Iop) : Answer × Iop :=
  let reference :=
    match whence with
    | .set => 0
    | .current => iop.offset
    | .fromEnd => size
  let place : Int := reference + offset
  if place ≥ 2 ^ 63 then (.error .overflow, iop)
  else if place ≥ 0 then (.offset place.toNat, { iop with offset := place.toNat })
  else (.error .invalid, iop)

/-- The place where a write begins. -/
def Iop.start (iop : Iop) (size : Nat) : Nat := if iop.append then size else iop.offset

/-- `memfile_read`, `memfile_write`, the seek and `memfile_ftruncate` on a file that is open. -/
def perform (config : Config) (file : Memfile) (iop : Iop) : Operation → Option (Answer × Memfile × Iop)
  | .read count =>
    match memfileRead config file iop.offset (uint count) with
    | none => none
    | some bytes => some (.bytes bytes, file, { iop with offset := iop.offset + bytes.length })
  | .write data =>
    let start := iop.start file.size
    match memfileWrite config file start (uint data.length) data with
    | none => none
    | some (.error errno, file) => some (.error errno, file, { iop with offset := start })
    | some (.ok copied, file) => some (.count copied, file, { iop with offset := start + copied })
  | .lseek whence offset =>
    let (answer, iop) := lseekFile file.size whence offset iop
    some (answer, file, iop)
  | .ftruncate length =>
    match memfileFtruncate config file length with
    | none => none
    | some (.error errno, file) => some (.error errno, file, iop)
    | some (.ok _, file) => some (.done, file, iop)

/-- A byte array with new bytes at a place; a gap in front of them is filled with zeros. -/
def writeAt (bytes : List UInt8) (place : Nat) (data : List UInt8) : List UInt8 :=
  get (put (fun pos => bytes.getD pos 0) place data) 0 (max bytes.length (place + data.length))

/-- A byte array of another length; it is cut, or it is filled with zeros. -/
def resize (bytes : List UInt8) (length : Nat) : List UInt8 := get (fun pos => bytes.getD pos 0) 0 length

/-- The operations on a byte array. -/
def Operation.apply (maximumSize : Nat) (bytes : List UInt8) (iop : Iop) :
    Operation → Answer × List UInt8 × Iop
  | .read count =>
    let read := (bytes.drop iop.offset).take count
    (.bytes read, bytes, { iop with offset := iop.offset + read.length })
  | .write data =>
    let start := iop.start bytes.length
    if bytes.length < start + data.length ∧ maximumSize ≤ start + data.length then
      (.error .fileTooBig, bytes, { iop with offset := start })
    else (.count data.length, writeAt bytes start data, { iop with offset := start + data.length })
  | .lseek whence offset =>
    let (answer, iop) := lseekFile bytes.length whence offset iop
    (answer, bytes, iop)
  | .ftruncate length =>
    if bytes.length < length ∧ maximumSize ≤ length then (.error .fileTooBig, bytes, iop)
    else (.done, resize bytes length, iop)

/-- A file that is open, with the bytes that it should have. -/
structure Tracked where
  file : Memfile
  iop : Iop
  bytes : List UInt8

/-- An operation on the file and on the byte array. -/
def step (config : Config) (tracked : Tracked) (operation : Operation) : Option Tracked :=
  (perform config tracked.file tracked.iop operation).map fun (_, file, iop) =>
    ⟨file, iop, (operation.apply config.maximumSize tracked.bytes tracked.iop).2.1⟩

/-- A new file. -/
def Initial (tracked : Tracked) : Prop :=
  tracked.file = ⟨0, none, none, none⟩ ∧ tracked.bytes = []

/-- A read begins at the end of the file or before it, and the places of a read and a write are numbers of
32 bits. -/
def Careful (tracked : Tracked) : Operation → Prop
  | .read count => tracked.iop.offset ≤ tracked.file.size ∧ tracked.iop.offset + count < 2 ^ 32
  | .write data => tracked.iop.start tracked.file.size + data.length < 2 ^ 32
  | _ => True

instance (tracked : Tracked) (operation : Operation) : Decidable (Careful tracked operation) :=
  match operation with
  | .read _ => inferInstanceAs (Decidable (_ ∧ _))
  | .write _ => inferInstanceAs (Decidable (_ < _))
  | .lseek .. | .ftruncate _ => .isTrue trivial

/-- The bytes of a file. -/
structure Represents (config : Config) (file : Memfile) (bytes : List UInt8) : Prop where
  sound : file.Sound config
  size : file.size = bytes.length
  bytes : ∀ pos < file.size, file.byte config pos = bytes.getD pos 0

variable {bytes : List UInt8}

theorem Represents.get (represents : Represents cfg file bytes) {start count : Nat}
    (inside : start + count ≤ file.size) :
    ByteRange.get (file.byte cfg) start count = (bytes.drop start).take count := by
  have size := represents.size
  apply List.ext_getElem?
  intro index
  rw [List.getElem?_take]
  split
  case isTrue less =>
    rw [getElem?_get less, List.getElem?_drop, represents.bytes _ (by omega),
      List.getD_eq_getElem?_getD, List.getElem?_eq_getElem (by omega), Option.getD_some]
  case isFalse more => exact List.getElem?_eq_none (by rw [length_get]; omega)

/-- The bytes of a range. -/
theorem getD_get_zero {store : Nat → UInt8} {count pos : Nat} (less : pos < count) :
    (ByteRange.get store 0 count).getD pos 0 = store pos := by
  rw [getD_get less, Nat.zero_add]

/-- Every operation of a careful run does with the file what it does with the byte array. -/
theorem Represents.perform (represents : Represents cfg file bytes) {iop : Iop} {op : Operation}
    (careful : Careful ⟨file, iop, bytes⟩ op) :
    ∃ after, perform cfg file iop op = some ((op.apply cfg.maximumSize bytes iop).1, after,
          (op.apply cfg.maximumSize bytes iop).2.2) ∧
      Represents cfg after (op.apply cfg.maximumSize bytes iop).2.1 := by
  obtain ⟨sound, size, same⟩ := represents
  cases op with
  | read count =>
    obtain ⟨inside, word⟩ : iop.offset ≤ file.size ∧ iop.offset + count < 2 ^ 32 := careful
    refine ⟨file, ?_, sound, size, same⟩
    have read : ByteRange.get (file.byte cfg) iop.offset (min count (file.size - iop.offset)) =
        (bytes.drop iop.offset).take count := by
      rw [Represents.get ⟨sound, size, same⟩ (by omega)]
      apply List.take_eq_take_iff.mpr
      rw [List.length_drop]
      omega
    rw [Imfs.perform, uint_of_lt (by omega), memfileRead_spec sound inside word, read]
    rfl
  | write data =>
    have word : iop.start file.size + data.length < 2 ^ 32 := careful
    rw [Imfs.perform, Operation.apply, ← size, uint_of_lt (by omega)]
    by_cases large : file.size < iop.start file.size + data.length ∧
        cfg.maximumSize ≤ iop.start file.size + data.length
    · rw [if_pos large, memfileWrite_large word large.1 large.2]
      exact ⟨file, rfl, sound, size, same⟩
    · rw [if_neg large]
      obtain ⟨after, written, kept, length, byte⟩ := memfileWrite_spec sound word (by omega)
      rw [written]
      refine ⟨after, rfl, kept, ?_, ?_⟩
      · rw [writeAt, length_get, length, size]
      · intro pos less
        rw [byte pos less, writeAt, getD_get_zero (by rw [← size, ← length]; exact less)]
        apply put_congr
        split
        case isTrue inside => exact same pos inside
        case isFalse outside =>
          rw [List.getD_eq_getElem?_getD, List.getElem?_eq_none (by omega), Option.getD_none]
  | lseek whence off =>
    refine ⟨file, ?_, sound, size, same⟩
    rw [Imfs.perform, Operation.apply, size]
  | ftruncate length =>
    rw [Imfs.perform, Operation.apply, memfileFtruncate, ← size]
    by_cases longer : length > file.size
    · rw [if_pos longer]
      by_cases large : cfg.maximumSize ≤ length
      · rw [memfileExtend, if_pos large, if_pos ⟨longer, large⟩]
        exact ⟨file, rfl, sound, size, same⟩
      · obtain ⟨after, zeros, done, sized, kept, enough, byte⟩ :=
          memfileExtend_spec sound true longer (by omega)
        rw [done, if_neg (by omega)]
        refine ⟨after, rfl, kept, by rw [resize, length_get, sized], ?_⟩
        intro pos less
        rw [resize, getD_get_zero (by omega), byte, if_pos rfl]
        by_cases old : pos < file.size
        · rw [put_outside (Or.inl old), same pos old]
        · obtain ⟨index, rfl⟩ : ∃ index, pos = file.size + index := ⟨pos - file.size, by omega⟩
          rw [put_inside (by rw [List.length_replicate]; omega), List.getElem_replicate,
            List.getD_eq_getElem?_getD, List.getElem?_eq_none (by omega), Option.getD_none]
    · rw [if_neg longer, if_neg (by omega)]
      refine ⟨_, rfl, sound_resize sound (Nat.not_lt.mp longer), by rw [resize, length_get], ?_⟩
      intro pos less
      rw [resize, getD_get_zero less]
      exact same pos (Nat.lt_of_lt_of_le less (Nat.not_lt.mp longer))

/-- In a careful run the file has the bytes of the byte array, and every careful operation returns what it
returns on the byte array. No block is used that is not allocated. -/
theorem memfiles_are_byte_arrays {past : List Tracked} {tracked : Tracked}
    (run : Trace Initial Careful (step config) past tracked) :
    tracked.file.size = tracked.bytes.length ∧ ∀ operation, Careful tracked operation → ∃ after,
        perform config tracked.file tracked.iop operation =
          some ((operation.apply config.maximumSize tracked.bytes tracked.iop).1, after,
            (operation.apply config.maximumSize tracked.bytes tracked.iop).2.2) ∧
        after.size = (operation.apply config.maximumSize tracked.bytes tracked.iop).2.1.length := by
  have represents : Represents config tracked.file tracked.bytes := by
    refine run.invariant (fun tracked => Represents config tracked.file tracked.bytes) ?_ ?_
    · rintro ⟨file, iop, bytes⟩ ⟨rfl, rfl⟩
      exact ⟨⟨config.maximumSize_pos, fun some => absurd rfl some⟩, rfl, fun pos less => by cases less⟩
    · intro tracked operation next represents careful taken
      obtain ⟨after, done, kept⟩ := represents.perform careful
      rw [step, done] at taken
      cases taken
      exact kept
  refine ⟨represents.size, ?_⟩
  intro operation careful
  obtain ⟨after, done, kept⟩ := represents.perform careful
  exact ⟨after, done, kept.size⟩

/-- The smallest blocks. -/
def smallest : Config where
  bytesPerBlock := 16
  pointerSize := 4
  configured := by decide
  pointer := by decide

def start : Tracked := ⟨⟨0, none, none, none⟩, ⟨0, false⟩, []⟩

theorem start_initial : Initial start := ⟨rfl, rfl⟩

/-- A file grows to the second table, is cut, and grows again over its old bytes. -/
theorem memfiles_are_byte_arrays_small :
    ∃ (past : List Tracked) (tracked : Tracked),
      Trace Initial Careful (step smallest) past tracked ∧
      tracked.bytes = [1, 2, 0, 0, 0, 6] ∧ tracked.file.size = 6 ∧
      (perform smallest tracked.file tracked.iop (.read 4)).map Prod.fst = some (.bytes [2, 0, 0, 0]) := by
  obtain ⟨past, tracked, run, seen⟩ := Trace.observe Careful (step smallest) start start_initial
    [.write [1, 2, 3, 4, 5], .lseek .set 100, .write [7], .ftruncate 2, .lseek .set 5, .write [6],
      .lseek .set 1]
    (fun tracked => (tracked.bytes, tracked.iop.offset, decide (Careful tracked (.read 4))))
    ([1, 2, 0, 0, 0, 6], 1, true) (by decide +kernel) (by decide +kernel)
  obtain ⟨bytes, rest⟩ := Prod.mk.inj seen
  obtain ⟨offset, careful⟩ := Prod.mk.inj rest
  obtain ⟨size, operations⟩ := memfiles_are_byte_arrays run
  obtain ⟨after, done, -⟩ := operations (.read 4) (of_decide_eq_true careful)
  refine ⟨past, tracked, run, bytes, by rw [size, bytes]; rfl, ?_⟩
  rw [done, Option.map_some, Operation.apply, bytes, offset]
  rfl

/-- A byte is written, and one is read behind the end of the file. The read goes on to a block that is not
allocated. -/
theorem read_behind_end_uses_missing_block :
    ∃ (past : List Tracked) (tracked : Tracked),
      Trace Initial (fun _ _ => True) (step smallest) past tracked ∧
      (tracked.file.size, tracked.iop.offset) = (1, 10) ∧
      (perform smallest tracked.file tracked.iop (.read 1)).isNone = true := by
  obtain ⟨past, tracked, run, seen⟩ := Trace.observe (fun _ _ => True) (step smallest) start start_initial
    [.write [1], .lseek .set 10]
    (fun tracked => ((tracked.file.size, tracked.iop.offset),
      (perform smallest tracked.file tracked.iop (.read 1)).isNone))
    ((1, 10), true) (by decide +kernel) (by decide +kernel)
  obtain ⟨places, faults⟩ := Prod.mk.inj seen
  exact ⟨past, tracked, run, places, faults⟩

end Rtems.Imfs
