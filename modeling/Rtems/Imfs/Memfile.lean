import Rtems.Library.ByteRange
import Rtems.Imfs.Blocks

/-!
# Reading and writing a file in memory

Lengths and the numbers of blocks are computed as unsigned integers of 32 bits, offsets have 64 bits. An
operation that uses the memory of a block that is not allocated has no result.
-/

namespace Rtems.Imfs

open ByteRange
open Nat (mod_lt mul_add_div succ_mul zero_mul)

/-- A value as `unsigned int`. -/
def uint (value : Nat) : Nat := value % 2 ^ 32

inductive Errno where
  | fileTooBig
  | noSpace
  | invalid
  | overflow
deriving DecidableEq, Repr

variable (cfg : Config)
variable (config : Config)

/-- The block in the slot that was looked up. -/
def Memfile.block (file : Memfile) (block : Nat) : Option (Entry × Option Block) :=
  (getBlockPointer config file block false).1.map fun entry => (entry, file.load config entry)

/-- The loop of `IMFS_memfile_extend` that undoes what was done. -/
def removeBlocks (oldBlocks : Nat) : Nat → Memfile → Memfile
  | 0, file => removeBlock config file oldBlocks
  | block + 1, file =>
    if block + 1 > oldBlocks then removeBlocks oldBlocks block (removeBlock config file (block + 1))
    else removeBlock config file oldBlocks

/-- The loop of `IMFS_memfile_extend` that allocates blocks: whether all have a slot. -/
def extendLoop (zeroFill : Bool) (oldBlocks : Nat) : Nat → Nat → Nat → Memfile → Option (Bool × Memfile)
  | 0, _, _, file => some (true, file)
  | rounds + 1, block, offset, file =>
    match addblock config file block with
    | (false, file) => some (false, removeBlocks config oldBlocks block file)
    | (true, file) =>
      if zeroFill then
        match file.block config block with
        | some (entry, some data) =>
          extendLoop zeroFill oldBlocks rounds (block + 1) 0
            (file.store entry
              (some (put data offset (List.replicate (config.bytesPerBlock - offset) 0))))
        | _ => none
      else extendLoop zeroFill oldBlocks rounds (block + 1) offset file

/-- `IMFS_memfile_extend` -/
def memfileExtend (file : Memfile) (zeroFill : Bool) (newLength : Nat) :
    Option (Except Errno Unit × Memfile) :=
  if newLength ≥ config.maximumSize then some (.error .fileTooBig, file)
  else if newLength ≤ file.size then some (.ok (), file)
  else
    let newBlocks := uint (newLength / config.bytesPerBlock)
    let oldBlocks := uint (file.size / config.bytesPerBlock)
    let offset := uint (file.size - oldBlocks * config.bytesPerBlock)
    match extendLoop config zeroFill oldBlocks (newBlocks + 1 - oldBlocks) oldBlocks offset file with
    | some (true, file) => some (.ok (), { file with size := newLength })
    | some (false, file) => some (.error .noSpace, file)
    | none => none

/-- The last two phases of `IMFS_memfile_read`: whole blocks, and then the first part of a block. -/
def readLoop (file : Memfile) : Nat → Nat → Nat → List UInt8 → Option (List UInt8)
  | 0, block, myLength, copied =>
    if myLength = 0 then some copied
    else
      match file.block config block with
      | none => some copied
      | some (_, none) => none
      | some (_, some data) => some (copied ++ get data 0 myLength)
  | rounds + 1, block, myLength, copied =>
    match file.block config block with
    | none => some copied
    | some (_, none) => none
    | some (_, some data) =>
      readLoop file rounds (uint (block + 1)) (myLength - config.bytesPerBlock)
        (copied ++ get data 0 config.bytesPerBlock)

/-- `IMFS_memfile_read` behind the computation of the length. -/
def readBlocks (file : Memfile) (start myLength : Nat) : Option (List UInt8) :=
  let startOffset := start % config.bytesPerBlock
  let block := uint (start / config.bytesPerBlock)
  if startOffset = 0 then readLoop config file (myLength / config.bytesPerBlock) block myLength []
  else
    let toCopy := min (config.bytesPerBlock - startOffset) myLength
    let rest := myLength - toCopy
    match file.block config block with
    | none => some []
    | some (_, none) => none
    | some (_, some data) =>
      readLoop config file (rest / config.bytesPerBlock) (uint (block + 1)) rest
        (get data startOffset toCopy)

/-- `IMFS_memfile_read`: the bytes that are copied. -/
def memfileRead (file : Memfile) (start length : Nat) : Option (List UInt8) :=
  let lastByte := uint (start + length)
  -- the difference is negative if the file ends before the start
  let myLength :=
    if lastByte > file.size then (((file.size : Int) - start) % 2 ^ 32).toNat else length
  readBlocks config file start myLength

/-- The last two phases of `IMFS_memfile_write`: whole blocks, and then the first part of a block. -/
def writeLoop : Nat → Nat → Nat → List UInt8 → Nat → Memfile → Option (Nat × Memfile)
  | 0, block, myLength, src, copied, file =>
    if myLength = 0 then some (copied, file)
    else
      match file.block config block with
      | none => some (copied, file)
      | some (_, none) => none
      | some (entry, some data) =>
        some (copied + myLength, file.store entry (some (put data 0 (src.take myLength))))
  | rounds + 1, block, myLength, src, copied, file =>
    match file.block config block with
    | none => some (copied, file)
    | some (_, none) => none
    | some (entry, some data) =>
      writeLoop rounds (uint (block + 1)) (myLength - config.bytesPerBlock)
        (src.drop config.bytesPerBlock) (copied + config.bytesPerBlock)
        (file.store entry (some (put data 0 (src.take config.bytesPerBlock))))

/-- `IMFS_memfile_write` behind the extension of the file. -/
def writeBlocks (file : Memfile) (start length : Nat) (source : List UInt8) : Option (Nat × Memfile) :=
  let startOffset := start % config.bytesPerBlock
  let block := uint (start / config.bytesPerBlock)
  if startOffset = 0 then
    writeLoop config (length / config.bytesPerBlock) block length source 0 file
  else
    let toCopy := min (config.bytesPerBlock - startOffset) length
    let myLength := length - toCopy
    match file.block config block with
    | none => some (0, file)
    | some (_, none) => none
    | some (entry, some data) =>
      writeLoop config (myLength / config.bytesPerBlock) (uint (block + 1)) myLength (source.drop toCopy)
        toCopy (file.store entry (some (put data startOffset (source.take toCopy))))

/-- `IMFS_memfile_write` -/
def memfileWrite (file : Memfile) (start length : Nat) (source : List UInt8) :
    Option (Except Errno Nat × Memfile) :=
  let lastByte := uint (start + length)
  if lastByte > file.size then
    match memfileExtend config file (decide (start > file.size)) lastByte with
    | none => none
    | some (.error errno, file) => some (.error errno, file)
    | some (.ok _, file) =>
      (writeBlocks config file start length source).map fun (copied, file) => (.ok copied, file)
  else (writeBlocks config file start length source).map fun (copied, file) => (.ok copied, file)

/-- `memfile_ftruncate` -/
def memfileFtruncate (file : Memfile) (length : Nat) : Option (Except Errno Unit × Memfile) :=
  if length > file.size then memfileExtend config file true length
  else some (.ok (), { file with size := length })

/-- The byte at a place of a file. -/
def Memfile.byte (file : Memfile) (pos : Nat) : UInt8 :=
  match file.find config (pos / config.bytesPerBlock) with
  | some data => data (pos % config.bytesPerBlock)
  | none => 0

/-- The blocks up to a number are allocated. -/
def Memfile.Allocated (file : Memfile) (last : Nat) : Prop :=
  ∀ block, block ≤ last → ∃ data, file.find config block = some data

/-- The blocks of a file that is not empty are allocated, and one more where the last is full. -/
structure Memfile.Sound (file : Memfile) : Prop where
  size : file.size < config.maximumSize
  allocated : file.size ≠ 0 → file.Allocated config (file.size / config.bytesPerBlock)

variable {cfg} {file : Memfile} {block : Nat} {data : Block}

theorem uint_of_lt {value : Nat} (small : value < 2 ^ 32) : uint value = value := Nat.mod_eq_of_lt small

section

variable (found : file.find cfg block = some data)
include found

theorem byte_block {off : Nat} (inside : off < cfg.bytesPerBlock) :
    file.byte cfg (block * cfg.bytesPerBlock + off) = data off := by
  have quotient : (block * cfg.bytesPerBlock + off) / cfg.bytesPerBlock = block := by
    rw [Nat.mul_comm, mul_add_div (by omega), Nat.div_eq_of_lt inside, Nat.add_zero]
  have remainder : (block * cfg.bytesPerBlock + off) % cfg.bytesPerBlock = off := by
    rw [Nat.mul_comm, Nat.mul_add_mod, Nat.mod_eq_of_lt inside]
  rw [Memfile.byte, quotient, remainder, found]

theorem get_block {off count : Nat} (inside : off + count ≤ cfg.bytesPerBlock) :
    get data off count = get (file.byte cfg) (block * cfg.bytesPerBlock + off) count := by
  apply List.map_congr_left
  intro index member
  have less := List.mem_range.mp member
  rw [Nat.add_assoc, byte_block found (by omega)]

/-- A block that is allocated is found in its slot. -/
theorem block_find :
    ∃ entry, file.block cfg block = some (entry, some data) ∧ entryOf cfg block = some entry ∧
      file.load cfg entry = some data := by
  obtain ⟨entry, pointer, loaded, slot⟩ := getBlockPointer_find found
  refine ⟨entry, ?_, slot, loaded⟩
  rw [Memfile.block, pointer, Option.map_some, loaded]

end

section

variable {entry : Entry} (slot : entryOf cfg block = some entry)
  (loaded : file.load cfg entry = some data)
include slot loaded

theorem byte_store {off : Nat} {bytes : List UInt8}
    (inside : off + bytes.length ≤ cfg.bytesPerBlock) :
    (file.store entry (some (put data off bytes))).byte cfg =
      put (file.byte cfg) (block * cfg.bytesPerBlock + off) bytes := by
  have found : file.find cfg block = some data := by rw [Memfile.find, slot, Option.bind_some, loaded]
  obtain ⟨-, positive, -⟩ := cfg.sizes
  funext pos
  have split := Nat.div_add_mod' pos cfg.bytesPerBlock
  have less := mod_lt pos positive
  rw [Memfile.byte, find_store slot (.of_load loaded)]
  by_cases same : pos / cfg.bytesPerBlock = block
  · rw [if_pos same]
    have place : pos = block * cfg.bytesPerBlock + pos % cfg.bytesPerBlock := by rw [← same, split]
    have old := byte_block found less
    rw [← place] at old
    dsimp only
    by_cases within : off ≤ pos % cfg.bytesPerBlock ∧ pos % cfg.bytesPerBlock < off + bytes.length
    · obtain ⟨index, equal⟩ : ∃ index, pos % cfg.bytesPerBlock = off + index :=
        ⟨pos % cfg.bytesPerBlock - off, by omega⟩
      rw [place, equal, ← Nat.add_assoc, put_inside (by omega)]
      rw [Nat.add_assoc, Nat.mul_comm, Nat.mul_add_mod, ← equal, Nat.mod_mod, equal, put_inside (by omega)]
    · rw [put_outside (by omega), put_outside (by omega), old]
  · rw [if_neg same, put_outside]
    · rw [Memfile.byte]
    · by_contra touched
      have upper : pos < (block + 1) * cfg.bytesPerBlock := by
        rw [succ_mul]
        omega
      have lower : block * cfg.bytesPerBlock ≤ pos := by omega
      exact same (Nat.div_eq_of_lt_le lower upper)

/-- A block that is written stays allocated. -/
theorem allocated_store (stored : Block) {last : Nat} (allocated : file.Allocated cfg last) :
    (file.store entry (some stored)).Allocated cfg last := by
  intro tested inside
  rw [find_store slot (.of_load loaded)]
  split
  · exact ⟨stored, rfl⟩
  · exact allocated tested inside

end

theorem size_store (file : Memfile) (entry : Entry) (stored : Option Block) :
    (file.store entry stored).size = file.size := by
  cases entry with
  | indirect slot => rfl
  | doubly upper lower => rfl
  | triply top upper lower => rfl

/-- Whole blocks and the front of a block are read. -/
theorem readLoop_spec {rounds rest : Nat} (less : rest < cfg.bytesPerBlock)
    (allocated : file.Allocated cfg (block + rounds)) (word : block + rounds < 2 ^ 32)
    (copied : List UInt8) :
    readLoop cfg file rounds block (rounds * cfg.bytesPerBlock + rest) copied =
      some (copied ++ get (file.byte cfg) (block * cfg.bytesPerBlock)
        (rounds * cfg.bytesPerBlock + rest)) := by
  induction rounds generalizing block copied with
  | zero =>
    rw [zero_mul, Nat.zero_add, readLoop]
    by_cases none : rest = 0
    · rw [if_pos none, none]
      exact congrArg some (List.append_nil copied).symm
    · obtain ⟨data, found⟩ := allocated block (Nat.le_refl _)
      obtain ⟨entry, here, -⟩ := block_find found
      rw [if_neg none, here]
      dsimp only
      rw [get_block found (by omega), Nat.add_zero]
  | succ rounds ih =>
    obtain ⟨data, found⟩ := allocated block (by omega)
    obtain ⟨entry, here, -⟩ := block_find found
    rw [readLoop, here]
    dsimp only
    have length : (rounds + 1) * cfg.bytesPerBlock + rest - cfg.bytesPerBlock =
        rounds * cfg.bytesPerBlock + rest := by
      rw [succ_mul]
      omega
    have whole : (rounds + 1) * cfg.bytesPerBlock + rest =
        cfg.bytesPerBlock + (rounds * cfg.bytesPerBlock + rest) := by
      rw [succ_mul]
      omega
    rw [uint_of_lt (by omega), length, ih (by rw [Nat.add_right_comm]; exact allocated)
      (by omega), get_block found (by omega), whole, get_add cfg.bytesPerBlock, Nat.add_zero,
      succ_mul, List.append_assoc]

/-- A length in whole blocks and a rest. -/
theorem length_eq (cfg : Config) (length : Nat) :
    length = length / cfg.bytesPerBlock * cfg.bytesPerBlock + length % cfg.bytesPerBlock ∧
      length % cfg.bytesPerBlock < cfg.bytesPerBlock :=
  ⟨(Nat.div_add_mod' length cfg.bytesPerBlock).symm, mod_lt _ cfg.sizes.2.1⟩

/-- The block of a place and the block of an earlier place. -/
theorem block_le {first last : Nat} (less : first ≤ last) :
    first / cfg.bytesPerBlock ≤ last / cfg.bytesPerBlock := Nat.div_le_div_right less

/-- The block of a place behind the begin of a block. -/
theorem next_block (cfg : Config) (start : Nat) :
    (start / cfg.bytesPerBlock + 1) * cfg.bytesPerBlock =
      start + (cfg.bytesPerBlock - start % cfg.bytesPerBlock) := by
  obtain ⟨split, less⟩ := length_eq cfg start
  rw [succ_mul]
  omega

/-- Bytes up to the end of the allocated blocks are read. -/
theorem readBlocks_spec {start length : Nat} (word : start + length < 2 ^ 32)
    (allocated : file.Allocated cfg ((start + length) / cfg.bytesPerBlock)) :
    readBlocks cfg file start length = some (get (file.byte cfg) start length) := by
  have pos := cfg.sizes.2.1
  obtain ⟨split, less⟩ := length_eq cfg start
  have blocks : ∀ place, place ≤ start + length → place / cfg.bytesPerBlock < 2 ^ 32 :=
    fun place inside => Nat.lt_of_le_of_lt (Nat.div_le_self _ _) (by omega)
  rw [readBlocks]
  rw [uint_of_lt (blocks start (by omega))]
  by_cases aligned : start % cfg.bytesPerBlock = 0
  · rw [if_pos aligned]
    obtain ⟨whole, rest⟩ := length_eq cfg length
    have begins : start / cfg.bytesPerBlock * cfg.bytesPerBlock = start := by omega
    have last : (start + length) / cfg.bytesPerBlock =
        start / cfg.bytesPerBlock + length / cfg.bytesPerBlock := by
      rw [← begins, Nat.mul_comm, mul_add_div pos, Nat.mul_div_cancel_left _ pos]
    rw [last] at allocated
    have read := readLoop_spec rest allocated (by rw [← last]; exact blocks _ (Nat.le_refl _)) []
    rw [← whole, begins] at read
    exact read
  · rw [if_neg aligned]
    obtain ⟨data, found⟩ := allocated (start / cfg.bytesPerBlock) (block_le (by omega))
    obtain ⟨entry, here, -⟩ := block_find found
    rw [here]
    dsimp only
    have next := next_block cfg start
    have first : get data (start % cfg.bytesPerBlock)
        (min (cfg.bytesPerBlock - start % cfg.bytesPerBlock) length) =
        get (file.byte cfg) start (min (cfg.bytesPerBlock - start % cfg.bytesPerBlock) length) := by
      rw [get_block found (by omega), ← split]
    rw [first]
    by_cases short : length ≤ cfg.bytesPerBlock - start % cfg.bytesPerBlock
    · rw [Nat.min_eq_right short, Nat.sub_self, Nat.zero_div, readLoop, if_pos rfl]
    · rw [Nat.min_eq_left (by omega)]
      obtain ⟨rest, rfl⟩ : ∃ rest, length = cfg.bytesPerBlock - start % cfg.bytesPerBlock + rest :=
        ⟨length - (cfg.bytesPerBlock - start % cfg.bytesPerBlock), by omega⟩
      obtain ⟨whole, small⟩ := length_eq cfg rest
      have last : (start + (cfg.bytesPerBlock - start % cfg.bytesPerBlock + rest)) /
          cfg.bytesPerBlock = start / cfg.bytesPerBlock + 1 + rest / cfg.bytesPerBlock := by
        rw [← Nat.add_assoc, ← next, Nat.mul_comm, mul_add_div pos]
      have bounded := blocks _ (Nat.le_refl _)
      rw [last] at allocated bounded
      have read := readLoop_spec small allocated bounded
        (get (file.byte cfg) start (cfg.bytesPerBlock - start % cfg.bytesPerBlock))
      rw [← whole, next] at read
      have following : start / cfg.bytesPerBlock + 1 < 2 ^ 32 :=
        Nat.lt_of_le_of_lt (Nat.le_add_right _ _) bounded
      rw [Nat.add_sub_cancel_left, uint_of_lt following, read, get_add]

/-- Whole blocks and the front of a block are written. -/
theorem writeLoop_spec {rounds rest last : Nat} (less : rest < cfg.bytesPerBlock)
    (allocated : file.Allocated cfg last) (inside : block + rounds ≤ last) (word : last < 2 ^ 32)
    {src : List UInt8} (enough : src.length = rounds * cfg.bytesPerBlock + rest) (copied : Nat) :
    ∃ after : Memfile, writeLoop cfg rounds block (rounds * cfg.bytesPerBlock + rest) src copied file =
        some (copied + (rounds * cfg.bytesPerBlock + rest), after) ∧
      after.size = file.size ∧ after.Allocated cfg last ∧
      after.byte cfg = put (file.byte cfg) (block * cfg.bytesPerBlock) src := by
  induction rounds generalizing block copied file src with
  | zero =>
    rw [zero_mul, Nat.zero_add] at enough
    rw [zero_mul, Nat.zero_add, writeLoop]
    by_cases none : rest = 0
    · rw [if_pos none, none, Nat.add_zero]
      obtain rfl := List.eq_nil_of_length_eq_zero (enough.trans none)
      exact ⟨file, rfl, rfl, allocated, put_nil.symm⟩
    · obtain ⟨data, found⟩ := allocated block (by omega)
      obtain ⟨entry, here, slot, loaded⟩ := block_find found
      rw [if_neg none, here]
      refine ⟨_, rfl, size_store _ _ _, allocated_store slot loaded _ allocated, ?_⟩
      have all : src.take rest = src := List.take_of_length_le (by omega)
      rw [all, byte_store slot loaded (by omega), Nat.add_zero]
  | succ rounds ih =>
    have whole : (rounds + 1) * cfg.bytesPerBlock + rest =
        cfg.bytesPerBlock + (rounds * cfg.bytesPerBlock + rest) := by
      rw [succ_mul]
      omega
    obtain ⟨data, found⟩ := allocated block (by omega)
    obtain ⟨entry, here, slot, loaded⟩ := block_find found
    rw [writeLoop, here, whole, Nat.add_sub_cancel_left, uint_of_lt (by omega)]
    dsimp only
    have front : (src.take cfg.bytesPerBlock).length = cfg.bytesPerBlock := by
      rw [List.length_take]
      omega
    have back : (src.drop cfg.bytesPerBlock).length = rounds * cfg.bytesPerBlock + rest := by
      rw [List.length_drop]
      omega
    have further : block + 1 + rounds ≤ last := by omega
    obtain ⟨after, written, size, kept, byte⟩ := ih
      (allocated_store slot loaded (put data 0 (src.take cfg.bytesPerBlock)) allocated)
      further back (copied + cfg.bytesPerBlock)
    rw [size_store] at size
    refine ⟨after, by rw [written, Nat.add_assoc], size, kept, ?_⟩
    have joined := @put_append _ (file.byte cfg) (block * cfg.bytesPerBlock)
      (src.take cfg.bytesPerBlock) (src.drop cfg.bytesPerBlock)
    rw [List.take_append_drop, front] at joined
    rw [byte, byte_store slot loaded (by omega), Nat.add_zero, joined, succ_mul]

/-- Bytes up to the end of the allocated blocks are written. -/
theorem writeBlocks_spec {start : Nat} {source : List UInt8} {last : Nat}
    (allocated : file.Allocated cfg last)
    (inside : (start + source.length) / cfg.bytesPerBlock ≤ last) (word : last < 2 ^ 32) :
    ∃ after : Memfile, writeBlocks cfg file start source.length source =
        some (source.length, after) ∧ after.size = file.size ∧ after.Allocated cfg last ∧
      after.byte cfg = put (file.byte cfg) start source := by
  have pos := cfg.sizes.2.1
  obtain ⟨split, less⟩ := length_eq cfg start
  have begins : start / cfg.bytesPerBlock ≤ last := Nat.le_trans (block_le (by omega)) inside
  rw [writeBlocks]
  rw [uint_of_lt (by omega)]
  by_cases aligned : start % cfg.bytesPerBlock = 0
  · rw [if_pos aligned]
    obtain ⟨whole, rest⟩ := length_eq cfg source.length
    have place : start / cfg.bytesPerBlock * cfg.bytesPerBlock = start := by omega
    have ends : (start + source.length) / cfg.bytesPerBlock =
        start / cfg.bytesPerBlock + source.length / cfg.bytesPerBlock := by
      conv_lhs => rw [← place, Nat.mul_comm, mul_add_div pos]
    rw [ends] at inside
    have written := writeLoop_spec rest allocated inside word whole 0
    rw [← whole, place, Nat.zero_add] at written
    exact written
  · rw [if_neg aligned]
    obtain ⟨data, found⟩ := allocated (start / cfg.bytesPerBlock) begins
    obtain ⟨entry, here, slot, loaded⟩ := block_find found
    rw [here]
    dsimp only
    have next := next_block cfg start
    by_cases short : source.length ≤ cfg.bytesPerBlock - start % cfg.bytesPerBlock
    · rw [Nat.min_eq_right short, Nat.sub_self, Nat.zero_div, writeLoop, if_pos rfl, List.take_length]
      refine ⟨_, rfl, size_store _ _ _, allocated_store slot loaded _ allocated, ?_⟩
      rw [byte_store slot loaded (by omega), ← split]
    · rw [Nat.min_eq_left (by omega)]
      generalize amount : cfg.bytesPerBlock - start % cfg.bytesPerBlock = toCopy at short next ⊢
      have front : (source.take toCopy).length = toCopy := by
        rw [List.length_take]
        omega
      obtain ⟨whole, small⟩ := length_eq cfg (source.length - toCopy)
      have ends : (start + source.length) / cfg.bytesPerBlock =
          start / cfg.bytesPerBlock + 1 + (source.length - toCopy) / cfg.bytesPerBlock := by
        have sum : start + source.length = (start / cfg.bytesPerBlock + 1) * cfg.bytesPerBlock +
            (source.length - toCopy) := by omega
        rw [sum, Nat.mul_comm, mul_add_div pos]
      rw [ends] at inside
      have following : start / cfg.bytesPerBlock + 1 < 2 ^ 32 :=
        Nat.lt_of_le_of_lt (Nat.le_trans (Nat.le_add_right _ _) inside) word
      have back : (source.drop toCopy).length =
          (source.length - toCopy) / cfg.bytesPerBlock * cfg.bytesPerBlock +
            (source.length - toCopy) % cfg.bytesPerBlock := by
        rw [List.length_drop]
        exact whole
      obtain ⟨after, written, size, kept, byte⟩ := writeLoop_spec small
        (allocated_store slot loaded (put data (start % cfg.bytesPerBlock) (source.take toCopy)) allocated)
        inside word back toCopy
      rw [← whole, Nat.add_sub_cancel' (by omega)] at written
      rw [size_store] at size
      refine ⟨after, by rw [uint_of_lt following]; exact written, size, kept, ?_⟩
      have joined := @put_append _ (file.byte cfg) start (source.take toCopy) (source.drop toCopy)
      rw [List.take_append_drop, front] at joined
      rw [byte, byte_store slot loaded (by omega), ← split, joined, next]

/-- A new block changes no byte. -/
theorem addblock_byte (inside : block ≤ cfg.lastTriply) (file : Memfile) :
    ∃ after, addblock cfg file block = (true, after) ∧ after.size = file.size ∧
      after.byte cfg = file.byte cfg ∧ (∃ data, after.find cfg block = some data) ∧
      ∀ tested, (∃ data, file.find cfg tested = some data) → ∃ data, after.find cfg tested = some data := by
  obtain ⟨after, added, size, finds⟩ := addblock_spec inside file
  refine ⟨after, added, size, ?_, ?_, ?_⟩
  · funext pos
    rw [Memfile.byte, Memfile.byte, finds]
    split
    case h_1 data found =>
      split at found
      case isTrue same =>
        cases found
        rw [same]
        cases file.find cfg block with
        | none => rfl
        | some data => rfl
      case isFalse => rw [found]
    case h_2 found =>
      split at found
      case isTrue => cases found
      case isFalse => rw [found]
  · exact ⟨_, by rw [finds, if_pos rfl]⟩
  · rintro tested ⟨data, found⟩
    rw [finds]
    split
    · exact ⟨_, rfl⟩
    · exact ⟨data, found⟩

/-- Blocks are allocated and, if so wanted, filled with zeros. -/
theorem extendLoop_spec {zeroFill : Bool} {oldBlocks rounds off : Nat}
    (inside : block + rounds ≤ cfg.lastTriply + 1) (partly : off ≤ cfg.bytesPerBlock)
    (allocated : ∀ tested, tested < block → ∃ data, file.find cfg tested = some data) :
    ∃ after, extendLoop cfg zeroFill oldBlocks rounds block off file = some (true, after) ∧
      after.size = file.size ∧
      (∀ tested, tested < block + rounds → ∃ data, after.find cfg tested = some data) ∧
      after.byte cfg = if zeroFill then
          put (file.byte cfg) (block * cfg.bytesPerBlock + off)
            (List.replicate (rounds * cfg.bytesPerBlock - off) 0) else file.byte cfg := by
  induction rounds generalizing block off file with
  | zero =>
    refine ⟨file, rfl, rfl, allocated, ?_⟩
    rw [zero_mul, Nat.zero_sub, List.replicate_zero, put_nil, ite_self]
  | succ rounds ih =>
    obtain ⟨added, add, size, byte, ⟨data, found⟩, kept⟩ :=
      addblock_byte (show block ≤ cfg.lastTriply by omega) file
    have below : ∀ tested, tested < block + 1 → ∃ data, added.find cfg tested = some data := by
      intro tested less
      by_cases same : tested = block
      · exact ⟨data, by rw [same, found]⟩
      · exact kept tested (allocated tested (by omega))
    rw [extendLoop, add]
    dsimp only
    cases zeroFill with
    | false =>
      obtain ⟨after, done, sized, all, bytes⟩ := ih (by omega) partly below
      refine ⟨after, done, sized.trans size, ?_, ?_⟩
      · intro tested less
        exact all tested (by omega)
      · exact bytes.trans byte
    | true =>
      obtain ⟨entry, here, slot, loaded⟩ := block_find found
      rw [if_pos rfl, here]
      have zeros : off + (List.replicate (cfg.bytesPerBlock - off) (0 : UInt8)).length ≤
          cfg.bytesPerBlock := by
        rw [List.length_replicate]
        omega
      have below : ∀ tested, tested < block + 1 → ∃ data', (added.store entry (some (put data off
          (List.replicate (cfg.bytesPerBlock - off) 0)))).find cfg tested = some data' := by
        intro tested less
        rw [find_store slot (.of_load loaded)]
        split
        · exact ⟨_, rfl⟩
        · exact below tested less
      obtain ⟨after, done, sized, all, bytes⟩ := ih (by omega) (Nat.zero_le _) below
      rw [size_store, size] at sized
      refine ⟨after, done, sized, ?_, ?_⟩
      · intro tested less
        exact all tested (by omega)
      · rw [if_pos rfl] at bytes ⊢
        have next : (block + 1) * cfg.bytesPerBlock + 0 = block * cfg.bytesPerBlock + off +
            (List.replicate (cfg.bytesPerBlock - off) (0 : UInt8)).length := by
          rw [List.length_replicate, succ_mul]
          omega
        rw [bytes, byte_store slot loaded zeros, byte, next, ← put_append, List.replicate_append_replicate]
        congr 2
        rw [succ_mul]
        omega

end Rtems.Imfs
