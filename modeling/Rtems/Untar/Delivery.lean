import Rtems.Untar.Chunk

/-!
# Unpacking does not depend on the delivery

The machine for chunks does with any chunks of an archive what the loop over the memory does with the
whole archive.
-/

namespace Rtems.Untar

open List (length_drop replicate)

variable {bits : Nat} {files : Files}

/-- What the caller sees of a chunk: the status and what was done to the file system. -/
def outcome (result : Status × ChunkContext × Log) : Status × Log := (result.1, result.2.2)

/-- The machine is at the start of a header. -/
structure ChunkContext.Start (ctx : ChunkContext) : Prop where
  state : ctx.state = .header
  doneBytes : ctx.doneBytes = 0

variable {ctx : ChunkContext}

theorem ChunkContext.Start.good (start : ctx.Start) : ctx.Good := by
  rw [Good, start.state, start.doneBytes]
  exact Nat.zero_lt_succ 511

variable {buf : List UInt8}

theorem chunkLoop_good {fuel : Nat} {ctx' : ChunkContext} (good : ctx.Good) {log log' : Log}
    (done : chunkLoop bits files fuel ctx buf log = (.successful, ctx', log')) : ctx'.Good := by
  induction fuel generalizing ctx buf log with
  | zero =>
    cases done
    exact good
  | succ fuel ih =>
    rw [chunkLoop] at done
    by_cases none : buf.length = 0
    · rw [if_pos none] at done
      cases done
      exact good
    · rw [if_neg none] at done
      split at done
      next ctx₁ log₁ consume round => exact ih (iterate_good good none round).1 done
      next failed _ => exact (failed _ _ done).elim

/-- The chunks are unpacked as if they came in one. -/
theorem untarFromChunks_eq (good : ctx.Good) (chunks : List (List UInt8)) (log : Log) :
    untarFromChunks bits files ctx chunks log =
      outcome (untarFromChunk bits files ctx chunks.flatten log) := by
  induction chunks generalizing ctx log with
  | nil => rfl
  | cons buf chunks ih =>
    rw [untarFromChunks, List.flatten_cons, untarFromChunk_append good]
    cases first : untarFromChunk bits files ctx buf log with
    | mk status rest =>
      obtain ⟨ctx', log'⟩ := rest
      cases status with
      | successful => exact ih (chunkLoop_good good first) log'
      | fail => rfl
      | invalidChecksum => rfl

variable {tar : List UInt8}

/-- Bytes that are less than a header do nothing. -/
theorem start_short (start : ctx.Start) (short : tar.length < 512)
    (log : Log) : outcome (untarFromChunk bits files ctx tar log) = (.successful, log) := by
  by_cases none : tar.length = 0
  · obtain rfl := List.eq_nil_of_length_eq_zero none
    rfl
  · have part : tar.length < ctx.remaining := by
      rw [ChunkContext.remaining, start.state, start.doneBytes]
      exact short
    rw [untarFromChunk_round start.good none, (iterate_part start.good part log).1]
    dsimp only
    rw [List.drop_length, untarFromChunk_nil, ChunkContext.record, start.state]
    rfl

theorem start_whole (start : ctx.Start) (long : 512 ≤ tar.length) (log : Log) :
    untarFromChunk bits files ctx tar log =
      match finishHeader bits files { ctx with header := tar.take 512, doneBytes := 512 } log with
      | (.successful, ctx, log) => untarFromChunk bits files ctx (tar.drop 512) log
      | result => result := by
  rw [untarFromChunk_round start.good (by omega)]
  obtain ⟨base, state, header, doneBytes⟩ := ctx
  obtain rfl : state = .header := start.state
  obtain rfl : doneBytes = 0 := start.doneBytes
  have amount : min (ChunkContext.remaining ⟨base, .header, header, 0⟩) tar.length = 512 :=
    Nat.min_eq_left long
  have round : iterate bits files ⟨base, .header, header, 0⟩ tar log =
      (finishHeader bits files ⟨base, .header, tar.take 512, 512⟩ log, 512) := by
    rw [iterate, amount]
    simp only [List.take_zero, List.nil_append, if_true]
  rw [round]
  generalize finishHeader bits files ⟨base, .header, tar.take 512, 512⟩ log = result
  obtain ⟨status, ctx, log'⟩ := result
  cases status <;> rfl

variable {base : HeaderContext} {header : List UInt8}

/-- A round of a state that is not a header, with all the bytes that the state takes. -/
theorem write_round (enough : base.fileSize ≤ buf.length) (log : Log) :
    iterate bits files ⟨base, .write, header, 0⟩ buf log = ((.successful,
          ⟨{ base with fileSize := (512 * base.nblocks + (2 ^ bits - base.fileSize)) % 2 ^ bits }, .skip,
            header, 0⟩,
          log.write (buf.take base.fileSize)), base.fileSize) := by
  have amount : min (ChunkContext.remaining ⟨base, .write, header, 0⟩) buf.length = base.fileSize :=
    Nat.min_eq_left enough
  rw [iterate, amount]
  dsimp only
  rw [if_pos (Nat.zero_add _)]

theorem skip_round (enough : base.fileSize ≤ buf.length) (log : Log) :
    iterate bits files ⟨base, .skip, header, 0⟩ buf log =
      ((.successful, ⟨base, .header, header, 0⟩, log), base.fileSize) := by
  have amount : min (ChunkContext.remaining ⟨base, .skip, header, 0⟩) buf.length = base.fileSize :=
    Nat.min_eq_left enough
  rw [iterate, amount]
  dsimp only
  rw [if_pos (Nat.zero_add _)]

/-- The data of a file and its padding. -/
theorem write_whole {after : List UInt8} (word : 512 * base.nblocks < 2 ^ bits)
    (fits : base.fileSize ≤ 512 * base.nblocks) (enough : 512 * base.nblocks ≤ after.length) (log : Log) :
    ∃ ctx : ChunkContext, ctx.Start ∧
      outcome (untarFromChunk bits files ⟨base, .write, header, 0⟩ after log) =
        outcome (untarFromChunk bits files ctx (after.drop (512 * base.nblocks))
          (log.write (after.take base.fileSize))) := by
  have padding : (512 * base.nblocks + (2 ^ bits - base.fileSize)) % 2 ^ bits =
      512 * base.nblocks - base.fileSize := by
    rw [show 512 * base.nblocks + (2 ^ bits - base.fileSize) =
      512 * base.nblocks - base.fileSize + 2 ^ bits by omega, Nat.add_mod_right,
      Nat.mod_eq_of_lt (by omega)]
  refine ⟨⟨{ base with fileSize := 512 * base.nblocks - base.fileSize }, .header, header, 0⟩,
    ⟨rfl, rfl⟩, ?_⟩
  by_cases none : after.length = 0
  · obtain rfl := List.eq_nil_of_length_eq_zero none
    rw [List.take_nil, List.drop_nil, Log.write_nil, untarFromChunk_nil, untarFromChunk_nil]
    rfl
  · have good : ChunkContext.Good ⟨base, .write, header, 0⟩ := Nat.zero_le _
    rw [untarFromChunk_round good none, write_round (by omega)]
    dsimp only
    rw [padding]
    by_cases last : (after.drop base.fileSize).length = 0
    · have nothing := List.eq_nil_of_length_eq_zero last
      rw [length_drop] at last
      rw [nothing, List.drop_eq_nil_of_le (by omega : after.length ≤ 512 * base.nblocks),
        untarFromChunk_nil, untarFromChunk_nil]
      rfl
    · have good : ChunkContext.Good
          ⟨{ base with fileSize := 512 * base.nblocks - base.fileSize }, .skip, header, 0⟩ := Nat.zero_le _
      rw [untarFromChunk_round good last, skip_round (by rw [length_drop]; dsimp only; omega)]
      dsimp only
      rw [List.drop_drop, Nat.add_sub_cancel' fits]

/-- The blocks of a file that are there are counted by a word. -/
theorem blocksOf_eq {size length : Nat} (enough : 512 * dataBlocks size ≤ length)
    (small : length < 2 ^ bits) : blocksOf bits size = dataBlocks size := by
  rw [dataBlocks] at enough
  rw [blocksOf, dataBlocks]
  by_cases word : size + 511 < 2 ^ bits
  · rw [Nat.mod_eq_of_lt word]
  · by_cases wide : 9 ≤ bits
    · -- the largest count of whole blocks below a word is a word less a block
      obtain ⟨rest, rfl⟩ := Nat.exists_eq_add_of_le wide
      rw [Nat.pow_add] at small word
      omega
    · have narrow : 2 ^ bits ≤ 2 ^ 8 := Nat.pow_le_pow_right (by decide) (by omega)
      omega

/-- The machine at the start of a header does what the loop over the memory does. -/
theorem start_memory (succeed : ∀ log effect, files log effect = true) {fuel : Nat}
    (enough : tar.length ≤ fuel) (small : tar.length < 2 ^ bits)
    (complete : ∀ entry ∈ regulars bits fuel tar, 512 * dataBlocks entry.1 ≤ entry.2.length)
    (start : ctx.Start) (base : HeaderContext) (log : Log) :
    outcome (untarFromChunk bits files ctx tar log) = memoryLoop bits files fuel base tar log := by
  induction fuel generalizing tar ctx base log with
  | zero => exact start_short start (by omega) log
  | succ fuel ih =>
    rw [memoryLoop]
    by_cases short : tar.length < 512
    · rw [if_pos short, start_short start short log]
    · rw [if_neg short, start_whole start (Nat.not_lt.mp short), finishHeader]
      rw [regulars, if_neg short] at complete
      have behind : (tar.drop 512).length = tar.length - 512 := length_drop
      have header := @processHeader_spec bits files succeed (tar.take 512) log
      cases kind : entryOf bits (tar.take 512) with
      | invalid =>
        rw [kind] at header
        obtain ⟨base₁, chunk⟩ := header ctx.base
        obtain ⟨base₂, memory⟩ := header base
        rw [chunk, memory]
        rfl
      | other =>
        rw [kind] at header complete
        obtain ⟨more, header⟩ := header
        obtain ⟨base₁, irregular₁, chunk⟩ := header ctx.base
        obtain ⟨base₂, irregular₂, memory⟩ := header base
        rw [chunk, memory]
        dsimp only
        rw [if_neg irregular₁, if_neg irregular₂]
        have next : ChunkContext.Start ⟨base₁, ctx.state, tar.take 512, 0⟩ := ⟨start.state, rfl⟩
        exact ih (by omega) (by omega) complete next base₂ (more ++ log)
      | regular size =>
        rw [kind] at header complete
        obtain ⟨there, complete⟩ := List.forall_mem_cons.mp complete
        have there : 512 * dataBlocks size ≤ (tar.drop 512).length := there
        have blocks := blocksOf_eq there (by omega : (tar.drop 512).length < 2 ^ bits)
        obtain ⟨more, path, mode, header⟩ := header
        obtain ⟨link₁, chunk⟩ := header ctx.base
        obtain ⟨link₂, memory⟩ := header base
        have fits : size ≤ 512 * dataBlocks size := by
          rw [dataBlocks]
          omega
        rw [chunk, memory, blocks]
        dsimp only
        rw [if_pos rfl, if_pos rfl, if_pos (succeed _ _), if_pos (succeed _ _),
          writeLoop_spec (Nat.le_refl _) (by rw [Nat.mul_comm]; exact fits)]
        obtain ⟨ctx', next, written⟩ := @write_whole bits files
          ⟨path, link₁, mode, size, dataBlocks size, regType⟩ (tar.take 512) (tar.drop 512)
          (by dsimp only; omega) fits there (.file path mode [] :: (more ++ log))
        rw [← ih (by rw [length_drop]; omega) (by rw [length_drop]; omega) complete next]
        exact written

/-- Unpacking an archive does not depend on how it is delivered: the machine for chunks, started with
any context, and the loop over the memory do the same to the file system and return the same status. -/
theorem delivery_irrelevant (succeed : ∀ log effect, files log effect = true) {archive : List UInt8}
    (small : archive.length < 2 ^ bits) (complete : Complete bits archive) {chunks : List (List UInt8)}
    (split : chunks.flatten = archive) (ctx : ChunkContext) (base : HeaderContext) (log : Log) :
    untarFromChunks bits files ctx.init chunks log = untarFromMemory bits files base archive log := by
  have start : ctx.init.Start := ⟨rfl, rfl⟩
  rw [untarFromChunks_eq start.good, split]
  exact start_memory succeed (Nat.le_refl _) small complete start base log

/-- An archive with a file of three bytes, followed by a block of zeros. -/
def sample : List UInt8 :=
  [0x61] ++ replicate 99 0 ++ [0x36, 0x34, 0x34] ++ replicate 21 0 ++ [0x33] ++
    replicate 23 0 ++ [0x32, 0x32, 0x32, 0x31] ++ replicate 4 0 ++ [0x30] ++
    replicate 100 0 ++ [0x75, 0x73, 0x74, 0x61, 0x72] ++ replicate 250 0 ++
    [1, 2, 3] ++ replicate 1021 0

/-- The archive in three chunks, the first of which ends in the header and the second in the data. -/
theorem delivery_irrelevant_sample :
    untarFromChunks 32 (fun _ _ => true) (ChunkContext.init ⟨⟨[], [], 0, 0, 0, 0⟩, .error, [], 7⟩)
        [sample.take 100, (sample.drop 100).take 413, sample.drop 513] [] =
      untarFromMemory 32 (fun _ _ => true) ⟨[], [], 0, 0, 0, 0⟩ sample [] ∧
    untarFromMemory 32 (fun _ _ => true) ⟨[], [], 0, 0, 0, 0⟩ sample [] =
      (.successful, [.file [0x61] 0o644 [1, 2, 3], .unlink [0x61]]) := by
  have complete : Complete 32 sample := by
    unfold Complete
    decide +kernel
  refine ⟨delivery_irrelevant (fun _ _ => rfl) ?_ complete ?_ _ _ [], by decide +kernel⟩
  · decide +kernel
  · decide +kernel

end Rtems.Untar
