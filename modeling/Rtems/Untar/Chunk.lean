import Rtems.Untar.Header

/-!
# An archive in memory and an archive in chunks

An archive that is in memory as a whole is unpacked block by block. An archive that arrives in chunks
is unpacked by a machine that keeps the place at which a chunk ended.
-/

namespace Rtems.Untar

open List (length_append take_zero)

variable (bits : Nat) (files : Files)

/-- The loop of `Untar_FromMemory_Print` that writes the data of a file: what is behind it. -/
def writeLoop : Nat → Nat → Nat → List UInt8 → Log → List UInt8 × Log
  | 0, _, _, tar, log => (tar, log)
  | fuel + 1, blocks, fileSize, tar, log =>
    if blocks = 0 then (tar, log)
    else
      let blks := if blocks > 16 then 16 else blocks
      let len := min (blks * 512) fileSize
      writeLoop fuel (blocks - blks) (fileSize - len) (tar.drop (blks * 512)) (log.write (tar.take len))

/-- The loop of `Untar_FromMemory_Print` over what is left of the archive. No archive reaches into the
last block of the address space, so that the end of a header is a word. -/
def memoryLoop : Nat → HeaderContext → List UInt8 → Log → Status × Log
  | 0, _, _, log => (.successful, log)
  | fuel + 1, ctx, tar, log =>
    if tar.length < 512 then (.successful, log)
    else
      match processHeader bits files ctx (tar.take 512) log with
      | (.successful, ctx, log) =>
        if ctx.linkflag = regType then
          if files log (.file ctx.filePath ctx.mode []) then
            let (tar, log) := writeLoop ctx.nblocks ctx.nblocks ctx.fileSize (tar.drop 512)
              (.file ctx.filePath ctx.mode [] :: log)
            memoryLoop fuel ctx tar log
          else memoryLoop fuel ctx ((tar.drop 512).drop (512 * ctx.nblocks)) log
        else memoryLoop fuel ctx (tar.drop 512) log
      | (retval, _, log) => (retval, log)

/-- The state of the machine for chunks. -/
inductive State where
  | header
  | skip
  | write
  | error
deriving DecidableEq

/-- `Untar_ChunkContext`. The header has the bytes that were copied to it. -/
structure ChunkContext where
  base : HeaderContext
  state : State
  header : List UInt8
  doneBytes : Nat

/-- The bytes that a state still takes. -/
def ChunkContext.remaining (ctx : ChunkContext) : Nat :=
  match ctx.state with
  | .header => 512 - ctx.doneBytes
  | _ => ctx.base.fileSize - ctx.doneBytes

/-- The step of the machine when a header is complete. -/
def finishHeader (ctx : ChunkContext) (log : Log) : Status × ChunkContext × Log :=
  match processHeader bits files ctx.base ctx.header log with
  | (.successful, base, log) =>
    if base.linkflag = regType then
      if files log (.file base.filePath base.mode []) then
        (.successful, { ctx with base := base, state := .write, doneBytes := 0 },
          .file base.filePath base.mode [] :: log)
      else
        (.successful,
          { ctx with
            base := { base with fileSize := 512 * base.nblocks % 2 ^ bits }, state := .skip, doneBytes := 0 },
          log)
    else (.successful, { ctx with base := base, doneBytes := 0 }, log)
  | (retval, base, log) => (retval, { ctx with base := base, state := .error }, log)

/-- One round of the loop of `Untar_FromChunk_Print`, and the count of the bytes that it consumes. -/
def iterate (ctx : ChunkContext) (buf : List UInt8) (log : Log) : (Status × ChunkContext × Log) × Nat :=
  let consume := min ctx.remaining buf.length
  match ctx.state with
  | .header =>
    let ctx :=
      { ctx with
        header := ctx.header.take ctx.doneBytes ++ buf.take consume
        doneBytes := ctx.doneBytes + consume }
    (if ctx.doneBytes = 512 then finishHeader bits files ctx log else (.successful, ctx, log), consume)
  | .skip =>
    let ctx := { ctx with doneBytes := ctx.doneBytes + consume }
    let ctx :=
      if ctx.doneBytes = ctx.base.fileSize then { ctx with state := .header, doneBytes := 0 } else ctx
    ((.successful, ctx, log), consume)
  | .write =>
    let log := log.write (buf.take consume)
    let ctx := { ctx with doneBytes := ctx.doneBytes + consume }
    let ctx :=
      if ctx.doneBytes = ctx.base.fileSize then
        { ctx with
          state := .skip
          base :=
            { ctx.base with
              fileSize := (512 * ctx.base.nblocks + (2 ^ bits - ctx.base.fileSize)) % 2 ^ bits }
          doneBytes := 0 }
      else ctx
    ((.successful, ctx, log), consume)
  | .error => ((.fail, ctx, log), 0)

/-- The loop of `Untar_FromChunk_Print`. -/
def chunkLoop : Nat → ChunkContext → List UInt8 → Log → Status × ChunkContext × Log
  | 0, ctx, _, log => (.successful, ctx, log)
  | fuel + 1, ctx, buf, log =>
    if buf.length = 0 then (.successful, ctx, log)
    else
      match iterate bits files ctx buf log with
      | ((.successful, ctx, log), consume) => chunkLoop fuel ctx (buf.drop consume) log
      | (result, _) => result

/-- `Untar_FromChunk_Print`. Three rounds are enough for a byte, because data and padding of no bytes
take a round each. -/
def untarFromChunk (ctx : ChunkContext) (buf : List UInt8) (log : Log) : Status × ChunkContext × Log :=
  chunkLoop bits files (3 * buf.length + 2) ctx buf log

/-- The chunks one after the other, up to the first error. -/
def untarFromChunks (ctx : ChunkContext) : List (List UInt8) → Log → Status × Log
  | [], log => (.successful, log)
  | buf :: chunks, log =>
    match untarFromChunk bits files ctx buf log with
    | (.successful, ctx, log) => untarFromChunks ctx chunks log
    | (retval, _, log) => (retval, log)

/-- `Untar_FromMemory_Print`. Every round of the loop has a header. -/
def untarFromMemory (ctx : HeaderContext) (tar : List UInt8) (log : Log) : Status × Log :=
  memoryLoop bits files tar.length ctx tar log

/-- `Untar_ChunkContext_Init` for a context with any contents. -/
def ChunkContext.init (ctx : ChunkContext) : ChunkContext :=
  { ctx with state := .header, doneBytes := 0 }

/-- The blocks that the data of a regular file take in an archive. -/
def dataBlocks (size : Nat) : Nat := (size + 511) / 512

/-- The regular files of an archive: the size of the file and all that is behind its header. -/
def regulars : Nat → List UInt8 → List (Nat × List UInt8)
  | 0, _ => []
  | fuel + 1, tar =>
    if tar.length < 512 then []
    else
      match entryOf bits (tar.take 512) with
      | .regular size =>
        (size, tar.drop 512) :: regulars fuel ((tar.drop 512).drop (512 * dataBlocks size))
      | .other => regulars fuel (tar.drop 512)
      | .invalid => []

/-- The data blocks of the regular files are there. Those of a file that has another file behind it are
there in any case. -/
def Complete (tar : List UInt8) : Prop :=
  ∀ entry ∈ regulars bits tar.length tar, 512 * dataBlocks entry.1 ≤ entry.2.length

variable {bits files}

/-- The data of a file is written as a whole. -/
theorem writeLoop_spec {fuel blocks fileSize : Nat} (enough : blocks ≤ fuel)
    (fits : fileSize ≤ blocks * 512) (tar : List UInt8) (log : Log) :
    writeLoop fuel blocks fileSize tar log = (tar.drop (512 * blocks), log.write (tar.take fileSize)) := by
  induction fuel generalizing blocks fileSize tar log with
  | zero =>
    obtain rfl : blocks = 0 := by omega
    obtain rfl : fileSize = 0 := by omega
    rw [writeLoop, Nat.mul_zero, List.drop_zero, take_zero, Log.write_nil]
  | succ fuel ih =>
    rw [writeLoop]
    by_cases none : blocks = 0
    · obtain rfl : fileSize = 0 := by omega
      rw [if_pos none, none, Nat.mul_zero, List.drop_zero, take_zero, Log.write_nil]
    · rw [if_neg none]
      generalize part : (if blocks > 16 then 16 else blocks) = blks
      have bounds : 0 < blks ∧ blks ≤ blocks := by
        rw [← part]
        split <;> omega
      rw [ih (by omega) (by omega)]
      congr 1
      · rw [List.drop_drop]
        congr 1
        omega
      · rw [← Log.write_append]
        congr 1
        by_cases last : fileSize ≤ blks * 512
        · rw [Nat.min_eq_right last, Nat.sub_self, take_zero, List.append_nil]
        · rw [Nat.min_eq_left (by omega), ← List.take_add]
          congr 1
          omega

/-- The place in the data or in the header is one that the machine can have. -/
def ChunkContext.Good (ctx : ChunkContext) : Prop :=
  match ctx.state with
  | .header => ctx.doneBytes < 512
  | .skip => ctx.doneBytes ≤ ctx.base.fileSize
  | .write => ctx.doneBytes ≤ ctx.base.fileSize
  | .error => False

/-- The rounds that a state can take without bytes. -/
def ChunkContext.weight (ctx : ChunkContext) : Nat :=
  match ctx.state with
  | .skip => 1
  | .write => 2
  | _ => 0

theorem ChunkContext.weight_le (ctx : ChunkContext) : ctx.weight ≤ 2 := by
  rw [weight]
  split <;> decide

variable {ctx : ChunkContext}

variable {ctx' : ChunkContext}

/-- Behind a header the machine is at the start of data, of padding or of the next header. -/
theorem finishHeader_good {log log' : Log} (state : ctx.state = .header)
    (done : finishHeader bits files ctx log = (.successful, ctx', log')) : ctx'.Good := by
  obtain ⟨base, st, header, doneBytes⟩ := ctx
  obtain rfl : st = .header := state
  rw [finishHeader] at done
  split at done
  · split at done
    · split at done
      · cases done
        exact Nat.zero_le _
      · cases done
        exact Nat.zero_le _
    · cases done
      exact Nat.zero_lt_succ 511
  next failed _ =>
    cases done
    exact absurd rfl failed

/-- A round takes bytes or passes on to the next state. -/
theorem iterate_good (good : ctx.Good) {buf : List UInt8} (more : buf.length ≠ 0) {log log' : Log}
    {consume : Nat} (done : iterate bits files ctx buf log = ((.successful, ctx', log'), consume)) :
    ctx'.Good ∧ 3 * (buf.drop consume).length + ctx'.weight < 3 * buf.length + ctx.weight := by
  obtain ⟨base, st, header, doneBytes⟩ := ctx
  rw [List.length_drop]
  cases st with
  | header =>
    have inside : doneBytes < 512 := good
    rw [iterate, ChunkContext.remaining] at done
    dsimp only at done
    split at done
    case isTrue whole =>
      obtain ⟨result, amount⟩ := Prod.mk.inj done
      have small := ctx'.weight_le
      exact ⟨finishHeader_good rfl result, by omega⟩
    case isFalse part =>
      cases done
      rw [ChunkContext.Good, ChunkContext.weight, ChunkContext.weight]
      dsimp only
      omega
  | skip =>
    have inside : doneBytes ≤ base.fileSize := good
    cases done
    rw [ChunkContext.weight, ChunkContext.remaining]
    dsimp only
    split
    case isTrue whole => exact ⟨Nat.zero_lt_succ 511, by rw [ChunkContext.weight]; dsimp only; omega⟩
    case isFalse part =>
      rw [ChunkContext.Good, ChunkContext.weight]
      dsimp only
      omega
  | write =>
    have inside : doneBytes ≤ base.fileSize := good
    cases done
    rw [ChunkContext.weight, ChunkContext.remaining]
    dsimp only
    split
    case isTrue whole => exact ⟨Nat.zero_le _, by rw [ChunkContext.weight]; dsimp only; omega⟩
    case isFalse part =>
      rw [ChunkContext.Good, ChunkContext.weight]
      dsimp only
      omega
  | error => exact absurd good id

/-- Any count of rounds that is large enough gives the same. -/
theorem chunkLoop_eq {first second : Nat} (good : ctx.Good) {buf : List UInt8} (log : Log)
    (left : 3 * buf.length + ctx.weight ≤ first) (right : 3 * buf.length + ctx.weight ≤ second) :
    chunkLoop bits files first ctx buf log = chunkLoop bits files second ctx buf log := by
  have finished : ∀ fuel, buf.length = 0 →
      chunkLoop bits files fuel ctx buf log = (.successful, ctx, log) := by
    intro fuel none
    cases fuel with
    | zero => rfl
    | succ fuel => rw [chunkLoop, if_pos none]
  induction first generalizing second ctx buf log with
  | zero => rw [finished 0 (by omega), finished second (by omega)]
  | succ first ih =>
    by_cases none : buf.length = 0
    · rw [finished _ none, finished _ none]
    · obtain ⟨second, rfl⟩ : ∃ rest, second = rest + 1 := ⟨second - 1, by omega⟩
      rw [chunkLoop, chunkLoop, if_neg none, if_neg none]
      split
      next ctx' log' consume round =>
        obtain ⟨later, less⟩ := iterate_good good none round
        apply ih later log' (by omega) (by omega)
        intro fuel none
        cases fuel with
        | zero => rfl
        | succ fuel => rw [chunkLoop, if_pos none]
      next => rfl

theorem untarFromChunk_nil (ctx : ChunkContext) (log : Log) :
    untarFromChunk bits files ctx [] log = (.successful, ctx, log) := rfl

theorem untarFromChunk_round (good : ctx.Good) {buf : List UInt8} (more : buf.length ≠ 0)
    (log : Log) :
    untarFromChunk bits files ctx buf log =
      match iterate bits files ctx buf log with
      | ((.successful, ctx, log), consume) => untarFromChunk bits files ctx (buf.drop consume) log
      | (result, _) => result := by
  rw [untarFromChunk, chunkLoop, if_neg more]
  split
  next ctx' log' consume round =>
    obtain ⟨later, less⟩ := iterate_good good more round
    have small := ctx.weight_le
    have small' := ctx'.weight_le
    exact chunkLoop_eq later log' (by omega) (by omega)
  next => rfl

/-- The context after bytes that do not complete anything. -/
def ChunkContext.take (ctx : ChunkContext) (buf : List UInt8) : ChunkContext :=
  match ctx.state with
  | .header =>
    { ctx with
      header := ctx.header.take ctx.doneBytes ++ buf, doneBytes := ctx.doneBytes + buf.length }
  | _ => { ctx with doneBytes := ctx.doneBytes + buf.length }

/-- The log after them. -/
def ChunkContext.record (ctx : ChunkContext) (buf : List UInt8) (log : Log) : Log :=
  match ctx.state with
  | .write => log.write buf
  | _ => log

/-- A round looks at no more bytes than the state takes. -/
theorem iterate_whole {front : List UInt8} (whole : ctx.remaining ≤ front.length)
    (back : List UInt8) (log : Log) :
    iterate bits files ctx (front ++ back) log = iterate bits files ctx front log := by
  have amount : min ctx.remaining (front ++ back).length = min ctx.remaining front.length := by
    rw [length_append]
    omega
  have bytes : (front ++ back).take (min ctx.remaining front.length) =
      front.take (min ctx.remaining front.length) :=
    List.take_append_of_le_length (by omega)
  rw [iterate, iterate]
  rw [amount, bytes]

/-- The bytes that a round consumes. -/
theorem iterate_consume (good : ctx.Good) {buf : List UInt8} (whole : ctx.remaining ≤ buf.length)
    (log : Log) :
    (iterate bits files ctx buf log).2 = ctx.remaining := by
  obtain ⟨base, st, header, doneBytes⟩ := ctx
  cases st with
  | header | skip | write => exact Nat.min_eq_left whole
  | error => exact absurd good id

/-- A round with fewer bytes than the state takes. -/
theorem iterate_part (good : ctx.Good) {buf : List UInt8} (part : buf.length < ctx.remaining)
    (log : Log) :
    iterate bits files ctx buf log = ((.successful, ctx.take buf, ctx.record buf log), buf.length) ∧
      (ctx.take buf).Good := by
  obtain ⟨base, st, header, doneBytes⟩ := ctx
  have amount := Nat.min_eq_right (Nat.le_of_lt part)
  rw [iterate, amount, List.take_length]
  cases st with
  | header =>
    have less : buf.length < 512 - doneBytes := part
    refine ⟨?_, show doneBytes + buf.length < 512 by omega⟩
    dsimp only
    rw [if_neg (by omega)]
    rfl
  | skip | write =>
    have less : buf.length < base.fileSize - doneBytes := part
    refine ⟨?_, show doneBytes + buf.length ≤ base.fileSize by omega⟩
    dsimp only
    rw [if_neg (by omega)]
    rfl
  | error => exact absurd good id

/-- A round may get its bytes in two parts. -/
theorem iterate_append (good : ctx.Good) {front : List UInt8} (part : front.length < ctx.remaining)
    (back : List UInt8) (log : Log) :
    iterate bits files ctx (front ++ back) log =
      ((iterate bits files (ctx.take front) back (ctx.record front log)).1,
        front.length + (iterate bits files (ctx.take front) back (ctx.record front log)).2) := by
  obtain ⟨base, st, header, doneBytes⟩ := ctx
  have bytes : ∀ count, (front ++ back).take (front.length + count) = front ++ back.take count :=
    fun count => List.take_length_add_append count
  cases st with
  | header =>
    have less : front.length < 512 - doneBytes := part
    have amount : min (512 - doneBytes) (front ++ back).length =
        front.length + min (512 - (doneBytes + front.length)) back.length := by
      rw [length_append]
      omega
    have copied : (header.take doneBytes ++ front).take (doneBytes + front.length) =
        header.take doneBytes ++ front := by
      apply List.take_of_length_le
      rw [length_append, List.length_take]
      omega
    dsimp only [iterate, ChunkContext.take, ChunkContext.record, ChunkContext.remaining]
    simp only [amount, bytes, copied, List.append_assoc, Nat.add_assoc]
  | skip =>
    have less : front.length < base.fileSize - doneBytes := part
    have amount : min (base.fileSize - doneBytes) (front ++ back).length =
        front.length + min (base.fileSize - (doneBytes + front.length)) back.length := by
      rw [length_append]
      omega
    dsimp only [iterate, ChunkContext.take, ChunkContext.record, ChunkContext.remaining]
    simp only [amount, Nat.add_assoc]
  | write =>
    have less : front.length < base.fileSize - doneBytes := part
    have amount : min (base.fileSize - doneBytes) (front ++ back).length =
        front.length + min (base.fileSize - (doneBytes + front.length)) back.length := by
      rw [length_append]
      omega
    dsimp only [iterate, ChunkContext.take, ChunkContext.record, ChunkContext.remaining]
    simp only [amount, bytes, Log.write_append, Nat.add_assoc]
  | error => exact absurd good id

/-- A chunk may arrive in two parts. -/
theorem untarFromChunk_append (good : ctx.Good) (front back : List UInt8) (log : Log) :
    untarFromChunk bits files ctx (front ++ back) log =
      match untarFromChunk bits files ctx front log with
      | (.successful, ctx, log) => untarFromChunk bits files ctx back log
      | result => result := by
  generalize measure : 3 * front.length + ctx.weight = rounds
  induction rounds using Nat.strong_induction_on generalizing ctx front log with
  | _ rounds ih =>
    by_cases none : front.length = 0
    · obtain rfl := List.eq_nil_of_length_eq_zero none
      rfl
    · have some : (front ++ back).length ≠ 0 := by
        rw [length_append]
        omega
      by_cases whole : ctx.remaining ≤ front.length
      · rw [untarFromChunk_round good some, untarFromChunk_round good none, iterate_whole whole]
        have consumed := @iterate_consume bits files ctx good front whole log
        cases round : iterate bits files ctx front log with
        | mk result consume =>
          rw [round] at consumed
          obtain ⟨status, ctx', log'⟩ := result
          cases status with
          | successful =>
            obtain ⟨later, less⟩ := iterate_good good none round
            dsimp only at consumed ⊢
            rw [List.drop_append_of_le_length (by omega)]
            exact ih _ (by omega) later _ log' rfl
          | fail => rfl
          | invalidChecksum => rfl
      · have part := Nat.not_le.mp whole
        obtain ⟨taken, later⟩ := @iterate_part bits files ctx good front part log
        rw [untarFromChunk_round good none, taken]
        dsimp only
        rw [List.drop_length, untarFromChunk_nil]
        dsimp only
        by_cases nothing : back.length = 0
        · obtain rfl := List.eq_nil_of_length_eq_zero nothing
          rw [List.append_nil, untarFromChunk_round good none, taken]
          dsimp only
          rw [List.drop_length]
        · rw [untarFromChunk_round good some, untarFromChunk_round later nothing,
            iterate_append good part]
          cases round : iterate bits files (ctx.take front) back (ctx.record front log) with
          | mk result consume =>
            obtain ⟨status, ctx', log'⟩ := result
            cases status with
            | successful =>
              dsimp only
              rw [List.drop_length_add_append]
            | fail => rfl
            | invalidChecksum => rfl

end Rtems.Untar
