import Mathlib.Algebra.Order.Ring.Nat

/-!
# The headers of an archive

An archive is a sequence of blocks of 512 bytes. A header says what the entry is, and a regular file has
its data in the blocks behind the header.
-/

namespace Rtems.Untar

/-- A string of the archive or of the file system. -/
abbrev Name := List UInt8

/-- What was done to the file system. The contents of a file are all that was written to it. -/
inductive Effect where
  | mkdir (path : Name) (mode : Nat)
  | unlink (path : Name)
  | symlink (target path : Name)
  | file (path : Name) (mode : Nat) (contents : List UInt8)
deriving DecidableEq

/-- All that was done, the last effect first. -/
abbrev Log := List Effect

/-- The file system: which effects it allows after what was done before. A directory that is there
already counts as made. -/
abbrev Files := Log → Effect → Bool

/-- `write` to the file that was opened last. -/
def Log.write (bytes : List UInt8) : Log → Log
  | .file path mode contents :: log => .file path mode (contents ++ bytes) :: log
  | log => log

/-- The status that the functions return. -/
inductive Status where
  | successful
  | fail
  | invalidChecksum
deriving DecidableEq

/-- `Untar_HeaderContext` -/
structure HeaderContext where
  filePath : Name
  linkName : Name
  mode : Nat
  fileSize : Nat
  nblocks : Nat
  linkflag : UInt8

def regType : UInt8 := 0x30
def symType : UInt8 := 0x32
def dirType : UInt8 := 0x35

/-- `/` -/
def slash : UInt8 := 0x2f

/-- `_rtems_octal2ulong` for words of `bits` bits. Bytes that are not decimal digits are skipped. -/
def octal2ulong (bits : Nat) (octascii : List UInt8) : Nat :=
  octascii.foldl
    (fun num byte => if byte < 0x30 ∨ byte > 0x39 then num else (num * 8 + (byte.toNat - 0x30)) % 2 ^ bits)
    0

/-- The digits that `strtoul` converts. -/
def octalDigits : List UInt8 → List UInt8 := List.takeWhile fun byte => 0x30 ≤ byte ∧ byte ≤ 0x37

/-- `strtoul` to the base 8 for words of `bits` bits: the largest word if the number is too large. -/
def strtoul (bits : Nat) (str : List UInt8) : Nat :=
  let str := str.dropWhile fun byte => byte = 0x20 ∨ 0x09 ≤ byte ∧ byte ≤ 0x0d
  let (negative, str) :=
    match str with
    | 0x2d :: rest => (true, rest)
    | 0x2b :: rest => (false, rest)
    | _ => (false, str)
  let num := (octalDigits str).foldl (fun num byte => num * 8 + (byte.toNat - 0x30)) 0
  if num ≥ 2 ^ bits then 2 ^ bits - 1
  else if negative then (2 ^ bits - num) % 2 ^ bits
  else num

/-- `strlcpy` to a buffer of 100 bytes -/
def strlcpy (src : List UInt8) : Name := (src.takeWhile (· ≠ 0)).take 99

/-- `_rtems_tar_header_checksum`: the field of the checksum counts as blanks. -/
def tarHeaderChecksum (bufr : List UInt8) : Nat :=
  ((bufr.take 148 ++ List.replicate 8 0x20 ++ (bufr.drop 156).take 356).map UInt8.toNat).sum

/-- The loop of `Make_Path` behind the leading separators: the path up to where it was cut. -/
def makeDirs (files : Files) : Name → Name → Log → Bool × Name × Log
  | done, [], log => (true, done, log)
  | done, byte :: rest, log =>
    if byte ≠ slash then makeDirs files (done ++ [byte]) rest log
    else if rest = [] then (true, done, log)
    else if files log (.mkdir done 0o777) then
      makeDirs files (done ++ [byte]) rest (.mkdir done 0o777 :: log)
    else (false, done, log)

/-- `Make_Path`: whether it succeeds, and the path that it leaves in the buffer. -/
def makePath (files : Files) (path : Name) (log : Log) : Bool × Name × Log :=
  let (made, body, log) := makeDirs files [] (path.dropWhile (· = slash)) log
  (made, path.takeWhile (· = slash) ++ body, log)

/-- The blocks that hold a count of bytes. -/
def blocksOf (bits size : Nat) : Nat := (size + 511) % 2 ^ bits / 512

/-- The part of `Untar_ProcessHeader` that makes what the header says. -/
def create (bits : Nat) (files : Files) (ctx : HeaderContext) (bufr : List UInt8) (retval : Status)
    (log : Log) : Status × HeaderContext × Log :=
  if ctx.linkflag = symType then
    let ctx := { ctx with linkName := strlcpy (bufr.drop 157) }
    if files log (.symlink ctx.linkName ctx.filePath) then
      (retval, ctx, .symlink ctx.linkName ctx.filePath :: log)
    else (.fail, ctx, log)
  else if ctx.linkflag = regType then
    (retval, { ctx with nblocks := blocksOf bits ctx.fileSize }, log)
  else if ctx.linkflag = dirType then
    if files log (.mkdir ctx.filePath ctx.mode) then
      (retval, ctx, .mkdir ctx.filePath ctx.mode :: log)
    else (.fail, ctx, log)
  else (retval, ctx, log)

/-- The name of the format in a header. -/
def ustar (bufr : List UInt8) : Bool := (bufr.drop 257).take 5 == [0x75, 0x73, 0x74, 0x61, 0x72]

/-- `Untar_ProcessHeader` -/
def processHeader (bits : Nat) (files : Files) (ctx : HeaderContext) (bufr : List UInt8) (log : Log) :
    Status × HeaderContext × Log :=
  let ctx := { ctx with filePath := [], fileSize := 0, nblocks := 0, linkflag := 0xff }
  if ¬ ustar bufr then (.successful, ctx, log)
  else
    let hdrChksum := octal2ulong bits ((bufr.drop 148).take 8)
    if tarHeaderChecksum bufr ≠ hdrChksum then (.invalidChecksum, ctx, log)
    else
      let ctx :=
        { ctx with
          filePath := strlcpy bufr
          mode := strtoul bits (bufr.drop 100)
          linkflag := bufr.getD 156 0
          fileSize := octal2ulong bits ((bufr.drop 124).take 12) }
      let (made, path, log) := makePath files ctx.filePath log
      let ctx := { ctx with filePath := path }
      if ¬ made then create bits files ctx bufr .fail log
      else
        let log := if files log (.unlink path) then .unlink path :: log else log
        create bits files ctx bufr .successful log

/-- The entry of a header: a regular file with its size, another entry, or none because of a wrong
checksum. -/
inductive Entry where
  | regular (size : Nat)
  | other
  | invalid

/-- What a header alone says. -/
def entryOf (bits : Nat) (bufr : List UInt8) : Entry :=
  if ¬ ustar bufr then .other
  else if tarHeaderChecksum bufr ≠ octal2ulong bits ((bufr.drop 148).take 8) then .invalid
  else if bufr.getD 156 0 = regType then .regular (octal2ulong bits ((bufr.drop 124).take 12))
  else .other

theorem Log.write_nil (log : Log) : log.write [] = log := by
  cases log with
  | nil => rfl
  | cons effect log =>
    cases effect with
    | file path mode contents => rw [Log.write, List.append_nil]
    | mkdir path mode => rfl
    | unlink path => rfl
    | symlink target path => rfl

theorem Log.write_append (log : Log) (first second : List UInt8) :
    log.write (first ++ second) = (log.write first).write second := by
  cases log with
  | nil => rfl
  | cons effect log =>
    cases effect with
    | file path mode contents => rw [Log.write, Log.write, Log.write, List.append_assoc]
    | mkdir path mode => rfl
    | unlink path => rfl
    | symlink target path => rfl

variable {bits : Nat} {files : Files}

theorem makeDirs_spec (succeed : ∀ log effect, files log effect = true) (done rest : Name) (log : Log) :
    ∃ path more, makeDirs files done rest log = (true, path, more ++ log) := by
  induction rest generalizing done log with
  | nil => exact ⟨done, [], rfl⟩
  | cons byte rest ih =>
    rw [makeDirs]
    split
    · exact ih (done ++ [byte]) log
    · split
      · exact ⟨done, [], rfl⟩
      · rw [if_pos (succeed log _)]
        obtain ⟨path, more, made⟩ := ih (done ++ [byte]) (.mkdir done 0o777 :: log)
        exact ⟨path, more ++ [.mkdir done 0o777], by rw [made, List.append_assoc]; rfl⟩

theorem makePath_spec (succeed : ∀ log effect, files log effect = true) (path : Name) (log : Log) :
    ∃ path' more, makePath files path log = (true, path', more ++ log) := by
  obtain ⟨body, more, made⟩ := makeDirs_spec succeed [] (path.dropWhile (· = slash)) log
  refine ⟨path.takeWhile (· = slash) ++ body, more, ?_⟩
  rw [makePath, made]

/-- What a header does if all operations succeed. -/
theorem processHeader_spec (succeed : ∀ log effect, files log effect = true) (bufr : List UInt8)
    (log : Log) :
    match entryOf bits bufr with
    | .invalid => ∀ ctx, ∃ ctx', processHeader bits files ctx bufr log = (.invalidChecksum, ctx', log)
    | .other => ∃ more, ∀ ctx, ∃ ctx', ctx'.linkflag ≠ regType ∧
        processHeader bits files ctx bufr log = (.successful, ctx', more ++ log)
    | .regular size => ∃ more path mode, ∀ ctx, ∃ linkName, processHeader bits files ctx bufr log =
        (.successful, ⟨path, linkName, mode, size, blocksOf bits size, regType⟩, more ++ log) := by
  rw [entryOf]
  by_cases magic : ustar bufr
  · rw [if_neg (Classical.not_not.mpr magic)]
    by_cases wrong : tarHeaderChecksum bufr ≠ octal2ulong bits ((bufr.drop 148).take 8)
    · rw [if_pos wrong]
      intro ctx
      refine ⟨{ ctx with filePath := [], fileSize := 0, nblocks := 0, linkflag := 0xff }, ?_⟩
      rw [processHeader]
      rw [if_neg (Classical.not_not.mpr magic), if_pos wrong]
    · rw [if_neg wrong]
      obtain ⟨path, dirs, made⟩ := makePath_spec succeed (strlcpy bufr) log
      -- the context at the switch over the link flag
      let decoded : HeaderContext → HeaderContext := fun ctx =>
        ⟨path, ctx.linkName, strtoul bits (bufr.drop 100), octal2ulong bits ((bufr.drop 124).take 12),
          0, bufr.getD 156 0⟩
      have entered : ∀ ctx, processHeader bits files ctx bufr log =
          create bits files (decoded ctx) bufr .successful (.unlink path :: (dirs ++ log)) := by
        intro ctx
        rw [processHeader]
        dsimp only
        rw [if_neg (Classical.not_not.mpr magic), if_neg wrong, made]
        dsimp only
        rw [if_neg (by decide), if_pos (succeed _ _)]
      by_cases regular : bufr.getD 156 0 = regType
      · rw [if_pos regular]
        refine ⟨.unlink path :: dirs, path, strtoul bits (bufr.drop 100), fun ctx => ⟨ctx.linkName, ?_⟩⟩
        rw [entered, create, if_neg (show ¬ bufr.getD 156 0 = symType by rw [regular]; decide),
          if_pos regular, ← regular]
        rfl
      · rw [if_neg regular]
        by_cases symbolic : bufr.getD 156 0 = symType
        · refine ⟨.symlink (strlcpy (bufr.drop 157)) path :: .unlink path :: dirs, fun ctx =>
            ⟨{ decoded ctx with linkName := strlcpy (bufr.drop 157) }, regular, ?_⟩⟩
          rw [entered, create, if_pos symbolic]
          exact if_pos (succeed _ _)
        · by_cases directory : bufr.getD 156 0 = dirType
          · refine ⟨.mkdir path (strtoul bits (bufr.drop 100)) :: .unlink path :: dirs,
              fun ctx => ⟨decoded ctx, regular, ?_⟩⟩
            rw [entered, create, if_neg symbolic, if_neg regular, if_pos directory]
            exact if_pos (succeed _ _)
          · refine ⟨.unlink path :: dirs, fun ctx => ⟨decoded ctx, regular, ?_⟩⟩
            rw [entered, create, if_neg symbolic, if_neg regular, if_neg directory]
            rfl
  · rw [if_pos magic]
    refine ⟨[], fun ctx =>
      ⟨{ ctx with filePath := [], fileSize := 0, nblocks := 0, linkflag := 0xff },
        (by decide : (0xff : UInt8) ≠ regType), ?_⟩⟩
    rw [processHeader]
    rw [if_pos magic]
    rfl

end Rtems.Untar
