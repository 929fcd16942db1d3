import Rtems.Dosfs.FileTruncate

/-!
# The operations on a regular file

A read, a write and a change of the length go to the file of clusters. The caller keeps the offset.
-/

namespace Rtems.Dosfs

open ByteRange FsInfo FileFd Links

/-- The part of `rtems_libio_t` that the operations on a file use. -/
structure Iop where
  offset : Nat
  append : Bool
deriving DecidableEq

/-- `fat_file_set_file_size` -/
def FileFd.setFileSize (fd : FileFd) (size : Nat) : FileFd := { fd with fatFileSize := size % 2 ^ 32 }

/-- `msdos_file_read`: the bytes that were read. -/
def msdosFileRead (fs : FsInfo) (fd : FileFd) (iop : Iop) (count : Nat) :
    Except Errno (List UInt8) × FsInfo × FileFd × Iop :=
  match fatFileRead fs fd (iop.offset % 2 ^ 32) (count % 2 ^ 32) with
  | (.error errno, fs, fd) => (.error errno, fs, fd, iop)
  | (.ok bytes, fs, fd) => (.ok bytes, fs, fd, { iop with offset := iop.offset + bytes.length })

/-- `msdos_file_write`: the count of the bytes that were written. -/
def msdosFileWrite (fs : FsInfo) (fd : FileFd) (iop : Iop) (count : Nat) (buf : Content) :
    Except Errno Nat × FsInfo × FileFd × Iop :=
  let iop := if iop.append then { iop with offset := fd.fatFileSize } else iop
  match fatFileWrite fs fd (iop.offset % 2 ^ 32) (count % 2 ^ 32) buf with
  | (.error errno, fs, fd) => (.error errno, fs, fd, iop)
  | (.ok ret, fs, fd) =>
    let iop := { iop with offset := iop.offset + ret }
    let fd := if iop.offset > fd.fatFileSize then fd.setFileSize iop.offset else fd
    (.ok ret, fs, fd, iop)

/-- `msdos_file_ftruncate` -/
def msdosFileFtruncate (fs : FsInfo) (fd : FileFd) (length : Nat) :
    Except Errno Unit × FsInfo × FileFd :=
  let oldLength := fd.fatFileSize
  let (rc, fs, fd) :=
    if length < oldLength then fatFileTruncate fs fd (length % 2 ^ 32)
    else
      match fatFileExtend fs fd true (length % 2 ^ 32) with
      | (.error errno, fs, fd) => (.error errno, fs, fd)
      | (.ok newLength, fs, fd) =>
        if length ≠ newLength then (.error .enospc, (fatFileTruncate fs fd oldLength).2)
        else (.ok (), fs, fd)
  match rc with
  | .error errno => (.error errno, fs, fd)
  | .ok _ => (.ok (), fs, fd.setFileSize length)

/-- A call of an operation with the arguments of its caller. -/
inductive Call where
  | read (iop : Iop) (count : Nat)
  | write (iop : Iop) (count : Nat) (buf : Content)
  | ftruncate (length : Nat)

/-- What a call returns to its caller. -/
inductive Answer where
  | bytes (bytes : List UInt8) (iop : Iop)
  | count (count : Nat) (iop : Iop)
  | done
  | failed (errno : Errno)
deriving DecidableEq

/-- A call on a file. -/
def Call.run (fs : FsInfo) (fd : FileFd) : Call → Answer × FsInfo × FileFd
  | .read iop count =>
    match msdosFileRead fs fd iop count with
    | (.error errno, fs, fd, _) => (.failed errno, fs, fd)
    | (.ok bytes, fs, fd, iop) => (.bytes bytes iop, fs, fd)
  | .write iop count buf =>
    match msdosFileWrite fs fd iop count buf with
    | (.error errno, fs, fd, _) => (.failed errno, fs, fd)
    | (.ok ret, fs, fd, iop) => (.count ret iop, fs, fd)
  | .ftruncate length =>
    match msdosFileFtruncate fs fd length with
    | (.error errno, fs, fd) => (.failed errno, fs, fd)
    | (.ok _, fs, fd) => (.done, fs, fd)

/-- Calls one after the other. -/
def runs (fs : FsInfo) (fd : FileFd) : List Call → List Answer × FsInfo × FileFd
  | [] => ([], fs, fd)
  | call :: calls =>
    let (answer, fs, fd) := call.run fs fd
    let (answers, fs, fd) := runs fs fd calls
    (answer :: answers, fs, fd)

end Rtems.Dosfs
