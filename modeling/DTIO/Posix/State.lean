import DTIO.Foundation.ByteFile
import DTIO.Foundation.MachineInt

/-!
# The Operating System under DTIO

DTIO runs between an application and the kernel, and its task server calls the same kernel
from other processes.  This module models what those processes share and what the kernel
keeps for each of them: directory entries, regular files, and per process a table of open
file descriptions with their own offsets.

The state follows POSIX: a path names a directory entry, an entry is bound to a file, a
descriptor denotes the file its `open` returned and carries a private offset.
-/

namespace DTIO.Posix

open DTIO.ByteFile DTIO.MachineInt

/-! ## Bytes, paths and open flags -/

/-- A byte of a file or of memory. -/
abbrev Byte := UInt8

/-- A `std::string` holding a path. -/
abbrev PathStr := List Char

/-- Process numbers, user numbers, directory entries and file serial numbers. -/
abbrev Pid := Nat
abbrev Uid := Nat
abbrev Entry := Nat
abbrev Ino := Nat

def oRdonly : Nat := 0
def oWronly : Nat := 1
def oRdwr : Nat := 2
def oCreat : Nat := 64
def oExcl : Nat := 128
def oTrunc : Nat := 512
def oAppend : Nat := 1024

/-- `flags & bit`. -/
def hasFlag (flags bit : Nat) : Bool := flags &&& bit != 0

/-- `flags & O_ACCMODE`. -/
def accMode (flags : Nat) : Nat := flags &&& 3

def isReadable (flags : Nat) : Bool := accMode flags == oRdonly || accMode flags == oRdwr

def isWritable (flags : Nat) : Bool := accMode flags == oWronly || accMode flags == oRdwr

/-- The `whence` argument of `lseek`. -/
inductive Whence where
  | set
  | cur
  | «end»
  deriving DecidableEq, Repr

/-- Paths starting with `/`. -/
abbrev AbsPath := { p : PathStr // p.head? = some '/' }

/-- `std::filesystem::absolute`: a relative path is put behind the working directory and a
separator, an absolute one is kept; nothing is normalised. -/
def absolute (cwd : AbsPath) (path : PathStr) : PathStr :=
  if path.head? = some '/' then path
  else if cwd.1.getLast? = some '/' then cwd.1 ++ path
  else cwd.1 ++ '/' :: path

theorem head_absolute (cwd : AbsPath) (path : PathStr) :
    (absolute cwd path).head? = some '/' := by
  obtain ⟨cwd, hcwd⟩ := cwd
  unfold absolute
  split
  · assumption
  · cases cwd with
    | nil => simp at hcwd
    | cons a rest => split <;> simpa using hcwd

theorem absolute_of_head {cwd : AbsPath} {path : PathStr} (h : path.head? = some '/') :
    absolute cwd path = path := by
  simp [absolute, h]

/-! ## Files and descriptors -/

/-- The content of a regular file: no file is longer than the largest `off_t`. -/
abbrev Content := { bytes : List Byte // bytes.length ≤ maxSigned64 }

/-- What a user may do with a file. -/
structure Perm where
  read : Bool
  write : Bool
  deriving DecidableEq, Repr

structure Inode where
  content : Content
  perm : Uid → Perm

/-- An open file description: the file, the flags of the `open`, the offset, and the absolute
path the descriptor was opened through (`none` for one the process inherited). -/
structure OpenFile where
  ino : Ino
  flags : Nat
  offset : Nat
  via : Option PathStr
  deriving DecidableEq, Repr

/-- The part of the system the modelled calls never change: how paths resolve to directory
entries, who may create an entry, and for each process its user, working directory and
descriptor limit. -/
structure Host where
  walk : PathStr → Entry
  mayCreate : Entry → Uid → Bool
  uid : Pid → Uid
  cwd : Pid → AbsPath
  fdLimit : Nat

/-- The filesystem all processes share.  Entries are bound to existing files, so a new file is
no other file. -/
structure FileSystem where
  dir : Entry → Option Ino
  inodes : Ino → Inode
  nextIno : Ino
  bound : ∀ e ino, dir e = some ino → ino < nextIno

structure Kernel where
  host : Host
  fs : FileSystem
  fds : Pid → Int → Option OpenFile

/-- What a fresh `open` of the entry would find in the file. -/
def FileSystem.file (fs : FileSystem) (e : Entry) : Option (List Byte) :=
  (fs.dir e).map fun ino => (fs.inodes ino).content.1

/-! ## Positional access to a content -/

/-- `writeAt` capped at the largest file size. -/
def Content.write (c : Content) (pos : Nat) (data : List Byte) : Content :=
  ⟨writeAt 0 c.1 pos (data.take (maxSigned64 - pos)), by
    -- what is kept of the data ends at the largest size or before
    by_cases hd : data.take (maxSigned64 - pos) = []
    · rw [hd, writeAt_nil]
      exact c.2
    · have hlen : (data.take (maxSigned64 - pos)).length ≤ maxSigned64 - pos := by
        rw [List.length_take]
        exact min_le_left _ _
      have hpos : 0 < (data.take (maxSigned64 - pos)).length := List.length_pos_iff.mpr hd
      rw [length_writeAt _ _ _ hd]
      have := c.2
      omega⟩

theorem Content.write_val {c : Content} {pos : Nat} {data : List Byte}
    (h : data = [] ∨ pos + data.length ≤ maxSigned64) :
    (c.write pos data).1 = writeAt 0 c.1 pos data := by
  have htake : data.take (maxSigned64 - pos) = data := by
    rcases h with rfl | h
    · simp
    · exact List.take_of_length_le (by omega)
  simp only [Content.write, htake]

@[simp] theorem Content.write_nil (c : Content) (pos : Nat) : c.write pos [] = c :=
  Subtype.ext (by simp [Content.write])

end DTIO.Posix
