import DTIO.Posix.State
import Mathlib.Logic.Function.Basic

/-!
# Client Metadata Manager

`ClientMetadataManager` keeps, for each intercepted descriptor and for each intercepted
`FILE *`, the absolute path it was opened on, the open flags and DTIO's own offset
(`include/dtio/client_metadata_manager.h`).  Every member function locks its table, so each
is one atomic step.
-/

namespace DTIO.Client

open DTIO.Posix

/-- `struct FileInfo`; `current_offset` is an `off_t`. -/
structure FileInfo where
  absolutePath : PathStr
  flags : Nat
  currentOffset : Int
  deriving DecidableEq, Repr

/-- `FileInfo(path, f)`: the offset starts at 0 whatever the flags are. -/
def FileInfo.new (path : PathStr) (flags : Nat) : FileInfo := ⟨path, flags, 0⟩

/-! ## File tables

`posix_files_` and `stdio_files_` are the same kind of map with the same five operations, so
the operations are defined once over the key type. -/

/-- An `std::unordered_map` from handles to `FileInfo`. -/
abbrev FileTable (κ : Type*) := κ → Option FileInfo

namespace FileTable

variable {κ : Type*} [DecidableEq κ]

/-- `files_[key] = FileInfo(absolute_path, flags)`. -/
def register (t : FileTable κ) (key : κ) (path : PathStr) (flags : Nat) : FileTable κ :=
  Function.update t key (some (FileInfo.new path flags))

/-- `files_.find(key) != files_.end()`. -/
def isRegistered (t : FileTable κ) (key : κ) : Bool := (t key).isSome

/-- `files_.erase(key)`. -/
def unregister (t : FileTable κ) (key : κ) : FileTable κ := Function.update t key none

/-- Store a new offset in the entry, if there is one. -/
def updateOffset (t : FileTable κ) (key : κ) (newOffset : Int) : FileTable κ :=
  Function.update t key ((t key).map fun info => { info with currentOffset := newOffset })

variable (t : FileTable κ) (key : κ)

@[simp] theorem register_self (path : PathStr) (flags : Nat) :
    t.register key path flags key = some (FileInfo.new path flags) := Function.update_self ..

theorem register_of_ne {key' : κ} (h : key' ≠ key) (path : PathStr) (flags : Nat) :
    t.register key path flags key' = t key' := Function.update_of_ne h ..

@[simp] theorem unregister_self : t.unregister key key = none := Function.update_self ..

theorem unregister_of_ne {key' : κ} (h : key' ≠ key) : t.unregister key key' = t key' :=
  Function.update_of_ne h ..

@[simp] theorem updateOffset_self (off : Int) :
    t.updateOffset key off key = (t key).map fun info => { info with currentOffset := off } :=
  Function.update_self ..

theorem updateOffset_of_ne {key' : κ} (h : key' ≠ key) (off : Int) :
    t.updateOffset key off key' = t key' := Function.update_of_ne h ..

theorem updateOffset_of_some {info : FileInfo} (h : t key = some info) (off : Int) :
    t.updateOffset key off key = some { info with currentOffset := off } := by
  rw [updateOffset_self, h]
  rfl

/-- Updating an offset registers and unregisters nothing, and keeps paths and flags. -/
theorem updateOffset_map (off : Int) (key' : κ) :
    (t.updateOffset key off key').map (fun i => (i.absolutePath, i.flags)) =
      (t key').map fun i => (i.absolutePath, i.flags) := by
  by_cases h : key' = key
  · subst h
    rw [updateOffset_self]
    cases t key' <;> rfl
  · rw [updateOffset_of_ne t key h]

omit [DecidableEq κ] in
theorem isRegistered_eq_false : t.isRegistered key = false ↔ t key = none := by
  simp [isRegistered]

omit [DecidableEq κ] in
theorem isRegistered_eq_true : t.isRegistered key = true ↔ ∃ info, t key = some info := by
  rw [isRegistered, Option.isSome_iff_exists]

end FileTable

/-! ## The manager -/

/-- A `FILE *` of the application. -/
abbrev FilePtr := Nat

structure ClientMetadataManager where
  posixFiles : FileTable Int
  stdioFiles : FileTable FilePtr

namespace ClientMetadataManager

/-- No handle is registered. -/
def empty : ClientMetadataManager := ⟨fun _ => none, fun _ => none⟩

variable (m : ClientMetadataManager)

def registerPosixFd (fd : Int) (path : PathStr) (flags : Nat) : ClientMetadataManager :=
  { m with posixFiles := m.posixFiles.register fd path flags }

def isPosixFdRegistered (fd : Int) : Bool := m.posixFiles.isRegistered fd

/-- A pointer to the entry, or null; the pointer is dereferenced without the lock. -/
def getPosixFileInfo (fd : Int) : Option FileInfo := m.posixFiles fd

def unregisterPosixFd (fd : Int) : ClientMetadataManager :=
  { m with posixFiles := m.posixFiles.unregister fd }

def updatePosixOffset (fd : Int) (newOffset : Int) : ClientMetadataManager :=
  { m with posixFiles := m.posixFiles.updateOffset fd newOffset }

def registerStdioFp (fp : FilePtr) (path : PathStr) (flags : Nat) : ClientMetadataManager :=
  { m with stdioFiles := m.stdioFiles.register fp path flags }

def isStdioFpRegistered (fp : FilePtr) : Bool := m.stdioFiles.isRegistered fp

def getStdioFileInfo (fp : FilePtr) : Option FileInfo := m.stdioFiles fp

def unregisterStdioFp (fp : FilePtr) : ClientMetadataManager :=
  { m with stdioFiles := m.stdioFiles.unregister fp }

def updateStdioOffset (fp : FilePtr) (newOffset : Int) : ClientMetadataManager :=
  { m with stdioFiles := m.stdioFiles.updateOffset fp newOffset }

end ClientMetadataManager

end DTIO.Client
