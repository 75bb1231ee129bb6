import DTIO.Posix.State
import Mathlib.Logic.Function.Basic

/-!
# System Calls

`open64`, `lseek64`, `read`, `write` and `close` on the shared kernel state.  Every call takes
the calling process and returns what the C function returns, with `-1` for failure, and the
state after it.  Transfers take an outcome chosen by the environment, so that every short or
failed transfer the code may meet is an input of the model.

## Main results

- `open64_cases`: everything an `open64` can do
- `…_fds_ne`: a call of one process leaves the descriptors of the others alone
- `…_of_file`: what each call does on an open descriptor
-/

namespace DTIO.Posix

open DTIO.ByteFile DTIO.MachineInt

/-- What the environment makes of a transfer: complete as far as the file allows, cut off
after `n` bytes, or failed. -/
inductive Transfer where
  | full
  | short (n : Nat)
  | fail
  deriving DecidableEq, Repr

/-- The number of bytes moved when `n` could be moved; `none` is an error. -/
def Transfer.amount : Transfer → Nat → Option Nat
  | .full, n => some n
  | .short m, n => some (min m n)
  | .fail, _ => none

@[simp] theorem Transfer.amount_full (n : Nat) : Transfer.full.amount n = some n := rfl

theorem Transfer.amount_le {t : Transfer} {n m : Nat} (h : t.amount n = some m) : m ≤ n := by
  cases t with
  | full => exact (Option.some.inj h).ge
  | short k =>
    have hm : min k n = m := Option.some.inj h
    omega
  | fail => cases h

/-- The number of bytes that move when `n` could be moved; an error moves none. -/
def Transfer.moved (t : Transfer) (n : Nat) : Nat := (t.amount n).getD 0

theorem Transfer.moved_le (t : Transfer) (n : Nat) : t.moved n ≤ n := by
  unfold Transfer.moved
  cases h : t.amount n with
  | none => exact Nat.zero_le n
  | some m => exact Transfer.amount_le h

theorem Transfer.moved_mono (t : Transfer) {n m : Nat} (h : n ≤ m) : t.moved n ≤ t.moved m := by
  cases t with
  | full => exact h
  | short k =>
    show min k n ≤ min k m
    omega
  | fail => exact Nat.le_refl 0

/-! ## Definitions -/

/-- The file permissions `mode` gives: the owner's bits to the creator, the others' bits to
every other user. -/
def permOfMode (owner : Uid) (mode : Nat) : Uid → Perm := fun u =>
  if u = owner then ⟨hasFlag mode 0o400, hasFlag mode 0o200⟩
  else ⟨hasFlag mode 0o004, hasFlag mode 0o002⟩

/-- Opening with these flags is permitted: `O_RDONLY` needs read, `O_WRONLY` write and the
other modes both permissions; truncation needs write permission. -/
def Perm.permits (p : Perm) (flags : Nat) : Bool :=
  (accMode flags == oWronly || p.read) &&
  ((accMode flags == oRdonly && !hasFlag flags oTrunc) || p.write)

def FileSystem.setContent (fs : FileSystem) (ino : Ino) (c : Content) : FileSystem :=
  { fs with inodes := Function.update fs.inodes ino { fs.inodes ino with content := c } }

def FileSystem.create (fs : FileSystem) (e : Entry) (perm : Uid → Perm) : FileSystem :=
  { dir := Function.update fs.dir e (some fs.nextIno)
    inodes := Function.update fs.inodes fs.nextIno ⟨⟨[], Nat.zero_le _⟩, perm⟩
    nextIno := fs.nextIno + 1
    bound := by
      intro e' ino h
      by_cases he : e' = e
      · subst he
        rw [Function.update_self] at h
        exact Option.some.inj h ▸ Nat.lt_succ_self _
      · rw [Function.update_of_ne he] at h
        exact (fs.bound e' ino h).trans (Nat.lt_succ_self _) }

/-- The entry is unbound; its file goes on existing for those who have it open. -/
def FileSystem.remove (fs : FileSystem) (e : Entry) : FileSystem :=
  { fs with
    dir := Function.update fs.dir e none
    bound := by
      intro e' ino h
      by_cases he : e' = e
      · rw [he, Function.update_self] at h
        cases h
      · rw [Function.update_of_ne he] at h
        exact fs.bound e' ino h }

/-- The part of `open` that concerns the filesystem: the file of the entry, truncated or
created as the flags say, or `none` for a refusal. -/
def FileSystem.openEntry (fs : FileSystem) (host : Host) (uid : Uid) (e : Entry)
    (flags mode : Nat) : Option (Ino × FileSystem) :=
  match fs.dir e with
  | some ino =>
    -- `O_EXCL` refuses what exists, also to those who may open it
    if hasFlag flags oCreat && hasFlag flags oExcl then none
    else if ((fs.inodes ino).perm uid).permits flags then
      some (ino, if hasFlag flags oTrunc then fs.setContent ino ⟨[], Nat.zero_le _⟩ else fs)
    else none
  | none =>
    -- the mode of a new file does not restrict the descriptor that creates it
    if hasFlag flags oCreat && host.mayCreate e uid then
      some (fs.nextIno, fs.create e (permOfMode uid mode))
    else none

/-- The lowest descriptor number that is not open in the process. -/
def Kernel.lowestFree (k : Kernel) (pid : Pid) : Option Int :=
  ((List.range k.host.fdLimit).find? fun n : Nat => (k.fds pid (n : Int)).isNone).map Int.ofNat

def Kernel.withFs (k : Kernel) (fs : FileSystem) : Kernel := { k with fs := fs }

/-- Bind a descriptor of a process, or unbind it with `none`. -/
def Kernel.setFd (k : Kernel) (pid : Pid) (fd : Int) (f : Option OpenFile) : Kernel :=
  { k with fds := Function.update k.fds pid (Function.update (k.fds pid) fd f) }

def Kernel.open64 (k : Kernel) (pid : Pid) (path : PathStr) (flags mode : Nat) : Int × Kernel :=
  if path.isEmpty then (-1, k)
  else
    let abs := absolute (k.host.cwd pid) path
    match k.lowestFree pid with
    | none => (-1, k)
    | some fd =>
      match k.fs.openEntry k.host (k.host.uid pid) (k.host.walk abs) flags mode with
      | none => (-1, k)
      | some (ino, fs) => (fd, (k.withFs fs).setFd pid fd (some ⟨ino, flags, 0, some abs⟩))

/-- `creat(path, mode)` is `open(path, O_CREAT | O_WRONLY | O_TRUNC, mode)`. -/
def Kernel.creat64 (k : Kernel) (pid : Pid) (path : PathStr) (mode : Nat) : Int × Kernel :=
  k.open64 pid path (oCreat ||| oWronly ||| oTrunc) mode

/-- The position `lseek` is asked for, on a descriptor at `pos` of a file of `size` bytes. -/
def seekTarget (pos size : Nat) (off : Int) : Whence → Int
  | .set => off
  | .cur => pos + off
  | .end => size + off

def Kernel.lseek64 (k : Kernel) (pid : Pid) (fd : Int) (off : Int) (whence : Whence) :
    Int × Kernel :=
  match k.fds pid fd with
  | none => (-1, k)
  | some f =>
    let target := seekTarget f.offset (k.fs.inodes f.ino).content.1.length off whence
    if 0 ≤ target ∧ target ≤ maxSigned64 then
      (target, k.setFd pid fd (some { f with offset := target.toNat }))
    else (-1, k)

/-- The return value, the bytes obtained, and the state. -/
def Kernel.read (k : Kernel) (pid : Pid) (fd : Int) (count : Nat) (t : Transfer) :
    Int × List Byte × Kernel :=
  match k.fds pid fd with
  | none => (-1, [], k)
  | some f =>
    if isReadable f.flags then
      -- at most what the file holds from the offset on
      let bytes := readAt (k.fs.inodes f.ino).content.1 f.offset count
      match t.amount bytes.length with
      | none => (-1, [], k)
      | some n => (n, bytes.take n, k.setFd pid fd (some { f with offset := f.offset + n }))
    else (-1, [], k)

/-- The write position: the end of the file with `O_APPEND`, else the offset. -/
def Kernel.writePos (k : Kernel) (f : OpenFile) : Nat :=
  if hasFlag f.flags oAppend then (k.fs.inodes f.ino).content.1.length else f.offset

def Kernel.write (k : Kernel) (pid : Pid) (fd : Int) (data : List Byte) (t : Transfer) :
    Int × Kernel :=
  match k.fds pid fd with
  | none => (-1, k)
  | some f =>
    let pos := k.writePos f
    -- nothing is written beyond the largest offset: `EFBIG` when no byte fits
    let room := maxSigned64 - pos
    if !isWritable f.flags || (room == 0 && !data.isEmpty) then (-1, k)
    else
      match t.amount (min data.length room) with
      | none => (-1, k)
      | some n =>
        let content := (k.fs.inodes f.ino).content.write pos (data.take n)
        (n, (k.withFs (k.fs.setContent f.ino content)).setFd pid fd
              (some { f with offset := pos + n }))

def Kernel.close (k : Kernel) (pid : Pid) (fd : Int) : Int × Kernel :=
  match k.fds pid fd with
  | none => (-1, k)
  | some _ => (0, k.setFd pid fd none)

/-- `unlink(path)`.  Whether the directory's permissions allow it is an input. -/
def Kernel.unlink (k : Kernel) (pid : Pid) (path : PathStr) (allowed : Bool) : Int × Kernel :=
  if path.isEmpty || !allowed then (-1, k)
  else
    let e := k.host.walk (absolute (k.host.cwd pid) path)
    match k.fs.dir e with
    | none => (-1, k)
    | some _ => (0, k.withFs (k.fs.remove e))

/-! ## Descriptor tables -/

section Tables

variable (k : Kernel) (pid : Pid) (fd : Int) (f : Option OpenFile) (fs : FileSystem)

@[simp] theorem withFs_host : (k.withFs fs).host = k.host := rfl
@[simp] theorem withFs_fs : (k.withFs fs).fs = fs := rfl
@[simp] theorem withFs_fds : (k.withFs fs).fds = k.fds := rfl
@[simp] theorem setFd_host : (k.setFd pid fd f).host = k.host := rfl
@[simp] theorem setFd_fs : (k.setFd pid fd f).fs = k.fs := rfl

@[simp] theorem setFd_fds_self : (k.setFd pid fd f).fds pid fd = f := by
  simp [Kernel.setFd]

theorem setFd_fds_of_ne {fd' : Int} (h : fd' ≠ fd) :
    (k.setFd pid fd f).fds pid fd' = k.fds pid fd' := by
  simp [Kernel.setFd, h]

theorem setFd_fds_of_pid_ne {pid' : Pid} (h : pid' ≠ pid) :
    (k.setFd pid fd f).fds pid' = k.fds pid' := by
  simp [Kernel.setFd, h]

@[simp] theorem setFd_setFd (f' : Option OpenFile) :
    (k.setFd pid fd f).setFd pid fd f' = k.setFd pid fd f' := by
  simp [Kernel.setFd]

@[simp] theorem setFd_self : k.setFd pid fd (k.fds pid fd) = k := by
  simp [Kernel.setFd]

@[simp] theorem withFs_setFd : (k.setFd pid fd f).withFs fs = (k.withFs fs).setFd pid fd f := rfl

@[simp] theorem withFs_withFs (fs' : FileSystem) : (k.withFs fs).withFs fs' = k.withFs fs' := rfl

@[simp] theorem withFs_self : k.withFs k.fs = k := rfl

end Tables

/-- Storing what a file holds changes nothing. -/
@[simp] theorem setContent_self (fs : FileSystem) (ino : Ino) :
    fs.setContent ino (fs.inodes ino).content = fs := by
  simp [FileSystem.setContent]

/-- A number handed out by the kernel is non-negative and was not open. -/
theorem lowestFree_spec {k : Kernel} {pid : Pid} {fd : Int} (h : k.lowestFree pid = some fd) :
    0 ≤ fd ∧ k.fds pid fd = none := by
  unfold Kernel.lowestFree at h
  rw [Option.map_eq_some_iff] at h
  obtain ⟨n, hn, rfl⟩ := h
  refine ⟨Int.natCast_nonneg n, ?_⟩
  have hfree := List.find?_some hn
  rwa [Option.isNone_iff_eq_none] at hfree

/-- It is a number below the limit. -/
theorem lowestFree_range {k : Kernel} {pid : Pid} {fd : Int} (h : k.lowestFree pid = some fd) :
    ∃ n : Nat, n < k.host.fdLimit ∧ fd = n ∧ k.fds pid n = none := by
  have hnone := (lowestFree_spec h).2
  unfold Kernel.lowestFree at h
  rw [Option.map_eq_some_iff] at h
  obtain ⟨n, hn, rfl⟩ := h
  exact ⟨n, List.mem_range.mp (List.mem_of_find?_eq_some hn), rfl, hnone⟩

/-- The choice depends on which numbers are open only. -/
theorem lowestFree_congr {k k' : Kernel} {pid pid' : Pid} (hhost : k.host = k'.host)
    (h : ∀ fd, (k.fds pid fd).isNone = (k'.fds pid' fd).isNone) :
    k.lowestFree pid = k'.lowestFree pid' := by
  unfold Kernel.lowestFree
  simp only [hhost, h]

/-! ## Opening -/

/-- Opening an entry binds it to the returned file and leaves every other binding alone. -/
theorem openEntry_dir {fs fs' : FileSystem} {host : Host} {uid : Uid} {e : Entry}
    {flags mode : Nat} {ino : Ino} (h : fs.openEntry host uid e flags mode = some (ino, fs')) :
    fs'.dir = Function.update fs.dir e (some ino) := by
  unfold FileSystem.openEntry at h
  cases hdir : fs.dir e with
  | none =>
    simp only [hdir] at h
    split at h
    · obtain ⟨rfl, rfl⟩ := Prod.mk.inj (Option.some.inj h)
      rfl
    · cases h
  | some i =>
    simp only [hdir] at h
    split at h
    · cases h
    split at h
    · obtain ⟨rfl, rfl⟩ := Prod.mk.inj (Option.some.inj h)
      -- truncation changes a file, not the directory
      rw [← hdir, Function.update_eq_self]
      split <;> rfl
    · cases h

/-- An existing entry keeps its file. -/
theorem openEntry_bound {fs fs' : FileSystem} {host : Host} {uid : Uid} {e : Entry}
    {flags mode : Nat} {ino i : Ino} (h : fs.openEntry host uid e flags mode = some (ino, fs'))
    (hdir : fs.dir e = some i) : ino = i := by
  unfold FileSystem.openEntry at h
  simp only [hdir] at h
  split at h
  · cases h
  split at h
  · exact (Prod.mk.inj (Option.some.inj h)).1.symm
  · cases h

/-- A binding that existed before an `open` exists after it. -/
theorem openEntry_dir_of_some {fs fs' : FileSystem} {host : Host} {uid : Uid} {e e' : Entry}
    {flags mode : Nat} {ino i : Ino} (h : fs.openEntry host uid e flags mode = some (ino, fs'))
    (hdir : fs.dir e' = some i) : fs'.dir e' = some i := by
  rw [openEntry_dir h]
  by_cases he : e' = e
  · subst he
    rw [Function.update_self, openEntry_bound h hdir]
  · rwa [Function.update_of_ne he]

/-- Opening an existing entry without `O_TRUNC` and `O_EXCL` changes nothing in the
filesystem. -/
theorem openEntry_existing {fs : FileSystem} {host : Host} {uid : Uid} {e : Entry}
    {flags mode : Nat} {ino : Ino} (hdir : fs.dir e = some ino)
    (htrunc : hasFlag flags oTrunc = false) (hexcl : hasFlag flags oExcl = false) :
    fs.openEntry host uid e flags mode =
      if ((fs.inodes ino).perm uid).permits flags then some (ino, fs) else none := by
  simp [FileSystem.openEntry, hdir, htrunc, hexcl]

/-- Opening an unbound entry creates a file. -/
theorem openEntry_created {fs fs' : FileSystem} {host : Host} {uid : Uid} {e : Entry}
    {flags mode : Nat} {ino : Ino} (h : fs.openEntry host uid e flags mode = some (ino, fs'))
    (hdir : fs.dir e = none) :
    (hasFlag flags oCreat && host.mayCreate e uid) = true ∧ ino = fs.nextIno ∧
      fs' = fs.create e (permOfMode uid mode) := by
  simp only [FileSystem.openEntry, hdir] at h
  split at h
  next hmay =>
    obtain ⟨rfl, rfl⟩ := Prod.mk.inj (Option.some.inj h)
    exact ⟨hmay, rfl, rfl⟩
  · cases h

/-- Everything an `unlink` can do: fail, or unbind an entry. -/
theorem unlink_cases (k : Kernel) (pid : Pid) (path : PathStr) (allowed : Bool) :
    k.unlink pid path allowed = (-1, k) ∨
    ∃ e, k.unlink pid path allowed = (0, k.withFs (k.fs.remove e)) := by
  unfold Kernel.unlink
  dsimp only
  split
  · exact Or.inl rfl
  · split
    · exact Or.inl rfl
    · exact Or.inr ⟨_, rfl⟩

/-- The content of an existing entry's file after an `open`. -/
theorem openEntry_content {fs fs' : FileSystem} {host : Host} {uid : Uid} {e : Entry}
    {flags mode : Nat} {ino i : Ino} (h : fs.openEntry host uid e flags mode = some (ino, fs'))
    (hdir : fs.dir e = some i) :
    (fs'.inodes i).content.1 =
      if hasFlag flags oTrunc then [] else (fs.inodes i).content.1 := by
  simp only [FileSystem.openEntry, hdir] at h
  split at h
  · cases h
  split at h
  · obtain ⟨rfl, rfl⟩ := Prod.mk.inj (Option.some.inj h)
    split <;> simp [FileSystem.setContent]
  · cases h

/-- The other files are left alone. -/
theorem openEntry_inodes_of_ne {fs fs' : FileSystem} {host : Host} {uid : Uid} {e : Entry}
    {flags mode : Nat} {ino i : Ino} (h : fs.openEntry host uid e flags mode = some (ino, fs'))
    (hi : i ≠ ino) : fs'.inodes i = fs.inodes i := by
  cases hdir : fs.dir e with
  | none =>
    obtain ⟨-, rfl, rfl⟩ := openEntry_created h hdir
    exact Function.update_of_ne hi ..
  | some j =>
    simp only [FileSystem.openEntry, hdir] at h
    split at h
    · cases h
    split at h
    · obtain ⟨rfl, rfl⟩ := Prod.mk.inj (Option.some.inj h)
      split
      · exact Function.update_of_ne hi ..
      · rfl
    · cases h

/-- **Everything an `open64` can do**: fail without effect, or bind the lowest free number to
the file of the entry. -/
theorem open64_cases (k : Kernel) (pid : Pid) (path : PathStr) (flags mode : Nat) :
    k.open64 pid path flags mode = (-1, k) ∨
    ∃ fd ino fs, k.lowestFree pid = some fd ∧
      k.fs.openEntry k.host (k.host.uid pid) (k.host.walk (absolute (k.host.cwd pid) path))
        flags mode = some (ino, fs) ∧
      k.open64 pid path flags mode =
        (fd, (k.withFs fs).setFd pid fd
          (some ⟨ino, flags, 0, some (absolute (k.host.cwd pid) path)⟩)) := by
  unfold Kernel.open64
  by_cases hpath : path.isEmpty = true
  · exact Or.inl (if_pos hpath)
  · rw [if_neg hpath]
    dsimp only
    cases hfd : k.lowestFree pid with
    | none => exact Or.inl rfl
    | some fd =>
      cases he : k.fs.openEntry k.host (k.host.uid pid)
          (k.host.walk (absolute (k.host.cwd pid) path)) flags mode with
      | none => exact Or.inl rfl
      | some r => exact Or.inr ⟨fd, r.1, r.2, rfl, rfl, rfl⟩

/-- Opening an existing file by its absolute path: only the descriptor table and the file's
permissions decide. -/
theorem open64_existing {k : Kernel} (pid : Pid) {path : PathStr} {flags : Nat} (mode : Nat)
    {ino : Ino}
    (hpath : path.head? = some '/') (hdir : k.fs.dir (k.host.walk path) = some ino)
    (htrunc : hasFlag flags oTrunc = false) (hexcl : hasFlag flags oExcl = false) :
    k.open64 pid path flags mode =
      match k.lowestFree pid with
      | none => (-1, k)
      | some fd =>
        if ((k.fs.inodes ino).perm (k.host.uid pid)).permits flags then
          (fd, k.setFd pid fd (some ⟨ino, flags, 0, some path⟩))
        else (-1, k) := by
  -- a path that starts with a slash is not the empty one, which fails
  have hnonempty : path.isEmpty = false := by
    cases path with
    | nil => cases hpath
    | cons => rfl
  simp only [Kernel.open64, hnonempty, Bool.false_eq_true, if_false, absolute_of_head hpath,
    openEntry_existing hdir htrunc hexcl]
  cases k.lowestFree pid with
  | none => rfl
  | some fd =>
    cases ((k.fs.inodes ino).perm (k.host.uid pid)).permits flags with
    | false => rfl
    | true => rfl

@[simp] theorem open64_host (k : Kernel) (pid : Pid) (path : PathStr) (flags mode : Nat) :
    (k.open64 pid path flags mode).2.host = k.host := by
  rcases open64_cases k pid path flags mode with h | ⟨fd, ino, fs, _, _, h⟩
  · rw [h]
  · rw [h]
    rfl

theorem open64_fds_ne (k : Kernel) (pid : Pid) (path : PathStr) (flags mode : Nat) {pid' : Pid}
    (h : pid' ≠ pid) : (k.open64 pid path flags mode).2.fds pid' = k.fds pid' := by
  rcases open64_cases k pid path flags mode with ho | ⟨fd, ino, fs, _, _, ho⟩
  · rw [ho]
  · rw [ho]
    exact setFd_fds_of_pid_ne _ _ _ _ h

/-! ## Calls on a descriptor

Each call first gets one lemma that says everything it can do; what it leaves alone follows
from that. -/

theorem lseek64_cases (k : Kernel) (pid : Pid) (fd off : Int) (w : Whence) :
    k.lseek64 pid fd off w = (-1, k) ∨
    ∃ f : OpenFile, ∃ pos : Nat, k.fds pid fd = some f ∧ pos ≤ maxSigned64 ∧
      (pos : Int) = seekTarget f.offset (k.fs.inodes f.ino).content.1.length off w ∧
      k.lseek64 pid fd off w = ((pos : Int), k.setFd pid fd (some { f with offset := pos })) := by
  unfold Kernel.lseek64
  cases hf : k.fds pid fd with
  | none => exact Or.inl rfl
  | some f =>
    dsimp only
    split
    next h =>
      have hpos := Int.toNat_of_nonneg h.1
      refine Or.inr ⟨f, _, rfl, ?_, hpos, ?_⟩
      · omega
      · rw [hpos]
    next => exact Or.inl rfl

theorem read_cases (k : Kernel) (pid : Pid) (fd : Int) (count : Nat) (t : Transfer) :
    k.read pid fd count t = (-1, [], k) ∨
    ∃ f : OpenFile, ∃ n : Nat, k.fds pid fd = some f ∧ isReadable f.flags = true ∧
      t.amount (readAt (k.fs.inodes f.ino).content.1 f.offset count).length = some n ∧
      k.read pid fd count t =
        ((n : Int), (readAt (k.fs.inodes f.ino).content.1 f.offset count).take n,
          k.setFd pid fd (some { f with offset := f.offset + n })) := by
  unfold Kernel.read
  cases hf : k.fds pid fd with
  | none => exact Or.inl rfl
  | some f =>
    dsimp only
    by_cases hr : isReadable f.flags = true
    · rw [if_pos hr]
      cases hn : t.amount (readAt (k.fs.inodes f.ino).content.1 f.offset count).length with
      | none => exact Or.inl rfl
      | some n => exact Or.inr ⟨f, n, rfl, hr, hn, rfl⟩
    · exact Or.inl (if_neg hr)

theorem write_cases (k : Kernel) (pid : Pid) (fd : Int) (d : List Byte) (t : Transfer) :
    k.write pid fd d t = (-1, k) ∨
    ∃ f : OpenFile, ∃ n : Nat, k.fds pid fd = some f ∧ isWritable f.flags = true ∧
      t.amount (min d.length (maxSigned64 - k.writePos f)) = some n ∧
      k.write pid fd d t =
        ((n : Int), (k.withFs (k.fs.setContent f.ino
            ((k.fs.inodes f.ino).content.write (k.writePos f) (d.take n)))).setFd pid fd
          (some { f with offset := k.writePos f + n })) := by
  unfold Kernel.write
  cases hf : k.fds pid fd with
  | none => exact Or.inl rfl
  | some f =>
    dsimp only
    -- the guard refuses a descriptor that is not writable and a file without room
    by_cases hg : (!isWritable f.flags || (maxSigned64 - k.writePos f == 0 && !d.isEmpty)) = true
    · exact Or.inl (if_pos hg)
    · rw [if_neg hg]
      have hw : isWritable f.flags = true := by
        cases hflag : isWritable f.flags with
        | false => simp [hflag] at hg
        | true => rfl
      cases hn : t.amount (min d.length (maxSigned64 - k.writePos f)) with
      | none => exact Or.inl rfl
      | some n => exact Or.inr ⟨f, n, rfl, hw, hn, rfl⟩

section Frame

variable (k : Kernel) (pid : Pid) (fd : Int)

@[simp] theorem lseek64_host (off : Int) (w : Whence) :
    (k.lseek64 pid fd off w).2.host = k.host := by
  rcases lseek64_cases k pid fd off w with h | ⟨_, _, _, _, _, h⟩
  · rw [h]
  · rw [h]
    rfl

@[simp] theorem lseek64_fs (off : Int) (w : Whence) : (k.lseek64 pid fd off w).2.fs = k.fs := by
  rcases lseek64_cases k pid fd off w with h | ⟨_, _, _, _, _, h⟩
  · rw [h]
  · rw [h]
    rfl

theorem lseek64_fds_ne (off : Int) (w : Whence) {pid' : Pid} (hne : pid' ≠ pid) :
    (k.lseek64 pid fd off w).2.fds pid' = k.fds pid' := by
  rcases lseek64_cases k pid fd off w with h | ⟨_, _, _, _, _, h⟩
  · rw [h]
  · rw [h]
    exact setFd_fds_of_pid_ne _ _ _ _ hne

@[simp] theorem read_host (n : Nat) (t : Transfer) :
    (k.read pid fd n t).2.2.host = k.host := by
  rcases read_cases k pid fd n t with h | ⟨_, _, _, _, _, h⟩
  · rw [h]
  · rw [h]
    rfl

@[simp] theorem read_fs (n : Nat) (t : Transfer) : (k.read pid fd n t).2.2.fs = k.fs := by
  rcases read_cases k pid fd n t with h | ⟨_, _, _, _, _, h⟩
  · rw [h]
  · rw [h]
    rfl

theorem read_fds_ne (n : Nat) (t : Transfer) {pid' : Pid} (hne : pid' ≠ pid) :
    (k.read pid fd n t).2.2.fds pid' = k.fds pid' := by
  rcases read_cases k pid fd n t with h | ⟨_, _, _, _, _, h⟩
  · rw [h]
  · rw [h]
    exact setFd_fds_of_pid_ne _ _ _ _ hne

@[simp] theorem write_host (d : List Byte) (t : Transfer) :
    (k.write pid fd d t).2.host = k.host := by
  rcases write_cases k pid fd d t with h | ⟨_, _, _, _, _, h⟩
  · rw [h]
  · rw [h]
    rfl

/-- A write changes no directory entry. -/
@[simp] theorem write_dir (d : List Byte) (t : Transfer) :
    (k.write pid fd d t).2.fs.dir = k.fs.dir := by
  rcases write_cases k pid fd d t with h | ⟨_, _, _, _, _, h⟩
  · rw [h]
  · rw [h]
    rfl

theorem write_fds_ne (d : List Byte) (t : Transfer) {pid' : Pid} (hne : pid' ≠ pid) :
    (k.write pid fd d t).2.fds pid' = k.fds pid' := by
  rcases write_cases k pid fd d t with h | ⟨_, _, _, _, _, h⟩
  · rw [h]
  · rw [h]
    exact setFd_fds_of_pid_ne _ _ _ _ hne

end Frame

/-! ### Descriptor numbers -/

/-- No process has a negative descriptor. -/
structure Kernel.NonnegFds (k : Kernel) : Prop where
  negative : ∀ pid fd, fd < 0 → k.fds pid fd = none

section NonnegFds

variable {k : Kernel} (h : k.NonnegFds) {pid : Pid} {fd : Int}

include h

theorem Kernel.NonnegFds.nonneg {f : OpenFile} (hf : k.fds pid fd = some f) : 0 ≤ fd := by
  by_contra hneg
  rw [h.negative pid fd (not_le.mp hneg)] at hf
  cases hf

theorem Kernel.NonnegFds.setFd (hfd : 0 ≤ fd) (f : Option OpenFile) :
    (k.setFd pid fd f).NonnegFds where
  negative := by
    intro pid' fd' hneg
    by_cases hp : pid' = pid
    · subst hp
      rw [setFd_fds_of_ne _ _ _ _ (by omega)]
      exact h.negative pid' fd' hneg
    · rw [setFd_fds_of_pid_ne _ _ _ _ hp]
      exact h.negative pid' fd' hneg

theorem Kernel.NonnegFds.withFs (fs : FileSystem) : (k.withFs fs).NonnegFds := ⟨h.negative⟩

theorem Kernel.NonnegFds.open64 (path : PathStr) (flags mode : Nat) :
    (k.open64 pid path flags mode).2.NonnegFds := by
  rcases open64_cases k pid path flags mode with ho | ⟨fd, ino, fs, hfree, -, ho⟩
  · rw [ho]
    exact h
  · rw [ho]
    exact (h.withFs fs).setFd (lowestFree_spec hfree).1 _

theorem Kernel.NonnegFds.lseek64 (off : Int) (w : Whence) :
    (k.lseek64 pid fd off w).2.NonnegFds := by
  rcases lseek64_cases k pid fd off w with hl | ⟨f, pos, hf, -, -, hl⟩
  · rw [hl]
    exact h
  · rw [hl]
    exact h.setFd (h.nonneg hf) _

theorem Kernel.NonnegFds.read (n : Nat) (t : Transfer) :
    (k.read pid fd n t).2.2.NonnegFds := by
  rcases read_cases k pid fd n t with hr | ⟨f, m, hf, -, -, hr⟩
  · rw [hr]
    exact h
  · rw [hr]
    exact h.setFd (h.nonneg hf) _

theorem Kernel.NonnegFds.write (d : List Byte) (t : Transfer) :
    (k.write pid fd d t).2.NonnegFds := by
  rcases write_cases k pid fd d t with hw | ⟨f, n, hf, -, -, hw⟩
  · rw [hw]
    exact h
  · rw [hw]
    exact (h.withFs _).setFd (h.nonneg hf) _

theorem Kernel.NonnegFds.close : (k.close pid fd).2.NonnegFds := by
  unfold Kernel.close
  cases hf : k.fds pid fd with
  | none => exact h
  | some f => exact h.setFd (h.nonneg hf) _

end NonnegFds

section OnDescriptor

variable {k : Kernel} {pid : Pid} {fd : Int} {f : OpenFile}

theorem lseek64_of_file (h : k.fds pid fd = some f) (off : Int) (w : Whence) {pos : Nat}
    (hpos : (pos : Int) = seekTarget f.offset (k.fs.inodes f.ino).content.1.length off w)
    (hmax : pos ≤ maxSigned64) :
    k.lseek64 pid fd off w = ((pos : Int), k.setFd pid fd (some { f with offset := pos })) := by
  have hrange : (0 : Int) ≤ pos ∧ (pos : Int) ≤ maxSigned64 := by omega
  simp only [Kernel.lseek64, h, ← hpos, hrange, and_self, if_true, Int.toNat_natCast]

theorem read_full_of_file (h : k.fds pid fd = some f) (hr : isReadable f.flags = true)
    {n : Nat} {bytes : List Byte}
    (hbytes : readAt (k.fs.inodes f.ino).content.1 f.offset n = bytes) :
    k.read pid fd n .full =
      ((bytes.length : Int), bytes,
        k.setFd pid fd (some { f with offset := f.offset + bytes.length })) := by
  simp only [Kernel.read, h, hr, hbytes, if_true, Transfer.amount_full, List.take_length]

theorem writePos_of_not_append (k : Kernel) (happ : hasFlag f.flags oAppend = false) :
    k.writePos f = f.offset := by
  simp [Kernel.writePos, happ]

/-- A complete write on a writable descriptor that stays below the largest offset. -/
theorem write_full_of_file (h : k.fds pid fd = some f) (hw : isWritable f.flags = true)
    (happ : hasFlag f.flags oAppend = false) {d : List Byte}
    (hroom : d = [] ∨ f.offset + d.length ≤ maxSigned64) :
    k.write pid fd d .full =
      ((d.length : Int), (k.withFs (k.fs.setContent f.ino
          ((k.fs.inodes f.ino).content.write f.offset d))).setFd pid fd
        (some { f with offset := f.offset + d.length })) := by
  have hguard : (maxSigned64 - f.offset == 0 && !d.isEmpty) = false := by
    cases d with
    | nil => simp
    | cons b bs =>
      have hne : maxSigned64 - f.offset ≠ 0 := by
        simp only [reduceCtorEq, List.length_cons, false_or] at hroom
        omega
      simp [hne]
  have hmin : min d.length (maxSigned64 - f.offset) = d.length := by
    rcases hroom with rfl | hroom
    · simp
    · omega
  simp only [Kernel.write, h, writePos_of_not_append k happ, hw, hguard, Bool.not_true,
    Bool.or_self, Bool.false_eq_true, if_false, hmin, Transfer.amount_full, List.take_length]

/-- A write that returns the number of bytes it was asked for placed them at the offset. -/
theorem write_complete (h : k.fds pid fd = some f) (happ : hasFlag f.flags oAppend = false)
    {d : List Byte} {t : Transfer} (hcount : (k.write pid fd d t).1 = d.length) :
    (d = [] ∨ f.offset + d.length ≤ maxSigned64) ∧
    (k.write pid fd d t).2 = (k.withFs (k.fs.setContent f.ino
        ((k.fs.inodes f.ino).content.write f.offset d))).setFd pid fd
      (some { f with offset := f.offset + d.length }) := by
  rcases write_cases k pid fd d t with hw | ⟨f', n, hf', -, hn, hw⟩
  · -- -1 is not the length of anything
    rw [hw] at hcount
    dsimp only at hcount
    omega
  · rw [h] at hf'
    obtain rfl := Option.some.inj hf'
    rw [hw] at hcount ⊢
    rw [writePos_of_not_append k happ] at hn ⊢
    obtain rfl : n = d.length := Int.ofNat.inj hcount
    have hle := Transfer.amount_le hn
    rw [List.take_length]
    refine ⟨?_, rfl⟩
    rcases eq_or_ne d [] with hd | hd
    · exact Or.inl hd
    · have := List.length_pos_iff.mpr hd
      exact Or.inr (by omega)

/-- A write returns the number of bytes it was asked for if and only if the environment lets
that many through and there is room for them. -/
theorem write_count_iff (h : k.fds pid fd = some f) (hw : isWritable f.flags = true)
    (d : List Byte) (t : Transfer) :
    (k.write pid fd d t).1 = d.length ↔
      t.amount (min d.length (maxSigned64 - k.writePos f)) = some d.length := by
  constructor
  · intro hcount
    rcases write_cases k pid fd d t with hfail | ⟨f', n, hf', -, hn, hok⟩
    · rw [hfail] at hcount
      dsimp only at hcount
      omega
    · rw [h] at hf'
      obtain rfl := Option.some.inj hf'
      rw [hok] at hcount
      obtain rfl : n = d.length := Int.ofNat.inj hcount
      exact hn
  · intro hamount
    have hle := Transfer.amount_le hamount
    -- no room is left only for no bytes
    have hguard : (maxSigned64 - k.writePos f == 0 && !d.isEmpty) = false := by
      cases d with
      | nil => simp
      | cons b bs =>
        have hne : maxSigned64 - k.writePos f ≠ 0 := by
          rw [List.length_cons] at hle
          omega
        simp [hne]
    simp only [Kernel.write, h, hw, hguard, Bool.not_true, Bool.or_self, Bool.false_eq_true,
      if_false, hamount]

theorem close_of_file (h : k.fds pid fd = some f) :
    k.close pid fd = (0, k.setFd pid fd none) := by
  simp only [Kernel.close, h]

/-- What a write does to the state, whatever the environment makes of it: the bytes that move
are placed at the offset, which moves behind them. -/
theorem write_kernel (h : k.fds pid fd = some f) (hw : isWritable f.flags = true)
    (happ : hasFlag f.flags oAppend = false) (d : List Byte) (t : Transfer) :
    (k.write pid fd d t).2 =
      (k.withFs (k.fs.setContent f.ino ((k.fs.inodes f.ino).content.write f.offset
        (d.take (t.moved (min d.length (maxSigned64 - f.offset))))))).setFd pid fd
          (some { f with
            offset := f.offset + t.moved (min d.length (maxSigned64 - f.offset)) }) := by
  have hself : k.setFd pid fd (some f) = k := by
    rw [← h]
    exact setFd_self k pid fd
  unfold Kernel.write
  rw [h]
  dsimp only
  rw [writePos_of_not_append k happ]
  by_cases hroom : maxSigned64 - f.offset = 0
  · -- no byte fits, so none moves, also where the call does not fail
    have hmoved : t.moved (min d.length (maxSigned64 - f.offset)) = 0 := by
      have hle := t.moved_le (min d.length (maxSigned64 - f.offset))
      omega
    have hnone : ∀ n, t.amount (min d.length (maxSigned64 - f.offset)) = some n → n = 0 := by
      intro n hn
      have hle := Transfer.amount_le hn
      omega
    rw [hmoved, List.take_zero, Content.write_nil, setContent_self, withFs_self, Nat.add_zero,
      hself]
    split
    · rfl
    · cases hn : t.amount (min d.length (maxSigned64 - f.offset)) with
      | none => rfl
      | some n =>
        obtain rfl := hnone n hn
        simp [hself]
  · have hguard : (maxSigned64 - f.offset == 0 && !d.isEmpty) = false := by simp [hroom]
    simp only [hw, hguard, Bool.not_true, Bool.or_self, Bool.false_eq_true, if_false]
    unfold Transfer.moved
    cases hn : t.amount (min d.length (maxSigned64 - f.offset)) with
    | none => simp [hself]
    | some n => rfl

/-- What a read obtains and does to the state, whatever the environment makes of it. -/
theorem read_kernel (h : k.fds pid fd = some f) (hr : isReadable f.flags = true) (n : Nat)
    (t : Transfer) :
    (k.read pid fd n t).2 =
      ((readAt (k.fs.inodes f.ino).content.1 f.offset n).take
          (t.moved (readAt (k.fs.inodes f.ino).content.1 f.offset n).length),
        k.setFd pid fd (some { f with
          offset := f.offset +
            t.moved (readAt (k.fs.inodes f.ino).content.1 f.offset n).length })) := by
  have hself : k.setFd pid fd (some f) = k := by
    rw [← h]
    exact setFd_self k pid fd
  unfold Kernel.read Transfer.moved
  rw [h]
  dsimp only
  rw [if_pos hr]
  cases t.amount (readAt (k.fs.inodes f.ino).content.1 f.offset n).length with
  | none => simp [hself]
  | some m => rfl

end OnDescriptor

/-! ## Locality

A call on a descriptor looks at nothing but the files and that descriptor, so it does the
same to two kernels that agree on them. -/

section Local

variable {k k' : Kernel} {pid : Pid} {fd : Int}

/-- Both kernels get the same files, with the directory of `k`, and bind `fd` to the same
description. -/
def SameUpdate (k k' : Kernel) (pid : Pid) (fd : Int) (r r' : Kernel) : Prop :=
  ∃ fs f, fs.dir = k.fs.dir ∧ r = (k.withFs fs).setFd pid fd f ∧ r' = (k'.withFs fs).setFd pid fd f

theorem sameUpdate_setFd (hfs : k.fs = k'.fs) (f : Option OpenFile) :
    SameUpdate k k' pid fd (k.setFd pid fd f) (k'.setFd pid fd f) := by
  refine ⟨k.fs, f, rfl, rfl, ?_⟩
  rw [hfs, withFs_self]

theorem sameUpdate_self (hfs : k.fs = k'.fs) (hfd : k.fds pid fd = k'.fds pid fd) :
    SameUpdate k k' pid fd k k' := by
  have h : SameUpdate k k' pid fd _ _ := sameUpdate_setFd hfs (k.fds pid fd)
  rwa [setFd_self, hfd, setFd_self] at h

theorem lseek64_local (hfs : k.fs = k'.fs) (hfd : k.fds pid fd = k'.fds pid fd) (off : Int)
    (w : Whence) :
    (k.lseek64 pid fd off w).1 = (k'.lseek64 pid fd off w).1 ∧
    SameUpdate k k' pid fd (k.lseek64 pid fd off w).2 (k'.lseek64 pid fd off w).2 := by
  unfold Kernel.lseek64
  rw [← hfs, ← hfd]
  split
  next => exact ⟨rfl, sameUpdate_self hfs hfd⟩
  next f _ =>
    dsimp only
    split
    · exact ⟨rfl, sameUpdate_setFd hfs _⟩
    · exact ⟨rfl, sameUpdate_self hfs hfd⟩

theorem read_local (hfs : k.fs = k'.fs) (hfd : k.fds pid fd = k'.fds pid fd) (n : Nat)
    (t : Transfer) :
    (k.read pid fd n t).1 = (k'.read pid fd n t).1 ∧
    (k.read pid fd n t).2.1 = (k'.read pid fd n t).2.1 ∧
    SameUpdate k k' pid fd (k.read pid fd n t).2.2 (k'.read pid fd n t).2.2 := by
  unfold Kernel.read
  rw [← hfs, ← hfd]
  split
  next => exact ⟨rfl, rfl, sameUpdate_self hfs hfd⟩
  next f _ =>
    dsimp only
    split
    · split
      · exact ⟨rfl, rfl, sameUpdate_self hfs hfd⟩
      · exact ⟨rfl, rfl, sameUpdate_setFd hfs _⟩
    · exact ⟨rfl, rfl, sameUpdate_self hfs hfd⟩

theorem write_local (hfs : k.fs = k'.fs) (hfd : k.fds pid fd = k'.fds pid fd) (d : List Byte)
    (t : Transfer) :
    (k.write pid fd d t).1 = (k'.write pid fd d t).1 ∧
    SameUpdate k k' pid fd (k.write pid fd d t).2 (k'.write pid fd d t).2 := by
  -- with `O_APPEND` the position comes from the file, which both kernels hold
  have hpos : ∀ f, k'.writePos f = k.writePos f := fun f => by
    unfold Kernel.writePos
    rw [hfs]
  unfold Kernel.write
  rw [← hfs, ← hfd]
  split
  next => exact ⟨rfl, sameUpdate_self hfs hfd⟩
  next f _ =>
    rw [hpos f]
    dsimp only
    split
    · exact ⟨rfl, sameUpdate_self hfs hfd⟩
    · split
      · exact ⟨rfl, sameUpdate_self hfs hfd⟩
      next n _ =>
        exact ⟨rfl, k.fs.setContent f.ino ((k.fs.inodes f.ino).content.write _ (d.take n)), _,
          rfl, rfl, rfl⟩

theorem close_local (hfs : k.fs = k'.fs) (hfd : k.fds pid fd = k'.fds pid fd) :
    (k.close pid fd).1 = (k'.close pid fd).1 ∧
    SameUpdate k k' pid fd (k.close pid fd).2 (k'.close pid fd).2 := by
  unfold Kernel.close
  rw [← hfd]
  split
  · exact ⟨rfl, sameUpdate_self hfs hfd⟩
  · exact ⟨rfl, sameUpdate_setFd hfs _⟩

end Local

end DTIO.Posix
