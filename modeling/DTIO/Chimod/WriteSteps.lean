import DTIO.Chimod.Server

/-!
# Server::Write, One System Call at a Time

Containers run their tasks at the same time, so the three system calls of one `Write` come
between those of others.  Here the `kPosix` case of `Server::Write` is broken into its calls.

## Main results

- `Server.nextWrite_alone`: the three calls without interruption are `Server.writePosix`
- `Server.nextWrite_open`, `Server.nextWrite_seek`, `Server.nextWrite_write`: what each call
  does when it succeeds
-/

namespace DTIO.Chimod

open DTIO.Posix DTIO.ByteFile DTIO.MachineInt

/-- Where a `Write` stands between two of its system calls. -/
inductive WriteAt where
  | start
  /-- `open64` returned `fd`. -/
  | opened (fd : Int)
  /-- `lseek64` returned `pos`. -/
  | sought (fd pos : Int)
  | done (calls : Calls)
  deriving DecidableEq, Repr

/-- The descriptor a `Write` is going to use. -/
def WriteAt.fd? : WriteAt → Option Int
  | .opened fd | .sought fd _ => some fd
  | .start | .done _ => none

/-- The last system call succeeded, in full if it was the `write` of `size` bytes. -/
def WriteAt.Succeeded (size : Nat) : WriteAt → Prop
  | .start => True
  | .opened fd => 0 ≤ fd
  | .sought _ pos => 0 ≤ pos
  | .done calls => calls.count = size

instance (size : Nat) (a : WriteAt) : Decidable (a.Succeeded size) :=
  match a with
  | .start => inferInstanceAs (Decidable True)
  | .opened fd => inferInstanceAs (Decidable (0 ≤ fd))
  | .sought _ pos => inferInstanceAs (Decidable (0 ≤ pos))
  | .done calls => inferInstanceAs (Decidable (calls.count = size))

/-- The bytes a `Write` is to write. -/
def IoTask.payload (task : IoTask) : List Byte := task.data.take task.dataSize

/-- The flags both methods open with. -/
def serverFlags : Nat := oRdwr ||| oCreat

/-- The next system call of `Server::Write` in container `c`. -/
def Server.nextWrite (c : Nat) (task : WriteTask) (fault : Fault) (k : Kernel) :
    WriteAt → Kernel × WriteAt
  | .start =>
    let r := if fault.openFails then (-1, k)
      else k.open64 (pidOf c) (stripScheme task.filename) serverFlags 0o664
    (r.2, .opened r.1)
  | .opened fd =>
    let r := if fault.lseekFails then (-1, k)
      else k.lseek64 (pidOf c) fd (toSigned64 task.dataOffset) .set
    (r.2, .sought fd r.1)
  | .sought fd pos =>
    let r := k.write (pidOf c) fd task.payload fault.transfer
    (r.2, .done ⟨fd, pos, r.1⟩)
  | .done calls => (k, .done calls)

/-- **Without interruption** the three calls are the method. -/
theorem Server.nextWrite_alone (c : Nat) (task : WriteTask) (env : Env) (w : World) :
    (fun r : Kernel × WriteAt => nextWrite c task env.fault r.1 r.2)^[3] (w.kernel, .start) =
      ((writePosix c task env w).world.kernel, .done (writePosix c task env w).calls) := rfl

/-! ## What a successful call does -/

section

variable {c : Nat} {task : WriteTask} {fault : Fault} {k : Kernel} {fd pos : Int} {f : OpenFile}

/-- The directory entry the task's name leads the container to. -/
def entryFor (k : Kernel) (c : Nat) (task : WriteTask) : Entry :=
  k.host.walk (absolute (k.host.cwd (pidOf c)) (stripScheme task.filename))

theorem entryFor_congr {k' : Kernel} (h : k'.host = k.host) (c : Nat) (task : WriteTask) :
    entryFor k' c task = entryFor k c task := by
  simp [entryFor, h]

/-- The server finds the file of the entry or creates an empty one. -/
theorem openEntry_serverFlags {fs fs' : FileSystem} {host : Host} {uid : Uid} {e : Entry}
    {mode : Nat} {ino : Ino} (h : fs.openEntry host uid e serverFlags mode = some (ino, fs')) :
    fs.dir e = some ino ∧ fs' = fs ∨
    fs.dir e = none ∧ ino = fs.nextIno ∧ ∃ perm, fs' = fs.create e perm := by
  cases hdir : fs.dir e with
  | none =>
    -- `O_CREAT` makes the file if the process may
    right
    simp only [FileSystem.openEntry, hdir] at h
    split at h
    · obtain ⟨rfl, rfl⟩ := Prod.mk.inj (Option.some.inj h)
      exact ⟨rfl, rfl, _, rfl⟩
    · cases h
  | some i =>
    -- neither `O_TRUNC` nor `O_EXCL`
    left
    rw [openEntry_existing hdir (by decide) (by decide)] at h
    split at h
    · obtain ⟨rfl, rfl⟩ := Prod.mk.inj (Option.some.inj h)
      exact ⟨rfl, rfl⟩
    · cases h

theorem Server.nextWrite_open
    (h : (nextWrite c task fault k .start).2.Succeeded task.payload.length) :
    ∃ fd f fs, k.fds (pidOf c) fd = none ∧ f.flags = serverFlags ∧
      k.fs.openEntry k.host (k.host.uid (pidOf c)) (entryFor k c task) serverFlags 0o664 =
        some (f.ino, fs) ∧
      nextWrite c task fault k .start =
        ((k.withFs fs).setFd (pidOf c) fd (some f), .opened fd) := by
  unfold nextWrite at h ⊢
  cases hof : fault.openFails with
  | true => simp [hof, WriteAt.Succeeded] at h
  | false =>
    simp only [hof, Bool.false_eq_true, if_false] at h ⊢
    rcases open64_cases k (pidOf c) (stripScheme task.filename) serverFlags 0o664 with
      ho | ⟨fd, ino, fs, hfree, hentry, ho⟩
    · -- -1 is no success
      rw [ho] at h
      cases h
    · rw [ho]
      exact ⟨fd, ⟨ino, serverFlags, 0, some _⟩, fs, (lowestFree_spec hfree).2, rfl, hentry, rfl⟩

theorem Server.nextWrite_seek (hf : k.fds (pidOf c) fd = some f)
    (hoff : task.dataOffset < 18446744073709551616)
    (h : (nextWrite c task fault k (.opened fd)).2.Succeeded task.payload.length) :
    ∃ pos, nextWrite c task fault k (.opened fd) =
      (k.setFd (pidOf c) fd (some { f with offset := task.dataOffset }), .sought fd pos) := by
  unfold nextWrite at h ⊢
  cases hlf : fault.lseekFails with
  | true => simp [hlf, WriteAt.Succeeded] at h
  | false =>
    simp only [hlf, Bool.false_eq_true, if_false] at h ⊢
    rcases lseek64_cases k (pidOf c) fd (toSigned64 task.dataOffset) .set with
      hl | ⟨f', pos, hf', -, htarget, hl⟩
    · -- nor is it here
      rw [hl] at h
      cases h
    · rw [hf] at hf'
      obtain rfl := Option.some.inj hf'
      -- a position that `lseek64` accepts was not changed by the conversion
      have hpos : toSigned64 task.dataOffset = pos := htarget.symm
      obtain ⟨heq, -⟩ := (toSigned64_eq_natCast_iff hoff).mp hpos
      rw [hl, heq]
      exact ⟨pos, rfl⟩

theorem Server.nextWrite_write (hf : k.fds (pidOf c) fd = some f) (hflags : f.flags = serverFlags)
    (h : (nextWrite c task fault k (.sought fd pos)).2.Succeeded task.payload.length) :
    (task.payload = [] ∨ f.offset + task.payload.length ≤ maxSigned64) ∧
    ∃ f' calls, nextWrite c task fault k (.sought fd pos) =
      ((k.withFs (k.fs.setContent f.ino
        ((k.fs.inodes f.ino).content.write f.offset task.payload))).setFd (pidOf c) fd (some f'),
        .done calls) := by
  have happ : hasFlag f.flags oAppend = false := by
    rw [hflags]
    decide
  obtain ⟨hroom, hw⟩ := write_complete hf happ h
  exact ⟨hroom, _, _, Prod.ext hw rfl⟩

end

end DTIO.Chimod
