import DTIO.Chimod.Client
import DTIO.Chimod.WriteSteps

/-!
# Effects of Server Tasks

What `Write` and `Read` do to the kernel, as one equation for each method and interface.  The
equations hold in every state and for every outcome of the system calls: whether or not the
file exists or may be opened, whether the seek fails, and however many bytes are moved.

## Main definitions

- `opening`: what the server's `open64` obtains
- `seekPos`: where the seek leaves the descriptor

## Main results

- `Server.writePosix_eq`, `Server.writeStdio_eq`: a write, given what was opened
- `Server.readPosix_eq`, `Server.readStdio_eq`: a read
- `Server.writePosix_served`, `Server.readPosix_served`: what they have in common
-/

namespace DTIO.Chimod

open DTIO.Posix DTIO.ByteFile DTIO.MachineInt

/-! ## The open and the seek -/

/-- What an `open64` obtains: the descriptor, the file, and the files after it; nothing if the
environment fails the call, no descriptor is left, or the file may not be opened. -/
def opening (k : Kernel) (pid : Pid) (filepath : PathStr) (flags mode : Nat) (fault : Fault) :
    Option (Int × Ino × FileSystem) :=
  if fault.openFails || filepath.isEmpty then none
  else
    (k.lowestFree pid).bind fun fd =>
      (k.fs.openEntry k.host (k.host.uid pid) (k.host.walk (absolute (k.host.cwd pid) filepath))
        flags mode).map fun r => (fd, r.1, r.2)

/-- Where the descriptor stands after the seek: at the requested offset, or still at 0 if the
offset is not an `off64_t` of at least 0 or the environment fails the call. -/
def seekPos (fault : Fault) (offset : Nat) : Nat :=
  if fault.lseekFails then 0 else (toSigned64 offset).toNat

/-- What was opened was free, the environment did not fail the call, and the entry was opened. -/
theorem opening_some {k : Kernel} {pid : Pid} {filepath : PathStr} {flags mode : Nat}
    {fault : Fault} {fd : Int} {ino : Ino} {fs : FileSystem}
    (h : opening k pid filepath flags mode fault = some (fd, ino, fs)) :
    fault.openFails = false ∧ filepath.isEmpty = false ∧ k.lowestFree pid = some fd ∧
      k.fs.openEntry k.host (k.host.uid pid) (k.host.walk (absolute (k.host.cwd pid) filepath))
        flags mode = some (ino, fs) := by
  unfold opening at h
  split at h
  · cases h
  next hguard =>
    obtain ⟨hfault, hpath⟩ := Bool.or_eq_false_iff.mp (Bool.not_eq_true _ ▸ hguard)
    rw [Option.bind_eq_some_iff] at h
    obtain ⟨fd', hfd, h⟩ := h
    rw [Option.map_eq_some_iff] at h
    obtain ⟨⟨ino', fs'⟩, hentry, heq⟩ := h
    obtain ⟨rfl, rfl, rfl⟩ := heq
    exact ⟨hfault, hpath, hfd, hentry⟩

/-- The number of an opened file is not negative and was not open. -/
theorem opening_fd {k : Kernel} {pid : Pid} {filepath : PathStr} {flags mode : Nat}
    {fault : Fault} {fd : Int} {ino : Ino} {fs : FileSystem}
    (h : opening k pid filepath flags mode fault = some (fd, ino, fs)) :
    0 ≤ fd ∧ k.fds pid fd = none :=
  lowestFree_spec (opening_some h).2.2.1

/-- Without `O_TRUNC`, what was opened holds what the path's entry held, and is empty if the
entry was not bound. -/
theorem opening_content {k : Kernel} {pid : Pid} {filepath : PathStr} {flags mode : Nat}
    {fault : Fault} {o : Int × Ino × FileSystem}
    (h : opening k pid filepath flags mode fault = some o) (hpath : filepath.head? = some '/')
    (htrunc : hasFlag flags oTrunc = false) :
    (o.2.2.inodes o.2.1).content.1 = (k.fs.file (k.host.walk filepath)).getD [] := by
  obtain ⟨-, -, -, hentry⟩ := opening_some h
  rw [absolute_of_head hpath] at hentry
  unfold FileSystem.file
  cases hdir : k.fs.dir (k.host.walk filepath) with
  | none =>
    obtain ⟨-, hino, hfs⟩ := openEntry_created hentry hdir
    rw [hino, hfs]
    simp [FileSystem.create]
  | some ino =>
    have hino := openEntry_bound hentry hdir
    have hcontent := openEntry_content hentry hdir
    rw [htrunc] at hcontent
    rw [hino]
    exact hcontent

/-- The state after a process opened `ino` as `fd` and left it at `pos`. -/
def opened (k : Kernel) (pid : Pid) (filepath : PathStr) (flags pos : Nat)
    (o : Int × Ino × FileSystem) : Kernel :=
  (k.withFs o.2.2).setFd pid o.1
    (some ⟨o.2.1, flags, pos, some (absolute (k.host.cwd pid) filepath)⟩)

/-- An `open64` that the environment does not fail. -/
theorem open64_opening (k : Kernel) (pid : Pid) (filepath : PathStr) (flags mode : Nat)
    {fault : Fault} (hfault : fault.openFails = false) :
    k.open64 pid filepath flags mode =
      match opening k pid filepath flags mode fault with
      | none => (-1, k)
      | some o => (o.1, opened k pid filepath flags 0 o) := by
  unfold opening Kernel.open64
  rw [hfault, Bool.false_or]
  split
  · rfl
  · dsimp only
    cases k.lowestFree pid with
    | none => rfl
    | some fd =>
      cases k.fs.openEntry k.host (k.host.uid pid)
          (k.host.walk (absolute (k.host.cwd pid) filepath)) flags mode with
      | none => rfl
      | some r => rfl

/-- The seek moves the descriptor that was just opened to where `seekPos` says. -/
theorem opened_lseek64 (k : Kernel) (pid : Pid) (filepath : PathStr) (flags offset : Nat)
    {fault : Fault} (hfault : fault.lseekFails = false) (o : Int × Ino × FileSystem) :
    (opened k pid filepath flags 0 o).lseek64 pid o.1 (toSigned64 offset) .set =
      (if toSigned64 offset < 0 then -1 else toSigned64 offset,
        opened k pid filepath flags (seekPos fault offset) o) := by
  have hmax := toSigned64_lt offset
  unfold Kernel.lseek64 opened seekPos
  rw [setFd_fds_self, hfault]
  simp only [seekTarget, Bool.false_eq_true, if_false, setFd_setFd]
  rcases lt_or_ge (toSigned64 offset) 0 with hlt | hge
  · -- the kernel rejects a negative position and leaves the descriptor at 0
    have hfail : ¬ (0 ≤ toSigned64 offset ∧ toSigned64 offset ≤ maxSigned64) := by omega
    rw [if_neg hfail, if_pos hlt, Int.toNat_of_nonpos hlt.le]
  · rw [if_pos ⟨hge, hmax⟩, if_neg (not_lt.mpr hge)]

/-- **The open and the seek**: nothing happens, or the process has one more descriptor. -/
theorem openAndSeek_eq {k : Kernel} (hneg : k.NonnegFds) (pid : Pid) (filepath : PathStr)
    (flags mode offset : Nat) (fault : Fault) :
    openAndSeek k pid filepath flags mode offset fault =
      match opening k pid filepath flags mode fault with
      | none => ⟨-1, -1, k⟩
      | some o =>
        ⟨o.1, if fault.lseekFails || decide (toSigned64 offset < 0) then -1
            else toSigned64 offset,
          opened k pid filepath flags (seekPos fault offset) o⟩ := by
  -- after a failed open the seek is made on -1, which no process has open
  have hclosed : (if fault.lseekFails then ((-1 : Int), k)
      else k.lseek64 pid (-1) (toSigned64 offset) .set) = (-1, k) := by
    simp [Kernel.lseek64, hneg.negative pid (-1)]
  unfold openAndSeek
  cases hfault : fault.openFails with
  | true =>
    have hnone : opening k pid filepath flags mode fault = none := by simp [opening, hfault]
    simp [hnone, hclosed]
  | false =>
    rw [open64_opening k pid filepath flags mode hfault]
    simp only [Bool.false_eq_true, if_false]
    cases opening k pid filepath flags mode fault with
    | none => simp [hclosed]
    | some o =>
      cases hseek : fault.lseekFails with
      | true => simp [seekPos, hseek]
      | false => simp [opened_lseek64 k pid filepath flags offset hseek o]

theorem openAndSeek_of_none {k : Kernel} (hneg : k.NonnegFds) {pid : Pid} {filepath : PathStr}
    {flags mode : Nat} {fault : Fault} (h : opening k pid filepath flags mode fault = none)
    (offset : Nat) : openAndSeek k pid filepath flags mode offset fault = ⟨-1, -1, k⟩ := by
  rw [openAndSeek_eq hneg, h]

theorem openAndSeek_of_some {k : Kernel} (hneg : k.NonnegFds) {pid : Pid} {filepath : PathStr}
    {flags mode : Nat} {fault : Fault} {o : Int × Ino × FileSystem}
    (h : opening k pid filepath flags mode fault = some o) (offset : Nat) :
    openAndSeek k pid filepath flags mode offset fault =
      ⟨o.1, if fault.lseekFails || decide (toSigned64 offset < 0) then -1 else toSigned64 offset,
        opened k pid filepath flags (seekPos fault offset) o⟩ := by
  rw [openAndSeek_eq hneg, h]

/-! ## The transfer -/

/-- The bytes of `data` that a write at `pos` moves. -/
def movedBytes (t : Transfer) (pos : Nat) (data : List Byte) : List Byte :=
  data.take (t.moved (min data.length (maxSigned64 - pos)))

/-- The bytes of the file `ino` that a read of `count` bytes at `pos` moves. -/
def obtainedBytes (t : Transfer) (fs : FileSystem) (ino : Ino) (pos count : Nat) : List Byte :=
  (readAt (fs.inodes ino).content.1 pos count).take
    (t.moved (readAt (fs.inodes ino).content.1 pos count).length)

theorem length_movedBytes (t : Transfer) (pos : Nat) (data : List Byte) :
    (movedBytes t pos data).length = t.moved (min data.length (maxSigned64 - pos)) := by
  have hle := t.moved_le (min data.length (maxSigned64 - pos))
  rw [movedBytes, List.length_take]
  omega

theorem length_obtainedBytes (t : Transfer) (fs : FileSystem) (ino : Ino) (pos count : Nat) :
    (obtainedBytes t fs ino pos count).length =
      t.moved (readAt (fs.inodes ino).content.1 pos count).length := by
  rw [obtainedBytes, List.length_take]
  exact min_eq_left (t.moved_le _)

/-- What was opened, after `bytes` were written to it at `pos`. -/
def written (o : Int × Ino × FileSystem) (pos : Nat) (bytes : List Byte) :
    Int × Ino × FileSystem :=
  (o.1, o.2.1, o.2.2.setContent o.2.1 ((o.2.2.inodes o.2.1).content.write pos bytes))

section

variable (k : Kernel) (pid : Pid) (filepath : PathStr) {flags : Nat} (pos : Nat)
  (o : Int × Ino × FileSystem) (t : Transfer)

theorem opened_write (hw : isWritable flags = true) (happ : hasFlag flags oAppend = false)
    (data : List Byte) :
    ((opened k pid filepath flags pos o).write pid o.1 data t).2 =
      opened k pid filepath flags (pos + (movedBytes t pos data).length)
        (written o pos (movedBytes t pos data)) := by
  have hfile := setFd_fds_self (k.withFs o.2.2) pid o.1
    (some ⟨o.2.1, flags, pos, some (absolute (k.host.cwd pid) filepath)⟩)
  rw [length_movedBytes]
  unfold opened
  rw [write_kernel hfile hw happ]
  simp only [withFs_setFd, setFd_setFd, setFd_fs, withFs_withFs, withFs_fs]
  rfl

theorem opened_read (hr : isReadable flags = true) (count : Nat) :
    ((opened k pid filepath flags pos o).read pid o.1 count t).2 =
      (obtainedBytes t o.2.2 o.2.1 pos count,
        opened k pid filepath flags (pos + (obtainedBytes t o.2.2 o.2.1 pos count).length) o) := by
  have hfile := setFd_fds_self (k.withFs o.2.2) pid o.1
    (some ⟨o.2.1, flags, pos, some (absolute (k.host.cwd pid) filepath)⟩)
  rw [length_obtainedBytes]
  unfold opened
  rw [read_kernel hfile hr]
  simp only [setFd_setFd, setFd_fs, withFs_fs]
  rfl

/-- The value of that read. -/
theorem opened_read_value (hr : isReadable flags = true) (count : Nat) :
    ((opened k pid filepath flags pos o).read pid o.1 count t).1 =
      match t.amount (readAt (o.2.2.inodes o.2.1).content.1 pos count).length with
      | none => -1
      | some n => (n : Int) := by
  have hfile := setFd_fds_self (k.withFs o.2.2) pid o.1
    (some ⟨o.2.1, flags, pos, some (absolute (k.host.cwd pid) filepath)⟩)
  unfold opened Kernel.read
  rw [hfile]
  dsimp only
  rw [if_pos hr, setFd_fs, withFs_fs]
  cases t.amount (readAt (o.2.2.inodes o.2.1).content.1 pos count).length <;> rfl

end

/-! ## The four ways to serve a task -/

/-- The name a task's file is opened by. -/
def IoTask.filepath (task : IoTask) : PathStr := stripScheme task.filename

/-- What the `kPosix` case of either method opens. -/
def Server.openingPosix (c : Nat) (task : IoTask) (env : Env) (w : World) :
    Option (Int × Ino × FileSystem) :=
  opening w.kernel (pidOf c) (stripScheme task.filename) (oRdwr ||| oCreat) 0o664 env.fault

/-- What the `kStdio` case of either method opens. -/
def Server.openingStdio (c : Nat) (task : IoTask) (env : Env) (w : World) :
    Option (Int × Ino × FileSystem) :=
  opening w.kernel (pidOf c) (stripScheme task.filename) oRdwr 0 env.fault

/-- Where the seek of a task leaves the descriptor. -/
def IoTask.pos (task : IoTask) (env : Env) : Nat := seekPos env.fault task.dataOffset

section

variable {w : World} (hneg : w.kernel.NonnegFds) (c : Nat) (task : IoTask) (env : Env)

include hneg

/-- What `-1` is given to has no effect. -/
theorem Server.closed (pid : Pid) (data : List Byte) (count : Nat) (t : Transfer) :
    w.kernel.write pid (-1) data t = (-1, w.kernel) ∧
    w.kernel.read pid (-1) count t = (-1, [], w.kernel) := by
  simp [Kernel.write, Kernel.read, hneg.negative pid (-1)]

theorem Server.writePosix_eq :
    ((Server.writePosix c task env w).calls.fd, (Server.writePosix c task env w).world) =
      match Server.openingPosix c task env w with
      | none => (-1, w)
      | some o =>
        let bytes := movedBytes env.fault.transfer (task.pos env) task.payload
        (o.1, w.withKernel (opened w.kernel (pidOf c) task.filepath serverFlags
          (task.pos env + bytes.length) (written o (task.pos env) bytes))) := by
  unfold Server.writePosix
  cases ho : Server.openingPosix c task env w with
  | none =>
    dsimp only
    rw [openAndSeek_of_none hneg ho]
    exact congrArg (fun r : Int × Kernel => ((-1 : Int), w.withKernel r.2))
      (Server.closed hneg _ task.payload 0 _).1
  | some o =>
    dsimp only
    rw [openAndSeek_of_some hneg ho]
    exact congrArg (fun k : Kernel => (o.1, w.withKernel k))
      (opened_write _ _ _ _ o _ writable_server not_append_server task.payload)

/-- The bytes a `Read` of the `kPosix` case obtains, and the state after it. -/
theorem Server.readPosix_eq :
    ((Server.readPosix c task env w).calls.fd, (Server.readPosix c task env w).task,
        (Server.readPosix c task env w).world) =
      match Server.openingPosix c task env w with
      | none => (-1, task, w)
      | some o =>
        let bytes := obtainedBytes env.fault.transfer o.2.2 o.2.1 (task.pos env) task.dataSize
        (o.1, { task with data := copyTo task.data bytes },
          w.withKernel (opened w.kernel (pidOf c) task.filepath serverFlags
            (task.pos env + bytes.length) o)) := by
  unfold Server.readPosix
  cases ho : Server.openingPosix c task env w with
  | none =>
    -- nothing opened: the read is on descriptor -1 and gets nothing
    dsimp only
    rw [openAndSeek_of_none hneg ho]
    dsimp only
    rw [(Server.closed hneg _ [] _ _).2, copyTo_nil]
    rfl
  | some o =>
    -- opened: the bytes and the kernel are those of `opened_read`
    dsimp only
    rw [openAndSeek_of_some hneg ho]
    exact congrArg (fun r : List Byte × Kernel =>
        (o.1, ({ task with data := copyTo task.data r.1 } : ReadTask), w.withKernel r.2))
      (opened_read _ _ _ _ o _ readable_server task.dataSize)

/-- What the three system calls of the `kPosix` case of `Read` return. -/
theorem Server.readPosix_calls :
    (Server.readPosix c task env w).calls =
      match Server.openingPosix c task env w with
      | none => ⟨-1, -1, -1⟩
      | some o =>
        ⟨o.1, if env.fault.lseekFails || decide (toSigned64 task.dataOffset < 0) then -1
            else toSigned64 task.dataOffset,
          match env.fault.transfer.amount
            (readAt (o.2.2.inodes o.2.1).content.1 (task.pos env) task.dataSize).length with
          | none => -1
          | some n => n⟩ := by
  unfold Server.readPosix
  cases ho : Server.openingPosix c task env w with
  | none =>
    dsimp only
    rw [openAndSeek_of_none hneg ho]
    dsimp only
    rw [(Server.closed hneg _ [] _ _).2]
  | some o =>
    dsimp only
    rw [openAndSeek_of_some hneg ho]
    exact congrArg (Calls.mk _ _) (opened_read_value _ _ _ _ o _ readable_server task.dataSize)

/-- A stream passes the first `flushed` bytes on and keeps the others. -/
theorem Server.writeStdio_eq :
    ((Server.writeStdio c task env w).undefined, (Server.writeStdio c task env w).world) =
      match Server.openingStdio c task env w with
      | none => (true, w)
      | some o =>
        let bytes := movedBytes env.fault.transfer (task.pos env) (task.payload.take env.flushed)
        (false, (w.withKernel (opened w.kernel (pidOf c) task.filepath oRdwr
          (task.pos env + bytes.length) (written o (task.pos env) bytes))).addStream c
            ⟨o.1, task.payload.drop env.flushed⟩) := by
  unfold Server.writeStdio
  cases ho : Server.openingStdio c task env w with
  | none =>
    -- `fopen` failed: the functions after it get a null pointer
    dsimp only
    rw [openAndSeek_of_none hneg ho]
    rfl
  | some o =>
    -- a descriptor that was opened is not negative, so the stream is there
    have hfd : ¬ o.1 < 0 := not_lt.mpr (opening_fd ho).1
    dsimp only
    rw [openAndSeek_of_some hneg ho]
    dsimp only
    rw [if_neg hfd]
    exact congrArg (fun k : Kernel => (false, (w.withKernel k).addStream c
        ⟨o.1, task.payload.drop env.flushed⟩))
      (opened_write _ _ _ _ o _ (by decide) (by decide) (task.payload.take env.flushed))

theorem Server.readStdio_eq :
    ((Server.readStdio c task env w).undefined, (Server.readStdio c task env w).task,
        (Server.readStdio c task env w).world) =
      match Server.openingStdio c task env w with
      | none => (true, task, w)
      | some o =>
        let bytes := obtainedBytes env.fault.transfer o.2.2 o.2.1 (task.pos env) task.dataSize
        (false, { task with data := copyTo task.data bytes },
          (w.withKernel (opened w.kernel (pidOf c) task.filepath oRdwr
            (task.pos env + bytes.length) o)).addStream c ⟨o.1, []⟩) := by
  unfold Server.readStdio
  cases ho : Server.openingStdio c task env w with
  | none =>
    -- `fopen` failed: the functions after it get a null pointer
    dsimp only
    rw [openAndSeek_of_none hneg ho]
    rfl
  | some o =>
    -- a descriptor that was opened is not negative, so the stream is there
    have hfd : ¬ o.1 < 0 := not_lt.mpr (opening_fd ho).1
    dsimp only
    rw [openAndSeek_of_some hneg ho]
    dsimp only
    rw [if_neg hfd]
    exact congrArg (fun r : List Byte × Kernel =>
        (false, ({ task with data := copyTo task.data r.1 } : ReadTask),
          (w.withKernel r.2).addStream c ⟨o.1, []⟩))
      (opened_read _ _ _ _ o _ (by decide) task.dataSize)

end

/-! ## What the tasks have in common -/

/-- A process opened a file and placed `bytes` at `pos` of it, or could not open it and did
nothing.  `fd` is what the open returned and `k'` the kernel afterwards. -/
inductive Served (k : Kernel) (pid : Pid) (filepath : PathStr) (flags mode : Nat) (fault : Fault)
    (pos : Nat) (bytes : List Byte) (fd : Int) (k' : Kernel) : Prop where
  | refused : opening k pid filepath flags mode fault = none → fd = -1 → k' = k →
    Served k pid filepath flags mode fault pos bytes fd k'
  | served (o : Int × Ino × FileSystem) (pos' : Nat) :
    opening k pid filepath flags mode fault = some o → fd = o.1 →
    k' = opened k pid filepath flags pos' (written o pos bytes) →
    Served k pid filepath flags mode fault pos bytes fd k'

/-- A read places nothing. -/
theorem written_nil (o : Int × Ino × FileSystem) (pos : Nat) : written o pos [] = o := by
  simp [written]

section

variable {w : World} (hneg : w.kernel.NonnegFds) (c : Nat) (task : IoTask) (env : Env)

include hneg

theorem Server.writePosix_served :
    Served w.kernel (pidOf c) (stripScheme task.filename) (oRdwr ||| oCreat) 0o664 env.fault
      (task.pos env) (movedBytes env.fault.transfer (task.pos env) task.payload)
      (Server.writePosix c task env w).calls.fd (Server.writePosix c task env w).world.kernel := by
  have heq := Server.writePosix_eq hneg c task env
  cases ho : Server.openingPosix c task env w with
  | none =>
    rw [ho] at heq
    obtain ⟨hfd, hworld⟩ := Prod.mk.inj heq
    exact Served.refused ho hfd (congrArg World.kernel hworld)
  | some o =>
    rw [ho] at heq
    obtain ⟨hfd, hworld⟩ := Prod.mk.inj heq
    exact Served.served o _ ho hfd (congrArg World.kernel hworld)

theorem Server.readPosix_served :
    Served w.kernel (pidOf c) (stripScheme task.filename) (oRdwr ||| oCreat) 0o664 env.fault
      (task.pos env) [] (Server.readPosix c task env w).calls.fd
      (Server.readPosix c task env w).world.kernel := by
  have heq := Server.readPosix_eq hneg c task env
  cases ho : Server.openingPosix c task env w with
  | none =>
    rw [ho] at heq
    obtain ⟨hfd, htask⟩ := Prod.mk.inj heq
    exact Served.refused ho hfd (congrArg World.kernel (Prod.mk.inj htask).2)
  | some o =>
    rw [ho] at heq
    obtain ⟨hfd, htask⟩ := Prod.mk.inj heq
    have hk := congrArg World.kernel (Prod.mk.inj htask).2
    exact Served.served o _ ho hfd (hk.trans (by rw [written_nil]; rfl))

/-- The buffer of a read whose file could be opened begins with the bytes that were there. -/
theorem Server.readPosix_data {o : Int × Ino × FileSystem}
    (ho : Server.openingPosix c task env w = some o) :
    (Server.readPosix c task env w).task.data = copyTo task.data
      (obtainedBytes env.fault.transfer o.2.2 o.2.1 (task.pos env) task.dataSize) := by
  have heq := Server.readPosix_eq hneg c task env
  rw [ho] at heq
  exact congrArg IoTask.data (Prod.mk.inj (Prod.mk.inj heq).2).1

end

/-- Whether the server's `open64` of a bound absolute path obtains its file. -/
theorem opening_isSome_iff {k : Kernel} {pid : Pid} {filepath : PathStr} (mode : Nat)
    (fault : Fault) {ino : Ino} (hpath : filepath.head? = some '/')
    (hdir : k.fs.dir (k.host.walk filepath) = some ino) :
    (opening k pid filepath serverFlags mode fault).isSome ↔
      fault.openFails = false ∧ CanOpen k pid ino := by
  have hne : filepath.isEmpty = false := by
    cases filepath with
    | nil => cases hpath
    | cons c path => rfl
  unfold opening CanOpen
  rw [absolute_of_head hpath, openEntry_existing hdir (by decide) (by decide), hne]
  cases fault.openFails with
  | true => simp
  | false =>
    cases k.lowestFree pid with
    | none => simp
    | some fd =>
      cases hperm : ((k.fs.inodes ino).perm (k.host.uid pid)).permits serverFlags with
      | true => simpa [serverFlags] using hperm
      | false => simpa [serverFlags] using hperm

end DTIO.Chimod
