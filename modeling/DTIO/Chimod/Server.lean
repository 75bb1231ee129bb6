import DTIO.Chimod.Tasks
import DTIO.Posix.Syscalls

/-!
# The Task Server

The methods of `chi::dtiomod::Server` (`dtiomod_runtime.cc`).  A container is one server
process with its own descriptors, its own `metamap` and its own schedule counter; all
containers use the shared filesystem.  `Write` and `Read` open the file by name with their
own fixed flags, seek, transfer, and never close.

`Fault` lets the environment fail each of the three system calls or cut the transfer short,
so that the methods are total functions of the state, the task and the environment.
-/

namespace DTIO.Chimod

open DTIO.Posix DTIO.ByteFile DTIO.MachineInt

/-! ## Containers and the environment -/

/-- A `FILE` the server opened: its descriptor and the bytes written to the stream that have
not reached the file. -/
structure Stream where
  fd : Int
  pending : List Byte
  deriving DecidableEq, Repr

/-- One instance of `Server`. -/
structure Container where
  metamap : List Char → Option (List Char)
  scheduleNum : Nat
  streams : List Stream

/-- The kernel and the containers of a deployment.  `select` is the runtime's choice of the
container for the 32-bit hash of a `GetDirectHash` query. -/
structure World where
  kernel : Kernel
  containers : Nat → Container
  select : Nat → Nat

/-- The application's process. -/
def appPid : Pid := 0

/-- The process of a container. -/
def pidOf (c : Nat) : Pid := c + 1

theorem appPid_ne_pidOf (c : Nat) : appPid ≠ pidOf c := (Nat.succ_ne_zero c).symm

/-- What happens to the system calls of one task. -/
structure Fault where
  openFails : Bool
  lseekFails : Bool
  transfer : Transfer
  deriving DecidableEq, Repr

def Fault.none : Fault := ⟨false, false, .full⟩

/-- The environment of one intercepted call: the previous content of the buffer that
`AllocateBuffer` returns, the faults of the server's system calls, and how many bytes of a
buffered stream write reach the file during the call. -/
structure Env where
  stale : Nat → Byte
  fault : Fault
  flushed : Nat

/-- No call fails and memory holds zeros. -/
def Env.calm : Env := ⟨fun _ => 0, Fault.none, 0⟩

/-- What the three system calls of a `Write` or `Read` returned. -/
structure Calls where
  fd : Int
  pos : Int
  count : Int
  deriving DecidableEq, Repr

/-- All three calls succeeded and moved `size` bytes. -/
def Calls.complete (calls : Calls) (size : Nat) : Prop :=
  0 ≤ calls.fd ∧ 0 ≤ calls.pos ∧ calls.count = size

instance (calls : Calls) (size : Nat) : Decidable (calls.complete size) :=
  inferInstanceAs (Decidable (_ ∧ _ ∧ _))

/-- The outcome of a server method: the task as it left it, what its system calls returned,
the state after it, and whether it dereferenced a null `FILE *`. -/
structure ServerRun (T : Type) where
  task : T
  calls : Calls
  world : World
  undefined : Bool

def World.withKernel (w : World) (k : Kernel) : World := { w with kernel := k }

def World.setContainer (w : World) (c : Nat) (s : Container) : World :=
  { w with containers := Function.update w.containers c s }

def World.addStream (w : World) (c : Nat) (s : Stream) : World :=
  w.setContainer c { w.containers c with streams := (w.containers c).streams ++ [s] }

/-! ## Write and Read -/

/-- `dtio://` -/
def scheme : PathStr := ['d', 't', 'i', 'o', ':', '/', '/']

/-- `compare(0, 7, "dtio://") == 0 ? substr(7) : filepath_str`. -/
def stripScheme (filename : PathStr) : PathStr :=
  if filename.take 7 = scheme then filename.drop 7 else filename

/-- The descriptor, the result of the seek, and the kernel. -/
structure Opened where
  fd : Int
  pos : Int
  kernel : Kernel

/-- `fd = open64(...); lseek64(fd, data_offset_, SEEK_SET);` neither result is acted on.  The
`size_t` offset is converted to `off64_t`. -/
def openAndSeek (k : Kernel) (pid : Pid) (filepath : PathStr) (flags mode offset : Nat)
    (fault : Fault) : Opened :=
  -- a failed `open64` is printed, and the seek is made on -1
  let opened := if fault.openFails then (-1, k) else k.open64 pid filepath flags mode
  let sought := if fault.lseekFails then (-1, opened.2)
    else opened.2.lseek64 pid opened.1 (toSigned64 offset) .set
  ⟨opened.1, sought.1, sought.2⟩

namespace Server

/-- The `kPosix` case of `Write`. -/
def writePosix (c : Nat) (task : WriteTask) (env : Env) (w : World) : ServerRun WriteTask :=
  let o := openAndSeek w.kernel (pidOf c) (stripScheme task.filename) (oRdwr ||| oCreat) 0o664
    task.dataOffset env.fault
  -- the count is compared with `data_size_` and printed, and the descriptor stays open
  let r := o.kernel.write (pidOf c) o.fd (task.data.take task.dataSize) env.fault.transfer
  ⟨task, ⟨o.fd, o.pos, r.1⟩, w.withKernel r.2, false⟩

/-- The `kPosix` case of `Read`: the bytes obtained go to the beginning of the buffer. -/
def readPosix (c : Nat) (task : ReadTask) (env : Env) (w : World) : ServerRun ReadTask :=
  let o := openAndSeek w.kernel (pidOf c) (stripScheme task.filename) (oRdwr ||| oCreat) 0o664
    task.dataOffset env.fault
  let r := o.kernel.read (pidOf c) o.fd task.dataSize env.fault.transfer
  ⟨{ task with data := copyTo task.data r.2.1 }, ⟨o.fd, o.pos, r.1⟩, w.withKernel r.2.2, false⟩

/-- The `kStdio` case of `Write`.  `fopen(..., "rw+")` opens like `"r+"`: for reading and
writing, without creating.  The stream passes `env.flushed` bytes on and keeps the rest; it
is neither flushed nor closed. -/
def writeStdio (c : Nat) (task : WriteTask) (env : Env) (w : World) : ServerRun WriteTask :=
  let o := openAndSeek w.kernel (pidOf c) (stripScheme task.filename) oRdwr 0
    task.dataOffset env.fault
  -- a null `FILE *` is printed and then used
  if o.fd < 0 then ⟨task, ⟨-1, -1, -1⟩, w, true⟩
  else
    let data := task.data.take task.dataSize
    let r := o.kernel.write (pidOf c) o.fd (data.take env.flushed) env.fault.transfer
    let count := if r.1 = (data.take env.flushed).length then (data.length : Int) else max r.1 0
    ⟨task, ⟨o.fd, o.pos, count⟩,
      (w.withKernel r.2).addStream c ⟨o.fd, data.drop env.flushed⟩, false⟩

/-- The `kStdio` case of `Read`. -/
def readStdio (c : Nat) (task : ReadTask) (env : Env) (w : World) : ServerRun ReadTask :=
  let o := openAndSeek w.kernel (pidOf c) (stripScheme task.filename) oRdwr 0
    task.dataOffset env.fault
  if o.fd < 0 then ⟨task, ⟨-1, -1, -1⟩, w, true⟩
  else
    let r := o.kernel.read (pidOf c) o.fd task.dataSize env.fault.transfer
    ⟨{ task with data := copyTo task.data r.2.1 }, ⟨o.fd, o.pos, max r.1 0⟩,
      (w.withKernel r.2.2).addStream c ⟨o.fd, []⟩, false⟩

/-- `Server::Write`: the other interface types have no case. -/
def write (c : Nat) (task : WriteTask) (env : Env) (w : World) : ServerRun WriteTask :=
  match task.iface with
  | .kPosix => writePosix c task env w
  | .kStdio => writeStdio c task env w
  | _ => ⟨task, ⟨-1, -1, -1⟩, w, false⟩

/-- `Server::Read`. -/
def read (c : Nat) (task : ReadTask) (env : Env) (w : World) : ServerRun ReadTask :=
  match task.iface with
  | .kPosix => readPosix c task env w
  | .kStdio => readStdio c task env w
  | _ => ⟨task, ⟨-1, -1, -1⟩, w, false⟩

/-! ## Metadata and scheduling -/

/-- `metamap[key] = val`. -/
def metaPut (c : Nat) (task : MetaPutTask) (w : World) : MetaPutTask × World :=
  let s := w.containers c
  (task, w.setContainer c { s with metamap := Function.update s.metamap task.key (some task.val) })

/-- `presence_` tells whether the key is there; `val_` is assigned only if it is. -/
def metaGet (c : Nat) (task : MetaGetTask) (w : World) : MetaGetTask × World :=
  match (w.containers c).metamap task.key with
  | none => ({ task with presence := false }, w)
  | some val => ({ task with presence := true, val := val }, w)

/-- `task->schedule_num_ = schedule_num++`, a `size_t`. -/
def schedule (c : Nat) (_task : ScheduleTask) (w : World) : ScheduleTask × World :=
  let s := w.containers c
  (⟨s.scheduleNum⟩, w.setContainer c { s with scheduleNum := toUnsigned64 (s.scheduleNum + 1) })

end Server

/-! ## What the methods do to the kernel -/

theorem stripScheme_of_head {filename : PathStr} (h : filename.head? = some '/') :
    stripScheme filename = filename := by
  have hne : filename.take 7 ≠ scheme := by
    intro heq
    cases filename with
    | nil => simp at h
    | cons a rest =>
      have ha : a = 'd' := (List.cons.inj heq).1
      have hslash : a = '/' := by simpa using h
      exact absurd (ha.symm.trans hslash) (by decide)
  rw [stripScheme, if_neg hne]

/-- Opening an existing entry and seeking, both with success: the process has one more
descriptor, at the requested offset, and nothing else changed. -/
theorem openAndSeek_ok {k : Kernel} {pid : Pid} {filepath : PathStr}
    {flags mode offset n : Nat} {fault : Fault} {ino : Ino}
    (hpath : filepath.head? = some '/') (hdir : k.fs.dir (k.host.walk filepath) = some ino)
    (htrunc : hasFlag flags oTrunc = false) (hexcl : hasFlag flags oExcl = false)
    (hoff : toSigned64 offset = n)
    (hfd : 0 ≤ (openAndSeek k pid filepath flags mode offset fault).fd)
    (hpos : 0 ≤ (openAndSeek k pid filepath flags mode offset fault).pos) :
    (openAndSeek k pid filepath flags mode offset fault).kernel =
      k.setFd pid (openAndSeek k pid filepath flags mode offset fault).fd
        (some ⟨ino, flags, n, some filepath⟩) := by
  unfold openAndSeek at hfd hpos ⊢
  dsimp only at hfd hpos ⊢
  -- the open succeeded, so it was not failed by the environment and found the entry
  cases hof : fault.openFails with
  | true => simp [hof] at hfd
  | false =>
    simp only [hof, Bool.false_eq_true, if_false] at hfd hpos ⊢
    rcases open64_cases k pid filepath flags mode with ho | ⟨fd, i, fs, -, hentry, ho⟩
    · simp [ho] at hfd
    · rw [absolute_of_head hpath, openEntry_existing hdir htrunc hexcl] at hentry
      rw [absolute_of_head hpath] at ho
      split at hentry
      · obtain ⟨rfl, rfl⟩ := Prod.mk.inj (Option.some.inj hentry)
        rw [ho] at hpos ⊢
        dsimp only at hpos ⊢
        -- so did the seek
        cases hlf : fault.lseekFails with
        | true => simp [hlf] at hpos
        | false =>
          simp only [hlf, Bool.false_eq_true, if_false, withFs_self] at hpos ⊢
          rcases lseek64_cases (k.setFd pid fd (some ⟨ino, flags, 0, some filepath⟩)) pid fd
            (toSigned64 offset) .set with hl | ⟨f, pos, hf, -, htarget, hl⟩
          · simp [hl] at hpos
          · rw [setFd_fds_self] at hf
            obtain rfl := Option.some.inj hf
            have heq : (pos : Int) = n := htarget.trans hoff
            rw [hl, setFd_setFd, Int.ofNat.inj heq]
      · cases hentry

/-- A complete write after that places the data at the requested offset. -/
theorem openAndSeek_write {k : Kernel} {pid : Pid} {filepath : PathStr}
    {flags mode offset n : Nat} {fault : Fault} {ino : Ino} {data : List Byte} {t : Transfer}
    (hpath : filepath.head? = some '/') (hdir : k.fs.dir (k.host.walk filepath) = some ino)
    (htrunc : hasFlag flags oTrunc = false) (hexcl : hasFlag flags oExcl = false)
    (happ : hasFlag flags oAppend = false) (hoff : toSigned64 offset = n) {o : Opened}
    (ho : openAndSeek k pid filepath flags mode offset fault = o)
    (hfd : 0 ≤ o.fd) (hpos : 0 ≤ o.pos)
    (hcount : (o.kernel.write pid o.fd data t).1 = data.length) :
    (data = [] ∨ n + data.length ≤ maxSigned64) ∧
    ∃ f, (o.kernel.write pid o.fd data t).2 =
      (k.withFs (k.fs.setContent ino ((k.fs.inodes ino).content.write n data))).setFd pid o.fd
        f := by
  subst ho
  -- the descriptor stands at the requested offset, so that is where the write goes
  have hk := openAndSeek_ok hpath hdir htrunc hexcl hoff hfd hpos
  rw [hk] at hcount ⊢
  have hfile := setFd_fds_self k pid (openAndSeek k pid filepath flags mode offset fault).fd
    (some ⟨ino, flags, n, some filepath⟩)
  obtain ⟨hroom, hw⟩ := write_complete hfile happ hcount
  exact ⟨hroom, _, by rw [hw, withFs_setFd, setFd_setFd, setFd_fs]⟩

/-- The descriptor `Write` and `Read` open does not append. -/
theorem not_append_server : hasFlag (oRdwr ||| oCreat) oAppend = false := by decide

theorem readable_server : isReadable (oRdwr ||| oCreat) = true := by decide

theorem writable_server : isWritable (oRdwr ||| oCreat) = true := by decide

section Posix

/-! ### Tasks on a file

The task's name is absolute, as the adapters send it, and bound to the file `ino`; its offset
is an `off_t`. -/

variable {c : Nat} {task : IoTask} {env : Env} {w : World} {ino : Ino} {n : Nat}

/-- A complete `Write` places the data at the task's offset of the file and leaves the server
with one more descriptor; nothing else changed. -/
theorem Server.writePosix_complete
    (hc : (Server.writePosix c task env w).calls.complete (task.data.take task.dataSize).length)
    (hpath : task.filename.head? = some '/')
    (hdir : w.kernel.fs.dir (w.kernel.host.walk task.filename) = some ino)
    (hoff : toSigned64 task.dataOffset = n) :
    (task.data.take task.dataSize = [] ∨
      n + (task.data.take task.dataSize).length ≤ maxSigned64) ∧
    ∃ fd f, (Server.writePosix c task env w).world = w.withKernel
      ((w.kernel.withFs (w.kernel.fs.setContent ino
        ((w.kernel.fs.inodes ino).content.write n (task.data.take task.dataSize)))).setFd
          (pidOf c) fd f) := by
  unfold Server.writePosix at hc ⊢
  rw [stripScheme_of_head hpath] at hc ⊢
  obtain ⟨hfd, hpos, hcount⟩ := hc
  obtain ⟨hroom, f, hw⟩ := openAndSeek_write hpath hdir (by decide) (by decide)
    not_append_server hoff rfl hfd hpos hcount
  exact ⟨hroom, _, f, congrArg w.withKernel hw⟩

/-- A stream write that passed everything on does the same. -/
theorem Server.writeStdio_complete
    (hc : (Server.writeStdio c task env w).calls.complete (task.data.take task.dataSize).length)
    (hflushed : (task.data.take task.dataSize).length ≤ env.flushed)
    (hpath : task.filename.head? = some '/')
    (hdir : w.kernel.fs.dir (w.kernel.host.walk task.filename) = some ino)
    (hoff : toSigned64 task.dataOffset = n) :
    (task.data.take task.dataSize = [] ∨
      n + (task.data.take task.dataSize).length ≤ maxSigned64) ∧
    ∃ fd f, (Server.writeStdio c task env w).world.kernel =
      (w.kernel.withFs (w.kernel.fs.setContent ino
        ((w.kernel.fs.inodes ino).content.write n (task.data.take task.dataSize)))).setFd
          (pidOf c) fd f := by
  unfold Server.writeStdio at hc ⊢
  rw [stripScheme_of_head hpath] at hc ⊢
  dsimp only at hc ⊢
  split at hc
  · -- with a null `FILE *` the calls were not complete
    exact absurd hc.1 (Int.negSucc_not_nonneg 0).mp
  next hnull =>
    rw [if_neg hnull]
    obtain ⟨hfd, hpos, hcount⟩ := hc
    rw [List.take_of_length_le hflushed] at hcount ⊢
    dsimp only at hfd hpos hcount ⊢
    split at hcount
    next hall =>
      obtain ⟨hroom, f, hw⟩ := openAndSeek_write hpath hdir (by decide) (by decide)
        (by decide) hoff rfl hfd hpos hall
      exact ⟨hroom, _, f, hw⟩
    next hshort =>
      -- the stream reports at least 0, so only a failed write of no bytes comes here
      have hk := openAndSeek_ok hpath hdir (by decide) (by decide) hoff hfd hpos
      rcases write_cases (openAndSeek w.kernel (pidOf c) task.filename oRdwr 0
        task.dataOffset env.fault).kernel (pidOf c) _ _ env.fault.transfer with
        hw | ⟨_, n, -, -, -, hw⟩
      · rw [hw] at hcount ⊢
        have hnil : task.data.take task.dataSize = [] := List.length_eq_zero_iff.mp (by omega)
        rw [hnil, Content.write_nil, setContent_self, withFs_self]
        exact ⟨Or.inl rfl, _, _, hk⟩
      · rw [hw] at hcount hshort
        dsimp only at hcount hshort
        omega

/-- A `Read` whose calls succeed copies a prefix of what the file holds at the task's offset to
the buffer and leaves the server with one more descriptor; nothing else changed. -/
theorem Server.readPosix_ok (hfd : 0 ≤ (Server.readPosix c task env w).calls.fd)
    (hpos : 0 ≤ (Server.readPosix c task env w).calls.pos) {m : Nat}
    (hcount : (Server.readPosix c task env w).calls.count = m)
    (hpath : task.filename.head? = some '/')
    (hdir : w.kernel.fs.dir (w.kernel.host.walk task.filename) = some ino)
    (hoff : toSigned64 task.dataOffset = n) :
    m ≤ (readAt (w.kernel.fs.inodes ino).content.1 n task.dataSize).length ∧
    (Server.readPosix c task env w).task.data = copyTo task.data
      ((readAt (w.kernel.fs.inodes ino).content.1 n task.dataSize).take m) ∧
    ∃ fd f, (Server.readPosix c task env w).world =
      w.withKernel (w.kernel.setFd (pidOf c) fd f) := by
  unfold Server.readPosix at hfd hpos hcount ⊢
  rw [stripScheme_of_head hpath] at hfd hpos hcount ⊢
  dsimp only at hfd hpos hcount ⊢
  have hk := openAndSeek_ok hpath hdir (by decide) (by decide) hoff hfd hpos
  rw [hk] at hcount ⊢
  set fd := (openAndSeek w.kernel (pidOf c) task.filename (oRdwr ||| oCreat) 0o664
    task.dataOffset env.fault).fd
  set k := w.kernel.setFd (pidOf c) fd
    (some ⟨ino, oRdwr ||| oCreat, n, some task.filename⟩) with hkdef
  rcases read_cases k (pidOf c) fd task.dataSize env.fault.transfer with
    hr | ⟨f, moved, hf, -, hm, hr⟩
  · -- a failed `read` returns -1, which is no count
    rw [hr] at hcount
    dsimp only at hcount
    omega
  · rw [hr] at hcount ⊢
    dsimp only at hcount ⊢
    -- the description is the one that was just opened
    rw [hkdef, setFd_fds_self] at hf
    obtain rfl := Option.some.inj hf
    obtain rfl : moved = m := by omega
    have hle := Transfer.amount_le hm
    rw [hkdef, setFd_fs] at hle ⊢
    dsimp only at hle ⊢
    exact ⟨hle, rfl, fd, _, by rw [setFd_setFd]⟩

/-- A complete `Read` fills the buffer with the file's bytes at the task's offset. -/
theorem Server.readPosix_complete
    (hc : (Server.readPosix c task env w).calls.complete task.dataSize)
    (hpath : task.filename.head? = some '/')
    (hdir : w.kernel.fs.dir (w.kernel.host.walk task.filename) = some ino)
    (hoff : toSigned64 task.dataOffset = n) :
    (readAt (w.kernel.fs.inodes ino).content.1 n task.dataSize).length = task.dataSize ∧
    (Server.readPosix c task env w).task.data = copyTo task.data
      (readAt (w.kernel.fs.inodes ino).content.1 n task.dataSize) ∧
    ∃ fd f, (Server.readPosix c task env w).world =
      w.withKernel (w.kernel.setFd (pidOf c) fd f) := by
  obtain ⟨hfd, hpos, hcount⟩ := hc
  obtain ⟨hle, hdata, hworld⟩ := Server.readPosix_ok hfd hpos hcount hpath hdir hoff
  -- as many bytes as were asked for, so all there are at the offset
  have hfull : (readAt (w.kernel.fs.inodes ino).content.1 n task.dataSize).length =
      task.dataSize := by
    rw [length_readAt] at hle ⊢
    omega
  rw [List.take_of_length_le hfull.le] at hdata
  exact ⟨hfull, hdata, hworld⟩

/-! ### Permission and failure

Whether the file can be opened depends on the permissions and the descriptor table of the
server's process, and on the environment. -/

/-- The process has a descriptor left and may open the file for reading and writing. -/
def CanOpen (k : Kernel) (pid : Pid) (ino : Ino) : Prop :=
  (k.lowestFree pid).isSome = true ∧
    ((k.fs.inodes ino).perm (k.host.uid pid)).permits (oRdwr ||| oCreat) = true

instance (k : Kernel) (pid : Pid) (ino : Ino) : Decidable (CanOpen k pid ino) :=
  inferInstanceAs (Decidable (_ ∧ _))

/-- Open for reading and writing, and seek.  Without a descriptor the seek fails and nothing
changes; with one, a failed seek leaves it at 0. -/
theorem openAndSeek_spec {k : Kernel} {pid : Pid} {filepath : PathStr} (mode : Nat)
    {offset n : Nat} {ino : Ino} (fault : Fault) (hpath : filepath.head? = some '/')
    (hdir : k.fs.dir (k.host.walk filepath) = some ino)
    (hneg : k.NonnegFds) (hoff : toSigned64 offset = n)
    (hn : n ≤ maxSigned64) :
    ((fault.openFails = false ∧ CanOpen k pid ino) ∧ ∃ fd,
      openAndSeek k pid filepath (oRdwr ||| oCreat) mode offset fault =
        ⟨fd, if fault.lseekFails then -1 else n, k.setFd pid fd
          (some ⟨ino, oRdwr ||| oCreat, if fault.lseekFails then 0 else n, some filepath⟩)⟩) ∨
    (¬ (fault.openFails = false ∧ CanOpen k pid ino) ∧
      openAndSeek k pid filepath (oRdwr ||| oCreat) mode offset fault = ⟨-1, -1, k⟩) := by
  have hopen := open64_existing pid mode hpath hdir
    (show hasFlag (oRdwr ||| oCreat) oTrunc = false by decide)
    (show hasFlag (oRdwr ||| oCreat) oExcl = false by decide)
  -- after a failed open the seek is made on -1, which no process has open
  have hclosed : k.lseek64 pid (-1) (toSigned64 offset) .set = (-1, k) := by
    simp [Kernel.lseek64, hneg.negative pid (-1)]
  simp only [openAndSeek, hopen]
  cases hof : fault.openFails with
  | true =>
    right
    simp [hclosed]
  | false =>
    cases hfree : k.lowestFree pid with
    | none =>
      right
      simp [CanOpen, hfree, hclosed]
    | some fd =>
      cases hperm : ((k.fs.inodes ino).perm (k.host.uid pid)).permits (oRdwr ||| oCreat) with
      | false =>
        -- refused
        right
        simp [CanOpen, hperm, hclosed]
      | true =>
        left
        have hfile := setFd_fds_self k pid fd (some ⟨ino, oRdwr ||| oCreat, 0, some filepath⟩)
        have hseek := lseek64_of_file hfile (toSigned64 offset) .set hoff.symm hn
        refine ⟨⟨rfl, by rw [hfree]; rfl, hperm⟩, fd, ?_⟩
        -- the seek of an open descriptor fails only if the environment says so
        cases fault.lseekFails with
        | true => simp
        | false => simp [hseek]

/-- When the environment fails nothing, both calls succeed, or neither. -/
theorem openAndSeek_calm {k : Kernel} {pid : Pid} {filepath : PathStr} (mode : Nat)
    {offset n : Nat} {ino : Ino} (hpath : filepath.head? = some '/')
    (hdir : k.fs.dir (k.host.walk filepath) = some ino)
    (hneg : k.NonnegFds) (hoff : toSigned64 offset = n)
    (hn : n ≤ maxSigned64) :
    (CanOpen k pid ino ∧ ∃ fd,
      openAndSeek k pid filepath (oRdwr ||| oCreat) mode offset .none =
        ⟨fd, n, k.setFd pid fd (some ⟨ino, oRdwr ||| oCreat, n, some filepath⟩)⟩) ∨
    (¬ CanOpen k pid ino ∧
      openAndSeek k pid filepath (oRdwr ||| oCreat) mode offset .none = ⟨-1, -1, k⟩) := by
  simpa only [Fault.none, true_and, Bool.false_eq_true, if_false] using
    openAndSeek_spec mode .none hpath hdir hneg hoff hn

/-- A `Read` obtains what the file holds at the task's offset, or nothing. -/
theorem Server.readPosix_calm (hcalm : env.fault = .none)
    (hpath : task.filename.head? = some '/')
    (hdir : w.kernel.fs.dir (w.kernel.host.walk task.filename) = some ino)
    (hneg : w.kernel.NonnegFds)
    (hoff : toSigned64 task.dataOffset = n) (hn : n ≤ maxSigned64) :
    (CanOpen w.kernel (pidOf c) ino ∧
      (Server.readPosix c task env w).task.data =
        copyTo task.data (readAt (w.kernel.fs.inodes ino).content.1 n task.dataSize)) ∨
    (¬ CanOpen w.kernel (pidOf c) ino ∧
      (Server.readPosix c task env w).task.data = task.data) := by
  unfold Server.readPosix
  rw [hcalm, stripScheme_of_head hpath]
  rcases openAndSeek_calm 0o664 hpath hdir hneg hoff hn with ⟨hcan, fd, ho⟩ | ⟨hcannot, ho⟩
  -- opened at offset `n`: the read gets the bytes there
  · left
    rw [ho]
    have hfile := setFd_fds_self w.kernel (pidOf c) fd
      (some ⟨ino, oRdwr ||| oCreat, n, some task.filename⟩)
    have hread := read_full_of_file hfile readable_server (n := task.dataSize) rfl
    simp only [Fault.none, hread, setFd_fs]
    exact ⟨hcan, trivial⟩
  -- not opened: the read is on descriptor -1 and the buffer stays
  · right
    rw [ho]
    have hclosed : w.kernel.read (pidOf c) (-1) task.dataSize .full = (-1, [], w.kernel) := by
      simp [Kernel.read, hneg.negative (pidOf c) (-1)]
    simp only [Fault.none, hclosed, copyTo_nil]
    exact ⟨hcannot, trivial⟩

/-- A `Write` within the largest offset places its data there, or does nothing. -/
theorem Server.writePosix_calm (hcalm : env.fault = .none)
    (hpath : task.filename.head? = some '/')
    (hdir : w.kernel.fs.dir (w.kernel.host.walk task.filename) = some ino)
    (hneg : w.kernel.NonnegFds)
    (hoff : toSigned64 task.dataOffset = n) (hn : n ≤ maxSigned64)
    (hroom : n + (task.data.take task.dataSize).length ≤ maxSigned64) :
    (CanOpen w.kernel (pidOf c) ino ∧
      ∃ fd f, (Server.writePosix c task env w).world.kernel =
        (w.kernel.withFs (w.kernel.fs.setContent ino ((w.kernel.fs.inodes ino).content.write n
          (task.data.take task.dataSize)))).setFd (pidOf c) fd f) ∨
    (¬ CanOpen w.kernel (pidOf c) ino ∧
      (Server.writePosix c task env w).world.kernel = w.kernel) := by
  unfold Server.writePosix
  rw [hcalm, stripScheme_of_head hpath]
  rcases openAndSeek_calm 0o664 hpath hdir hneg hoff hn with ⟨hcan, fd, ho⟩ | ⟨hcannot, ho⟩
  -- opened at offset `n`: the bytes go there, and the descriptor moves behind them
  · left
    rw [ho]
    have hfile := setFd_fds_self w.kernel (pidOf c) fd
      (some ⟨ino, oRdwr ||| oCreat, n, some task.filename⟩)
    have hwrite := write_full_of_file hfile writable_server not_append_server (Or.inr hroom)
    simp only [Fault.none, hwrite, setFd_fs, World.withKernel, withFs_setFd, setFd_setFd]
    exact ⟨hcan, fd, _, rfl⟩
  -- not opened: the write is on descriptor -1 and changes nothing
  · right
    rw [ho]
    have hclosed : w.kernel.write (pidOf c) (-1) (task.data.take task.dataSize) .full =
        (-1, w.kernel) := by
      simp [Kernel.write, hneg.negative (pidOf c) (-1)]
    simp only [Fault.none, hclosed]
    exact ⟨hcannot, rfl⟩

/-- The number `Write` compares with the task's size is that size if and only if the file can
be opened and the environment lets all bytes through; a failed seek leaves the descriptor at
the beginning. -/
theorem Server.writePosix_count_iff (c : Nat) (env : Env)
    (hpath : task.filename.head? = some '/')
    (hdir : w.kernel.fs.dir (w.kernel.host.walk task.filename) = some ino)
    (hneg : w.kernel.NonnegFds)
    (hoff : toSigned64 task.dataOffset = n) (hn : n ≤ maxSigned64) :
    (Server.writePosix c task env w).calls.count = (task.data.take task.dataSize).length ↔
      (env.fault.openFails = false ∧ CanOpen w.kernel (pidOf c) ino) ∧
        env.fault.transfer.amount (min (task.data.take task.dataSize).length
          (maxSigned64 - if env.fault.lseekFails then 0 else n)) =
            some (task.data.take task.dataSize).length := by
  unfold Server.writePosix
  rw [stripScheme_of_head hpath]
  rcases openAndSeek_spec 0o664 env.fault hpath hdir hneg hoff hn with
    ⟨hcan, fd, ho⟩ | ⟨hcannot, ho⟩
  · rw [ho]
    have hfile := setFd_fds_self w.kernel (pidOf c) fd
      (some ⟨ino, oRdwr ||| oCreat, if env.fault.lseekFails then 0 else n, some task.filename⟩)
    have hcount := write_count_iff hfile writable_server (task.data.take task.dataSize)
      env.fault.transfer
    -- without `O_APPEND` the write goes to where the seek left the descriptor
    rw [writePos_of_not_append _ not_append_server] at hcount
    simp only [hcan, true_and]
    exact hcount
  · rw [ho]
    have hclosed : w.kernel.write (pidOf c) (-1) (task.data.take task.dataSize)
        env.fault.transfer = (-1, w.kernel) := by
      simp [Kernel.write, hneg.negative (pidOf c) (-1)]
    simp only [hclosed, hcannot, false_and, iff_false]
    omega

end Posix

end DTIO.Chimod
