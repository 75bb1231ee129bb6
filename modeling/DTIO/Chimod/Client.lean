import DTIO.Chimod.Server

/-!
# The Task Client

`Client::Schedule`, `Client::Write` and `Client::Read` (`dtiomod_client.h`): every I/O call
first draws a schedule number from container 0 and then sends its task to the container that
number selects.  The task refers to the caller's shared-memory buffer and is deleted when it
has been waited for; nothing in it is looked at.

`Kept` collects what no task changes, whatever its system calls return.
-/

namespace DTIO.Chimod

open DTIO.Posix DTIO.ByteFile DTIO.MachineInt

namespace Client

/-- `GetDirectHash(SubDomain::kGlobalContainers, hash)`. -/
def getDirectHash (w : World) (hash : Int) : Nat := w.select (toUnsigned32 hash)

/-- `Client::Schedule` on container 0; the `size_t` number becomes an `int`. -/
def schedule (w : World) : Int × World :=
  let r := Server.schedule (getDirectHash w 0) ⟨0⟩ w
  (toSigned32 r.1.scheduleNum, r.2)

/-- `Client::Write`. -/
def write (data : List Byte) (dataSize dataOffset : Nat) (filename : PathStr)
    (iface : IoClientType) (env : Env) (w : World) : ServerRun WriteTask :=
  -- `int snum` is the hash of the second query
  let snum := schedule w
  Server.write (getDirectHash w snum.1) ⟨data, dataOffset, dataSize, filename, iface⟩ env snum.2

/-- `Client::Read`. -/
def read (data : List Byte) (dataSize dataOffset : Nat) (filename : PathStr)
    (iface : IoClientType) (env : Env) (w : World) : ServerRun ReadTask :=
  let snum := schedule w
  Server.read (getDirectHash w snum.1) ⟨data, dataOffset, dataSize, filename, iface⟩ env snum.2

/-- The container the next task goes to. -/
def server (w : World) : Nat := getDirectHash w (schedule w).1

end Client

/-! ## Complete writes -/

/-- All bytes of a `Write` of either interface reach the file before the task ends: the
server's calls complete, and a stream passes on what it was given. -/
def ServerRun.landed (r : ServerRun WriteTask) (iface : IoClientType) (size : Nat) (env : Env) :
    Prop :=
  r.calls.complete size ∧ (iface = .kPosix ∨ iface = .kStdio ∧ size ≤ env.flushed)

instance (r : ServerRun WriteTask) (iface : IoClientType) (size : Nat) (env : Env) :
    Decidable (r.landed iface size env) :=
  inferInstanceAs (Decidable (_ ∧ (_ ∨ _ ∧ _)))

/-- Then the data is in the file at the requested offset, and a server has one more
descriptor. -/
theorem clientWrite_landed {data : List Byte} {n : Nat} {filename : PathStr}
    {iface : IoClientType} {env : Env} {w : World} {ino : Ino} (hn : n ≤ maxSigned64)
    (hpath : filename.head? = some '/')
    (hdir : w.kernel.fs.dir (w.kernel.host.walk filename) = some ino)
    (h : (Client.write data data.length n filename iface env w).landed iface data.length env) :
    (data = [] ∨ n + data.length ≤ maxSigned64) ∧
    ∃ c fd f, (Client.write data data.length n filename iface env w).world.kernel =
      (w.kernel.withFs (w.kernel.fs.setContent ino
        ((w.kernel.fs.inodes ino).content.write n data))).setFd (pidOf c) fd f := by
  obtain ⟨hc, hiface⟩ := h
  unfold Client.write at hc ⊢
  dsimp only at hc ⊢
  set task : WriteTask := ⟨data, n, data.length, filename, iface⟩
  have htake : task.data.take task.dataSize = data := List.take_length
  have hoff : toSigned64 task.dataOffset = n := toSigned64_of_le hn
  have hbound : (Client.schedule w).2.kernel.fs.dir
      ((Client.schedule w).2.kernel.host.walk task.filename) = some ino := hdir
  unfold Server.write at hc ⊢
  -- the two interfaces with a case in `Server::Write`
  rcases hiface with rfl | ⟨rfl, hflushed⟩
  · obtain ⟨hroom, fd, f, hw⟩ :=
      Server.writePosix_complete (by rw [htake]; exact hc) hpath hbound hoff
    rw [htake] at hroom hw
    exact ⟨hroom, _, fd, f, congrArg World.kernel hw⟩
  · obtain ⟨hroom, fd, f, hw⟩ :=
      Server.writeStdio_complete (by rw [htake]; exact hc) (by rw [htake]; exact hflushed) hpath
        hbound hoff
    rw [htake] at hroom hw
    exact ⟨hroom, _, fd, f, hw⟩

/-! ## What no task changes -/

/-- The host, the runtime's routing and the application's descriptors are the same, every
bound directory entry keeps its file, and no process gets a negative descriptor. -/
structure Kept (w w' : World) : Prop where
  host : w'.kernel.host = w.kernel.host
  select : w'.select = w.select
  fds : w'.kernel.fds appPid = w.kernel.fds appPid
  dir : ∀ e ino, w.kernel.fs.dir e = some ino → w'.kernel.fs.dir e = some ino
  nonneg : w.kernel.NonnegFds → w'.kernel.NonnegFds

theorem Kept.refl (w : World) : Kept w w := ⟨rfl, rfl, rfl, fun _ _ h => h, id⟩

theorem Kept.trans {w w' w'' : World} (h : Kept w w') (h' : Kept w' w'') : Kept w w'' where
  host := h'.host.trans h.host
  select := h'.select.trans h.select
  fds := h'.fds.trans h.fds
  dir := fun e ino he => h'.dir e ino (h.dir e ino he)
  nonneg := h'.nonneg ∘ h.nonneg

theorem Kept.addStream (w : World) (c : Nat) (s : Stream) : Kept w (w.addStream c s) :=
  ⟨rfl, rfl, rfl, fun _ _ h => h, id⟩

theorem kept_schedule (w : World) : Kept w (Client.schedule w).2 :=
  ⟨rfl, rfl, rfl, fun _ _ h => h, id⟩

theorem kept_openAndSeek (w : World) (c : Nat) (filepath : PathStr) (flags mode offset : Nat)
    (fault : Fault) :
    Kept w
      (w.withKernel (openAndSeek w.kernel (pidOf c) filepath flags mode offset fault).kernel) := by
  -- the open first, then the seek, which changes one description
  have hopen : Kept w (w.withKernel
      (if fault.openFails then ((-1 : Int), w.kernel)
        else w.kernel.open64 (pidOf c) filepath flags mode).2) := by
    cases fault.openFails with
    | true => exact Kept.refl w
    | false =>
      refine ⟨open64_host .., rfl, open64_fds_ne _ _ _ _ _ (appPid_ne_pidOf c), ?_,
        fun h => h.open64 ..⟩
      intro e ino he
      rcases open64_cases w.kernel (pidOf c) filepath flags mode with
        ho | ⟨fd, i, fs, -, hentry, ho⟩
      · simpa [World.withKernel, ho] using he
      · simpa [World.withKernel, ho] using openEntry_dir_of_some hentry he
  unfold openAndSeek
  cases fault.lseekFails with
  | true => exact hopen
  | false =>
    refine ⟨(lseek64_host ..).trans hopen.host, rfl,
      (lseek64_fds_ne _ _ _ _ _ (appPid_ne_pidOf c)).trans hopen.fds, ?_,
      fun h => (hopen.nonneg h).lseek64 ..⟩
    intro e ino he
    simpa [World.withKernel] using hopen.dir e ino he

theorem kept_write (w : World) (c : Nat) (fd : Int) (d : List Byte) (t : Transfer) :
    Kept w (w.withKernel (w.kernel.write (pidOf c) fd d t).2) := by
  refine ⟨write_host .., rfl, write_fds_ne _ _ _ _ _ (appPid_ne_pidOf c), ?_,
    fun h => h.write ..⟩
  intro e ino he
  simpa [World.withKernel] using he

theorem kept_read (w : World) (c : Nat) (fd : Int) (n : Nat) (t : Transfer) :
    Kept w (w.withKernel (w.kernel.read (pidOf c) fd n t).2.2) := by
  refine ⟨read_host .., rfl, read_fds_ne _ _ _ _ _ (appPid_ne_pidOf c), ?_,
    fun h => h.read ..⟩
  intro e ino he
  simpa [World.withKernel] using he

theorem kept_serverWrite (c : Nat) (task : WriteTask) (env : Env) (w : World) :
    Kept w (Server.write c task env w).world := by
  unfold Server.write
  split
  · exact (kept_openAndSeek w c _ _ _ _ _).trans (kept_write _ c _ _ _)
  · unfold Server.writeStdio
    dsimp only
    split
    · exact Kept.refl w
    · exact ((kept_openAndSeek w c _ _ _ _ _).trans (kept_write _ c _ _ _)).trans
        (Kept.addStream _ c _)
  · exact Kept.refl w

theorem kept_serverRead (c : Nat) (task : ReadTask) (env : Env) (w : World) :
    Kept w (Server.read c task env w).world := by
  unfold Server.read
  split
  · exact (kept_openAndSeek w c _ _ _ _ _).trans (kept_read _ c _ _ _)
  · unfold Server.readStdio
    dsimp only
    split
    · exact Kept.refl w
    · exact ((kept_openAndSeek w c _ _ _ _ _).trans (kept_read _ c _ _ _)).trans
        (Kept.addStream _ c _)
  · exact Kept.refl w

section Calls

variable (data : List Byte) (dataSize dataOffset : Nat) (filename : PathStr)
  (iface : IoClientType) (env : Env) (w : World)

theorem kept_clientWrite :
    Kept w (Client.write data dataSize dataOffset filename iface env w).world :=
  (kept_schedule w).trans (kept_serverWrite ..)

theorem kept_clientRead :
    Kept w (Client.read data dataSize dataOffset filename iface env w).world :=
  (kept_schedule w).trans (kept_serverRead ..)

end Calls

end DTIO.Chimod
