import DTIO.Adapter.System
import DTIO.Chimod.Effects

/-!
# POSIX Adapter

The intercepted POSIX calls of `posix_api.cc`.  `open` and `creat` call the real function
first and register the descriptor if the path is to be intercepted; `read` and `write` on a
registered descriptor become tasks; `lseek` moves the real descriptor and copies its position;
`close` unregisters before it closes.

## Main definitions

- `Posix.read`, `Posix.write`, …: the intercepted calls
- `Posix.perform`: the call an application makes, by name
- `Posix.step`: the same as one step of a machine
- `Posix.performFile`: the same with `unlink` among the calls
-/

namespace DTIO.Adapter.Posix

open DTIO.Posix DTIO.Chimod DTIO.Client DTIO.ByteFile DTIO.MachineInt

/-! ## Definitions -/

/-- The outcome of a call answered by the real function. -/
def real (s : System) (r : Result × Kernel) : Outcome := ⟨r.1, s.withKernel r.2, none⟩

/-- What `open` and `creat` do once the real call has returned: a descriptor opened on a path
to be intercepted is registered. -/
def afterOpen (path : PathStr) (flags : Nat) (r : Int × Kernel) (s : System) : Outcome :=
  let s' := s.withKernel r.2
  if r.1 < 0 then ⟨⟨r.1, []⟩, s', none⟩
  else
    -- `std::filesystem::absolute` runs in the application, so with its working directory
    let absPath := absolute (s.kernel.host.cwd appPid) path
    if s.config.shouldIntercept absPath then
      ⟨⟨r.1, []⟩, { s' with clientMeta := s'.clientMeta.registerPosixFd r.1 absPath flags }, none⟩
    else ⟨⟨r.1, []⟩, s', none⟩

/-- `open` and `open64`. -/
def open64 (path : PathStr) (flags mode : Nat) (s : System) : Outcome :=
  afterOpen path flags (s.kernel.open64 appPid path flags mode) s

/-- `creat` and `creat64`. -/
def creat64 (path : PathStr) (mode : Nat) (s : System) : Outcome :=
  afterOpen path (oCreat ||| oWronly ||| oTrunc) (s.kernel.creat64 appPid path mode) s

/-- The number that `UpdatePosixOffset(fd, file_info->current_offset + count)` stores: the sum
is computed on `size_t` and converted to `off_t`. -/
def advance (info : FileInfo) (count : Nat) : Int := toSigned64 (info.currentOffset + count)

def read (fd : Int) (buf : List Byte) (count : Nat) (env : Env) (s : System) : Outcome :=
  if !s.clientMeta.isPosixFdRegistered fd then real s (Direct.read fd buf count s.kernel)
  else
    match s.clientMeta.getPosixFileInfo fd with
    | some info =>
      let shmBuf := allocateBuffer env.stale count
      -- the offset is read here, the server never sees the application's descriptor
      let r := Client.read shmBuf count (toUnsigned64 info.currentOffset) info.absolutePath
        .kPosix env s.world
      -- `memcpy(buf, shm_buf.ptr_, count)`, whatever the server obtained
      ⟨⟨toSigned64 count, copyTo buf (r.task.data.take count)⟩,
        { s with
          world := r.world
          clientMeta := s.clientMeta.updatePosixOffset fd (advance info count) },
        some r.calls⟩
    | none => real s (Direct.read fd buf count s.kernel)

def write (fd : Int) (data : List Byte) (env : Env) (s : System) : Outcome :=
  if !s.clientMeta.isPosixFdRegistered fd then real s (Direct.write fd data s.kernel)
  else
    match s.clientMeta.getPosixFileInfo fd with
    | some info =>
      let shmBuf := copyTo (allocateBuffer env.stale data.length) data
      let r := Client.write shmBuf data.length (toUnsigned64 info.currentOffset)
        info.absolutePath .kPosix env s.world
      -- `return count`, whatever the server did
      ⟨⟨toSigned64 data.length, []⟩,
        { s with
          world := r.world
          clientMeta := s.clientMeta.updatePosixOffset fd (advance info data.length) },
        some r.calls⟩
    | none => real s (Direct.write fd data s.kernel)

/-- `lseek` and `lseek64`: the real position is what DTIO's offset becomes. -/
def lseek64 (fd off : Int) (whence : Whence) (s : System) : Outcome :=
  -- both branches of the source call the real function first
  let r := s.kernel.lseek64 appPid fd off whence
  let s' := s.withKernel r.2
  if !s.clientMeta.isPosixFdRegistered fd then ⟨⟨r.1, []⟩, s', none⟩
  else if r.1 < 0 then ⟨⟨r.1, []⟩, s', none⟩
  else
    match s'.clientMeta.getPosixFileInfo fd with
    | some _ =>
      ⟨⟨r.1, []⟩, { s' with clientMeta := s'.clientMeta.updatePosixOffset fd r.1 }, none⟩
    | none => ⟨⟨r.1, []⟩, s', none⟩

def close (fd : Int) (s : System) : Outcome :=
  if !s.clientMeta.isPosixFdRegistered fd then
    let r := s.kernel.close appPid fd
    ⟨⟨r.1, []⟩, s.withKernel r.2, none⟩
  else
    -- unregistered first: once the number is free the kernel may hand it out again
    let s' := { s with clientMeta := s.clientMeta.unregisterPosixFd fd }
    let r := s'.kernel.close appPid fd
    ⟨⟨r.1, []⟩, s'.withKernel r.2, none⟩

/-- The intercepted call of an application. -/
def perform (s : System) : Call → Env → Outcome
  | .open64 path flags mode, _ => open64 path flags mode s
  | .creat64 path mode, _ => creat64 path mode s
  | .read fd buf count, env => read fd buf count env s
  | .write fd data, env => write fd data env s
  | .lseek64 fd off whence, _ => lseek64 fd off whence s
  | .close fd, _ => close fd s

/-- The adapter as a machine over calls and environments. -/
def step (s : System) (i : Call × Env) : Result × System :=
  ((perform s i.1 i.2).result, (perform s i.1 i.2).system)

/-- The server's system calls for this step succeed in full. -/
def Complete (s : System) (i : Call × Env) : Prop :=
  (perform s i.1 i.2).Complete i.1.size

instance (s : System) (i : Call × Env) : Decidable (Complete s i) :=
  inferInstanceAs (Decidable ((perform s i.1 i.2).Complete i.1.size))

/-- `unlink`, which is left to the real function: nothing is recorded about the file. -/
def unlink (path : PathStr) (allowed : Bool) (s : System) : Outcome :=
  let r := s.kernel.unlink appPid path allowed
  ⟨⟨r.1, []⟩, s.withKernel r.2, none⟩

/-- The calls of an application that also removes files. -/
inductive FileCall where
  | posix (c : Call)
  | unlink (path : PathStr) (allowed : Bool)
  deriving DecidableEq, Repr

/-- The descriptor a call is made on. -/
def FileCall.fd? : FileCall → Option Int
  | .posix c => c.fd?
  | .unlink .. => none

/-- The intercepted call of such an application. -/
def performFile (s : System) : FileCall → Env → Outcome
  | .posix c, env => perform s c env
  | .unlink path allowed, _ => unlink path allowed s

theorem afterOpen_value (path : PathStr) (flags : Nat) (r : Int × Kernel) (s : System) :
    (afterOpen path flags r s).result.value = r.1 := by
  unfold afterOpen
  dsimp only
  split
  · rfl
  · split <;> rfl

/-- What happens after the real call leaves the kernel alone. -/
theorem afterOpen_kernel (path : PathStr) (flags : Nat) (r : Int × Kernel) (s : System) :
    (afterOpen path flags r s).system.kernel = r.2 := by
  unfold afterOpen
  dsimp only
  split
  · rfl
  · split <;> rfl

/-! ## Calls that are not sent -/

theorem afterOpen_served (path : PathStr) (flags : Nat) (r : Int × Kernel) (s : System) :
    (afterOpen path flags r s).served = none := by
  unfold afterOpen
  dsimp only
  split
  · rfl
  · split <;> rfl

theorem lseek64_served (fd off : Int) (whence : Whence) (s : System) :
    (lseek64 fd off whence s).served = none := by
  unfold lseek64
  dsimp only
  split
  · rfl
  split
  · rfl
  split <;> rfl

theorem close_served (fd : Int) (s : System) : (close fd s).served = none := by
  unfold close
  split <;> rfl

/-! ## The calls on a registered descriptor -/

section Registered

variable {s : System} {fd : Int} {info : FileInfo}

/-- The task a `write` sends, performed. -/
def sentWrite (info : FileInfo) (data : List Byte) (env : Env) (s : System) :
    ServerRun WriteTask :=
  Client.write data data.length (toUnsigned64 info.currentOffset) info.absolutePath .kPosix env
    s.world

/-- The task a `read` sends, performed. -/
def sentRead (info : FileInfo) (count : Nat) (env : Env) (s : System) : ServerRun ReadTask :=
  Client.read (allocateBuffer env.stale count) count (toUnsigned64 info.currentOffset)
    info.absolutePath .kPosix env s.world

/-- What the server of the next task finds when it opens a recorded path. -/
def serverOpening (s : System) (path : PathStr) (env : Env) : Option (Int × Ino × FileSystem) :=
  opening s.kernel (pidOf (Client.server s.world)) path serverFlags 0o664 env.fault

theorem read_of_registered (h : s.clientMeta.posixFiles fd = some info) (buf : List Byte)
    (count : Nat) (env : Env) :
    read fd buf count env s =
      ⟨⟨toSigned64 count, copyTo buf ((sentRead info count env s).task.data.take count)⟩,
        { s with
          world := (sentRead info count env s).world
          clientMeta := s.clientMeta.updatePosixOffset fd (advance info count) },
        some (sentRead info count env s).calls⟩ := by
  simp only [read, ClientMetadataManager.isPosixFdRegistered,
    ClientMetadataManager.getPosixFileInfo, FileTable.isRegistered, h, Option.isSome_some,
    Bool.not_true, Bool.false_eq_true, if_false, sentRead]

theorem write_of_registered (h : s.clientMeta.posixFiles fd = some info) (data : List Byte)
    (env : Env) :
    write fd data env s =
      ⟨⟨toSigned64 data.length, []⟩,
        { s with
          world := (sentWrite info data env s).world
          clientMeta := s.clientMeta.updatePosixOffset fd (advance info data.length) },
        some (sentWrite info data env s).calls⟩ := by
  have hbuf : copyTo (allocateBuffer env.stale data.length) data = data :=
    copyTo_of_length_le (by simp)
  simp only [write, ClientMetadataManager.isPosixFdRegistered,
    ClientMetadataManager.getPosixFileInfo, FileTable.isRegistered, h, Option.isSome_some,
    Bool.not_true, Bool.false_eq_true, if_false, sentWrite, hbuf]

/-- The real seek decides; when it succeeds both offsets are the returned one. -/
theorem lseek64_of_registered (h : s.clientMeta.posixFiles fd = some info) (off : Int)
    (whence : Whence) :
    lseek64 fd off whence s =
      ⟨⟨(s.kernel.lseek64 appPid fd off whence).1, []⟩,
        { s with
          world := s.world.withKernel (s.kernel.lseek64 appPid fd off whence).2
          clientMeta :=
            if (s.kernel.lseek64 appPid fd off whence).1 < 0 then s.clientMeta
            else s.clientMeta.updatePosixOffset fd (s.kernel.lseek64 appPid fd off whence).1 },
        none⟩ := by
  simp only [lseek64, System.withKernel, ClientMetadataManager.isPosixFdRegistered,
    ClientMetadataManager.getPosixFileInfo, FileTable.isRegistered, h, Option.isSome_some,
    Bool.not_true, Bool.false_eq_true, if_false]
  split <;> rfl

theorem close_of_registered (h : s.clientMeta.posixFiles fd = some info) :
    close fd s =
      ⟨⟨(s.kernel.close appPid fd).1, []⟩,
        { s with
          world := s.world.withKernel (s.kernel.close appPid fd).2
          clientMeta := s.clientMeta.unregisterPosixFd fd },
        none⟩ := by
  simp [close, ClientMetadataManager.isPosixFdRegistered, FileTable.isRegistered, h,
    System.withKernel, System.kernel]

/-! ### Complete transfers

The offset is a natural number `n` that fits, and the recorded path is absolute and bound to
the file `ino`; then the task acts on that file at `n`. -/

section Complete

variable {n : Nat} {ino : Ino} {env : Env}

/-- A task goes to the next container with the offset as it is stored. -/
theorem sentRead_eq (hoff : info.currentOffset = n) (hn : n ≤ maxSigned64) (count : Nat) :
    sentRead info count env s =
      Server.readPosix (Client.server s.world)
        ⟨allocateBuffer env.stale count, n, count, info.absolutePath, .kPosix⟩ env
        (Client.schedule s.world).2 := by
  unfold sentRead
  rw [hoff, toUnsigned64_of_le hn]
  rfl

theorem sentWrite_eq (hoff : info.currentOffset = n) (hn : n ≤ maxSigned64) (data : List Byte) :
    sentWrite info data env s =
      Server.writePosix (Client.server s.world)
        ⟨data, n, data.length, info.absolutePath, .kPosix⟩ env (Client.schedule s.world).2 := by
  unfold sentWrite
  rw [hoff, toUnsigned64_of_le hn]
  rfl

/-- A complete read obtains the file's bytes at the offset and costs one server descriptor. -/
theorem sentRead_complete {count : Nat} (hoff : info.currentOffset = n) (hn : n ≤ maxSigned64)
    (hpath : info.absolutePath.head? = some '/')
    (hdir : s.kernel.fs.dir (s.kernel.host.walk info.absolutePath) = some ino)
    (hc : (sentRead info count env s).calls.complete count) :
    (readAt (s.kernel.fs.inodes ino).content.1 n count).length = count ∧
    (sentRead info count env s).task.data = readAt (s.kernel.fs.inodes ino).content.1 n count ∧
    ∃ c g f, (sentRead info count env s).world.kernel = s.kernel.setFd (pidOf c) g f := by
  rw [sentRead_eq hoff hn] at hc ⊢
  obtain ⟨hlen, hdata, g, f, hworld⟩ :=
    Server.readPosix_complete hc hpath hdir (toSigned64_of_le hn)
  refine ⟨hlen, hdata.trans (copyTo_of_length_le ?_), _, g, f, congrArg World.kernel hworld⟩
  rw [length_allocateBuffer]
  exact hlen.ge

/-- A complete write places the data at the offset and costs one server descriptor. -/
theorem sentWrite_complete {data : List Byte} (hoff : info.currentOffset = n)
    (hn : n ≤ maxSigned64) (hpath : info.absolutePath.head? = some '/')
    (hdir : s.kernel.fs.dir (s.kernel.host.walk info.absolutePath) = some ino)
    (hc : (sentWrite info data env s).calls.complete data.length) :
    (data = [] ∨ n + data.length ≤ maxSigned64) ∧
    ∃ c g f, (sentWrite info data env s).world.kernel =
      (s.kernel.withFs (s.kernel.fs.setContent ino
        ((s.kernel.fs.inodes ino).content.write n data))).setFd (pidOf c) g f := by
  unfold sentWrite at hc ⊢
  rw [hoff, toUnsigned64_of_le hn] at hc ⊢
  exact clientWrite_landed hn hpath hdir ⟨hc, Or.inl rfl⟩

end Complete

end Registered

/-! ## The calls on other descriptors -/

section Unregistered

variable {s : System} {fd : Int}

/-- The real function answers. -/
theorem read_of_unregistered (h : s.clientMeta.posixFiles fd = none) (buf : List Byte)
    (count : Nat) (env : Env) :
    read fd buf count env s = real s (Direct.read fd buf count s.kernel) := by
  simp [read, ClientMetadataManager.isPosixFdRegistered, FileTable.isRegistered, h]

theorem write_of_unregistered (h : s.clientMeta.posixFiles fd = none) (data : List Byte)
    (env : Env) : write fd data env s = real s (Direct.write fd data s.kernel) := by
  simp [write, ClientMetadataManager.isPosixFdRegistered, FileTable.isRegistered, h]

theorem lseek64_of_unregistered (h : s.clientMeta.posixFiles fd = none) (off : Int)
    (whence : Whence) :
    lseek64 fd off whence s = real s (Direct.step s.kernel (.lseek64 fd off whence)) := by
  simp [lseek64, ClientMetadataManager.isPosixFdRegistered, FileTable.isRegistered, h, real,
    Direct.step]

theorem close_of_unregistered (h : s.clientMeta.posixFiles fd = none) :
    close fd s = real s (Direct.step s.kernel (.close fd)) := by
  simp [close, ClientMetadataManager.isPosixFdRegistered, FileTable.isRegistered, h, real,
    Direct.step]

end Unregistered

/-! ## What a call leaves alone

Whatever the server's system calls return, an intercepted call keeps the host, the
configuration and the binding of every directory entry, and it touches no descriptor but its
own. -/

/-- A real call on a descriptor updates that descriptor and file contents. -/
theorem direct_update (k : Kernel) {c : Call} {fd : Int} (hc : c.fd? = some fd) :
    ∃ fs f, fs.dir = k.fs.dir ∧ (Direct.step k c).2 = (k.withFs fs).setFd appPid fd f := by
  -- the locality lemmas, used with the same kernel twice, say what the call updates
  have close : ∀ {r : Kernel}, SameUpdate k k appPid fd r r →
      ∃ fs f, fs.dir = k.fs.dir ∧ r = (k.withFs fs).setFd appPid fd f :=
    fun ⟨fs, f, hdir, hr, _⟩ => ⟨fs, f, hdir, hr⟩
  cases c with
  | open64 path flags mode => cases hc
  | creat64 path mode => cases hc
  | read fd' buf count =>
    obtain rfl := Option.some.inj hc
    exact close (read_local rfl rfl count .full).2.2
  | write fd' data =>
    obtain rfl := Option.some.inj hc
    exact close (write_local rfl rfl data .full).2
  | lseek64 fd' off whence =>
    obtain rfl := Option.some.inj hc
    exact close (lseek64_local rfl rfl off whence).2
  | close fd' =>
    obtain rfl := Option.some.inj hc
    exact close (close_local rfl rfl).2

theorem direct_nonneg {k : Kernel} (h : k.NonnegFds) (c : Call) :
    (Direct.step k c).2.NonnegFds := by
  cases c with
  | open64 path flags mode => exact h.open64 ..
  | creat64 path mode => exact h.open64 ..
  | read fd buf count => exact h.read ..
  | write fd data => exact h.write ..
  | lseek64 fd off whence => exact h.lseek64 ..
  | close fd => exact h.close

/-- `t` is `s` after a call that may have changed the application's descriptor `fd`, its
registration, and the files. -/
structure Touches (fd : Int) (s t : System) : Prop where
  host : t.kernel.host = s.kernel.host
  config : t.config = s.config
  dir : ∀ e ino, s.kernel.fs.dir e = some ino → t.kernel.fs.dir e = some ino
  fds : ∀ fd', fd' ≠ fd → t.kernel.fds appPid fd' = s.kernel.fds appPid fd'
  posixFiles : ∀ fd', fd' ≠ fd → t.clientMeta.posixFiles fd' = s.clientMeta.posixFiles fd'
  nonneg : s.kernel.NonnegFds → t.kernel.NonnegFds

/-- The real function answered. -/
theorem touches_real (s : System) {c : Call} {fd : Int} (hc : c.fd? = some fd) :
    Touches fd s (s.withKernel (Direct.step s.kernel c).2) := by
  have hnonneg : s.kernel.NonnegFds → (Direct.step s.kernel c).2.NonnegFds :=
    fun h => direct_nonneg h c
  obtain ⟨fs, f, hdir, hk⟩ := direct_update s.kernel hc
  rw [hk] at hnonneg ⊢
  refine ⟨rfl, rfl, ?_, fun fd' he => setFd_fds_of_ne _ _ _ _ he, fun _ _ => rfl, hnonneg⟩
  intro e ino he
  show fs.dir e = some ino
  rwa [hdir]

/-- A task was sent and the offset stored. -/
theorem touches_sent (s : System) (fd : Int) {w : World} (hw : Kept s.world w) (off : Int) :
    Touches fd s
      { s with world := w, clientMeta := s.clientMeta.updatePosixOffset fd off } where
  host := hw.host
  config := rfl
  dir := hw.dir
  fds := fun _ _ => congrFun hw.fds _
  posixFiles := fun _ he => FileTable.updateOffset_of_ne _ _ he off
  nonneg := hw.nonneg

/-- A call on a descriptor. -/
theorem touches_perform (s : System) {c : Call} (env : Env) {fd : Int} (hc : c.fd? = some fd) :
    Touches fd s (perform s c env).system := by
  cases hmeta : s.clientMeta.posixFiles fd with
  | none =>
    -- the real function answers
    cases c with
    | open64 path flags mode => cases hc
    | creat64 path mode => cases hc
    | read fd' buf count =>
      obtain rfl := Option.some.inj hc
      dsimp only [perform]
      rw [read_of_unregistered hmeta]
      exact touches_real s (c := .read fd' buf count) rfl
    | write fd' data =>
      obtain rfl := Option.some.inj hc
      dsimp only [perform]
      rw [write_of_unregistered hmeta]
      exact touches_real s (c := .write fd' data) rfl
    | lseek64 fd' off whence =>
      obtain rfl := Option.some.inj hc
      dsimp only [perform]
      rw [lseek64_of_unregistered hmeta]
      exact touches_real s (c := .lseek64 fd' off whence) rfl
    | close fd' =>
      obtain rfl := Option.some.inj hc
      dsimp only [perform]
      rw [close_of_unregistered hmeta]
      exact touches_real s (c := .close fd') rfl
  | some info =>
    -- reads and writes become tasks, which leave the application's descriptors alone
    cases c with
    | open64 path flags mode => cases hc
    | creat64 path mode => cases hc
    | read fd' buf count =>
      obtain rfl := Option.some.inj hc
      dsimp only [perform]
      rw [read_of_registered hmeta]
      exact touches_sent s fd' (kept_clientRead ..) _
    | write fd' data =>
      obtain rfl := Option.some.inj hc
      dsimp only [perform]
      rw [write_of_registered hmeta]
      exact touches_sent s fd' (kept_clientWrite ..) _
    | lseek64 fd' off whence =>
      obtain rfl := Option.some.inj hc
      have hreal := touches_real s (c := .lseek64 fd' off whence) rfl
      dsimp only [perform]
      rw [lseek64_of_registered hmeta]
      -- the kernel's part is that of the real call, the offset is stored if it succeeded
      refine ⟨hreal.host, rfl, hreal.dir, hreal.fds, ?_, hreal.nonneg⟩
      intro fd'' he
      dsimp only
      split
      · rfl
      · exact FileTable.updateOffset_of_ne _ _ he _
    | close fd' =>
      obtain rfl := Option.some.inj hc
      have hreal := touches_real s (c := .close fd') rfl
      dsimp only [perform]
      rw [close_of_registered hmeta]
      exact ⟨hreal.host, rfl, hreal.dir, hreal.fds,
        fun fd'' he => FileTable.unregister_of_ne _ _ he, hreal.nonneg⟩

/-- An `open` or `creat` touches the number it returns only, and that number was free. -/
theorem touches_afterOpen (s : System) (path : PathStr) (flags flags' mode : Nat) :
    (afterOpen path flags (s.kernel.open64 appPid path flags' mode) s).system = s ∨
    ∃ fd, s.kernel.fds appPid fd = none ∧
      Touches fd s (afterOpen path flags (s.kernel.open64 appPid path flags' mode) s).system := by
  unfold afterOpen
  rcases open64_cases s.kernel appPid path flags' mode with
    ho | ⟨fd, ino, fs, hfree, hentry, ho⟩
  · -- a failed open leaves everything as it is
    rw [ho]
    exact Or.inl rfl
  · obtain ⟨hfd, hnone⟩ := lowestFree_spec hfree
    rw [ho]
    dsimp only
    rw [if_neg (not_lt.mpr hfd)]
    right
    refine ⟨fd, hnone, ?_⟩
    have hdir : ∀ e i, s.kernel.fs.dir e = some i → fs.dir e = some i :=
      fun e i he => openEntry_dir_of_some hentry he
    have hfds : ∀ f fd', fd' ≠ fd → ((s.kernel.withFs fs).setFd appPid fd f).fds appPid fd' =
        s.kernel.fds appPid fd' := fun f fd' he => setFd_fds_of_ne _ _ _ f he
    have hnonneg : ∀ f, s.kernel.NonnegFds → ((s.kernel.withFs fs).setFd appPid fd f).NonnegFds :=
      fun f h => (h.withFs fs).setFd hfd f
    split
    · exact ⟨rfl, rfl, hdir, hfds _, fun fd' he => FileTable.register_of_ne _ _ he _ _, hnonneg _⟩
    · exact ⟨rfl, rfl, hdir, hfds _, fun _ _ => rfl, hnonneg _⟩

/-- Everything a call touches: nothing, the descriptor it is made on, or one that was free. -/
theorem perform_touches (s : System) (c : Call) (env : Env) :
    (perform s c env).system = s ∨
    ∃ fd, (c.fd? = some fd ∨ s.kernel.fds appPid fd = none) ∧
      Touches fd s (perform s c env).system := by
  cases hc : c.fd? with
  | some fd => exact Or.inr ⟨fd, Or.inl rfl, touches_perform s env hc⟩
  | none =>
    have of_open : ∀ {t}, t = s ∨ (∃ fd, s.kernel.fds appPid fd = none ∧ Touches fd s t) →
        t = s ∨ ∃ fd, (none = some fd ∨ s.kernel.fds appPid fd = none) ∧ Touches fd s t := by
      rintro t (h | ⟨fd, hnone, ht⟩)
      · exact Or.inl h
      · exact Or.inr ⟨fd, Or.inr hnone, ht⟩
    cases c with
    | open64 path flags mode => exact of_open (touches_afterOpen s path flags flags mode)
    | creat64 path mode => exact of_open (touches_afterOpen s path _ _ mode)
    | read => cases hc
    | write => cases hc
    | lseek64 => cases hc
    | close => cases hc

/-- **Frame.**  A call that is not on the open descriptor `fd` leaves it and its registration
alone. -/
theorem perform_frame (s : System) (c : Call) (env : Env) {fd : Int}
    (hopen : s.kernel.fds appPid fd ≠ none) (hne : c.fd? ≠ some fd) :
    (perform s c env).system.kernel.fds appPid fd = s.kernel.fds appPid fd ∧
    (perform s c env).system.clientMeta.posixFiles fd = s.clientMeta.posixFiles fd := by
  rcases perform_touches s c env with h | ⟨fd', hfd', ht⟩
  · rw [h]
    exact ⟨rfl, rfl⟩
  · have hdiff : fd ≠ fd' := by
      rintro rfl
      exact hfd'.elim hne hopen
    exact ⟨ht.fds fd hdiff, ht.posixFiles fd hdiff⟩

/-- No call binds a negative descriptor. -/
theorem perform_nonneg {s : System} (h : s.kernel.NonnegFds) (c : Call) (env : Env) :
    (perform s c env).system.kernel.NonnegFds := by
  rcases perform_touches s c env with hsame | ⟨_, -, ht⟩
  · rw [hsame]
    exact h
  · exact ht.nonneg h

/-- Every call keeps the host, the configuration and the binding of every entry. -/
theorem perform_kept (s : System) (c : Call) (env : Env) :
    (perform s c env).system.kernel.host = s.kernel.host ∧
    (perform s c env).system.config = s.config ∧
    ∀ e ino, s.kernel.fs.dir e = some ino →
      (perform s c env).system.kernel.fs.dir e = some ino := by
  rcases perform_touches s c env with h | ⟨_, -, ht⟩
  · rw [h]
    exact ⟨rfl, rfl, fun _ _ he => he⟩
  · exact ⟨ht.host, ht.config, ht.dir⟩

end DTIO.Adapter.Posix
