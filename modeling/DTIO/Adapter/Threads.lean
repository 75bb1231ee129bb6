import DTIO.Adapter.Posix
import DTIO.Foundation.Interleaving

/-!
# Threads Inside Intercepted Calls

The intercepted POSIX calls broken into atomic steps: each real system call, each call of a
metadata-manager function, each access through a `FileInfo *` and the server's part of a task
is one step, and steps of other threads may come between any two.

## Main definitions

- `Pc`: where a thread stands inside a call
- `begin`, `next`: the first and the later atomic steps
- `Shared`: the system with what was sent to the server and what the calls returned

## Main results

- `alone_perform`: a call that no other thread interrupts does what `Posix.perform` says
-/

namespace DTIO.Adapter.Threads

open DTIO.Posix DTIO.Chimod DTIO.Client DTIO.ByteFile DTIO.MachineInt

/-! ## Control points -/

/-- A `read` or `write`, without its descriptor. -/
inductive Io where
  | read (buf : List Byte) (count : Nat)
  | write (data : List Byte)
  deriving DecidableEq, Repr

def Io.call (fd : Int) : Io → Call
  | .read buf count => .read fd buf count
  | .write data => .write fd data

def Io.size : Io → Nat
  | .read _ count => count
  | .write data => data.length

/-- What stands between two atomic steps of a thread. -/
inductive Pc where
  /-- Between two calls. -/
  | idle
  /-- `open` or `creat`: the real call returned `fd`. -/
  | opened (c : Call) (fd : Int) (path : PathStr) (flags : Nat)
  /-- `close`: the descriptor was found registered. -/
  | unregister (fd : Int)
  /-- `close`: it is not registered, or no longer. -/
  | realClose (fd : Int)
  /-- `read`, `write`, `lseek`: the real function will answer. -/
  | real (fd : Int) (c : Call)
  /-- `read`, `write`: the descriptor was found registered. -/
  | lookup (fd : Int) (io : Io)
  /-- The `FileInfo *` is at hand. -/
  | prepare (fd : Int) (io : Io)
  /-- `current_offset` was read and the task sent. -/
  | submitted (fd : Int) (io : Io) (path : PathStr) (offset : Int)
  /-- The task is done. -/
  | finish (fd : Int) (io : Io) (r : Result)
  /-- `current_offset + count` was computed. -/
  | update (fd : Int) (io : Io) (r : Result) (newOffset : Int)
  /-- `lseek`: the descriptor was found registered. -/
  | seek (fd off : Int) (whence : Whence)
  /-- `lseek`: the real call returned `pos`. -/
  | seekLookup (fd off : Int) (whence : Whence) (pos : Int)
  /-- `lseek`: the entry was found. -/
  | seekUpdate (fd off : Int) (whence : Whence) (pos : Int)
  /-- A `FileInfo *` was used after its entry was erased. -/
  | dangling
  deriving DecidableEq, Repr

/-- A task sent to the server: through which descriptor, at which offset, how many bytes. -/
structure Sent where
  fd : Int
  offset : Int
  size : Nat
  deriving DecidableEq, Repr

/-- What all threads share.  `sent` and `returned` record the past, newest first. -/
structure Shared where
  sys : System
  sent : List Sent
  returned : List (Call × Result)

def Shared.withSys (sh : Shared) (s : System) : Shared := { sh with sys := s }

/-- The call returns to the application. -/
def Shared.return (sh : Shared) (c : Call) (r : Result) : Shared × Pc :=
  ({ sh with returned := (c, r) :: sh.returned }, .idle)

/-! ## Atomic steps -/

/-- What `open` and `creat` do first. -/
def beginOpen (c : Call) (path : PathStr) (flags : Nat) (r : Int × Kernel) (sh : Shared) :
    Shared × Pc :=
  let sh' := sh.withSys (sh.sys.withKernel r.2)
  if r.1 < 0 then sh'.return c ⟨r.1, []⟩
  else (sh', .opened c r.1 (absolute (sh.sys.kernel.host.cwd appPid) path) flags)

/-- The first atomic step of a call: the real `open`, or `IsPosixFdRegistered`. -/
def begin (sh : Shared) : Call → Shared × Pc
  | .open64 path flags mode =>
    beginOpen (.open64 path flags mode) path flags
      (sh.sys.kernel.open64 appPid path flags mode) sh
  | .creat64 path mode =>
    beginOpen (.creat64 path mode) path (oCreat ||| oWronly ||| oTrunc)
      (sh.sys.kernel.creat64 appPid path mode) sh
  | .read fd buf count =>
    if !sh.sys.clientMeta.isPosixFdRegistered fd then (sh, .real fd (.read fd buf count))
    else (sh, .lookup fd (.read buf count))
  | .write fd data =>
    if !sh.sys.clientMeta.isPosixFdRegistered fd then (sh, .real fd (.write fd data))
    else (sh, .lookup fd (.write data))
  | .lseek64 fd off whence =>
    if !sh.sys.clientMeta.isPosixFdRegistered fd then (sh, .real fd (.lseek64 fd off whence))
    else (sh, .seek fd off whence)
  | .close fd =>
    if !sh.sys.clientMeta.isPosixFdRegistered fd then (sh, .realClose fd)
    else (sh, .unregister fd)

/-- The server's part of a task, and what the call is going to return. -/
def perform (io : Io) (path : PathStr) (offset : Int) (env : Env) (w : World) : Result × World :=
  match io with
  | .read buf count =>
    let r := Client.read (allocateBuffer env.stale count) count (toUnsigned64 offset) path
      .kPosix env w
    (⟨toSigned64 count, copyTo buf (r.task.data.take count)⟩, r.world)
  | .write data =>
    let shmBuf := copyTo (allocateBuffer env.stale data.length) data
    let r := Client.write shmBuf data.length (toUnsigned64 offset) path .kPosix env w
    (⟨toSigned64 data.length, []⟩, r.world)

/-- The next atomic step of a call. -/
def next (env : Env) (sh : Shared) : Pc → Shared × Pc
  | .idle => (sh, .idle)
  -- `ShouldIntercept` and `RegisterPosixFd`; the configuration does not change
  | .opened c fd path flags =>
    if sh.sys.config.shouldIntercept path then
      (sh.withSys { sh.sys with
        clientMeta := sh.sys.clientMeta.registerPosixFd fd path flags }).return c ⟨fd, []⟩
    else sh.return c ⟨fd, []⟩
  | .unregister fd =>
    (sh.withSys { sh.sys with clientMeta := sh.sys.clientMeta.unregisterPosixFd fd },
      .realClose fd)
  | .realClose fd =>
    let r := sh.sys.kernel.close appPid fd
    (sh.withSys (sh.sys.withKernel r.2)).return (.close fd) ⟨r.1, []⟩
  | .real _ c =>
    let r := Direct.step sh.sys.kernel c
    (sh.withSys (sh.sys.withKernel r.2)).return c r.1
  -- `GetPosixFileInfo` locks again; the entry may be gone by now
  | .lookup fd io =>
    match sh.sys.clientMeta.getPosixFileInfo fd with
    | some _ => (sh, .prepare fd io)
    | none => (sh, .real fd (io.call fd))
  -- the arguments of the task are read through the pointer, without the lock
  | .prepare fd io =>
    match sh.sys.clientMeta.posixFiles fd with
    | some info =>
      ({ sh with sent := ⟨fd, info.currentOffset, io.size⟩ :: sh.sent },
        .submitted fd io info.absolutePath info.currentOffset)
    | none => (sh, .dangling)
  -- the server's part, then `Wait` returns
  | .submitted fd io path offset =>
    let r := perform io path offset env sh.sys.world
    (sh.withSys { sh.sys with world := r.2 }, .finish fd io r.1)
  -- `current_offset` is read a second time
  | .finish fd io r =>
    match sh.sys.clientMeta.posixFiles fd with
    | some info => (sh, .update fd io r (Posix.advance info io.size))
    | none => (sh, .dangling)
  -- the lock covers the store only
  | .update fd io r newOffset =>
    (sh.withSys { sh.sys with
      clientMeta := sh.sys.clientMeta.updatePosixOffset fd newOffset }).return (io.call fd) r
  | .seek fd off whence =>
    let r := sh.sys.kernel.lseek64 appPid fd off whence
    let sh' := sh.withSys (sh.sys.withKernel r.2)
    if r.1 < 0 then sh'.return (.lseek64 fd off whence) ⟨r.1, []⟩
    else (sh', .seekLookup fd off whence r.1)
  | .seekLookup fd off whence pos =>
    match sh.sys.clientMeta.getPosixFileInfo fd with
    | some _ => (sh, .seekUpdate fd off whence pos)
    | none => sh.return (.lseek64 fd off whence) ⟨pos, []⟩
  | .seekUpdate fd off whence pos =>
    (sh.withSys { sh.sys with
      clientMeta := sh.sys.clientMeta.updatePosixOffset fd pos }).return
        (.lseek64 fd off whence) ⟨pos, []⟩
  | .dangling => (sh, .dangling)

/-- An idle thread may begin a call, another one goes on with its own. -/
inductive Input where
  | begin (c : Call)
  | go (env : Env)

/-- One atomic step of a thread; an input that does not fit changes nothing. -/
def act : Input → Pc → Shared → Shared × Pc
  | .begin c, .idle, sh => begin sh c
  | .begin _, p, sh => (sh, p)
  | .go env, p, sh => next env sh p

/-! ## Without interruption -/

/-- A call and as many further steps as any call takes. -/
def alone (c : Call) (env : Env) (sh : Shared) : Shared × Pc :=
  (fun r => next env r.1 r.2)^[5] (begin sh c)

theorem alone_open (c : Call) (path : PathStr) (flags : Nat) (r : Int × Kernel) (env : Env)
    (sh : Shared) :
    ∃ sent, (fun r => next env r.1 r.2)^[5] (beginOpen c path flags r sh) =
      (⟨(Posix.afterOpen path flags r sh.sys).system, sent,
        (c, (Posix.afterOpen path flags r sh.sys).result) :: sh.returned⟩, .idle) := by
  refine ⟨sh.sent, ?_⟩
  unfold beginOpen Posix.afterOpen
  dsimp only
  split
  · rfl
  · -- one more step registers the number or not, the remaining ones do nothing
    show (fun r => next env r.1 r.2)^[4] (next env _ (.opened ..)) = _
    unfold next
    show (fun r => next env r.1 r.2)^[4]
      (if sh.sys.config.shouldIntercept _ = true then _ else _) = _
    split <;> rfl

section Begin

variable {sh : Shared} {fd : Int}

/-- A descriptor that is not registered goes to the real function. -/
theorem begin_unregistered (h : sh.sys.clientMeta.posixFiles fd = none) (c : Call)
    (hc : c.fd? = some fd) (hclose : c ≠ .close fd) : begin sh c = (sh, .real fd c) := by
  cases c with
  | open64 path flags mode => cases hc
  | creat64 path mode => cases hc
  | close fd' => exact absurd (congrArg Call.close (Option.some.inj hc)) hclose
  | read fd' buf count =>
    obtain rfl := Option.some.inj hc
    simp [begin, ClientMetadataManager.isPosixFdRegistered, FileTable.isRegistered, h]
  | write fd' data =>
    obtain rfl := Option.some.inj hc
    simp [begin, ClientMetadataManager.isPosixFdRegistered, FileTable.isRegistered, h]
  | lseek64 fd' off whence =>
    obtain rfl := Option.some.inj hc
    simp [begin, ClientMetadataManager.isPosixFdRegistered, FileTable.isRegistered, h]

/-- A registered one goes to DTIO. -/
theorem begin_registered {info : FileInfo} (h : sh.sys.clientMeta.posixFiles fd = some info)
    (io : Io) : begin sh (io.call fd) = (sh, .lookup fd io) := by
  cases io with
  | read buf count =>
    simp [Io.call, begin, ClientMetadataManager.isPosixFdRegistered, FileTable.isRegistered, h]
  | write data =>
    simp [Io.call, begin, ClientMetadataManager.isPosixFdRegistered, FileTable.isRegistered, h]

theorem begin_lseek64_registered {info : FileInfo}
    (h : sh.sys.clientMeta.posixFiles fd = some info) (off : Int) (whence : Whence) :
    begin sh (.lseek64 fd off whence) = (sh, .seek fd off whence) := by
  simp [begin, ClientMetadataManager.isPosixFdRegistered, FileTable.isRegistered, h]

theorem begin_close_registered {info : FileInfo}
    (h : sh.sys.clientMeta.posixFiles fd = some info) :
    begin sh (.close fd) = (sh, .unregister fd) := by
  simp [begin, ClientMetadataManager.isPosixFdRegistered, FileTable.isRegistered, h]

theorem begin_close_unregistered (h : sh.sys.clientMeta.posixFiles fd = none) :
    begin sh (.close fd) = (sh, .realClose fd) := by
  simp [begin, ClientMetadataManager.isPosixFdRegistered, FileTable.isRegistered, h]

/-- The task goes to the offset that is stored now. -/
theorem next_prepare {info : FileInfo} (h : sh.sys.clientMeta.posixFiles fd = some info)
    (env : Env) (io : Io) :
    next env sh (.prepare fd io) =
      ({ sh with sent := ⟨fd, info.currentOffset, io.size⟩ :: sh.sent },
        .submitted fd io info.absolutePath info.currentOffset) := by
  simp only [next, h]

/-- The new offset is computed from the one stored now. -/
theorem next_finish {info : FileInfo} (h : sh.sys.clientMeta.posixFiles fd = some info)
    (env : Env) (io : Io) (r : Result) :
    next env sh (.finish fd io r) = (sh, .update fd io r (Posix.advance info io.size)) := by
  simp only [next, h]

theorem alone_io {info : FileInfo} (h : sh.sys.clientMeta.posixFiles fd = some info) (io : Io)
    (env : Env) :
    (fun r => next env r.1 r.2)^[5] (sh, .lookup fd io) =
      (⟨{ sh.sys with
          world := (perform io info.absolutePath info.currentOffset env sh.sys.world).2
          clientMeta :=
            sh.sys.clientMeta.updatePosixOffset fd (Posix.advance info io.size) },
        ⟨fd, info.currentOffset, io.size⟩ :: sh.sent,
        (io.call fd, (perform io info.absolutePath info.currentOffset env sh.sys.world).1) ::
          sh.returned⟩, .idle) := by
  simp only [Function.iterate_succ, Function.comp_apply, Function.iterate_zero, id, next,
    ClientMetadataManager.getPosixFileInfo, h, Shared.withSys, Shared.return]

end Begin

/-- **Without interruption** the atomic steps of a call add up to the call. -/
theorem alone_perform (c : Call) (env : Env) (sh : Shared) :
    ∃ sent, alone c env sh =
      (⟨(Posix.perform sh.sys c env).system, sent,
        (c, (Posix.perform sh.sys c env).result) :: sh.returned⟩, .idle) := by
  unfold alone
  cases c with
  | open64 path flags mode => exact alone_open _ path flags _ env sh
  | creat64 path mode => exact alone_open _ path _ _ env sh
  | read fd buf count =>
    cases h : sh.sys.clientMeta.posixFiles fd with
    | none =>
      refine ⟨sh.sent, ?_⟩
      rw [begin_unregistered h (.read fd buf count) rfl (by simp), Posix.perform,
        Posix.read_of_unregistered h]
      rfl
    | some info =>
      -- found, looked up, sent, performed, and the offset stored
      refine ⟨⟨fd, info.currentOffset, count⟩ :: sh.sent, ?_⟩
      have hbegin := begin_registered h (.read buf count)
      dsimp only [Io.call] at hbegin
      rw [hbegin, Posix.perform, Posix.read_of_registered h, alone_io h]
      rfl
  | write fd data =>
    cases h : sh.sys.clientMeta.posixFiles fd with
    | none =>
      refine ⟨sh.sent, ?_⟩
      rw [begin_unregistered h (.write fd data) rfl (by simp), Posix.perform,
        Posix.write_of_unregistered h]
      rfl
    | some info =>
      refine ⟨⟨fd, info.currentOffset, data.length⟩ :: sh.sent, ?_⟩
      have hbegin := begin_registered h (.write data)
      have hbuf : copyTo (allocateBuffer env.stale data.length) data = data :=
        copyTo_of_length_le (by simp)
      dsimp only [Io.call] at hbegin
      rw [hbegin, Posix.perform, Posix.write_of_registered h, alone_io h]
      simp only [perform, hbuf, Posix.sentWrite, Io.call, Io.size]
  | lseek64 fd off whence =>
    refine ⟨sh.sent, ?_⟩
    cases h : sh.sys.clientMeta.posixFiles fd with
    | none =>
      rw [begin_unregistered h (.lseek64 fd off whence) rfl (by simp), Posix.perform,
        Posix.lseek64_of_unregistered h]
      rfl
    | some info =>
      rw [Posix.perform, Posix.lseek64_of_registered h]
      rw [begin_lseek64_registered h]
      -- a refused seek returns at once, an accepted one stores the position
      by_cases hneg : (sh.sys.kernel.lseek64 appPid fd off whence).1 < 0
      · simp [Function.iterate_succ, next, hneg, Shared.withSys, Shared.return, System.withKernel]
      · simp [Function.iterate_succ, next, hneg, h, Shared.withSys, Shared.return,
          System.withKernel, ClientMetadataManager.getPosixFileInfo]
  | close fd =>
    refine ⟨sh.sent, ?_⟩
    cases h : sh.sys.clientMeta.posixFiles fd with
    | none =>
      rw [begin_close_unregistered h, Posix.perform, Posix.close_of_unregistered h]
      rfl
    | some info =>
      rw [begin_close_registered h, Posix.perform, Posix.close_of_registered h]
      rfl

end DTIO.Adapter.Threads
