import DTIO.Adapter.Posix

/-!
# Stdio Adapter

`fopen`, `fwrite` and `fclose` of `stdio_api.cc` over the C library's own.  The adapter opens
the real stream in every case; an `fwrite` on a registered `FILE *` becomes a task and never
reaches that stream.  `fread`, `fgets` and `fseek` only return a constant.

## Main definitions

- `StdioApi.fopen`, `StdioApi.fwrite`, `StdioApi.fclose`: the C library's functions
- `Stdio.fopen`, `Stdio.fwrite`, `Stdio.fclose`: the intercepted ones
- `Program.step`: an application that uses both adapters, as a machine
-/

namespace DTIO.Adapter

open DTIO.Posix DTIO.Chimod DTIO.Client DTIO.ByteFile DTIO.MachineInt

/-- The application with the streams of its C library: for each live `FILE` its descriptor
and the bytes still in its buffer. -/
structure Program where
  sys : System
  files : FilePtr → Option Stream

def Program.withSys (p : Program) (s : System) : Program := { p with sys := s }

def Program.setFile (p : Program) (fp : FilePtr) (f : Option Stream) : Program :=
  { p with files := Function.update p.files fp f }

/-! ## The C library -/

namespace StdioApi

/-- The `open` flags of an `fopen` mode: the first character decides, of the six after it only
`+` and `x` count, and any other first character is refused. -/
def openFlags : List Char → Option Nat
  | [] => none
  | c :: rest =>
    let plus := '+' ∈ rest.take 6
    let excl := if 'x' ∈ rest.take 6 then oExcl else 0
    match c with
    | 'r' => some ((if plus then oRdwr else oRdonly) ||| excl)
    | 'w' => some ((if plus then oRdwr else oWronly) ||| oCreat ||| oTrunc ||| excl)
    | 'a' => some ((if plus then oRdwr else oWronly) ||| oCreat ||| oAppend ||| excl)
    | _ => none

/-- A stream at `fp`, the memory the library allocates for it, or null. -/
def fopen (filename : PathStr) (mode : List Char) (fp : FilePtr) (p : Program) :
    FilePtr × Program :=
  match openFlags mode with
  | none => (0, p)
  | some flags =>
    let r := p.sys.kernel.open64 appPid filename flags 0o666
    if r.1 < 0 then (0, p.withSys (p.sys.withKernel r.2))
    else (fp, (p.withSys (p.sys.withKernel r.2)).setFile fp (some ⟨r.1, []⟩))

/-- The bytes go to the buffer, and the first `env.flushed` bytes of the buffer to the file.
Returned is the number of items, fewer when the file takes less than it was given. -/
def fwrite (ptr : List Byte) (size count : Nat) (fp : FilePtr) (env : Env) (p : Program) :
    Nat × Program :=
  match p.files fp with
  | none => (0, p)
  | some f =>
    -- the standard: with no items or items of no bytes the result is 0
    if size * count = 0 then (0, p) else
    let buffer := f.pending ++ ptr.take (size * count)
    let out := buffer.take env.flushed
    let r := p.sys.kernel.write appPid f.fd out .full
    let p' := (p.withSys (p.sys.withKernel r.2)).setFile fp
      (some ⟨f.fd, buffer.drop r.1.toNat⟩)
    if r.1 = out.length then (count, p') else ((r.1.toNat - f.pending.length) / size, p')

/-- What is in the buffer is written, then the descriptor is closed; `-1` is `EOF`. -/
def fclose (fp : FilePtr) (p : Program) : Int × Program :=
  match p.files fp with
  | none => (-1, p)
  | some f =>
    let r := p.sys.kernel.write appPid f.fd f.pending .full
    let closed := r.2.close appPid f.fd
    (if r.1 = f.pending.length ∧ closed.1 = 0 then 0 else -1,
      (p.withSys (p.sys.withKernel closed.2)).setFile fp none)

end StdioApi

/-! ## The intercepted functions -/

namespace Stdio

/-- The flags `fopen` records.  They come from the letters of the mode alone, so `"a"` gives
`O_APPEND` without an access mode and without `O_CREAT`. -/
def modeFlags (mode : List Char) : Nat :=
  (if 'w' ∈ mode then oWronly else 0) ||| (if 'r' ∈ mode then oRdonly else 0) |||
    (if '+' ∈ mode then oRdwr else 0) ||| (if 'a' ∈ mode then oAppend else 0)

def fopen (filename : PathStr) (mode : List Char) (fp : FilePtr) (p : Program) :
    FilePtr × Program :=
  let r := StdioApi.fopen filename mode fp p
  -- a null pointer is returned as it is
  if r.1 = 0 then r
  else
    let absPath := absolute (p.sys.kernel.host.cwd appPid) filename
    if !r.2.sys.config.shouldIntercept absPath then r
    else
      (r.1, r.2.withSys { r.2.sys with
        clientMeta := r.2.sys.clientMeta.registerStdioFp r.1 absPath (modeFlags mode) })

/-- `size * count`, a `size_t`. -/
def totalSize (size count : Nat) : Nat := toUnsigned64 (size * count : Nat)

/-- The number of items, the program, and what the server's system calls returned if a task
was sent.  `ptr` is the memory at the caller's pointer. -/
def fwrite (ptr : List Byte) (size count : Nat) (fp : FilePtr) (env : Env) (p : Program) :
    Nat × Program × Option (ServerRun WriteTask) :=
  if !p.sys.clientMeta.isStdioFpRegistered fp then
    let r := StdioApi.fwrite ptr size count fp env p
    (r.1, r.2, none)
  else
    match p.sys.clientMeta.getStdioFileInfo fp with
    | some info =>
      -- the product is not checked for overflow
      let total := totalSize size count
      let shmBuf := copyTo (allocateBuffer env.stale total) (ptr.take total)
      let r := Client.write shmBuf total (toUnsigned64 info.currentOffset) info.absolutePath
        .kStdio env p.sys.world
      -- every item counts as written, whatever the server did
      (count,
        p.withSys { p.sys with
          world := r.world
          clientMeta := p.sys.clientMeta.updateStdioOffset fp (Posix.advance info total) },
        some r)
    | none =>
      let r := StdioApi.fwrite ptr size count fp env p
      (r.1, r.2, none)

def fclose (fp : FilePtr) (p : Program) : Int × Program :=
  -- nothing of what was sent to the server is flushed
  let p' :=
    if p.sys.clientMeta.isStdioFpRegistered fp then
      p.withSys { p.sys with clientMeta := p.sys.clientMeta.unregisterStdioFp fp }
    else p
  StdioApi.fclose fp p'

end Stdio

/-! ## Applications that use both adapters -/

/-- The intercepted calls of both adapters; for `fopen`, `fp` is where the C library
allocates. -/
inductive AppCall where
  | posix (c : Call)
  | fopen (filename : PathStr) (mode : List Char) (fp : FilePtr)
  | fwrite (ptr : List Byte) (size count : Nat) (fp : FilePtr)
  | fclose (fp : FilePtr)

namespace Program

/-- One call: what it returns and the program after it. -/
def step (p : Program) : AppCall × Env → Result × Program
  | (.posix c, env) =>
    let r := Posix.perform p.sys c env
    (r.result, p.withSys r.system)
  | (.fopen filename mode fp, _) =>
    let r := Stdio.fopen filename mode fp p
    (⟨r.1, []⟩, r.2)
  | (.fwrite ptr size count fp, env) =>
    let r := Stdio.fwrite ptr size count fp env p
    (⟨r.1, []⟩, r.2.1)
  | (.fclose fp, _) =>
    let r := Stdio.fclose fp p
    (⟨r.1, []⟩, r.2)

@[simp] theorem withSys_sys (p : Program) (s : System) : (p.withSys s).sys = s := rfl
@[simp] theorem setFile_sys (p : Program) (fp : FilePtr) (f : Option Stream) :
    (p.setFile fp f).sys = p.sys := rfl

end Program

/-! ## The calls one by one -/

/-- The C library's `fopen` changes neither the configuration nor the registered handles. -/
theorem StdioApi.fopen_sys (filename : PathStr) (mode : List Char) (fp : FilePtr) (p : Program) :
    (StdioApi.fopen filename mode fp p).2.sys.config = p.sys.config ∧
      (StdioApi.fopen filename mode fp p).2.sys.clientMeta = p.sys.clientMeta := by
  cases hflags : StdioApi.openFlags mode with
  | none => simp [StdioApi.fopen, hflags]
  | some flags =>
    simp only [StdioApi.fopen, hflags]
    split <;> exact ⟨rfl, rfl⟩

/-- Nor do its writes concern what is registered. -/
theorem StdioApi.fwrite_clientMeta (ptr : List Byte) (size count : Nat) (fp : FilePtr) (env : Env)
    (p : Program) :
    (StdioApi.fwrite ptr size count fp env p).2.sys.clientMeta = p.sys.clientMeta := by
  unfold StdioApi.fwrite
  split
  · rfl
  · dsimp only
    split
    · rfl
    · split <;> rfl

theorem StdioApi.fclose_clientMeta (fp : FilePtr) (p : Program) :
    (StdioApi.fclose fp p).2.sys.clientMeta = p.sys.clientMeta := by
  unfold StdioApi.fclose
  split <;> rfl

namespace Stdio

variable {p : Program} {fp : FilePtr}

/-- The task an `fwrite` sends, performed. -/
def sentFwrite (info : FileInfo) (data : List Byte) (env : Env) (p : Program) :
    ServerRun WriteTask :=
  Client.write data data.length (toUnsigned64 info.currentOffset) info.absolutePath .kStdio env
    p.sys.world

theorem totalSize_eq {size count : Nat} (h : size * count < 18446744073709551616) :
    totalSize size count = size * count := by
  unfold totalSize toUnsigned64
  omega

/-- An `fwrite` of a whole buffer on a registered stream. -/
theorem fwrite_of_registered {info : FileInfo} (h : p.sys.clientMeta.stdioFiles fp = some info)
    {ptr : List Byte} {size count : Nat} (hptr : ptr.length = size * count)
    (hsize : size * count < 18446744073709551616) (env : Env) :
    fwrite ptr size count fp env p =
      (count,
        p.withSys { p.sys with
          world := (sentFwrite info ptr env p).world
          clientMeta := p.sys.clientMeta.updateStdioOffset fp (Posix.advance info ptr.length) },
        some (sentFwrite info ptr env p)) := by
  have htotal : totalSize size count = ptr.length := (totalSize_eq hsize).trans hptr.symm
  have hbuf : copyTo (allocateBuffer env.stale ptr.length) ptr = ptr := by
    apply copyTo_of_length_le
    simp
  simp [fwrite, ClientMetadataManager.isStdioFpRegistered,
    ClientMetadataManager.getStdioFileInfo, FileTable.isRegistered, h, htotal, hbuf, sentFwrite]

/-- Everything an `fopen` of a path to be intercepted does: fail without effect, or open a
descriptor and register the stream. -/
theorem fopen_cases {filename : PathStr}
    (haccept : p.sys.config.shouldIntercept
      (absolute (p.sys.kernel.host.cwd appPid) filename) = true)
    (hfp : fp ≠ 0) (mode : List Char) :
    fopen filename mode fp p = (0, p) ∨
    ∃ (flags : Nat) (fd : Int) (ino : Ino) (fs : FileSystem),
      StdioApi.openFlags mode = some flags ∧ p.sys.kernel.lowestFree appPid = some fd ∧
      p.sys.kernel.fs.openEntry p.sys.kernel.host (p.sys.kernel.host.uid appPid)
        (p.sys.kernel.host.walk (absolute (p.sys.kernel.host.cwd appPid) filename)) flags 0o666 =
          some (ino, fs) ∧
      fopen filename mode fp p =
        (fp, (p.withSys { p.sys with
          world := p.sys.world.withKernel ((p.sys.kernel.withFs fs).setFd appPid fd
            (some ⟨ino, flags, 0, some (absolute (p.sys.kernel.host.cwd appPid) filename)⟩))
          clientMeta := p.sys.clientMeta.registerStdioFp fp
            (absolute (p.sys.kernel.host.cwd appPid) filename) (modeFlags mode) }).setFile fp
              (some ⟨fd, []⟩)) := by
  unfold fopen StdioApi.fopen
  cases hflags : StdioApi.openFlags mode with
  | none => simp
  | some flags =>
    rcases open64_cases p.sys.kernel appPid filename flags 0o666 with
      ho | ⟨fd, ino, fs, hfree, hentry, ho⟩
    · -- the real `open` failed
      left
      simp [ho]
      rfl
    · right
      have hfd : ¬ fd < 0 := not_lt.mpr (lowestFree_spec hfree).1
      refine ⟨flags, fd, ino, fs, rfl, hfree, hentry, ?_⟩
      simp [ho, hfd, hfp, haccept, System.withKernel, Program.withSys, Program.setFile]

end Stdio

end DTIO.Adapter
