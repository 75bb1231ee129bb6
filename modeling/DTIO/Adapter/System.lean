import DTIO.Chimod.Client
import DTIO.Client.Config
import DTIO.Client.Metadata

/-!
# The Application's View of the System

The state an intercepted call acts on, what a call returns to the application, and the calls
both adapters share with the plain kernel.
-/

namespace DTIO.Adapter

open DTIO.Posix DTIO.Chimod DTIO.Client DTIO.ByteFile DTIO.MachineInt

/-- The kernel and the containers, the application's metadata manager and its configuration. -/
structure System where
  world : World
  clientMeta : ClientMetadataManager
  config : ConfigurationManager

def System.kernel (s : System) : Kernel := s.world.kernel

def System.withKernel (s : System) (k : Kernel) : System :=
  { s with world := s.world.withKernel k }

/-- What the application gets back: the returned value and, for a read, its buffer. -/
structure Result where
  value : Int
  buf : List Byte
  deriving DecidableEq, Repr

/-- The outcome of an intercepted call.  `served` is what the server's system calls returned
if the call was sent to DTIO; the application does not see it. -/
structure Outcome where
  result : Result
  system : System
  served : Option Calls

/-- Every system call the server made for this call succeeded in full. -/
def Outcome.Complete (o : Outcome) (size : Nat) : Prop :=
  ∀ calls ∈ o.served, calls.complete size

instance (o : Outcome) (size : Nat) : Decidable (o.Complete size) :=
  inferInstanceAs (Decidable (∀ calls ∈ o.served, calls.complete size))

/-- `CHI_CLIENT->AllocateBuffer(n)`: shared memory with its previous content. -/
def allocateBuffer (stale : Nat → Byte) (n : Nat) : List Byte :=
  (List.range n).map stale

@[simp] theorem length_allocateBuffer (stale : Nat → Byte) (n : Nat) :
    (allocateBuffer stale n).length = n := by
  simp [allocateBuffer]

/-- The calls of an application that DTIO intercepts on POSIX descriptors. -/
inductive Call where
  | open64 (path : PathStr) (flags mode : Nat)
  | creat64 (path : PathStr) (mode : Nat)
  | read (fd : Int) (buf : List Byte) (count : Nat)
  | write (fd : Int) (data : List Byte)
  | lseek64 (fd off : Int) (whence : Whence)
  | close (fd : Int)
  deriving DecidableEq, Repr

/-- The number of bytes a call asks for. -/
def Call.size : Call → Nat
  | .read _ _ count => count
  | .write _ data => data.length
  | _ => 0

/-- The descriptor a call is made on. -/
def Call.fd? : Call → Option Int
  | .open64 .. | .creat64 .. => none
  | .read fd _ _ | .write fd _ | .lseek64 fd _ _ | .close fd => some fd

/-! ## The calls on the plain kernel -/

namespace Direct

/-- `read(fd, buf, count)` of the application. -/
def read (fd : Int) (buf : List Byte) (count : Nat) (k : Kernel) : Result × Kernel :=
  let r := k.read appPid fd count .full
  (⟨r.1, copyTo buf r.2.1⟩, r.2.2)

def write (fd : Int) (data : List Byte) (k : Kernel) : Result × Kernel :=
  let r := k.write appPid fd data .full
  (⟨r.1, []⟩, r.2)

/-- One call of an application that runs without DTIO. -/
def step (k : Kernel) : Call → Result × Kernel
  | .open64 path flags mode => let r := k.open64 appPid path flags mode; (⟨r.1, []⟩, r.2)
  | .creat64 path mode => let r := k.creat64 appPid path mode; (⟨r.1, []⟩, r.2)
  | .read fd buf count => read fd buf count k
  | .write fd data => write fd data k
  | .lseek64 fd off whence => let r := k.lseek64 appPid fd off whence; (⟨r.1, []⟩, r.2)
  | .close fd => let r := k.close appPid fd; (⟨r.1, []⟩, r.2)

end Direct

/-! ## A small deployment

One container and three files, for concrete runs: `/f` with the given content and
permissions, any other path that starts with `/f`, and everything else.  The application is
user 0, the container user 1, and every path is intercepted. -/

/-- Three bytes, the content of `/f` in most of the runs. -/
def threeBytes : Content := ⟨[1, 2, 3], by decide⟩

/-- The deployment before the application's first call. -/
def deployment (content : Content) (perm : Uid → Perm) : System where
  world :=
    { kernel :=
        { host :=
            { walk := fun path =>
                if path = ['/', 'f'] then 0 else if path.take 2 = ['/', 'f'] then 1 else 2
              mayCreate := fun _ _ => true
              uid := fun pid => if pid = appPid then 0 else 1
              cwd := fun _ => ⟨['/'], rfl⟩
              fdLimit := 8 }
          fs :=
            { dir := fun e => if e = 0 then some 0 else none
              inodes := fun _ => ⟨content, perm⟩
              nextIno := 1
              bound := by
                intro e ino h
                split at h
                · exact (Option.some.inj h).symm ▸ Nat.zero_lt_one
                · cases h }
          fds := fun _ _ => none }
      containers := fun _ => ⟨fun _ => none, 0, []⟩
      select := fun _ => 0 }
  clientMeta := .empty
  config := ⟨[⟨['/'], true⟩]⟩

/-- Everyone may read and write. -/
def openToAll : Uid → Perm := fun _ => ⟨true, true⟩

end DTIO.Adapter
