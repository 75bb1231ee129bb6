import DTIO.Adapter.Posix
import DTIO.Chimod.Effects
import DTIO.Foundation.Mealy

/-!
# The File of a Descriptor

A POSIX descriptor denotes the file its `open` returned, whatever becomes of the path.  A task
carries the recorded path instead, and the server opens that path with `O_CREAT`.  Both lead to
one file exactly as long as the path is bound to it and the server can open it: after `unlink`
the server creates the path anew, after a new file was created there the task goes to the new
file, and a server that cannot open the file reads and writes nothing.

## Main definitions

- `track`: the adapter together with the file that each descriptor's `open` returned
- `OwnFile`: the server acted on this file and on no other
- `StillNamed`: the recorded path leads to the file, and the server can open it

## Main results

- `ownFile_iff`: one transfer
- `file_identity_iff`: runs of opens, transfers, unlinks and closes
- `unlinked_path_revived`: a write after `unlink` makes the path exist again
-/

namespace DTIO.Properties.FileIdentity

open DTIO.Posix DTIO.Chimod DTIO.Client DTIO.ByteFile DTIO.MachineInt DTIO.Mealy
open DTIO.Adapter DTIO.Adapter.Posix

/-! ## Descriptors and their files -/

/-- The system, and for each descriptor the file that its `open` or `creat` returned. -/
structure Tracked where
  sys : System
  origin : Int → Option Ino

/-- The calls that return a new descriptor. -/
def opens : FileCall → Bool
  | .posix (.open64 ..) | .posix (.creat64 ..) => true
  | _ => false

/-- One call; a descriptor that it returns is recorded with its file. -/
def track (t : Tracked) (i : FileCall × Env) : Result × Tracked :=
  let o := performFile t.sys i.1 i.2
  (o.result, ⟨o.system,
    if opens i.1 && decide (0 ≤ o.result.value) then
      Function.update t.origin o.result.value
        ((o.system.kernel.fds appPid o.result.value).map (·.ino))
    else t.origin⟩)

/-- A transfer that took `s` to `t` acted on the file `ino` and on no other: the server's
descriptor denotes it, it holds `content` afterwards, no directory entry was bound or unbound,
and no other file changed. -/
structure OwnFile (s t : System) (calls : Calls) (ino : Ino) (content : Content) : Prop where
  file : ∃ f, t.kernel.fds (pidOf (Client.server s.world)) calls.fd = some f ∧ f.ino = ino
  content : (t.kernel.fs.inodes ino).content = content
  dir : t.kernel.fs.dir = s.kernel.fs.dir
  others : ∀ i, i ≠ ino → t.kernel.fs.inodes i = s.kernel.fs.inodes i

/-- Where the server's seek leaves its descriptor. -/
def serverPos (info : FileInfo) (env : Env) : Nat :=
  seekPos env.fault (toUnsigned64 info.currentOffset)

/-- The buffer of a read: the bytes obtained from the file `ino` cover what shared memory held
before, and that is copied out. -/
def readBuffer (s : System) (info : FileInfo) (ino : Ino) (buf : List Byte) (count : Nat)
    (env : Env) : List Byte :=
  copyTo buf ((copyTo (allocateBuffer env.stale count)
    (obtainedBytes env.fault.transfer s.kernel.fs ino (serverPos info env) count)).take count)

/-- The content of the file `ino` after a write: the bytes that the server's `write` moves are
in it where the seek left the server. -/
def writtenContent (s : System) (info : FileInfo) (ino : Ino) (data : List Byte) (env : Env) :
    Content :=
  (s.kernel.fs.inodes ino).content.write (serverPos info env)
    (movedBytes env.fault.transfer (serverPos info env) data)

/-- A read or write on a registered descriptor acts on the descriptor's file: a read obtains
bytes of it and leaves it alone, a write places its bytes in it. -/
def ActsOnOwnFile (t : Tracked) (i : FileCall × Env) : Prop :=
  let o := performFile t.sys i.1 i.2
  match i.1 with
  | .posix (.read fd buf count) =>
    ∀ info ∈ t.sys.clientMeta.posixFiles fd, ∀ ino ∈ t.origin fd, ∃ calls ∈ o.served,
      OwnFile t.sys o.system calls ino (t.sys.kernel.fs.inodes ino).content ∧
        o.result.buf = readBuffer t.sys info ino buf count i.2
  | .posix (.write fd data) =>
    ∀ info ∈ t.sys.clientMeta.posixFiles fd, ∀ ino ∈ t.origin fd, ∃ calls ∈ o.served,
      OwnFile t.sys o.system calls ino (writtenContent t.sys info ino data i.2)
  | _ => True

/-- The path leads to the file `ino` and the server can open it: the environment does not fail
its `open64`, it has a descriptor left, and the file permits it. -/
def Stands (s : System) (path : PathStr) (ino : Ino) (env : Env) : Prop :=
  s.kernel.fs.dir (s.kernel.host.walk path) = some ino ∧
    env.fault.openFails = false ∧ CanOpen s.kernel (pidOf (Client.server s.world)) ino

/-- The path recorded for `fd` leads to the file that the `open` of `fd` returned, and the
server can open it. -/
def PathStands (t : Tracked) (fd : Int) (env : Env) : Prop :=
  ∀ info ∈ t.sys.clientMeta.posixFiles fd, ∀ ino ∈ t.origin fd,
    Stands t.sys info.absolutePath ino env

/-- A read or write comes while the path of its descriptor stands. -/
def StillNamed (t : Tracked) (i : FileCall × Env) : Prop :=
  match i.1 with
  | .posix (.read fd ..) | .posix (.write fd ..) => PathStands t fd i.2
  | _ => True

/-! ## One transfer -/

section Transfer

variable {s t : System} {path : PathStr} {env : Env} {calls : Calls} {ino : Ino}

/-- A path that stands is opened as it is: nothing is created. -/
theorem Stands.opening (h : Stands s path ino env) (hpath : path.head? = some '/') :
    ∃ fd, serverOpening s path env = some (fd, ino, s.kernel.fs) := by
  obtain ⟨hbound, hcan⟩ := h
  obtain ⟨o, ho⟩ := Option.isSome_iff_exists.mp
    ((opening_isSome_iff 0o664 env.fault hpath hbound).mpr hcan)
  obtain ⟨-, -, -, hentry⟩ := opening_some ho
  rw [absolute_of_head hpath, openEntry_existing hbound (by decide) (by decide)] at hentry
  split at hentry
  · obtain ⟨hino, hfs⟩ := Prod.mk.inj (Option.some.inj hentry)
    exact ⟨o.1, ho.trans (by rw [hino, hfs])⟩
  · cases hentry

/-- What was opened has a descriptor, on the file that the directory then names. -/
theorem opened_file (o : Int × Ino × FileSystem) (pos pos' : Nat) (bytes : List Byte)
    (ht : t.kernel = opened s.kernel (pidOf (Client.server s.world)) path serverFlags pos'
      (written o pos bytes)) :
    t.kernel.fds (pidOf (Client.server s.world)) o.1 = some ⟨o.2.1, serverFlags, pos',
      some (absolute (s.kernel.host.cwd (pidOf (Client.server s.world))) path)⟩ := by
  rw [ht]
  exact setFd_fds_self _ _ _ _

/-- **One task.**  A served task places its bytes in the file `ino` and concerns no other if and
only if its path stands for `ino`. -/
theorem ownFile_iff {pos : Nat} {bytes : List Byte}
    (h : Served s.kernel (pidOf (Client.server s.world)) path serverFlags 0o664 env.fault pos
      bytes calls.fd t.kernel) (hneg : s.kernel.NonnegFds) (hpath : path.head? = some '/') :
    OwnFile s t calls ino ((s.kernel.fs.inodes ino).content.write pos bytes) ↔
      Stands s path ino env := by
  cases h with
  | refused ho hfd hk =>
    -- nothing was opened, so the server has no descriptor for the transfer
    constructor
    · intro hown
      obtain ⟨f, hf, -⟩ := hown.file
      rw [hk, hfd, hneg.negative _ (-1) (by decide)] at hf
      cases hf
    · intro hstands
      obtain ⟨fd, hopens⟩ := hstands.opening hpath
      cases (show serverOpening s path env = none from ho).symm.trans hopens
  | served o pos' ho hfd hk =>
    have hfile := opened_file o pos pos' bytes hk
    constructor
    · -- the server's descriptor tells which file was opened, the directory that it was there
      intro hown
      obtain ⟨f, hf, hino⟩ := hown.file
      rw [hfd, hfile] at hf
      obtain rfl := Option.some.inj hf
      obtain ⟨-, -, -, hentry⟩ := opening_some ho
      rw [absolute_of_head hpath] at hentry
      have hdir : t.kernel.fs.dir =
          Function.update s.kernel.fs.dir (s.kernel.host.walk path) (some o.2.1) := by
        rw [hk]
        show o.2.2.dir = _
        exact openEntry_dir hentry
      have hbound : s.kernel.fs.dir (s.kernel.host.walk path) = some ino := by
        rw [← hown.dir, hdir, Function.update_self]
        exact congrArg some hino
      exact ⟨hbound, (opening_isSome_iff 0o664 env.fault hpath hbound).mp
        (Option.isSome_iff_exists.mpr ⟨o, ho⟩)⟩
    · -- the file was there, so the bytes are all that is new
      intro hstands
      obtain ⟨fd, hopens⟩ := hstands.opening hpath
      obtain rfl := Option.some.inj
        ((show serverOpening s path env = some o from ho).symm.trans hopens)
      refine ⟨⟨_, hfd ▸ hfile, rfl⟩, ?_, ?_, ?_⟩
      · rw [hk]
        simp [opened, written, FileSystem.setContent]
      · rw [hk]
        rfl
      · intro i hi
        rw [hk]
        exact Function.update_of_ne hi _ _

/-- A write that is sent acts on what the server finds at the recorded path. -/
theorem sentWrite_served (hneg : s.kernel.NonnegFds) {info : FileInfo}
    (hpath : info.absolutePath.head? = some '/') (data : List Byte) (env : Env) :
    Served s.kernel (pidOf (Client.server s.world)) info.absolutePath serverFlags 0o664 env.fault
      (serverPos info env) (movedBytes env.fault.transfer (serverPos info env) data)
      (sentWrite info data env s).calls.fd (sentWrite info data env s).world.kernel := by
  have hserved := Server.writePosix_served hneg
    (Client.server s.world)
    ⟨data, toUnsigned64 info.currentOffset, data.length, info.absolutePath, .kPosix⟩ env
  rw [stripScheme_of_head hpath] at hserved
  simp only [IoTask.payload, List.take_length] at hserved
  exact hserved

theorem sentRead_served (hneg : s.kernel.NonnegFds) {info : FileInfo}
    (hpath : info.absolutePath.head? = some '/') (count : Nat) (env : Env) :
    Served s.kernel (pidOf (Client.server s.world)) info.absolutePath serverFlags 0o664 env.fault
      (serverPos info env) [] (sentRead info count env s).calls.fd
      (sentRead info count env s).world.kernel := by
  have hserved := Server.readPosix_served (w := (Client.schedule s.world).2) hneg
    (Client.server s.world) ⟨allocateBuffer env.stale count, toUnsigned64 info.currentOffset,
      count, info.absolutePath, .kPosix⟩ env
  rwa [stripScheme_of_head hpath] at hserved

/-- A read through a path that stands for `ino` obtains bytes of `ino`. -/
theorem Stands.sentRead_data {info : FileInfo} (h : Stands s info.absolutePath ino env)
    (hneg : s.kernel.NonnegFds) (hpath : info.absolutePath.head? = some '/') (count : Nat) :
    (sentRead info count env s).task.data = copyTo (allocateBuffer env.stale count)
      (obtainedBytes env.fault.transfer s.kernel.fs ino (serverPos info env) count) := by
  obtain ⟨fd, hopens⟩ := h.opening hpath
  refine Server.readPosix_data (w := (Client.schedule s.world).2) hneg
    (Client.server s.world) ⟨allocateBuffer env.stale count, toUnsigned64 info.currentOffset,
      count, info.absolutePath, .kPosix⟩ env (o := (fd, ino, s.kernel.fs)) ?_
  unfold Server.openingPosix
  rw [stripScheme_of_head hpath]
  exact hopens

end Transfer

/-! ## Registered descriptors -/

/-- Every registered descriptor is open, on the file that its `open` returned, and the recorded
path is absolute. -/
structure Inv (t : Tracked) : Prop where
  nonneg : t.sys.kernel.NonnegFds
  path : ∀ fd info, t.sys.clientMeta.posixFiles fd = some info →
    info.absolutePath.head? = some '/'
  file : ∀ fd info, t.sys.clientMeta.posixFiles fd = some info →
    ∃ f, t.sys.kernel.fds appPid fd = some f ∧ t.origin fd = some f.ino

/-- **One call.**  It acts on its descriptor's own file if and only if the path of that
descriptor stands. -/
theorem actsOnOwnFile_iff {t : Tracked} (h : Inv t) (i : FileCall × Env) :
    ActsOnOwnFile t i ↔ StillNamed t i := by
  obtain ⟨c, env⟩ := i
  -- only a read or write of a registered descriptor is sent
  cases c with
  | unlink path allowed => exact Iff.rfl
  | posix c =>
    cases c with
    | read fd buf count =>
      refine forall₂_congr fun info hinfo => forall₂_congr fun ino _ => ?_
      have hread := read_of_registered hinfo buf count env
      have hpath := h.path fd info hinfo
      have hserved : Served t.sys.kernel (pidOf (Client.server t.sys.world)) info.absolutePath
          serverFlags 0o664 env.fault (serverPos info env) []
          (sentRead info count env t.sys).calls.fd
          (Posix.read fd buf count env t.sys).system.kernel := by
        rw [hread]
        exact sentRead_served h.nonneg hpath count env
      have hown := @ownFile_iff _ _ _ _ _ ino _ _ hserved h.nonneg hpath
      rw [Content.write_nil] at hown
      constructor
      · rintro ⟨calls, hcalls, hacts, -⟩
        obtain rfl := Option.some.inj ((congrArg Outcome.served hread).symm.trans hcalls)
        exact hown.mp hacts
      · intro hstands
        refine ⟨_, congrArg Outcome.served hread, hown.mpr hstands, ?_⟩
        show (Posix.read fd buf count env t.sys).result.buf = _
        rw [hread, readBuffer, ← hstands.sentRead_data h.nonneg hpath count]
    | write fd data =>
      refine forall₂_congr fun info hinfo => forall₂_congr fun ino _ => ?_
      have hwrite := write_of_registered hinfo data env
      have hpath := h.path fd info hinfo
      have hserved : Served t.sys.kernel (pidOf (Client.server t.sys.world)) info.absolutePath
          serverFlags 0o664 env.fault (serverPos info env)
          (movedBytes env.fault.transfer (serverPos info env) data)
          (sentWrite info data env t.sys).calls.fd
          (Posix.write fd data env t.sys).system.kernel := by
        rw [hwrite]
        exact sentWrite_served h.nonneg hpath data env
      have hown := @ownFile_iff _ _ _ _ _ ino _ _ hserved h.nonneg hpath
      constructor
      · rintro ⟨calls, hcalls, hacts⟩
        obtain rfl := Option.some.inj ((congrArg Outcome.served hwrite).symm.trans hcalls)
        exact hown.mp hacts
      · exact fun hstands => ⟨_, congrArg Outcome.served hwrite, hown.mpr hstands⟩
    | open64 path flags mode => exact Iff.rfl
    | creat64 path mode => exact Iff.rfl
    | lseek64 fd off whence => exact Iff.rfl
    | close fd => exact Iff.rfl

/-! ### What the calls do to a registration -/

section Registration

variable {s : System} {fd : Int} {info info' : FileInfo} {f : OpenFile}

/-- `fd` is open on the same file and registered with the same path as before. -/
def SameRegistration (fd : Int) (info : FileInfo) (f : OpenFile) (t : System) : Prop :=
  ∀ info', t.clientMeta.posixFiles fd = some info' →
    info'.absolutePath = info.absolutePath ∧
      ∃ f', t.kernel.fds appPid fd = some f' ∧ f'.ino = f.ino

theorem sameRegistration_sent (hinfo : s.clientMeta.posixFiles fd = some info)
    (hf : s.kernel.fds appPid fd = some f) {w : World} (hw : Kept s.world w) (off : Int) :
    SameRegistration fd info f
      { s with world := w, clientMeta := s.clientMeta.updatePosixOffset fd off } := by
  intro info' hinfo'
  obtain rfl := Option.some.inj (hinfo'.symm.trans (FileTable.updateOffset_of_some _ _ hinfo off))
  exact ⟨rfl, f, (congrFun hw.fds fd).trans hf, rfl⟩

/-- A call on `fd` that leaves it registered leaves it open on the same file. -/
theorem sameRegistration_perform {c : Call} (hfd : c.fd? = some fd) (env : Env)
    (hinfo : s.clientMeta.posixFiles fd = some info) (hf : s.kernel.fds appPid fd = some f) :
    SameRegistration fd info f (perform s c env).system := by
  cases c with
  | open64 path flags mode => cases hfd
  | creat64 path mode => cases hfd
  | read fd' buf count =>
    obtain rfl := Option.some.inj hfd
    dsimp only [perform]
    rw [read_of_registered hinfo]
    exact sameRegistration_sent hinfo hf (kept_clientRead ..) _
  | write fd' data =>
    obtain rfl := Option.some.inj hfd
    dsimp only [perform]
    rw [write_of_registered hinfo]
    exact sameRegistration_sent hinfo hf (kept_clientWrite ..) _
  | lseek64 fd' off whence =>
    obtain rfl := Option.some.inj hfd
    dsimp only [perform]
    rw [lseek64_of_registered hinfo]
    rcases lseek64_cases s.kernel appPid fd' off whence with hl | ⟨f', pos, hf', -, -, hl⟩
    · -- a rejected seek changes nothing
      rw [hl]
      intro info' hinfo'
      obtain rfl := Option.some.inj (hinfo'.symm.trans hinfo)
      exact ⟨rfl, f, hf, rfl⟩
    · obtain rfl := Option.some.inj (hf'.symm.trans hf)
      rw [hl]
      dsimp only
      rw [if_neg (by omega)]
      intro info' hinfo'
      obtain rfl :=
        Option.some.inj (hinfo'.symm.trans (FileTable.updateOffset_of_some _ _ hinfo _))
      exact ⟨rfl, { f' with offset := pos }, setFd_fds_self .., rfl⟩
  | close fd' =>
    obtain rfl := Option.some.inj hfd
    dsimp only [perform]
    rw [close_of_registered hinfo]
    intro info' hinfo'
    cases (FileTable.unregister_self _ fd').symm.trans hinfo'

/-- A call on an unregistered descriptor leaves it unregistered. -/
theorem unregistered_perform {c : Call} (hfd : c.fd? = some fd) (env : Env)
    (hinfo : s.clientMeta.posixFiles fd = none) :
    (perform s c env).system.clientMeta.posixFiles fd = none := by
  cases c with
  -- an open is not on a descriptor
  | open64 path flags mode => cases hfd
  | creat64 path mode => cases hfd
  -- the other calls are passed to the kernel and leave the table
  | read fd' buf count =>
    obtain rfl := Option.some.inj hfd
    dsimp only [perform]
    rw [read_of_unregistered hinfo]
    exact hinfo
  | write fd' data =>
    obtain rfl := Option.some.inj hfd
    dsimp only [perform]
    rw [write_of_unregistered hinfo]
    exact hinfo
  | lseek64 fd' off whence =>
    obtain rfl := Option.some.inj hfd
    dsimp only [perform]
    rw [lseek64_of_unregistered hinfo]
    exact hinfo
  | close fd' =>
    obtain rfl := Option.some.inj hfd
    dsimp only [perform]
    rw [close_of_unregistered hinfo]
    exact hinfo

end Registration

/-! ## Runs -/

/-- A call on a descriptor keeps the invariant: it touches no other descriptor. -/
theorem Inv.onDescriptor {t : Tracked} (h : Inv t) {c : Call} {fd : Int} (hfd : c.fd? = some fd)
    (env : Env) : Inv ⟨(perform t.sys c env).system, t.origin⟩ := by
  have ht := touches_perform t.sys env hfd
  -- what is registered afterwards was registered before, with the same path and file
  have hkept : ∀ fd' info', (perform t.sys c env).system.clientMeta.posixFiles fd' = some info' →
      ∃ info f f', t.sys.clientMeta.posixFiles fd' = some info ∧
        t.sys.kernel.fds appPid fd' = some f ∧ t.origin fd' = some f.ino ∧
        info'.absolutePath = info.absolutePath ∧
        (perform t.sys c env).system.kernel.fds appPid fd' = some f' ∧ f'.ino = f.ino := by
    intro fd' info' hinfo'
    by_cases hne : fd' = fd
    · subst hne
      cases hinfo : t.sys.clientMeta.posixFiles fd' with
      | none =>
        rw [unregistered_perform hfd env hinfo] at hinfo'
        cases hinfo'
      | some info =>
        obtain ⟨f, hf, horigin⟩ := h.file fd' info hinfo
        obtain ⟨hpath, f', hf', hino⟩ := sameRegistration_perform hfd env hinfo hf info' hinfo'
        exact ⟨info, f, f', rfl, hf, horigin, hpath, hf', hino⟩
    · rw [ht.posixFiles fd' hne] at hinfo'
      obtain ⟨f, hf, horigin⟩ := h.file fd' info' hinfo'
      exact ⟨info', f, f, hinfo', hf, horigin, rfl, (ht.fds fd' hne).trans hf, rfl⟩
  refine ⟨ht.nonneg h.nonneg, ?_, ?_⟩
  · intro fd' info' hinfo'
    obtain ⟨info, _, _, hinfo, -, -, hpath, -⟩ := hkept fd' info' hinfo'
    rw [hpath]
    exact h.path fd' info hinfo
  · intro fd' info' hinfo'
    obtain ⟨_, _, f', -, -, horigin, -, hf', hino⟩ := hkept fd' info' hinfo'
    exact ⟨f', hf', hino ▸ horigin⟩

/-- A number that was free is bound to a file, recorded for it, and registered or not. -/
theorem Inv.bind {t : Tracked} (h : Inv t) {fd : Int} {f : OpenFile} {m : ClientMetadataManager}
    {o : Option Ino} (hfd : 0 ≤ fd) (fs : FileSystem) (ho : o = some f.ino)
    (hpath : ∀ info, m.posixFiles fd = some info → info.absolutePath.head? = some '/')
    (hothers : ∀ fd', fd' ≠ fd → m.posixFiles fd' = t.sys.clientMeta.posixFiles fd') :
    Inv ⟨{ t.sys.withKernel ((t.sys.kernel.withFs fs).setFd appPid fd (some f)) with
        clientMeta := m }, Function.update t.origin fd o⟩ where
  nonneg := (h.nonneg.withFs fs).setFd hfd _
  path := by
    intro fd' info hinfo
    by_cases hne : fd' = fd
    · subst hne
      exact hpath info hinfo
    · exact h.path fd' info ((hothers fd' hne).symm.trans hinfo)
  file := by
    intro fd' info hinfo
    by_cases hne : fd' = fd
    · subst hne
      exact ⟨f, setFd_fds_self .., (Function.update_self ..).trans ho⟩
    · obtain ⟨f', hf', horigin⟩ := h.file fd' info ((hothers fd' hne).symm.trans hinfo)
      exact ⟨f', (setFd_fds_of_ne _ _ _ _ hne).trans hf',
        (Function.update_of_ne hne ..).trans horigin⟩

/-- Opening registers a number that was free, on the file that is recorded for it. -/
theorem Inv.opening {t : Tracked} (h : Inv t) (path : PathStr) (flags flags' mode : Nat) :
    let o := afterOpen path flags (t.sys.kernel.open64 appPid path flags' mode) t.sys
    Inv ⟨o.system, if decide (0 ≤ o.result.value) then
      Function.update t.origin o.result.value
        ((o.system.kernel.fds appPid o.result.value).map (·.ino))
      else t.origin⟩ := by
  unfold afterOpen
  rcases open64_cases t.sys.kernel appPid path flags' mode with
    ho | ⟨fd, ino, fs, hfree, hentry, ho⟩
  · rw [ho]
    exact h
  · obtain ⟨hfd, hnone⟩ := lowestFree_spec hfree
    -- what was not open was not registered
    have hunregistered : t.sys.clientMeta.posixFiles fd = none := by
      cases hinfo : t.sys.clientMeta.posixFiles fd with
      | none => rfl
      | some info =>
        obtain ⟨f, hf, -⟩ := h.file fd info hinfo
        cases hnone.symm.trans hf
    rw [ho]
    dsimp only
    rw [if_neg (not_lt.mpr hfd)]
    split
    · rw [if_pos (decide_eq_true hfd)]
      refine h.bind hfd fs (congrArg (Option.map (·.ino)) (setFd_fds_self ..)) ?_
        fun fd' hne => FileTable.register_of_ne _ _ hne _ _
      intro info hinfo
      obtain rfl := Option.some.inj (hinfo.symm.trans (FileTable.register_self ..))
      exact head_absolute _ path
    · rw [if_pos (decide_eq_true hfd)]
      refine h.bind hfd fs (congrArg (Option.map (·.ino)) (setFd_fds_self ..)) ?_ fun _ _ => rfl
      intro info hinfo
      cases hunregistered.symm.trans hinfo

/-- Removing an entry leaves the descriptors and their files alone. -/
theorem Inv.unlink {t : Tracked} (h : Inv t) (path : PathStr) (allowed : Bool) :
    Inv ⟨(Posix.unlink path allowed t.sys).system, t.origin⟩ := by
  rcases unlink_cases t.sys.kernel appPid path allowed with hu | ⟨e, hu⟩
  · unfold Posix.unlink
    rw [hu]
    exact h
  · unfold Posix.unlink
    rw [hu]
    exact ⟨h.nonneg.withFs _, h.path, h.file⟩

/-- **The invariant** is kept by every call. -/
theorem Inv.step {t : Tracked} (h : Inv t) (i : FileCall × Env) : Inv (track t i).2 := by
  obtain ⟨c, env⟩ := i
  cases c with
  | unlink path allowed =>
    exact h.unlink path allowed
  | posix c =>
    cases c with
    | open64 path flags mode => exact h.opening path flags flags mode
    | creat64 path mode => exact h.opening path _ _ mode
    | read fd buf count => exact h.onDescriptor (c := .read fd buf count) rfl env
    | write fd data => exact h.onDescriptor (c := .write fd data) rfl env
    | lseek64 fd off whence => exact h.onDescriptor (c := .lseek64 fd off whence) rfl env
    | close fd => exact h.onDescriptor (c := .close fd) rfl env

/-- The adapter before the first intercepted call. -/
def start (s : System) : Tracked := ⟨s, fun _ => none⟩

theorem inv_start {s : System} (hs : s.clientMeta = .empty) (hneg : s.kernel.NonnegFds) :
    Inv (start s) where
  nonneg := hneg
  path := by
    intro fd info hinfo
    rw [show (start s).sys.clientMeta.posixFiles fd = none by rw [start, hs]; rfl] at hinfo
    cases hinfo
  file := by
    intro fd info hinfo
    rw [show (start s).sys.clientMeta.posixFiles fd = none by rw [start, hs]; rfl] at hinfo
    cases hinfo

/-- **File identity.**  Along every run of opens, transfers, seeks, unlinks and closes, every
read and write on a registered descriptor acts on the file that the descriptor's `open`
returned, and on no other, if and only if the path of the descriptor stands at each of them. -/
theorem file_identity_iff {s : System} (hs : s.clientMeta = .empty) (hneg : s.kernel.NonnegFds)
    (is : List (FileCall × Env)) :
    Along track ActsOnOwnFile (start s) is ↔ Along track StillNamed (start s) is := by
  apply along_iff (I := Inv)
  · exact fun t i h _ => h.step i
  · exact fun t i h => actsOnOwnFile_iff h i
  · exact inv_start hs hneg

/-! ## A removed file -/

/-- `/f` with three bytes, which everyone may read and write. -/
def shared : System := deployment threeBytes openToAll

/-- `/f` is opened and removed. -/
def removed : List (FileCall × Env) :=
  [(.posix (.open64 ['/', 'f'] oRdwr 0), .calm), (.unlink ['/', 'f'] true, .calm)]

/-- A new file is created at the same path. -/
def recreated : List (FileCall × Env) :=
  removed ++ [(.posix (.open64 ['/', 'f'] (oRdwr ||| oCreat) 0o666), .calm)]

/-- One byte is written through the first descriptor. -/
def lateWrite : FileCall × Env := (.posix (.write 0 [9]), .calm)

/-- A write after `unlink` makes the path exist again, and it changes a file that was created
there in the meantime. -/
theorem unlinked_path_revived :
    (final track (start shared) removed).sys.kernel.fs.file 0 = none ∧
    (final track (start shared) (removed ++ [lateWrite])).sys.kernel.fs.file 0 = some [9] ∧
    (final track (start shared) recreated).sys.kernel.fs.file 0 = some [] ∧
    (final track (start shared) (recreated ++ [lateWrite])).sys.kernel.fs.file 0 = some [9] ∧
    ¬ Along track ActsOnOwnFile (start shared) (removed ++ [lateWrite]) ∧
    ¬ Along track ActsOnOwnFile (start shared) (recreated ++ [lateWrite]) := by
  refine ⟨by decide +kernel, by decide +kernel, by decide +kernel, by decide +kernel, ?_, ?_⟩
  · -- the directory gains an entry
    rintro ⟨-, -, h, -⟩
    obtain ⟨calls, -, hown⟩ := h _ rfl 0 rfl
    have hdir := congrFun hown.dir 0
    revert hdir
    decide +kernel
  · -- the new file changes
    rintro ⟨-, -, -, h, -⟩
    obtain ⟨calls, -, hown⟩ := h _ rfl 0 rfl
    have hother := congrArg Inode.content (hown.others 1 (by decide))
    revert hother
    decide +kernel

theorem file_identity_iff_removed :
    Along track ActsOnOwnFile (start shared) (removed ++ [lateWrite]) ↔
      Along track StillNamed (start shared) (removed ++ [lateWrite]) :=
  file_identity_iff rfl ⟨fun _ _ _ => rfl⟩ _

end DTIO.Properties.FileIdentity
