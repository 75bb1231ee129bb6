import DTIO.Adapter.Posix

/-!
# Registered Descriptors

What DTIO knows about a descriptor it intercepts and what the kernel knows about it, as one
predicate, and how each intercepted call preserves it.

## Main results

- `registered_afterOpen`: an intercepted `open` or `creat` registers what it opens
- `Registered.read`, `Registered.write`, `Registered.perform`: preservation
-/

namespace DTIO.Adapter

open DTIO.Posix DTIO.Chimod DTIO.Client DTIO.ByteFile DTIO.MachineInt

/-- `fd` is registered with `info` and denotes `f`, and the recorded path names the file of
`f`. -/
structure Registered (s : System) (fd : Int) (info : FileInfo) (f : OpenFile) : Prop where
  entry : s.clientMeta.posixFiles fd = some info
  file : s.kernel.fds appPid fd = some f
  path : info.absolutePath.head? = some '/'
  bound : s.kernel.fs.dir (s.kernel.host.walk info.absolutePath) = some f.ino

/-- DTIO's offset of a registered descriptor. -/
def System.posixOffset (s : System) (fd : Int) : Option Int :=
  (s.clientMeta.posixFiles fd).map (·.currentOffset)

theorem Registered.posixOffset {s : System} {fd : Int} {info : FileInfo} {f : OpenFile}
    (h : Registered s fd info f) : s.posixOffset fd = some info.currentOffset := by
  simp [System.posixOffset, h.entry]

/-- The file a registered descriptor denotes. -/
def System.content (s : System) (f : OpenFile) : List Byte := (s.kernel.fs.inodes f.ino).content.1

theorem System.content_le (s : System) (f : OpenFile) : (s.content f).length ≤ maxSigned64 :=
  (s.kernel.fs.inodes f.ino).content.2

/-- A successful `open` or `creat` on a path to be intercepted registers the descriptor; both
offsets start at 0. -/
theorem registered_afterOpen {s : System} {path : PathStr} {flags' mode : Nat}
    (haccept : s.config.shouldIntercept (absolute (s.kernel.host.cwd appPid) path) = true)
    (flags : Nat)
    (hfd : 0 ≤ (s.kernel.open64 appPid path flags' mode).1) :
    ∃ ino, Registered
      (Posix.afterOpen path flags (s.kernel.open64 appPid path flags' mode) s).system
      (s.kernel.open64 appPid path flags' mode).1
      (FileInfo.new (absolute (s.kernel.host.cwd appPid) path) flags)
      ⟨ino, flags', 0, some (absolute (s.kernel.host.cwd appPid) path)⟩ := by
  rcases open64_cases s.kernel appPid path flags' mode with ho | ⟨fd, ino, fs, -, hentry, ho⟩
  · -- the open did not fail
    rw [ho] at hfd
    have hneg : ¬ (0 : Int) ≤ -1 := by decide
    exact absurd hfd hneg
  · rw [ho] at hfd ⊢
    unfold Posix.afterOpen
    dsimp only at hfd ⊢
    rw [if_neg (not_lt.mpr hfd), if_pos haccept]
    refine ⟨ino, FileTable.register_self .., setFd_fds_self .., head_absolute _ _, ?_⟩
    -- the recorded path is absolute, so it leads every process where it led the application
    show fs.dir (s.kernel.host.walk (absolute (s.kernel.host.cwd appPid) path)) = some ino
    rw [openEntry_dir hentry, Function.update_self]

/-- The server of the next task can open the file of the descriptor. -/
def System.CanServe (s : System) (fd : Int) : Prop :=
  ∃ f ∈ s.kernel.fds appPid fd, CanOpen s.kernel (pidOf (Client.server s.world)) f.ino

theorem System.canServe_iff {s : System} {fd : Int} {f : OpenFile}
    (h : s.kernel.fds appPid fd = some f) :
    s.CanServe fd ↔ CanOpen s.kernel (pidOf (Client.server s.world)) f.ino := by
  simp [CanServe, h]

section

variable {s : System} {fd : Int} {info : FileInfo} {f : OpenFile}

/-- A task changes the registered descriptor in its offset only. -/
theorem Registered.sent (h : Registered s fd info f) {w : World} (hw : Kept s.world w)
    (off : Int) :
    Registered { s with world := w, clientMeta := s.clientMeta.updatePosixOffset fd off } fd
      { info with currentOffset := off } f where
  entry := FileTable.updateOffset_of_some _ _ h.entry off
  file := (congrFun hw.fds fd).trans h.file
  path := h.path
  bound := by
    show w.kernel.fs.dir (w.kernel.host.walk info.absolutePath) = some f.ino
    rw [hw.host]
    exact hw.dir _ _ h.bound

theorem Registered.read (h : Registered s fd info f) (buf : List Byte) (count : Nat) (env : Env) :
    Registered (Posix.read fd buf count env s).system fd
      { info with currentOffset := Posix.advance info count } f := by
  rw [Posix.read_of_registered h.entry]
  exact h.sent (kept_clientRead ..) _

theorem Registered.write (h : Registered s fd info f) (data : List Byte) (env : Env) :
    Registered (Posix.write fd data env s).system fd
      { info with currentOffset := Posix.advance info data.length } f := by
  rw [Posix.write_of_registered h.entry]
  exact h.sent (kept_clientWrite ..) _

/-- A successful seek sets both offsets. -/
theorem Registered.lseek64 (h : Registered s fd info f) (off : Int) (whence : Whence) (pos : Nat)
    (hpos : (pos : Int) = seekTarget f.offset (s.content f).length off whence)
    (hmax : pos ≤ maxSigned64) :
    (Posix.lseek64 fd off whence s).result.value = pos ∧
    Registered (Posix.lseek64 fd off whence s).system fd
      { info with currentOffset := pos } { f with offset := pos } := by
  rw [Posix.lseek64_of_registered h.entry, lseek64_of_file h.file off whence hpos hmax]
  have hneg : ¬ (pos : Int) < 0 := by omega
  rw [if_neg hneg]
  exact ⟨rfl, FileTable.updateOffset_of_some _ _ h.entry _, setFd_fds_self .., h.path, h.bound⟩

/-- A seek the kernel rejects changes nothing. -/
theorem Registered.lseek64_fail (h : Registered s fd info f) {off : Int} {whence : Whence}
    (hrange : ¬ (0 ≤ seekTarget f.offset (s.content f).length off whence ∧
      seekTarget f.offset (s.content f).length off whence ≤ maxSigned64)) :
    (Posix.lseek64 fd off whence s).result.value = -1 ∧
    (Posix.lseek64 fd off whence s).system = s := by
  rw [Posix.lseek64_of_registered h.entry]
  rcases lseek64_cases s.kernel appPid fd off whence with hl | ⟨f', pos, hf', hle, hpos, -⟩
  · rw [hl]
    exact ⟨rfl, rfl⟩
  · rw [h.file] at hf'
    obtain rfl := Option.some.inj hf'
    exact absurd ⟨by unfold System.content; omega, by unfold System.content; omega⟩ hrange

/-- A call on another descriptor, or an `open`. -/
theorem Registered.perform (h : Registered s fd info f) {c : Call} (hne : c.fd? ≠ some fd)
    (env : Env) : Registered (Posix.perform s c env).system fd info f := by
  -- an `open` takes a number that is free, so not this one
  have hopen : s.kernel.fds appPid fd ≠ none := by simp [h.file]
  obtain ⟨hfile, hentry⟩ := Posix.perform_frame s c env hopen hne
  obtain ⟨hhost, -, hdir⟩ := Posix.perform_kept s c env
  refine ⟨hentry.trans h.entry, hfile.trans h.file, h.path, ?_⟩
  rw [hhost]
  exact hdir _ _ h.bound

/-- A read whose system calls succeed puts a prefix of what the file holds at `n` at the
beginning of the shared buffer. -/
theorem Registered.sentRead_ok (h : Registered s fd info f) {n count k : Nat} {env : Env}
    (hoff : info.currentOffset = n) (hn : n ≤ maxSigned64)
    (hfd : 0 ≤ (Posix.sentRead info count env s).calls.fd)
    (hpos : 0 ≤ (Posix.sentRead info count env s).calls.pos)
    (hcount : (Posix.sentRead info count env s).calls.count = k) :
    k ≤ (readAt (s.content f) n count).length ∧
    (Posix.sentRead info count env s).task.data =
      copyTo (allocateBuffer env.stale count) ((readAt (s.content f) n count).take k) := by
  rw [Posix.sentRead_eq hoff hn] at hfd hpos hcount ⊢
  obtain ⟨hle, hdata, -⟩ :=
    Server.readPosix_ok hfd hpos hcount h.path h.bound (toSigned64_of_le hn)
  exact ⟨hle, hdata⟩

/-- A complete read of `count` bytes at offset `n` obtains `count` bytes. -/
theorem Registered.sentRead_complete (h : Registered s fd info f) {n count : Nat} {env : Env}
    (hoff : info.currentOffset = n) (hn : n ≤ maxSigned64)
    (hc : (Posix.sentRead info count env s).calls.complete count) :
    (readAt (s.content f) n count).length = count :=
  (Posix.sentRead_complete hoff hn h.path h.bound hc).1

/-- A transfer that fits advances the offset by what was asked for. -/
theorem advance_eq {info : FileInfo} {n count : Nat} (hoff : info.currentOffset = n)
    (hn : n ≤ maxSigned64) (hfit : count = 0 ∨ n + count ≤ maxSigned64) :
    Posix.advance info count = ((n + count : Nat) : Int) ∧ n + count ≤ maxSigned64 := by
  have hle : n + count ≤ maxSigned64 := by
    rcases hfit with rfl | hle
    · exact hn
    · exact hle
  unfold Posix.advance
  rw [hoff, ← Nat.cast_add]
  exact ⟨toSigned64_of_le hle, hle⟩

/-- Bytes that were read lie below the largest offset. -/
theorem read_fits {c : List Byte} {n count : Nat} (hc : c.length ≤ maxSigned64)
    (h : (readAt c n count).length = count) : count = 0 ∨ n + count ≤ maxSigned64 := by
  rw [length_readAt] at h
  omega

end

/-- The small deployment after `open("/f", flags)`. -/
def openedFile (bytes : Content) (flags : Nat) : System :=
  (Posix.open64 ['/', 'f'] flags 0 (deployment bytes openToAll)).system

end DTIO.Adapter
