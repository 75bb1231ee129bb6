import DTIO.Adapter.Posix
import DTIO.Foundation.Mealy

/-!
# Refinement of POSIX

An application that opens its files for reading and writing, seeks to absolute positions and
never reads past the end sees no difference between DTIO and the plain kernel, as long as the
task server's system calls succeed in full.

The two systems drift apart in one place: the descriptor of a registered file keeps its own
kernel offset, which DTIO's reads and writes do not move.  The simulation relation therefore
compares DTIO's `current_offset`, not that kernel offset, with the offset of the plain run.

## Main definitions

- `Follows`: a registered descriptor and its counterpart in the plain run
- `Refines`: the simulation relation
- `Admissible`: the calls and environments the comparison is about

## Main results

- `step_refines`: one admissible call returns the same and preserves the relation
- `posix_refines_kernel`: equal results and equal files along every admissible run
-/

namespace DTIO.Properties.Refinement

open DTIO.Posix DTIO.Chimod DTIO.Client DTIO.ByteFile DTIO.MachineInt
open DTIO.Adapter DTIO.Adapter.Posix

/-! ## The simulation relation -/

/-- The registered descriptor `f` with DTIO's record `info`, and the plain descriptor `g`:
both denote one file, which the recorded path still names, and DTIO's offset is the plain
one. -/
structure Follows (k : Kernel) (info : FileInfo) (f g : OpenFile) : Prop where
  same : f = { g with offset := f.offset }
  offset : info.currentOffset = g.offset
  offset_le : g.offset ≤ maxSigned64
  readable : isReadable g.flags = true
  writable : isWritable g.flags = true
  not_append : hasFlag g.flags oAppend = false
  path : info.absolutePath.head? = some '/'
  bound : k.fs.dir (k.host.walk info.absolutePath) = some g.ino

/-- An unregistered number means the same in both systems, a registered one follows. -/
inductive FdRel (k : Kernel) : Option FileInfo → Option OpenFile → Option OpenFile → Prop where
  | plain (f : Option OpenFile) : FdRel k none f f
  | registered {info : FileInfo} {f g : OpenFile} :
      Follows k info f g → FdRel k (some info) (some f) (some g)

section FdRel

variable {k : Kernel} {info : Option FileInfo} {f g : Option OpenFile}

theorem FdRel.isNone_eq (h : FdRel k info f g) : f.isNone = g.isNone := by
  cases h <;> rfl

/-- A number that is not open is not registered. -/
theorem FdRel.unregistered (h : FdRel k info f g) (hf : f = none) : info = none := by
  cases h with
  | plain => rfl
  | registered => cases hf

theorem FdRel.eq_of_none (h : FdRel k info f g) (hinfo : info = none) : f = g := by
  cases h with
  | plain => rfl
  | registered => cases hinfo

theorem FdRel.follows {i : FileInfo} (h : FdRel k info f g) (hinfo : info = some i) :
    ∃ f' g', f = some f' ∧ g = some g' ∧ Follows k i f' g' := by
  cases h with
  | plain => cases hinfo
  | registered hf =>
    obtain rfl := Option.some.inj hinfo
    exact ⟨_, _, rfl, rfl, hf⟩

/-- Bound entries stay bound, so a descriptor that follows goes on following. -/
theorem FdRel.mono {k' : Kernel} (hhost : k'.host = k.host)
    (hdir : ∀ e ino, k.fs.dir e = some ino → k'.fs.dir e = some ino) (h : FdRel k info f g) :
    FdRel k' info f g := by
  cases h with
  | plain => exact FdRel.plain _
  | registered hf =>
    apply FdRel.registered
    refine ⟨hf.same, hf.offset, hf.offset_le, hf.readable, hf.writable, hf.not_append, hf.path, ?_⟩
    rw [hhost]
    exact hdir _ _ hf.bound

end FdRel

/-- The files are the same, and so is the meaning of every descriptor of the application. -/
structure Refines (s : System) (k : Kernel) : Prop where
  host : s.kernel.host = k.host
  fs : s.kernel.fs = k.fs
  fd : ∀ fd, FdRel k (s.clientMeta.posixFiles fd) (s.kernel.fds appPid fd) (k.fds appPid fd)

/-- The rule for calls: they change one descriptor number, in both systems to related values,
and the files alike. -/
theorem Refines.at {s s' : System} {k k' : Kernel} (h : Refines s k) (fd : Int)
    (hhost : s'.kernel.host = s.kernel.host) (hhost' : k'.host = k.host)
    (hfs : s'.kernel.fs = k'.fs)
    (hdir : ∀ e ino, k.fs.dir e = some ino → k'.fs.dir e = some ino)
    (hmeta : ∀ fd', fd' ≠ fd → s'.clientMeta.posixFiles fd' = s.clientMeta.posixFiles fd')
    (hfds : ∀ fd', fd' ≠ fd → s'.kernel.fds appPid fd' = s.kernel.fds appPid fd')
    (hfds' : ∀ fd', fd' ≠ fd → k'.fds appPid fd' = k.fds appPid fd')
    (hfd : FdRel k' (s'.clientMeta.posixFiles fd) (s'.kernel.fds appPid fd)
      (k'.fds appPid fd)) :
    Refines s' k' where
  host := by rw [hhost, hhost', h.host]
  fs := hfs
  fd := by
    intro fd'
    by_cases he : fd' = fd
    · rw [he]
      exact hfd
    · rw [hmeta fd' he, hfds fd' he, hfds' fd' he]
      exact (h.fd fd').mono hhost' hdir

/-! ## Opening -/

/-- The real `open` does the same in both systems. -/
theorem open64_eq {s : System} {k : Kernel} (h : Refines s k) (path : PathStr)
    (flags mode : Nat) :
    (s.kernel.open64 appPid path flags mode = (-1, s.kernel) ∧
      k.open64 appPid path flags mode = (-1, k)) ∨
    ∃ fd ino fs f, 0 ≤ fd ∧ s.kernel.fds appPid fd = none ∧ k.fds appPid fd = none ∧
      f = ⟨ino, flags, 0, some (absolute (k.host.cwd appPid) path)⟩ ∧
      fs.dir (k.host.walk (absolute (k.host.cwd appPid) path)) = some ino ∧
      (∀ e i, k.fs.dir e = some i → fs.dir e = some i) ∧
      s.kernel.open64 appPid path flags mode =
        (fd, (s.kernel.withFs fs).setFd appPid fd (some f)) ∧
      k.open64 appPid path flags mode = (fd, (k.withFs fs).setFd appPid fd (some f)) := by
  -- both kernels hand out the same number
  have hfree : s.kernel.lowestFree appPid = k.lowestFree appPid := by
    apply lowestFree_congr h.host
    exact fun fd => (h.fd fd).isNone_eq
  unfold Kernel.open64
  rw [h.host, h.fs, hfree]
  by_cases hpath : path.isEmpty = true
  · left
    rw [if_pos hpath]
    exact ⟨rfl, if_pos hpath⟩
  rw [if_neg hpath, if_neg hpath]
  dsimp only
  cases hfd : k.lowestFree appPid with
  | none => exact Or.inl ⟨rfl, rfl⟩
  | some fd =>
    cases hentry : k.fs.openEntry k.host (k.host.uid appPid)
        (k.host.walk (absolute (k.host.cwd appPid) path)) flags mode with
    | none => exact Or.inl ⟨rfl, rfl⟩
    | some r =>
      obtain ⟨ino, fs⟩ := r
      right
      refine ⟨fd, ino, fs, _, (lowestFree_spec hfd).1, ?_, (lowestFree_spec hfd).2, rfl, ?_,
        fun e i he => openEntry_dir_of_some hentry he, rfl, rfl⟩
      · rw [← hfree] at hfd
        exact (lowestFree_spec hfd).2
      · rw [openEntry_dir hentry, Function.update_self]

theorem open64_refines {s : System} {k : Kernel} (h : Refines s k) (path : PathStr)
    {flags : Nat} (mode : Nat) (hr : isReadable flags = true) (hw : isWritable flags = true)
    (happ : hasFlag flags oAppend = false) :
    (Posix.open64 path flags mode s).result = ⟨(k.open64 appPid path flags mode).1, []⟩ ∧
    Refines (Posix.open64 path flags mode s).system (k.open64 appPid path flags mode).2 := by
  unfold Posix.open64 afterOpen
  rcases open64_eq h path flags mode with
    ⟨hs, hk⟩ | ⟨fd, ino, fs, f, hfd, hfree, hfree', hf, hbound, hdir, hs, hk⟩
  · rw [hs, hk]
    exact ⟨rfl, h⟩
  · rw [hs, hk]
    dsimp only
    rw [if_neg (not_lt.mpr hfd)]
    -- a number the kernel hands out was not registered
    have hplain : s.clientMeta.posixFiles fd = none := (h.fd fd).unregistered hfree
    have hne : ∀ fd', fd' ≠ fd →
        ((s.kernel.withFs fs).setFd appPid fd (some f)).fds appPid fd' =
          s.kernel.fds appPid fd' :=
      fun fd' he => setFd_fds_of_ne _ _ _ _ he
    have hne' : ∀ fd', fd' ≠ fd →
        ((k.withFs fs).setFd appPid fd (some f)).fds appPid fd' = k.fds appPid fd' :=
      fun fd' he => setFd_fds_of_ne _ _ _ _ he
    split
    · -- registered: the record starts at offset 0, as the new description does
      refine ⟨rfl, h.at fd rfl rfl rfl hdir ?_ hne hne' ?_⟩
      · exact fun fd' he => FileTable.register_of_ne _ _ he _ _
      · show FdRel _ (s.clientMeta.posixFiles.register fd _ flags fd)
          (((s.kernel.withFs fs).setFd appPid fd (some f)).fds appPid fd)
          (((k.withFs fs).setFd appPid fd (some f)).fds appPid fd)
        rw [FileTable.register_self, setFd_fds_self, setFd_fds_self]
        apply FdRel.registered
        subst hf
        refine ⟨rfl, rfl, Nat.zero_le _, hr, hw, happ, head_absolute _ _, ?_⟩
        show fs.dir (k.host.walk (absolute (s.kernel.host.cwd appPid) path)) = some ino
        rw [h.host]
        exact hbound
    · refine ⟨rfl, h.at fd rfl rfl rfl hdir (fun _ _ => rfl) hne hne' ?_⟩
      show FdRel _ (s.clientMeta.posixFiles fd)
        (((s.kernel.withFs fs).setFd appPid fd (some f)).fds appPid fd)
        (((k.withFs fs).setFd appPid fd (some f)).fds appPid fd)
      rw [hplain, setFd_fds_self, setFd_fds_self]
      exact FdRel.plain _

/-! ## Calls on registered descriptors -/

section Registered

variable {s : System} {k : Kernel} {fd : Int} {info : FileInfo} {f g : OpenFile}

/-- Both offsets advance by the same amount. -/
theorem Follows.advance {k' : Kernel} (hf : Follows k info f g) {count : Nat}
    (hcount : count = 0 ∨ g.offset + count ≤ maxSigned64)
    (hbound : k'.fs.dir (k'.host.walk info.absolutePath) = some g.ino) :
    Follows k' { info with currentOffset := Posix.advance info count } f
      { g with offset := g.offset + count } := by
  have hle : g.offset + count ≤ maxSigned64 := by
    rcases hcount with rfl | hle
    · exact hf.offset_le
    · exact hle
  have hadv : Posix.advance info count = ((g.offset + count : Nat) : Int) := by
    unfold Posix.advance
    rw [hf.offset, ← Nat.cast_add]
    exact toSigned64_of_le hle
  refine ⟨?_, hadv, hle, hf.readable, hf.writable, hf.not_append, hf.path, hbound⟩
  rw [hf.same]

/-- A transfer of `count` bytes at the offset.  The runtime leaves the descriptors of the
application alone, and both offsets advance. -/
theorem Refines.transferred (h : Refines s k) (hmeta : s.clientMeta.posixFiles fd = some info)
    (hfg : s.kernel.fds appPid fd = some f) (hf : Follows k info f g) {count : Nat}
    (hcount : count = 0 ∨ g.offset + count ≤ maxSigned64) {w : World} (hkept : Kept s.world w)
    {k' : Kernel} (hhost : k'.host = k.host) (hfs : w.kernel.fs = k'.fs)
    (hdir : ∀ e ino, k.fs.dir e = some ino → k'.fs.dir e = some ino)
    (hfds : ∀ fd', fd' ≠ fd → k'.fds appPid fd' = k.fds appPid fd')
    (hself : k'.fds appPid fd = some { g with offset := g.offset + count }) :
    Refines { s with
      world := w
      clientMeta := s.clientMeta.updatePosixOffset fd (Posix.advance info count) } k' := by
  have hsame : w.kernel.fds appPid fd = some f := (congrFun hkept.fds fd).trans hfg
  have hbound : k'.fs.dir (k'.host.walk info.absolutePath) = some g.ino := by
    rw [hhost]
    exact hdir _ _ hf.bound
  refine h.at fd hkept.host hhost hfs hdir ?_ ?_ hfds ?_
  · exact fun fd' he => FileTable.updateOffset_of_ne _ _ he _
  · exact fun fd' _ => congrFun hkept.fds fd'
  · show FdRel _ (s.clientMeta.posixFiles.updateOffset fd _ fd) (w.kernel.fds appPid fd) _
    rw [FileTable.updateOffset_of_some _ _ hmeta, hsame, hself]
    exact FdRel.registered (hf.advance hcount hbound)

theorem read_refines (h : Refines s k) (hmeta : s.clientMeta.posixFiles fd = some info)
    (hg : k.fds appPid fd = some g) (hfg : s.kernel.fds appPid fd = some f)
    (hf : Follows k info f g) (buf : List Byte) (count : Nat) (env : Env)
    (hc : (sentRead info count env s).calls.complete count) :
    (Posix.read fd buf count env s).result = (Direct.read fd buf count k).1 ∧
    Refines (Posix.read fd buf count env s).system (Direct.read fd buf count k).2 := by
  have hdir : s.kernel.fs.dir (s.kernel.host.walk info.absolutePath) = some g.ino := by
    rw [h.fs, h.host]
    exact hf.bound
  obtain ⟨hlen, hdata, c, g', f', hkernel⟩ :=
    sentRead_complete hf.offset hf.offset_le hf.path hdir hc
  rw [h.fs] at hlen hdata
  -- what the plain `read` does: it obtains the same bytes
  have hdirect := read_full_of_file hg hf.readable (n := count) rfl
  rw [hlen] at hdirect
  have hroom : count = 0 ∨ g.offset + count ≤ maxSigned64 := by
    have hcontent := (k.fs.inodes g.ino).content.2
    rw [length_readAt] at hlen
    omega
  have hvalue : toSigned64 count = count := toSigned64_of_le (by omega)
  have hkept := kept_clientRead (allocateBuffer env.stale count) count
    (toUnsigned64 info.currentOffset) info.absolutePath .kPosix env s.world
  rw [read_of_registered hmeta]
  unfold Direct.read
  rw [hdirect, hdata, hvalue, List.take_of_length_le hlen.le]
  dsimp only
  refine ⟨rfl, h.transferred hmeta hfg hf hroom hkept rfl ?_ (fun _ _ he => he) ?_ ?_⟩
  · show (sentRead info count env s).world.kernel.fs = k.fs
    rw [hkernel, setFd_fs, h.fs]
  · exact fun fd' he => setFd_fds_of_ne _ _ _ _ he
  · exact setFd_fds_self ..

theorem write_refines (h : Refines s k) (hmeta : s.clientMeta.posixFiles fd = some info)
    (hg : k.fds appPid fd = some g) (hfg : s.kernel.fds appPid fd = some f)
    (hf : Follows k info f g) (data : List Byte) (env : Env)
    (hc : (sentWrite info data env s).calls.complete data.length) :
    (Posix.write fd data env s).result = (Direct.write fd data k).1 ∧
    Refines (Posix.write fd data env s).system (Direct.write fd data k).2 := by
  -- the server opens the file of the recorded path, which is the descriptor's
  have hdir : s.kernel.fs.dir (s.kernel.host.walk info.absolutePath) = some g.ino := by
    rw [h.fs, h.host]
    exact hf.bound
  obtain ⟨hroom, c, g', f', hkernel⟩ :=
    sentWrite_complete hf.offset hf.offset_le hf.path hdir hc
  rw [h.fs] at hkernel
  -- the kernel's own write at the same offset also moves everything
  have hdirect := write_full_of_file hg hf.writable hf.not_append hroom
  have hroom' : data.length = 0 ∨ g.offset + data.length ≤ maxSigned64 := by
    rcases hroom with rfl | hle
    · exact Or.inl rfl
    · exact Or.inr hle
  have hvalue : toSigned64 data.length = data.length := toSigned64_of_le (by omega)
  have hkept := kept_clientWrite data data.length
    (toUnsigned64 info.currentOffset) info.absolutePath .kPosix env s.world
  rw [write_of_registered hmeta]
  unfold Direct.write
  rw [hdirect, hvalue]
  dsimp only
  refine ⟨rfl, h.transferred hmeta hfg hf hroom' hkept rfl ?_ (fun _ _ he => he) ?_ ?_⟩
  -- the two file systems got the same bytes at the same place
  · show (sentWrite info data env s).world.kernel.fs = _
    rw [hkernel, setFd_fs, setFd_fs, withFs_fs, withFs_fs]
  · exact fun fd' he => setFd_fds_of_ne _ _ _ _ he
  · exact setFd_fds_self ..

/-- An absolute seek does not depend on the offset it starts from. -/
theorem lseek64_refines (h : Refines s k) (hmeta : s.clientMeta.posixFiles fd = some info)
    (hg : k.fds appPid fd = some g) (hfg : s.kernel.fds appPid fd = some f)
    (hf : Follows k info f g) (off : Int) :
    (Posix.lseek64 fd off .set s).result = (Direct.step k (.lseek64 fd off .set)).1 ∧
    Refines (Posix.lseek64 fd off .set s).system (Direct.step k (.lseek64 fd off .set)).2 := by
  rw [lseek64_of_registered hmeta]
  dsimp only [Direct.step]
  by_cases hoff : 0 ≤ off ∧ off ≤ maxSigned64
  · -- the seek succeeds in both systems
    obtain ⟨n, rfl⟩ := Int.eq_ofNat_of_zero_le hoff.1
    have hn : n ≤ maxSigned64 := by omega
    rw [lseek64_of_file hfg n .set rfl hn, lseek64_of_file hg n .set rfl hn]
    have hpos : ¬ (n : Int) < 0 := by omega
    rw [if_neg hpos]
    refine ⟨rfl, h.at fd rfl rfl h.fs (fun _ _ he => he) ?_ ?_ ?_ ?_⟩
    · exact fun fd' he => FileTable.updateOffset_of_ne _ _ he _
    · exact fun fd' he => setFd_fds_of_ne _ _ _ _ he
    · exact fun fd' he => setFd_fds_of_ne _ _ _ _ he
    · show FdRel _ (s.clientMeta.posixFiles.updateOffset fd _ fd)
        ((s.kernel.setFd appPid fd _).fds appPid fd) _
      rw [FileTable.updateOffset_of_some _ _ hmeta, setFd_fds_self, setFd_fds_self]
      apply FdRel.registered
      refine ⟨?_, rfl, hn, hf.readable, hf.writable, hf.not_append, hf.path, hf.bound⟩
      rw [hf.same]
  · -- it fails in both
    have hfail : ∀ {k' : Kernel} {f' : OpenFile}, k'.fds appPid fd = some f' →
        k'.lseek64 appPid fd off .set = (-1, k') := by
      intro k' f' hf'
      rcases lseek64_cases k' appPid fd off .set with hl | ⟨_, pos, -, hpos, htarget, -⟩
      · exact hl
      · have heq : (pos : Int) = off := htarget
        exact absurd ⟨by omega, by omega⟩ hoff
    rw [hfail hfg, hfail hg]
    exact ⟨rfl, h⟩

theorem close_refines (h : Refines s k) (hmeta : s.clientMeta.posixFiles fd = some info)
    (hg : k.fds appPid fd = some g) (hfg : s.kernel.fds appPid fd = some f) :
    (Posix.close fd s).result = (Direct.step k (.close fd)).1 ∧
    Refines (Posix.close fd s).system (Direct.step k (.close fd)).2 := by
  rw [close_of_registered hmeta]
  dsimp only [Direct.step]
  rw [close_of_file hfg, close_of_file hg]
  refine ⟨rfl, h.at fd rfl rfl h.fs (fun _ _ he => he) ?_ ?_ ?_ ?_⟩
  · exact fun fd' he => FileTable.unregister_of_ne _ _ he
  · exact fun fd' he => setFd_fds_of_ne _ _ _ _ he
  · exact fun fd' he => setFd_fds_of_ne _ _ _ _ he
  · show FdRel _ (s.clientMeta.posixFiles.unregister fd fd)
      ((s.kernel.setFd appPid fd none).fds appPid fd) _
    rw [FileTable.unregister_self, setFd_fds_self, setFd_fds_self]
    exact FdRel.plain none

end Registered

/-! ## Calls on other descriptors -/

section Unregistered

variable {s : System} {k : Kernel} {fd : Int}

/-- What the real functions do to an unregistered number, they do in both systems. -/
theorem Refines.real (h : Refines s k) (hmeta : s.clientMeta.posixFiles fd = none)
    {r r' : Kernel} (hr : SameUpdate s.kernel k appPid fd r r') :
    Refines (s.withKernel r) r' := by
  obtain ⟨fs, f, hdir, rfl, rfl⟩ := hr
  refine h.at fd rfl rfl rfl ?_ (fun _ _ => rfl) ?_ ?_ ?_
  · intro e ino he
    show fs.dir e = some ino
    rw [hdir, h.fs, he]
  · exact fun fd' he => setFd_fds_of_ne _ _ _ _ he
  · exact fun fd' he => setFd_fds_of_ne _ _ _ _ he
  · show FdRel _ (s.clientMeta.posixFiles fd)
      (((s.kernel.withFs fs).setFd appPid fd f).fds appPid fd) _
    rw [hmeta, setFd_fds_self, setFd_fds_self]
    exact FdRel.plain f

theorem real_refines (h : Refines s k) (hmeta : s.clientMeta.posixFiles fd = none) {c : Call}
    (hc : c.fd? = some fd) :
    (Direct.step s.kernel c).1 = (Direct.step k c).1 ∧
    Refines (s.withKernel (Direct.step s.kernel c).2) (Direct.step k c).2 := by
  have hfd := (h.fd fd).eq_of_none hmeta
  cases c with
  -- an open is not on a descriptor
  | open64 path flags mode => cases hc
  | creat64 path mode => cases hc
  -- the other calls go to the kernel, where the descriptor is the same
  | read fd' buf count =>
    obtain rfl := Option.some.inj hc
    obtain ⟨hvalue, hbytes, hk⟩ := read_local h.fs hfd count .full
    dsimp only [Direct.step, Direct.read]
    rw [hvalue, hbytes]
    exact ⟨rfl, h.real hmeta hk⟩
  | write fd' data =>
    obtain rfl := Option.some.inj hc
    obtain ⟨hvalue, hk⟩ := write_local h.fs hfd data .full
    dsimp only [Direct.step, Direct.write]
    rw [hvalue]
    exact ⟨rfl, h.real hmeta hk⟩
  | lseek64 fd' off whence =>
    obtain rfl := Option.some.inj hc
    obtain ⟨hvalue, hk⟩ := lseek64_local h.fs hfd off whence
    dsimp only [Direct.step]
    rw [hvalue]
    exact ⟨rfl, h.real hmeta hk⟩
  | close fd' =>
    obtain rfl := Option.some.inj hc
    obtain ⟨hvalue, hk⟩ := close_local h.fs hfd
    dsimp only [Direct.step]
    rw [hvalue]
    exact ⟨rfl, h.real hmeta hk⟩

end Unregistered

/-! ## Runs -/

/-- The calls the comparison is about: files are opened for reading and writing and not for
appending, and seeks are absolute. -/
def inScope : Call → Bool
  | .open64 _ flags _ => isReadable flags && isWritable flags && !hasFlag flags oAppend
  | .creat64 _ _ => false
  | .lseek64 _ _ whence => whence = .set
  | _ => true

/-- Such a call during which the server's system calls succeed in full; for a read this
includes that it does not pass the end of the file. -/
def Admissible (s : System) (i : Call × Env) : Prop :=
  Posix.Complete s i ∧ inScope i.1 = true

instance (s : System) (i : Call × Env) : Decidable (Admissible s i) :=
  inferInstanceAs (Decidable (_ ∧ _))

/-- The plain kernel under the same calls. -/
def directStep (k : Kernel) (i : Call × Env) : Result × Kernel := Direct.step k i.1

/-- One admissible call returns the same to the application and leaves related systems. -/
theorem step_refines {s : System} {k : Kernel} (h : Refines s k) (i : Call × Env)
    (hi : Admissible s i) :
    (Posix.step s i).1 = (directStep k i).1 ∧
    Refines (Posix.step s i).2 (directStep k i).2 := by
  obtain ⟨c, env⟩ := i
  obtain ⟨hcomplete, hcall⟩ := hi
  unfold Posix.Complete at hcomplete
  unfold Posix.step directStep
  cases c with
  | open64 path flags mode =>
    simp only [inScope, Bool.and_eq_true, Bool.not_eq_true'] at hcall
    obtain ⟨⟨hr, hw⟩, happ⟩ := hcall
    exact open64_refines h path mode hr hw happ
  | creat64 path mode => cases hcall
  | read fd buf count =>
    dsimp only [Posix.perform] at hcomplete ⊢
    -- a descriptor that is not registered goes to the kernel, and so it does in the plain run
    cases hmeta : s.clientMeta.posixFiles fd with
    | none =>
      rw [read_of_unregistered hmeta]
      exact real_refines h hmeta (c := .read fd buf count) rfl
    | some info =>
      obtain ⟨f, g, hf, hg, hfollows⟩ := (h.fd fd).follows hmeta
      rw [read_of_registered hmeta] at hcomplete
      exact read_refines h hmeta hg hf hfollows buf count env (hcomplete _ rfl)
  | write fd data =>
    dsimp only [Posix.perform] at hcomplete ⊢
    cases hmeta : s.clientMeta.posixFiles fd with
    | none =>
      rw [write_of_unregistered hmeta]
      exact real_refines h hmeta (c := .write fd data) rfl
    | some info =>
      obtain ⟨f, g, hf, hg, hfollows⟩ := (h.fd fd).follows hmeta
      rw [write_of_registered hmeta] at hcomplete
      exact write_refines h hmeta hg hf hfollows data env (hcomplete _ rfl)
  | lseek64 fd off whence =>
    -- from elsewhere than the start a seek is out of scope
    obtain rfl : whence = .set := of_decide_eq_true hcall
    dsimp only [Posix.perform]
    cases hmeta : s.clientMeta.posixFiles fd with
    | none =>
      rw [lseek64_of_unregistered hmeta]
      exact real_refines h hmeta (c := .lseek64 fd off .set) rfl
    | some info =>
      obtain ⟨f, g, hf, hg, hfollows⟩ := (h.fd fd).follows hmeta
      exact lseek64_refines h hmeta hg hf hfollows off
  | close fd =>
    dsimp only [Posix.perform]
    cases hmeta : s.clientMeta.posixFiles fd with
    | none =>
      rw [close_of_unregistered hmeta]
      exact real_refines h hmeta (c := .close fd) rfl
    | some info =>
      obtain ⟨f, g, hf, hg, -⟩ := (h.fd fd).follows hmeta
      exact close_refines h hmeta hg hf

/-- Before the first call, the plain run starts in the same kernel. -/
theorem refines_start {s : System} (hs : s.clientMeta = .empty) : Refines s s.kernel where
  host := rfl
  fs := rfl
  fd := by
    intro fd
    rw [hs]
    exact FdRel.plain _

/-- **Refinement of POSIX.**  Along every admissible run, from any files and any descriptors
the process inherited, each call returns the value and the bytes it returns on the plain
kernel, and after each call every file has the content it has there. -/
theorem posix_refines_kernel (s : System) (hs : s.clientMeta = .empty)
    (is : List (Call × Env)) (his : Mealy.Along Posix.step Admissible s is) :
    Mealy.trace Posix.step (fun s => s.kernel.fs.file) s is =
      Mealy.trace directStep (fun k => k.fs.file) s.kernel is := by
  apply Mealy.trace_eq_of_simulation (R := Refines) (G := Admissible)
  · exact fun s k i h hi => step_refines h i hi
  · intro s k h
    rw [h.fs]
  · exact refines_start hs
  · exact his

/-- A file is created, written, read back from the middle and closed. -/
def session : List (Call × Env) :=
  [(.open64 ['/', 'f', 'g'] (oRdwr ||| oCreat) 0o666, .calm), (.write 0 [1, 2, 3], .calm),
    (.lseek64 0 1 .set, .calm), (.read 0 [7, 7, 7] 2, .calm), (.close 0, .calm)]

theorem posix_refines_kernel_session :
    Mealy.trace Posix.step (fun s => s.kernel.fs.file)
        (deployment ⟨[], Nat.zero_le _⟩ openToAll) session =
      Mealy.trace directStep (fun k => k.fs.file)
        (deployment ⟨[], Nat.zero_le _⟩ openToAll).kernel session :=
  posix_refines_kernel _ rfl _ (by decide +kernel)

end DTIO.Properties.Refinement
