import DTIO.Adapter.System
import DTIO.Chimod.TaskRuns

/-!
# The Two Backends

One sequence of tasks is executed twice: as it is, and with `kStdio` in place of `kPosix` in
some of the tasks.  The two cases of `Write` and `Read` open the file differently, and the
stream of a `Write` keeps what it does not pass on.  So the runs agree exactly while every
replaced task finds its file and every byte that a stream keeps is in the file already.

## Main definitions

- `both`: the two runs as one machine
- `SameObservations`: equal memory of the task, equal files
- `Harmless`: the condition on a replaced task

## Main results

- `sameObservations_iff`: one task
- `backends_agree_iff`: runs
- `backends_disagree`: a write that stays in the stream, and a file that is not there
-/

namespace DTIO.Properties.BackendAgreement

open DTIO.Posix DTIO.Chimod DTIO.ByteFile DTIO.MachineInt DTIO.Mealy DTIO.Adapter

/-! ## The two runs -/

/-- The system with the tasks as they are, and with some of them replaced. -/
structure Both where
  plain : World
  mixed : World

/-- A task, and whether it is replaced in the second run. -/
abbrev Choice := Dispatch × Bool

/-- The task of the second run: `iface` is `kStdio` instead of `kPosix` if it is replaced. -/
def second (i : Choice) : Dispatch :=
  if i.2 = true ∧ i.1.task.io.iface = .kPosix then
    { i.1 with task := i.1.task.withIface .kStdio }
  else i.1

/-- One task in both runs. -/
def both (b : Both) (i : Choice) : (ServerRun IoTask × ServerRun IoTask) × Both :=
  (((serve b.plain i.1).1, (serve b.mixed (second i)).1),
    ⟨(serve b.plain i.1).2, (serve b.mixed (second i)).2⟩)

/-- The task ends with the same memory, which for a `Read` holds what was read, no null
`FILE *` is used in one run only, and a fresh open finds the same in every file. -/
structure SameObservations (b : Both) (i : Choice) : Prop where
  undefined : (both b i).1.1.undefined = (both b i).1.2.undefined
  data : (both b i).1.1.task.data = (both b i).1.2.task.data
  file : (both b i).2.plain.kernel.fs.file = (both b i).2.mixed.kernel.fs.file

/-- What the stream of a `Write` keeps is in the file `content` already. -/
def KeptIsThere (i : Dispatch) (task : WriteTask) (content : List Byte) : Prop :=
  let all := movedBytes i.env.fault.transfer (task.pos i.env) task.payload
  let passed := movedBytes i.env.fault.transfer (task.pos i.env) (task.payload.take i.env.flushed)
  readAt content (task.pos i.env + passed.length) (all.drop passed.length).length =
    all.drop passed.length

/-- A replaced task finds its file, and what its stream keeps is there already. -/
def Harmless (b : Both) (i : Choice) : Prop :=
  i.2 = true → i.1.task.io.iface = .kPosix →
    ∃ o, Server.openingStdio i.1.container i.1.task.io i.1.env b.plain = some o ∧
      ∀ task, i.1.task = .write task → KeptIsThere i.1 task (o.2.2.inodes o.2.1).content.1

/-! ## Systems that agree -/

/-- The systems agree on the files and on which descriptors are open. -/
structure Agree (b : Both) : Prop where
  host : b.mixed.kernel.host = b.plain.kernel.host
  fs : b.mixed.kernel.fs = b.plain.kernel.fs
  fds : ∀ pid fd, (b.mixed.kernel.fds pid fd).isNone = (b.plain.kernel.fds pid fd).isNone
  plainNonneg : b.plain.kernel.NonnegFds
  mixedNonneg : b.mixed.kernel.NonnegFds

section Opening

variable {b : Both} (h : Agree b)

include h

/-- What can be opened is a matter of the files and the open descriptors. -/
theorem Agree.opening (pid : Pid) (filepath : PathStr) (flags mode : Nat) (fault : Fault) :
    opening b.mixed.kernel pid filepath flags mode fault =
      opening b.plain.kernel pid filepath flags mode fault := by
  have hfree := lowestFree_congr h.host (h.fds pid)
  unfold Chimod.opening
  rw [hfree, h.host, h.fs]

theorem Agree.dispatch (i : Dispatch) : i.opening b.mixed = i.opening b.plain := by
  unfold Dispatch.opening
  cases i.task.io.iface with
  | kPosix => exact h.opening ..
  | kStdio => exact h.opening ..
  | kHdf5 | kUring | kMulti => rfl

end Opening

/-- Opening a file for the stream finds what opening it for the system calls finds. -/
theorem openingPosix_of_stdio {w : World} {c : Nat} {io : IoTask} {env : Env}
    {o : Int × Ino × FileSystem} (h : Server.openingStdio c io env w = some o) :
    Server.openingPosix c io env w = some o ∧ o.2.2 = w.kernel.fs ∧
      ∃ e, w.kernel.fs.dir e = some o.2.1 := by
  obtain ⟨fd, ino, fs⟩ := o
  obtain ⟨hfault, hpath, hfree, hentry⟩ := opening_some h
  set e := w.kernel.host.walk (absolute (w.kernel.host.cwd (pidOf c)) (stripScheme io.filename))
  cases hdir : w.kernel.fs.dir e with
  | none =>
    -- `"r+"` creates nothing
    have hcreate := (openEntry_created hentry hdir).1
    cases hcreate
  | some i =>
    rw [openEntry_existing hdir (by decide) (by decide)] at hentry
    split at hentry
    next hpermits =>
      obtain ⟨rfl, rfl⟩ := Prod.mk.inj (Option.some.inj hentry)
      refine ⟨?_, rfl, e, hdir⟩
      have hcreat : w.kernel.fs.openEntry w.kernel.host (w.kernel.host.uid (pidOf c)) e
          (oRdwr ||| oCreat) 0o664 = some (i, w.kernel.fs) := by
        rw [openEntry_existing hdir (by decide) (by decide)]
        exact if_pos hpermits
      unfold Server.openingPosix Chimod.opening
      rw [hfault, hpath, hfree]
      simp only [Bool.or_self, Bool.false_eq_true, if_false, Option.bind_some]
      rw [hcreat]
      rfl
    · cases hentry

/-! ## What a stream passes on -/

/-- A stream passes on a beginning of what the system call moves. -/
theorem movedBytes_take (t : Transfer) (pos : Nat) (data : List Byte) (n : Nat) :
    movedBytes t pos (data.take n) =
      (movedBytes t pos data).take (movedBytes t pos (data.take n)).length := by
  have hle := t.moved_le (min (data.take n).length (maxSigned64 - pos))
  have hmono : t.moved (min (data.take n).length (maxSigned64 - pos)) ≤
      t.moved (min data.length (maxSigned64 - pos)) := by
    apply t.moved_mono
    rw [List.length_take]
    omega
  rw [length_movedBytes]
  unfold movedBytes
  rw [List.take_take, List.take_take]
  congr 1
  rw [List.length_take] at hle hmono ⊢
  omega

/-- Both backends leave the same file if and only if what the stream keeps is there. -/
theorem keptIsThere_iff (i : Dispatch) (task : WriteTask) (c : Content) :
    c.write (task.pos i.env) (movedBytes i.env.fault.transfer (task.pos i.env) task.payload) =
        c.write (task.pos i.env) (movedBytes i.env.fault.transfer (task.pos i.env)
          (task.payload.take i.env.flushed)) ↔
      KeptIsThere i task c.1 := by
  have hroom : ∀ data, (movedBytes i.env.fault.transfer (task.pos i.env) data = [] ∨
      task.pos i.env + (movedBytes i.env.fault.transfer (task.pos i.env) data).length ≤
        maxSigned64) := by
    intro data
    have hle := i.env.fault.transfer.moved_le (min data.length (maxSigned64 - task.pos i.env))
    rw [← List.length_eq_zero_iff, length_movedBytes]
    omega
  rw [eq_comm, ← Subtype.val_inj, Content.write_val (hroom _), Content.write_val (hroom _)]
  unfold KeptIsThere
  conv_lhs => rw [movedBytes_take]
  exact writeAt_take_eq_iff 0 c.1 _ _ _

/-! ## One task -/

/-- Two systems that agree, after tasks that opened the same and left the same files. -/
theorem Agree.after {b : Both} (h : Agree b) {i j : Dispatch} {o : Int × Ino × FileSystem}
    (ho : i.opening b.plain = some o) (hc : j.container = i.container)
    (hfs : (written o (j.task.io.pos j.env) j.placed).2.2 =
      (written o (i.task.io.pos i.env) i.placed).2.2) :
    Agree ⟨i.after b.plain o, j.after b.mixed o⟩ := by
  obtain ⟨flags, pos, hplain⟩ := i.after_kernel b.plain o
  obtain ⟨flags', pos', hmixed⟩ := j.after_kernel b.mixed o
  have hfd := (i.opening_fd ho).1
  refine ⟨?_, ?_, ?_, ?_, ?_⟩
  -- same host, and the same files by the assumption on what was written
  · rw [hplain, hmixed]
    exact h.host
  · rw [hplain, hmixed]
    exact hfs
  -- descriptors: the one both opened, one of another number, another process's
  · intro pid fd
    rw [hplain, hmixed, hc]
    unfold opened
    by_cases hpid : pid = pidOf i.container
    · subst hpid
      by_cases hne : fd = o.1
      · subst hne
        simp [written]
      · rw [setFd_fds_of_ne _ _ _ _ (by exact hne), setFd_fds_of_ne _ _ _ _ (by exact hne)]
        exact h.fds _ fd
    · rw [setFd_fds_of_pid_ne _ _ _ _ hpid, setFd_fds_of_pid_ne _ _ _ _ hpid]
      exact h.fds pid fd
  -- both are still without negative descriptors
  · rw [hplain]
    exact (h.plainNonneg.withFs _).setFd hfd _
  · rw [hmixed]
    exact (h.mixedNonneg.withFs _).setFd hfd _

/-- The files after two tasks that opened the same existing file are the same to a fresh open
if and only if they are the same. -/
theorem file_written_iff {fs : FileSystem} {o : Int × Ino × FileSystem} {e : Entry}
    (ho : o.2.2 = fs) (he : fs.dir e = some o.2.1) (pos : Nat) (bytes bytes' : List Byte) :
    (written o pos bytes).2.2.file = (written o pos bytes').2.2.file ↔
      (o.2.2.inodes o.2.1).content.write pos bytes =
        (o.2.2.inodes o.2.1).content.write pos bytes' := by
  constructor
  · intro h
    have hentry := congrFun h e
    simp only [FileSystem.file, written, FileSystem.setContent, ho, he, Option.map_some,
      Function.update_self, Option.some.injEq] at hentry
    rw [ho]
    exact Subtype.ext hentry
  · intro h
    unfold written
    rw [h]

theorem second_of_replaced {i : Choice} (h : i.2 = true) (hiface : i.1.task.io.iface = .kPosix) :
    second i = { i.1 with task := i.1.task.withIface .kStdio } := if_pos ⟨h, hiface⟩

theorem second_of_kept {i : Choice} (h : ¬ (i.2 = true ∧ i.1.task.io.iface = .kPosix)) :
    second i = i.1 := if_neg h

/-- The task of the second run is that of the first, for another interface at most. -/
theorem second_task (i : Choice) (o : Int × Ino × FileSystem) :
    (second i).container = i.1.container ∧ (second i).task.io.data = i.1.task.io.data ∧
      (second i).task.io.pos (second i).env = i.1.task.io.pos i.1.env ∧
      (second i).obtained o = i.1.obtained o := by
  unfold second
  split
  · obtain ⟨⟨c, task, env⟩, flag⟩ := i
    cases task <;> exact ⟨rfl, rfl, rfl, rfl⟩
  · exact ⟨rfl, rfl, rfl, rfl⟩

section Step

variable {b : Both} (h : Agree b) {i : Choice}

include h

/-- Both tasks opened the same: the memory is the same, and the files decide. -/
theorem Agree.both_some {o : Int × Ino × FileSystem} (ho : i.1.opening b.plain = some o)
    (ho' : (second i).opening b.mixed = some o) :
    (both b i).2 = ⟨i.1.after b.plain o, (second i).after b.mixed o⟩ ∧
    (SameObservations b i ↔
      (written o (i.1.task.io.pos i.1.env) i.1.placed).2.2.file =
        (written o (i.1.task.io.pos i.1.env) (second i).placed).2.2.file) := by
  -- what each of the two did with its own task
  obtain ⟨hu, ht, hw⟩ := serve_of_some h.plainNonneg ho
  obtain ⟨hu', ht', hw'⟩ := serve_of_some h.mixedNonneg ho'
  obtain ⟨-, hdata, hpos, hobtained⟩ := second_task i o
  obtain ⟨_, _, hk⟩ := i.1.after_kernel b.plain o
  obtain ⟨_, _, hk'⟩ := (second i).after_kernel b.mixed o
  refine ⟨congrArg₂ Both.mk hw hw', ?_, ?_⟩
  -- the answers are the same, so the files decide
  · intro hsame
    have hfile := hsame.file
    dsimp only [both] at hfile
    rw [hw, hw', hk, hk', hpos] at hfile
    exact hfile
  · intro hfile
    refine ⟨hu.trans hu'.symm, ?_, ?_⟩
    · dsimp only [both]
      rw [ht, ht', hdata, hobtained]
    · dsimp only [both]
      rw [hw, hw', hk, hk', hpos]
      exact hfile

/-- A task that is not replaced does the same in both systems. -/
theorem Agree.kept (hkept : second i = i.1) : SameObservations b i ∧ Agree (both b i).2 := by
  have hsecond : (second i).opening b.mixed = i.1.opening b.plain := by
    rw [hkept]
    exact h.dispatch i.1
  cases ho : i.1.opening b.plain with
  | none =>
    obtain ⟨hu, ht, hw⟩ := serve_of_none h.plainNonneg ho
    obtain ⟨hu', ht', hw'⟩ := serve_of_none h.mixedNonneg (hsecond.trans ho)
    have hboth : (both b i).2 = b := congrArg₂ Both.mk hw hw'
    refine ⟨⟨?_, ?_, ?_⟩, ?_⟩
    · dsimp only [both]
      rw [hu, hu', hkept]
    · dsimp only [both]
      rw [ht, ht', hkept]
    · rw [hboth, h.fs]
    · rw [hboth]
      exact h
  | some o =>
    obtain ⟨hboth, hiff⟩ := h.both_some ho (hsecond.trans ho)
    rw [hboth, hiff, hkept]
    exact ⟨rfl, h.after ho rfl rfl⟩

/-- A replaced task whose stream cannot be opened uses a null `FILE *`. -/
theorem Agree.not_opened (hflag : i.2 = true) (hiface : i.1.task.io.iface = .kPosix)
    (ho : Server.openingStdio i.1.container i.1.task.io i.1.env b.plain = none) :
    ¬ SameObservations b i := by
  intro hsame
  have hsecond := second_of_replaced hflag hiface
  have hnone : (second i).opening b.mixed = none := by
    rw [hsecond]
    unfold Dispatch.opening
    rw [ServerTask.io_withIface]
    exact (h.opening ..).trans ho
  obtain ⟨hu', -, -⟩ := serve_of_none h.mixedNonneg hnone
  have hplain : (serve b.plain i.1).1.undefined = false := by
    cases hopen : i.1.opening b.plain with
    | none =>
      rw [(serve_of_none h.plainNonneg hopen).1, hiface]
      rfl
    | some o => exact (serve_of_some h.plainNonneg hopen).1
  have hu := hsame.undefined
  dsimp only [both] at hu
  rw [hplain, hu', hsecond, ServerTask.io_withIface] at hu
  cases hu

/-- A replaced task that finds its file. -/
theorem Agree.replaced (hflag : i.2 = true) (hiface : i.1.task.io.iface = .kPosix)
    {o : Int × Ino × FileSystem}
    (ho : Server.openingStdio i.1.container i.1.task.io i.1.env b.plain = some o) :
    (SameObservations b i ↔
      ∀ task, i.1.task = .write task → KeptIsThere i.1 task (o.2.2.inodes o.2.1).content.1) ∧
    (SameObservations b i → Agree (both b i).2) := by
  obtain ⟨hposix, hfs, e, he⟩ := openingPosix_of_stdio ho
  have hfirst : i.1.opening b.plain = some o := by
    unfold Dispatch.opening
    rw [hiface]
    exact hposix
  have hsecond : (second i).opening b.mixed = some o := by
    rw [second_of_replaced hflag hiface]
    unfold Dispatch.opening
    rw [ServerTask.io_withIface]
    exact (h.opening ..).trans ho
  obtain ⟨hboth, hiff⟩ := h.both_some hfirst hsecond
  rw [hboth, hiff, file_written_iff hfs he]
  constructor
  · rw [second_of_replaced hflag hiface]
    cases htask : i.1.task with
    | write task =>
      have hposix : task.iface = .kPosix := by
        rw [htask] at hiface
        exact hiface
      have hplaced : i.1.placed =
          movedBytes i.1.env.fault.transfer (task.pos i.1.env) task.payload := by
        unfold Dispatch.placed
        rw [htask]
        dsimp only
        rw [hposix]
      simp only [ServerTask.write.injEq, forall_eq']
      rw [← keptIsThere_iff, hplaced]
      rfl
    | read task =>
      have hplaced : i.1.placed = [] := by
        unfold Dispatch.placed
        rw [htask]
      -- neither backend places anything
      rw [hplaced]
      exact iff_of_true rfl (by simp)
  · intro hcontent
    refine h.after hfirst (second_task i o).1 ?_
    rw [(second_task i o).2.2.1]
    unfold written
    rw [hcontent]

/-- **One task** shows no difference if and only if it is harmless. -/
theorem sameObservations_iff (i : Choice) : SameObservations b i ↔ Harmless b i := by
  by_cases hrep : i.2 = true ∧ i.1.task.io.iface = .kPosix
  · obtain ⟨hflag, hiface⟩ := hrep
    simp only [Harmless, hflag, hiface, forall_const]
    cases ho : Server.openingStdio i.1.container i.1.task.io i.1.env b.plain with
    | none => simp [h.not_opened hflag hiface ho]
    | some o => simp [(h.replaced hflag hiface ho).1]
  · exact iff_of_true (h.kept (second_of_kept hrep)).1
      fun hflag hiface => absurd ⟨hflag, hiface⟩ hrep

/-- Systems that agree agree after a task that shows no difference. -/
theorem Agree.step (i : Choice) (hsame : SameObservations b i) : Agree (both b i).2 := by
  by_cases hrep : i.2 = true ∧ i.1.task.io.iface = .kPosix
  · obtain ⟨hflag, hiface⟩ := hrep
    cases ho : Server.openingStdio i.1.container i.1.task.io i.1.env b.plain with
    | none => exact absurd hsame (h.not_opened hflag hiface ho)
    | some o => exact (h.replaced hflag hiface ho).2 hsame
  · exact (h.kept (second_of_kept hrep)).2

end Step

/-! ## Runs -/

/-- **The backends.**  Executing a sequence of tasks with some of them replaced shows no
difference at any task if and only if every replaced task is harmless. -/
theorem backends_agree_iff {w : World} (hneg : w.kernel.NonnegFds) (is : List Choice) :
    Along both SameObservations ⟨w, w⟩ is ↔ Along both Harmless ⟨w, w⟩ is := by
  apply along_iff (I := Agree)
  · exact fun b i h hsame => h.step i hsame
  · exact fun b i h => sameObservations_iff h i
  · exact ⟨rfl, rfl, fun _ _ => rfl, hneg, hneg⟩

/-! ## A short write and a new file -/

/-- A write of two bytes to `path`, and a read of three bytes of it, through the `kPosix` cases
of container 0. -/
def writeTo (path : PathStr) : Dispatch := ⟨0, .write ⟨[8, 9], 0, 2, path, .kPosix⟩, .calm⟩

def readOf (path : PathStr) : Dispatch := ⟨0, .read ⟨[0, 0, 0], 0, 3, path, .kPosix⟩, .calm⟩

/-- `/f` with three bytes, which everyone may read and write. -/
def start : World := (deployment threeBytes openToAll).world

/-- A write that stays in its stream is not seen by the next read, and a stream cannot be
opened on a file that the other backend creates. -/
theorem backends_disagree :
    (final both ⟨start, start⟩ [(writeTo ['/', 'f'], true)]).plain.kernel.fs.file 0 =
      some [8, 9, 3] ∧
    (final both ⟨start, start⟩ [(writeTo ['/', 'f'], true)]).mixed.kernel.fs.file 0 =
      some [1, 2, 3] ∧
    ((both (final both ⟨start, start⟩ [(writeTo ['/', 'f'], true)])
      (readOf ['/', 'f'], false)).1.1.task.data,
      (both (final both ⟨start, start⟩ [(writeTo ['/', 'f'], true)])
      (readOf ['/', 'f'], false)).1.2.task.data) = ([8, 9, 3], [1, 2, 3]) ∧
    ((both ⟨start, start⟩ (writeTo ['/', 'f', 'g'], true)).1.1.undefined,
      (both ⟨start, start⟩ (writeTo ['/', 'f', 'g'], true)).1.2.undefined) = (false, true) ∧
    ¬ Along both SameObservations ⟨start, start⟩ [(writeTo ['/', 'f'], true)] ∧
    ¬ Along both SameObservations ⟨start, start⟩ [(writeTo ['/', 'f', 'g'], true)] := by
  refine ⟨by decide +kernel, by decide +kernel, by decide +kernel, by decide +kernel, ?_, ?_⟩
  · rintro ⟨hsame, -⟩
    have hfile := congrFun hsame.file 0
    revert hfile
    decide +kernel
  · rintro ⟨hsame, -⟩
    have hu := hsame.undefined
    revert hu
    decide +kernel

theorem backends_agree_iff_start :
    Along both SameObservations ⟨start, start⟩ [(writeTo ['/', 'f'], true)] ↔
      Along both Harmless ⟨start, start⟩ [(writeTo ['/', 'f'], true)] :=
  backends_agree_iff ⟨fun _ _ _ => rfl⟩ _

end DTIO.Properties.BackendAgreement
