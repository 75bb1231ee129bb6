import DTIO.Properties.AppendMode

/-!
# Sizes and Offsets

The adapters compute the size of a task and the next offset of its handle on `size_t` and store
the offset as an `off_t`, without a check.  A product or a sum that does not fit wraps, and the
call succeeds all the same.

## Main definitions

- `Exact`: a transfer has its mathematical size and moves the offset by it, or fails
- `Fits`: size and new offset can be represented
- `InRange`: every stored offset is an `off_t` of at least 0

## Main results

- `step_table`: everything a call can do to the tables of handles
- `exact_iff`: along every run, the arithmetic is exact if and only if every transfer fits
- `offset_wraps`: one byte at the largest offset
-/

namespace DTIO.Properties.ExactArithmetic

open DTIO.Posix DTIO.Chimod DTIO.Client DTIO.ByteFile DTIO.MachineInt DTIO.Mealy
open DTIO.Adapter DTIO.Properties.AppendMode

/-! ## Transfers -/

/-- The handle of a transfer and the number of bytes it is about. -/
def request : AppCall → Option (Handle × Nat)
  | .posix (.read fd _ count) => some (.inl fd, count)
  | .posix (.write fd data) => some (.inl fd, data.length)
  | .fwrite _ size count fp => some (.inr fp, size * count)
  | _ => none

/-- Counts of `read` and `write` are at most `SSIZE_MAX`, the two numbers of an `fwrite` are of
type `size_t`. -/
def Allowed : AppCall → Prop
  | .posix (.read _ _ count) => count ≤ maxSigned64
  | .posix (.write _ data) => data.length ≤ maxSigned64
  | .fwrite _ size count _ => size < 18446744073709551616 ∧ count < 18446744073709551616
  | _ => True

/-- The number of bytes in the task that a call on a handle registered with `info` sends. -/
def taskSize (p : Program) (i : AppCall × Env) (info : FileInfo) : Option Nat :=
  match i.1 with
  | .posix (.read _ _ count) => some (Posix.sentRead info count i.2 p.sys).task.dataSize
  | .posix (.write _ data) => some (Posix.sentWrite info data i.2 p.sys).task.dataSize
  | .fwrite ptr size count fp =>
    (Stdio.fwrite ptr size count fp i.2 p).2.2.map fun r => r.task.dataSize
  | _ => none

/-- The offset of a handle. -/
def offset (p : Program) (h : Handle) : Option Int := (entry p h).map (·.currentOffset)

/-- A call reports an error: `-1`, or fewer items than there were. -/
def Failed (c : AppCall) (r : Result) : Prop :=
  match c with
  | .fwrite _ _ count _ => r.value < count
  | _ => r.value < 0

/-- Size and new offset can be represented. -/
def Representable (info : FileInfo) (n : Nat) : Prop :=
  n < 18446744073709551616 ∧ info.currentOffset + n ≤ maxSigned64

/-- The task has the size, and the offset moves by it; or, if they cannot be represented, the
call fails and changes neither a file nor the offset. -/
def Exact (p : Program) (i : AppCall × Env) : Prop :=
  ∀ h n info, request i.1 = some (h, n) → entry p h = some info →
    (Representable info n → taskSize p i info = some n ∧
      offset (p.step i).2 h = some (info.currentOffset + n)) ∧
    (¬ Representable info n → Failed i.1 (p.step i).1 ∧
      (∀ ino, content ino (p.step i).2 = content ino p) ∧
      offset (p.step i).2 h = some info.currentOffset)

/-- Every stored offset is an `off_t` and not negative. -/
def InRange (p : Program) : Prop :=
  ∀ h info, entry p h = some info → 0 ≤ info.currentOffset ∧ info.currentOffset ≤ maxSigned64

/-- What a transfer asks for can be represented. -/
def Fits (p : Program) (i : AppCall × Env) : Prop :=
  ∀ h n info, request i.1 = some (h, n) → entry p h = some info → Representable info n

/-! ## The tables of handles -/

/-- What one call does to the tables of handles. -/
inductive TableStep (p : Program) (c : AppCall) (p' : Program) : Prop where
  | same : entry p' = entry p → TableStep p c p'
  | registered (h : Handle) (path : PathStr) (flags : Nat) :
    entry p' = Function.update (entry p) h (some (FileInfo.new path flags)) → TableStep p c p'
  | unregistered (h : Handle) : entry p' = Function.update (entry p) h none → TableStep p c p'
  | sought (h : Handle) (info : FileInfo) (pos : Nat) : pos ≤ maxSigned64 →
    entry p' = Function.update (entry p) h (some { info with currentOffset := pos }) →
    TableStep p c p'
  | transferred (h : Handle) (info : FileInfo) (n : Nat) : request c = some (h, n) →
    entry p h = some info → entry p' = Function.update (entry p) h
      (some { info with currentOffset := Posix.advance info (toUnsigned64 n) }) →
    TableStep p c p'

theorem entries_unregisterPosixFd (m : ClientMetadataManager) (fd : Int) :
    entries (m.unregisterPosixFd fd) = Function.update (entries m) (.inl fd) none :=
  Sum.update_elim_inl.symm

theorem entries_unregisterStdioFp (m : ClientMetadataManager) (fp : FilePtr) :
    entries (m.unregisterStdioFp fp) = Function.update (entries m) (.inr fp) none :=
  Sum.update_elim_inr.symm

/-- The position that `lseek` returns is an `off_t`. -/
theorem lseek64_range (k : Kernel) (pid : Pid) (fd off : Int) (whence : Whence)
    (h : ¬ (k.lseek64 pid fd off whence).1 < 0) :
    ∃ pos : Nat, (k.lseek64 pid fd off whence).1 = pos ∧ pos ≤ maxSigned64 := by
  rcases lseek64_cases k pid fd off whence with hl | ⟨f, pos, -, hmax, -, hl⟩
  · rw [hl] at h
    have hneg : (-1 : Int) < 0 := by decide
    exact absurd hneg h
  · rw [hl]
    exact ⟨pos, rfl, hmax⟩

section

variable {p : Program} {env : Env}

/-- `open` and `creat` register what they opened or nothing. -/
theorem afterOpen_table (path : PathStr) (flags : Nat) (r : Int × Kernel) (c : AppCall) :
    TableStep p c (p.withSys (Posix.afterOpen path flags r p.sys).system) := by
  unfold Posix.afterOpen
  dsimp only
  split
  · exact .same rfl
  · split
    · exact .registered (.inl r.1) _ flags (entries_registerPosixFd ..)
    · exact .same rfl

theorem posix_table (c : Call) (hallowed : Allowed (.posix c)) :
    TableStep p (.posix c) (p.withSys (Posix.perform p.sys c env).system) := by
  cases c with
  | open64 path flags mode => exact afterOpen_table ..
  | creat64 path mode => exact afterOpen_table ..
  | read fd buf count =>
    cases hentry : p.sys.clientMeta.posixFiles fd with
    | none =>
      rw [Posix.perform, Posix.read_of_unregistered hentry]
      exact .same rfl
    | some info =>
      rw [Posix.perform, Posix.read_of_registered hentry]
      refine .transferred (.inl fd) info count rfl hentry ?_
      rw [toUnsigned64_of_le hallowed]
      exact entries_updatePosixOffset _ _ hentry
  | write fd data =>
    cases hentry : p.sys.clientMeta.posixFiles fd with
    | none =>
      rw [Posix.perform, Posix.write_of_unregistered hentry]
      exact .same rfl
    | some info =>
      rw [Posix.perform, Posix.write_of_registered hentry]
      refine .transferred (.inl fd) info data.length rfl hentry ?_
      rw [toUnsigned64_of_le hallowed]
      exact entries_updatePosixOffset _ _ hentry
  | lseek64 fd off whence =>
    cases hentry : p.sys.clientMeta.posixFiles fd with
    | none =>
      rw [Posix.perform, Posix.lseek64_of_unregistered hentry]
      exact .same rfl
    | some info =>
      rw [Posix.perform, Posix.lseek64_of_registered hentry]
      by_cases hneg : (p.sys.kernel.lseek64 appPid fd off whence).1 < 0
      · simp only [if_pos hneg]
        exact .same rfl
      · -- the kernel's position becomes the offset
        obtain ⟨pos, hpos, hmax⟩ := lseek64_range _ _ _ _ _ hneg
        simp only [if_neg hneg]
        refine .sought (.inl fd) info pos hmax ?_
        rw [← hpos]
        exact entries_updatePosixOffset _ _ hentry
  | close fd =>
    cases hentry : p.sys.clientMeta.posixFiles fd with
    | none =>
      rw [Posix.perform, Posix.close_of_unregistered hentry]
      exact .same rfl
    | some info =>
      rw [Posix.perform, Posix.close_of_registered hentry]
      exact .unregistered (.inl fd) (entries_unregisterPosixFd ..)

/-- **Everything a call can do** to the tables of handles. -/
theorem step_table (c : AppCall) (hallowed : Allowed c) : TableStep p c (p.step (c, env)).2 := by
  cases c with
  | posix c => exact posix_table c hallowed
  -- fopen registers what it opened, if it opened and the path is intercepted
  | fopen filename mode fp =>
    obtain ⟨-, hmeta⟩ := StdioApi.fopen_sys filename mode fp p
    have hentry : entry (StdioApi.fopen filename mode fp p).2 = entry p := congrArg entries hmeta
    simp only [Program.step, Stdio.fopen]
    split
    · exact .same hentry
    · split
      · exact .same hentry
      · refine .registered (.inr (StdioApi.fopen filename mode fp p).1)
          (absolute (p.sys.kernel.host.cwd appPid) filename) (Stdio.modeFlags mode) ?_
        rw [← hentry]
        exact entries_registerStdioFp ..
  -- fwrite advances a registered stream by `size * count`
  | fwrite ptr size count fp =>
    cases hentry : p.sys.clientMeta.stdioFiles fp with
    | none =>
      refine .same ?_
      simp only [Program.step, Stdio.fwrite, ClientMetadataManager.isStdioFpRegistered,
        FileTable.isRegistered, hentry]
      exact congrArg entries (StdioApi.fwrite_clientMeta ptr size count fp env p)
    | some info =>
      refine .transferred (.inr fp) info (size * count) rfl hentry ?_
      simp only [Program.step, Stdio.fwrite, ClientMetadataManager.isStdioFpRegistered,
        ClientMetadataManager.getStdioFileInfo, FileTable.isRegistered, hentry]
      exact entries_updateStdioOffset _ _ hentry
  -- fclose takes a registered stream out
  | fclose fp =>
    simp only [Program.step, Stdio.fclose]
    cases hentry : p.sys.clientMeta.isStdioFpRegistered fp with
    | false => exact .same (congrArg entries (StdioApi.fclose_clientMeta fp p))
    | true =>
      refine .unregistered (.inr fp) ?_
      rw [if_pos rfl]
      exact (congrArg entries (StdioApi.fclose_clientMeta fp _)).trans
        (entries_unregisterStdioFp ..)

/-! ## Offsets stay in range -/

theorem InRange.update {p' : Program} {h : Handle} {v : Option FileInfo} (hrange : InRange p)
    (hentry : entry p' = Function.update (entry p) h v)
    (hv : ∀ info, v = some info → 0 ≤ info.currentOffset ∧ info.currentOffset ≤ maxSigned64) :
    InRange p' := by
  intro h' info hinfo
  rw [hentry] at hinfo
  by_cases hh : h' = h
  · subst hh
    rw [Function.update_self] at hinfo
    exact hv info hinfo
  · rw [Function.update_of_ne hh] at hinfo
    exact hrange h' info hinfo

/-- A transfer that fits moves the offset by its size. -/
theorem advance_of_representable {info : FileInfo} {n : Nat} (hoff : 0 ≤ info.currentOffset)
    (h : Representable info n) :
    Posix.advance info (toUnsigned64 n) = info.currentOffset + n := by
  obtain ⟨o, ho⟩ := Int.eq_ofNat_of_zero_le hoff
  have hsum : o + n ≤ maxSigned64 := by
    have hle := h.2
    rw [ho] at hle
    omega
  have hn : toUnsigned64 n = n := toUnsigned64_of_le (by omega)
  obtain ⟨hadvance, -⟩ := advance_eq ho (by omega) (.inr hsum)
  rw [hn, hadvance, ho, Nat.cast_add]

theorem InRange.step {i : AppCall × Env} (hrange : InRange p) (hallowed : Allowed i.1)
    (hfits : Fits p i) : InRange (p.step i).2 := by
  obtain ⟨c, env⟩ := i
  cases @step_table p env c hallowed with
  | same hentry =>
    intro h info hinfo
    rw [hentry] at hinfo
    exact hrange h info hinfo
  | registered h path flags hentry =>
    refine hrange.update hentry fun info hinfo => ?_
    obtain rfl := Option.some.inj hinfo
    -- a new entry stands at offset zero
    exact ⟨le_rfl, Int.natCast_nonneg _⟩
  | unregistered h hentry => exact hrange.update hentry fun info hinfo => by cases hinfo
  | sought h old pos hmax hentry =>
    refine hrange.update hentry fun info hinfo => ?_
    obtain rfl := Option.some.inj hinfo
    -- after a seek the offset is one the kernel accepted
    exact ⟨Int.natCast_nonneg _, Int.ofNat_le.mpr hmax⟩
  | transferred h old n hrequest hold hentry =>
    refine hrange.update hentry fun info hinfo => ?_
    obtain rfl := Option.some.inj hinfo
    -- after a transfer the sum is in range, by `Fits`
    have hfit := hfits h n old hrequest hold
    have hnonneg := (hrange h old hold).1
    rw [advance_of_representable hnonneg hfit]
    exact ⟨Int.add_nonneg hnonneg (Int.natCast_nonneg n), hfit.2⟩

/-! ## Exactness of one call -/

/-- The server leaves the size of a task as it is. -/
theorem clientRead_dataSize (data : List Byte) (n off : Nat) (file : PathStr)
    (iface : IoClientType) (w : World) :
    (Client.read data n off file iface env w).task.dataSize = n := by
  cases iface with
  | kPosix => rfl
  | kStdio =>
    simp only [Client.read, Server.read, Server.readStdio]
    split <;> rfl
  | kHdf5 | kUring | kMulti => rfl

theorem clientWrite_dataSize (data : List Byte) (n off : Nat) (file : PathStr)
    (iface : IoClientType) (w : World) :
    (Client.write data n off file iface env w).task.dataSize = n := by
  cases iface with
  | kPosix => rfl
  | kStdio =>
    simp only [Client.write, Server.write, Server.writeStdio]
    split <;> rfl
  | kHdf5 | kUring | kMulti => rfl

theorem offset_update {p' : Program} {h : Handle} (info : FileInfo) (off : Int)
    (hentry : entry p' =
      Function.update (entry p) h (some { info with currentOffset := off })) :
    offset p' h = some off := by
  simp [offset, hentry]

/-- A transfer on a registered handle sends the size modulo `2^64`, moves the offset by as much
and reports success. -/
theorem transfer_effect {c : AppCall} {h : Handle} {n : Nat} {info : FileInfo}
    (hallowed : Allowed c) (hrequest : request c = some (h, n)) (hentry : entry p h = some info) :
    taskSize p (c, env) info = some (toUnsigned64 n) ∧ ¬ Failed c (p.step (c, env)).1 ∧
      offset (p.step (c, env)).2 h = some (Posix.advance info (toUnsigned64 n)) := by
  cases c with
  | posix c =>
    cases c with
    | read fd buf count =>
      obtain ⟨rfl, rfl⟩ := Prod.mk.inj (Option.some.inj hrequest)
      -- the size and what the call returns are the count, which is below 2^63
      have hcount : toUnsigned64 count = count := toUnsigned64_of_le hallowed
      have hvalue : toSigned64 count = count := toSigned64_of_le hallowed
      rw [hcount]
      refine ⟨congrArg some (clientRead_dataSize ..), ?_, ?_⟩
      · simp [Failed, Program.step, Posix.perform, Posix.read_of_registered hentry, hvalue]
      · refine @offset_update p _ _ info _ ?_
        simp only [Program.step, Posix.perform, Posix.read_of_registered hentry]
        exact entries_updatePosixOffset _ _ hentry
    | write fd data =>
      obtain ⟨rfl, rfl⟩ := Prod.mk.inj (Option.some.inj hrequest)
      have hcount : toUnsigned64 data.length = data.length := toUnsigned64_of_le hallowed
      have hvalue : toSigned64 data.length = data.length := toSigned64_of_le hallowed
      rw [hcount]
      refine ⟨congrArg some (clientWrite_dataSize ..), ?_, ?_⟩
      · simp [Failed, Program.step, Posix.perform, Posix.write_of_registered hentry, hvalue]
      · refine @offset_update p _ _ info _ ?_
        simp only [Program.step, Posix.perform, Posix.write_of_registered hentry]
        exact entries_updatePosixOffset _ _ hentry
    | open64 | creat64 | lseek64 | close => cases hrequest
  | fwrite ptr size count fp =>
    obtain ⟨rfl, rfl⟩ := Prod.mk.inj (Option.some.inj hrequest)
    have hstdio : p.sys.clientMeta.stdioFiles fp = some info := hentry
    refine ⟨?_, ?_, ?_⟩
    · simp [taskSize, Stdio.fwrite, ClientMetadataManager.isStdioFpRegistered,
        ClientMetadataManager.getStdioFileInfo, FileTable.isRegistered, hstdio,
        clientWrite_dataSize, Stdio.totalSize]
    · simp [Failed, Program.step, Stdio.fwrite, ClientMetadataManager.isStdioFpRegistered,
        ClientMetadataManager.getStdioFileInfo, FileTable.isRegistered, hstdio]
    · refine @offset_update p _ _ info _ ?_
      simp only [Program.step, Stdio.fwrite, ClientMetadataManager.isStdioFpRegistered,
        ClientMetadataManager.getStdioFileInfo, FileTable.isRegistered, hstdio]
      exact entries_updateStdioOffset _ _ hentry
  | fopen | fclose => cases hrequest

/-- A call is exact if and only if what it asks for can be represented: it never fails. -/
theorem exact_iff_fits {i : AppCall × Env} (hrange : InRange p) (hallowed : Allowed i.1) :
    Exact p i ↔ Fits p i := by
  obtain ⟨c, env⟩ := i
  constructor
  · intro hexact h n info hrequest hentry
    by_contra hnot
    -- the adapters do not look at the result of the task
    have hfailed := ((hexact h n info hrequest hentry).2 hnot).1
    exact (transfer_effect hallowed hrequest hentry).2.1 hfailed
  · intro hfits h n info hrequest hentry
    have hfit := hfits h n info hrequest hentry
    refine ⟨fun _ => ?_, fun hnot => absurd hfit hnot⟩
    -- what is sent is the size modulo `2^64`, which is the size
    obtain ⟨hsize, -, hoffset⟩ := @transfer_effect p env _ _ _ _ hallowed hrequest hentry
    have hnonneg := (hrange h info hentry).1
    rw [advance_of_representable hnonneg hfit] at hoffset
    have hn : toUnsigned64 n = n := toUnsigned64_of_lt hfit.1
    exact ⟨hn ▸ hsize, hoffset⟩

end

/-! ## Runs -/

/-- Along every run of calls on both adapters, whatever the server's system calls return: sizes
and offsets are exact and all offsets stay in range if and only if every size and every new
offset can be represented. -/
theorem exact_iff {p : Program} (hstart : p.sys.clientMeta = .empty) (is : List (AppCall × Env))
    (hallowed : Along Program.step (fun _ i => Allowed i.1) p is) :
    Along Program.step (fun p i => Exact p i ∧ InRange (p.step i).2) p is ↔
      Along Program.step Fits p is := by
  have hrange : InRange p := by
    intro h info hinfo
    rw [entry, hstart] at hinfo
    cases h <;> cases hinfo
  have hboth : Along Program.step (fun p i => Allowed i.1 ∧ Exact p i ∧ InRange (p.step i).2) p is ↔
      Along Program.step (fun p i => Allowed i.1 ∧ Fits p i) p is := by
    apply along_iff (I := InRange) _ _ hrange
    -- offsets that are in range stay there under both conditions
    · intro p i _ h
      exact h.2.2
    · intro p i hp
      refine and_congr_right fun hi => ⟨fun h => (exact_iff_fits hp hi).mp h.1, fun h => ?_⟩
      exact ⟨(exact_iff_fits hp hi).mpr h, hp.step hi h⟩
  simp only [along_and] at hboth ⊢
  exact ⟨fun h => (hboth.mp ⟨hallowed, h⟩).2, fun h => (hboth.mpr ⟨hallowed, h⟩).2⟩

/-! ## The largest offset -/

/-- An application that has nothing open. -/
def fresh : Program := ⟨deployment threeBytes openToAll, fun _ => none⟩

/-- A descriptor on `/f`, moved to an offset, and a byte written there. -/
def writeByteAt (off : Int) : List (AppCall × Env) :=
  [(.posix (.open64 ['/', 'f'] oRdwr 0), .calm), (.posix (.lseek64 0 off .set), .calm),
    (.posix (.write 0 [9]), .calm)]

theorem writeByteAt_allowed (off : Int) :
    Along Program.step (fun _ i => Allowed i.1) fresh (writeByteAt off) := by
  have hone : [(9 : Byte)].length ≤ maxSigned64 := by decide
  exact ⟨trivial, trivial, hone, trivial⟩

theorem exact_iff_writeByteAt :
    Along Program.step (fun p i => Exact p i ∧ InRange (p.step i).2) fresh (writeByteAt 1) ↔
      Along Program.step Fits fresh (writeByteAt 1) :=
  exact_iff rfl _ (writeByteAt_allowed 1)

/-- The kernel seeks to the largest `off_t`; a byte written there takes DTIO's offset to the
smallest one, and the call reports success. -/
theorem offset_wraps :
    Along Program.step (fun _ i => Allowed i.1) fresh (writeByteAt 9223372036854775807) ∧
      offset (final Program.step fresh (writeByteAt 9223372036854775807)) (.inl 0) =
        some (-9223372036854775808) ∧
      ¬ Along Program.step (fun p i => Exact p i ∧ InRange (p.step i).2) fresh
        (writeByteAt 9223372036854775807) := by
  have hwraps : offset (final Program.step fresh (writeByteAt 9223372036854775807)) (.inl 0) =
      some (-9223372036854775808) := by decide +kernel
  refine ⟨writeByteAt_allowed _, hwraps, fun h => ?_⟩
  obtain ⟨-, -, ⟨-, hrange⟩, -⟩ := h
  obtain ⟨info, hinfo, hoff⟩ := Option.map_eq_some_iff.mp hwraps
  have hnonneg := (hrange (.inl 0) info hinfo).1
  rw [hoff] at hnonneg
  exact absurd hnonneg (by decide)

end DTIO.Properties.ExactArithmetic
