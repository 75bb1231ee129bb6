import DTIO.Adapter.Registered
import DTIO.Foundation.Mealy

/-!
# Access Control

The access mode of a descriptor is recorded when it is opened and never looked at again.  The
server opens the file itself, for reading and writing and with its own user, and the adapter
reports success whatever the server could do.

So a call that the descriptor's mode forbids is reported as successful, and carried out if the
server may; and a call that the mode permits fails silently if the server may not both read
and write the file.

## Main definitions

- `Preserved`: a call has the outcome the plain descriptor gives it
- `Meets`: the plain descriptor permits the call and the server can carry it out

## Main results

- `permits_read_iff`, `permits_write_iff`: when the plain descriptor permits a call
- `preserved_iff`: one call
- `access_iff`: runs of reads and writes on a descriptor just opened
- `access_violated`: a write that is not permitted, and a read that is not carried out
-/

namespace DTIO.Properties.AccessControl

open DTIO.Posix DTIO.Chimod DTIO.Client DTIO.ByteFile DTIO.MachineInt DTIO.Mealy
open DTIO.Adapter

/-! ## Calls that are carried out, and calls that are refused -/

/-- The content of the file a descriptor of the application denotes. -/
def fileContent (s : System) (fd : Int) : List Byte :=
  match s.kernel.fds appPid fd with
  | some f => s.content f
  | none => []

/-- DTIO's offset of the descriptor, as a position in the file. -/
def position (s : System) (fd : Int) : Nat := ((s.posixOffset fd).getD 0).toNat

/-- The plain descriptor permits the call. -/
def Permits (s : System) (c : Call) : Prop := 0 ≤ (Direct.step s.kernel c).1.value

/-- What the plain descriptor permits succeeds, on the file's bytes at the current offset; any
other call returns -1 and changes neither the file, nor the buffer, nor the offset. -/
def Preserved (s : System) (i : Call × Env) : Prop :=
  let r := Posix.perform s i.1 i.2
  match i.1 with
  | .read fd buf count =>
    let bytes := readAt (fileContent s fd) (position s fd) count
    if 0 ≤ (Direct.step s.kernel i.1).1.value then
      0 ≤ r.result.value ∧ r.result.buf.take bytes.length = bytes
    else
      r.result = ⟨-1, buf⟩ ∧ r.system.posixOffset fd = s.posixOffset fd
  | .write fd data =>
    if 0 ≤ (Direct.step s.kernel i.1).1.value then
      0 ≤ r.result.value ∧
        fileContent r.system fd = writeAt 0 (fileContent s fd) (position s fd) data
    else
      r.result.value = -1 ∧ fileContent r.system fd = fileContent s fd ∧
        r.system.posixOffset fd = s.posixOffset fd
  | _ => True

/-- The plain descriptor permits the call, and the server can carry it out or the bytes are
where they belong already. -/
def Meets (s : System) (i : Call × Env) : Prop :=
  match i.1 with
  | .read fd _ count =>
    let bytes := readAt (fileContent s fd) (position s fd) count
    Permits s i.1 ∧
      (s.CanServe fd ∨ (allocateBuffer i.2.stale count).take bytes.length = bytes)
  | .write fd data =>
    Permits s i.1 ∧
      (s.CanServe fd ∨
        writeAt 0 (fileContent s fd) (position s fd) data = fileContent s fd)
  | _ => True

/-- Reads and writes on `fd` whose ranges end at an `off_t`, while no system call of the
server is failed by the environment. -/
def OnFd (fd : Int) (s : System) (i : Call × Env) : Prop :=
  i.1.fd? = some fd ∧ i.2.fault = .none ∧ position s fd + i.1.size ≤ maxSigned64 ∧
    match i.1 with
    | .read .. | .write .. => True
    | _ => False

/-! ## The invariant -/

/-- `fd` is registered on `f` at offset `n`, and no process has a negative descriptor. -/
structure Inv (fd : Int) (f : OpenFile) (s : System) : Prop where
  registered : ∃ info, Registered s fd info f ∧ ∃ n : Nat, info.currentOffset = n ∧ n ≤ maxSigned64
  nonneg : s.kernel.NonnegFds

section

variable {s : System} {fd : Int} {info : FileInfo} {f : OpenFile} {n : Nat} {env : Env}

theorem fileContent_of_file (h : s.kernel.fds appPid fd = some f) :
    fileContent s fd = s.content f := by
  simp [fileContent, h]

theorem position_of_registered (h : Registered s fd info f) (hoff : info.currentOffset = n) :
    position s fd = n := by
  simp [position, h.posixOffset, hoff]

/-- The plain descriptor permits a read if and only if it is readable. -/
theorem permits_read_iff (h : s.kernel.fds appPid fd = some f) (buf : List Byte) (count : Nat) :
    Permits s (.read fd buf count) ↔ isReadable f.flags = true := by
  unfold Permits Direct.step Direct.read
  cases hr : isReadable f.flags with
  | true => simp [read_full_of_file h hr rfl]
  | false => simp [Kernel.read, h, hr]

/-- It permits a write if and only if it is writable and, unless nothing is written, its file
has not reached the largest size where the bytes would go. -/
theorem permits_write_iff (h : s.kernel.fds appPid fd = some f) (data : List Byte) :
    Permits s (.write fd data) ↔
      isWritable f.flags = true ∧ (data = [] ∨ s.kernel.writePos f < maxSigned64) := by
  unfold Permits Direct.step Direct.write
  simp only [Kernel.write, h, Transfer.amount_full]
  cases hw : isWritable f.flags with
  | false => simp
  | true =>
    rcases lt_or_ge (s.kernel.writePos f) maxSigned64 with hlt | hge
    · have hne : maxSigned64 - s.kernel.writePos f ≠ 0 := by omega
      simp [hlt, hne]
    · -- there is no room, which matters only when there is something to write
      have hzero : maxSigned64 - s.kernel.writePos f = 0 := by omega
      cases data with
      | nil => simp
      | cons b bs => simp [hzero, not_lt.mpr hge]

/-! ## Tasks -/

/-- A read's task obtains the file's bytes, or nothing. -/
theorem sentRead_calm (h : Registered s fd info f) (hneg : s.kernel.NonnegFds)
    (hoff : info.currentOffset = n) (hn : n ≤ maxSigned64) (hcalm : env.fault = .none)
    (count : Nat) :
    (s.CanServe fd ∧ (Posix.sentRead info count env s).task.data =
        copyTo (allocateBuffer env.stale count) (readAt (s.content f) n count)) ∨
    (¬ s.CanServe fd ∧
      (Posix.sentRead info count env s).task.data = allocateBuffer env.stale count) := by
  rw [System.canServe_iff h.file, Posix.sentRead_eq hoff hn]
  set task : ReadTask := ⟨allocateBuffer env.stale count, n, count, info.absolutePath, .kPosix⟩
  set w := (Client.schedule s.world).2
  have hbound : w.kernel.fs.dir (w.kernel.host.walk task.filename) = some f.ino := h.bound
  have hoff' : toSigned64 task.dataOffset = n := toSigned64_of_le hn
  have hneg' : w.kernel.NonnegFds := hneg
  exact Server.readPosix_calm hcalm h.path hbound hneg' hoff' hn

/-- A write's task places the data, or does nothing. -/
theorem sentWrite_calm (h : Registered s fd info f)
    (hneg : s.kernel.NonnegFds) (hoff : info.currentOffset = n)
    (hcalm : env.fault = .none) {data : List Byte} (hroom : n + data.length ≤ maxSigned64) :
    (s.CanServe fd ∧ ∃ pid fd' g, (Posix.sentWrite info data env s).world.kernel =
        (s.kernel.withFs (s.kernel.fs.setContent f.ino
          ((s.kernel.fs.inodes f.ino).content.write n data))).setFd pid fd' g) ∨
    (¬ s.CanServe fd ∧ (Posix.sentWrite info data env s).world.kernel = s.kernel) := by
  have hn : n ≤ maxSigned64 := by omega
  rw [System.canServe_iff h.file]
  rw [Posix.sentWrite_eq hoff hn]
  set task : WriteTask := ⟨data, n, data.length, info.absolutePath, .kPosix⟩
  set w := (Client.schedule s.world).2
  have hbound : w.kernel.fs.dir (w.kernel.host.walk task.filename) = some f.ino := h.bound
  have hoff' : toSigned64 task.dataOffset = n := toSigned64_of_le hn
  have htake : task.data.take task.dataSize = data := List.take_length
  rcases Server.writePosix_calm hcalm h.path hbound hneg hoff' hn (htake.symm ▸ hroom) with
    ⟨hcan, fd', g, hk⟩ | ⟨hcannot, hk⟩
  · rw [htake] at hk
    exact Or.inl ⟨hcan, _, fd', g, hk⟩
  · exact Or.inr ⟨hcannot, hk⟩

/-! ## One call -/

/-- What is read through DTIO begins with what the task's buffer begins with. -/
theorem take_read {buf task bytes : List Byte} {count : Nat} (htask : task.length = count)
    (hbytes : bytes.length ≤ count) :
    (copyTo buf (task.take count)).take bytes.length = task.take bytes.length := by
  subst htask
  rw [List.take_length, take_copyTo_of_le _ hbytes]

theorem preserved_read_iff (h : Inv fd f s) (buf : List Byte) (count : Nat)
    (hon : OnFd fd s (.read fd buf count, env)) :
    Preserved s (.read fd buf count, env) ↔ Meets s (.read fd buf count, env) := by
  obtain ⟨⟨info, hreg, n, hoff, hn⟩, hneg⟩ := h
  obtain ⟨-, hcalm, hfits, -⟩ := hon
  change position s fd + count ≤ maxSigned64 at hfits
  have hcount : toSigned64 count = count := toSigned64_of_le (by omega)
  unfold Preserved Meets Permits
  dsimp only [Posix.perform]
  rw [Posix.read_of_registered hreg.entry, hcount]
  dsimp only
  rw [fileContent_of_file hreg.file, position_of_registered hreg hoff]
  set bytes := readAt (s.content f) n count
  have hle : bytes.length ≤ count := by
    rw [length_readAt]
    exact min_le_left _ _
  by_cases hok : 0 ≤ (Direct.step s.kernel (.read fd buf count)).1.value
  · simp only [hok, if_true, true_and, Int.natCast_nonneg]
    rcases sentRead_calm hreg hneg hoff hn hcalm count with ⟨hcan, hdata⟩ | ⟨hcannot, hdata⟩
    · -- the server obtained the bytes
      rw [hdata, take_read _ hle, take_copyTo]
      · simp [hcan]
      · rw [length_copyTo_of_le, length_allocateBuffer]
        simp
    · -- the buffer keeps what it held
      rw [hdata, take_read (length_allocateBuffer _ _) hle]
      simp [hcannot]
  · -- success is reported all the same
    simp only [hok, if_false, false_and, iff_false]
    rintro ⟨hresult, -⟩
    have hvalue := congrArg Result.value hresult
    dsimp only at hvalue
    omega

theorem preserved_write_iff (h : Inv fd f s) (data : List Byte)
    (hon : OnFd fd s (.write fd data, env)) :
    Preserved s (.write fd data, env) ↔ Meets s (.write fd data, env) := by
  obtain ⟨⟨info, hreg, n, hoff, hn⟩, hneg⟩ := h
  obtain ⟨-, hcalm, hfits, -⟩ := hon
  change position s fd + data.length ≤ maxSigned64 at hfits
  have hvalue : (Posix.write fd data env s).result.value = data.length := by
    rw [Posix.write_of_registered hreg.entry]
    dsimp only
    exact toSigned64_of_le (by omega)
  have hfile := (hreg.write data env).file
  rw [position_of_registered hreg hoff] at hfits
  unfold Preserved Meets Permits
  dsimp only [Posix.perform]
  rw [hvalue, fileContent_of_file hreg.file, fileContent_of_file hfile,
    position_of_registered hreg hoff]
  by_cases hok : 0 ≤ (Direct.step s.kernel (.write fd data)).1.value
  · simp only [hok, if_true, true_and, Int.natCast_nonneg]
    have hkernel : (Posix.write fd data env s).system.kernel =
        (Posix.sentWrite info data env s).world.kernel := by
      rw [Posix.write_of_registered hreg.entry]
      rfl
    rcases sentWrite_calm hreg hneg hoff hcalm hfits with ⟨hcan, pid, fd', g, hk⟩ | ⟨hcannot, hk⟩
    · -- the data is in the file
      have hcontent : (Posix.write fd data env s).system.content f =
          writeAt 0 (s.content f) n data := by
        simp only [System.content, hkernel, hk, setFd_fs, withFs_fs, FileSystem.setContent,
          Function.update_self]
        exact Content.write_val (Or.inr hfits)
      simp [hcan, hcontent]
    · -- the file is as it was, which is right only when the data was there already
      have hcontent : (Posix.write fd data env s).system.content f = s.content f := by
        simp [System.content, hkernel, hk]
      rw [hcontent]
      simp only [hcannot, false_or]
      exact eq_comm
  · -- the count is reported where -1 was due
    simp only [hok, if_false, false_and, iff_false]
    rintro ⟨hneg, -⟩
    omega

/-- **One call.** -/
theorem preserved_iff (h : Inv fd f s) {i : Call × Env} (hon : OnFd fd s i) :
    Preserved s i ↔ Meets s i := by
  obtain ⟨c, env⟩ := i
  have hfd : c.fd? = some fd := hon.1
  cases c with
  | read fd' buf count =>
    obtain rfl := Option.some.inj hfd
    exact preserved_read_iff h buf count hon
  | write fd' data =>
    obtain rfl := Option.some.inj hfd
    exact preserved_write_iff h data hon
  | open64 | creat64 | lseek64 | close => exact iff_of_true trivial trivial

/-- **The invariant** is kept whatever the outcome of the call is. -/
theorem Inv.step (h : Inv fd f s) {i : Call × Env} (hon : OnFd fd s i) :
    Inv fd f (Posix.step s i).2 := by
  obtain ⟨⟨info, hreg, n, hoff, hn⟩, hneg⟩ := h
  obtain ⟨c, env⟩ := i
  obtain ⟨hfd, -, hfits, hkind⟩ := hon
  rw [position_of_registered hreg hoff] at hfits
  refine ⟨?_, Posix.perform_nonneg hneg c env⟩
  obtain ⟨hadvance, hle⟩ := advance_eq hoff hn (Or.inr hfits)
  cases c with
  | read fd' buf count =>
    obtain rfl := Option.some.inj hfd
    exact ⟨_, hreg.read buf count env, _, hadvance, hle⟩
  | write fd' data =>
    obtain rfl := Option.some.inj hfd
    exact ⟨_, hreg.write data env, _, hadvance, hle⟩
  | open64 | creat64 | lseek64 | close => exact hkind.elim

end

/-! ## Runs -/

/-- **Access control.**  After an `open` of any flags and mode on a path to be intercepted, of
a file with any permissions, a run of reads and writes on the descriptor gives every call the
outcome it has on the plain descriptor if and only if each call is permitted there and the
server can carry it out. -/
theorem access_iff {s : System} {path : PathStr} {flags mode : Nat}
    (haccept : s.config.shouldIntercept (absolute (s.kernel.host.cwd appPid) path) = true)
    (hopen : 0 ≤ (s.kernel.open64 appPid path flags mode).1)
    (hneg : s.kernel.NonnegFds) {is : List (Call × Env)}
    (hrun : Along Posix.step (OnFd (s.kernel.open64 appPid path flags mode).1)
      (Posix.open64 path flags mode s).system is) :
    Along Posix.step Preserved (Posix.open64 path flags mode s).system is ↔
      Along Posix.step Meets (Posix.open64 path flags mode s).system is := by
  obtain ⟨ino, hreg⟩ := registered_afterOpen haccept flags hopen
  -- the descriptor is registered at offset zero
  have hinv : Inv (s.kernel.open64 appPid path flags mode).1
      ⟨ino, flags, 0, some (absolute (s.kernel.host.cwd appPid) path)⟩
      (Posix.open64 path flags mode s).system := by
    refine ⟨⟨_, hreg, 0, rfl, Nat.zero_le _⟩, ?_⟩
    unfold Posix.open64
    rw [Posix.afterOpen_kernel]
    exact hneg.open64 path flags mode
  generalize (s.kernel.open64 appPid path flags mode).1 = fd at hrun hinv
  -- step by step the law is the condition, as long as the calls are on it
  have hiff : Along Posix.step (fun s i => OnFd fd s i ∧ Preserved s i)
        (Posix.open64 path flags mode s).system is ↔
      Along Posix.step (fun s i => OnFd fd s i ∧ Meets s i)
        (Posix.open64 path flags mode s).system is := by
    apply along_iff (I := Inv fd _) _ _ hinv
    · rintro t i ht ⟨hon, -⟩
      exact ht.step hon
    · intro t i ht
      exact and_congr_right fun hon => preserved_iff ht hon
  rw [along_and, along_and] at hiff
  constructor
  · intro hpreserved
    exact (hiff.mp ⟨hrun, hpreserved⟩).2
  · intro hmeets
    exact (hiff.mpr ⟨hrun, hmeets⟩).2

/-! ## A file the application may only read -/

section Decidable

variable {s : System} {i : Call × Env}

instance {fd : Int} : Decidable (OnFd fd s i) :=
  match i with
  | (.read .., _) | (.write .., _) => inferInstanceAs (Decidable (_ ∧ _ ∧ _ ∧ True))
  | (.open64 .., _) | (.creat64 .., _) | (.lseek64 .., _) | (.close _, _) =>
    inferInstanceAs (Decidable (_ ∧ _ ∧ _ ∧ False))

instance : Decidable (Preserved s i) :=
  match i with
  | (.read .., _) => inferInstanceAs (Decidable (ite _ _ _))
  | (.write .., _) => inferInstanceAs (Decidable (ite _ _ _))
  | (.open64 .., _) | (.creat64 .., _) | (.lseek64 .., _) | (.close _, _) => isTrue trivial

end Decidable

/-- `/f` with three bytes, which everyone may read and only user 1 may write. -/
def shared : System := deployment threeBytes fun u => ⟨true, u == 1⟩

/-- `/f` with three bytes, which everyone may read and nobody may write. -/
def readOnly : System := deployment threeBytes fun _ => ⟨true, false⟩

/-- A write through a descriptor that was opened for reading changes the file, and a read of a
file that the server may not write returns none of its bytes. -/
theorem access_violated :
    let s := (Posix.open64 ['/', 'f'] oRdonly 0 shared).system
    let t := (Posix.open64 ['/', 'f'] oRdonly 0 readOnly).system
    (Posix.write 0 [9] .calm s).result.value = 1 ∧
    fileContent (Posix.write 0 [9] .calm s).system 0 = [9, 2, 3] ∧
    ¬ Along Posix.step Preserved s [(.write 0 [9], .calm)] ∧
    (Posix.read 0 [] 3 .calm t).result = ⟨3, [0, 0, 0]⟩ ∧
    ¬ Along Posix.step Preserved t [(.read 0 [] 3, .calm)] := by
  decide +kernel

theorem access_iff_shared :
    Along Posix.step Preserved (Posix.open64 ['/', 'f'] oRdonly 0 shared).system
        [(.read 0 [] 3, .calm), (.write 0 [9], .calm)] ↔
      Along Posix.step Meets (Posix.open64 ['/', 'f'] oRdonly 0 shared).system
        [(.read 0 [] 3, .calm), (.write 0 [9], .calm)] :=
  access_iff (by decide +kernel) (by decide +kernel) ⟨fun _ _ _ => rfl⟩ (by decide +kernel)

end DTIO.Properties.AccessControl
