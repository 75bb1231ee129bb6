import DTIO.Adapter.Registered
import DTIO.Foundation.Mealy

/-!
# Offset Coherence

The position of a registered descriptor exists twice: as the offset of the kernel's file
description, and as DTIO's `current_offset`.  Reads and writes move the second only, while
`lseek` computes from the first.  A relative seek is therefore right exactly when nothing has
been read or written since the last successful seek.

A run is followed together with the POSIX position of one descriptor: the target of its last
successful seek and the bytes moved since.

## Main definitions

- `track`: the adapter together with the POSIX position of `fd`
- `Coherent`: a successful seek returns and stores the POSIX position
- `Settled`: a relative seek that the kernel accepts follows another seek directly

## Main results

- `coherent_iff_settled`: along runs with complete transfers, the two are equivalent
-/

namespace DTIO.Properties.OffsetCoherence

open DTIO.Posix DTIO.Chimod DTIO.Client DTIO.ByteFile DTIO.MachineInt
open DTIO.Adapter DTIO.Mealy

/-! ## The POSIX position -/

/-- The system, the target of the last successful seek on `fd`, and the bytes read or written
through `fd` since. -/
structure Tracked where
  sys : System
  base : Nat
  moved : Nat

def Tracked.position (t : Tracked) : Nat := t.base + t.moved

/-- The size of the file that `fd` denotes. -/
def fileSize (s : System) (fd : Int) : Nat :=
  match s.kernel.fds appPid fd with
  | some f => (s.content f).length
  | none => 0

/-- Where POSIX puts `fd` on `lseek(fd, off, whence)`. -/
def posixTarget (fd : Int) (t : Tracked) (off : Int) (whence : Whence) : Int :=
  seekTarget t.position (fileSize t.sys fd) off whence

/-- One call, with the position of `fd` kept as POSIX prescribes. -/
def track (fd : Int) (t : Tracked) (i : Call × Env) : Result × Tracked :=
  let o := Posix.perform t.sys i.1 i.2
  (o.result,
    if i.1.fd? = some fd then
      match i.1 with
      | .lseek64 _ off whence =>
        if 0 ≤ o.result.value then ⟨o.system, (posixTarget fd t off whence).toNat, 0⟩
        else ⟨o.system, t.base, t.moved⟩
      | c => ⟨o.system, t.base, t.moved + c.size⟩
    else ⟨o.system, t.base, t.moved⟩)

/-- The runs in question: `fd` is not closed, and the server's transfers are complete. -/
def Allowed (fd : Int) (t : Tracked) (i : Call × Env) : Prop :=
  Posix.Complete t.sys i ∧ i.1 ≠ .close fd

instance (fd : Int) (t : Tracked) (i : Call × Env) : Decidable (Allowed fd t i) :=
  inferInstanceAs (Decidable (_ ∧ _))

/-- A successful `lseek` on `fd` returns the POSIX position, and `current_offset` is that
position afterwards. -/
def Coherent (fd : Int) (t : Tracked) (i : Call × Env) : Prop :=
  ∀ off whence, i.1 = .lseek64 fd off whence → 0 ≤ (track fd t i).1.value →
    (track fd t i).1.value = posixTarget fd t off whence ∧
    ∃ info, (track fd t i).2.sys.clientMeta.posixFiles fd = some info ∧
      info.currentOffset = posixTarget fd t off whence

/-- A `SEEK_CUR` that the kernel accepts comes when nothing has been moved since the last
successful seek. -/
def Settled (fd : Int) (t : Tracked) (i : Call × Env) : Prop :=
  ∀ off, i.1 = .lseek64 fd off .cur → 0 ≤ t.base + off → t.base + off ≤ maxSigned64 →
    t.moved = 0

/-- DTIO's offset is the POSIX position, the kernel's is the last seek's target. -/
structure InStep (fd : Int) (t : Tracked) (info : FileInfo) (f : OpenFile) : Prop where
  registered : Registered t.sys fd info f
  current : info.currentOffset = t.position
  kernel : f.offset = t.base
  position_le : t.position ≤ maxSigned64

/-! ## One step -/

section Step

variable {fd : Int} {t : Tracked} {info : FileInfo} {f : OpenFile}

theorem fileSize_eq (h : InStep fd t info f) : fileSize t.sys fd = (t.sys.content f).length := by
  unfold fileSize
  rw [h.registered.file]

theorem track_of_ne {i : Call × Env} (hne : i.1.fd? ≠ some fd) :
    (track fd t i).2 = ⟨(Posix.perform t.sys i.1 i.2).system, t.base, t.moved⟩ :=
  if_neg hne

theorem track_read (buf : List Byte) (count : Nat) (env : Env) :
    (track fd t (.read fd buf count, env)).2 =
      ⟨(Posix.read fd buf count env t.sys).system, t.base, t.moved + count⟩ :=
  if_pos rfl

theorem track_write (data : List Byte) (env : Env) :
    (track fd t (.write fd data, env)).2 =
      ⟨(Posix.write fd data env t.sys).system, t.base, t.moved + data.length⟩ :=
  if_pos rfl

theorem track_lseek64 (off : Int) (whence : Whence) (env : Env) :
    (track fd t (.lseek64 fd off whence, env)).2 =
      if 0 ≤ (Posix.lseek64 fd off whence t.sys).result.value then
        ⟨(Posix.lseek64 fd off whence t.sys).system, (posixTarget fd t off whence).toNat, 0⟩
      else ⟨(Posix.lseek64 fd off whence t.sys).system, t.base, t.moved⟩ :=
  if_pos rfl

/-- The kernel computes every target from the last seek's target. -/
theorem lseek64_value (h : InStep fd t info f) (off : Int) (whence : Whence) :
    (Posix.lseek64 fd off whence t.sys).result.value =
      if 0 ≤ seekTarget t.base (fileSize t.sys fd) off whence ∧
          seekTarget t.base (fileSize t.sys fd) off whence ≤ maxSigned64
      then seekTarget t.base (fileSize t.sys fd) off whence else -1 := by
  rw [fileSize_eq h, ← h.kernel]
  split
  next hrange =>
    obtain ⟨pos, hpos⟩ := Int.eq_ofNat_of_zero_le hrange.1
    rw [hpos]
    exact (h.registered.lseek64 _ _ _ hpos.symm (by omega)).1
  next hrange => exact (h.registered.lseek64_fail hrange).1

/-- **One step.**  A seek is coherent if and only if it is settled. -/
theorem coherent_iff (h : InStep fd t info f) (i : Call × Env) :
    Coherent fd t i ↔ Settled fd t i := by
  obtain ⟨c, env⟩ := i
  constructor
  · intro hcoh off hc hlow hhigh
    obtain rfl : c = .lseek64 fd off .cur := hc
    have hvalue := lseek64_value h off .cur
    rw [if_pos ⟨hlow, hhigh⟩] at hvalue
    have hret := (hcoh off .cur rfl (hvalue.symm ▸ hlow)).1
    -- the kernel answered from `base`, POSIX asks for `base + moved`
    have heq : (t.base : Int) + off = (t.position : Int) + off := hvalue.symm.trans hret
    unfold Tracked.position at heq
    omega
  · intro hset off whence hc hpos
    obtain rfl : c = .lseek64 fd off whence := hc
    have hvalue := lseek64_value h off whence
    have hperform : (track fd t (.lseek64 fd off whence, env)).1.value =
        (Posix.lseek64 fd off whence t.sys).result.value := rfl
    rw [hperform] at hpos ⊢
    split at hvalue
    next hrange =>
      have htarget : seekTarget t.base (fileSize t.sys fd) off whence =
          posixTarget fd t off whence := by
        cases whence with
        | set => rfl
        | cur =>
          have hmoved := hset off rfl hrange.1 hrange.2
          show (t.base : Int) + off = ((t.base + t.moved : Nat) : Int) + off
          rw [hmoved, Nat.add_zero]
        | «end» => rfl
      obtain ⟨pos, hposeq⟩ := Int.eq_ofNat_of_zero_le hrange.1
      have hseek := h.registered.lseek64 off whence pos
        (by rw [← hposeq, fileSize_eq h, h.kernel]) (by omega)
      refine ⟨hvalue.trans htarget, { info with currentOffset := pos }, ?_, ?_⟩
      · rw [track_lseek64, if_pos hpos]
        exact hseek.2.entry
      · exact hposeq.symm.trans htarget
    next => omega

/-- A read or write on `fd` with a complete transfer moves the position and DTIO's offset. -/
theorem InStep.moved (h : InStep fd t info f) {count : Nat} {s' : System}
    (hfit : count = 0 ∨ t.position + count ≤ maxSigned64)
    (hreg : Registered s' fd { info with currentOffset := Posix.advance info count } f) :
    InStep fd ⟨s', t.base, t.moved + count⟩
      { info with currentOffset := Posix.advance info count } f := by
  obtain ⟨hadv, hle⟩ := advance_eq h.current h.position_le hfit
  exact ⟨hreg, hadv.trans (by simp [Tracked.position, Nat.add_assoc]), h.kernel,
    by simpa [Tracked.position, Nat.add_assoc] using hle⟩

theorem inStep_track (h : InStep fd t info f) {i : Call × Env} (hallowed : Allowed fd t i)
    (hcoh : Coherent fd t i) : ∃ info' f', InStep fd (track fd t i).2 info' f' := by
  obtain ⟨c, env⟩ := i
  obtain ⟨hcomplete, hclose⟩ := hallowed
  by_cases hfd : c.fd? = some fd
  · unfold Posix.Complete at hcomplete
    cases c with
    | open64 path flags mode => cases hfd
    | creat64 path mode => cases hfd
    | close fd' => exact absurd (congrArg Call.close (Option.some.inj hfd)) hclose
    | read fd' buf count =>
      obtain rfl := Option.some.inj hfd
      dsimp only [Posix.perform] at hcomplete
      rw [Posix.read_of_registered h.registered.entry] at hcomplete
      have hlen := h.registered.sentRead_complete h.current h.position_le (hcomplete _ rfl)
      have hfit := read_fits (t.sys.content_le f) hlen
      have hstep := h.moved hfit (h.registered.read buf count env)
      rw [track_read]
      exact ⟨_, f, hstep⟩
    | write fd' data =>
      obtain rfl := Option.some.inj hfd
      dsimp only [Posix.perform] at hcomplete
      rw [Posix.write_of_registered h.registered.entry] at hcomplete
      obtain ⟨hroom, -⟩ := Posix.sentWrite_complete h.current h.position_le h.registered.path
        h.registered.bound (hcomplete _ rfl)
      have hfit : data.length = 0 ∨ t.position + data.length ≤ maxSigned64 :=
        hroom.imp (fun hnil => by rw [hnil]; rfl) id
      have hstep := h.moved hfit (h.registered.write data env)
      rw [track_write]
      exact ⟨_, f, hstep⟩
    | lseek64 fd' off whence =>
      obtain rfl := Option.some.inj hfd
      have hvalue := lseek64_value h off whence
      by_cases hrange : 0 ≤ seekTarget t.base (fileSize t.sys fd') off whence ∧
          seekTarget t.base (fileSize t.sys fd') off whence ≤ maxSigned64
      · -- both offsets become the returned one, which is the POSIX position
        rw [if_pos hrange] at hvalue
        obtain ⟨pos, hposeq⟩ := Int.eq_ofNat_of_zero_le hrange.1
        have hle : pos ≤ maxSigned64 := by omega
        have hseek := h.registered.lseek64 off whence pos
          (by rw [← hposeq, fileSize_eq h, h.kernel]) hle
        have hnonneg : 0 ≤ (Posix.lseek64 fd' off whence t.sys).result.value := by
          rw [hvalue]
          exact hrange.1
        have htarget := (hcoh off whence rfl hnonneg).1
        have hposix : (posixTarget fd' t off whence).toNat = pos := by
          rw [← htarget]
          show (Posix.lseek64 fd' off whence t.sys).result.value.toNat = pos
          rw [hseek.1, Int.toNat_natCast]
        rw [track_lseek64, if_pos hnonneg, hposix]
        exact ⟨_, _, hseek.2, rfl, rfl, hle⟩
      · rw [if_neg hrange] at hvalue
        have hneg : ¬ 0 ≤ (Posix.lseek64 fd' off whence t.sys).result.value := by
          rw [hvalue]
          decide
        rw [fileSize_eq h, ← h.kernel] at hrange
        rw [track_lseek64, if_neg hneg, (h.registered.lseek64_fail hrange).2]
        exact ⟨info, f, h⟩
  · rw [track_of_ne hfd]
    exact ⟨info, f, h.registered.perform hfd env, h.current, h.kernel, h.position_le⟩

end Step

/-! ## Runs -/

/-- `fd` has just been opened, not for appending, by an intercepted `open`: both offsets
are 0. -/
structure JustOpened (s : System) (fd : Int) (info : FileInfo) (f : OpenFile) : Prop where
  registered : Registered s fd info f
  current : info.currentOffset = 0
  kernel : f.offset = 0
  not_append : hasFlag info.flags oAppend = false

/-- That is how an `open` on a path to be intercepted leaves the system. -/
theorem justOpened_open64 (s : System) (path : PathStr) (flags mode : Nat)
    (haccept : s.config.shouldIntercept (absolute (s.kernel.host.cwd appPid) path) = true)
    (hfd : 0 ≤ (Posix.open64 path flags mode s).result.value)
    (happ : hasFlag flags oAppend = false) :
    ∃ info f, JustOpened (Posix.open64 path flags mode s).system
      (Posix.open64 path flags mode s).result.value info f := by
  unfold Posix.open64 at hfd ⊢
  rw [Posix.afterOpen_value] at hfd ⊢
  obtain ⟨ino, hreg⟩ := registered_afterOpen haccept flags hfd
  exact ⟨_, _, hreg, rfl, rfl, happ⟩

/-- **Offset coherence.**  On a descriptor opened without `O_APPEND`, along every run with
complete transfers, whatever is done to other descriptors: every successful seek is coherent
if and only if every relative seek the kernel accepts is settled. -/
theorem coherent_iff_settled {s : System} {fd : Int} {info : FileInfo} {f : OpenFile}
    (hopen : JustOpened s fd info f) (is : List (Call × Env))
    (hallowed : Along (track fd) (Allowed fd) ⟨s, 0, 0⟩ is) :
    Along (track fd) (Coherent fd) ⟨s, 0, 0⟩ is ↔
      Along (track fd) (Settled fd) ⟨s, 0, 0⟩ is := by
  have hstart : ∃ info f, InStep fd ⟨s, 0, 0⟩ info f :=
    ⟨info, f, hopen.registered, hopen.current, hopen.kernel, Nat.zero_le _⟩
  have hboth : Along (track fd) (fun t i => Allowed fd t i ∧ Coherent fd t i) ⟨s, 0, 0⟩ is ↔
      Along (track fd) (fun t i => Allowed fd t i ∧ Settled fd t i) ⟨s, 0, 0⟩ is := by
    apply along_iff (I := fun t => ∃ info f, InStep fd t info f) _ _ hstart
    · rintro t i ⟨_, _, ht⟩ ⟨hallow, hcoh⟩
      exact inStep_track ht hallow hcoh
    · rintro t i ⟨_, _, ht⟩
      exact and_congr_right fun _ => coherent_iff ht i
  rw [along_and, along_and] at hboth
  exact ⟨fun h => (hboth.mp ⟨hallowed, h⟩).2, fun h => (hboth.mpr ⟨hallowed, h⟩).2⟩

/-! ## A short session -/

/-- `/f` with three bytes, opened for reading and writing. -/
def opened : System := openedFile threeBytes oRdwr

theorem opened_justOpened : ∃ info f, JustOpened opened 0 info f :=
  justOpened_open64 (deployment threeBytes openToAll) ['/', 'f'] oRdwr 0
    (by decide +kernel) (by decide +kernel) (by decide +kernel)

/-- Reading one byte and asking for the current position: the answer is 0, the position is
1. -/
theorem read_then_tell_incoherent :
    Along (track 0) (Allowed 0) ⟨opened, 0, 0⟩
      [(.read 0 [9] 1, .calm), (.lseek64 0 0 .cur, .calm)] ∧
    ¬ Along (track 0) (Coherent 0) ⟨opened, 0, 0⟩
      [(.read 0 [9] 1, .calm), (.lseek64 0 0 .cur, .calm)] := by
  refine ⟨by decide +kernel, fun h => ?_⟩
  have htell := (h.2.1 0 .cur rfl (by decide +kernel)).1
  exact absurd htell (by decide +kernel)

/-- A seek after a read, and a relative seek after that seek, are as POSIX wants them. -/
theorem coherent_iff_settled_session :
    Along (track 0) (Coherent 0) ⟨opened, 0, 0⟩
      [(.read 0 [9] 1, .calm), (.lseek64 0 2 .set, .calm), (.lseek64 0 1 .cur, .calm)] ↔
    Along (track 0) (Settled 0) ⟨opened, 0, 0⟩
      [(.read 0 [9] 1, .calm), (.lseek64 0 2 .set, .calm), (.lseek64 0 1 .cur, .calm)] := by
  obtain ⟨info, f, h⟩ := opened_justOpened
  exact coherent_iff_settled h _ (by decide +kernel)

end DTIO.Properties.OffsetCoherence
