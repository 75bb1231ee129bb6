import DTIO.Adapter.Registered

/-!
# Failures and Short Transfers on the Write Path

A `write` should return what the server's `write` returned, and move the offset by as much.
`Server::Write` prints the number and drops it, `WriteTask` has no field for it, and the
adapter reports and adds the requested count.  The right result comes out exactly when
everything was transferred and the new offset is an `off_t`.

## Main definitions

- `WriteLaw`: what `write` has to return and store
- `TakesAll`: the server's `open64` succeeds and its `write` transfers every byte

## Main results

- `writeLaw_iff_count`: in terms of the number the server's `write` returned
- `writeLaw_iff`: in terms of what the system calls meet, for each of their outcomes
-/

namespace DTIO.Properties.WriteOutcome

open DTIO.Posix DTIO.Chimod DTIO.Client DTIO.ByteFile DTIO.MachineInt DTIO.Adapter

/-- What `write` has to do when the server's `write` returned `count`: report an error and
leave the offset `o`, or report the bytes transferred and add them. -/
def WriteLaw (s : System) (fd : Int) (data : List Byte) (env : Env) (o count : Int) : Prop :=
  let r := Posix.write fd data env s
  if count < 0 then r.result.value = -1 ∧ r.system.posixOffset fd = some o
  else r.result.value = count ∧ r.system.posixOffset fd = some (o + count)

instance (s : System) (fd : Int) (data : List Byte) (env : Env) (o count : Int) :
    Decidable (WriteLaw s fd data env o count) :=
  inferInstanceAs (Decidable (ite _ _ _))

/-- The server takes all the data: its `open64` succeeds, and its `write` has room for every
byte where `lseek64` left the descriptor and transfers every byte. -/
def TakesAll (s : System) (fd : Int) (o : Nat) (data : List Byte) (env : Env) : Prop :=
  (env.fault.openFails = false ∧ s.CanServe fd) ∧
    env.fault.transfer.amount (min data.length
      (maxSigned64 - if env.fault.lseekFails then 0 else o)) = some data.length

section

variable {s : System} {fd : Int} {info : FileInfo} {f : OpenFile}

/-- An unsigned count is never reported as -1 with the offset kept: a wrapped -1 moves it. -/
theorem advance_ne_of_value_neg {o n : Nat} (hoff : info.currentOffset = o)
    (hvalue : toSigned64 n = -1) : Posix.advance info n ≠ o := by
  unfold Posix.advance
  rw [hoff]
  unfold toSigned64 at hvalue ⊢
  have hmod : (Int.bmod n 18446744073709551616) % 18446744073709551616 =
      (n : Int) % 18446744073709551616 := Int.bmod_emod
  rw [hvalue] at hmod
  have hmod' : (Int.bmod (o + n) 18446744073709551616) % 18446744073709551616 =
      ((o : Int) + n) % 18446744073709551616 := Int.bmod_emod
  intro heq
  rw [heq] at hmod'
  omega

/-- A write on a registered descriptor obeys the law if and only if the server's `write`
returned the requested count and the sum of offset and count is an `off_t`. -/
theorem writeLaw_iff_count (h : Registered s fd info f) {o : Nat} (hoff : info.currentOffset = o)
    (ho : o ≤ maxSigned64) (data : List Byte) (hdata : data.length < 18446744073709551616)
    (env : Env) :
    WriteLaw s fd data env o (Posix.sentWrite info data env s).calls.count ↔
      (Posix.sentWrite info data env s).calls.count = data.length ∧
        o + data.length ≤ maxSigned64 := by
  have hvalue : (Posix.write fd data env s).result.value = toSigned64 data.length := by
    rw [Posix.write_of_registered h.entry]
  have hoffset : (Posix.write fd data env s).system.posixOffset fd =
      some (Posix.advance info data.length) := (h.write data env).posixOffset
  unfold WriteLaw
  dsimp only
  rw [hvalue, hoffset]
  generalize (Posix.sentWrite info data env s).calls.count = count
  by_cases hneg : count < 0
  · -- an error of the server is reported as success
    rw [if_pos hneg]
    constructor
    · rintro ⟨herr, hkeep⟩
      exact absurd (Option.some.inj hkeep) (advance_ne_of_value_neg hoff herr)
    · rintro ⟨hall, -⟩
      omega
  · rw [if_neg hneg]
    obtain ⟨k, rfl⟩ := Int.eq_ofNat_of_zero_le (not_lt.mp hneg)
    have hadvance : Posix.advance info data.length =
        toSigned64 ((o + data.length : Nat) : Int) := by
      unfold Posix.advance
      rw [hoff, Nat.cast_add]
    rw [hadvance]
    -- otherwise the return value and the offset are right exactly when neither wraps
    constructor
    · rintro ⟨hret, hsum⟩
      obtain ⟨rfl, hle⟩ := (toSigned64_eq_natCast_iff hdata).mp hret
      have hlt : o + data.length < 18446744073709551616 := by
        unfold maxSigned64 at ho hle
        omega
      have hsum' : toSigned64 ((o + data.length : Nat) : Int) =
          ((o + data.length : Nat) : Int) := by
        rw [Option.some.inj hsum, Nat.cast_add]
      exact ⟨rfl, ((toSigned64_eq_natCast_iff hlt).mp hsum').2⟩
    · rintro ⟨hall, hle⟩
      obtain rfl : k = data.length := by omega
      refine ⟨toSigned64_of_le (by omega), congrArg some ?_⟩
      rw [toSigned64_of_le hle, Nat.cast_add]

/-- When the server's `write` returns the requested count. -/
theorem sentWrite_count_iff (h : Registered s fd info f) (hneg : s.kernel.NonnegFds) {o : Nat}
    (hoff : info.currentOffset = o) (ho : o ≤ maxSigned64) (data : List Byte) (env : Env) :
    (Posix.sentWrite info data env s).calls.count = data.length ↔ TakesAll s fd o data env := by
  unfold TakesAll
  rw [System.canServe_iff h.file, Posix.sentWrite_eq hoff ho]
  set task : WriteTask := ⟨data, o, data.length, info.absolutePath, .kPosix⟩
  set w := (Client.schedule s.world).2
  have hbound : w.kernel.fs.dir (w.kernel.host.walk task.filename) = some f.ino := h.bound
  have hneg' : w.kernel.NonnegFds := hneg
  have hoff' : toSigned64 task.dataOffset = o := toSigned64_of_le ho
  have htake : task.data.take task.dataSize = data := List.take_length
  have hcount :=
    Server.writePosix_count_iff (Client.server s.world) env h.path hbound hneg' hoff' ho
  rwa [htake] at hcount

/-- **Failure and short transfers.**  For every count, data and outcome of the server's
system calls, a write on a registered descriptor returns and stores what it should if and only
if the server takes all the data and the sum of offset and count is an `off_t`. -/
theorem writeLaw_iff (h : Registered s fd info f) (hneg : s.kernel.NonnegFds) {o : Nat}
    (hoff : info.currentOffset = o) (ho : o ≤ maxSigned64) (data : List Byte)
    (hdata : data.length < 18446744073709551616) (env : Env) :
    WriteLaw s fd data env o (Posix.sentWrite info data env s).calls.count ↔
      TakesAll s fd o data env ∧ o + data.length ≤ maxSigned64 := by
  rw [writeLaw_iff_count h hoff ho data hdata, sentWrite_count_iff h hneg hoff ho]

end

/-! ## A write that fails in the server -/

/-- `/f` with three bytes, opened for writing. -/
def target : System := openedFile threeBytes oWronly

theorem target_registered :
    Registered target 0 ⟨['/', 'f'], oWronly, 0⟩ ⟨0, oWronly, 0, some ['/', 'f']⟩ :=
  ⟨by decide +kernel, by decide +kernel, by decide +kernel, by decide +kernel⟩

/-- The server's `write` fails, the caller is told that two bytes were written. -/
theorem failed_write_reported :
    (Posix.sentWrite ⟨['/', 'f'], oWronly, 0⟩ [7, 8]
      { Env.calm with fault := ⟨false, false, .fail⟩ } target).calls.count = -1 ∧
    (Posix.write 0 [7, 8] { Env.calm with fault := ⟨false, false, .fail⟩ } target).result.value
      = 2 ∧
    ¬ WriteLaw target 0 [7, 8] { Env.calm with fault := ⟨false, false, .fail⟩ } 0 (-1) :=
  ⟨by decide +kernel, by decide +kernel, by decide +kernel⟩

theorem target_nonneg : target.kernel.NonnegFds := by
  have hstart : (deployment threeBytes openToAll).kernel.NonnegFds := ⟨fun _ _ _ => rfl⟩
  exact Posix.perform_nonneg hstart (.open64 ['/', 'f'] oWronly 0) .calm

theorem writeLaw_iff_target :
    WriteLaw target 0 [7, 8] .calm (0 : Nat)
        (Posix.sentWrite ⟨['/', 'f'], oWronly, 0⟩ [7, 8] .calm target).calls.count ↔
      TakesAll target 0 0 [7, 8] .calm ∧ 0 + 2 ≤ maxSigned64 :=
  writeLaw_iff target_registered target_nonneg rfl (Nat.zero_le _) [7, 8] (by decide) .calm

end DTIO.Properties.WriteOutcome
