import DTIO.Adapter.Registered

/-!
# The Read Law

POSIX lets `read(fd, buf, c)` at offset `o` of a file of `n` bytes return
`min(c, max(0, n - o))`, advance the offset by that number and leave the rest of the buffer
alone.  The intercepted `read` does so exactly when all `c` bytes are there: the number the
server obtained is printed and dropped, and the adapter reports, copies and advances by `c`.
So it never returns 0 for a positive `c`, and a loop that waits for 0 does not end.

## Main results

- `readLaw_iff`: the law holds if and only if `c ≤ n - o`
- `readLoop_eq_none`: the loop never ends, whatever the server does
- `read_law`: both
-/

namespace DTIO.Properties.ReadLaw

open DTIO.Posix DTIO.Chimod DTIO.Client DTIO.ByteFile DTIO.MachineInt DTIO.Adapter

/-- The server's system calls succeed: it opens the file, seeks, and obtains what the file
holds at the offset. -/
structure ServerSucceeds (s : System) (info : FileInfo) (f : OpenFile) (o count : Nat)
    (env : Env) : Prop where
  fd : 0 ≤ (Posix.sentRead info count env s).calls.fd
  pos : 0 ≤ (Posix.sentRead info count env s).calls.pos
  count : (Posix.sentRead info count env s).calls.count = (readAt (s.content f) o count).length

/-- What POSIX says of a read that obtains `k` bytes at offset `o`. -/
structure Lawful (s : System) (fd : Int) (buf : List Byte) (count : Nat) (env : Env)
    (o k : Nat) : Prop where
  value : (Posix.read fd buf count env s).result.value = k
  offset : (Posix.read fd buf count env s).system.posixOffset fd = some ((o + k : Nat) : Int)
  rest : (Posix.read fd buf count env s).result.buf.drop k = buf.drop k

/-- `while ((n = read(fd, buf, size)) != 0) collect(buf, n)`, given up after `fuel` rounds. -/
def readLoop (fd : Int) (buf : List Byte) (size : Nat) (envs : Nat → Env) :
    Nat → System → Option (List Byte)
  | 0, _ => none
  | fuel + 1, s =>
    let r := Posix.read fd buf size (envs fuel) s
    if r.result.value = 0 then some []
    else (readLoop fd buf size envs fuel r.system).map
      (r.result.buf.take r.result.value.toNat ++ ·)

section

variable {s : System} {fd : Int} {info : FileInfo} {f : OpenFile}

/-- The law holds exactly of the reads the file can satisfy in full. -/
theorem readLaw_iff (h : Registered s fd info f) {o count : Nat} (hoff : info.currentOffset = o)
    (ho : o ≤ maxSigned64) (hcount : count < 18446744073709551616) (buf : List Byte) (env : Env)
    (hserver : ServerSucceeds s info f o count env) :
    Lawful s fd buf count env o (min count ((s.content f).length - o)) ↔
      count ≤ (s.content f).length - o := by
  have hvalue : (Posix.read fd buf count env s).result.value = toSigned64 count := by
    rw [Posix.read_of_registered h.entry]
  constructor
  · -- the returned value is the requested count, so the law makes them equal
    intro hlaw
    have heq := hlaw.value
    rw [hvalue, toSigned64_eq_natCast_iff hcount] at heq
    omega
  · intro hle
    have hmax := s.content_le f
    have hk : min count ((s.content f).length - o) = count := by omega
    have hlen : (readAt (s.content f) o count).length = count := by
      rw [length_readAt]
      omega
    have hfit : count = 0 ∨ o + count ≤ maxSigned64 := by omega
    obtain ⟨-, hdata⟩ := h.sentRead_ok hoff ho hserver.fd hserver.pos hserver.count
    rw [hlen, List.take_of_length_le hlen.le, copyTo_of_length_le (by simp [hlen])] at hdata
    rw [hk]
    refine ⟨?_, ?_, ?_⟩
    · rw [hvalue, toSigned64_of_le (by omega)]
    · rw [(h.read buf count env).posixOffset]
      exact congrArg some (advance_eq hoff ho hfit).1
    · rw [Posix.read_of_registered h.entry]
      have hsrc : (Posix.sentRead info count env s).task.data.take count =
          readAt (s.content f) o count := by
        rw [hdata, List.take_of_length_le hlen.le]
      show (copyTo buf ((Posix.sentRead info count env s).task.data.take count)).drop count = _
      rw [hsrc]
      have hdrop := drop_copyTo buf (readAt (s.content f) o count)
      rwa [hlen] at hdrop

/-- A positive count is never reported as 0. -/
theorem read_value_ne_zero (h : Registered s fd info f) {size : Nat} (hpos : 0 < size)
    (hsize : size < 18446744073709551616) (buf : List Byte) (env : Env) :
    (Posix.read fd buf size env s).result.value ≠ 0 := by
  rw [Posix.read_of_registered h.entry]
  dsimp only
  intro hzero
  obtain ⟨heq, -⟩ := (toSigned64_eq_natCast_iff (k := 0) hsize).mp (by rw [hzero]; rfl)
  omega

/-- The reading loop does not end. -/
theorem readLoop_eq_none {size : Nat} (hpos : 0 < size) (hsize : size < 18446744073709551616)
    (buf : List Byte) (envs : Nat → Env) (fuel : Nat) :
    ∀ {s : System} {info : FileInfo}, Registered s fd info f →
      readLoop fd buf size envs fuel s = none := by
  induction fuel with
  | zero => exact fun _ => rfl
  | succ fuel ih =>
    intro s info h
    simp only [readLoop, read_value_ne_zero h hpos hsize buf (envs fuel), if_false,
      ih (h.read buf size (envs fuel)), Option.map_none]

/-- **The read law at the end of the file.**  A read on a registered descriptor, with system
calls of the server that succeed, obeys the law if and only if the file holds all the
requested bytes; and a loop that reads with a positive size until `read` returns 0 does not
end, for any file and whatever happens in the server. -/
theorem read_law (h : Registered s fd info f) {o count : Nat} (hoff : info.currentOffset = o)
    (ho : o ≤ maxSigned64) (hcount : count < 18446744073709551616) (buf : List Byte) (env : Env)
    (hserver : ServerSucceeds s info f o count env) :
    (Lawful s fd buf count env o (min count ((s.content f).length - o)) ↔
      count ≤ (s.content f).length - o) ∧
    (0 < count → ∀ envs fuel, readLoop fd buf count envs fuel s = none) :=
  ⟨readLaw_iff h hoff ho hcount buf env hserver,
    fun hpos envs fuel => readLoop_eq_none hpos hcount buf envs fuel h⟩

end

/-! ## Reading past the end of a short file -/

/-- `/f` with three bytes, opened for reading. -/
def short : System := openedFile threeBytes oRdonly

theorem short_registered :
    Registered short 0 ⟨['/', 'f'], oRdonly, 0⟩ ⟨0, oRdonly, 0, some ['/', 'f']⟩ :=
  ⟨by decide +kernel, by decide +kernel, by decide +kernel, by decide +kernel⟩

/-- Five bytes are asked for, three are there, five are reported. -/
theorem read_past_end :
    (Posix.sentRead ⟨['/', 'f'], oRdonly, 0⟩ 5 .calm short).calls = ⟨0, 0, 3⟩ ∧
    (Posix.read 0 [9, 9, 9, 9, 9] 5 .calm short).result = ⟨5, [1, 2, 3, 0, 0]⟩ ∧
    ¬ Lawful short 0 [9, 9, 9, 9, 9] 5 .calm 0 3 := by
  refine ⟨by decide +kernel, by decide +kernel, fun hlaw => ?_⟩
  exact absurd hlaw.value (by decide +kernel)

theorem read_law_short :
    (Lawful short 0 [9, 9] 2 .calm 0
        (min 2 ((short.content ⟨0, oRdonly, 0, some ['/', 'f']⟩).length - 0)) ↔
      2 ≤ (short.content ⟨0, oRdonly, 0, some ['/', 'f']⟩).length - 0) ∧
    (0 < 2 → ∀ envs fuel, readLoop 0 [9, 9] 2 envs fuel short = none) :=
  read_law short_registered rfl (Nat.zero_le _) (by decide) [9, 9] .calm
    ⟨by decide +kernel, by decide +kernel, by decide +kernel⟩

end DTIO.Properties.ReadLaw
