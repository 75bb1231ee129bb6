import DTIO.Adapter.System
import DTIO.Chimod.Effects

/-!
# What a Server Write Leaves Alone

`Server::Write` opens the file of its task, seeks and writes, and acts on no result.  A write may
change the bytes of its range, and it may fill the gap in front of it.

When the seek fails, the descriptor is still at position 0, and the data goes there.

## Main definitions

- `Frame`: every other byte of every file is as before
- `Harmless`: what a write after a failed seek must not meet

## Main results

- `writePosix_effect`: the files after a write
- `frame_iff`: exactly when a write keeps its frame
- `frame_broken`: an offset that is no `off64_t`
-/

namespace DTIO.Properties.WriteFrame

open DTIO.Posix DTIO.Chimod DTIO.ByteFile DTIO.MachineInt DTIO.Adapter

/-! ## Frames -/

/-- The bytes found under a directory entry. -/
def fileBytes (fs : FileSystem) (e : Entry) : List Byte := (fs.file e).getD []

/-- Outside of the range a byte is as before, or fills the gap between the old end and the
range. -/
def Framed (old new : List Byte) (off size : Nat) : Prop :=
  ∀ i, i < off ∨ off + size ≤ i →
    new[i]? = old[i]? ∨ old.length ≤ i ∧ i < off ∧ new[i]? = some 0

/-- What a write of `size` bytes at `off` to the file of the entry `e` leaves alone. -/
structure Frame (fs fs' : FileSystem) (e : Entry) (off size : Nat) : Prop where
  /-- no name is bound to another file -/
  bound : ∀ e' ino, fs.dir e' = some ino → fs'.dir e' = some ino
  others : ∀ ino, ino < fs.nextIno → fs.dir e ≠ some ino →
    (fs'.inodes ino).content = (fs.inodes ino).content
  own : Framed (fileBytes fs e) (fileBytes fs' e) off size
  /-- an offset that is no `off64_t` -/
  rejected : maxSigned64 < off → fileBytes fs' e = fileBytes fs e

/-! ## The files after a write -/

section

variable {w : World} (hneg : w.kernel.NonnegFds) (c : Nat) (task : WriteTask) (env : Env)

include hneg

/-- The bytes that a write moves go to where the seek left the descriptor, in the file of the
entry; a file that is not there is empty before. -/
theorem writePosix_effect {o : Int × Ino × FileSystem}
    (ho : Server.openingPosix c task env w = some o) :
    let fs := w.kernel.fs
    let fs' := (Server.writePosix c task env w).world.kernel.fs
    let e := entryFor w.kernel c task
    fileBytes fs' e = writeAt 0 (fileBytes fs e) (task.pos env)
        (movedBytes env.fault.transfer (task.pos env) task.payload) ∧
      (∀ e' ino, fs.dir e' = some ino → fs'.dir e' = some ino) ∧
      ∀ ino, ino < fs.nextIno → fs.dir e ≠ some ino →
        (fs'.inodes ino).content = (fs.inodes ino).content := by
  obtain ⟨fd, ino, fs₁⟩ := o
  obtain ⟨-, -, -, hentry⟩ := opening_some ho
  have heq := Server.writePosix_eq hneg c task env
  rw [ho] at heq
  have hfs : (Server.writePosix c task env w).world.kernel.fs = fs₁.setContent ino
      ((fs₁.inodes ino).content.write (task.pos env)
        (movedBytes env.fault.transfer (task.pos env) task.payload)) :=
    congrArg (fun w : World => w.kernel.fs) (Prod.mk.inj heq).2
  have hdir : fs₁.dir = Function.update w.kernel.fs.dir (entryFor w.kernel c task) (some ino) :=
    openEntry_dir hentry
  -- what is moved ends at the largest offset or before
  have hroom : movedBytes env.fault.transfer (task.pos env) task.payload = [] ∨ task.pos env +
      (movedBytes env.fault.transfer (task.pos env) task.payload).length ≤ maxSigned64 := by
    have hlen := length_movedBytes env.fault.transfer (task.pos env) task.payload
    have hle := env.fault.transfer.moved_le
      (min task.payload.length (maxSigned64 - task.pos env))
    rcases Nat.eq_zero_or_pos
      (movedBytes env.fault.transfer (task.pos env) task.payload).length with hzero | hpos
    · exact .inl (List.length_eq_zero_iff.mp hzero)
    · right
      omega
  have hold : (fs₁.inodes ino).content.1 =
      fileBytes w.kernel.fs (entryFor w.kernel c task) := by
    rcases openEntry_serverFlags hentry with ⟨hbound, rfl⟩ | ⟨hfree, rfl, perm, rfl⟩
    · simp [fileBytes, FileSystem.file, entryFor, hbound]
    · simp [fileBytes, FileSystem.file, entryFor, hfree, FileSystem.create]
  dsimp only
  rw [hfs]
  refine ⟨?_, fun e' i hi => ?_, fun i hi hne => ?_⟩
  · rw [← hold, ← Content.write_val hroom]
    simp [fileBytes, FileSystem.file, FileSystem.setContent, hdir]
  · have hkeep : fs₁.dir e' = some i := openEntry_dir_of_some hentry hi
    exact hkeep
  · rcases openEntry_serverFlags hentry with ⟨hbound, rfl⟩ | ⟨hfree, rfl, perm, rfl⟩
    · have hother : i ≠ ino := fun h => hne (h ▸ hbound)
      simp [FileSystem.setContent, hother]
    · have hother : i ≠ w.kernel.fs.nextIno := hi.ne
      simp [FileSystem.setContent, FileSystem.create, hother]

/-- Without a file nothing changes. -/
theorem writePosix_of_none (ho : Server.openingPosix c task env w = none) :
    (Server.writePosix c task env w).world.kernel.fs = w.kernel.fs := by
  have heq := Server.writePosix_eq hneg c task env
  rw [ho] at heq
  exact congrArg (fun w : World => w.kernel.fs) (Prod.mk.inj heq).2

end

/-! ## When the frame is kept -/

/-- The bytes that a write moves are no more than the task has. -/
theorem length_movedBytes_le (task : WriteTask) (t : Transfer) (pos : Nat) :
    (movedBytes t pos task.payload).length ≤ task.dataSize := by
  have hle := t.moved_le (min task.payload.length (maxSigned64 - pos))
  have hsize : task.payload.length ≤ task.dataSize := List.length_take_le _ _
  rw [length_movedBytes]
  omega

/-- A write within its range changes nothing else. -/
theorem framed_writeAt (old bytes : List Byte) {off size : Nat} (h : bytes.length ≤ size) :
    Framed old (writeAt 0 old off bytes) off size := by
  by_cases hnil : bytes = []
  · intro i _
    simp [hnil]
  · intro i hi
    rw [getElem?_writeAt 0 old off hnil]
    rcases hi with hlt | hge
    · rw [if_pos hlt]
      rcases lt_or_ge i old.length with hin | hout
      · exact .inl (if_pos hin)
      · exact .inr ⟨hout, hlt, if_neg (not_lt.mpr hout)⟩
    · rw [if_neg (by omega), if_neg (by omega)]
      exact .inl rfl

/-- After a seek that fails the descriptor is at the beginning. -/
theorem pos_of_failed {task : WriteTask} {env : Env} (hoff : task.dataOffset < 18446744073709551616)
    (h : ¬ (env.fault.lseekFails = false ∧ task.dataOffset ≤ maxSigned64)) : task.pos env = 0 := by
  rw [IoTask.pos, seekPos]
  split
  · rfl
  next hfault =>
    have hbig : ¬ task.dataOffset ≤ maxSigned64 := fun hle => h ⟨Bool.not_eq_true _ ▸ hfault, hle⟩
    -- such an offset is negative as an `off64_t`
    apply Int.toNat_of_nonpos
    by_contra hpos
    obtain ⟨n, hn⟩ := Int.eq_ofNat_of_zero_le (le_of_lt (not_le.mp hpos))
    obtain ⟨rfl, hle⟩ := (toSigned64_eq_natCast_iff hoff).mp hn
    exact hbig hle

/-- The file cannot be opened, or the seek succeeds, or the bytes that are then written at the
beginning of the file, as far as they lie before the offset, are those that are there already;
zeros behind the end do not count, unless the offset is no `off64_t`. -/
def Harmless (c : Nat) (task : WriteTask) (env : Env) (w : World) : Prop :=
  Server.openingPosix c task env w = none ∨
    env.fault.lseekFails = false ∧ task.dataOffset ≤ maxSigned64 ∨
    ∀ i < (movedBytes env.fault.transfer 0 task.payload).length, i < task.dataOffset →
      (movedBytes env.fault.transfer 0 task.payload)[i]? =
          (fileBytes w.kernel.fs (entryFor w.kernel c task))[i]? ∨
        task.dataOffset ≤ maxSigned64 ∧
          (fileBytes w.kernel.fs (entryFor w.kernel c task)).length ≤ i ∧
          (movedBytes env.fault.transfer 0 task.payload)[i]? = some 0

/-- A write at the beginning of a file, byte by byte. -/
theorem getElem?_writeAt_start (old : List Byte) {bytes : List Byte} (hnil : bytes ≠ []) (i : Nat) :
    (writeAt 0 old 0 bytes)[i]? = if i < bytes.length then bytes[i]? else old[i]? := by
  simpa using getElem?_writeAt 0 old 0 hnil i

/-- What a write at the beginning of a file does to a range further behind. -/
theorem framed_at_start_iff {old bytes : List Byte} {off size : Nat} (h : bytes.length ≤ size) :
    Framed old (writeAt 0 old 0 bytes) off size ↔
      ∀ i < bytes.length, i < off →
        bytes[i]? = old[i]? ∨ old.length ≤ i ∧ bytes[i]? = some 0 := by
  by_cases hnil : bytes = []
  · simp [hnil, Framed]
  have hget := getElem?_writeAt_start old hnil
  constructor
  · intro hframed i hi hoff
    -- in front of the range: as it was, or one of the zeros of a hole
    rcases hframed i (.inl hoff) with hsame | ⟨hend, -, hzero⟩
    · rw [hget, if_pos hi] at hsame
      exact .inl hsame
    · rw [hget, if_pos hi] at hzero
      exact .inr ⟨hend, hzero⟩
  · intro hall i hi
    rw [hget]
    -- a position that is written, or one behind all that is written
    rcases lt_or_ge i bytes.length with hin | hout
    · have hoff : i < off := by omega
      rw [if_pos hin]
      rcases hall i hin hoff with hsame | ⟨hend, hzero⟩
      · exact .inl hsame
      · exact .inr ⟨hend, hoff, hzero⟩
    · exact .inl (if_neg (not_lt.mpr hout))

/-- A write at the beginning of a file leaves it as it is if it held these bytes. -/
theorem writeAt_start_eq_iff (old bytes : List Byte) :
    writeAt 0 old 0 bytes = old ↔ ∀ i < bytes.length, bytes[i]? = old[i]? := by
  by_cases hnil : bytes = []
  · simp [hnil]
  have hget := getElem?_writeAt_start old hnil
  constructor
  · intro heq i hi
    have hi' := hget i
    rwa [heq, if_pos hi, eq_comm] at hi'
  · intro hall
    apply List.ext_getElem?
    intro i
    rw [hget]
    split
    next hi => exact hall i hi
    · rfl

/-- A write keeps its frame if and only if it is harmless. -/
theorem frame_iff {w : World} (hneg : w.kernel.NonnegFds) (c : Nat) (task : WriteTask)
    (env : Env) (hiface : task.iface = .kPosix)
    (hoff : task.dataOffset < 18446744073709551616) :
    Frame w.kernel.fs (Server.write c task env w).world.kernel.fs (entryFor w.kernel c task)
        task.dataOffset task.dataSize ↔
      Harmless c task env w := by
  have hwrite : Server.write c task env w = Server.writePosix c task env w := by
    simp [Server.write, hiface]
  rw [hwrite]
  cases ho : Server.openingPosix c task env w with
  | none =>
    have hfs := writePosix_of_none hneg c task env ho
    refine iff_of_true ?_ (.inl ho)
    rw [hfs]
    exact ⟨fun _ _ h => h, fun _ _ _ => rfl, fun i _ => .inl rfl, fun _ => rfl⟩
  | some o =>
    obtain ⟨hbytes, hbound, hothers⟩ := writePosix_effect hneg c task env ho
    have hlen := length_movedBytes_le task env.fault.transfer (task.pos env)
    by_cases hseek : env.fault.lseekFails = false ∧ task.dataOffset ≤ maxSigned64
    · -- the bytes go to the range
      have hpos : task.pos env = task.dataOffset := by
        simp [IoTask.pos, seekPos, hseek.1, toSigned64_of_le hseek.2]
      refine iff_of_true ?_ (.inr (.inl hseek))
      refine ⟨hbound, hothers, ?_, fun hbig => absurd hseek.2 (not_le.mpr hbig)⟩
      rw [hbytes, hpos]
      exact framed_writeAt _ _ (hpos ▸ hlen)
    · -- they go to the beginning of the file
      rw [pos_of_failed hoff hseek] at hbytes hlen
      constructor
      · intro hframe
        refine .inr (.inr fun i hi hlt => ?_)
        rcases le_or_gt task.dataOffset maxSigned64 with hle | hbig
        · have hown := hframe.own
          rw [hbytes] at hown
          rcases (framed_at_start_iff hlen).mp hown i hi hlt with hsame | hgap
          · exact .inl hsame
          · exact .inr ⟨hle, hgap⟩
        · have hsame := hframe.rejected hbig
          rw [hbytes] at hsame
          exact .inl ((writeAt_start_eq_iff _ _).mp hsame i hi)
      · intro hharmless
        have hall := (hharmless.resolve_left (by simp [ho])).resolve_left hseek
        refine ⟨hbound, hothers, ?_, fun hbig => ?_⟩
        · rw [hbytes]
          refine (framed_at_start_iff hlen).mpr fun i hi hlt => ?_
          exact (hall i hi hlt).imp_right And.right
        · rw [hbytes]
          refine (writeAt_start_eq_iff _ _).mpr fun i hi => ?_
          have hroom := length_movedBytes env.fault.transfer 0 task.payload
          have hmoved := env.fault.transfer.moved_le (min task.payload.length (maxSigned64 - 0))
          rcases hall i hi (by omega) with hsame | ⟨hle, -⟩
          · exact hsame
          · exact absurd hle (not_le.mpr hbig)

/-- A file of three bytes that one container may write. -/
def oneFile : World := (deployment threeBytes openToAll).world

theorem oneFile_nonneg : oneFile.kernel.NonnegFds := ⟨fun _ _ _ => rfl⟩

/-- One byte for the file `/f`. -/
def oneByte (offset : Nat) : WriteTask := ⟨[9], offset, 1, ['/', 'f'], .kPosix⟩

theorem frame_iff_inside :
    oneFile.kernel.NonnegFds ∧ (oneByte 1).iface = .kPosix ∧
      (oneByte 1).dataOffset < 18446744073709551616 ∧
      (Frame oneFile.kernel.fs (Server.write 0 (oneByte 1) .calm oneFile).world.kernel.fs
          (entryFor oneFile.kernel 0 (oneByte 1)) 1 1 ↔
        Harmless 0 (oneByte 1) .calm oneFile) :=
  ⟨oneFile_nonneg, rfl, by decide, frame_iff oneFile_nonneg 0 (oneByte 1) .calm rfl (by decide)⟩

/-- A byte for an offset that is no `off64_t` replaces the first byte of the file. -/
theorem frame_broken :
    oneFile.kernel.NonnegFds ∧ (oneByte 9223372036854775808).iface = .kPosix ∧
      fileBytes oneFile.kernel.fs (entryFor oneFile.kernel 0 (oneByte 9223372036854775808)) =
        [1, 2, 3] ∧
      fileBytes (Server.write 0 (oneByte 9223372036854775808) .calm oneFile).world.kernel.fs
        (entryFor oneFile.kernel 0 (oneByte 9223372036854775808)) = [9, 2, 3] ∧
      ¬ Frame oneFile.kernel.fs
        (Server.write 0 (oneByte 9223372036854775808) .calm oneFile).world.kernel.fs
        (entryFor oneFile.kernel 0 (oneByte 9223372036854775808)) 9223372036854775808 1 := by
  have hbefore : fileBytes oneFile.kernel.fs
      (entryFor oneFile.kernel 0 (oneByte 9223372036854775808)) = [1, 2, 3] := by decide +kernel
  have hafter : fileBytes
      (Server.write 0 (oneByte 9223372036854775808) .calm oneFile).world.kernel.fs
      (entryFor oneFile.kernel 0 (oneByte 9223372036854775808)) = [9, 2, 3] := by decide +kernel
  refine ⟨oneFile_nonneg, rfl, hbefore, hafter, fun h => ?_⟩
  have hsame := h.rejected (by decide)
  rw [hbefore, hafter] at hsame
  exact absurd hsame (by decide)

end DTIO.Properties.WriteFrame
