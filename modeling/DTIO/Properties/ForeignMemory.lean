import DTIO.Adapter.Registered

/-!
# Foreign Memory

`AllocateBuffer` hands out shared memory with whatever the last owner left in it.  The server
fills a prefix of it and the adapter copies out all of it, so the user's buffer is free of what
was there before exactly when the prefix is the whole buffer.

## Main definitions

- `SameOutcome`: two runs of one read that may differ in the previous content only
- `ServerFills`: the file holds the requested bytes and the system calls deliver them

## Main results

- `sentRead_data`: what the adapter copies out
- `no_foreign_memory_iff`: the two-run statement
- `foreign_memory_leaked`: two runs of a read past the end of a file
-/

namespace DTIO.Properties.ForeignMemory

open DTIO.Posix DTIO.Chimod DTIO.Client DTIO.ByteFile DTIO.MachineInt DTIO.Adapter
open DTIO.Adapter.Posix

/-! ## Definitions -/

/-- Two runs of a read of `count` bytes on `fd` agree on the registered descriptor, on the
filesystem and on what the server's system calls return.  Previous contents of shared memory,
and everything else, may differ. -/
structure SameOutcome (fd : Int) (info : FileInfo) (count : Nat) (s s' : System)
    (env env' : Env) : Prop where
  entry : s'.clientMeta.posixFiles fd = s.clientMeta.posixFiles fd
  walk : s'.kernel.host.walk = s.kernel.host.walk
  fs : s'.kernel.fs = s.kernel.fs
  nonneg : s'.kernel.NonnegFds
  calls : (sentRead info count env' s').calls = (sentRead info count env s).calls

/-- The server can open the recorded path, the file holds `count` bytes where the seek leaves
the descriptor, and the transfer is not cut short. -/
def ServerFills (s : System) (info : FileInfo) (count : Nat) (env : Env) : Prop :=
  count = 0 ∨
  (serverOpening s info.absolutePath env).isSome ∧
    (∃ content ∈ s.kernel.fs.file (s.kernel.host.walk info.absolutePath),
      seekPos env.fault (toUnsigned64 info.currentOffset) + count ≤ content.length) ∧
    env.fault.transfer.moved count = count

/-- The bytes that the server obtains for a read. -/
def serverBytes (s : System) (info : FileInfo) (count : Nat) (env : Env) : List Byte :=
  match serverOpening s info.absolutePath env with
  | none => []
  | some o =>
    obtainedBytes env.fault.transfer o.2.2 o.2.1
      (seekPos env.fault (toUnsigned64 info.currentOffset)) count

/-! ## What is copied out -/

theorem length_serverBytes_le (s : System) (info : FileInfo) (count : Nat) (env : Env) :
    (serverBytes s info count env).length ≤ count := by
  unfold serverBytes
  cases serverOpening s info.absolutePath env with
  | none => simp
  | some o => simp [obtainedBytes]

section Sent

variable {s : System} {info : FileInfo} (hneg : s.kernel.NonnegFds)
  (hpath : info.absolutePath.head? = some '/') (count : Nat) (env : Env)

include hpath

/-- What the server of the task opens. -/
theorem openingPosix_sent : Server.openingPosix (Client.server s.world)
      ⟨allocateBuffer env.stale count, toUnsigned64 info.currentOffset, count, info.absolutePath,
        .kPosix⟩ env (Client.schedule s.world).2 =
    serverOpening s info.absolutePath env := by
  unfold Server.openingPosix
  rw [stripScheme_of_head hpath]
  rfl

include hneg

/-- The server's part of the buffer, then what was there before. -/
theorem sentRead_data : (sentRead info count env s).task.data =
    copyTo (allocateBuffer env.stale count) (serverBytes s info count env) := by
  have heq := Server.readPosix_eq (w := (Client.schedule s.world).2) hneg
    (Client.server s.world) ⟨allocateBuffer env.stale count, toUnsigned64 info.currentOffset,
      count, info.absolutePath, .kPosix⟩ env
  rw [openingPosix_sent hpath] at heq
  unfold serverBytes
  cases ho : serverOpening s info.absolutePath env with
  | none =>
    rw [ho] at heq
    exact (congrArg IoTask.data (Prod.mk.inj (Prod.mk.inj heq).2).1).trans (copyTo_nil _).symm
  | some o =>
    rw [ho] at heq
    exact congrArg IoTask.data (Prod.mk.inj (Prod.mk.inj heq).2).1

/-- What the system calls return. -/
theorem sentRead_calls : (sentRead info count env s).calls =
    match serverOpening s info.absolutePath env with
    | none => ⟨-1, -1, -1⟩
    | some o =>
      ⟨o.1, if env.fault.lseekFails ||
            decide (toSigned64 (toUnsigned64 info.currentOffset) < 0) then -1
          else toSigned64 (toUnsigned64 info.currentOffset),
        match env.fault.transfer.amount
          (readAt (o.2.2.inodes o.2.1).content.1
            (seekPos env.fault (toUnsigned64 info.currentOffset)) count).length with
        | none => -1
        | some n => n⟩ := by
  have heq := Server.readPosix_calls (w := (Client.schedule s.world).2) hneg
    (Client.server s.world) ⟨allocateBuffer env.stale count, toUnsigned64 info.currentOffset,
      count, info.absolutePath, .kPosix⟩ env
  rw [openingPosix_sent hpath] at heq
  exact heq

end Sent

/-! ## The bytes are a matter of the outcome -/

/-- What was opened, seen through the returned position and count. -/
theorem serverBytes_eq {s : System} {info : FileInfo} (hneg : s.kernel.NonnegFds)
    (hpath : info.absolutePath.head? = some '/') (count : Nat) (env : Env) :
    serverBytes s info count env =
      let calls := (sentRead info count env s).calls
      if calls.fd < 0 then []
      else (readAt ((s.kernel.fs.file (s.kernel.host.walk info.absolutePath)).getD [])
        calls.pos.toNat count).take calls.count.toNat := by
  rw [sentRead_calls hneg hpath]
  unfold serverBytes
  cases ho : serverOpening s info.absolutePath env with
  -- the server did not open, so its reply holds nothing of the file
  | none => rfl
  | some o =>
    have hfd : ¬ o.1 < 0 := not_lt.mpr (opening_fd ho).1
    have hcontent := opening_content ho hpath (by decide)
    -- the position it reads at: where the seek put it, or the start when the seek fails
    have hpos : (if env.fault.lseekFails ||
          decide (toSigned64 (toUnsigned64 info.currentOffset) < 0) then (-1 : Int)
        else toSigned64 (toUnsigned64 info.currentOffset)).toNat =
        seekPos env.fault (toUnsigned64 info.currentOffset) := by
      unfold seekPos
      cases env.fault.lseekFails with
      | true => rfl
      | false =>
        by_cases hlt : toSigned64 (toUnsigned64 info.currentOffset) < 0
        · simp [hlt, Int.toNat_of_nonpos hlt.le]
        · simp [hlt]
    dsimp only
    rw [if_neg hfd, hpos, ← hcontent]
    -- the count decides how much of that was moved
    unfold obtainedBytes Transfer.moved
    cases env.fault.transfer.amount (readAt (o.2.2.inodes o.2.1).content.1
      (seekPos env.fault (toUnsigned64 info.currentOffset)) count).length <;> rfl

/-- Two runs with the same outcome obtain the same bytes. -/
theorem SameOutcome.serverBytes {fd : Int} {info : FileInfo} {count : Nat} {s s' : System}
    {env env' : Env} (h : SameOutcome fd info count s s' env env') (hneg : s.kernel.NonnegFds)
    (hpath : info.absolutePath.head? = some '/') :
    serverBytes s' info count env' = serverBytes s info count env := by
  rw [serverBytes_eq hneg hpath, serverBytes_eq h.nonneg hpath, h.calls, h.walk, h.fs]

/-- The server fills the buffer when everything about the call allows it. -/
theorem length_serverBytes_iff {s : System} {info : FileInfo}
    (hpath : info.absolutePath.head? = some '/') (count : Nat) (env : Env) :
    (serverBytes s info count env).length = count ↔ ServerFills s info count env := by
  unfold serverBytes ServerFills
  rcases Nat.eq_zero_or_pos count with rfl | hpos
  · simp
    cases serverOpening s info.absolutePath env <;> simp [obtainedBytes]
  · have hne : count ≠ 0 := hpos.ne'
    cases ho : serverOpening s info.absolutePath env with
    | none => simp [hne, Ne.symm hne]
    | some o =>
      -- what is there to be read decides, and a new file has nothing
      have hcontent := opening_content ho hpath (by decide)
      set pos := seekPos env.fault (toUnsigned64 info.currentOffset)
      have hlen : (readAt (o.2.2.inodes o.2.1).content.1 pos count).length = count ↔
          ∃ content ∈ s.kernel.fs.file (s.kernel.host.walk info.absolutePath),
            pos + count ≤ content.length := by
        rw [hcontent, length_readAt]
        cases s.kernel.fs.file (s.kernel.host.walk info.absolutePath) with
        | none => simp [Ne.symm hne]
        | some content =>
          simp only [Option.getD_some, Option.mem_def, Option.some.injEq, exists_eq_left']
          omega
      simp only [hne, false_or, Option.isSome_some, true_and]
      rw [length_obtainedBytes, ← hlen]
      have hle := env.fault.transfer.moved_le
        (readAt (o.2.2.inodes o.2.1).content.1 pos count).length
      have hmax : (readAt (o.2.2.inodes o.2.1).content.1 pos count).length ≤ count := by simp
      constructor
      · intro hmoved
        have hfull : (readAt (o.2.2.inodes o.2.1).content.1 pos count).length = count := by omega
        exact ⟨hfull, by rwa [hfull] at hmoved⟩
      · rintro ⟨hfull, hmoved⟩
        rwa [hfull]

/-! ## Two runs -/

/-- The environment with other previous contents. -/
def otherMemory (env : Env) : Env := { env with stale := fun i => env.stale i + 1 }

/-- Another previous content shows in every buffer that is not filled. -/
theorem otherMemory_shows (env : Env) {count : Nat} {bytes : List Byte}
    (hlen : bytes.length ≤ count)
    (h : copyTo (allocateBuffer (otherMemory env).stale count) bytes =
      copyTo (allocateBuffer env.stale count) bytes) : bytes.length = count := by
  by_contra hne
  have hlt : bytes.length < count := by omega
  -- the first byte that the server did not fill
  have hget := congrArg (fun l => l[bytes.length]?) h
  simp [copyTo, allocateBuffer, otherMemory, hlt] at hget

/-- **No foreign memory.**  All runs of a read with the same outcome leave the same buffer, if
and only if the server fills the buffer. -/
theorem no_foreign_memory_iff {s : System} {fd : Int} {info : FileInfo}
    (hinfo : s.clientMeta.posixFiles fd = some info)
    (hpath : info.absolutePath.head? = some '/') (hneg : s.kernel.NonnegFds)
    (buf : List Byte) (count : Nat) (env : Env) :
    (∀ s' env', SameOutcome fd info count s s' env env' →
        (Posix.read fd buf count env' s').result.buf =
          (Posix.read fd buf count env s).result.buf) ↔
      ServerFills s info count env := by
  have hmax := length_serverBytes_le s info count env
  -- the server's part and the old part make up the whole buffer
  have hcopied : ∀ stale : Nat → Byte,
      (copyTo (allocateBuffer stale count) (serverBytes s info count env)).take count =
        copyTo (allocateBuffer stale count) (serverBytes s info count env) := by
    intro stale
    apply List.take_of_length_le
    rw [length_copyTo_of_le (by simpa using hmax), length_allocateBuffer]
  have hread : ∀ {s' env'}, SameOutcome fd info count s s' env env' →
      (Posix.read fd buf count env' s').result.buf =
        copyTo buf (copyTo (allocateBuffer env'.stale count)
          (serverBytes s info count env)) := by
    intro s' env' h
    rw [read_of_registered (h.entry.trans hinfo)]
    dsimp only
    rw [sentRead_data h.nonneg hpath, h.serverBytes hneg hpath, hcopied]
  have hself : SameOutcome fd info count s s env env := ⟨rfl, rfl, rfl, hneg, rfl⟩
  rw [← length_serverBytes_iff hpath]
  constructor
  · intro hsame
    have hother : SameOutcome fd info count s s env (otherMemory env) := by
      refine ⟨rfl, rfl, rfl, hneg, ?_⟩
      rw [sentRead_calls hneg hpath, sentRead_calls hneg hpath]
      rfl
    have hbuf := hsame s (otherMemory env) hother
    rw [hread hother, hread hself] at hbuf
    apply otherMemory_shows env hmax
    -- both copies have the same length, so they agree as prefixes of the buffer
    refine (List.append_inj hbuf ?_).1
    simp [length_copyTo_of_le, hmax]
  · intro hfull s' env' h
    have hall : ∀ stale : Nat → Byte,
        copyTo (allocateBuffer stale count) (serverBytes s info count env) =
          serverBytes s info count env := by
      intro stale
      apply copyTo_of_length_le
      simp [hfull]
    rw [hread h, hread hself, hall, hall]

/-! ## A short file -/

/-- `/f` with three bytes, opened for reading. -/
def short : System := openedFile threeBytes oRdonly

theorem short_nonneg : short.kernel.NonnegFds :=
  perform_nonneg (s := deployment threeBytes openToAll) ⟨fun _ _ _ => rfl⟩
    (.open64 ['/', 'f'] oRdonly 0) .calm

/-- Five bytes are asked for and three are there; the user's buffer ends with two bytes of
whoever had the shared memory before. -/
theorem foreign_memory_leaked :
    (Posix.read 0 [9, 9, 9, 9, 9] 5 .calm short).result.buf = [1, 2, 3, 0, 0] ∧
    (Posix.read 0 [9, 9, 9, 9, 9] 5 (otherMemory .calm) short).result.buf = [1, 2, 3, 1, 1] ∧
    SameOutcome 0 ⟨['/', 'f'], oRdonly, 0⟩ 5 short short .calm (otherMemory .calm) := by
  refine ⟨by decide +kernel, by decide +kernel, rfl, rfl, rfl,
    short_nonneg, by decide +kernel⟩

theorem no_foreign_memory_iff_short :
    (∀ s' env', SameOutcome 0 ⟨['/', 'f'], oRdonly, 0⟩ 2 short s' .calm env' →
        (Posix.read 0 [9, 9] 2 env' s').result.buf =
          (Posix.read 0 [9, 9] 2 .calm short).result.buf) ↔
      ServerFills short ⟨['/', 'f'], oRdonly, 0⟩ 2 .calm :=
  no_foreign_memory_iff (by decide +kernel) (by decide) short_nonneg [9, 9] 2 .calm

end DTIO.Properties.ForeignMemory
