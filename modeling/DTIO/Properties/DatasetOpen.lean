import DTIO.Vol.Open

/-!
# Dataset Metadata on All Ranks

Rank 0 decides by the length of the record whether it broadcasts twice, the other ranks decide
by the sum of the three lengths they received.  The thresholds agree, because the record is the
three lengths and the strings, and so do the lengths and the positions.

## Main results

- `reader_bcast`: the broadcasts of rank 0
- `receiver_first`, `receiver_second`: what the other ranks make of them
- `dataset_open_agrees`: every rank ends with the stored strings
-/

namespace DTIO.Properties.DatasetOpen

open DTIO.Posix DTIO.Memory DTIO.Broadcast DTIO.Vol DTIO.MachineInt

variable {d : DatasetInfo} {oid : Nat}

/-- The strings are short enough for every count and length. -/
def Fits (d : DatasetInfo) : Prop := d.strings.length < 2147483648

/-- The beginning of every buffer: eight bytes and the three lengths. -/
def framed (pre : List Byte) (d : DatasetInfo) (rest : List Byte) : List Byte :=
  pre ++ (encode64 d.type.length ++ (encode64 d.space.length ++
    (encode64 d.dcpl.length ++ rest)))

theorem length_strings (d : DatasetInfo) :
    d.strings.length = d.type.length + d.space.length + d.dcpl.length := by
  simp [DatasetInfo.strings]
  omega

theorem length_datasetRecord (d : DatasetInfo) :
    (datasetRecord d).length = d.strings.length + 24 := by
  simp [datasetRecord]
  omega

theorem length_framed {pre : List Byte} (hpre : pre.length = 8) (rest : List Byte) :
    (framed pre d rest).length = 32 + rest.length := by
  simp [framed, hpre]
  omega

theorem framed_record (pre rest : List Byte) (d : DatasetInfo) :
    pre ++ (datasetRecord d ++ rest) = framed pre d (d.strings ++ rest) := by
  simp [framed, datasetRecord]

section Framed

variable {pre : List Byte} (hpre : pre.length = 8) (hd : Fits d) (rest : List Byte)

include hpre

/-- The strings begin behind the frame. -/
theorem load_framed (off len : Nat) : load (framed pre d rest) (32 + off) len =
    load rest off len := by
  have hassoc : framed pre d rest = (pre ++ (encode64 d.type.length ++
      (encode64 d.space.length ++ encode64 d.dcpl.length))) ++ rest := by
    simp [framed]
  rw [hassoc]
  apply load_append_right
  simp [hpre]

theorem decodeDataset_framed (typeLen spaceLen dcplLen : Nat) :
    decodeDataset (framed pre d rest) 32 oid typeLen spaceLen dcplLen =
      decodeDataset rest 0 oid typeLen spaceLen dcplLen := by
  unfold decodeDataset
  have h0 := load_framed (d := d) hpre rest 0
  rw [Nat.add_zero] at h0
  rw [h0, Nat.add_assoc, Nat.add_assoc, load_framed hpre, load_framed hpre, Nat.zero_add,
    Nat.zero_add]

/-- The first broadcast. -/
theorem load_framed_first (hrest : 992 ≤ rest.length) :
    load (framed pre d rest) 0 dinfoBufSize = some (framed pre d (rest.take 992)) := by
  have hsplit : framed pre d rest = framed pre d (rest.take 992) ++ rest.drop 992 := by
    simp [framed]
  rw [hsplit]
  apply load_first
  rw [length_framed hpre, List.length_take]
  unfold dinfoBufSize
  omega

theorem store_framed {pre' : List Byte} (hpre' : pre'.length = 8) :
    store (framed pre d rest) 0 pre' = some (framed pre' d rest) := by
  unfold framed
  exact store_first _ (hpre.trans hpre'.symm)

include hd

/-- The three lengths are found in the frame. -/
theorem uint64_framed :
    uint64 (framed pre d rest) 8 = some d.type.length ∧
    uint64 (framed pre d rest) 16 = some d.space.length ∧
    uint64 (framed pre d rest) 24 = some d.dcpl.length := by
  have hlen := length_strings d
  unfold Fits at hd
  refine ⟨uint64_append hpre (by omega), ?_, ?_⟩
  · have hassoc : framed pre d rest = (pre ++ encode64 d.type.length) ++
        (encode64 d.space.length ++ (encode64 d.dcpl.length ++ rest)) := by
      simp [framed]
    rw [hassoc]
    exact uint64_append (by simp [hpre]) (by omega)
  · have hassoc : framed pre d rest = (pre ++ (encode64 d.type.length ++
        encode64 d.space.length)) ++ (encode64 d.dcpl.length ++ rest) := by
      simp [framed]
    rw [hassoc]
    exact uint64_append (by simp [hpre]) (by omega)

end Framed

/-- The strings are decoded where they begin. -/
theorem decodeDataset_strings (rest : List Byte) :
    decodeDataset (d.strings ++ rest) 0 oid d.type.length d.space.length d.dcpl.length =
      some ⟨oid, d⟩ := by
  have htype : load (d.strings ++ rest) 0 d.type.length = some d.type := by
    rw [DatasetInfo.strings, List.append_assoc]
    exact load_first _ rfl
  have hspace : load (d.strings ++ rest) (0 + d.type.length) d.space.length = some d.space := by
    rw [DatasetInfo.strings, List.append_assoc, List.append_assoc]
    exact load_append (by omega) rfl
  have hdcpl : load (d.strings ++ rest) (0 + d.type.length + d.space.length) d.dcpl.length =
      some d.dcpl := by
    have hassoc : d.strings ++ rest = (d.type ++ d.space) ++ (d.dcpl ++ rest) := by
      simp [DatasetInfo.strings]
    rw [hassoc]
    exact load_append (by simp) rfl
  unfold decodeDataset
  simp only [htype, hspace, hdcpl]
  rfl

/-! ## The two sides -/

/-- A second broadcast takes place. -/
def Twice (d : DatasetInfo) : Prop := d.strings.length + 32 > dinfoBufSize

instance decidableTwice (d : DatasetInfo) : Decidable (Twice d) :=
  inferInstanceAs (Decidable (_ > _))

theorem twice_iff : Twice d ↔ 992 < d.strings.length := by
  unfold Twice dinfoBufSize
  omega

/-- The buffer of a rank that read the record: whatever was there, the record, and what is
left of the static buffer. -/
theorem store_record (d : DatasetInfo) (m : RankMemory) :
    ∃ pre post : List Byte, pre.length = 8 ∧
      post.length = (if Twice d then 0 else 992 - d.strings.length) ∧
      store (if decide (Twice d) then malloc m.heap ((datasetRecord d).length + 8)
        else malloc m.stack dinfoBufSize) 8 (datasetRecord d) =
          some (framed pre d (d.strings ++ post)) := by
  have hrecord := length_datasetRecord d
  obtain ⟨pre, old, post, hbuf, hpre, hold, hpost⟩ : ∃ pre old post : List Byte,
      (if decide (Twice d) then malloc m.heap ((datasetRecord d).length + 8)
        else malloc m.stack dinfoBufSize) = pre ++ (old ++ post) ∧ pre.length = 8 ∧
      old.length = (datasetRecord d).length ∧
      post.length = if Twice d then 0 else 992 - d.strings.length := by
    apply exists_parts
    by_cases htwice : Twice d
    · simp [htwice, Nat.add_comm]
    · have hshort := mt twice_iff.mpr htwice
      simp only [htwice, decide_false, Bool.false_eq_true, if_false, length_malloc, hrecord,
        dinfoBufSize]
      omega
  refine ⟨pre, post, hpre, hpost, ?_⟩
  rw [hbuf, store_append hpre hold, framed_record]

theorem decide_twice (d : DatasetInfo) :
    decide ((datasetRecord d).length + 8 > dinfoBufSize) = decide (Twice d) := by
  rw [length_datasetRecord]
  rfl

/-- The broadcasts of rank 0: 1024 bytes that begin with the oid and the lengths, and all of
the strings if they did not fit. -/
theorem reader_bcast (hd : Fits d) (m : RankMemory) :
    ∃ rest, rest.length = 992 ∧ (¬ Twice d → ∃ post, rest = d.strings ++ post) ∧
      datasetOpenReader true oid (datasetRecord d) m =
        .send .file (framed (encode64 oid) d rest)
          (if Twice d then .send .file d.strings (.done ⟨oid, d⟩) else .done ⟨oid, d⟩) := by
  have hrecord := length_datasetRecord d
  obtain ⟨pre, post, hpre, hpost, hstore⟩ := store_record d m
  obtain ⟨htype, hspace, hdcpl⟩ := uint64_framed hpre hd (d.strings ++ post)
  unfold datasetOpenReader readDatasetInfo
  simp only [decide_twice, hstore, Proc.ofOption_some, Proc.done_bind, htype, hspace, hdcpl,
    store_framed hpre _ (length_encode64 oid)]
  -- the buffer ends with the strings if it was allocated for them, and else has 1024 bytes
  have hlen : (d.strings ++ post).length = if Twice d then d.strings.length
      else 992 := by
    rw [List.length_append, hpost]
    by_cases htwice : Twice d
    · rw [if_pos htwice, if_pos htwice, Nat.add_zero]
    · have hshort := mt twice_iff.mpr htwice
      rw [if_neg htwice, if_neg htwice]
      omega
  have hlong : 992 ≤ (d.strings ++ post).length := by
    rw [hlen]
    by_cases htwice : Twice d
    · rw [if_pos htwice]
      exact (twice_iff.mp htwice).le
    · rw [if_neg htwice]
  -- the assertion before the second broadcast
  have hassert : (decide ((datasetRecord d).length + 8 ≥ dinfoBufSize) || !decide (Twice d)) =
      true := by
    by_cases htwice : Twice d
    · have hlong := twice_iff.mp htwice
      have hge : (datasetRecord d).length + 8 ≥ dinfoBufSize := by
        unfold dinfoBufSize
        omega
      simp [hge]
    · simp [htwice]
  have hfirst := load_framed_first (d := d) (length_encode64 oid) _ hlong
  have hsecond : load (framed (encode64 oid) d (d.strings ++ post)) 32 d.strings.length =
      some d.strings := by
    have h := load_framed (d := d) (length_encode64 oid) (d.strings ++ post) 0 d.strings.length
    rw [Nat.add_zero] at h
    rw [h]
    exact load_first _ rfl
  have hcount : mpiCount ((datasetRecord d).length - 24) = some d.strings.length := by
    rw [hrecord, Nat.add_sub_cancel]
    exact mpiCount_of_lt hd
  -- rank 0 decodes what it has read itself
  have hdecode : decodeDataset (framed (encode64 oid) d (d.strings ++ post)) 32 oid d.type.length
      d.space.length d.dcpl.length = some ⟨oid, d⟩ := by
    rw [decodeDataset_framed (length_encode64 oid)]
    exact decodeDataset_strings post
  refine ⟨(d.strings ++ post).take 992, ?_, ?_, ?_⟩
  · rw [List.length_take]
    omega
  · intro hnot
    refine ⟨post, List.take_of_length_le ?_⟩
    rw [hlen, if_neg hnot]
  · simp only [hassert, hfirst, hsecond, hcount, if_true, Proc.ofOption_some,
      Proc.done_bind, Proc.assert_true, Proc.bcastSend, Proc.send_bind]
    by_cases htwice : Twice d
    · simp [htwice, DatasetBuffer.decode, hdecode]
    · simp [htwice, DatasetBuffer.decode, hdecode]

/-- The other ranks after the first broadcast: they have everything, or wait for as many bytes
as rank 0 sends. -/
theorem received (hd : Fits d) (hoid : oid < 18446744073709551616) {rest : List Byte}
    (hrest : rest.length = 992) (hshort : ¬ Twice d → ∃ post, rest = d.strings ++ post)
    (m : RankMemory) :
    datasetReceived m (framed (encode64 oid) d rest) =
      if Twice d then
        .recv .file d.strings.length fun second =>
          .ofOption (store (if d.strings.length > dinfoBufSize then malloc m.heap d.strings.length
            else framed (encode64 oid) d rest) 0 second) >>= fun buf =>
          .ofOption (decodeDataset buf 0 oid d.type.length d.space.length d.dcpl.length)
      else .done ⟨oid, d⟩ := by
  have hlen : (framed (encode64 oid) d rest).length = dinfoBufSize := by
    rw [length_framed (length_encode64 oid), hrest]
    rfl
  have hstore : store (malloc m.stack dinfoBufSize) 0 (framed (encode64 oid) d rest) =
      some (framed (encode64 oid) d rest) := by
    simp [store, hlen]
  have hfirst : uint64 (framed (encode64 oid) d rest) 0 = some oid :=
    uint64_first _ hoid
  obtain ⟨htype, hspace, hdcpl⟩ := uint64_framed (length_encode64 oid) hd rest
  have hcount : mpiCount d.strings.length = some d.strings.length := mpiCount_of_lt hd
  -- the sum of the lengths does not wrap
  have htotal : toUnsigned64 (d.strings.length : Int) = d.strings.length := by
    apply toUnsigned64_of_le
    unfold Fits at hd
    unfold maxSigned64
    omega
  have hheader : toUnsigned64 ((d.strings.length + 32 : Nat) : Int) = d.strings.length + 32 := by
    apply toUnsigned64_of_le
    unfold Fits at hd
    unfold maxSigned64
    omega
  unfold datasetReceived receiveDatasetInfo
  simp only [hstore, hfirst, htype, hspace, hdcpl, ← length_strings, htotal, hheader, hcount,
    Proc.ofOption_some, Proc.done_bind, Proc.bcastRecv, Proc.recv_bind]
  by_cases htwice : Twice d
  · have hlarge : d.strings.length + 32 > dinfoBufSize := htwice
    simp only [if_pos htwice, if_pos hlarge, Proc.recv_bind, Proc.bind_assoc, Proc.pure_eq,
      Proc.done_bind, DatasetBuffer.decode]
  · obtain ⟨post, rfl⟩ := hshort htwice
    have hsmall : ¬ d.strings.length + 32 > dinfoBufSize := htwice
    simp only [if_neg htwice, if_neg hsmall, Proc.pure_eq, Proc.done_bind, DatasetBuffer.decode]
    rw [decodeDataset_framed (length_encode64 oid), decodeDataset_strings]
    rfl

/-- The second broadcast fits into the buffer that was chosen for it. -/
theorem received_second (m : RankMemory) {rest : List Byte} (hrest : rest.length = 992) :
    (.ofOption (store (if d.strings.length > dinfoBufSize then malloc m.heap d.strings.length
        else framed (encode64 oid) d rest) 0 d.strings) >>= fun buf =>
      .ofOption (decodeDataset buf 0 oid d.type.length d.space.length d.dcpl.length) :
      Proc Comm Byte OpenedDataset) = .done ⟨oid, d⟩ := by
  -- the buffer begins with a part as long as the strings
  obtain ⟨pre, old, post, hbuf, hpre, hold, -⟩ : ∃ pre old post : List Byte,
      (if d.strings.length > dinfoBufSize then malloc m.heap d.strings.length
        else framed (encode64 oid) d rest) = pre ++ (old ++ post) ∧ pre.length = 0 ∧
      old.length = d.strings.length ∧ post.length = if d.strings.length > dinfoBufSize then 0
        else dinfoBufSize - d.strings.length := by
    apply exists_parts
    by_cases hlong : d.strings.length > dinfoBufSize
    · simp [hlong]
    · rw [if_neg hlong, if_neg hlong, length_framed (length_encode64 oid), hrest]
      unfold dinfoBufSize at hlong ⊢
      omega
  obtain rfl := List.length_eq_zero_iff.mp hpre
  rw [hbuf, store_append hpre hold, Proc.ofOption_some, Proc.done_bind, List.nil_append,
    decodeDataset_strings]
  rfl

/-! ## All ranks -/

/-- A rank that reads the record for itself. -/
theorem reader_alone (hd : Fits d) (m : RankMemory) :
    datasetOpenReader false oid (datasetRecord d) m = .done ⟨oid, d⟩ := by
  obtain ⟨pre, post, hpre, -, hstore⟩ := store_record d m
  obtain ⟨htype, hspace, hdcpl⟩ := uint64_framed hpre hd (d.strings ++ post)
  unfold datasetOpenReader readDatasetInfo
  simp only [decide_twice, hstore, Proc.ofOption_some, Proc.done_bind, htype, hspace, hdcpl,
    Bool.false_eq_true, if_false, Proc.pure_eq, DatasetBuffer.decode]
  rw [decodeDataset_framed hpre, decodeDataset_strings]
  rfl

/-- **Dataset metadata.**  A collective open of a dataset succeeds on every rank, for any
number of ranks: they agree on the number of broadcasts and on their lengths, stay within
their buffers, and end with the oid and the three strings that were stored; so does every
rank that opens the dataset on its own. -/
theorem dataset_open_agrees (hd : Fits d) (hoid : oid < 18446744073709551616)
    (m : RankMemory) (others : List RankMemory) :
    lockstep (datasetOpen true 0 (others.length + 1) oid (datasetRecord d) m)
        (others.zipIdx.map fun x =>
          datasetOpen true (x.2 + 1) (others.length + 1) oid (datasetRecord d) x.1) =
      some (⟨oid, d⟩, others.zipIdx.map fun _ => ⟨oid, d⟩) ∧
    ∀ rank numProcs, datasetOpen false rank numProcs oid (datasetRecord d) m =
      .done ⟨oid, d⟩ := by
  refine ⟨?_, fun rank numProcs => reader_alone hd m⟩
  cases others with
  | nil =>
    show lockstep (datasetOpenReader false oid (datasetRecord d) m) [] = _
    rw [reader_alone hd]
    rfl
  | cons other others =>
    obtain ⟨rest, hrest, hshort, hreader⟩ := @reader_bcast d oid hd m
    have hroot : datasetOpen true 0 ((other :: others).length + 1) oid (datasetRecord d) m =
        datasetOpenReader true oid (datasetRecord d) m := by
      simp [datasetOpen]
    have hothers : ((other :: others).zipIdx.map fun x =>
          datasetOpen true (x.2 + 1) ((other :: others).length + 1) oid (datasetRecord d) x.1) =
        (other :: others).zipIdx.map fun x =>
          .recv .file dinfoBufSize (datasetReceived x.1) := by
      apply List.map_congr_left
      intro x _
      simp [datasetOpen, datasetOpenReceiver, Proc.bcastRecv]
    have hlen : dinfoBufSize = (framed (encode64 oid) d rest).length := by
      rw [length_framed (length_encode64 oid), hrest]
      rfl
    rw [hroot, hreader, hothers, lockstep_send _ _ _ _ _ hlen]
    simp only [received hd hoid hrest hshort]
    by_cases htwice : Twice d
    · -- the same length on both sides, and then the strings
      simp only [if_pos htwice]
      rw [lockstep_send _ _ _ _ _ rfl]
      simp only [received_second _ hrest]
      exact lockstep_done _ _ _
    · simp only [if_neg htwice]
      exact lockstep_done _ _ _

/-! ## A record just too long -/

/-- A dataset with 993 bytes of strings. -/
def wide : DatasetInfo := ⟨[1], List.replicate 990 2, [3, 4]⟩

theorem dataset_open_agrees_wide :
    lockstep (datasetOpen true 0 3 7 (datasetRecord wide) ⟨fun _ => 0, fun _ => 0⟩)
        ([(⟨fun _ => 1, fun _ => 1⟩ : RankMemory), ⟨fun _ => 2, fun _ => 2⟩].zipIdx.map fun x =>
          datasetOpen true (x.2 + 1) 3 7 (datasetRecord wide) x.1) =
      some (⟨7, wide⟩, [⟨7, wide⟩, ⟨7, wide⟩]) ∧
    ∀ rank numProcs, datasetOpen false rank numProcs 7 (datasetRecord wide)
        ⟨fun _ => 0, fun _ => 0⟩ = .done ⟨7, wide⟩ :=
  dataset_open_agrees (by unfold Fits; decide +kernel) (by decide) ⟨fun _ => 0, fun _ => 0⟩
    [⟨fun _ => 1, fun _ => 1⟩, ⟨fun _ => 2, fun _ => 2⟩]

end DTIO.Properties.DatasetOpen
