import DTIO.Vol.Open

/-!
# Opening a File on All Ranks

Rank 0 has its cursor in the static buffer when it switches to the dynamic one, so that its
assertion on the cursor fails whenever the creation list of the root group does not fit.  The
other ranks would then receive into the dynamic buffer, which some of them did not allocate, on
the communicator of the connector info, which may be missing.

## Main results

- `file_open_iff`: the ranks agree if and only if there is one rank or the list fits
- `file_open_long`: a list that does not fit, with two ranks
-/

namespace DTIO.Properties.FileOpen

open DTIO.Posix DTIO.Memory DTIO.Broadcast DTIO.Vol

variable {maxOid : Nat} {gcpl : List Byte}

/-- All ranks open the file: their broadcasts match, nobody faults, and everybody has the stored
maximal oid and the stored creation list. -/
def AllOpen (info : Option Comm) (maxOid : Nat) (gcpl : List Byte) (m : RankMemory)
    (others : List RankMemory) : Prop :=
  lockstep (fileOpen 0 (others.length + 1) info (encode64 maxOid) gcpl m)
      (others.zipIdx.map fun x =>
        fileOpen (x.2 + 1) (others.length + 1) info (encode64 maxOid) gcpl x.1) =
    some (⟨maxOid, gcpl⟩, others.zipIdx.map fun _ => ⟨maxOid, gcpl⟩)

/-- The creation list fits into the static buffer, behind the two numbers. -/
def FitsStatic (gcpl : List Byte) : Prop := gcpl.length ≤ 1008

/-! ## Rank 0 -/

/-- The maximal oid in the static buffer. -/
theorem static_maxOid (m : RankMemory) (maxOid : Nat) :
    ∃ rest : List Byte, rest.length = 1016 ∧
      store (malloc m.stack foiBufSize) 0 ((encode64 maxOid).take 8) =
        some (encode64 maxOid ++ rest) := by
  obtain ⟨pre, old, post, hbuf, hpre, hold, hpost⟩ : ∃ pre old post : List Byte,
      malloc m.stack foiBufSize = pre ++ (old ++ post) ∧ pre.length = 0 ∧ old.length = 8 ∧
        post.length = 1016 := exists_parts (by simp [foiBufSize])
  obtain rfl := List.length_eq_zero_iff.mp hpre
  refine ⟨post, hpost, ?_⟩
  rw [hbuf, List.take_of_length_le (length_encode64 maxOid).le]
  exact store_append hpre (by rw [hold, length_encode64])

/-- A rank that is alone opens the file. -/
theorem reader_alone (hoid : maxOid < 18446744073709551616) (m : RankMemory) :
    fileOpenReader 1 (encode64 maxOid) gcpl m = .done ⟨maxOid, gcpl⟩ := by
  obtain ⟨rest, hrest, hstore⟩ := static_maxOid m maxOid
  have hmax : uint64 (encode64 maxOid ++ rest) 0 = some maxOid :=
    uint64_first _ hoid
  unfold fileOpenReader
  simp [hstore, hmax]

/-- A list that does not fit leaves the cursor in the wrong buffer. -/
theorem reader_fault {numProcs : Nat} (hprocs : 1 < numProcs)
    (hoid : maxOid < 18446744073709551616) (hlong : ¬ FitsStatic gcpl) (m : RankMemory) :
    fileOpenReader numProcs (encode64 maxOid) gcpl m = .fault := by
  obtain ⟨rest, hrest, hstore⟩ := static_maxOid m maxOid
  have hmax : uint64 (encode64 maxOid ++ rest) 0 = some maxOid :=
    uint64_first _ hoid
  have hheader : load (encode64 maxOid ++ rest) 0 8 = some (encode64 maxOid) :=
    load_first _ (length_encode64 maxOid)
  have hdyn : decide (gcpl.length + 16 > foiBufSize) = true := by
    unfold FitsStatic at hlong
    unfold foiBufSize
    rw [decide_eq_true_eq]
    omega
  have hcopy : ∃ buf, store (malloc m.heap (gcpl.length + 16)) 0 (encode64 maxOid) = some buf :=
    ⟨_, if_pos (by simp)⟩
  obtain ⟨buf, hcopy⟩ := hcopy
  have hcursor : decide ((⟨false, 8⟩ : Cursor) = ⟨true, 8⟩) = false := rfl
  unfold fileOpenReader
  simp only [hstore, hmax, hheader, hdyn, hcopy, hcursor, hprocs, gt_iff_lt, if_true,
    Proc.ofOption_some, Proc.done_bind, Proc.assert_false, Proc.fault_bind]

/-- A list that fits is broadcast behind the two numbers. -/
theorem reader_bcast {numProcs : Nat} (hprocs : 1 < numProcs)
    (hoid : maxOid < 18446744073709551616) (hfits : FitsStatic gcpl) (m : RankMemory) :
    ∃ rest : List Byte, rest.length = 1008 - gcpl.length ∧
      fileOpenReader numProcs (encode64 maxOid) gcpl m =
        .send .file (encode64 maxOid ++ (encode64 gcpl.length ++ (gcpl ++ rest)))
          (.done ⟨maxOid, gcpl⟩) := by
  unfold FitsStatic at hfits
  obtain ⟨rest, hrest, hstore⟩ := static_maxOid m maxOid
  have hmax : uint64 (encode64 maxOid ++ rest) 0 = some maxOid :=
    uint64_first _ hoid
  have hheader : load (encode64 maxOid ++ rest) 0 8 = some (encode64 maxOid) :=
    load_first _ (length_encode64 maxOid)
  have hdyn : decide (gcpl.length + 16 > foiBufSize) = false := by
    unfold foiBufSize
    rw [decide_eq_false_iff_not]
    omega
  -- the length and the list overwrite what is behind the maximal oid
  obtain ⟨old, mid, post, rfl, hold, hmid, hpost⟩ : ∃ old mid post : List Byte,
      rest = old ++ (mid ++ post) ∧ old.length = 8 ∧ mid.length = gcpl.length ∧
        post.length = 1008 - gcpl.length := exists_parts (by omega)
  have hlen : store (encode64 maxOid ++ (old ++ (mid ++ post))) 8 (encode64 gcpl.length) =
      some (encode64 maxOid ++ (encode64 gcpl.length ++ (mid ++ post))) :=
    store_append (length_encode64 maxOid) (by rw [hold, length_encode64])
  have hlist : store (encode64 maxOid ++ (encode64 gcpl.length ++ (mid ++ post))) (8 + 8) gcpl =
      some (encode64 maxOid ++ (encode64 gcpl.length ++ (gcpl ++ post))) := by
    rw [← List.append_assoc, ← List.append_assoc (encode64 maxOid)]
    exact store_append (by simp) hmid
  have hfirst : load (encode64 maxOid ++ (encode64 gcpl.length ++ (gcpl ++ post))) 0 foiBufSize =
      some (encode64 maxOid ++ (encode64 gcpl.length ++ (gcpl ++ post))) := by
    apply load_all
    simp only [List.length_append, length_encode64, hpost, foiBufSize]
    omega
  refine ⟨post, hpost, ?_⟩
  unfold fileOpenReader
  simp only [hstore, hmax, hheader, hdyn, hlen, hlist, hfirst, hprocs, gt_iff_lt, if_true,
    if_false, Bool.false_eq_true, decide_true, Proc.ofOption_some, Proc.done_bind,
    Proc.assert_true, Proc.bcastSend, Proc.send_bind, Proc.pure_eq]

/-- The other ranks then have everything. -/
theorem received (hoid : maxOid < 18446744073709551616) (hfits : FitsStatic gcpl)
    {rest : List Byte} (hrest : rest.length = 1008 - gcpl.length) (info : Option Comm)
    (m : RankMemory) :
    fileReceived info m (encode64 maxOid ++ (encode64 gcpl.length ++ (gcpl ++ rest))) =
      .done ⟨maxOid, gcpl⟩ := by
  unfold FitsStatic at hfits
  -- the message is as long as the receiver's buffer
  set first := encode64 maxOid ++ (encode64 gcpl.length ++ (gcpl ++ rest)) with hfirst
  have hstore : store (malloc m.stack foiBufSize) 0 first = some first := by
    have hlen : first.length = foiBufSize := by
      simp only [hfirst, List.length_append, length_encode64, hrest, foiBufSize]
      omega
    simp [store, hlen]
  -- its parts: the maximum, the length of the list, the list
  have hmax : uint64 first 0 = some maxOid := uint64_first _ hoid
  have hlen : uint64 first 8 = some gcpl.length :=
    uint64_append (length_encode64 maxOid) (by omega)
  have hlist : load first 16 gcpl.length = some gcpl := by
    rw [hfirst, ← List.append_assoc]
    exact load_append (by simp) rfl
  -- the list fits the first message, so there is no second
  have hshort : ¬ gcpl.length + 16 > foiBufSize := by
    unfold foiBufSize
    omega
  unfold fileReceived
  simp only [hstore, hmax, hlen, hlist, if_neg hshort, Proc.ofOption_some, Proc.done_bind,
    Proc.pure_eq]

/-! ## All ranks -/

/-- The program of rank 0. -/
theorem fileOpen_root (numProcs : Nat) (info : Option Comm) (globMd gcpl : List Byte)
    (m : RankMemory) :
    fileOpen 0 numProcs info globMd gcpl m = fileOpenReader numProcs globMd gcpl m := rfl

/-- All ranks open the file if there is one, or if the list fits. -/
theorem allOpen_of_fits (hoid : maxOid < 18446744073709551616) (info : Option Comm)
    (m : RankMemory) {others : List RankMemory} (h : others = [] ∨ FitsStatic gcpl) :
    AllOpen info maxOid gcpl m others := by
  unfold AllOpen
  rw [fileOpen_root]
  cases others with
  -- one rank: no broadcast
  | nil =>
    rw [show fileOpenReader (([] : List RankMemory).length + 1) (encode64 maxOid) gcpl m =
      .done ⟨maxOid, gcpl⟩ from reader_alone hoid m]
    rfl
  -- several: one message of the size all expect, and all read the same from it
  | cons other others =>
    have hfits : FitsStatic gcpl := h.resolve_left (List.cons_ne_nil _ _)
    have hprocs : 1 < (other :: others).length + 1 := by simp
    obtain ⟨rest, hrest, hreader⟩ := reader_bcast hprocs hoid hfits m
    have hothers : ((other :: others).zipIdx.map fun x =>
          fileOpen (x.2 + 1) ((other :: others).length + 1) info (encode64 maxOid) gcpl x.1) =
        (other :: others).zipIdx.map fun x =>
          .recv .file foiBufSize (fileReceived info x.1) := by
      apply List.map_congr_left
      intro x _
      simp [fileOpen, fileOpenReceiver, Proc.bcastRecv]
    have hlen : foiBufSize =
        (encode64 maxOid ++ (encode64 gcpl.length ++ (gcpl ++ rest))).length := by
      unfold FitsStatic at hfits
      simp only [List.length_append, length_encode64, hrest, foiBufSize]
      omega
    rw [hreader, hothers, lockstep_send _ _ _ _ _ hlen]
    simp only [received hoid hfits hrest]
    exact lockstep_done _ _ _

/-- **Opening a file.**  For any number of ranks, any stored maximal oid, any creation list of 1
to `2^31 - 1` bytes, with or without connector info, all ranks open the file if and only if
there is one rank or the list fits into the static buffer. -/
theorem file_open_iff (hoid : maxOid < 18446744073709551616) (info : Option Comm)
    (m : RankMemory) (others : List RankMemory) :
    AllOpen info maxOid gcpl m others ↔ others = [] ∨ gcpl.length ≤ 1008 := by
  constructor
  · intro hall
    by_contra hnot
    obtain ⟨hmany, hlong⟩ := not_or.mp hnot
    have hprocs : 1 < others.length + 1 := by
      have hpos := List.length_pos_iff.mpr hmany
      omega
    unfold AllOpen at hall
    rw [fileOpen_root, reader_fault hprocs hoid hlong, lockstep_fault] at hall
    cases hall
  · exact allOpen_of_fits hoid info m

/-! ## A list just too long -/

/-- No memory holds anything in particular. -/
def zeros : RankMemory := ⟨fun _ => 0, fun _ => 0⟩

/-- With a list of 1009 bytes and two ranks, rank 0 stops before it broadcasts anything. -/
theorem file_open_long :
    fileOpen 0 2 none (encode64 5) (List.replicate 1009 1) zeros = .fault ∧
    ¬ AllOpen none 5 (List.replicate 1009 1) zeros [zeros] := by
  have hlong : ¬ FitsStatic (List.replicate 1009 1) := by
    unfold FitsStatic
    rw [List.length_replicate]
    decide
  have hfault : fileOpen 0 2 none (encode64 5) (List.replicate 1009 1) zeros = .fault :=
    reader_fault (by decide) (by decide) hlong zeros
  refine ⟨hfault, ?_⟩
  unfold AllOpen
  rw [show fileOpen 0 ([zeros].length + 1) none (encode64 5) (List.replicate 1009 1) zeros =
    .fault from hfault, lockstep_fault]
  nofun

theorem file_open_iff_short :
    AllOpen none 5 [1, 2, 3] zeros [zeros, zeros] ↔
      [zeros, zeros] = [] ∨ [(1 : Byte), 2, 3].length ≤ 1008 :=
  file_open_iff (by decide) none zeros [zeros, zeros]

end DTIO.Properties.FileOpen
