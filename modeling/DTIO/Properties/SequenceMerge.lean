import DTIO.Vol.IoOpArrays

/-!
# The Merge of Two Sequence Lists

`H5VL_dtio_build_io_op_merge` pairs the bytes of two selections in order, however the iterators
cut them into sequences and answers.

## Main definitions

- `Delivered`: what an iterator delivers
- `Exact`: the transfers of a merge

## Main results

- `merge_exact`: for every two sequence lists of one length
-/

namespace DTIO.Properties.SequenceMerge

open DTIO.MachineInt DTIO.Vol

/-! ## What the function is for -/

/-- The answers of an iterator: at most 128 sequences each, until there are none, of bytes whose
offsets are of the type `hsize_t`. -/
structure Delivered (answers : List Batch) : Prop where
  room : ∀ b ∈ answers, b.runs.length ≤ seqListLen
  progress : ∀ b ∈ answers, b.runs ≠ [] ∧ ∀ r ∈ b.runs, 0 < r.len
  offsets : ∀ b ∈ answers, ∀ r ∈ b.runs, r.off + r.len ≤ 18446744073709551616

/-- The transfers of a merge: the bytes of the two lists are paired in order, no transfer is
empty, and none is longer than what `tot_len` is before it. -/
structure Exact (memSeqs fileSeqs : List Batch) (totLen : Nat) (op : List Entry) : Prop where
  bytes : opBytes op = (batchBytes fileSeqs).zip (batchBytes memSeqs)
  positive : ∀ e ∈ op, 0 < e.len
  total : (op.map Entry.len).sum = totLen
  noUnderflow : ∀ pre e post, op = pre ++ e :: post → e.len ≤ totLen - (pre.map Entry.len).sum

/-! ## The merge -/

theorem length_opBytes (op : List Entry) : (opBytes op).length = (op.map Entry.len).sum := by
  rw [opBytes, List.length_flatMap]
  congr 1
  refine List.map_congr_left fun e _ => ?_
  simp [Entry.bytes]

theorem Delivered.good {answers : List Batch} (h : Delivered answers) :
    (⟨[], answers, 0⟩ : Side).Good :=
  ⟨fun _ => rfl, nofun, h.room, h.progress⟩

theorem Delivered.addressable {answers : List Batch} (h : Delivered answers) :
    (⟨[], answers, 0⟩ : Side).Addressable :=
  ⟨fun _ => rfl, nofun, nofun, h.offsets⟩

/-- **The merge.**  For every two sequence lists with as many bytes as `tot_nelem * type_size`,
which is not zero: there is a list of transfers that is exact, and the function records it in
the operation of its buffer, after at most one round for each byte. -/
theorem merge_exact {memSeqs fileSeqs : List Batch} {typeSize totNelem totLen : Nat}
    {rbuf wbuf : Bool} (hmem : Delivered memSeqs) (hfile : Delivered fileSeqs)
    (hbuf : rbuf ≠ wbuf) (htot : totLen = toUnsigned64 ((totNelem * typeSize : Nat) : Int))
    (hpos : 0 < totLen) (hmlen : (batchBytes memSeqs).length = totLen)
    (hflen : (batchBytes fileSeqs).length = totLen) :
    ∃ op, Exact memSeqs fileSeqs totLen op ∧ ∀ rounds, totLen ≤ rounds →
      Arrays.buildIoOpMerge rounds memSeqs fileSeqs typeSize totNelem rbuf wbuf =
        .ok (if rbuf = true then ⟨op, []⟩ else ⟨[], op⟩) := by
  have hsmall : totLen < 18446744073709551616 := by
    rw [htot]
    exact toUnsigned64_lt _
  -- the merge on lists; the code keeps them in arrays of 128, and agrees with it
  obtain ⟨op, hop, hbytes, hlens⟩ :=
    mergeLoop_spec hmem.good hfile.good hmlen hflen hpos hsmall le_rfl
  have hsum : (op.map Entry.len).sum = totLen := by
    rw [← length_opBytes, hbytes]
    show ((batchBytes fileSeqs).zip (batchBytes memSeqs)).length = _
    rw [List.length_zip, hmlen, hflen, min_self]
  refine ⟨op, ⟨hbytes, hlens, hsum, ?_⟩, ?_⟩
  · rintro pre e post rfl
    rw [← hsum, List.map_append, List.sum_append, List.map_cons, List.sum_cons]
    omega
  · intro rounds hrounds
    -- the assertion on `tot_nelem`
    have hnelem : totNelem > 0 := by
      rw [gt_iff_lt, Nat.pos_iff_ne_zero]
      rintro rfl
      rw [Nat.zero_mul] at htot
      exact absurd htot hpos.ne'
    have hloop : Arrays.mergeLoop rbuf wbuf rounds (.start memSeqs) (.start fileSeqs) totLen
        ⟨[], []⟩ = .ok (Arrays.Ops.recordAll ⟨[], []⟩ rbuf wbuf op) :=
      Arrays.mergeLoop_arrays (Arrays.SeqList.start_ok memSeqs) (Arrays.SeqList.start_ok fileSeqs)
        hmem.addressable hfile.addressable (mergeLoop_mono hop hrounds) hlens
    simp only [Arrays.buildIoOpMerge, if_pos (And.intro hbuf hnelem), ← htot, hloop,
      Arrays.recordAll_eq]
    cases rbuf <;> cases wbuf <;> simp at hbuf ⊢

/-! ## Lists that are cut differently -/

/-- Six bytes in three sequences and two answers. -/
def sixInThree : List Batch := [⟨[⟨0, 2⟩, ⟨4, 2⟩], 4⟩, ⟨[⟨8, 2⟩], 2⟩]

/-- Six bytes in two sequences and two answers. -/
def sixInTwo : List Batch := [⟨[⟨10, 3⟩], 3⟩, ⟨[⟨20, 3⟩], 3⟩]

theorem delivered_sixInThree : Delivered sixInThree := by
  constructor <;> decide

theorem delivered_sixInTwo : Delivered sixInTwo := by
  constructor <;> decide

/-- A write that merges the two lists. -/
theorem merge_exact_six : ∃ op, Exact sixInThree sixInTwo 6 op ∧ ∀ rounds, 6 ≤ rounds →
    Arrays.buildIoOpMerge rounds sixInThree sixInTwo 1 6 false true = .ok ⟨[], op⟩ :=
  merge_exact delivered_sixInThree delivered_sixInTwo (by decide) (by decide) (by decide)
    (by decide) (by decide)

end DTIO.Properties.SequenceMerge
