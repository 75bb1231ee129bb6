import DTIO.Properties.DatasetOpen

/-!
# Malformed Dataset Records

The record of a dataset begins with three lengths, which have to add up to the length of the
record.  `H5VL_dtio_dataset_open` adds them in 64 bits and reports a mismatch, and then it decodes
all the same; the other ranks add what they receive, and compare it with nothing.

## Main definitions

- `WellFormed`: the lengths add up
- `Guarded`: no rank comes to decoding with lengths that do not

## Main results

- `wellFormed_iff_record`: what is well formed is what `H5VL_dtio_dataset_create` stores
- `read_of_reaches`, `received_of_reaches`: what a rank comes to decoding with
- `guarded_iff`: exactly which records are guarded against
-/

namespace DTIO.Properties.DatasetRecords

open DTIO.Posix DTIO.Memory DTIO.Broadcast DTIO.Vol DTIO.MachineInt

/-! ## Records -/

/-- The three lengths at the beginning of a record add up to its length, as integers. -/
def WellFormed (record : List Byte) : Prop :=
  ∃ typeLen spaceLen dcplLen, uint64 record 0 = some typeLen ∧ uint64 record 8 = some spaceLen ∧
    uint64 record 16 = some dcplLen ∧ typeLen + spaceLen + dcplLen + 24 = record.length

/-- The slices for the three decoders are within the record, which has been read to the ninth
byte of the buffer. -/
structure Within (record : List Byte) (b : DatasetBuffer) : Prop where
  lengths : b.typeLen + b.spaceLen + b.dcplLen + 24 = record.length
  read : load b.buf 8 record.length = some record
  start : 8 ≤ b.off
  inside : b.off + b.typeLen + b.spaceLen + b.dcplLen ≤ 8 + record.length

/-- A rank that comes to decoding does so with lengths that add up: one that reads the record,
and one that receives what rank 0 broadcasts. -/
structure Guarded (record : List Byte) : Prop where
  readers : ∀ bcast binOid m b, (readDatasetInfo bcast binOid record m).Reaches b →
    Within record b
  receivers : ∀ binOid m₀ first next,
    readDatasetInfo true binOid record m₀ = .send .file first next →
      ∀ m b, (receiveDatasetInfo m first).Reaches b →
        b.typeLen + b.spaceLen + b.dcplLen + 24 = record.length

/-! ## What is well formed -/

section Records

variable {record : List Byte}

/-- A length in 64 bits. -/
theorem uint64_part {pre bytes post : List Byte} {off : Nat} (hoff : pre.length = off)
    (hlen : bytes.length = 8) : uint64 (pre ++ (bytes ++ post)) off = some (decodeLE bytes) := by
  unfold uint64
  rw [load_append hoff hlen]
  rfl

theorem encode64_decodeLE {bytes : List Byte} (h : bytes.length = 8) :
    encode64 (decodeLE bytes) = bytes := by
  unfold encode64
  rw [← h]
  exact encodeLE_decodeLE bytes

theorem decodeLE_lt_word {bytes : List Byte} (h : bytes.length = 8) :
    decodeLE bytes < 18446744073709551616 := by
  have hlt := decodeLE_lt bytes
  rw [h] at hlt
  exact hlt

/-- A record with a header, in its parts. -/
theorem exists_header (h : 24 ≤ record.length) :
    ∃ a b c rest : List Byte, record = a ++ (b ++ (c ++ rest)) ∧ a.length = 8 ∧ b.length = 8 ∧
      c.length = 8 ∧ rest.length = record.length - 24 := by
  obtain ⟨a, b, post, hrecord, ha, hb, hpost⟩ :=
    exists_parts (show record.length = 8 + 8 + (record.length - 16) by omega)
  obtain ⟨pre, c, rest, rfl, hpre, hc, hrest⟩ :=
    exists_parts (show post.length = 0 + 8 + (record.length - 24) by omega)
  obtain rfl := List.length_eq_zero_iff.mp hpre
  exact ⟨a, b, c, rest, hrecord, ha, hb, hc, hrest⟩

/-- The lengths in a header. -/
theorem uint64_header {a b c : List Byte} (ha : a.length = 8) (hb : b.length = 8)
    (hc : c.length = 8) (rest : List Byte) :
    uint64 (a ++ (b ++ (c ++ rest))) 0 = some (decodeLE a) ∧
    uint64 (a ++ (b ++ (c ++ rest))) 8 = some (decodeLE b) ∧
    uint64 (a ++ (b ++ (c ++ rest))) 16 = some (decodeLE c) := by
  have hempty : ([] : List Byte).length = 0 := rfl
  refine ⟨uint64_part hempty ha, uint64_part ha hb, ?_⟩
  have hassoc : a ++ (b ++ (c ++ rest)) = (a ++ b) ++ (c ++ rest) := by simp
  rw [hassoc]
  exact uint64_part (by rw [List.length_append, ha, hb]) hc

/-- A record is well formed if what follows its header is as long as the header says. -/
theorem wellFormed_header {typeLen spaceLen dcplLen : Nat}
    (htype : typeLen < 18446744073709551616) (hspace : spaceLen < 18446744073709551616)
    (hdcpl : dcplLen < 18446744073709551616) (rest : List Byte) :
    WellFormed (encode64 typeLen ++ (encode64 spaceLen ++ (encode64 dcplLen ++ rest))) ↔
      typeLen + spaceLen + dcplLen = rest.length := by
  obtain ⟨htype', hspace', hdcpl'⟩ := uint64_header (length_encode64 typeLen)
    (length_encode64 spaceLen) (length_encode64 dcplLen) rest
  have hlen : (encode64 typeLen ++ (encode64 spaceLen ++ (encode64 dcplLen ++ rest))).length =
      rest.length + 24 := by
    simp only [List.length_append, length_encode64]
    omega
  -- the three lengths are small enough to be read back
  have hencode : ∀ {n : Nat}, n < 18446744073709551616 → decodeLE (encode64 n) = n :=
    fun hn => decodeLE_encodeLE hn
  rw [hencode htype] at htype'
  rw [hencode hspace] at hspace'
  rw [hencode hdcpl] at hdcpl'
  unfold WellFormed
  simp only [htype', hspace', hdcpl', hlen, Option.some.injEq, Nat.add_right_cancel_iff]
  constructor
  · rintro ⟨_, _, _, rfl, rfl, rfl, hsum⟩
    exact hsum
  · exact fun hsum => ⟨_, _, _, rfl, rfl, rfl, hsum⟩

/-- **The well-formed records** are those that `H5VL_dtio_dataset_create` stores. -/
theorem wellFormed_iff_record : WellFormed record ↔
    ∃ d : DatasetInfo, d.type.length < 18446744073709551616 ∧
      d.space.length < 18446744073709551616 ∧ d.dcpl.length < 18446744073709551616 ∧
      record = datasetRecord d := by
  constructor
  · rintro ⟨typeLen, spaceLen, dcplLen, htype, hspace, hdcpl, hsum⟩
    have hlong : 24 ≤ record.length := by omega
    obtain ⟨a, b, c, rest, hrecord, ha, hb, hc, hrest⟩ := exists_header hlong
    obtain ⟨htype', hspace', hdcpl'⟩ := uint64_header ha hb hc rest
    rw [hrecord] at htype hspace hdcpl
    obtain rfl := Option.some.inj (htype.symm.trans htype')
    obtain rfl := Option.some.inj (hspace.symm.trans hspace')
    obtain rfl := Option.some.inj (hdcpl.symm.trans hdcpl')
    -- what follows the header is as long as the lengths say
    have hstrings : rest.length = decodeLE a + decodeLE b + decodeLE c := by omega
    obtain ⟨type, space, dcpl, rfl, htlen, hslen, hdlen⟩ := exists_parts hstrings
    refine ⟨⟨type, space, dcpl⟩, ?_, ?_, ?_, ?_⟩
    · exact htlen.trans_lt (decodeLE_lt_word ha)
    · exact hslen.trans_lt (decodeLE_lt_word hb)
    · exact hdlen.trans_lt (decodeLE_lt_word hc)
    · unfold datasetRecord
      simp only [htlen, hslen, hdlen, encode64_decodeLE ha, encode64_decodeLE hb,
        encode64_decodeLE hc]
      exact hrecord
  · rintro ⟨d, htype, hspace, hdcpl, rfl⟩
    exact (wellFormed_header htype hspace hdcpl d.strings).mpr (DatasetOpen.length_strings d).symm

end Records

/-! ## What a rank comes to decoding with -/

section Reader

variable {record buf : List Byte} {b : DatasetBuffer}

/-- The lengths in the buffer are those of a record that has a header. -/
theorem uint64_read (hread : load buf 8 record.length = some record) {o : Nat}
    (ho : o + 8 ≤ record.length) : uint64 buf (8 + o) = uint64 record o := by
  unfold uint64
  rw [load_load hread ho]

/-- The buffer of a rank that reads the record has it, and the decoded lengths. -/
structure Holds (record : List Byte) (b : DatasetBuffer) : Prop where
  off : b.off = 32
  read : load b.buf 8 record.length = some record
  typeLen : uint64 b.buf 8 = some b.typeLen
  spaceLen : uint64 b.buf 16 = some b.spaceLen
  dcplLen : uint64 b.buf 24 = some b.dcplLen

theorem read_of_reaches {bcast : Bool} {binOid : Nat} {m : RankMemory}
    (h : (readDatasetInfo bcast binOid record m).Reaches b) : Holds record b := by
  unfold readDatasetInfo at h
  obtain ⟨buf, hbuf, h⟩ := Proc.reaches_ofOption_bind.mp h
  obtain ⟨typeLen, htype, h⟩ := Proc.reaches_ofOption_bind.mp h
  obtain ⟨spaceLen, hspace, h⟩ := Proc.reaches_ofOption_bind.mp h
  obtain ⟨dcplLen, hdcpl, h⟩ := Proc.reaches_ofOption_bind.mp h
  have hread := load_store hbuf
  cases bcast with
  | false =>
    obtain rfl := h
    exact ⟨rfl, hread, htype, hspace, hdcpl⟩
  | true =>
    simp only [if_true] at h
    obtain ⟨buf', hbuf', h⟩ := Proc.reaches_ofOption_bind.mp h
    -- the oid is in front of the record
    have hsame : ∀ o, 8 ≤ o → ∀ len, load buf' o len = load buf o len := by
      intro o ho len
      refine load_store_of_le hbuf' ?_ len
      rwa [length_encode64, Nat.zero_add]
    suffices hb : b = ⟨buf', 32, binOid, typeLen, spaceLen, dcplLen⟩ by
      subst hb
      refine ⟨rfl, (hsame 8 le_rfl _).trans hread, ?_, ?_, ?_⟩
      · rw [← htype]
        exact congrArg _ (hsame 8 (by decide) 8)
      · rw [← hspace]
        exact congrArg _ (hsame 16 (by decide) 8)
      · rw [← hdcpl]
        exact congrArg _ (hsame 24 (by decide) 8)
    -- the broadcasts leave the variables alone
    simp only [Proc.reaches_bind] at h
    obtain ⟨_, -, _, -, _, -, h⟩ := h
    split at h
    · simp only [Proc.reaches_bind] at h
      obtain ⟨_, -, _, -, _, -, _, -, h⟩ := h
      exact Eq.symm h
    · exact Eq.symm h

theorem exists_uint64 {mem : List Byte} {off : Nat} (h : off + 8 ≤ mem.length) :
    ∃ n, uint64 mem off = some n := by
  unfold uint64 load
  rw [if_pos h]
  exact ⟨_, rfl⟩

/-- A rank that reads a record for itself comes to decoding, whatever the record is. -/
theorem exists_reaches (binOid : Nat) (record : List Byte) (m : RankMemory) :
    ∃ b, (readDatasetInfo false binOid record m).Reaches b := by
  unfold readDatasetInfo
  -- the buffer: on the heap for a long record, else the one on the stack
  set old := if decide (record.length + 8 > dinfoBufSize) = true then
    malloc m.heap (record.length + 8) else malloc m.stack dinfoBufSize with hold
  -- either holds the record behind its first eight bytes, and the lengths
  have hfit : 8 + record.length ≤ old.length ∧ 32 ≤ old.length := by
    rw [hold]
    split
    next hdyn =>
      have hlong : record.length + 8 > 1024 := of_decide_eq_true hdyn
      rw [length_malloc]
      omega
    next hdyn =>
      have hshort : ¬ record.length + 8 > 1024 := fun h => hdyn (decide_eq_true h)
      rw [length_malloc, dinfoBufSize]
      omega
  obtain ⟨buf, hbuf⟩ : ∃ buf, store old 8 record = some buf := ⟨_, if_pos hfit.1⟩
  have hlen : 32 ≤ buf.length := by
    rw [length_store hbuf]
    exact hfit.2
  -- so the three lengths can be read, whatever the record says
  obtain ⟨typeLen, htype⟩ := exists_uint64 (show 8 + 8 ≤ buf.length by omega)
  obtain ⟨spaceLen, hspace⟩ := exists_uint64 (show 16 + 8 ≤ buf.length by omega)
  obtain ⟨dcplLen, hdcpl⟩ := exists_uint64 (show 24 + 8 ≤ buf.length by omega)
  refine ⟨⟨buf, 32, binOid, typeLen, spaceLen, dcplLen⟩, ?_⟩
  refine Proc.reaches_ofOption_bind.mpr ⟨buf, hbuf, ?_⟩
  refine Proc.reaches_ofOption_bind.mpr ⟨typeLen, htype, ?_⟩
  refine Proc.reaches_ofOption_bind.mpr ⟨spaceLen, hspace, ?_⟩
  exact Proc.reaches_ofOption_bind.mpr ⟨dcplLen, hdcpl, rfl⟩

/-- Where the lengths add up, the slices are within the record. -/
theorem within_iff (h : Holds record b) :
    Within record b ↔ b.typeLen + b.spaceLen + b.dcplLen + 24 = record.length := by
  constructor
  · exact fun hwithin => hwithin.lengths
  · intro hsum
    refine ⟨hsum, h.read, ?_, ?_⟩
    · rw [h.off]
      decide
    · rw [h.off]
      omega

/-- The lengths that were decoded add up if those of the record do. -/
theorem wellFormed_iff_holds (h : Holds record b) :
    WellFormed record ↔ b.typeLen + b.spaceLen + b.dcplLen + 24 = record.length := by
  -- both sides are false of what is shorter than a header
  by_cases hlong : 24 ≤ record.length
  · have htype := h.typeLen
    have hspace := h.spaceLen
    have hdcpl := h.dcplLen
    rw [uint64_read h.read (show 0 + 8 ≤ _ by omega)] at htype
    rw [uint64_read h.read (show 8 + 8 ≤ _ by omega)] at hspace
    rw [uint64_read h.read (show 16 + 8 ≤ _ by omega)] at hdcpl
    unfold WellFormed
    simp only [htype, hspace, hdcpl, Option.some.injEq]
    constructor
    · rintro ⟨_, _, _, rfl, rfl, rfl, hsum⟩
      exact hsum
    · exact fun hsum => ⟨_, _, _, rfl, rfl, rfl, hsum⟩
  · constructor
    · rintro ⟨typeLen, spaceLen, dcplLen, -, -, -, hsum⟩
      omega
    · intro hsum
      omega

end Reader

/-! ## What the other ranks come to decoding with -/

section Receiver

variable {record first : List Byte} {b : DatasetBuffer} {m : RankMemory}

/-- The first broadcast has the header of a record. -/
theorem uint64_sent {binOid : Nat} {next : Proc Comm Byte DatasetBuffer}
    (h : readDatasetInfo true binOid record m = .send .file first next) :
    first.length = dinfoBufSize ∧ ∀ o, o + 16 ≤ dinfoBufSize → o + 8 ≤ record.length →
      uint64 first (8 + o) = uint64 record o := by
  unfold readDatasetInfo at h
  obtain ⟨buf, hbuf, h⟩ := Proc.ofOption_bind_eq_send h
  obtain ⟨typeLen, -, h⟩ := Proc.ofOption_bind_eq_send h
  obtain ⟨spaceLen, -, h⟩ := Proc.ofOption_bind_eq_send h
  obtain ⟨dcplLen, -, h⟩ := Proc.ofOption_bind_eq_send h
  simp only [if_true] at h
  obtain ⟨buf', hbuf', h⟩ := Proc.ofOption_bind_eq_send h
  obtain ⟨first', hfirst, h⟩ := Proc.ofOption_bind_eq_send (Proc.assert_bind_eq_send h)
  obtain rfl : first' = first := Proc.bcastSend_bind_eq_send h
  have hread : load buf' 8 record.length = some record := by
    rw [← load_store hbuf]
    refine load_store_of_le hbuf' ?_ _
    rw [length_encode64]
  refine ⟨length_load hfirst, fun o ho hle => ?_⟩
  rw [← uint64_read hread hle]
  unfold uint64
  rw [← load_load hfirst (show 8 + o + 8 ≤ dinfoBufSize by omega), Nat.zero_add]

/-- A rank that receives has the lengths of the broadcast. -/
theorem received_of_reaches (hlen : 32 ≤ first.length)
    (h : (receiveDatasetInfo m first).Reaches b) :
    uint64 first 8 = some b.typeLen ∧ uint64 first 16 = some b.spaceLen ∧
      uint64 first 24 = some b.dcplLen := by
  unfold receiveDatasetInfo at h
  obtain ⟨static, hstatic, h⟩ := Proc.reaches_ofOption_bind.mp h
  -- the message is at the start of the receiver's buffer
  have hsame : ∀ o, o + 8 ≤ first.length → uint64 static o = uint64 first o := by
    intro o ho
    unfold uint64
    rw [← load_load (load_store hstatic) ho, Nat.zero_add]
  -- the id and the three lengths are read from it before anything else
  obtain ⟨binOid, -, h⟩ := Proc.reaches_ofOption_bind.mp h
  obtain ⟨typeLen, htype, h⟩ := Proc.reaches_ofOption_bind.mp h
  obtain ⟨spaceLen, hspace, h⟩ := Proc.reaches_ofOption_bind.mp h
  obtain ⟨dcplLen, hdcpl, h⟩ := Proc.reaches_ofOption_bind.mp h
  rw [hsame 8 (by omega)] at htype
  rw [hsame 16 (by omega)] at hspace
  rw [hsame 24 (by omega)] at hdcpl
  suffices hb : b.typeLen = typeLen ∧ b.spaceLen = spaceLen ∧ b.dcplLen = dcplLen by
    rw [hb.1, hb.2.1, hb.2.2]
    exact ⟨htype, hspace, hdcpl⟩
  simp only at h
  -- a long message is received again, which leaves the lengths as they are
  split at h
  · simp only [Proc.reaches_bind] at h
    obtain ⟨_, -, _, -, _, -, rfl⟩ := h
    exact ⟨rfl, rfl, rfl⟩
  · obtain rfl := h
    exact ⟨rfl, rfl, rfl⟩

end Receiver

/-! ## Exactly which records are guarded against -/

section Iff

variable {record : List Byte}

/-- A rank that reads a record for itself comes to decoding, so that its lengths have to add up. -/
theorem wellFormed_of_guarded (h : Guarded record) : WellFormed record := by
  obtain ⟨b, hb⟩ := exists_reaches 0 record ⟨fun _ => 0, fun _ => 0⟩
  have hwithin := h.readers false 0 _ b hb
  exact (wellFormed_iff_holds (read_of_reaches hb)).mpr hwithin.lengths

/-- All ranks have the lengths of the record. -/
theorem guarded_of_wellFormed (h : WellFormed record) : Guarded record := by
  constructor
  case readers =>
    intro bcast binOid m b hb
    have hholds := read_of_reaches hb
    exact (within_iff hholds).mpr ((wellFormed_iff_holds hholds).mp h)
  case receivers =>
    intro binOid m₀ first next hsend m b hb
    obtain ⟨typeLen, spaceLen, dcplLen, htype, hspace, hdcpl, hsum⟩ := h
    obtain ⟨hlen, hheader⟩ := uint64_sent hsend
    have hroom : 32 ≤ dinfoBufSize := by decide
    have hlong : 32 ≤ first.length := by rwa [hlen]
    obtain ⟨htype', hspace', hdcpl'⟩ := received_of_reaches hlong hb
    -- the lengths of the broadcast are those of the record
    rw [hheader 0 (by omega) (by omega), htype] at htype'
    rw [hheader 8 (by omega) (by omega), hspace] at hspace'
    rw [hheader 16 (by omega) (by omega), hdcpl] at hdcpl'
    rw [← Option.some.inj htype', ← Option.some.inj hspace', ← Option.some.inj hdcpl']
    exact hsum

/-- **Which malformed records are rejected.**  For every byte string that is stored as the metadata
of a dataset, whatever memory held before: every rank that comes to decoding, one that reads the
record and one that receives it, does so with lengths that add up and with slices within the
record if and only if the record has a header whose lengths, as integers, add up to its length.
No other record is rejected. -/
theorem guarded_iff (record : List Byte) : Guarded record ↔ WellFormed record :=
  ⟨wellFormed_of_guarded, guarded_of_wellFormed⟩

end Iff

/-! ## Two malformed records -/

/-- A header with the length of a type of 1000 bytes, without the type. -/
def truncated : List Byte := encode64 1000 ++ (encode64 0 ++ (encode64 0 ++ []))

/-- A header with lengths whose sum wraps to 0. -/
def wrapping : List Byte := encode64 18446744073709551615 ++ (encode64 1 ++ (encode64 0 ++ []))

/-- Both are decoded, the second one without a message. -/
theorem malformed_not_guarded : ¬ Guarded truncated ∧ ¬ Guarded wrapping := by
  constructor
  · intro h
    have hsum := (wellFormed_header (by decide) (by decide) (by decide) []).mp
      (wellFormed_of_guarded h)
    exact absurd hsum (by decide)
  · intro h
    have hsum := (wellFormed_header (by decide) (by decide) (by decide) []).mp
      (wellFormed_of_guarded h)
    exact absurd hsum (by decide)

end DTIO.Properties.DatasetRecords
