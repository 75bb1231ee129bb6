import DTIO.Vol.Background

/-!
# Conversion in a Read

The branch of `H5VL_dtio_dataset_read` for a chunk whose datatypes differ
(`adapter/vol/vol-old/H5VLDTIO.cc`).  If the selection in memory is contiguous, one of the two
buffers of the conversion may lie in the buffer of the application.

The datatypes are those of an entry of the arrays; the caller of this branch passes an array
itself (see `Transfer`).

## Main definitions

- `contigMemory`: whether the selection is contiguous, and where it begins
- `readConverted`: one chunk

## Main results

- `contig_bytes_lt`: a contiguous selection ends where its elements do
- `readConverted_inPlace`: a chunk that is converted in the buffer of the application
-/

namespace DTIO.Vol

open DTIO.Posix DTIO.MachineInt DTIO.Memory

/-! ## Where the buffers lie -/

/-- The place of a buffer: the buffer of the application from a byte on, or memory of the
function. -/
inductive Place where
  | application (off : Nat)
  | own
  deriving DecidableEq, Repr

/-- The first sequence of the selection in memory, of elements of one byte. -/
def firstSequence (iter : SelIter) (space : Dataspace) : Except Stop Run :=
  orFault ((iter.batches space 1 1).head?.bind fun b => b.runs.head?)

/-- `contig` and `sel_off`. -/
def contigMemory (iter : SelIter) (space : Dataspace) (memTypeSize : Nat) :
    Except Stop (Bool × Nat) :=
  (firstSequence iter space).map fun r =>
    (decide (r.len = space.npoints), toUnsigned64 ((r.off * memTypeSize : Nat) : Int))

/-- A buffer that `reuse` allows to lie in the buffer of the application. -/
def findPlace (reuse wanted : Reuse) (sel : Bool × Nat) : Place :=
  if sel.1 ∧ reuse = wanted then .application sel.2 else .own

/-- The memory of a read: the buffer of the application, and `tmp_tconv_buf` and `tmp_bkg_buf`. -/
structure ReadMemory where
  buf : List Byte
  tmpTconv : Ptr (List Byte)
  tmpBkg : Ptr (List Byte)
  deriving DecidableEq, Repr

/-- Memory that an earlier chunk may have allocated. -/
def Ptr.orMalloc (p : Ptr (List Byte)) (fresh : List Byte) : Ptr (List Byte) :=
  match p with
  | .null => .live fresh
  | p => p

/-- The two buffers are allocated where they are needed. -/
def ReadMemory.allocate (env : Env) (t : Tconv) (numElemChunk : Nat) (inTconv inBkg : Place)
    (m : ReadMemory) : ReadMemory where
  buf := m.buf
  tmpTconv :=
    if inTconv = .own then
      m.tmpTconv.orMalloc (mallocSize env (numElemChunk * max t.srcTypeSize t.dstTypeSize))
    else m.tmpTconv
  tmpBkg :=
    if t.needBkg ∧ inBkg = .own then
      m.tmpBkg.orMalloc (mallocSize env (numElemChunk * t.dstTypeSize))
    else m.tmpBkg

@[simp] theorem ReadMemory.allocate_buf (env : Env) (t : Tconv) (numElemChunk : Nat)
    (inTconv inBkg : Place) (m : ReadMemory) :
    (m.allocate env t numElemChunk inTconv inBkg).buf = m.buf := rfl

/-- A background that is there is kept. -/
theorem ReadMemory.allocate_tmpBkg (env : Env) (t : Tconv) (numElemChunk : Nat)
    (inTconv inBkg : Place) {m : ReadMemory} {b : List Byte} (h : m.tmpBkg = .live b) :
    (m.allocate env t numElemChunk inTconv inBkg).tmpBkg = .live b := by
  simp [allocate, h, Ptr.orMalloc]

/-- What a pointer to a buffer points to. -/
def region (buf : List Byte) (tmp : Ptr (List Byte)) : Place → Except Stop (List Byte)
  | .application off => if off ≤ buf.length then .ok (buf.drop off) else .error .fault
  | .own => tmp.deref

/-- The buffer of the application when a buffer at this place has changed. -/
def putBuf (buf mem : List Byte) : Place → List Byte
  | .application off => buf.take off ++ mem
  | .own => buf

/-- A buffer of the function when it has changed. -/
def putTmp (tmp : Ptr (List Byte)) (mem : List Byte) : Place → Ptr (List Byte)
  | .application _ => tmp
  | .own => .live mem

/-! ## One chunk -/

/-- `H5Dgather` from the buffer of the application. -/
def gatherFrom (space : Dataspace) (buf : List Byte) (size : Nat) (dst : List Byte) :
    Except Stop (List Byte) := do
  let data ← orFault ((space.bytes size).mapM fun i => buf[i]?)
  orFault (store dst 0 data)

/-- `H5Dscatter` of the elements in a buffer. -/
def scatterTo (space : Dataspace) (buf : List Byte) (size : Nat) (src : List Byte) :
    Except Stop (List Byte) := do
  let data ← orFault (load src 0 (space.npoints * size))
  orFault (((space.bytes size).zip data).foldlM (fun buf x => store buf x.1 [x.2]) buf)

/-- The background of a conversion: a buffer of its own is filled from the buffer of the
application, which the read may have written to. -/
def readBackground (t : Tconv) (mspace : Dataspace) (buf : List Byte) (tmpBkg : Ptr (List Byte))
    (inBkg : Place) : Except Stop (Option (List Byte)) :=
  if t.needBkg then do
    let bkg ← region buf tmpBkg inBkg
    if t.fillBkg ∧ inBkg = .own then
      return some (← gatherFrom mspace buf t.dstTypeSize bkg)
    else return some bkg
  else .ok none

/-- `H5Tconvert` on the first elements of two buffers that may be longer. -/
def convertFirst (env : Env) (src dst : Datatype) (n : Nat) (tconv : List Byte)
    (bkg : Option (List Byte)) : Except Stop (List Byte × Option (List Byte)) :=
  let size := n * max src.size dst.size
  let bkgSize := n * dst.size
  (hConvert env src dst n (tconv.take size) (bkg.map fun b => b.take bkgSize)).map fun done =>
    (done.1 ++ tconv.drop size,
      done.2.bind fun done => bkg.map fun b => done ++ b.drop bkgSize)

/-- One chunk of a read with conversion. -/
def readConverted (env : Env) (fileType memType : Datatype) (t : Tconv) (numElemChunk : Nat)
    (info : ChunkInfo) (key : Key) (σ : Store) (m : ReadMemory) : Except Stop ReadMemory := do
  let numElem := info.mspace.npoints
  let sel ← contigMemory env.iter info.mspace t.dstTypeSize
  let inTconv := findPlace t.reuse .tconv sel
  let inBkg := findPlace t.reuse .bkg sel
  let m := m.allocate env t numElemChunk inTconv inBkg
  let op ← buildIoOpContig env.iter info.fspace t.srcTypeSize numElem
  let tconv ← region m.buf m.tmpTconv inTconv
  let tconv ← readOpOperate op key σ tconv
  let buf := putBuf m.buf tconv inTconv
  let bkg ← readBackground t info.mspace buf m.tmpBkg inBkg
  let done ← convertFirst env fileType memType numElem tconv bkg
  let buf := putBuf buf done.1 inTconv
  let buf := done.2.elim buf fun b => putBuf buf b inBkg
  let tmpBkg := done.2.elim m.tmpBkg fun b => putTmp m.tmpBkg b inBkg
  let buf ← if inTconv = .own then scatterTo info.mspace buf t.dstTypeSize done.1 else .ok buf
  return ⟨buf, putTmp m.tmpTconv done.1 inTconv, tmpBkg⟩

/-! ## In the buffer of the application -/

section InPlace

variable {env : Env} {space : Dataspace} {size : Nat}

/-- The elements of a selection of bytes are its points. -/
theorem bytes_one (space : Dataspace) :
    space.bytes 1 = space.points.map (Grid.rowMajor space.extent) := by
  simp [Dataspace.bytes, ← List.map_eq_flatMap]

/-- The first sequence is where the selection begins; it is all of it if it is as long. -/
theorem firstSequence_spec (iter : SelIter) (hspace : space.Valid) {r : Run}
    (h : firstSequence iter space = .ok r) (hlen : r.len = space.npoints) :
    space.points.map (Grid.rowMajor space.extent) = r.bytes := by
  -- the sequences of elements of one byte are the points in order
  have horder := iter.order hspace one_pos one_pos
  obtain ⟨b, hb, hr⟩ := Option.bind_eq_some_iff.mp (orFault_eq_ok.mp h)
  obtain ⟨bs, hbatches⟩ := List.head?_eq_some_iff.mp hb
  obtain ⟨runs, hruns⟩ := List.head?_eq_some_iff.mp hr
  rw [hbatches, bytes_one] at horder
  simp only [batchBytes, List.flatMap_cons, hruns, List.append_assoc] at horder
  have hinitial : r.bytes <+: space.points.map (Grid.rowMajor space.extent) := ⟨_, horder⟩
  have hbytes : r.bytes.length = (space.points.map (Grid.rowMajor space.extent)).length := by
    simp [Run.bytes, hlen, Dataspace.npoints]
  exact (hinitial.eq_of_length hbytes).symm

/-- The bytes of a contiguous selection end where its elements do. -/
theorem contig_bytes_lt {iter : SelIter} (hspace : space.Valid) {r : Run}
    (h : firstSequence iter space = .ok r) (hlen : r.len = space.npoints) {i : Nat}
    (hi : i ∈ space.bytes size) : i < (r.off + r.len) * size := by
  have hpoints := firstSequence_spec iter hspace h hlen
  obtain ⟨p, hp, hi⟩ := List.mem_flatMap.mp hi
  obtain ⟨j, hj, rfl⟩ := List.mem_map.mp hi
  have hrow : Grid.rowMajor space.extent p ∈ r.bytes := hpoints ▸ List.mem_map_of_mem hp
  obtain ⟨k, hk, heq⟩ := List.mem_map.mp hrow
  have hlt : Grid.rowMajor space.extent p + 1 ≤ r.off + r.len := by
    have hk' := List.mem_range.mp hk
    omega
  calc Grid.rowMajor space.extent p * size + j
      < Grid.rowMajor space.extent p * size + size :=
        Nat.add_lt_add_left (List.mem_range.mp hj) _
    _ = (Grid.rowMajor space.extent p + 1) * size := (Nat.succ_mul _ _).symm
    _ ≤ (r.off + r.len) * size := Nat.mul_le_mul_right _ hlt

theorem gatherFrom_ok {buf dst : List Byte} (hbuf : ∀ i ∈ space.bytes size, i < buf.length)
    (hdst : space.npoints * size ≤ dst.length) :
    ∃ dst', gatherFrom space buf size dst = .ok dst' ∧ dst'.length = dst.length := by
  -- all the bytes are in the buffer
  have hdata : (space.bytes size).mapM (fun i => buf[i]?) =
      some ((space.bytes size).map fun i => buf.getD i 0) := by
    generalize space.bytes size = is at hbuf
    induction is with
    | nil => rfl
    | cons i is ih =>
      have hi : buf[i]? = some (buf.getD i 0) := by
        simp [List.getD_eq_getElem?_getD, hbuf i List.mem_cons_self]
      have his := ih fun j hj => hbuf j (List.mem_cons_of_mem _ hj)
      simp only [List.mapM_cons, hi, his]
      rfl
  -- and there is room for them
  have hfit : 0 + ((space.bytes size).map fun i => buf.getD i 0).length ≤ dst.length := by
    rw [List.length_map, length_bytes, Nat.zero_add]
    exact hdst
  obtain ⟨dst', hstore⟩ : ∃ dst', store dst 0 ((space.bytes size).map fun i => buf.getD i 0) =
      some dst' := ⟨_, if_pos hfit⟩
  refine ⟨dst', ?_, length_store hstore⟩
  unfold gatherFrom
  rw [hdata, orFault_some, ok_bind, hstore, orFault_some]

/-- `H5Tconvert` needs its elements of the larger type, and those of the background. -/
theorem convertFirst_isOk {src dst : Datatype} {n : Nat} {tconv : List Byte}
    {bkg : Option (List Byte)} :
    (∃ done, convertFirst env src dst n tconv bkg = .ok done) ↔
      n * max src.size dst.size ≤ tconv.length ∧ ∀ b ∈ bkg, n * dst.size ≤ b.length := by
  have hfits : (n * max src.size dst.size ≤ (tconv.take (n * max src.size dst.size)).length ∧
      ∀ b ∈ bkg.map fun b => b.take (n * dst.size), n * dst.size ≤ b.length) ↔
        n * max src.size dst.size ≤ tconv.length ∧ ∀ b ∈ bkg, n * dst.size ≤ b.length := by
    simp [List.length_take]
  unfold convertFirst hConvert
  simp only [hfits]
  by_cases h : n * max src.size dst.size ≤ tconv.length ∧ ∀ b ∈ bkg, n * dst.size ≤ b.length
  · simp only [if_pos h]
    exact iff_of_true ⟨_, rfl⟩ h
  · simp only [if_neg h]
    exact iff_of_false (by rintro ⟨_, hdone⟩; cases hdone) h

theorem readBackground_ok {t : Tconv} {buf : List Byte} {tmpBkg : Ptr (List Byte)}
    (hbuf : ∀ i ∈ space.bytes t.dstTypeSize, i < buf.length)
    (htmp : t.needBkg = true → ∃ b, tmpBkg = .live b ∧
      space.npoints * t.dstTypeSize ≤ b.length) :
    ∃ bkg, readBackground t space buf tmpBkg .own = .ok bkg ∧
      ∀ b ∈ bkg, space.npoints * t.dstTypeSize ≤ b.length := by
  unfold readBackground
  by_cases hneed : t.needBkg = true
  -- the background buffer is there when one is needed
  · obtain ⟨b, rfl, hroom⟩ := htmp hneed
    simp only [if_pos hneed, region, Ptr.deref, ok_bind]
    -- it is filled from the application's buffer, or used as it is
    by_cases hfill : t.fillBkg = true
    · obtain ⟨b', hgather, hlen⟩ := gatherFrom_ok hbuf hroom
      refine ⟨some b', ?_, ?_⟩
      · simp only [hfill, and_self, if_true, hgather]
        rfl
      · rintro b'' ⟨⟩
        rw [hlen]
        exact hroom
    · refine ⟨some b, ?_, ?_⟩
      · simp only [hfill, Bool.false_eq_true, false_and, if_false]
        rfl
      · rintro b'' ⟨⟩
        exact hroom
  -- none is needed, and none is passed on
  · refine ⟨none, if_neg hneed, ?_⟩
    rintro b ⟨⟩

/-- A chunk whose selection is contiguous in memory and ends with the buffer of the application;
a background is there if it is needed. -/
structure ContigChunk (iter : SelIter) (memSize : Nat) (needBkg : Bool) (info : ChunkInfo)
    (m : ReadMemory) : Prop where
  fspace : info.fspace.Valid
  mspace : info.mspace.Valid
  count : info.mspace.npoints = info.fspace.npoints
  pos : 0 < info.mspace.npoints
  contig : ∃ r, firstSequence iter info.mspace = .ok r ∧ r.len = info.mspace.npoints ∧
    m.buf.length = (r.off + r.len) * memSize
  addressable : m.buf.length < 18446744073709551616
  bkg : needBkg = true → ∃ b, m.tmpBkg = .live b ∧ info.mspace.npoints * memSize ≤ b.length

/-- Where a contiguous selection begins: from there on the buffer of the application has nothing
but the selection. -/
theorem ContigChunk.exists_start {memSize : Nat} {needBkg : Bool} {info : ChunkInfo}
    {m : ReadMemory} (h : ContigChunk env.iter memSize needBkg info m) :
    ∃ off, contigMemory env.iter info.mspace memSize = .ok (true, off) ∧ off ≤ m.buf.length ∧
      (m.buf.drop off).length = info.mspace.npoints * memSize ∧
      ∀ i ∈ info.mspace.bytes memSize, i < m.buf.length := by
  obtain ⟨r, hr, hrlen, hbuf⟩ := h.contig
  have hoff : r.off * memSize ≤ m.buf.length := by
    rw [hbuf, Nat.add_mul]
    exact Nat.le_add_right _ _
  refine ⟨r.off * memSize, ?_, hoff, ?_, fun i hi => ?_⟩
  · have hlt := lt_of_le_of_lt hoff h.addressable
    have hwrap : toUnsigned64 ((r.off * memSize : Nat) : Int) = r.off * memSize :=
      toUnsigned64_of_lt (by omega)
    unfold contigMemory
    rw [hr]
    simp only [Except.map, hrlen, hwrap, decide_true]
  · rw [List.length_drop, hbuf, hrlen, Nat.add_mul, Nat.add_sub_cancel_left]
  · rw [hbuf]
    exact contig_bytes_lt h.mspace hr hrlen hi

/-- **Conversion in place.**  The selection has room for the read and for the conversion if and
only if the elements in memory are as large as those in the file. -/
theorem readConverted_inPlace {src dst : Datatype} {t : Tconv} {info : ChunkInfo} {m : ReadMemory}
    (hsrc : 0 < src.size) (hsizes : t.srcTypeSize = src.size ∧ t.dstTypeSize = dst.size)
    (hreuse : t.reuse = .tconv) (h : ContigChunk env.iter dst.size t.needBkg info m)
    (numElemChunk : Nat) (key : Key) (σ : Store) :
    (∃ m', readConverted env src dst t numElemChunk info key σ m = .ok m') ↔
      src.size ≤ dst.size := by
  obtain ⟨off, hsel, hoff, hregion, hbytes_lt⟩ := h.exists_start
  rw [← hsizes.2] at hsel
  have htconv : findPlace t.reuse .tconv (true, off) = .application off := by
    simp [findPlace, hreuse]
  have hbkg : findPlace t.reuse .bkg (true, off) = .own := by simp [findPlace, hreuse]
  -- the conversion is in the buffer of the application, its background is not
  obtain ⟨runs, hop, hbytes⟩ := buildIoOpContig_spec env.iter h.fspace hsrc (h.count ▸ h.pos)
  have hsum : (runs.map Run.len).sum = info.mspace.npoints * src.size := by
    rw [h.count]
    exact sum_len hbytes
  rw [← h.count] at hop
  unfold readConverted
  have hstart : ∀ tmp, region m.buf tmp (.application off) = .ok (m.buf.drop off) :=
    fun _ => if_pos hoff
  simp only [hsel, ok_bind, htconv, hbkg, hsizes.1, hop, ReadMemory.allocate_buf, hstart]
  constructor
  · rintro ⟨m', hdone⟩
    obtain ⟨tconv, hread, hdone⟩ := bind_eq_ok.mp hdone
    obtain ⟨bkg, -, hdone⟩ := bind_eq_ok.mp hdone
    obtain ⟨done, hconvert, -⟩ := bind_eq_ok.mp hdone
    -- all that is left of the buffer is what the conversion can use
    have hroom := (convertFirst_isOk.mp ⟨done, hconvert⟩).1
    rw [length_readOp hread, hregion] at hroom
    exact (le_max_left ..).trans (Nat.le_of_mul_le_mul_left hroom h.pos)
  · intro hle
    have hfit : 0 + (runs.map Run.len).sum ≤ (m.buf.drop off).length := by
      rw [hsum, hregion, Nat.zero_add]
      exact Nat.mul_le_mul_left _ hle
    obtain ⟨tconv, hread, hlen, -⟩ := readContiguous_spec (σ.object key) hfit
    have hread' : readOpOperate (contiguous runs 0) key σ (m.buf.drop off) = .ok tconv :=
      orFault_eq_ok.mpr hread
    have hput : (putBuf m.buf tconv (.application off)).length = m.buf.length := by
      simp only [putBuf, List.length_append, List.length_take, hlen, List.length_drop]
      omega
    have hinside : ∀ i ∈ info.mspace.bytes t.dstTypeSize,
        i < (putBuf m.buf tconv (.application off)).length := by
      rw [hsizes.2, hput]
      exact hbytes_lt
    have htmp : t.needBkg = true → ∃ b, (m.allocate env t numElemChunk
        (.application off) .own).tmpBkg = .live b ∧
          info.mspace.npoints * t.dstTypeSize ≤ b.length := by
      intro hneed
      obtain ⟨b, hb, hroom⟩ := h.bkg hneed
      rw [hsizes.2]
      exact ⟨b, ReadMemory.allocate_tmpBkg _ _ _ _ _ hb, hroom⟩
    obtain ⟨bkg, hback, hroom⟩ := readBackground_ok hinside htmp
    rw [hsizes.2] at hroom
    have hconvert : info.mspace.npoints * max src.size dst.size ≤ tconv.length := by
      rw [hlen, hregion, max_eq_right hle]
    obtain ⟨done, hdone⟩ : ∃ done, convertFirst env src dst info.mspace.npoints tconv bkg =
        .ok done := convertFirst_isOk.mpr ⟨hconvert, hroom⟩
    simp only [hread', ok_bind, hback, hdone, reduceCtorEq, if_false]
    exact ⟨_, rfl⟩

end InPlace

end DTIO.Vol
