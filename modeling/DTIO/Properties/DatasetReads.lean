import DTIO.Properties.ChunkedStorage

/-!
# Reading Datasets

A read finds the chunks that its file selection touches, and takes what their objects have to the
places of the memory selection.  The elements that were written come back, whatever the layout, the
order of the writes and the cuts of the sequence lists.

The data land in the array that is passed as `buf`, and the memory type is not looked at: this is
what `H5VL_dtio_dataset_read` does with one dataset.

## Main definitions

- `Present`: a byte that an object has
- `ArrayRead`: reads as HDF5 admits them
- `delivered`: what a read assigns to the array

## Main results

- `run_present`, `run_frame`: what a write leaves in the objects
- `ArrayRead.run_spec`: one read
- `read_written`: a read after any writes
-/

namespace DTIO.Properties.DatasetReads

open DTIO.Posix DTIO.Grid DTIO.Assignment DTIO.MachineInt DTIO.Vol
open DTIO.Properties.ChunkedStorage

/-! ## What writes leave in the objects -/

/-- An object is long enough for the byte at a location. -/
def Present (σ : Store) (loc : Key × Nat) : Prop := loc.2 < (σ.object loc.1).length

instance (σ : Store) (loc : Key × Nat) : Decidable (Present σ loc) :=
  inferInstanceAs (Decidable (loc.2 < (σ.object loc.1).length))

/-- No byte disappears. -/
def Keeps (σ σ' : Store) : Prop := ∀ loc, Present σ loc → Present σ' loc

theorem Keeps.trans {σ σ₁ σ' : Store} (h : Keeps σ σ₁) (h' : Keeps σ₁ σ') : Keeps σ σ' :=
  fun loc hloc => h' loc (h loc hloc)

/-- A write operation makes its object longer if necessary. -/
theorem writeOp_present {buf : Buffer} {op : List Vol.Entry} {key : Key} {σ σ' : Store}
    (h : writeOpOperate (userData buf) op key σ = .ok σ') :
    Keeps σ σ' ∧ ∀ x ∈ opBytes op, Present σ' (key, x.1) := by
  unfold writeOpOperate at h
  rw [foldlM_writeEntry] at h
  cases h
  obtain ⟨hle, hmem⟩ := length_writeBytes buf (opBytes op) (σ.object key)
  -- the object after the triples of the operation, byte by byte
  have hobject : Store.object (Function.update σ key
      (some ((opBytes op).foldl (writeByte buf) (σ.object key)))) key =
      (opBytes op).foldl (writeByte buf) (σ.object key) := by
    rw [Store.object, Function.update_self, Option.getD_some]
  constructor
  · rintro ⟨key', i⟩ hi
    unfold Present at hi ⊢
    -- the object that is written gets no shorter, and no other one is concerned
    by_cases hk : key' = key
    · subst hk
      rw [hobject]
      exact hi.trans_le hle
    · rw [Store.object, Function.update_of_ne hk]
      exact hi
  · intro x hx
    unfold Present
    rw [hobject]
    exact hmem x hx

section Present

variable {d : ArrayDataset} (w : ArrayWrite d) {env : Env}

/-- One chunk. -/
theorem writeChunk_present {single : Bool} {info : ChunkInfo} (hp : Piece w info)
    {L : WriteLocals} (hequal : L.tconv.typesEqual = true)
    (hsize : L.tconv.srcTypeSize = d.type.size) {σ : Store} {s : WriteLocals × Store}
    (h : writeChunk env w.req w.buf single (L, σ) info = .ok s) :
    Keeps σ s.2 ∧ ∀ x ∈ w.pairs, chunkStart d.toDataset x.1 = startOf d.toDataset info →
      ∀ j < d.type.size, Present s.2 (location d.toDataset x.1 j) := by
  unfold writeChunk at h
  obtain ⟨oid, hoid, h⟩ := bind_eq_ok.mp h
  obtain ⟨-, rfl⟩ := oidCreateChunk_live hoid
  obtain ⟨key, hkey, h⟩ := bind_eq_ok.mp h
  cases hkey
  rw [if_pos hequal] at h
  obtain ⟨σ', hwrite, h⟩ := bind_eq_ok.mp h
  cases h
  unfold writeEqual at hwrite
  rw [hsize] at hwrite
  obtain ⟨op, hop, hwrite⟩ := bind_eq_ok.mp hwrite
  obtain ⟨op', hop', hbytes⟩ := buildEqual_spec w env single hp
  obtain rfl := Except.ok.inj (hop.symm.trans hop')
  obtain ⟨hkeeps, hpresent⟩ := writeOp_present hwrite
  refine ⟨hkeeps, fun x hx hstart j hj => ?_⟩
  -- the pair of the element is one of the chunk
  have hpair : (place d.toDataset x.1, x.2) ∈ info.fspace.points.zip info.mspace.points := by
    rw [hp.pairs]
    exact List.mem_map_of_mem (List.mem_filter.mpr ⟨hx, decide_eq_true hstart⟩)
  have hname : objectName d.toDataset (chunkStart d.toDataset x.1) =
      objectName d.toDataset info.chunkCoords := by
    rw [hstart, objectName_chunkCoords]
  have hmem : (rowMajor (blockDims d.toDataset) (place d.toDataset x.1) * d.type.size + j,
      rowMajor info.mspace.extent x.2 * d.type.size + j) ∈ opBytes op := by
    rw [hbytes, zip_bytes _ hp.count.symm, hp.fileExtent]
    exact List.mem_flatMap.mpr ⟨_, hpair, List.mem_map_of_mem (List.mem_range.mpr hj)⟩
  unfold location
  rw [hname]
  exact hpresent _ hmem

/-- All chunks. -/
theorem writeChunks_present {single : Bool} {infos : List ChunkInfo} :
    ∀ {L : WriteLocals} {σ : Store} {s : WriteLocals × Store}, (∀ info ∈ infos, Piece w info) →
      L.tconv.typesEqual = true → L.tconv.srcTypeSize = d.type.size →
      infos.foldlM (writeChunk env w.req w.buf single) (L, σ) = .ok s →
      Keeps σ s.2 ∧ ∀ x ∈ w.pairs, chunkStart d.toDataset x.1 ∈ infos.map (startOf d.toDataset) →
        ∀ j < d.type.size, Present s.2 (location d.toDataset x.1 j) := by
  induction infos with
  | nil =>
    intro L σ s _ _ _ h
    cases h
    exact ⟨fun _ => id, nofun⟩
  | cons info infos ih =>
    intro L σ s hpieces hequal hsize h
    obtain ⟨⟨L₁, σ₁⟩, hchunk, h⟩ := bind_eq_ok.mp h
    have htconv : L₁.tconv = L.tconv := (writeChunk_ok hchunk).2.2
    -- what the first chunk leaves is there after the other ones
    obtain ⟨hkeeps, hfirst⟩ :=
      writeChunk_present w (hpieces info List.mem_cons_self) hequal hsize hchunk
    obtain ⟨hkeeps', hrest⟩ := ih (fun i hi => hpieces i (List.mem_cons_of_mem _ hi))
      (by rw [htconv]; exact hequal) (by rw [htconv]; exact hsize) h
    refine ⟨hkeeps.trans hkeeps', fun x hx hstart j hj => ?_⟩
    rw [List.map_cons] at hstart
    rcases List.mem_cons.mp hstart with hstart | hstart
    · exact hkeeps' _ (hfirst x hx hstart j hj)
    · exact hrest x hx hstart j hj

/-- Nothing is paired if nothing is selected. -/
theorem pairs_eq_nil (hnone : w.file.npoints = 0) : w.pairs = [] := by
  have hnil : w.file.points = [] := List.length_eq_zero_iff.mp hnone
  rw [ArrayWrite.pairs, hnil, List.zip_nil_left]

/-- The chunks of a write that selects something, and the variables before the first of them. -/
structure Chunks (infos : List ChunkInfo) (L : WriteLocals) : Prop where
  select : ∃ closeSpaces, selectChunks w.req w.file w.mem .null false =
    .ok (.live infos, closeSpaces)
  pieces : Pieces w infos
  equal : L.tconv.typesEqual = true
  size : L.tconv.srcTypeSize = d.type.size
  oid : OidFits d.toDataset L.chunkOid

/-- A write that succeeds selects nothing, or writes its chunks in order. -/
theorem run_ok {σ σ' : Store} (h : w.run env σ = .ok σ') :
    (w.file.npoints = 0 ∧ σ' = σ) ∨ w.file.npoints ≠ 0 ∧
      ∃ infos L s, Chunks w infos L ∧
        infos.foldlM (writeChunk env w.req w.buf (infos.length == 1)) (L, σ) = .ok s ∧
        σ' = s.2 := by
  unfold ArrayWrite.run datasetWrite at h
  by_cases hne : w.file.npoints = 0
  · rw [show writeIteration env w.req w.buf .init σ = .ok (.returns σ) from if_pos hne] at h
    cases h
    exact Or.inl ⟨hne, rfl⟩
  · obtain ⟨infos, closeSpaces, hselect, hpieces⟩ := pieces w hne
    rw [show writeIteration env w.req w.buf .init σ = writeDataset env w.req w.buf .init σ from
      if_neg hne] at h
    cases hwrite : writeDataset env w.req w.buf .init σ with
    | error e =>
      rw [hwrite] at h
      cases h
    | ok step =>
      obtain ⟨t, selected, first, rest, done, L', ht, hselected, hdone, -, -, -, rfl⟩ :=
        writeDataset_ok hwrite
      rw [hwrite] at h
      cases h
      obtain rfl := Option.some.inj ((tconvInit_equal env.dstAbove d.type).symm.trans ht)
      have hinfos : infos = first :: rest := by
        have hsame := Except.ok.inj (hselect.symm.trans hselected)
        exact Ptr.live.inj (Prod.mk.inj hsame).1
      subst hinfos
      refine Or.inr ⟨hne, _, _, _, ⟨⟨_, hselect⟩, hpieces, rfl, rfl, ?_⟩, hdone, rfl⟩
      -- `chunk_oid` is null
      exact trivial

/-- **What a write leaves.**  No byte disappears, and all bytes of the elements that are written
are there. -/
theorem run_present {σ σ' : Store} (h : w.run env σ = .ok σ') :
    Keeps σ σ' ∧ ∀ x ∈ w.pairs, ∀ j < d.type.size, Present σ' (location d.toDataset x.1 j) := by
  obtain ⟨hnone, rfl⟩ | ⟨-, infos, L, s, hc, hdone, rfl⟩ := run_ok w h
  · rw [pairs_eq_nil w hnone]
    exact ⟨fun _ => id, nofun⟩
  · obtain ⟨hkeeps, hpresent⟩ := writeChunks_present w hc.pieces.piece hc.equal hc.size hdone
    exact ⟨hkeeps, fun x hx => hpresent x hx (hc.pieces.covers x hx)⟩

/-- **Frame.**  A write concerns objects whose names have a coordinate for each dimension. -/
theorem run_frame {σ σ' : Store} (h : w.run env σ = .ok σ') {key : Key}
    (hkey : ∀ start, d.extent.length ≤ start.length → key ≠ objectName d.toDataset start) :
    σ' key = σ key := by
  obtain ⟨-, rfl⟩ | ⟨-, infos, L, s, hc, hdone, rfl⟩ := run_ok w h
  · rfl
  · exact writeChunks_frame (fun info hinfo => hkey _ (hc.pieces.piece info hinfo).room) hdone

end Present

/-- The elements that some write selects. -/
def Written {d : ArrayDataset} (ws : List (ArrayWrite d)) (y : Coord) : Prop :=
  ∃ w ∈ ws, y ∈ w.file.points

/-- A sequence of writes. -/
theorem runAll_present {d : ArrayDataset} {env : Env} {ws : List (ArrayWrite d)} :
    ∀ {σ σ' : Store}, runAll env ws σ = .ok σ' →
      Keeps σ σ' ∧
        ∀ y, Written ws y → ∀ j < d.type.size, Present σ' (location d.toDataset y j) := by
  induction ws with
  | nil =>
    intro σ σ' h
    cases h
    exact ⟨fun _ => id, fun y hy => by obtain ⟨w, hw, -⟩ := hy; cases hw⟩
  | cons w ws ih =>
    intro σ σ' h
    obtain ⟨σ₁, hrun, h⟩ := bind_eq_ok.mp h
    obtain ⟨hkeeps, hpresent⟩ := run_present w hrun
    obtain ⟨hkeeps', hpresent'⟩ := ih h
    refine ⟨hkeeps.trans hkeeps', fun y ⟨w', hw', hy⟩ j hj => ?_⟩
    rcases List.mem_cons.mp hw' with rfl | hw'
    · rw [← map_fst_pairs] at hy
      obtain ⟨x, hx, rfl⟩ := List.mem_map.mp hy
      exact hkeeps' _ (hpresent x hx j hj)
    · exact hpresent' y ⟨w', hw', hy⟩ j hj

/-! ## Reads -/

/-- A read with selections of one rank and shape.  Any memory type may be named. -/
structure ArrayRead (d : ArrayDataset) where
  memType : Datatype
  file : Dataspace
  mem : Dataspace
  file_valid : file.Valid
  file_extent : file.extent = d.extent
  mem_valid : mem.Valid
  mem_rank : mem.extent.length = d.extent.length
  same_shape : file.shapeSame mem = true
  bytes_lt : file.npoints * d.type.size < 18446744073709551616

section Read

variable {d : ArrayDataset} (r : ArrayRead d)

namespace ArrayRead

def req : Request := ⟨d.toDataset, r.memType, some r.file, some r.mem⟩

/-- Each selected coordinate of the dataset with its partner in memory, in order. -/
def pairs : List (Coord × Coord) := r.file.points.zip r.mem.points

/-- The write with the same selections, which concerns the same chunks. -/
def asWrite : ArrayWrite d where
  fileSpace := some r.file
  memSpace := some r.mem
  buf := fun _ => 0
  file_valid := r.file_valid
  file_extent := r.file_extent
  mem_valid := r.mem_valid
  mem_rank := r.mem_rank
  same_shape := r.same_shape
  bytes_lt := r.bytes_lt

/-- One call of `H5VL_dtio_dataset_read` with one dataset. -/
def run (env : Env) (σ : Store) (t : ReadTarget) : Except Stop ReadTarget :=
  (datasetRead env σ [r.req] .init t).map Prod.fst

/-- Where byte `j` of the element at `m` is in memory. -/
def position (m : Coord) (j : Nat) : Nat := rowMajor r.mem.extent m * d.type.size + j

/-- The array reaches as far as the selection. -/
def Room (t : ReadTarget) : Prop :=
  ∀ m ∈ r.mem.points, (rowMajor r.mem.extent m + 1) * d.type.size ≤ t.array.length

/-- The element at `m` in memory. -/
def element (t : ReadTarget) (m : Coord) : List Byte :=
  (List.range d.type.size).map fun j => t.array.getD (r.position m j) 0

/-- No other element is read to the same place. -/
def Once (x : Coord × Coord) : Prop := ∀ y ∈ r.pairs, y.2 = x.2 → y.1 = x.1

/-- What a read of one element assigns to the array: the bytes that are there. -/
def delivered (σ : Store) (x : Coord × Coord) : List (Nat × Byte) :=
  ((List.range d.type.size).filter fun j => decide (Present σ (location d.toDataset x.1 j))).map
    fun j => (r.position x.2 j, byteOf σ (location d.toDataset x.1 j))

/-- The elements of one chunk. -/
def ofChunk (info : ChunkInfo) : List (Coord × Coord) :=
  r.pairs.filter fun x => decide (chunkStart d.toDataset x.1 = startOf d.toDataset info)

end ArrayRead

/-- An entry of `chunk_info` in a read. -/
def readInfo (info : ChunkInfo) : ReadChunk :=
  ⟨info.chunkCoords, some info.mspace, some info.fspace⟩

variable {env : Env} {σ : Store}

/-- The chunks are those of the write. -/
theorem selectReadChunks_eq {infos : List ChunkInfo} {closeSpaces : Bool}
    (h : selectChunks r.asWrite.req r.asWrite.file r.asWrite.mem .null false =
      .ok (.live infos, closeSpaces)) :
    selectReadChunks r.req .null false = .ok (.live (infos.map readInfo), closeSpaces) := by
  unfold selectChunks at h
  unfold selectReadChunks
  rcases d.supported with hl | hl | ⟨c, hl, -⟩
  -- a dataset that is not chunked has one chunk
  · simp only [show r.asWrite.req.dset.layout = .compact from hl] at h
    simp only [show r.req.dset.layout = .compact from hl]
    cases h
    rfl
  · simp only [show r.asWrite.req.dset.layout = .contiguous from hl] at h
    simp only [show r.req.dset.layout = .contiguous from hl]
    cases h
    rfl
  -- a chunked one has those that a write finds
  · simp only [show r.asWrite.req.dset.layout = .chunked c from hl] at h
    simp only [show r.req.dset.layout = .chunked c from hl]
    have hspaces : r.req.fileSpace = some r.asWrite.file ∧ r.req.memSpace = some r.asWrite.mem :=
      ⟨rfl, rfl⟩
    simp only [hspaces]
    cases hinfo : getSelectedChunkInfo c r.asWrite.file r.asWrite.mem with
    | ok l =>
      rw [hinfo] at h
      cases h
      rfl
    | error e =>
      rw [hinfo] at h
      cases e
      · cases h
      · cases h

/-- The bytes of a chunk that are read are those of its elements. -/
theorem readBytes_chunk {info : ChunkInfo} (hp : Piece r.asWrite info) {op : List Vol.Entry}
    (hop : opBytes op = (info.fspace.bytes d.type.size).zip (info.mspace.bytes d.type.size)) :
    readBytes (σ.object (objectName d.toDataset info.chunkCoords)) op =
      (r.ofChunk info).flatMap (r.delivered σ) := by
  unfold readBytes
  rw [hop, zip_bytes _ hp.count.symm, hp.pairs, List.flatMap_map, List.filter_flatMap,
    List.map_flatMap]
  apply List.flatMap_congr
  intro x hx
  have hname : objectName d.toDataset info.chunkCoords =
      objectName d.toDataset (chunkStart d.toDataset x.1) := by
    rw [of_decide_eq_true (List.mem_filter.mp hx).2, objectName_chunkCoords]
  rw [hname, hp.fileExtent, hp.memExtent, List.filter_map, List.map_map]
  rfl

/-- The operation of a chunk stays within the array. -/
theorem entries_fit {info : ChunkInfo} (hp : Piece r.asWrite info) {t : ReadTarget}
    (hroom : r.Room t) {op : List Vol.Entry}
    (hop : opBytes op = (info.fspace.bytes d.type.size).zip (info.mspace.bytes d.type.size))
    (hlens : ∀ e ∈ op, 0 < e.len) : ∀ e ∈ op, e.bufOff + e.len ≤ t.array.length := by
  intro e he
  have hpos := hlens e he
  -- the last byte of the triple
  have hlast : (e.objOff + (e.len - 1), e.bufOff + (e.len - 1)) ∈ opBytes op :=
    List.mem_flatMap.mpr ⟨e, he, List.mem_map_of_mem (List.mem_range.mpr (by omega))⟩
  rw [hop, zip_bytes _ hp.count.symm, hp.pairs, hp.memExtent] at hlast
  obtain ⟨y, hy, hlast⟩ := List.mem_flatMap.mp hlast
  obtain ⟨x, hx, rfl⟩ := List.mem_map.mp hy
  obtain ⟨j, hj, heq⟩ := List.mem_map.mp hlast
  have hoff : rowMajor r.mem.extent x.2 * d.type.size + j = e.bufOff + (e.len - 1) :=
    (Prod.mk.inj heq).2
  have hfit := hroom x.2 (List.of_mem_zip (List.mem_of_mem_filter hx)).2
  rw [Nat.succ_mul] at hfit
  have := List.mem_range.mp hj
  omega

/-- One chunk. -/
theorem readChunk_spec {info : ChunkInfo} (hp : Piece r.asWrite info) {L : ReadLocals}
    (hsize : L.tconv.srcTypeSize = d.type.size) (hoid : OidFits d.toDataset L.chunkOid)
    {t : ReadTarget} (hroom : r.Room t) :
    ∃ array, readChunk env r.req σ (L, t) (readInfo info) =
        .ok ({ L with chunkOid := .live (objectName d.toDataset info.chunkCoords) },
          { t with array := array }) ∧
      array.length = t.array.length ∧
      ∀ k, array.getD k 0 =
        assigned ((r.ofChunk info).flatMap (r.delivered σ)) k (t.array.getD k 0) := by
  have hsmall : info.fspace.npoints * d.type.size < 18446744073709551616 :=
    lt_of_le_of_lt (Nat.mul_le_mul_right _ hp.le) r.bytes_lt
  -- the operation of the chunk pairs its bytes in the file with those in memory
  obtain ⟨op, hop, hbytes, hlens⟩ := buildIoOpMerge_entries env.iter hp.mem hp.file d.type_pos
    hp.count hp.pos hsmall
  obtain ⟨array, hread, hlen, hvalues⟩ :=
    readOp_spec (σ.object (objectName d.toDataset info.chunkCoords))
      (entries_fit r hp hroom hbytes hlens)
  rw [readBytes_chunk r hp hbytes] at hvalues
  refine ⟨array, ?_, hlen, hvalues⟩
  -- the chunk has the name under which a write stores it
  have hname : oidCreateChunk r.req.dset.fileName r.req.dset.binOid r.req.dset.extent.length
      (readInfo info).chunkCoords L.chunkOid =
        .ok (.live (objectName d.toDataset info.chunkCoords)) :=
    (oidCreateChunk_spec hoid hp.room).1
  have hbuild : buildRead env L.tconv.srcTypeSize (readInfo info) = .ok op := by
    rw [hsize]
    show buildIoOpMerge env.iter info.mspace info.fspace d.type.size info.mspace.npoints = _
    rw [hp.count]
    exact hop
  simp only [readChunk, hname, hbuild, ok_bind, Ptr.deref, readOpOperate, hread, orFault_some]
  rfl

/-- All chunks, in order. -/
theorem readChunks_spec {infos : List ChunkInfo} :
    ∀ {L : ReadLocals} {t : ReadTarget}, (∀ info ∈ infos, Piece r.asWrite info) →
      L.tconv.srcTypeSize = d.type.size → OidFits d.toDataset L.chunkOid → r.Room t →
    ∃ oid array, (infos.map readInfo).foldlM (readChunk env r.req σ) (L, t) =
        .ok ({ L with chunkOid := oid }, { t with array := array }) ∧
      OidFits d.toDataset oid ∧ array.length = t.array.length ∧
      ∀ k, array.getD k 0 = assigned
        (infos.flatMap fun info => (r.ofChunk info).flatMap (r.delivered σ)) k
        (t.array.getD k 0) := by
  induction infos with
  | nil =>
    intro L t _ _ hoid _
    exact ⟨L.chunkOid, t.array, rfl, hoid, rfl, fun _ => rfl⟩
  | cons info infos ih =>
    intro L t hpieces hsize hoid hroom
    have hp := hpieces info List.mem_cons_self
    obtain ⟨array₁, hread, hlen, hfirst⟩ := @readChunk_spec _ r env σ info hp L hsize hoid t hroom
    obtain ⟨-, hoid₁⟩ := oidCreateChunk_spec hoid hp.room
    -- the array keeps its length
    have hroom₁ : r.Room { t with array := array₁ } := fun m hm => by
      show _ ≤ array₁.length
      rw [hlen]
      exact hroom m hm
    obtain ⟨oid, array, hreads, hoid', hlen', hrest⟩ := ih
      (L := { L with chunkOid := .live (objectName d.toDataset info.chunkCoords) })
      (fun i hi => hpieces i (List.mem_cons_of_mem _ hi)) hsize hoid₁ hroom₁
    refine ⟨oid, array, ?_, hoid', hlen'.trans hlen, fun k => ?_⟩
    · rw [List.map_cons, List.foldlM_cons, hread]
      exact hreads
    · rw [hrest, hfirst, List.flatMap_cons, assigned_append]

/-- The elements of all chunks are those that are selected. -/
theorem mem_delivered {infos : List ChunkInfo} (h : Pieces r.asWrite infos) {a : Nat × Byte} :
    a ∈ (infos.flatMap fun info => (r.ofChunk info).flatMap (r.delivered σ)) ↔
      ∃ x ∈ r.pairs, ∃ j < d.type.size, Present σ (location d.toDataset x.1 j) ∧
        (r.position x.2 j, byteOf σ (location d.toDataset x.1 j)) = a := by
  simp only [List.mem_flatMap, ArrayRead.ofChunk, ArrayRead.delivered, List.mem_filter,
    List.mem_map, List.mem_range, decide_eq_true_eq]
  constructor
  · rintro ⟨info, -, x, ⟨hx, -⟩, j, ⟨hj, hpresent⟩, rfl⟩
    exact ⟨x, hx, j, hj, hpresent, rfl⟩
  · rintro ⟨x, hx, j, hj, hpresent, rfl⟩
    obtain ⟨info, hinfo, hstart⟩ := List.mem_map.mp (h.covers x hx)
    exact ⟨info, hinfo, x, ⟨hx, hstart.symm⟩, j, ⟨hj, hpresent⟩, rfl⟩

/-- The places of different elements in memory are different. -/
theorem position_inj {x y : Coord × Coord} (hx : x ∈ r.pairs) (hy : y ∈ r.pairs) {i j : Nat}
    (hi : i < d.type.size) (hj : j < d.type.size)
    (h : r.position x.2 i = r.position y.2 j) : x.2 = y.2 ∧ i = j := by
  obtain ⟨hrow, hij⟩ := (mul_add_inj hi hj).mp h
  have hinside : ∀ z ∈ r.pairs, Inside z.2 r.mem.extent := fun z hz =>
    r.mem_valid.inside _ (List.of_mem_zip hz).2
  exact ⟨rowMajor_inj (hinside x hx) (hinside y hy) hrow, hij⟩

/-- What a read leaves of the array, for one byte of an element. -/
def received (σ : Store) (t : ReadTarget) (x : Coord × Coord) (j : Nat) : Byte :=
  if Present σ (location d.toDataset x.1 j) then byteOf σ (location d.toDataset x.1 j)
  else t.array.getD (r.position x.2 j) 0

/-- The iteration for a dataset with a selection assigns the elements of all chunks. -/
theorem readIteration_spec (hne : r.file.npoints ≠ 0) {infos : List ChunkInfo}
    {closeSpaces : Bool} (hpieces : Pieces r.asWrite infos)
    (hselect : selectChunks r.asWrite.req r.asWrite.file r.asWrite.mem .null false =
      .ok (.live infos, closeSpaces)) {t : ReadTarget} (hroom : r.Room t) :
    ∃ L' array closed, readIteration env σ r.req .init t =
        .ok (.next L' { t with array := array } closed) ∧
      array.length = t.array.length ∧
      ∀ k, array.getD k 0 = assigned
        (infos.flatMap fun info => (r.ofChunk info).flatMap (r.delivered σ)) k
        (t.array.getD k 0) := by
  obtain ⟨first, rest, hcons⟩ := List.exists_cons_of_ne_nil hpieces.nonempty
  have hhead : (infos.map readInfo).head? = some (readInfo first) := by rw [hcons]; rfl
  -- the memory type is none, so the types count as equal
  set tc : Tconv := ⟨d.type.size, 0, true, false, false, .none⟩ with htc
  have htconv : tconvInit env.dstAbove r.req.dset.type none ReadLocals.init.tconv = some tc :=
    tconvInit_invalid _ _ rfl
  have hselect' : selectReadChunks r.req ReadLocals.init.chunkInfo ReadLocals.init.closeSpaces =
      .ok (.live (infos.map readInfo), closeSpaces) := selectReadChunks_eq r hselect
  obtain ⟨oid, array, hreads, hoid, hlen, hvalues⟩ := @readChunks_spec _ r env σ infos
    { ReadLocals.init with tconv := tc } t hpieces.piece rfl trivial hroom
  obtain ⟨oid', hfree⟩ := hoid.free
  refine ⟨⟨.freed, oid', tc, closeSpaces⟩, array,
    closedReadSpaces r.req closeSpaces (infos.map readInfo), ?_, hlen, hvalues⟩
  have hcount : ¬ selectNpoints r.req.fileSpace = 0 := by
    show ¬ ((r.file.npoints : Nat) : Int) = 0
    omega
  unfold readIteration
  rw [if_neg hcount]
  unfold readDataset
  simp only [htconv, hselect', orFault_some, ok_bind, Ptr.deref, hhead, hreads, hfree]
  rfl

/-- **One read** succeeds, whatever is stored.  An element gets the bytes that its object has, and
keeps the others; what is not selected stays as it is. -/
theorem ArrayRead.run_spec (env : Env) (σ : Store) {t : ReadTarget} (hroom : r.Room t) :
    ∃ t', r.run env σ t = .ok t' ∧ t'.buffers = t.buffers ∧ t'.array.length = t.array.length ∧
      (∀ x ∈ r.pairs, r.Once x → ∀ j < d.type.size,
        t'.array.getD (r.position x.2 j) 0 = received r σ t x j) ∧
      ∀ k, (∀ m ∈ r.mem.points, ∀ j < d.type.size, k ≠ r.position m j) →
        t'.array.getD k 0 = t.array.getD k 0 := by
  by_cases hne : r.file.npoints = 0
  · -- nothing is selected
    have hpairs : r.pairs = [] := by
      rw [ArrayRead.pairs, List.length_eq_zero_iff.mp hne, List.zip_nil_left]
    refine ⟨t, ?_, rfl, rfl, ?_, fun _ _ => rfl⟩
    · have hcount : selectNpoints r.req.fileSpace = 0 := by
        show ((r.file.npoints : Nat) : Int) = 0
        rw [hne]
        rfl
      unfold ArrayRead.run datasetRead
      rw [show readIteration env σ r.req .init t = .ok (.returns t) from if_pos hcount]
      rfl
    · rw [hpairs]
      exact nofun
  · obtain ⟨infos, closeSpaces, hselect, hpieces⟩ := pieces r.asWrite hne
    obtain ⟨L', array, closed, hiter, hlen, hvalues⟩ :=
      @readIteration_spec _ r env σ hne infos closeSpaces hpieces hselect t hroom
    refine ⟨{ t with array := array }, ?_, rfl, hlen, fun x hx honce j hj => ?_, fun k hk => ?_⟩
    · unfold ArrayRead.run datasetRead
      rw [hiter]
      rfl
    · show array.getD _ 0 = _
      rw [hvalues]
      unfold received
      -- only what is present is delivered, and to this place from this element alone
      by_cases hpresent : Present σ (location d.toDataset x.1 j)
      · rw [if_pos hpresent]
        refine assigned_of_eq ?_ ⟨_, (mem_delivered r hpieces).mpr
          ⟨x, hx, j, hj, hpresent, rfl⟩, rfl⟩ _
        intro a ha heq
        obtain ⟨y, hy, i, hi, -, rfl⟩ := (mem_delivered r hpieces).mp ha
        obtain ⟨hyx, rfl⟩ := position_inj r hy hx hi hj heq
        rw [honce y hy hyx]
      · rw [if_neg hpresent, assigned_of_ne]
        intro a ha heq
        obtain ⟨y, hy, i, hi, hthere, rfl⟩ := (mem_delivered r hpieces).mp ha
        obtain ⟨hyx, rfl⟩ := position_inj r hy hx hi hj heq
        rw [honce y hy hyx] at hthere
        exact hpresent hthere
    · show array.getD _ 0 = _
      rw [hvalues, assigned_of_ne]
      intro a ha heq
      obtain ⟨y, hy, i, hi, -, rfl⟩ := (mem_delivered r hpieces).mp ha
      exact hk y.2 (List.of_mem_zip hy).2 i hi heq.symm

end Read

/-! ## Reads after writes -/

section Round

variable {d : ArrayDataset}

/-- An element that was written is read from its object. -/
theorem element_eq (r : ArrayRead d) {σ : Store} {t t' : ReadTarget} {x : Coord × Coord}
    (hreceived : ∀ j < d.type.size, t'.array.getD (r.position x.2 j) 0 = received r σ t x j)
    (hpresent : ∀ j < d.type.size, Present σ (location d.toDataset x.1 j)) :
    r.element t' x.2 = storedValue d.toDataset σ x.1 := by
  refine List.map_congr_left fun j hj => ?_
  have hlt := List.mem_range.mp hj
  rw [hreceived j hlt]
  exact if_pos (hpresent j hlt)

/-- Writes succeed and make of every stored element what they make of a flat array's. -/
theorem runAll_value (env : Env) (ws : List (ArrayWrite d)) (σ : Store) :
    ∃ σ', runAll env ws σ = .ok σ' ∧ ∀ y, Inside y d.extent →
      storedValue d.toDataset σ' y = flatWrites ws (storedValue d.toDataset σ) y := by
  induction ws generalizing σ with
  | nil => exact ⟨σ, rfl, fun _ _ => rfl⟩
  | cons w ws ih =>
    obtain ⟨σ₁, hok₁, hvalue₁, -⟩ := run_spec w env σ
    obtain ⟨σ', hok, hvalue⟩ := ih σ₁
    refine ⟨σ', ?_, fun y hy => ?_⟩
    · rw [runAll, hok₁]
      exact hok
    · rw [hvalue y hy]
      exact flatWrites_congr ws (hvalue₁ y hy)

/-- **Written elements are read.**  After any writes without conversion, a read gets the elements of
the flat array with these writes, for every element that was written and that is read to a place of
its own; what is not selected in memory stays as it is.  The layout, the two selections and what the
iterators of the writes and of the read do with them are free. -/
theorem read_written (env env' : Env) (ws : List (ArrayWrite d)) (r : ArrayRead d) (σ : Store)
    {t : ReadTarget} (hroom : r.Room t) :
    ∃ σ' t', runAll env ws σ = .ok σ' ∧ r.run env' σ' t = .ok t' ∧ t'.buffers = t.buffers ∧
      t'.array.length = t.array.length ∧
      (∀ x ∈ r.pairs, r.Once x → Written ws x.1 →
        r.element t' x.2 = flatWrites ws (storedValue d.toDataset σ) x.1) ∧
      ∀ k, (∀ m ∈ r.mem.points, ∀ j < d.type.size, k ≠ r.position m j) →
        t'.array.getD k 0 = t.array.getD k 0 := by
  obtain ⟨σ', hruns, hvalue⟩ := runAll_value env ws σ
  obtain ⟨t', hread, hbuffers, hlen, hreceived, hother⟩ := r.run_spec env' σ' hroom
  refine ⟨σ', t', hruns, hread, hbuffers, hlen, fun x hx honce hwritten => ?_, hother⟩
  rw [element_eq r (hreceived x hx honce) ((runAll_present hruns).2 x.1 hwritten)]
  have hinside := r.file_valid.inside x.1 (List.of_mem_zip hx).1
  rw [r.file_extent] at hinside
  exact hvalue x.1 hinside

end Round

/-- Two elements of the last row, to the second row of a buffer of four by two elements. -/
def rowRead : ArrayRead nine where
  memType := .atomic .integer 2 0
  file := ⟨[3, 3], [[2, 1], [2, 2]]⟩
  mem := ⟨[4, 2], [[1, 0], [1, 1]]⟩
  file_valid := valid_column rfl (of_decide_eq_true rfl) (of_decide_eq_true rfl)
  file_extent := rfl
  mem_valid := valid_column rfl (of_decide_eq_true rfl) (of_decide_eq_true rfl)
  mem_rank := rfl
  same_shape := of_decide_eq_true rfl
  bytes_lt := of_decide_eq_true rfl

theorem read_written_nine :
    ∃ σ' t', runAll plain [wholeWrite, columnWrite] (fun _ => none) = .ok σ' ∧
      rowRead.run plain σ' ⟨List.replicate 16 9, []⟩ = .ok t' ∧
      rowRead.element t' [1, 0] = [112, 113] ∧ rowRead.element t' [1, 1] = [16, 17] ∧
      t'.array.getD 3 0 = 9 := by
  have hroom : rowRead.Room ⟨List.replicate 16 9, []⟩ := by
    unfold ArrayRead.Room
    decide
  obtain ⟨σ', t', hruns, hread, -, -, helements, hother⟩ :=
    read_written plain plain [wholeWrite, columnWrite] rowRead (fun _ => none) hroom
  -- both elements are read, each to its own place, and both were written
  have hpairs : rowRead.pairs = [([2, 1], [1, 0]), ([2, 2], [1, 1])] := rfl
  have honce : ∀ x ∈ rowRead.pairs, rowRead.Once x := by
    unfold ArrayRead.Once
    rw [hpairs]
    decide
  have hwritten : ∀ x ∈ rowRead.pairs, Written [wholeWrite, columnWrite] x.1 := fun x hx =>
    ⟨wholeWrite, List.mem_cons_self, by revert x; rw [hpairs]; decide⟩
  refine ⟨σ', t', hruns, hread, ?_, ?_, hother 3 (by decide)⟩
  · have hmem : (([2, 1], [1, 0]) : Coord × Coord) ∈ rowRead.pairs := by simp [hpairs]
    rw [helements _ hmem (honce _ hmem) (hwritten _ hmem)]
    decide +kernel
  · have hmem : (([2, 2], [1, 1]) : Coord × Coord) ∈ rowRead.pairs := by simp [hpairs]
    rw [helements _ hmem (honce _ hmem) (hwritten _ hmem)]
    decide +kernel

end DTIO.Properties.DatasetReads
