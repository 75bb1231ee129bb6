import DTIO.Properties.ChunkedStorage
import DTIO.Vol.Background

/-!
# Partial Writes of Compound Types

The memory type of a write may have some of the members of the file type only.  The stored bytes
of the other members come back from the background of the conversion, if that is filled with what
is stored.  `H5VL_dtio_need_bkg` looks for members of the memory type that the file type does not
have, not the other way round: the background is filled if the memory type is padded.  It is
allocated with the size of the memory type and used with that of the file type.

## Main definitions

- `PartialWrite`: a write of some members of a compound dataset
- `TakesBackground`: what `H5Tconvert` promises
- `Preserves`: the write changes nothing but the bytes of the members that it has
- `PartialWrite.Supported`: the layout is known, and chunks are found
- `PartialWrite.Room`: both buffers are large enough

## Main results

- `preserves_iff`: when a partial write keeps the other members
-/

namespace DTIO.Properties.PartialCompound

open DTIO.Posix DTIO.Grid DTIO.Assignment DTIO.MachineInt DTIO.Memory DTIO.Vol
open DTIO.Properties.ChunkedStorage

/-! ## Partial writes -/

/-- A write with one dataset of a compound type, from memory with a proper part of its members, as
HDF5 admits it.  The members of the file type are not empty and lie within it; both selections have
the same number of points, whatever their ranks and shapes, and the data fit into memory. -/
structure PartialWrite where
  dset : Dataset
  fileSize : Nat
  fileMembers : Members
  memSize : Nat
  memMembers : Members
  fileSpace : Option Dataspace
  memSpace : Option Dataspace
  type_eq : dset.type = .compound fileSize fileMembers
  member_inside : ∀ m ∈ fileMembers.list, 0 < m.type.size ∧ m.offset + m.type.size ≤ fileSize
  subset : ∀ m ∈ memMembers.list, ∃ f ∈ fileMembers.list, f.name = m.name
  proper : ∃ f ∈ fileMembers.list, ∀ m ∈ memMembers.list, m.name ≠ f.name
  nonempty : memMembers.list ≠ []
  rank_le : dset.extent.length ≤ 32
  count : dset.extent.prod < 9223372036854775808
  binOid_lt : dset.binOid < 18446744073709551616
  chunks : ∀ c, dset.layout = .chunked c →
    Positive c ∧ c.length = dset.extent.length ∧ c.prod < 4294967296
  file_valid : (request dset fileSpace memSpace).realFileSpace.Valid
  file_extent : (request dset fileSpace memSpace).realFileSpace.extent = dset.extent
  mem_valid : (request dset fileSpace memSpace).realMemSpace.Valid
  same_count : (request dset fileSpace memSpace).realMemSpace.npoints =
    (request dset fileSpace memSpace).realFileSpace.npoints
  bytes_lt : (request dset fileSpace memSpace).realFileSpace.npoints * dset.type.size <
    18446744073709551616

namespace PartialWrite

variable (p : PartialWrite)

def memType : Datatype := .compound p.memSize p.memMembers

def req : Request := ⟨p.dset, p.memType, p.fileSpace, p.memSpace⟩

def file : Dataspace := p.req.realFileSpace

def mem : Dataspace := p.req.realMemSpace

/-- Byte `j` of an element belongs to a member that the memory type does not have. -/
def Absent (j : Nat) : Prop :=
  ∃ f ∈ p.fileMembers.list, (∀ m ∈ p.memMembers.list, m.name ≠ f.name) ∧ f.Owns j

/-- One call of `H5VL_dtio_dataset_write` with one dataset. -/
def run (env : Env) (buf : Buffer) (σ : Store) : Except Stop Store :=
  (datasetWrite env [(p.req, buf)] .init σ).map Prod.fst

/-- What a write changes at most, if the bytes in `kept` of a selected element stay: no stored
byte of another element, and no object of another dataset. -/
structure Preserved (kept : Nat → Prop) (σ σ' : Store) : Prop where
  elements : ∀ x, Inside x p.dset.extent → ∀ j < p.dset.type.size, x ∉ p.file.points ∨ kept j →
    ∀ v, storedByte σ (location p.dset x j) = some v → storedByte σ' (location p.dset x j) = some v
  objects : ∀ key, (∀ start, key ≠ objectName p.dset start) → σ' key = σ key

/-- What the connector can write: chunks are found for selections of one rank and shape only, and
some layouts are not known to it. -/
def Supported : Prop :=
  match p.dset.layout with
  | .compact | .contiguous => True
  | .chunked _ =>
    p.mem.extent.length = p.dset.extent.length ∧ p.file.shapeSame p.mem = true
  | .other => False

/-- The number of selected elements in the chunk of `x`. -/
def selectedWith (x : Coord) : Nat :=
  (p.file.points.filter fun y => decide (chunkStart p.dset y = chunkStart p.dset x)).length

/-- The buffers of the conversion have room for the selected elements of every chunk. -/
def Room : Prop :=
  ∀ x ∈ p.file.points,
    p.selectedWith x * max p.dset.type.size p.memSize ≤
      toUnsigned64 (((blockDims p.dset).prod * max p.dset.type.size p.memSize : Nat) : Int) ∧
    p.selectedWith x * p.dset.type.size ≤
      toUnsigned64 (((blockDims p.dset).prod * p.memSize : Nat) : Int)

end PartialWrite

/-- The type of `H5Tconvert`. -/
abbrev Converter : Type :=
  Datatype → Datatype → Nat → List Byte → Option (List Byte) → Conversion

/-- `H5Tconvert` takes the bytes in `kept` of every element from the background. -/
def TakesBackground (convert : Converter) (src dst : Datatype) (kept : Nat → Prop) : Prop :=
  ∀ (n : Nat) (tconv bkg : List Byte), n * max src.size dst.size ≤ tconv.length →
    n * dst.size ≤ bkg.length → ∀ i < n, ∀ j < dst.size, kept j →
      (convert src dst n tconv (some bkg)).tconv (i * dst.size + j) =
        bkg.getD (i * dst.size + j) 0

/-- The write succeeds and keeps the bytes in `kept`, whatever is stored, written and left in
allocated memory. -/
def Preserves (iter : SelIter) (convert : Converter) (p : PartialWrite) (kept : Nat → Prop) :
    Prop :=
  ∀ (heap : Nat → Byte) (dstAbove : Bool) (buf : Buffer) (σ : Store),
    ∃ σ', p.run ⟨iter, convert, heap, dstAbove⟩ buf σ = .ok σ' ∧ p.Preserved kept σ σ'

/-! ## The parts of a write -/

section Types

variable (p : PartialWrite)

/-- Some byte of an element is absent. -/
theorem exists_absent : ∃ j < p.dset.type.size, p.Absent j := by
  obtain ⟨f, hf, hname⟩ := p.proper
  obtain ⟨hpos, hle⟩ := p.member_inside f hf
  refine ⟨f.offset, ?_, f, hf, hname, le_rfl, Nat.lt_add_of_pos_right hpos⟩
  rw [p.type_eq]
  show f.offset < p.fileSize
  omega

theorem type_ne : p.dset.type ≠ p.memType := by
  obtain ⟨f, hf, hname⟩ := p.proper
  rw [p.type_eq]
  intro heq
  obtain ⟨-, hmembers⟩ := Datatype.compound.inj heq
  rw [hmembers] at hf
  exact hname f hf rfl

theorem type_pos : 0 < p.dset.type.size := by
  obtain ⟨j, hj, -⟩ := exists_absent p
  omega

theorem supported_of_ne (h : p.dset.layout ≠ .other) :
    p.dset.layout = .compact ∨ p.dset.layout = .contiguous ∨
      ∃ c, p.dset.layout = .chunked c ∧ Positive c ∧ c.length = p.dset.extent.length ∧
        c.prod < 4294967296 := by
  cases hlayout : p.dset.layout with
  | compact => exact Or.inl rfl
  | contiguous => exact Or.inr (Or.inl rfl)
  | chunked c => exact Or.inr (Or.inr ⟨c, rfl, p.chunks c hlayout⟩)
  | other => exact absurd hlayout h

variable {p}

theorem layout_ne (h : p.Supported) : p.dset.layout ≠ .other := by
  intro hother
  unfold PartialWrite.Supported at h
  rw [hother] at h
  exact h

/-- The dataset, if its layout is known. -/
def array (h : p.dset.layout ≠ .other) : ArrayDataset where
  toDataset := p.dset
  rank_le := p.rank_le
  count := p.count
  type_pos := type_pos p
  binOid_lt := p.binOid_lt
  supported := supported_of_ne p h

theorem point_inside {y : Coord} (hy : y ∈ p.file.points) : Inside y p.dset.extent := by
  have hinside := p.file_valid.inside y hy
  rwa [p.file_extent] at hinside

end Types

/-- The part of a write that concerns one object: valid dataspaces with as many points, those of
the file translated to the object. -/
structure Part (p : PartialWrite) (info : ChunkInfo) : Prop where
  room : p.dset.extent.length ≤ info.chunkCoords.length
  file : info.fspace.Valid
  mem : info.mspace.Valid
  fileExtent : info.fspace.extent = blockDims p.dset
  count : info.mspace.npoints = info.fspace.npoints
  pos : 0 < info.fspace.npoints
  points : info.fspace.points = (p.file.points.filter fun y =>
    decide (chunkStart p.dset y = startOf p.dset info)).map (place p.dset)

/-- The parts of a write: one for each object that it concerns. -/
structure Parts (p : PartialWrite) (infos : List ChunkInfo) : Prop where
  nodup : (infos.map (startOf p.dset)).Nodup
  covers : ∀ x ∈ p.file.points, chunkStart p.dset x ∈ infos.map (startOf p.dset)
  part : ∀ info ∈ infos, Part p info
  nonempty : infos ≠ []

section Parts

variable {p : PartialWrite} {infos : List ChunkInfo}

/-- A dataset that is not chunked has one object. -/
theorem parts_whole (h : p.dset.layout = .compact ∨ p.dset.layout = .contiguous)
    (hne : p.file.npoints ≠ 0) : Parts p [⟨List.replicate maxRank 0, p.mem, p.file⟩] := by
  -- the only chunk begins at the origin, and places are coordinates
  have hstart : ∀ x, chunkStart p.dset x = List.replicate p.dset.extent.length 0 := by
    intro x
    unfold chunkStart
    rcases h with h | h
    · rw [h]
    · rw [h]
  have hplace : place p.dset = id := by
    funext x
    unfold place
    rcases h with h | h
    · rw [h]
      rfl
    · rw [h]
      rfl
  have htake : (List.replicate maxRank 0).take p.dset.extent.length =
      List.replicate p.dset.extent.length 0 := by
    rw [List.take_replicate, min_eq_left (show p.dset.extent.length ≤ maxRank from p.rank_le)]
  constructor
  case nodup => exact List.nodup_singleton _
  case covers =>
    intro x _
    rw [hstart, List.map_singleton, List.mem_singleton]
    exact htake.symm
  -- the chunk has both selections as they are
  case part =>
    intro info hinfo
    rw [List.mem_singleton] at hinfo
    subst hinfo
    refine ⟨?_, p.file_valid, p.mem_valid, ?_, p.same_count, Nat.pos_of_ne_zero hne, ?_⟩
    · rw [List.length_replicate]
      exact p.rank_le
    · unfold blockDims
      rcases h with h | h
      · rw [h]
        exact p.file_extent
      · rw [h]
        exact p.file_extent
    · simp [hstart, hplace, startOf, htake]
  case nonempty => exact List.cons_ne_nil _ _

/-- The parts of a write without conversion, as far as the file is concerned. -/
theorem parts_of_pieces {d : ArrayDataset} {w : ArrayWrite d} (hd : d.toDataset = p.dset)
    (hfile : w.file = p.file) (h : Pieces w infos) : Parts p infos := by
  constructor
  case nodup =>
    rw [← hd]
    exact h.nodup
  case covers =>
    intro x hx
    rw [← hfile, ← map_fst_pairs w] at hx
    obtain ⟨y, hy, rfl⟩ := List.mem_map.mp hx
    rw [← hd]
    exact h.covers y hy
  case part =>
    intro info hinfo
    have hp := h.piece info hinfo
    have hroom := hp.room
    have hextent := hp.fileExtent
    -- the first components of the pairs
    have hlen : info.fspace.points.length ≤ info.mspace.points.length := le_of_eq hp.count.symm
    have hpoints := congrArg (List.map Prod.fst) hp.pairs
    rw [List.map_fst_zip hlen, List.map_map] at hpoints
    rw [hd] at hroom hextent hpoints
    refine ⟨hroom, hp.file, hp.mem, hextent, hp.count, hp.pos, ?_⟩
    rw [hpoints, ← hfile, ← map_fst_pairs w, List.filter_map, List.map_map]
    rfl
  case nonempty => exact h.nonempty

/-- A supported write has parts. -/
theorem selectChunks_parts (h : p.Supported) (hne : p.file.npoints ≠ 0) :
    ∃ infos closeSpaces,
      selectChunks p.req p.req.realFileSpace p.req.realMemSpace .null false =
        .ok (.live infos, closeSpaces) ∧ Parts p infos := by
  have hlayout := layout_ne h
  unfold PartialWrite.Supported at h
  cases hl : p.dset.layout with
  | compact =>
    exact ⟨_, _, selectChunks_whole (Or.inl hl) .., parts_whole (Or.inl hl) hne⟩
  | contiguous =>
    exact ⟨_, _, selectChunks_whole (Or.inr hl) .., parts_whole (Or.inr hl) hne⟩
  -- the chunks do not depend on the types, so they are those of a write without conversion
  | chunked c =>
    rw [hl] at h
    obtain ⟨hpos, hlen, hsmall⟩ := p.chunks c hl
    let w : ArrayWrite (array hlayout) :=
      { fileSpace := p.fileSpace
        memSpace := p.memSpace
        buf := fun _ => 0
        file_valid := p.file_valid
        file_extent := p.file_extent
        mem_valid := p.mem_valid
        mem_rank := h.1
        same_shape := h.2
        bytes_lt := p.bytes_lt }
    obtain ⟨infos, hok, hpieces⟩ := pieces_chunked w hl hpos hlen hsmall hne
    have hselect : selectChunks p.req p.req.realFileSpace p.req.realMemSpace .null false =
        .ok (.live infos, true) := by
      have hlayout' : p.req.dset.layout = .chunked c := hl
      have hok' : getSelectedChunkInfo c p.req.realFileSpace p.req.realMemSpace = .ok infos := hok
      unfold selectChunks
      simp only [hlayout', hok']
    exact ⟨infos, true, hselect, parts_of_pieces rfl rfl hpieces⟩
  | other => exact absurd hl hlayout

/-- A write whose chunks are found is supported. -/
theorem supported_of_selectChunks (hne : p.file.npoints ≠ 0) {closeSpaces : Bool}
    (h : selectChunks p.req p.req.realFileSpace p.req.realMemSpace .null false =
      .ok (.live infos, closeSpaces)) : p.Supported := by
  unfold selectChunks at h
  unfold PartialWrite.Supported
  cases hl : p.dset.layout with
  | compact => trivial
  | contiguous => trivial
  | chunked c =>
    have hl' : p.req.dset.layout = .chunked c := hl
    simp only [hl'] at h
    split at h
    next infos' hok =>
      obtain ⟨hrank, -, hshape⟩ := getSelectedChunkInfo_ok hne hok
      exact ⟨hrank.trans (congrArg List.length p.file_extent), hshape⟩
    · cases h
    · cases h
  | other =>
    have hl' : p.req.dset.layout = .other := hl
    simp only [hl'] at h
    cases h

end Parts

/-! ## Where the parts are -/

section Places

variable {p : PartialWrite} {info : ChunkInfo}

/-- A part has an element. -/
theorem exists_start (hp : Part p info) :
    ∃ y ∈ p.file.points, chunkStart p.dset y = startOf p.dset info := by
  obtain ⟨q, hq⟩ := List.exists_mem_of_length_pos hp.pos
  rw [hp.points] at hq
  obtain ⟨y, hy, -⟩ := List.mem_map.mp hq
  rw [List.mem_filter, decide_eq_true_eq] at hy
  exact ⟨y, hy.1, hy.2⟩

/-- An element that is stored in the object of a part belongs to its chunk. -/
theorem start_of_objectName (h : p.dset.layout ≠ .other) (hp : Part p info) {x : Coord}
    (hx : Inside x p.dset.extent)
    (hname : objectName p.dset (chunkStart p.dset x) = objectName p.dset info.chunkCoords) :
    chunkStart p.dset x = startOf p.dset info := by
  obtain ⟨y, hy, hstart⟩ := exists_start hp
  rw [objectName_chunkCoords, ← hstart] at hname
  obtain ⟨hxlen, hxlt⟩ := chunkStart_spec (array h) hx
  obtain ⟨hylen, hylt⟩ := chunkStart_spec (array h) (point_inside hy)
  rw [← hstart]
  exact objectName_inj (array h) hxlen hylen (fun a ha => (hxlt a ha).trans (by decide))
    (fun a ha => (hylt a ha).trans (by decide)) hname

/-- The place of an element of the chunk in the object of the part. -/
theorem location_of_start (hp : Part p info) {x : Coord}
    (hstart : chunkStart p.dset x = startOf p.dset info) (j : Nat) :
    location p.dset x j = (objectName p.dset info.chunkCoords,
      rowMajor info.fspace.extent (place p.dset x) * p.dset.type.size + j) := by
  unfold location
  rw [hstart, ← objectName_chunkCoords, hp.fileExtent]

/-- The other parts are in other objects. -/
theorem objectName_ne (h : p.dset.layout ≠ .other) {rest : List ChunkInfo}
    (hparts : Parts p (info :: rest)) {x : Coord} (hx : Inside x p.dset.extent)
    (hstart : chunkStart p.dset x = startOf p.dset info) :
    ∀ other ∈ rest, objectName p.dset (chunkStart p.dset x) ≠
      objectName p.dset other.chunkCoords := by
  intro other hother hname
  have hsecond :=
    start_of_objectName h (hparts.part other (List.mem_cons_of_mem _ hother)) hx hname
  have hnodup := hparts.nodup
  rw [List.map_cons, List.nodup_cons] at hnodup
  apply hnodup.1
  rw [← hstart, hsecond]
  exact List.mem_map_of_mem hother

/-- An element of the chunk is selected in the part if it is selected. -/
theorem mem_points_iff (h : p.dset.layout ≠ .other) (hp : Part p info) {x : Coord}
    (hx : Inside x p.dset.extent)
    (hstart : chunkStart p.dset x = startOf p.dset info) :
    place p.dset x ∈ info.fspace.points ↔ x ∈ p.file.points := by
  rw [hp.points, List.mem_map]
  constructor
  · rintro ⟨y, hy, hplace⟩
    rw [List.mem_filter, decide_eq_true_eq] at hy
    rw [← eq_of_place_eq (array h) (point_inside hy.1) hx (hy.2.trans hstart.symm) hplace]
    exact hy.1
  · intro hxmem
    refine ⟨x, ?_, rfl⟩
    rw [List.mem_filter, decide_eq_true_eq]
    exact ⟨hxmem, hstart⟩

end Places

/-! ## One chunk -/

/-- The variables of a conversion between the types of the write. -/
structure Converts (p : PartialWrite) (fill : Bool) (t : Tconv) : Prop where
  src : t.srcTypeSize = p.dset.type.size
  dst : t.dstTypeSize = p.memSize
  typesEqual : t.typesEqual = false
  needBkg : t.needBkg = true
  fillBkg : t.fillBkg = fill

/-- The variables before a chunk: two buffers of given lengths. -/
structure Ready (p : PartialWrite) (t : Tconv) (a b : Nat) (L : WriteLocals) : Prop where
  tconv : L.tconv = t
  oid : OidFits p.dset L.chunkOid
  tconvBuf : ∃ m, L.tconvBuf = .live m ∧ m.length = a
  bkgBuf : ∃ m, L.bkgBuf = .live m ∧ m.length = b

section Chunk

variable {p : PartialWrite} {buf : Buffer} {env : Env} {kept : Nat → Prop} {t : Tconv}
variable {fill : Bool} {info : ChunkInfo}

/-- The byte of an element in the buffer after a conversion. -/
theorem getD_converted (htakes : TakesBackground env.convert p.memType p.dset.type kept)
    {n : Nat} {g b : List Byte} {len : Nat} (hlen : g.length = len)
    (hg : n * max p.dset.type.size p.memSize ≤ len) (hb : n * p.dset.type.size ≤ b.length)
    {i j : Nat} (hi : i < n) (hj : j < p.dset.type.size) (hkept : kept j) :
    ((List.range len).map (env.convert p.memType p.dset.type n g (some b)).tconv).getD
      (i * p.dset.type.size + j) 0 = b.getD (i * p.dset.type.size + j) 0 := by
  have hlt : i * p.dset.type.size + j < len := by
    have hnext : (i + 1) * p.dset.type.size ≤ n * p.dset.type.size := Nat.mul_le_mul_right _ hi
    have hmax : n * p.dset.type.size ≤ n * max p.dset.type.size p.memSize :=
      Nat.mul_le_mul_left _ (le_max_left ..)
    rw [Nat.succ_mul] at hnext
    omega
  have hroom : n * max p.memType.size p.dset.type.size ≤ g.length := by
    rw [hlen, max_comm]
    exact hg
  rw [List.getD_eq_getElem _ _ (by simpa using hlt), List.getElem_map, List.getElem_range]
  exact htakes n g b hroom hb i hi j hj hkept

/-- A store after a chunk that is converted with the background `bg`: only the object of the chunk
is concerned, elements that are not selected stay, and the bytes in `kept` are those of the
background. -/
structure Converted (p : PartialWrite) (kept : Nat → Prop) (info : ChunkInfo) (bg : List Byte)
    (σ σ' : Store) : Prop where
  frame : ∀ key, key ≠ objectName p.dset info.chunkCoords → σ' key = σ key
  length : (σ.object (objectName p.dset info.chunkCoords)).length ≤
    (σ'.object (objectName p.dset info.chunkCoords)).length
  unselected : ∀ q, Inside q info.fspace.extent → q ∉ info.fspace.points →
    ∀ j < p.dset.type.size,
      byteOf σ' (objectName p.dset info.chunkCoords,
          rowMajor info.fspace.extent q * p.dset.type.size + j) =
        byteOf σ (objectName p.dset info.chunkCoords,
          rowMajor info.fspace.extent q * p.dset.type.size + j)
  selected : ∀ q ∈ info.fspace.points, ∀ j < p.dset.type.size, kept j → ∀ v,
    (∀ i, info.fspace.points[i]? = some q → bg.getD (i * p.dset.type.size + j) 0 = v) →
      byteOf σ' (objectName p.dset info.chunkCoords,
        rowMajor info.fspace.extent q * p.dset.type.size + j) = v

/-- The background of a chunk: the bytes that are stored, if it is filled, and otherwise the buffer
as it was. -/
structure Backed (p : PartialWrite) (fill : Bool) (info : ChunkInfo) (b bg : List Byte)
    (σ : Store) : Prop where
  same : fill = false → bg = b
  stored : fill = true → ∀ i q j v, info.fspace.points[i]? = some q → j < p.dset.type.size →
    storedByte σ (objectName p.dset info.chunkCoords,
      rowMajor info.fspace.extent q * p.dset.type.size + j) = some v →
        bg.getD (i * p.dset.type.size + j) 0 = v

/-- **A chunk with a conversion** is written if the buffers have room for it. -/
theorem writeChunk_converted (h : p.dset.layout ≠ .other) (buf : Buffer) (single : Bool)
    (htakes : TakesBackground env.convert p.memType p.dset.type kept)
    (ht : Converts p fill t) (hp : Part p info) {L : WriteLocals}
    (hL : L.tconv = t) (hoid : OidFits p.dset L.chunkOid) {tc b : List Byte}
    (htc : L.tconvBuf = .live tc) (hb : L.bkgBuf = .live b)
    (hroom : info.fspace.npoints * max p.dset.type.size p.memSize ≤ tc.length)
    (hbroom : info.fspace.npoints * p.dset.type.size ≤ b.length) (σ : Store) :
    ∃ L' σ' bg, writeChunk env p.req buf single (L, σ) info = .ok (L', σ') ∧
      Ready p t tc.length b.length L' ∧ Converted p kept info bg σ σ' ∧
      Backed p fill info b bg σ := by
  -- the name, the operation, and the background that it reads
  set key := objectName p.dset info.chunkCoords with hkey
  obtain ⟨hname, hoid'⟩ := oidCreateChunk_spec (d := array h) hoid hp.room
  obtain ⟨runs, hop, hbytes⟩ := buildIoOpContig_spec env.iter hp.file (type_pos p) hp.pos
  rw [← ht.src] at hop hbytes
  rw [← hp.count] at hop
  have hbroom' : info.fspace.npoints * t.srcTypeSize ≤ b.length := by rwa [ht.src]
  obtain ⟨bg, hback, hbglen, hsame, hstored⟩ := background_spec ht.needBkg hbytes hbroom' key σ
  have hbgroom : ∀ b' ∈ some bg, info.fspace.npoints * t.srcTypeSize ≤ b'.length := by
    intro b' hb'
    obtain rfl := Option.some.inj hb'
    rwa [hbglen]
  have hroom' : info.fspace.npoints * max t.srcTypeSize t.dstTypeSize ≤ tc.length := by
    rwa [ht.src, ht.dst]
  -- the conversion, and what it leaves in its buffer
  obtain ⟨g, σ', hglen, hwrite, hoperate⟩ := writeConverted_of_background env p.req buf hop
    hbytes hp.count ⟨ht.src, ht.dst⟩ hback hbgroom hroom'
  set converted := (List.range tc.length).map
    (env.convert p.req.memType p.req.dset.type info.fspace.npoints g (some bg)).tconv
    with hconverted
  rw [ht.src] at hbytes hstored
  have hfit : info.fspace.npoints * p.dset.type.size ≤ converted.length := by
    rw [hconverted, List.length_map, List.length_range]
    exact (Nat.mul_le_mul_left _ (le_max_left ..)).trans hroom
  obtain ⟨σ'', hoperate', hframe, hlength, hvalue⟩ := writeContiguous_spec hbytes hfit key σ
  obtain rfl : σ' = σ'' := Except.ok.inj (hoperate.symm.trans hoperate')
  obtain ⟨L', hL', hready⟩ : ∃ L', writeChunk env p.req buf single (L, σ) info = .ok (L', σ') ∧
      Ready p t tc.length b.length L' := by
    have hname' : oidCreateChunk p.req.dset.fileName p.req.dset.binOid p.req.dset.extent.length
        info.chunkCoords L.chunkOid = .ok (.live key) := hname
    unfold writeChunk
    simp only [hname', hL, ht.typesEqual, Ptr.deref, ok_bind, htc, hb, hwrite, Bool.false_eq_true,
      if_false]
    exact ⟨_, rfl, rfl, hoid', ⟨_, rfl, by simp [hconverted]⟩, ⟨_, rfl, by simp [hbglen]⟩⟩
  refine ⟨L', σ', bg, hL', hready, ⟨hframe, hlength, ?_, ?_⟩, ⟨?_, ?_⟩⟩
  -- a byte of an element that is not selected is not written
  · intro q hq hout j hj
    refine (hvalue _).trans (assigned_of_ne ?_ _)
    intro x hx hplace
    obtain ⟨i, hi, -⟩ := of_mem_elementBytes hp.file hq hj hx hplace
    exact hout (List.mem_of_getElem? hi)
  -- a kept byte of a selected one comes from the background, each time that it is selected
  · intro q hq j hj hkept v hv
    refine (hvalue _).trans (assigned_of_eq ?_ (mem_elementBytes hq hj converted) _)
    intro x hx hplace
    obtain ⟨i, hi, hxv⟩ := of_mem_elementBytes hp.file (hp.file.inside q hq) hj hx hplace
    obtain ⟨hilt, -⟩ := List.getElem?_eq_some_iff.mp hi
    rw [ht.src] at hbgroom
    rw [hxv, ← hv i hi]
    exact getD_converted htakes hglen hroom (hbgroom bg rfl) hilt hj hkept
  · exact fun hfill => hsame (ht.fillBkg.trans hfill)
  · exact fun hfill => hstored (ht.fillBkg.trans hfill)

/-- With a background that is filled, a chunk keeps what is stored. -/
theorem Converted.keeps {b bg : List Byte} {σ σ' : Store} (hc : Converted p kept info bg σ σ')
    (hb : Backed p true info b bg σ) {q : Coord} (hq : Inside q info.fspace.extent) {j : Nat}
    (hj : j < p.dset.type.size) (hor : q ∉ info.fspace.points ∨ kept j) {v : Byte}
    (hv : storedByte σ (objectName p.dset info.chunkCoords,
      rowMajor info.fspace.extent q * p.dset.type.size + j) = some v) :
    storedByte σ' (objectName p.dset info.chunkCoords,
      rowMajor info.fspace.extent q * p.dset.type.size + j) = some v := by
  obtain ⟨hlt, -⟩ := List.getElem?_eq_some_iff.mp hv
  -- the byte is there, and it is the same
  have hlt' := hlt.trans_le hc.length
  have hsame : byteOf σ' (objectName p.dset info.chunkCoords,
      rowMajor info.fspace.extent q * p.dset.type.size + j) = v := by
    by_cases hin : q ∈ info.fspace.points
    · rcases hor with hout | hkept
      · exact absurd hin hout
      · exact hc.selected q hin j hj hkept v fun i hi => hb.stored rfl i q j v hi hj hv
    · rw [hc.unselected q hq hin j hj, byteOf, List.getD_eq_getElem?_getD]
      exact congrArg (Option.getD · 0) hv
  rw [byteOf, List.getD_eq_getElem _ _ hlt'] at hsame
  exact List.getElem?_eq_some_iff.mpr ⟨hlt', hsame⟩

/-- With a background that is not filled, a chunk gets what was in the buffer. -/
theorem Converted.leaks {b bg : List Byte} {σ σ' : Store} (hc : Converted p kept info bg σ σ')
    (hb : Backed p false info b bg σ) (hroom : info.fspace.npoints * p.dset.type.size ≤ b.length)
    {v : Byte} (hv : ∀ x ∈ b, x = v) {q : Coord} (hq : q ∈ info.fspace.points) {j : Nat}
    (hj : j < p.dset.type.size) (hkept : kept j) :
    byteOf σ' (objectName p.dset info.chunkCoords,
      rowMajor info.fspace.extent q * p.dset.type.size + j) = v := by
  apply hc.selected q hq j hj hkept
  intro i hi
  obtain ⟨hilt, -⟩ := List.getElem?_eq_some_iff.mp hi
  have hlt : i * p.dset.type.size + j < b.length := by
    have hnext : (i + 1) * p.dset.type.size ≤ info.fspace.npoints * p.dset.type.size :=
      Nat.mul_le_mul_right _ hilt
    rw [Nat.succ_mul] at hnext
    omega
  rw [hb.same rfl, List.getD_eq_getElem _ _ hlt]
  exact hv _ (List.getElem_mem hlt)

end Chunk

/-! ## All chunks -/

theorem PartialWrite.Preserved.refl (p : PartialWrite) (kept : Nat → Prop) (σ : Store) :
    p.Preserved kept σ σ :=
  ⟨fun _ _ _ _ _ _ hv => hv, fun _ _ => rfl⟩

theorem PartialWrite.Preserved.trans {p : PartialWrite} {kept : Nat → Prop} {σ σ₁ σ' : Store}
    (h₁ : p.Preserved kept σ σ₁) (h' : p.Preserved kept σ₁ σ') : p.Preserved kept σ σ' where
  elements x hx j hj hor v hv := h'.elements x hx j hj hor v (h₁.elements x hx j hj hor v hv)
  objects key hkey := (h'.objects key hkey).trans (h₁.objects key hkey)

/-- Buffers of `a` and of `b` bytes have room for a chunk. -/
structure RoomFor (p : PartialWrite) (a b : Nat) (info : ChunkInfo) : Prop where
  elements : info.fspace.npoints * max p.dset.type.size p.memSize ≤ a
  background : info.fspace.npoints * p.dset.type.size ≤ b

section Chunks

variable {p : PartialWrite} {buf : Buffer} {env : Env} {kept : Nat → Prop} {t : Tconv}
variable {fill : Bool} {info : ChunkInfo} {a b : Nat}

/-- A chunk with a background that is filled keeps what the write has to keep. -/
theorem preserved_of_converted (h : p.dset.layout ≠ .other) (hp : Part p info) {m bg : List Byte}
    {σ σ' : Store} (hc : Converted p kept info bg σ σ') (hb : Backed p true info m bg σ) :
    p.Preserved kept σ σ' := by
  constructor
  · intro x hx j hj hor v hv
    by_cases hname : objectName p.dset (chunkStart p.dset x) = objectName p.dset info.chunkCoords
    · have hstart := start_of_objectName h hp hx hname
      have hlocation : location p.dset x j = (objectName p.dset info.chunkCoords,
          rowMajor info.fspace.extent (place p.dset x) * p.dset.type.size + j) :=
        location_of_start hp hstart j
      have hplace : Inside (place p.dset x) info.fspace.extent := by
        rw [hp.fileExtent]
        exact place_inside (array h) hx
      -- selected in the chunk if selected at all
      have hor' : place p.dset x ∉ info.fspace.points ∨ kept j := by
        rcases hor with hout | hkept
        · exact Or.inl fun hin => hout ((mem_points_iff h hp hx hstart).mp hin)
        · exact Or.inr hkept
      rw [hlocation] at hv ⊢
      exact hc.keeps hb hplace hj hor' hv
    · have hother : σ' (location p.dset x j).1 = σ (location p.dset x j).1 := hc.frame _ hname
      unfold storedByte Store.object at hv ⊢
      rwa [hother]
  · exact fun key hkey => hc.frame key (hkey _)

/-- All chunks are written if the buffers have room for each of them. -/
theorem writeChunks_converted (h : p.dset.layout ≠ .other) (buf : Buffer) (single : Bool)
    (htakes : TakesBackground env.convert p.memType p.dset.type kept)
    (ht : Converts p fill t) {infos : List ChunkInfo} :
    ∀ {L : WriteLocals}, (∀ info ∈ infos, Part p info) →
      (∀ info ∈ infos, RoomFor p a b info) → Ready p t a b L → ∀ σ : Store,
    ∃ L' σ', infos.foldlM (writeChunk env p.req buf single) (L, σ) = .ok (L', σ') ∧
      Ready p t a b L' ∧ (fill = true → p.Preserved kept σ σ') := by
  induction infos with
  | nil =>
    intro L _ _ hL σ
    exact ⟨L, σ, rfl, hL, fun _ => .refl ..⟩
  | cons info infos ih =>
    intro L hparts hroom hL σ
    have hp := hparts info List.mem_cons_self
    have hr := hroom info List.mem_cons_self
    obtain ⟨tc, htc, rfl⟩ := hL.tconvBuf
    obtain ⟨m, hm, rfl⟩ := hL.bkgBuf
    -- both buffers are used again for the next chunk
    obtain ⟨L₁, σ₁, bg, hσ₁, hL₁, hc, hb⟩ := writeChunk_converted h buf single htakes ht hp
      hL.tconv hL.oid htc hm hr.elements hr.background σ
    obtain ⟨L', σ', hσ', hL', hkeep⟩ := ih (fun i hi => hparts i (List.mem_cons_of_mem _ hi))
      (fun i hi => hroom i (List.mem_cons_of_mem _ hi)) hL₁ σ₁
    refine ⟨L', σ', ?_, hL', ?_⟩
    · rw [List.foldlM_cons, hσ₁]
      exact hσ'
    · rintro rfl
      exact (preserved_of_converted h hp hc hb).trans (hkeep rfl)

/-- The buffers have room for a chunk that is written. -/
theorem writeChunk_room {single : Bool} (ht : Converts p fill t) (hp : Part p info)
    {L : WriteLocals} (hL : Ready p t a b L) {σ : Store} {s' : WriteLocals × Store}
    (hs' : writeChunk env p.req buf single (L, σ) info = .ok s') : RoomFor p a b info := by
  obtain ⟨tc, htc, rfl⟩ := hL.tconvBuf
  obtain ⟨m, hm, rfl⟩ := hL.bkgBuf
  unfold writeChunk at hs'
  simp only [hL.tconv, ht.typesEqual, htc, hm, Bool.false_eq_true, if_false] at hs'
  obtain ⟨_, -, hs'⟩ := bind_eq_ok.mp hs'
  obtain ⟨_, -, hs'⟩ := bind_eq_ok.mp hs'
  obtain ⟨_, hdone, -⟩ := bind_eq_ok.mp hs'
  have hroom := writeConverted_room (r := p.req) ⟨ht.src, ht.dst⟩ hdone
  rw [hp.count] at hroom
  obtain ⟨_, hlive, helements⟩ := hroom.elements
  obtain ⟨_, hlive', hbackground⟩ := hroom.background ht.needBkg
  cases hlive
  cases hlive'
  rw [ht.src, ht.dst] at helements
  rw [ht.src] at hbackground
  exact ⟨helements, hbackground⟩

/-- They have room for all chunks of a write that succeeds. -/
theorem writeChunks_room (h : p.dset.layout ≠ .other) {single : Bool}
    (htakes : TakesBackground env.convert p.memType p.dset.type kept)
    (ht : Converts p fill t) {infos : List ChunkInfo} :
    ∀ {L : WriteLocals} {σ : Store} {s' : WriteLocals × Store},
      (∀ info ∈ infos, Part p info) → Ready p t a b L →
      infos.foldlM (writeChunk env p.req buf single) (L, σ) = .ok s' →
      ∀ info ∈ infos, RoomFor p a b info := by
  induction infos with
  | nil => exact fun _ _ _ _ hinfo => absurd hinfo List.not_mem_nil
  | cons first infos ih =>
    intro L σ s' hparts hL hs'
    have hp := hparts first List.mem_cons_self
    rw [List.foldlM_cons] at hs'
    obtain ⟨s₁, hs₁, hs'⟩ := bind_eq_ok.mp hs'
    have hr := writeChunk_room ht hp hL hs₁
    -- the first chunk leaves buffers of the same lengths
    obtain ⟨tc, htc, rfl⟩ := hL.tconvBuf
    obtain ⟨m, hm, rfl⟩ := hL.bkgBuf
    obtain ⟨L₁, σ₁, bg, hok, hL₁, -⟩ := writeChunk_converted h buf single htakes ht hp hL.tconv
      hL.oid htc hm hr.elements hr.background σ
    obtain rfl : s₁ = (L₁, σ₁) := Except.ok.inj (hs₁.symm.trans hok)
    intro info hinfo
    rcases List.mem_cons.mp hinfo with rfl | hinfo
    · exact hr
    · exact ih (fun i hi => hparts i (List.mem_cons_of_mem _ hi)) hL₁ hs' info hinfo

end Chunks

/-! ## The whole write -/

section Whole

variable {p : PartialWrite} {buf : Buffer} {env : Env} {kept : Nat → Prop} {t : Tconv}
variable {fill : Bool} {infos : List ChunkInfo}

/-- The number of elements of a part. -/
theorem npoints_eq {info : ChunkInfo} (hp : Part p info) {x : Coord}
    (hx : chunkStart p.dset x = startOf p.dset info) :
    info.fspace.npoints = p.selectedWith x := by
  unfold Dataspace.npoints PartialWrite.selectedWith
  rw [hp.points, List.length_map, hx]

/-- The variables before the first chunk. -/
theorem ready_allocate (env : Env) (ht : Converts p fill t) {first : ChunkInfo}
    (hp : Part p first) :
    Ready p t
      (toUnsigned64 (((blockDims p.dset).prod * max p.dset.type.size p.memSize : Nat) : Int))
      (toUnsigned64 (((blockDims p.dset).prod * p.memSize : Nat) : Int))
      (allocate env t first .init) := by
  have hextent : first.fspace.extentNpoints = (blockDims p.dset).prod := by
    unfold Dataspace.extentNpoints
    rw [hp.fileExtent]
  refine ⟨rfl, trivial, ?_, ?_⟩
  · unfold allocate
    simp only [ht.typesEqual, Bool.false_eq_true, if_false, ht.src, ht.dst, hextent]
    exact ⟨_, rfl, length_malloc ..⟩
  · unfold allocate
    simp only [ht.needBkg, if_true, ht.dst, hextent]
    exact ⟨_, rfl, length_malloc ..⟩

/-- There is room for the chunks if and only if there is for the selection. -/
theorem room_iff (hparts : Parts p infos) :
    p.Room ↔ ∀ info ∈ infos, RoomFor p
      (toUnsigned64 (((blockDims p.dset).prod * max p.dset.type.size p.memSize : Nat) : Int))
      (toUnsigned64 (((blockDims p.dset).prod * p.memSize : Nat) : Int)) info := by
  constructor
  · intro hroom info hinfo
    have hp := hparts.part info hinfo
    obtain ⟨y, hy, hstart⟩ := exists_start hp
    obtain ⟨helements, hbackground⟩ := hroom y hy
    constructor
    · rwa [npoints_eq hp hstart]
    · rwa [npoints_eq hp hstart]
  · intro hroom x hx
    -- the chunk of `x` is one of the parts
    obtain ⟨info, hinfo, hstart⟩ := List.mem_map.mp (hparts.covers x hx)
    obtain ⟨helements, hbackground⟩ := hroom info hinfo
    rw [npoints_eq (hparts.part info hinfo) hstart.symm] at helements hbackground
    exact ⟨helements, hbackground⟩

/-- A write succeeds if its iteration does. -/
theorem run_eq_ok {σ σ' : Store} : p.run env buf σ = .ok σ' ↔
    ∃ s, writeIteration env p.req buf .init σ = .ok s ∧
      (s = .returns σ' ∨ ∃ L closed, s = .next L σ' closed) := by
  unfold PartialWrite.run datasetWrite
  cases writeIteration env p.req buf .init σ with
  | error e => simp [Except.map]
  | ok s =>
    cases s with
    | returns σ₁ => simp [Except.map]
    | next L σ₁ closed => simp [Except.map, datasetWrite]

/-- The iteration of a write with a conversion. -/
theorem writeIteration_converted (h : p.dset.layout ≠ .other) (env : Env)
    (hne : p.file.npoints ≠ 0)
    (htakes : TakesBackground env.convert p.memType p.dset.type kept)
    (hneed : needBkg p.dset.type p.memType = .returns true fill) (hparts : Parts p infos)
    {closeSpaces : Bool}
    (hselect : selectChunks p.req p.req.realFileSpace p.req.realMemSpace .null false =
      .ok (.live infos, closeSpaces)) (hroom : p.Room) (buf : Buffer) (σ : Store) :
    ∃ L' σ' closed, writeIteration env p.req buf .init σ = .ok (.next L' σ' closed) ∧
      (fill = true → p.Preserved kept σ σ') := by
  obtain ⟨t, htconv, hsrc, hdst, hequal, hbkg, hfill⟩ :=
    tconvInit_returns env.dstAbove (type_ne p) hneed
  have ht : Converts p fill t := ⟨hsrc, hdst, hequal, hbkg, hfill⟩
  obtain ⟨first, rest, hcons⟩ := List.exists_cons_of_ne_nil hparts.nonempty
  have hhead : infos.head? = some first := by rw [hcons]; rfl
  have hfirst : first ∈ infos := by rw [hcons]; exact List.mem_cons_self
  obtain ⟨L', σ', hσ', hL', hkeep⟩ := writeChunks_converted h buf (infos.length == 1) htakes ht
    hparts.part ((room_iff hparts).mp hroom) (ready_allocate env ht (hparts.part first hfirst)) σ
  -- the clean-up frees a name and two buffers that are there
  obtain ⟨oid', hoid'⟩ := hL'.oid.free
  obtain ⟨tc, htc, -⟩ := hL'.tconvBuf
  obtain ⟨m, hm, -⟩ := hL'.bkgBuf
  refine ⟨⟨.freed, oid', t, .freed, .freed, closeSpaces⟩, σ', closedSpaces p.req closeSpaces infos,
    ?_, hkeep⟩
  have htconv' : tconvInit env.dstAbove p.req.dset.type (some p.req.memType)
      WriteLocals.init.tconv = some t := htconv
  have hselect' : selectChunks p.req p.req.realFileSpace p.req.realMemSpace
      WriteLocals.init.chunkInfo WriteLocals.init.closeSpaces =
      .ok (.live infos, closeSpaces) := hselect
  unfold writeIteration
  rw [if_neg (show ¬ p.req.realFileSpace.npoints = 0 from hne)]
  unfold writeDataset
  simp only [htconv', hselect', orFault_some, ok_bind, Ptr.deref, hhead, hσ', hoid', htc, hm]
  rfl

/-- A write that succeeds is supported and writes all its parts. -/
theorem written_of_run (hne : p.file.npoints ≠ 0) {σ σ' : Store}
    (hrun : p.run env buf σ = .ok σ') :
    ∃ (t : Tconv) (first : ChunkInfo) (rest : List ChunkInfo) (L' : WriteLocals),
      p.Supported ∧ tconvInit env.dstAbove p.dset.type (some p.memType) .init = some t ∧
      Parts p (first :: rest) ∧
      (first :: rest).foldlM (writeChunk env p.req buf ((first :: rest).length == 1))
        (allocate env t first .init, σ) = .ok (L', σ') := by
  obtain ⟨s, hs, hσ'⟩ := run_eq_ok.mp hrun
  unfold writeIteration at hs
  rw [if_neg (show ¬ p.req.realFileSpace.npoints = 0 from hne)] at hs
  obtain ⟨t, selected, first, rest, ⟨L', σ₁⟩, L'', ht, hselect, hdone, -, -, -, rfl⟩ :=
    writeDataset_ok hs
  -- the call ended after this dataset, with the store it left
  obtain rfl : σ₁ = σ' := by
    rcases hσ' with heq | ⟨_, _, heq⟩
    · cases heq
    · cases heq
      rfl
  -- a layout of which the chunks could be found
  have hsupported : p.Supported := supported_of_selectChunks hne hselect
  obtain ⟨infos, closeSpaces, hinfos, hparts⟩ := selectChunks_parts hsupported hne
  have hsame := Except.ok.inj (hselect.symm.trans hinfos)
  obtain rfl : first :: rest = infos := Ptr.live.inj (Prod.mk.inj hsame).1
  exact ⟨t, first, rest, L', hsupported, ht, hparts, hdone⟩

end Whole

/-! ## Stores that show what is lost -/

section Lost

variable {p : PartialWrite} {buf : Buffer} {env : Env} {kept : Nat → Prop} {t : Tconv}
variable {first : ChunkInfo} {rest : List ChunkInfo} {single : Bool}

theorem byteOf_of_storedByte {σ : Store} {loc : Key × Nat} {v : Byte}
    (hv : storedByte σ loc = some v) : byteOf σ loc = v := by
  rw [byteOf, List.getD_eq_getElem?_getD]
  exact congrArg (Option.getD · 0) hv

/-- Every object holds zeros, as many as a chunk has bytes. -/
def zeros (p : PartialWrite) : Store :=
  fun _ => some (List.replicate ((blockDims p.dset).prod * p.dset.type.size) 0)

theorem storedByte_zeros (h : p.dset.layout ≠ .other) {x : Coord} (hx : Inside x p.dset.extent)
    {j : Nat} (hj : j < p.dset.type.size) :
    storedByte (zeros p) (location p.dset x j) = some 0 := by
  have hrow : rowMajor (blockDims p.dset) (place p.dset x) < (blockDims p.dset).prod :=
    rowMajor_lt (place_inside (array h) hx)
  have hlt : rowMajor (blockDims p.dset) (place p.dset x) * p.dset.type.size + j <
      (blockDims p.dset).prod * p.dset.type.size := by
    have hnext := Nat.mul_le_mul_right p.dset.type.size hrow
    rw [Nat.succ_mul] at hnext
    omega
  show (List.replicate _ (0 : Byte))[_]? = some 0
  rw [List.getElem?_replicate]
  exact if_pos hlt

/-- What the first chunk leaves in its elements stays, since the others are in other objects. -/
theorem shown_of_first (h : p.dset.layout ≠ .other) (hparts : Parts p (first :: rest))
    {s : WriteLocals × Store} {L' : WriteLocals} {σ' : Store} {j : Nat} {v : Byte}
    (hdone : (first :: rest).foldlM (writeChunk env p.req buf single) s = .ok (L', σ'))
    (hfirst : ∀ s₁, writeChunk env p.req buf single s first = .ok s₁ →
      ∀ q ∈ first.fspace.points, byteOf s₁.2 (objectName p.dset first.chunkCoords,
        rowMajor first.fspace.extent q * p.dset.type.size + j) = v) :
    ∃ y ∈ p.file.points, byteOf σ' (location p.dset y j) = v := by
  have hp := hparts.part first List.mem_cons_self
  obtain ⟨y, hy, hstart⟩ := exists_start hp
  refine ⟨y, hy, ?_⟩
  have hinside := point_inside hy
  obtain ⟨s₁, hs₁, hdone⟩ := bind_eq_ok.mp hdone
  have hshown : byteOf s₁.2 (location p.dset y j) = v := by
    rw [location_of_start hp hstart]
    exact hfirst s₁ hs₁ _ ((mem_points_iff h hp hinside hstart).mpr hy)
  have hother : σ' (location p.dset y j).1 = s₁.2 (location p.dset y j).1 :=
    writeChunks_frame (objectName_ne h hparts hinside hstart) hdone
  unfold byteOf Store.object at hshown ⊢
  rwa [hother]

/-- Without conversion, whole elements are written. -/
theorem opBytes_buildEqual {info : ChunkInfo} (hp : Part p info) {op : List Vol.Entry}
    (hop : buildEqual env p.req single p.dset.type.size info = .ok op) :
    (opBytes op).map Prod.fst = info.fspace.bytes p.dset.type.size := by
  -- a chunk has no more elements than the whole selection
  have hle : info.fspace.npoints ≤ p.file.npoints := by
    unfold Dataspace.npoints
    rw [hp.points, List.length_map]
    exact List.length_filter_le ..
  have hsmall : info.fspace.npoints * p.dset.type.size < 18446744073709551616 :=
    lt_of_le_of_lt (Nat.mul_le_mul_right _ hle) p.bytes_lt
  have hlen : (info.fspace.bytes p.dset.type.size).length ≤
      (info.mspace.bytes p.dset.type.size).length := by
    rw [length_bytes, length_bytes, hp.count]
  unfold buildEqual at hop
  simp only [hp.count] at hop
  -- matching selections, or a merge of their sequences
  split at hop
  · obtain ⟨op', hop', hbytes⟩ := buildIoOpMatch_spec env.iter hp.file (type_pos p) hp.pos
    obtain rfl := Except.ok.inj (hop.symm.trans hop')
    rw [hbytes, List.map_fst_zip le_rfl]
  · obtain ⟨op', hop', hbytes⟩ :=
      buildIoOpMerge_spec env.iter hp.mem hp.file (type_pos p) hp.count hp.pos hsmall
    obtain rfl := Except.ok.inj (hop.symm.trans hop')
    rw [hbytes, List.map_fst_zip hlen]

/-- Without conversion a write of one byte value leaves that value in every byte of an element. -/
theorem overwritten {info : ChunkInfo} (hp : Part p info) {v : Byte} (hbuf : ∀ i, buf i = v)
    {s s₁ : WriteLocals × Store} (hequal : s.1.tconv.typesEqual = true)
    (hsize : s.1.tconv.srcTypeSize = p.dset.type.size)
    (hs₁ : writeChunk env p.req buf single s info = .ok s₁) {q : Coord}
    (hq : q ∈ info.fspace.points) {j : Nat} (hj : j < p.dset.type.size) :
    byteOf s₁.2 (objectName p.dset info.chunkCoords,
      rowMajor info.fspace.extent q * p.dset.type.size + j) = v := by
  unfold writeChunk at hs₁
  simp only [hequal, hsize, if_true] at hs₁
  obtain ⟨oid, hoid, hs₁⟩ := bind_eq_ok.mp hs₁
  obtain ⟨-, rfl⟩ := oidCreateChunk_live hoid
  obtain ⟨key, hkey, hs₁⟩ := bind_eq_ok.mp hs₁
  cases hkey
  obtain ⟨σ₁, hwrite, hs₁⟩ := bind_eq_ok.mp hs₁
  cases hs₁
  obtain ⟨op, hop, hwrite⟩ := bind_eq_ok.mp hwrite
  obtain ⟨obj, hobj, hwrite⟩ := bind_eq_ok.mp hwrite
  cases hwrite
  obtain ⟨obj', hobj', hvalue⟩ := getD_writeOp buf op (s.2.object (objectName p.dset
    info.chunkCoords))
  obtain rfl : obj = obj' := Option.some.inj ((orFault_eq_ok.mp hobj).symm.trans hobj')
  have hobject : Store.object (Function.update s.2 (objectName p.dset info.chunkCoords)
      (some obj)) (objectName p.dset info.chunkCoords) = obj := by
    simp [Store.object]
  show (Store.object (Function.update s.2 (objectName p.dset info.chunkCoords) (some obj))
    (objectName p.dset info.chunkCoords)).getD _ 0 = v
  rw [hobject, hvalue]
  apply assigned_of_eq
  · intro x hx _
    obtain ⟨_, -, rfl⟩ := List.mem_map.mp hx
    exact hbuf _
  · -- the byte is one of those of the selection
    have hmem : rowMajor info.fspace.extent q * p.dset.type.size + j ∈
        (opBytes op).map Prod.fst := by
      rw [opBytes_buildEqual hp hop]
      exact List.mem_flatMap.mpr ⟨q, hq, List.mem_map.mpr ⟨j, List.mem_range.mpr hj, rfl⟩⟩
    obtain ⟨x, hx, hxq⟩ := List.mem_map.mp hmem
    exact ⟨_, List.mem_map_of_mem hx, hxq⟩

/-- With a background that is not filled, the first chunk gets what was in allocated memory. -/
theorem leaked (h : p.dset.layout ≠ .other)
    (htakes : TakesBackground env.convert p.memType p.dset.type kept)
    (ht : Converts p false t) {v : Byte} (hheap : ∀ i, env.heap i = v) (hp : Part p first)
    {σ : Store} {s₁ : WriteLocals × Store}
    (hs₁ : writeChunk env p.req buf single (allocate env t first .init, σ) first = .ok s₁)
    {q : Coord} (hq : q ∈ first.fspace.points) {j : Nat} (hj : j < p.dset.type.size)
    (hkept : kept j) :
    byteOf s₁.2 (objectName p.dset first.chunkCoords,
      rowMajor first.fspace.extent q * p.dset.type.size + j) = v := by
  have hready := ready_allocate env ht hp
  have hroom := writeChunk_room ht hp hready hs₁
  obtain ⟨tc, htc, htclen⟩ := hready.tconvBuf
  obtain ⟨m, hm, hmlen⟩ := hready.bkgBuf
  -- a new background holds what was on the heap, and nothing fills it
  have hvalue : ∀ x ∈ m, x = v := by
    unfold allocate at hm
    simp only [ht.needBkg, if_true, Ptr.live.injEq] at hm
    rw [← hm]
    intro x hx
    obtain ⟨i, -, rfl⟩ := List.mem_map.mp hx
    exact hheap i
  -- both buffers have room for the elements of the chunk
  have helements : first.fspace.npoints * max p.dset.type.size p.memSize ≤ tc.length := by
    rw [htclen]
    exact hroom.elements
  have hbackground : first.fspace.npoints * p.dset.type.size ≤ m.length := by
    rw [hmlen]
    exact hroom.background
  -- what the conversion takes from the background is written
  obtain ⟨L₁, σ₁, bg, hσ₁, -, hc, hb⟩ := writeChunk_converted h buf single htakes ht hp
    hready.tconv hready.oid htc hm helements hbackground σ
  obtain rfl : s₁ = (L₁, σ₁) := Except.ok.inj (hs₁.symm.trans hσ₁)
  exact hc.leaks hb hbackground hvalue hq hj hkept

end Lost

/-! ## When the other members are kept -/

section Iff

variable {p : PartialWrite} {iter : SelIter} {convert : Converter} {kept : Nat → Prop}

/-- A write of nothing. -/
theorem preserves_of_empty (hempty : p.file.npoints = 0) : Preserves iter convert p kept := by
  intro heap dstAbove buf σ
  have hreturns : writeIteration ⟨iter, convert, heap, dstAbove⟩ p.req buf .init σ =
      .ok (.returns σ) := if_pos hempty
  exact ⟨σ, run_eq_ok.mpr ⟨_, hreturns, Or.inl rfl⟩, .refl ..⟩

/-- A background that is filled, and has room. -/
theorem preserves_of_filled (htakes : TakesBackground convert p.memType p.dset.type kept)
    (h : p.Supported) (hfill : needBkg p.dset.type p.memType = .returns true true)
    (hroom : p.Room) : Preserves iter convert p kept := by
  by_cases hne : p.file.npoints = 0
  · exact preserves_of_empty hne
  · intro heap dstAbove buf σ
    obtain ⟨infos, closeSpaces, hselect, hparts⟩ := selectChunks_parts h hne
    obtain ⟨L', σ', closed, hok, hkeep⟩ := writeIteration_converted (layout_ne h)
      ⟨iter, convert, heap, dstAbove⟩ hne htakes hfill hparts hselect hroom buf σ
    exact ⟨σ', run_eq_ok.mpr ⟨_, hok, Or.inr ⟨L', closed, rfl⟩⟩, hkeep rfl⟩

/-- Where every other member is kept, the background is filled and has room: otherwise ones from
allocated memory or from the buffer of the application replace zeros. -/
theorem filled_of_preserves (habsent : ∀ j, p.Absent j → kept j)
    (htakes : TakesBackground convert p.memType p.dset.type kept) (hne : p.file.npoints ≠ 0)
    (hpreserves : Preserves iter convert p kept) :
    p.Supported ∧ needBkg p.dset.type p.memType = .returns true true ∧ p.Room := by
  obtain ⟨j, hj, habs⟩ := exists_absent p
  have hkept : kept j := habsent j habs
  obtain ⟨σ', hrun, hkeep⟩ := hpreserves (fun _ => 1) true (fun _ => 1) (zeros p)
  obtain ⟨t, first, rest, L', hsupported, ht, hparts, hdone⟩ := written_of_run hne hrun
  have h := layout_ne hsupported
  have hp := hparts.part first List.mem_cons_self
  -- no selected element has a one there
  have hzero : ¬ ∃ y ∈ p.file.points, byteOf σ' (location p.dset y j) = 1 := by
    rintro ⟨y, hy, hone⟩
    have hinside := point_inside hy
    have hstored := hkeep.elements y hinside j hj (Or.inr hkept) 0 (storedByte_zeros h hinside hj)
    rw [byteOf_of_storedByte hstored] at hone
    cases hone
  refine ⟨hsupported, ?_⟩
  cases hneed : needBkg p.dset.type p.memType with
  | aborts =>
    rw [tconvInit_aborts _ (type_ne p) hneed] at ht
    cases ht
  | fails =>
    rw [tconvInit_fails _ (type_ne p) hneed] at ht
    obtain rfl := Option.some.inj ht
    refine absurd (shown_of_first h hparts hdone ?_) hzero
    intro s₁ hs₁ q hq
    refine overwritten hp (fun _ => rfl) ?_ ?_ hs₁ hq hj
    · rfl
    · rfl
  | returns need fill =>
    obtain rfl : need = true := needBkgMembers_needs hneed
    obtain ⟨t', ht', hsrc, hdst, hequal, hbkg, hfill⟩ := tconvInit_returns true (type_ne p) hneed
    obtain rfl : t = t' := Option.some.inj (ht.symm.trans ht')
    have hconverts : Converts p fill t := ⟨hsrc, hdst, hequal, hbkg, hfill⟩
    cases fill with
    | false =>
      refine absurd (shown_of_first h hparts hdone ?_) hzero
      intro s₁ hs₁ q hq
      exact leaked h htakes hconverts (fun _ => rfl) hp hs₁ hq hj hkept
    | true =>
      refine ⟨rfl, (room_iff hparts).mpr ?_⟩
      exact writeChunks_room h htakes hconverts hparts.part (ready_allocate _ hconverts hp) hdone

/-- **When a partial write keeps the other members.**  For every compound dataset and memory type
with a proper part of its members, every layout and all selections, and whatever `H5Tconvert` does
that takes at least the bytes of the other members from the background: a write succeeds and changes
nothing but the bytes that are converted, whatever is stored and written, if and only if nothing
is selected, or the write is supported, `H5VL_dtio_need_bkg` asks for a background that is filled,
and the buffers have room for every chunk. -/
theorem preserves_iff (p : PartialWrite) (iter : SelIter) {convert : Converter} {kept : Nat → Prop}
    (habsent : ∀ j, p.Absent j → kept j)
    (htakes : TakesBackground convert p.memType p.dset.type kept) :
    Preserves iter convert p kept ↔ p.file.npoints = 0 ∨
      p.Supported ∧ needBkg p.dset.type p.memType = .returns true true ∧ p.Room := by
  constructor
  · intro hpreserves
    by_cases hne : p.file.npoints = 0
    · exact Or.inl hne
    · exact Or.inr (filled_of_preserves habsent htakes hne hpreserves)
  · rintro (hempty | ⟨h, hfill, hroom⟩)
    · exact preserves_of_empty hempty
    · exact preserves_of_filled htakes h hfill hroom

end Iff

/-! ## A type with two members -/

/-- Where byte `j` of a destination element comes from in the source element. -/
def sourceByte (src dst : Members) (j : Nat) : Option Nat :=
  (dst.list.find? fun m => decide (m.offset ≤ j ∧ j < m.offset + m.type.size)).bind fun m =>
    (src.list.find? fun m' => m'.name == m.name).map fun m' => m'.offset + (j - m.offset)

/-- `H5Tconvert` of compound types whose common members have the same types: it copies them, and
everything else is the background's. -/
def copyMembers : Converter := fun src dst n tconv bkg =>
  match src, dst with
  | .compound srcSize srcMembers, .compound dstSize dstMembers =>
    let background := bkg.getD []
    let byte := fun k =>
      match sourceByte srcMembers dstMembers (k % dstSize) with
      | some j => tconv.getD (k / dstSize * srcSize + j) 0
      | none => background.getD k 0
    ⟨fun k => if k < n * dstSize then byte k else tconv.getD k 0,
      fun k => if k < n * dstSize then byte k else background.getD k 0⟩
  | _, _ => ⟨fun k => tconv.getD k 0, fun k => (bkg.getD []).getD k 0⟩

/-- An integer of one byte. -/
def int8 : Datatype := .atomic .integer 1 0

def aMember : Members := .cons ['a'] 0 int8 .nil

def abMembers : Members := .cons ['a'] 0 int8 (.cons ['b'] 1 int8 .nil)

/-- Two elements with the members `a` and `b`. -/
def abDataset : Dataset := ⟨['f'], 5, [2], .contiguous, .compound 2 abMembers⟩

theorem ab_inside : ∀ m ∈ abMembers.list, 0 < m.type.size ∧ m.offset + m.type.size ≤ 2 := by
  decide

theorem ab_subset : ∀ m ∈ aMember.list, ∃ f ∈ abMembers.list, f.name = m.name := by decide

theorem ab_proper : ∃ f ∈ abMembers.list, ∀ m ∈ aMember.list, m.name ≠ f.name := by decide

theorem a_nonempty : aMember.list ≠ [] := List.cons_ne_nil _ _

/-- The first element is written, from memory with `a` in elements of `memSize` bytes. -/
def aWrite (memSize : Nat) : PartialWrite where
  dset := abDataset
  fileSize := 2
  fileMembers := abMembers
  memSize := memSize
  memMembers := aMember
  fileSpace := some ⟨[2], [[0]]⟩
  memSpace := some ⟨[1], [[0]]⟩
  type_eq := rfl
  member_inside := ab_inside
  subset := ab_subset
  proper := ab_proper
  nonempty := a_nonempty
  rank_le := of_decide_eq_true rfl
  count := of_decide_eq_true rfl
  binOid_lt := of_decide_eq_true rfl
  chunks := nofun
  file_valid := valid_column rfl (of_decide_eq_true rfl) (of_decide_eq_true rfl)
  file_extent := rfl
  mem_valid := valid_column rfl (of_decide_eq_true rfl) (of_decide_eq_true rfl)
  same_count := rfl
  bytes_lt := of_decide_eq_true rfl

/-- The absent byte is the one of `b`. -/
theorem absent_iff {memSize j : Nat} : (aWrite memSize).Absent j ↔ j = 1 := by
  constructor
  · rintro ⟨f, hf, hname, hle, hlt⟩
    simp only [aWrite, abMembers, aMember, Members.list, List.mem_cons, List.not_mem_nil,
      or_false] at hf hname
    rcases hf with rfl | rfl
    · exact absurd rfl (hname _ rfl)
    · have hlt' : j < 2 := hlt
      have hle' : 1 ≤ j := hle
      omega
  · rintro rfl
    refine ⟨⟨['b'], 1, int8⟩, List.mem_cons_of_mem _ List.mem_cons_self, ?_, le_rfl,
      Nat.lt_succ_self 1⟩
    intro m hm
    rw [List.mem_singleton.mp hm]
    decide

theorem copyMembers_takesBackground (memSize : Nat) :
    TakesBackground copyMembers (aWrite memSize).memType (aWrite memSize).dset.type
      (aWrite memSize).Absent := by
  intro n tconv bkg _ hbkg i hi j hj habsent
  obtain rfl := absent_iff.mp habsent
  have hlt : i * 2 + 1 < n * 2 := by omega
  have hmod : (i * 2 + 1) % 2 = 1 := by omega
  have hsource : sourceByte aMember abMembers 1 = none := by decide
  show (if i * 2 + 1 < n * 2 then _ else _) = _
  rw [if_pos hlt]
  show (match sourceByte aMember abMembers ((i * 2 + 1) % 2) with | some j => _ | none => _) = _
  rw [hmod, hsource]
  rfl

/-- Without padding `b` of the first element is replaced by what was in allocated memory: the
object was 10, 20, 30, 40 and is 7, 9, 30, 40 then. -/
theorem packed_not_preserves :
    ¬ Preserves elementwise copyMembers (aWrite 1) (aWrite 1).Absent := by
  intro hpreserves
  obtain ⟨σ', hrun, hkeep⟩ :=
    hpreserves (fun _ => 9) true (fun _ => 7) fun _ => some [10, 20, 30, 40]
  have hstored := hkeep.elements [0] (by simp [Inside, aWrite, abDataset]) 1 (by decide)
    (Or.inr (absent_iff.mpr rfl)) 20 rfl
  have hlost : ((aWrite 1).run ⟨elementwise, copyMembers, fun _ => 9, true⟩ (fun _ => 7)
      fun _ => some [10, 20, 30, 40]).map (fun σ => storedByte σ (location abDataset [0] 1)) =
      .ok (some 9) := by
    decide +kernel
  rw [hrun] at hlost
  cases hstored.symm.trans (Except.ok.inj hlost)

/-- With padding it stays. -/
theorem preserves_iff_padded :
    Preserves elementwise copyMembers (aWrite 2) (aWrite 2).Absent := by
  apply (preserves_iff (aWrite 2) elementwise (fun _ habsent => habsent)
    (copyMembers_takesBackground 2)).mpr
  refine Or.inr ⟨trivial, rfl, ?_⟩
  intro x hx
  rw [List.mem_singleton.mp hx]
  decide

end DTIO.Properties.PartialCompound
