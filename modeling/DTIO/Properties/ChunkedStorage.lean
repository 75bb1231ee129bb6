import DTIO.Vol.Transfer

/-!
# Chunked Storage

A dataset is stored in one object for each chunk, or in one object if it is not chunked.  A write
without conversion finds the chunks that its file selection touches, translates both selections
into each of them, and pairs their bytes, however HDF5 cuts the two sequence lists.  What is
stored is the flat array with the same writes.

## Main definitions

- `ArrayDataset`, `ArrayWrite`: datasets and requests as HDF5 admits them
- `storedValue`: the element at a coordinate, in the object of its chunk
- `flatWrite`: the same write on a flat array

## Main results

- `pieces`: both layouts give the parts of the selections in different objects
- `writes_refine`: any sequence of writes
-/

namespace DTIO.Properties.ChunkedStorage

open DTIO.Posix DTIO.Grid DTIO.Assignment DTIO.Vol

/-! ## Datasets and writes -/

/-- A dataset with a supported layout.  HDF5 counts the elements of a dataset in an `hssize_t`
and those of a chunk in 32 bits, and no type is empty. -/
structure ArrayDataset extends Dataset where
  rank_le : extent.length ≤ 32
  count : extent.prod < 9223372036854775808
  type_pos : 0 < type.size
  binOid_lt : binOid < 18446744073709551616
  supported : layout = .compact ∨ layout = .contiguous ∨
    ∃ c, layout = .chunked c ∧ Positive c ∧ c.length = extent.length ∧ c.prod < 4294967296

/-- A write of a dataset from memory of its type. -/
def request (d : Dataset) (fileSpace memSpace : Option Dataspace) : Request :=
  ⟨d, d.type, fileSpace, memSpace⟩

/-- A write with selections of one rank and shape, of data that fit into memory. -/
structure ArrayWrite (d : ArrayDataset) where
  fileSpace : Option Dataspace
  memSpace : Option Dataspace
  buf : Buffer
  file_valid : (request d.toDataset fileSpace memSpace).realFileSpace.Valid
  file_extent : (request d.toDataset fileSpace memSpace).realFileSpace.extent = d.extent
  mem_valid : (request d.toDataset fileSpace memSpace).realMemSpace.Valid
  mem_rank : (request d.toDataset fileSpace memSpace).realMemSpace.extent.length = d.extent.length
  same_shape : (request d.toDataset fileSpace memSpace).realFileSpace.shapeSame
    (request d.toDataset fileSpace memSpace).realMemSpace = true
  bytes_lt : (request d.toDataset fileSpace memSpace).realFileSpace.npoints * d.type.size <
    18446744073709551616

section Write

variable {d : ArrayDataset} (w : ArrayWrite d)

namespace ArrayWrite

def req : Request := request d.toDataset w.fileSpace w.memSpace

def file : Dataspace := w.req.realFileSpace

def mem : Dataspace := w.req.realMemSpace

/-- Each selected coordinate of the dataset with its partner in memory, in order. -/
def pairs : List (Coord × Coord) := w.file.points.zip w.mem.points

/-- Byte `j` of the element at `m` in memory. -/
def byteAt (m : Coord) (j : Nat) : Byte := w.buf (rowMajor w.mem.extent m * d.type.size + j)

/-- The element at `m` in memory. -/
def element (m : Coord) : List Byte := (List.range d.type.size).map (w.byteAt m)

/-- One call of `H5VL_dtio_dataset_write` with one dataset. -/
def run (env : Env) (σ : Store) : Except Stop Store :=
  (datasetWrite env [(w.req, w.buf)] .init σ).map Prod.fst

/-- The write on a flat array. -/
def flatWrite (a : Coord → List Byte) : Coord → List Byte :=
  w.pairs.foldl (fun a x => Function.update a x.1 (w.element x.2)) a

end ArrayWrite

end Write

/-! ## Where an element is stored -/

section Place

variable (d : Dataset)

/-- The extent of an object. -/
def blockDims : Coord :=
  match d.layout with
  | .chunked c => c
  | _ => d.extent

/-- The start of the chunk of `x`. -/
def chunkStart (x : Coord) : Coord :=
  match d.layout with
  | .chunked c => blockStart c x
  | _ => List.replicate d.extent.length 0

/-- The position of `x` in its chunk. -/
def place (x : Coord) : Coord :=
  match d.layout with
  | .chunked c => relative x (blockStart c x)
  | _ => x

/-- The name of the object for the chunk at `start`. -/
def objectName (start : Coord) : Key := chunkName d.fileName d.binOid d.extent.length start

/-- Byte `i` of an object; past the end of what was written there are zeros. -/
def byteOf (σ : Store) (loc : Key × Nat) : Byte := (σ.object loc.1).getD loc.2 0

/-- Where byte `j` of the element at `x` is stored. -/
def location (x : Coord) (j : Nat) : Key × Nat :=
  (objectName d (chunkStart d x), rowMajor (blockDims d) (place d x) * d.type.size + j)

/-- The stored element at `x`. -/
def storedValue (σ : Store) (x : Coord) : List Byte :=
  (List.range d.type.size).map fun j => byteOf σ (location d x j)

end Place

/-! ## Locations are different -/

section Locations

variable (d : ArrayDataset) {x y : Coord}

theorem place_inside (hx : Inside x d.extent) :
    Inside (place d.toDataset x) (blockDims d.toDataset) := by
  unfold place blockDims
  rcases d.supported with h | h | ⟨c, h, hpos, hlen, -⟩
  · rw [h]
    exact hx
  · rw [h]
    exact hx
  · rw [h]
    exact inside_relative hpos (hx.length.trans hlen.symm)

theorem chunkStart_spec (hx : Inside x d.extent) :
    (chunkStart d.toDataset x).length = d.extent.length ∧
      ∀ a ∈ chunkStart d.toDataset x, a < 9223372036854775808 := by
  unfold chunkStart
  -- one chunk: it starts at zero on every axis
  have hzeros : (List.replicate d.extent.length 0).length = d.extent.length ∧
      ∀ a ∈ List.replicate d.extent.length 0, a < 9223372036854775808 := by
    refine ⟨List.length_replicate, fun a ha => ?_⟩
    rw [List.eq_of_mem_replicate ha]
    decide
  rcases d.supported with h | h | ⟨c, h, hpos, hlen, -⟩
  · rw [h]
    exact hzeros
  · rw [h]
    exact hzeros
  · rw [h]
    -- chunked: the start is nowhere beyond the element
    have hxlen : x.length = c.length := hx.length.trans hlen.symm
    refine ⟨(length_blockStart hxlen).trans hlen, fun a ha => ?_⟩
    have hvalid := Dataspace.valid_all d.count
    obtain ⟨i, hi, rfl⟩ := List.getElem_of_mem ha
    have hix : i < x.length := by rwa [← (blockStart_le hxlen).length_eq]
    have hle : (blockStart c x)[i] ≤ x[i] := List.Forall₂.get (blockStart_le hxlen) hi hix
    exact lt_of_le_of_lt hle (hvalid.coord_lt hx x[i] (List.getElem_mem hix))

theorem eq_of_place_eq (hx : Inside x d.extent) (hy : Inside y d.extent)
    (hstart : chunkStart d.toDataset x = chunkStart d.toDataset y)
    (hplace : place d.toDataset x = place d.toDataset y) : x = y := by
  unfold chunkStart at hstart
  unfold place at hplace
  rcases d.supported with h | h | ⟨c, h, hpos, hlen, -⟩
  · rw [h] at hplace
    exact hplace
  · rw [h] at hplace
    exact hplace
  · rw [h] at hstart hplace
    exact eq_of_relative_eq (hx.length.trans hlen.symm) (hy.length.trans hlen.symm) hstart hplace

theorem objectName_inj {s t : Coord} (hs : s.length = d.extent.length)
    (ht : t.length = d.extent.length) (hs' : ∀ a ∈ s, a < 18446744073709551616)
    (ht' : ∀ a ∈ t, a < 18446744073709551616)
    (h : objectName d.toDataset s = objectName d.toDataset t) : s = t := by
  have hstake : s.take d.extent.length = s := by rw [← hs, List.take_length]
  have httake : t.take d.extent.length = t := by rw [← ht, List.take_length]
  have htake : s.take d.extent.length = t.take d.extent.length := by
    apply chunkName_inj _ _ _ h
    · rwa [hstake]
    · rwa [httake]
    · rw [hstake, httake, hs, ht]
  rwa [hstake, httake] at htake

/-- Bytes of elements are stored in different places. -/
theorem location_inj (hx : Inside x d.extent) (hy : Inside y d.extent) {i j : Nat}
    (hi : i < d.type.size) (hj : j < d.type.size)
    (h : location d.toDataset x i = location d.toDataset y j) : x = y ∧ i = j := by
  obtain ⟨hname, hoff⟩ := Prod.mk.inj h
  obtain ⟨hxlen, hxlt⟩ := chunkStart_spec d hx
  obtain ⟨hylen, hylt⟩ := chunkStart_spec d hy
  have hstart : chunkStart d.toDataset x = chunkStart d.toDataset y :=
    objectName_inj d hxlen hylen (fun a ha => (hxlt a ha).trans (by decide))
      (fun a ha => (hylt a ha).trans (by decide)) hname
  obtain ⟨hrow, hij⟩ := (mul_add_inj hi hj).mp hoff
  have hplace := rowMajor_inj (place_inside d hx) (place_inside d hy) hrow
  exact ⟨eq_of_place_eq d hx hy hstart hplace, hij⟩

end Locations

/-! ## The parts of a write -/

section Pieces

variable {d : ArrayDataset} (w : ArrayWrite d)

/-- The coordinates of a chunk that its name contains. -/
def startOf (d : Dataset) (info : ChunkInfo) : Coord := info.chunkCoords.take d.extent.length

/-- The part of a write that concerns one object: some of the pairs, translated to the object, on
valid dataspaces; and where the shortcut of matching selections is taken, both are the same. -/
structure Piece (info : ChunkInfo) : Prop where
  room : d.extent.length ≤ info.chunkCoords.length
  file : info.fspace.Valid
  mem : info.mspace.Valid
  fileExtent : info.fspace.extent = blockDims d.toDataset
  memExtent : info.mspace.extent = w.mem.extent
  count : info.mspace.npoints = info.fspace.npoints
  pos : 0 < info.fspace.npoints
  le : info.fspace.npoints ≤ w.file.npoints
  pairs : info.fspace.points.zip info.mspace.points =
    (w.pairs.filter fun x => decide (chunkStart d.toDataset x.1 = startOf d.toDataset info)).map
      fun x => (place d.toDataset x.1, x.2)
  shortcut : w.memSpace = none → w.file.extent = info.fspace.extent → info.mspace = info.fspace

/-- The parts of a write: one for each object that it concerns. -/
structure Pieces (infos : List ChunkInfo) : Prop where
  nodup : (infos.map (startOf d.toDataset)).Nodup
  covers : ∀ x ∈ w.pairs, chunkStart d.toDataset x.1 ∈ infos.map (startOf d.toDataset)
  piece : ∀ info ∈ infos, Piece w info
  nonempty : infos ≠ []

theorem point_inside {y : Coord} (hy : y ∈ w.file.points) : Inside y d.extent := by
  have hinside := w.file_valid.inside y hy
  rwa [w.file_extent] at hinside

theorem file_inside {x : Coord × Coord} (hx : x ∈ w.pairs) : Inside x.1 d.extent :=
  point_inside w (List.of_mem_zip hx).1

theorem length_points : w.file.points.length = w.mem.points.length :=
  (forall_zip_of_map_eq (of_decide_eq_true w.same_shape)).1

/-- The first components of the pairs are the selected coordinates. -/
theorem map_fst_pairs : w.pairs.map Prod.fst = w.file.points :=
  List.map_fst_zip (le_of_eq (length_points w))

/-- The name of an object has no more coordinates than the dataset. -/
theorem objectName_chunkCoords (d : Dataset) (info : ChunkInfo) :
    objectName d info.chunkCoords = objectName d (startOf d info) := by
  unfold objectName chunkName startOf
  rw [List.take_take, min_self]

theorem mem_eq_file (h : w.memSpace = none) : w.mem = w.file := by
  unfold ArrayWrite.mem ArrayWrite.file Request.realMemSpace ArrayWrite.req request
  rw [h]
  rfl

/-- A dataset that is not chunked has one object. -/
theorem pieces_whole (h : d.layout = .compact ∨ d.layout = .contiguous)
    (hne : w.file.npoints ≠ 0) :
    Pieces w [⟨List.replicate maxRank 0, w.mem, w.file⟩] := by
  -- the only chunk begins at the origin, and places are coordinates
  have hstart : ∀ x, chunkStart d.toDataset x = List.replicate d.extent.length 0 := by
    intro x
    unfold chunkStart
    rcases h with h | h <;> rw [h]
  have hplace : ∀ x, place d.toDataset x = x := by
    intro x
    unfold place
    rcases h with h | h <;> rw [h]
  have htake : (List.replicate maxRank 0).take d.extent.length =
      List.replicate d.extent.length 0 := by
    rw [List.take_replicate, min_eq_left (show d.extent.length ≤ maxRank from d.rank_le)]
  constructor
  · exact List.nodup_singleton _
  · intro x _
    rw [hstart, List.map_singleton, List.mem_singleton]
    exact htake.symm
  · intro info hinfo
    -- the chunk has both selections as they are
    rw [List.mem_singleton] at hinfo
    subst hinfo
    refine ⟨?_, w.file_valid, w.mem_valid, ?_, rfl, ?_, Nat.pos_of_ne_zero hne, le_rfl, ?_, ?_⟩
    · rw [List.length_replicate]
      exact d.rank_le
    · unfold blockDims
      rcases h with h | h <;> rw [h] <;> exact w.file_extent
    · exact (length_points w).symm
    · simp [hstart, hplace, startOf, htake, ArrayWrite.pairs]
    · exact fun hmem _ => mem_eq_file w hmem
  · simp

/-- A chunked dataset has one object for each chunk. -/
theorem pieces_chunked {c : Coord} (h : d.layout = .chunked c) (hpos : Positive c)
    (hlen : c.length = d.extent.length) (hsmall : c.prod < 4294967296)
    (hne : w.file.npoints ≠ 0) :
    ∃ infos, getSelectedChunkInfo c w.file w.mem = .ok infos ∧ Pieces w infos := by
  have hfext : w.file.extent = d.extent := w.file_extent
  have hcompat : Compatible c w.file w.mem :=
    { fileValid := w.file_valid
      memValid := w.mem_valid
      pos := hpos
      small := hsmall
      chunkRank := by rw [hfext, hlen]
      memRank := by rw [hfext]; exact w.mem_rank
      sameShape := w.same_shape
      nonempty := fun hnil => hne (by rw [Dataspace.npoints, hnil, List.length_nil]) }
  obtain ⟨infos, hok, hnodup, hcovers, hinfos⟩ := hcompat.enumerable.getSelectedChunkInfo_spec
  refine ⟨infos, hok, ?_⟩
  -- the chunk and the place of an element are the ones of the block that it is in
  have hstart : ∀ x, chunkStart d.toDataset x = blockStart c x := by
    intro x
    unfold chunkStart
    rw [h]
  have hplace : ∀ x, place d.toDataset x = relative x (blockStart c x) := by
    intro x
    unfold place
    rw [h]
  -- the coordinates have as many entries as the dataset has dimensions
  have hcoords : ∀ info ∈ infos, startOf d.toDataset info = info.chunkCoords ∧
      info.chunkCoords.length = d.extent.length := by
    intro info hinfo
    obtain ⟨-, p, hp, hps⟩ := hinfos info hinfo
    have hclen : info.chunkCoords.length = d.extent.length := by
      rw [← hps, length_blockStart (hcompat.length p hp), hlen]
    refine ⟨?_, hclen⟩
    unfold startOf
    rw [← hclen, List.take_length]
  have hmap : infos.map (startOf d.toDataset) = infos.map ChunkInfo.chunkCoords :=
    List.map_congr_left fun info hinfo => (hcoords info hinfo).1
  constructor
  · rwa [hmap]
  · intro x hx
    rw [hmap, hstart]
    exact hcovers x.1 (List.of_mem_zip hx).1
  · intro info hinfo
    obtain ⟨hi, hp⟩ := hinfos info hinfo
    obtain ⟨hsame, hclen⟩ := hcoords info hinfo
    have hsmall : c.prod < 9223372036854775808 := hcompat.small.trans (by decide)
    refine ⟨hclen.ge, hi.fspace_valid hcompat.enumerable hsmall, hi.mspace_valid hcompat, ?_, ?_,
      hi.npoints_mspace hcompat, hi.npoints_pos hp, hi.npoints_le, ?_, ?_⟩
    · rw [hi.fspace]
      unfold blockDims
      rw [h]
    · rw [hi.mspace]
    · rw [hi.zip_eq hcompat, hsame]
      simp only [hstart, hplace]
      refine List.map_congr_left fun x hx => ?_
      rw [of_decide_eq_true (List.mem_filter.mp hx).2]
    · exact fun hmem hext => hi.mspace_eq_fspace hcompat.fileValid (mem_eq_file w hmem) hext
  -- there is a chunk, since some element is selected
  · obtain ⟨p, hp⟩ := List.exists_mem_of_ne_nil _ hcompat.nonempty
    intro hnil
    have := hcovers p hp
    rw [hnil] at this
    cases this

/-- Both layouts give the parts of the write. -/
theorem pieces (hne : w.file.npoints ≠ 0) :
    ∃ infos closeSpaces, selectChunks w.req w.file w.mem .null false =
      .ok (.live infos, closeSpaces) ∧ Pieces w infos := by
  rcases d.supported with h | h | ⟨c, h, hpos, hlen, hsmall⟩
  · exact ⟨_, _, selectChunks_whole (Or.inl h) .., pieces_whole w (Or.inl h) hne⟩
  · exact ⟨_, _, selectChunks_whole (Or.inr h) .., pieces_whole w (Or.inr h) hne⟩
  · obtain ⟨infos, hok, hinfos⟩ := pieces_chunked w h hpos hlen hsmall hne
    have hlayout : w.req.dset.layout = .chunked c := h
    unfold selectChunks
    simp only [hlayout, hok]
    exact ⟨_, _, rfl, hinfos⟩

end Pieces

/-! ## Writing the parts -/

section Run

variable {d : ArrayDataset} (w : ArrayWrite d)

/-- What the part for one object assigns. -/
def pieceBytes (info : ChunkInfo) : List ((Key × Nat) × Byte) :=
  (info.fspace.points.zip info.mspace.points).flatMap fun x =>
    (List.range d.type.size).map fun j =>
      ((objectName d.toDataset info.chunkCoords,
        rowMajor info.fspace.extent x.1 * d.type.size + j),
        w.buf (rowMajor info.mspace.extent x.2 * d.type.size + j))

/-- An operation on one object, as assignments to locations. -/
theorem writeOp_spec {op : List Vol.Entry} {key : Key} {info : ChunkInfo}
    (hkey : key = objectName d.toDataset info.chunkCoords)
    (hcount : info.fspace.points.length = info.mspace.points.length)
    (hop : opBytes op = (info.fspace.bytes d.type.size).zip (info.mspace.bytes d.type.size))
    (σ : Store) :
    ∃ σ', writeOpOperate (userData w.buf) op key σ = .ok σ' ∧
      (∀ loc, byteOf σ' loc = assigned (pieceBytes w info) loc (byteOf σ loc)) ∧
      ∀ key', key' ≠ key → σ' key' = σ key' := by
  obtain ⟨obj, hobj, hbytes⟩ := getD_writeOp w.buf op (σ.object key)
  refine ⟨_, by unfold writeOpOperate; rw [hobj]; rfl, ?_,
    fun key' hne => Function.update_of_ne hne ..⟩
  -- the bytes of the operation are those of the elements of the chunk
  have hpiece : pieceBytes w info = (opBytes op).map fun x => ((key, x.1), w.buf x.2) := by
    rw [hop, zip_bytes _ hcount, hkey]
    simp only [pieceBytes, List.map_flatMap, List.map_map]
    rfl
  rintro ⟨key', i⟩
  rw [hpiece]
  -- the object that is written, and all others
  by_cases hk : key' = key
  · subst hk
    have hobject : byteOf (Function.update σ key' (some obj)) (key', i) = obj.getD i 0 := by
      simp [byteOf, Store.object]
    rw [hobject, hbytes]
    refine assigned_map ?_ _
    simp
  · have hother : byteOf (Function.update σ key (some obj)) (key', i) = byteOf σ (key', i) := by
      simp [byteOf, Store.object, Function.update_of_ne hk]
    rw [hother, assigned_of_ne]
    intro x hx heq
    obtain ⟨y, -, rfl⟩ := List.mem_map.mp hx
    exact hk (Prod.mk.inj heq).1.symm

/-- Both ways of building the operation pair the same bytes. -/
theorem buildEqual_spec (env : Env) (single : Bool) {info : ChunkInfo} (hp : Piece w info) :
    ∃ op, buildEqual env w.req single d.type.size info = .ok op ∧
      opBytes op = (info.fspace.bytes d.type.size).zip (info.mspace.bytes d.type.size) := by
  have hsmall : info.fspace.npoints * d.type.size < 18446744073709551616 :=
    lt_of_le_of_lt (Nat.mul_le_mul_right _ hp.le) w.bytes_lt
  unfold buildEqual
  cases hmatch : w.req.memSpace.isNone && single &&
      decide (w.req.realFileSpace.extent = info.fspace.extent) with
  | true =>
    simp only [hp.count, if_true]
    simp only [Bool.and_eq_true, Option.isNone_iff_eq_none, decide_eq_true_eq] at hmatch
    rw [hp.shortcut hmatch.1.1 hmatch.2]
    exact buildIoOpMatch_spec env.iter hp.file d.type_pos hp.pos
  | false =>
    simp only [hp.count, Bool.false_eq_true, if_false]
    exact buildIoOpMerge_spec env.iter hp.mem hp.file d.type_pos hp.count hp.pos hsmall

theorem writeEqual_spec (env : Env) (single : Bool) {info : ChunkInfo} (hp : Piece w info)
    (σ : Store) :
    ∃ σ', writeEqual env w.req w.buf single d.type.size info
        (objectName d.toDataset info.chunkCoords) σ = .ok σ' ∧
      (∀ loc, byteOf σ' loc = assigned (pieceBytes w info) loc (byteOf σ loc)) ∧
      ∀ key, key ≠ objectName d.toDataset info.chunkCoords → σ' key = σ key := by
  obtain ⟨op, hop, hbytes⟩ := buildEqual_spec w env single hp
  obtain ⟨σ', hσ', hloc, hframe⟩ := writeOp_spec w rfl hp.count.symm hbytes σ
  refine ⟨σ', ?_, hloc, hframe⟩
  unfold writeEqual
  rw [hop]
  exact hσ'

/-- `chunk_oid` is free for a name of the dataset. -/
def OidFits (d : Dataset) : Ptr Key → Prop
  | .null => True
  | .live old => old.length = 2 + d.fileName.length + 16 + d.extent.length * 16
  | .freed => False

/-- Such a name can be freed. -/
theorem OidFits.free {d : Dataset} {oid : Ptr Key} (h : OidFits d oid) :
    ∃ oid', oid.free = .ok oid' := by
  cases oid with
  | null => exact ⟨_, rfl⟩
  | live old => exact ⟨_, rfl⟩
  | freed => exact h.elim

theorem oidCreateChunk_spec {oid : Ptr Key} (h : OidFits d.toDataset oid) {loc : Coord}
    (hloc : d.extent.length ≤ loc.length) :
    oidCreateChunk d.fileName d.binOid d.extent.length loc oid =
      .ok (.live (objectName d.toDataset loc)) ∧
      OidFits d.toDataset (.live (objectName d.toDataset loc)) := by
  have hlen : (objectName d.toDataset loc).length =
      2 + d.fileName.length + 16 + d.extent.length * 16 := length_chunkName _ _ hloc
  have hrank : d.extent.length ≤ 99 := d.rank_le.trans (by decide)
  refine ⟨?_, hlen⟩
  unfold oidCreateChunk
  rw [if_pos hrank]
  cases oid with
  | null => rfl
  | live old => exact if_pos (le_of_eq (hlen.trans (Eq.symm h)))
  | freed => exact h.elim

theorem writeChunk_spec (env : Env) (single : Bool) {info : ChunkInfo} (hp : Piece w info)
    {L : WriteLocals} (hequal : L.tconv.typesEqual = true)
    (hsize : L.tconv.srcTypeSize = d.type.size)
    (hoid : OidFits d.toDataset L.chunkOid) (σ : Store) :
    ∃ σ', writeChunk env w.req w.buf single (L, σ) info =
        .ok ({ L with chunkOid := .live (objectName d.toDataset info.chunkCoords) }, σ') ∧
      (∀ loc, byteOf σ' loc = assigned (pieceBytes w info) loc (byteOf σ loc)) ∧
      ∀ key, key ≠ objectName d.toDataset info.chunkCoords → σ' key = σ key := by
  obtain ⟨hname, -⟩ := oidCreateChunk_spec hoid hp.room
  obtain ⟨σ', hσ', hloc, hframe⟩ := writeEqual_spec w env single hp σ
  refine ⟨σ', ?_, hloc, hframe⟩
  unfold writeChunk
  have hname' : oidCreateChunk w.req.dset.fileName w.req.dset.binOid w.req.dset.extent.length
      info.chunkCoords L.chunkOid = .ok (.live (objectName d.toDataset info.chunkCoords)) := hname
  simp only [hname', hequal, hsize, Ptr.deref, if_true]
  show (writeEqual env w.req w.buf single d.type.size info _ σ >>= _) = _
  rw [hσ']
  rfl

/-- All parts, in order. -/
theorem writeChunks_spec (env : Env) (single : Bool) {infos : List ChunkInfo} :
    ∀ {L : WriteLocals}, (∀ info ∈ infos, Piece w info) → L.tconv.typesEqual = true →
      L.tconv.srcTypeSize = d.type.size → OidFits d.toDataset L.chunkOid → ∀ σ : Store,
    ∃ oid σ', infos.foldlM (writeChunk env w.req w.buf single) (L, σ) =
        .ok ({ L with chunkOid := oid }, σ') ∧
      OidFits d.toDataset oid ∧
      (∀ loc, byteOf σ' loc = assigned (infos.flatMap (pieceBytes w)) loc (byteOf σ loc)) ∧
      ∀ key, (∀ info ∈ infos, key ≠ objectName d.toDataset info.chunkCoords) →
        σ' key = σ key := by
  induction infos with
  | nil =>
    intro L _ _ _ hoid σ
    exact ⟨L.chunkOid, σ, rfl, hoid, fun _ => rfl, fun _ _ => rfl⟩
  | cons info infos ih =>
    intro L hpieces hequal hsize hoid σ
    -- the first chunk leaves a name that has room for the other ones
    obtain ⟨σ₁, hσ₁, hloc₁, hframe₁⟩ :=
      writeChunk_spec w env single (hpieces info List.mem_cons_self) hequal hsize hoid σ
    obtain ⟨-, hoid₁⟩ := oidCreateChunk_spec hoid (hpieces info List.mem_cons_self).room
    have hpieces' := fun i hi => hpieces i (List.mem_cons_of_mem _ hi)
    obtain ⟨oid, σ', hσ', hoid', hloc, hframe⟩ := ih
      (L := { L with chunkOid := .live (objectName d.toDataset info.chunkCoords) }) hpieces' hequal
      hsize hoid₁ σ₁
    refine ⟨oid, σ', ?_, hoid', fun loc => ?_, fun key hkey => ?_⟩
    · rw [List.foldlM_cons, hσ₁]
      exact hσ'
    · rw [hloc, hloc₁, List.flatMap_cons, assigned_append]
    · rw [hframe key fun i hi => hkey i (List.mem_cons_of_mem _ hi),
        hframe₁ key (hkey info List.mem_cons_self)]

/-- The pair of a coordinate and its partner, byte by byte. -/
def pairBytes (x : Coord × Coord) : List ((Key × Nat) × Byte) :=
  (List.range d.type.size).map fun j => (location d.toDataset x.1 j, w.byteAt x.2 j)

/-- The part for one object has the pairs of its chunk. -/
theorem pieceBytes_eq {info : ChunkInfo} (hp : Piece w info) :
    pieceBytes w info = (w.pairs.filter fun x =>
      decide (chunkStart d.toDataset x.1 = startOf d.toDataset info)).flatMap (pairBytes w) := by
  unfold pieceBytes
  rw [hp.pairs, List.flatMap_map, hp.fileExtent, hp.memExtent]
  apply List.flatMap_congr
  intro x hx
  have hname : objectName d.toDataset info.chunkCoords =
      objectName d.toDataset (chunkStart d.toDataset x.1) := by
    rw [of_decide_eq_true (List.mem_filter.mp hx).2, objectName_chunkCoords]
  rw [hname]
  rfl

/-- All parts together assign to a byte what the pairs do in their own order. -/
theorem assigned_pieces {infos : List ChunkInfo} (h : Pieces w infos) {y : Coord}
    (hy : Inside y d.extent) {j : Nat} (hj : j < d.type.size) (old : Byte) :
    assigned (infos.flatMap (pieceBytes w)) (location d.toDataset y j) old =
      assigned (w.pairs.map fun x => (x.1, w.byteAt x.2 j)) y old := by
  have hflat : infos.flatMap (pieceBytes w) = ((infos.map (startOf d.toDataset)).flatMap fun s =>
      w.pairs.filter fun x => decide (chunkStart d.toDataset x.1 = s)).flatMap (pairBytes w) := by
    rw [List.flatMap_assoc, List.flatMap_map]
    exact List.flatMap_congr fun info hinfo => pieceBytes_eq w (h.piece info hinfo)
  -- the bytes of a pair that concern this one
  have hpair : ∀ x ∈ w.pairs, ∀ v, assigned (pairBytes w x) (location d.toDataset y j) v =
      if x.1 = y then w.byteAt x.2 j else v := by
    intro x hx v
    have hxin := file_inside w hx
    by_cases hxy : x.1 = y
    · rw [if_pos hxy]
      have hrename : assigned (pairBytes w x) (location d.toDataset y j) v =
          assigned ((List.range d.type.size).map fun i => (0 + i, w.byteAt x.2 i)) j v := by
        refine assigned_map ?_ v
        intro i hi
        rw [Nat.zero_add]
        constructor
        · intro heq
          exact (location_inj d hxin hy (List.mem_range.mp hi) hj heq).2
        · rintro rfl
          rw [hxy]
      rw [hrename, assigned_range, if_pos (by omega), Nat.sub_zero]
    · rw [if_neg hxy, assigned_of_ne]
      intro a ha heq
      obtain ⟨i, hi, rfl⟩ := List.mem_map.mp ha
      exact hxy (location_inj d hxin hy (List.mem_range.mp hi) hj heq).1
  have hgroups : assigned (infos.flatMap (pieceBytes w)) (location d.toDataset y j) old =
      assigned (((infos.map (startOf d.toDataset)).flatMap fun s =>
        w.pairs.filter fun x => decide (chunkStart d.toDataset x.1 = s)).map
          fun x => (x.1, w.byteAt x.2 j)) y old := by
    rw [hflat]
    apply assigned_flatMap
    intro x hx v
    obtain ⟨s, -, hx⟩ := List.mem_flatMap.mp hx
    exact hpair x (List.mem_of_mem_filter hx) v
  rw [hgroups]
  exact assigned_partition h.nodup h.covers (fun x _ heq => by rw [heq]) old

/-! ## One write -/

/-- The flat array after a write. -/
theorem flatWrite_eq (a : Coord → List Byte) (y : Coord) :
    w.flatWrite a y = assigned (w.pairs.map fun x => (x.1, w.element x.2)) y (a y) := by
  rw [← foldl_update, List.foldl_map]
  rfl

/-- The iteration for a dataset with a selection assigns the bytes of all parts. -/
theorem writeIteration_spec (env : Env) (hne : w.file.npoints ≠ 0) {infos : List ChunkInfo}
    {closeSpaces : Bool} (hpieces : Pieces w infos)
    (hselect : selectChunks w.req w.file w.mem .null false = .ok (.live infos, closeSpaces))
    (σ : Store) :
    ∃ L' σ' closed, writeIteration env w.req w.buf .init σ = .ok (.next L' σ' closed) ∧
      (∀ loc, byteOf σ' loc = assigned (infos.flatMap (pieceBytes w)) loc (byteOf σ loc)) ∧
      ∀ key, (∀ start, key ≠ objectName d.toDataset start) → σ' key = σ key := by
  obtain ⟨first, rest, hcons⟩ := List.exists_cons_of_ne_nil hpieces.nonempty
  have hhead : infos.head? = some first := by rw [hcons]; rfl
  -- equal types, so there is neither a conversion nor a buffer
  set t : Tconv := ⟨d.type.size, d.type.size, true, false, false, .none⟩ with ht
  have htconv : tconvInit env.dstAbove w.req.dset.type (some w.req.memType)
      WriteLocals.init.tconv = some t := tconvInit_equal _ _
  have hoid : OidFits d.toDataset (allocate env t first .init).chunkOid := trivial
  obtain ⟨oid, σ', hσ', hoid', hloc, hframe⟩ := writeChunks_spec w env (infos.length == 1)
    hpieces.piece rfl rfl hoid σ
  obtain ⟨oid', hfree⟩ := hoid'.free
  refine ⟨⟨.freed, oid', t, .null, .null, closeSpaces⟩, σ', closedSpaces w.req closeSpaces infos,
    ?_, hloc, fun key hkey => hframe key fun info _ => hkey _⟩
  unfold writeIteration
  rw [if_neg (show ¬ w.req.realFileSpace.npoints = 0 from hne)]
  unfold writeDataset
  have hselect' : selectChunks w.req w.req.realFileSpace w.req.realMemSpace
      WriteLocals.init.chunkInfo WriteLocals.init.closeSpaces =
      .ok (.live infos, closeSpaces) := hselect
  simp only [htconv, hselect', orFault_some, ok_bind, Ptr.deref, hhead, hσ', hfree]
  rfl

/-- **One write** succeeds, stores the flat write, and concerns no object but those of the
dataset. -/
theorem run_spec (env : Env) (σ : Store) :
    ∃ σ', w.run env σ = .ok σ' ∧
      (∀ y, Inside y d.extent → storedValue d.toDataset σ' y =
        w.flatWrite (storedValue d.toDataset σ) y) ∧
      ∀ key, (∀ start, key ≠ objectName d.toDataset start) → σ' key = σ key := by
  by_cases hne : w.file.npoints = 0
  · -- nothing is selected
    have hpairs : w.pairs = [] := by
      have hnil : w.file.points = [] := List.length_eq_zero_iff.mp hne
      rw [ArrayWrite.pairs, hnil, List.zip_nil_left]
    refine ⟨σ, ?_, fun y _ => ?_, fun _ _ => rfl⟩
    · have hiter : writeIteration env w.req w.buf .init σ = .ok (.returns σ) := if_pos hne
      unfold ArrayWrite.run datasetWrite
      rw [hiter]
      rfl
    · rw [flatWrite_eq, hpairs]
      rfl
  · obtain ⟨infos, closeSpaces, hselect, hpieces⟩ := pieces w hne
    obtain ⟨L', σ', closed, hiter, hloc, hframe⟩ := writeIteration_spec w env hne hpieces hselect σ
    refine ⟨σ', ?_, fun y hy => ?_, hframe⟩
    · unfold ArrayWrite.run datasetWrite
      rw [hiter]
      rfl
    · rw [flatWrite_eq]
      unfold storedValue ArrayWrite.element
      rw [assigned_vector]
      refine List.map_congr_left fun j hj => ?_
      rw [hloc, assigned_pieces w hpieces hy (List.mem_range.mp hj)]

end Run

/-! ## Sequences of writes -/

section Writes

variable {d : ArrayDataset}

/-- Writes of one dataset, one call after another. -/
def runAll (env : Env) : List (ArrayWrite d) → Store → Except Stop Store
  | [], σ => .ok σ
  | w :: ws, σ => do
    let σ ← w.run env σ
    runAll env ws σ

/-- The same writes on a flat array. -/
def flatWrites (ws : List (ArrayWrite d)) (a : Coord → List Byte) : Coord → List Byte :=
  ws.foldl (fun a w => w.flatWrite a) a

/-- Writes on a flat array concern each coordinate separately. -/
theorem flatWrites_congr (ws : List (ArrayWrite d)) {a b : Coord → List Byte} {y : Coord}
    (h : a y = b y) : flatWrites ws a y = flatWrites ws b y := by
  induction ws generalizing a b with
  | nil => exact h
  | cons w ws ih =>
    apply ih
    show w.flatWrite a y = w.flatWrite b y
    rw [flatWrite_eq, flatWrite_eq, h]

/-- **Chunked storage refines a flat array.**  For every dataset with a supported layout, every
iterator that serialises selections as HDF5 promises, and every sequence of writes without
conversion: all writes succeed, the stored value of every coordinate is that of the flat array
with the same writes, and no object that belongs to another dataset of the file, and no metadata,
is changed. -/
theorem writes_refine (env : Env) (ws : List (ArrayWrite d)) (σ : Store) :
    ∃ σ', runAll env ws σ = .ok σ' ∧
      (∀ y, Inside y d.extent →
        storedValue d.toDataset σ' y = flatWrites ws (storedValue d.toDataset σ) y) ∧
      (∀ binOid rank start, binOid < 18446744073709551616 → binOid ≠ d.binOid →
        σ' (chunkName d.fileName binOid rank start) =
          σ (chunkName d.fileName binOid rank start)) ∧
      ∀ fileName binOid, σ' (stringName fileName binOid) = σ (stringName fileName binOid) := by
  -- other objects have other names than the chunks of this dataset
  suffices hrun : ∃ σ', runAll env ws σ = .ok σ' ∧
      (∀ y, Inside y d.extent →
        storedValue d.toDataset σ' y = flatWrites ws (storedValue d.toDataset σ) y) ∧
      ∀ key, (∀ start, key ≠ objectName d.toDataset start) → σ' key = σ key by
    obtain ⟨σ', hok, hvalue, hframe⟩ := hrun
    refine ⟨σ', hok, hvalue, fun binOid rank start hlt hne => ?_, fun fileName binOid => ?_⟩
    · exact hframe _ fun start' =>
        chunkName_ne_of_oid d.fileName rank d.extent.length start start' hlt d.binOid_lt hne
    · exact hframe _ fun start' => (chunkName_ne_stringName _ _ _ _ _ start').symm
  induction ws generalizing σ with
  | nil => exact ⟨σ, rfl, fun _ _ => rfl, fun _ _ => rfl⟩
  | cons w ws ih =>
    obtain ⟨σ₁, hok₁, hvalue₁, hframe₁⟩ := run_spec w env σ
    obtain ⟨σ', hok, hvalue, hframe⟩ := ih σ₁
    refine ⟨σ', ?_, fun y hy => ?_, fun key hkey => ?_⟩
    · rw [runAll, hok₁]
      exact hok
    · rw [hvalue y hy]
      -- a write treats equal elements equally
      exact flatWrites_congr ws (hvalue₁ y hy)
    · rw [hframe key hkey, hframe₁ key hkey]

end Writes

/-! ## A dataset with partial chunks -/

/-- Nine elements of two bytes in chunks of two by two. -/
def nine : ArrayDataset where
  fileName := ['f']
  binOid := 5
  extent := [3, 3]
  layout := .chunked [2, 2]
  type := .atomic .integer 2 0
  rank_le := of_decide_eq_true rfl
  count := of_decide_eq_true rfl
  type_pos := Nat.two_pos
  binOid_lt := of_decide_eq_true rfl
  supported := Or.inr (Or.inr ⟨[2, 2], rfl, fun n hn => by
    rw [List.eq_of_mem_replicate (show n ∈ List.replicate 2 2 from hn)]
    exact Nat.two_pos, rfl, of_decide_eq_true rfl⟩)

/-- All elements, from a buffer that counts its bytes. -/
def wholeWrite : ArrayWrite nine where
  fileSpace := none
  memSpace := none
  buf := fun i => UInt8.ofNat i
  file_valid := Dataspace.valid_all nine.count
  file_extent := rfl
  mem_valid := Dataspace.valid_all nine.count
  mem_rank := rfl
  same_shape := of_decide_eq_true rfl
  bytes_lt := of_decide_eq_true rfl

theorem valid_column {extent : Coord} {points : List Coord}
    (h : points.all fun p => p.length == extent.length && (p.zip extent).all fun x => x.1 < x.2)
    (hcount : extent.prod < 9223372036854775808) (hsel : points.length < 9223372036854775808) :
    Dataspace.Valid ⟨extent, points⟩ := by
  refine ⟨fun p hp => ?_, hcount, hsel⟩
  have hall := List.all_eq_true.mp h p hp
  simp only [Bool.and_eq_true, beq_iff_eq, List.all_eq_true, decide_eq_true_eq] at hall
  exact List.forall₂_iff_zip.mpr ⟨hall.1, fun {a b} hab => hall.2 (a, b) hab⟩

/-- The second column, from the first one of a buffer of four by two elements. -/
def columnWrite : ArrayWrite nine where
  fileSpace := some ⟨[3, 3], [[0, 1], [1, 1], [2, 1]]⟩
  memSpace := some ⟨[4, 2], [[1, 0], [2, 0], [3, 0]]⟩
  buf := fun i => UInt8.ofNat (100 + i)
  file_valid := valid_column rfl (of_decide_eq_true rfl) (of_decide_eq_true rfl)
  file_extent := rfl
  mem_valid := valid_column rfl (of_decide_eq_true rfl) (of_decide_eq_true rfl)
  mem_rank := rfl
  same_shape := of_decide_eq_true rfl
  bytes_lt := of_decide_eq_true rfl

/-- An environment without conversions. -/
def plain : Env := ⟨elementwise, fun _ _ _ _ _ => ⟨fun _ => 0, fun _ => 0⟩, fun _ => 0, true⟩

theorem writes_refine_nine :
    ∃ σ', runAll plain [wholeWrite, columnWrite] (fun _ => none) = .ok σ' ∧
      storedValue nine.toDataset σ' [2, 1] = [112, 113] ∧
      storedValue nine.toDataset σ' [2, 2] = [16, 17] := by
  obtain ⟨σ', hok, hvalue, -⟩ := writes_refine plain [wholeWrite, columnWrite] fun _ => none
  have hinside : Inside [2, 1] nine.extent ∧ Inside [2, 2] nine.extent := by
    simp [Inside, nine]
  refine ⟨σ', hok, ?_, ?_⟩
  · rw [hvalue _ hinside.1]
    decide +kernel
  · rw [hvalue _ hinside.2]
    decide +kernel

end DTIO.Properties.ChunkedStorage
