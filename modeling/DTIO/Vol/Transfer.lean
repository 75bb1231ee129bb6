import DTIO.Vol.Datatype
import DTIO.Vol.IoOp
import DTIO.Vol.ObjectNames

/-!
# Transfers

`H5VL_dtio_dataset_write` and `H5VL_dtio_dataset_read` (`adapter/vol/vol-old/H5VLDTIO.cc`).
Both take arrays of datasets and have one set of local variables for all iterations of the loop
over them; what an iteration frees is not set to null.

What is written to `std::cerr` has no effect.

## Main definitions

- `oidCreateChunk`: the name of the object of a chunk
- `writeIteration`, `readIteration`: one dataset, with the variables left by the one before
- `datasetWrite`, `datasetRead`: all datasets
-/

namespace DTIO.Vol

open DTIO.Posix DTIO.Grid DTIO.MachineInt DTIO.Memory

/-! ## Pointers -/

/-- A pointer to memory of the connector. -/
inductive Ptr (α : Type) where
  | null
  | live (a : α)
  /-- not set to null when the memory was freed -/
  | freed
  deriving DecidableEq, Repr

namespace Ptr

variable {α : Type}

def deref : Ptr α → Except Stop α
  | live a => .ok a
  | _ => .error .fault

/-- `free`. -/
def free : Ptr α → Except Stop (Ptr α)
  | null => .ok null
  | live _ => .ok freed
  | freed => .error .fault

theorem deref_eq_ok {p : Ptr α} {a : α} : p.deref = .ok a ↔ p = .live a := by
  cases p with
  | null => exact ⟨nofun, nofun⟩
  | live b => exact ⟨fun h => congrArg live (Except.ok.inj h), fun h => congrArg Except.ok
      (live.inj h)⟩
  | freed => exact ⟨nofun, nofun⟩

end Ptr

/-- `H5VL_dtio_oid_create_chunk`: a name that is there already is overwritten. -/
def oidCreateChunk (fileName : Key) (binOid rank : Nat) (chunkLoc : Coord) (oid : Ptr Key) :
    Except Stop (Ptr Key) :=
  let name := chunkName fileName binOid rank chunkLoc
  if rank ≤ 99 then
    match oid with
    | .null => .ok (.live name)
    -- the buffer of the old name, which a longer one would overrun
    | .live old => if name.length ≤ old.length then .ok (.live name) else .error .fault
    | .freed => .error .fault
  -- the assertion
  else .error .fault

/-! ## Datasets and requests -/

/-- `H5Pget_layout`, with the dimensions of a chunk. -/
inductive Layout where
  | compact
  | contiguous
  | chunked (chunkDims : Coord)
  | other
  deriving DecidableEq, Repr

/-- An open dataset. -/
structure Dataset where
  fileName : Key
  binOid : Nat
  extent : Coord
  layout : Layout
  type : Datatype

/-- The entries of one dataset in the arrays of a call; `none` is `H5S_ALL`. -/
structure Request where
  dset : Dataset
  memType : Datatype
  fileSpace : Option Dataspace
  memSpace : Option Dataspace

/-- A buffer of the application. -/
abbrev Buffer := Nat → Byte

namespace Request

/-- `real_file_space_id` of a write. -/
def realFileSpace (r : Request) : Dataspace := r.fileSpace.getD (.all r.dset.extent)

/-- `real_mem_space_id` of a write. -/
def realMemSpace (r : Request) : Dataspace := r.memSpace.getD r.realFileSpace

end Request

/-- Who a dataspace handle belongs to. -/
inductive Owner where
  | dataset
  | caller
  | connector
  deriving DecidableEq, Repr

/-- The memory and the file dataspace of a dataset that is not chunked. -/
def Request.owners (r : Request) : List Owner :=
  let file := if r.fileSpace.isSome then Owner.caller else .dataset
  [if r.memSpace.isSome then .caller else file, file]

/-- What `H5Tconvert` leaves in the two buffers. -/
structure Conversion where
  tconv : Nat → Byte
  bkg : Nat → Byte

/-- What the transfers depend on: HDF5, the content of allocated memory, and where the compiler
places two variables. -/
structure Env where
  iter : SelIter
  convert : Datatype → Datatype → Nat → List Byte → Option (List Byte) → Conversion
  heap : Nat → Byte
  dstAbove : Bool

/-! ## Writing -/

/-- The variables of `H5VL_dtio_dataset_write` that an iteration leaves to the next one. -/
structure WriteLocals where
  chunkInfo : Ptr (List ChunkInfo)
  chunkOid : Ptr Key
  tconv : Tconv
  tconvBuf : Ptr (List Byte)
  bkgBuf : Ptr (List Byte)
  closeSpaces : Bool

def WriteLocals.init : WriteLocals := ⟨.null, .null, .init, .null, .null, false⟩

/-- The `switch` over the layout.  Where the chunks cannot be determined, or the layout is not
supported, `chunk_info` is what it was. -/
def selectChunks (r : Request) (file mem : Dataspace) (chunkInfo : Ptr (List ChunkInfo))
    (closeSpaces : Bool) : Except Stop (Ptr (List ChunkInfo) × Bool) :=
  match r.dset.layout with
  | .compact | .contiguous => .ok (.live [⟨List.replicate maxRank 0, mem, file⟩], closeSpaces)
  | .chunked chunkDims =>
    match getSelectedChunkInfo chunkDims file mem with
    | .ok infos => .ok (.live infos, true)
    | .error .fail => .ok (chunkInfo, true)
    | .error .fault => .error .fault
  | .other => .ok (chunkInfo, closeSpaces)

/-- `H5Dgather` of elements of `size` bytes. -/
def gather (space : Dataspace) (buf : Buffer) (size : Nat) (dst : List Byte) :
    Except Stop (List Byte) :=
  orFault (store dst 0 ((space.bytes size).map buf))

/-- `H5Tconvert` of `n` elements in `tconv`, with a background if the conversion needs one. -/
def hConvert (env : Env) (src dst : Datatype) (n : Nat) (tconv : List Byte)
    (bkg : Option (List Byte)) : Except Stop (List Byte × Option (List Byte)) :=
  if n * max src.size dst.size ≤ tconv.length ∧ ∀ b ∈ bkg, n * dst.size ≤ b.length then
    let c := env.convert src dst n tconv bkg
    .ok ((List.range tconv.length).map c.tconv, bkg.map fun b => (List.range b.length).map c.bkg)
  else .error .fault

/-- The write operation of a chunk without conversion; `single` tells that there is one chunk. -/
def buildEqual (env : Env) (r : Request) (single : Bool) (size : Nat) (info : ChunkInfo) :
    Except Stop (List Entry) :=
  let numElem := info.mspace.npoints
  let matchSelect := r.memSpace.isNone && single &&
    decide (r.realFileSpace.extent = info.fspace.extent)
  if matchSelect then buildIoOpMatch env.iter info.fspace size numElem
  else buildIoOpMerge env.iter info.mspace info.fspace size numElem

/-- One chunk of a write without conversion. -/
def writeEqual (env : Env) (r : Request) (buf : Buffer) (single : Bool) (size : Nat)
    (info : ChunkInfo) (key : Key) (σ : Store) : Except Stop Store := do
  let writeOp ← buildEqual env r single size info
  writeOpOperate (userData buf) writeOp key σ

/-- The background of a conversion, filled with what is stored if necessary.  `op` reads the same
places that the write operation writes. -/
def background (t : Tconv) (op : List Entry) (key : Key) (σ : Store) (bkgBuf : Ptr (List Byte)) :
    Except Stop (Option (List Byte)) :=
  if t.fillBkg then do
    let b ← bkgBuf.deref
    return some (← readOpOperate op key σ b)
  else if t.needBkg then do
    return some (← bkgBuf.deref)
  else .ok none

/-- One chunk of a write with conversion: the two buffers and the store afterwards. -/
def writeConverted (env : Env) (r : Request) (buf : Buffer) (t : Tconv) (info : ChunkInfo)
    (key : Key) (tconvBuf bkgBuf : Ptr (List Byte)) (σ : Store) :
    Except Stop (List Byte × Option (List Byte) × Store) := do
  let numElem := info.mspace.npoints
  let op ← buildIoOpContig env.iter info.fspace t.srcTypeSize numElem
  let bkg ← background t op key σ bkgBuf
  let tconv ← tconvBuf.deref
  let tconv ← gather info.mspace buf t.dstTypeSize tconv
  let converted ← hConvert env r.memType r.dset.type numElem tconv bkg
  let σ ← writeOpOperate (load converted.1) op key σ
  return (converted.1, converted.2, σ)

/-- One chunk of a write. -/
def writeChunk (env : Env) (r : Request) (buf : Buffer) (single : Bool)
    (s : WriteLocals × Store) (info : ChunkInfo) : Except Stop (WriteLocals × Store) := do
  let L := s.1
  let chunkOid ← oidCreateChunk r.dset.fileName r.dset.binOid r.dset.extent.length
    info.chunkCoords L.chunkOid
  let key ← chunkOid.deref
  if L.tconv.typesEqual then do
    let σ ← writeEqual env r buf single L.tconv.srcTypeSize info key s.2
    return ({ L with chunkOid := chunkOid }, σ)
  else do
    let done ← writeConverted env r buf L.tconv info key L.tconvBuf L.bkgBuf s.2
    return ({ L with
      chunkOid := chunkOid
      tconvBuf := .live done.1
      bkgBuf := match done.2.1 with | some b => .live b | none => L.bkgBuf }, done.2.2)

/-- How an iteration ends: it returns from the function, or goes on to the next dataset and has
closed dataspaces. -/
inductive Step (L W : Type) where
  | returns (world : W)
  | next (locals : L) (world : W) (closed : List Owner)

/-- `malloc` of a `size_t`. -/
def mallocSize (env : Env) (n : Nat) : List Byte := malloc env.heap (toUnsigned64 (n : Int))

/-- The dataspaces that the clean-up closes. -/
def closedSpaces (r : Request) (closeSpaces : Bool) (infos : List ChunkInfo) : List Owner :=
  if closeSpaces then
    match r.dset.layout with
    | .chunked _ => infos.flatMap fun _ => [.connector, .connector]
    | _ => r.owners
  else []

/-- The variables before the loop over the chunks: both buffers are allocated if necessary, for
the first chunk. -/
def allocate (env : Env) (t : Tconv) (first : ChunkInfo) (L : WriteLocals) : WriteLocals :=
  let numElemChunk := first.fspace.extentNpoints
  { L with
    tconv := t
    tconvBuf := if t.typesEqual then L.tconvBuf
      else .live (mallocSize env (numElemChunk * max t.srcTypeSize t.dstTypeSize))
    bkgBuf := if t.needBkg then .live (mallocSize env (numElemChunk * t.dstTypeSize))
      else L.bkgBuf }

/-- The iteration of `H5VL_dtio_dataset_write` for a dataset with a selection. -/
def writeDataset (env : Env) (r : Request) (buf : Buffer) (L : WriteLocals) (σ : Store) :
    Except Stop (Step WriteLocals Store) := do
  let t ← orFault (tconvInit env.dstAbove r.dset.type (some r.memType) L.tconv)
  let selected ← selectChunks r r.realFileSpace r.realMemSpace L.chunkInfo L.closeSpaces
  -- `chunk_info[0]` is read before the loop over the chunks
  let infos ← selected.1.deref
  let first ← orFault infos.head?
  let done ← infos.foldlM (writeChunk env r buf (infos.length == 1)) (allocate env t first L, σ)
  -- what is freed is not set to null
  let chunkOid ← done.1.chunkOid.free
  let tconvBuf ← done.1.tconvBuf.free
  let bkgBuf ← done.1.bkgBuf.free
  return .next ⟨.freed, chunkOid, t, tconvBuf, bkgBuf, selected.2⟩ done.2
    (closedSpaces r selected.2 infos)

/-- The iteration of `H5VL_dtio_dataset_write` for one dataset.  Another number of points in
memory is only reported. -/
def writeIteration (env : Env) (r : Request) (buf : Buffer) (L : WriteLocals) (σ : Store) :
    Except Stop (Step WriteLocals Store) :=
  if r.realFileSpace.npoints = 0 then .ok (.returns σ) else writeDataset env r buf L σ

/-- `H5VL_dtio_dataset_write`, from the variables `L` on. -/
def datasetWrite (env : Env) :
    List (Request × Buffer) → WriteLocals → Store → Except Stop (Store × List Owner)
  | [], _, σ => .ok (σ, [])
  | (r, buf) :: rest, L, σ =>
    match writeIteration env r buf L σ with
    | .error e => .error e
    | .ok (.returns σ) => .ok (σ, [])
    | .ok (.next L σ closed) =>
      (datasetWrite env rest L σ).map fun x => (x.1, closed ++ x.2)

/-! ## Reading

`H5VL_dtio_dataset_read` uses three of its arrays as if they were entries: `mem_type_id` is given
to `H5VL_dtio_tconv_init`, which does not take it for a datatype and fails; `file_space_id` and
`mem_space_id` are compared with `H5S_ALL`, which they never are; and `buf` itself is read into,
not the buffer that it points to.  The types count as equal in every iteration, and the branch
for a conversion is never taken. -/

/-- An entry of `chunk_info` in a read; `none` is an identifier that is not one of a dataspace,
which `H5S_ALL` is not. -/
structure ReadChunk where
  chunkCoords : Coord
  mspace : Option Dataspace
  fspace : Option Dataspace

/-- The variables of `H5VL_dtio_dataset_read` that an iteration leaves to the next one; the
buffers of the conversion stay null. -/
structure ReadLocals where
  chunkInfo : Ptr (List ReadChunk)
  chunkOid : Ptr Key
  tconv : Tconv
  closeSpaces : Bool

def ReadLocals.init : ReadLocals := ⟨.null, .null, .init, false⟩

/-- The memory of the application in a read: the array `buf`, as bytes, and the buffers that it
points to. -/
structure ReadTarget where
  array : List Byte
  buffers : List Buffer

/-- `H5Sget_select_npoints`, negative for what is not a dataspace. -/
def selectNpoints (space : Option Dataspace) : Int :=
  match space with
  | some s => s.npoints
  | none => -1

/-- The `switch` over the layout in a read. -/
def selectReadChunks (r : Request) (chunkInfo : Ptr (List ReadChunk)) (closeSpaces : Bool) :
    Except Stop (Ptr (List ReadChunk) × Bool) :=
  match r.dset.layout with
  | .compact | .contiguous =>
    .ok (.live [⟨List.replicate maxRank 0, r.memSpace, r.fileSpace⟩], closeSpaces)
  | .chunked chunkDims =>
    match r.fileSpace, r.memSpace with
    | some file, some mem =>
      -- as in a write
      match getSelectedChunkInfo chunkDims file mem with
      | .ok infos =>
        .ok (.live (infos.map fun i => ⟨i.chunkCoords, some i.mspace, some i.fspace⟩), true)
      | .error .fail => .ok (chunkInfo, true)
      | .error .fault => .error .fault
    -- `H5VL_dtio_get_selected_chunk_info` fails
    | _, _ => .ok (chunkInfo, true)
  | .other => .ok (chunkInfo, closeSpaces)

/-- The read operation of a chunk.  It stays empty where `H5VL_dtio_build_io_op_merge` fails,
which it does after the assertion `tot_nelem > 0`. -/
def buildRead (env : Env) (size : Nat) (info : ReadChunk) : Except Stop (List Entry) :=
  match info.mspace, info.fspace with
  | some mem, some file => buildIoOpMerge env.iter mem file size mem.npoints
  | some mem, none => if mem.npoints > 0 then .ok [] else .error .fault
  | none, _ => .ok []

/-- One chunk of a read. -/
def readChunk (env : Env) (r : Request) (σ : Store) (s : ReadLocals × ReadTarget)
    (info : ReadChunk) : Except Stop (ReadLocals × ReadTarget) := do
  let chunkOid ← oidCreateChunk r.dset.fileName r.dset.binOid r.dset.extent.length
    info.chunkCoords s.1.chunkOid
  let key ← chunkOid.deref
  let readOp ← buildRead env s.1.tconv.srcTypeSize info
  let array ← readOpOperate readOp key σ s.2.array
  return ({ s.1 with chunkOid := chunkOid }, { s.2 with array := array })

/-- The dataspaces that the clean-up of a read closes. -/
def closedReadSpaces (r : Request) (closeSpaces : Bool) (infos : List ReadChunk) : List Owner :=
  if closeSpaces then
    match r.dset.layout with
    | .chunked _ => infos.flatMap fun _ => [.connector, .connector]
    | _ => (r.memSpace.toList ++ r.fileSpace.toList).map fun _ => .caller
  else []

/-- The iteration of `H5VL_dtio_dataset_read` for a dataset with a selection. -/
def readDataset (env : Env) (σ : Store) (r : Request) (L : ReadLocals) (w : ReadTarget) :
    Except Stop (Step ReadLocals ReadTarget) := do
  let t ← orFault (tconvInit env.dstAbove r.dset.type none L.tconv)
  let selected ← selectReadChunks r L.chunkInfo L.closeSpaces
  -- `chunk_info[0]` is read before the loop over the chunks
  let infos ← selected.1.deref
  let _ ← orFault infos.head?
  let done ← infos.foldlM (readChunk env r σ) ({ L with tconv := t }, w)
  let chunkOid ← done.1.chunkOid.free
  return .next ⟨.freed, chunkOid, t, selected.2⟩ done.2 (closedReadSpaces r selected.2 infos)

/-- The iteration of `H5VL_dtio_dataset_read` for one dataset. -/
def readIteration (env : Env) (σ : Store) (r : Request) (L : ReadLocals) (w : ReadTarget) :
    Except Stop (Step ReadLocals ReadTarget) :=
  if selectNpoints r.fileSpace = 0 then .ok (.returns w) else readDataset env σ r L w

/-- `H5VL_dtio_dataset_read`, from the variables `L` on. -/
def datasetRead (env : Env) (σ : Store) :
    List Request → ReadLocals → ReadTarget → Except Stop (ReadTarget × List Owner)
  | [], _, w => .ok (w, [])
  | r :: rest, L, w =>
    match readIteration env σ r L w with
    | .error e => .error e
    | .ok (.returns w) => .ok (w, [])
    | .ok (.next L w closed) =>
      (datasetRead env σ rest L w).map fun x => (x.1, closed ++ x.2)

/-! ## What an iteration leaves -/

section Leaves

variable {env : Env} {r : Request} {σ : Store}

/-- A dataset that is not chunked is a single chunk. -/
theorem selectChunks_whole (h : r.dset.layout = .compact ∨ r.dset.layout = .contiguous)
    (file mem : Dataspace) (chunkInfo : Ptr (List ChunkInfo)) (closeSpaces : Bool) :
    selectChunks r file mem chunkInfo closeSpaces =
      .ok (.live [⟨List.replicate maxRank 0, mem, file⟩], closeSpaces) := by
  unfold selectChunks
  rcases h with h | h
  · rw [h]
  · rw [h]

/-- A name is created in new memory or in memory that is not freed. -/
theorem oidCreateChunk_live {fileName : Key} {binOid rank : Nat} {loc : Coord} {oid oid' : Ptr Key}
    (h : oidCreateChunk fileName binOid rank loc oid = .ok oid') :
    oid ≠ .freed ∧ oid' = .live (chunkName fileName binOid rank loc) := by
  unfold oidCreateChunk at h
  split at h
  · cases oid with
    | null =>
      cases h
      exact ⟨nofun, rfl⟩
    | live old =>
      simp only at h
      split at h
      · cases h
        exact ⟨nofun, rfl⟩
      · cases h
    | freed => cases h
  · cases h

/-- A chunk is written under a new name, with the conversion of the dataset. -/
theorem writeChunk_ok {buf : Buffer} {single : Bool} {s s' : WriteLocals × Store}
    {info : ChunkInfo} (h : writeChunk env r buf single s info = .ok s') :
    s.1.chunkOid ≠ .freed ∧ (∃ name, s'.1.chunkOid = .live name) ∧
      s'.1.tconv = s.1.tconv := by
  unfold writeChunk at h
  obtain ⟨oid, hoid, h⟩ := bind_eq_ok.mp h
  obtain ⟨hfreed, rfl⟩ := oidCreateChunk_live hoid
  obtain ⟨key, -, h⟩ := bind_eq_ok.mp h
  split at h
  · obtain ⟨_, -, h⟩ := bind_eq_ok.mp h
    cases h
    exact ⟨hfreed, ⟨_, rfl⟩, rfl⟩
  · obtain ⟨_, -, h⟩ := bind_eq_ok.mp h
    cases h
    exact ⟨hfreed, ⟨_, rfl⟩, rfl⟩

/-- A chunk concerns one object. -/
theorem writeChunk_frame {buf : Buffer} {single : Bool} {s s' : WriteLocals × Store}
    {info : ChunkInfo} (h : writeChunk env r buf single s info = .ok s') {key : Key}
    (hne : key ≠ chunkName r.dset.fileName r.dset.binOid r.dset.extent.length info.chunkCoords) :
    s'.2 key = s.2 key := by
  unfold writeChunk at h
  -- the chunk's name is in the buffer before anything is written
  obtain ⟨oid, hoid, h⟩ := bind_eq_ok.mp h
  obtain ⟨-, rfl⟩ := oidCreateChunk_live hoid
  obtain ⟨key', hkey', h⟩ := bind_eq_ok.mp h
  cases hkey'
  split at h
  -- no conversion: one operation on that object
  · obtain ⟨σ', hwrite, h⟩ := bind_eq_ok.mp h
    cases h
    obtain ⟨op, -, hwrite⟩ := bind_eq_ok.mp hwrite
    exact writeOpOperate_frame hwrite hne
  -- with conversion: only the last of the steps writes
  · obtain ⟨done, hwrite, h⟩ := bind_eq_ok.mp h
    cases h
    unfold writeConverted at hwrite
    obtain ⟨_, -, hwrite⟩ := bind_eq_ok.mp hwrite
    obtain ⟨_, -, hwrite⟩ := bind_eq_ok.mp hwrite
    obtain ⟨_, -, hwrite⟩ := bind_eq_ok.mp hwrite
    obtain ⟨_, -, hwrite⟩ := bind_eq_ok.mp hwrite
    obtain ⟨_, -, hwrite⟩ := bind_eq_ok.mp hwrite
    obtain ⟨σ', hoperate, hwrite⟩ := bind_eq_ok.mp hwrite
    cases hwrite
    exact writeOpOperate_frame hoperate hne

/-- Chunks concern their objects. -/
theorem writeChunks_frame {buf : Buffer} {single : Bool} {infos : List ChunkInfo} {key : Key}
    (hne : ∀ info ∈ infos,
      key ≠ chunkName r.dset.fileName r.dset.binOid r.dset.extent.length info.chunkCoords) :
    ∀ {s s' : WriteLocals × Store}, infos.foldlM (writeChunk env r buf single) s = .ok s' →
      s'.2 key = s.2 key := by
  induction infos with
  | nil =>
    intro s s' h
    cases h
    rfl
  | cons info infos ih =>
    intro s s' h
    obtain ⟨s₁, hs₁, h⟩ := bind_eq_ok.mp h
    rw [ih (fun i hi => hne i (List.mem_cons_of_mem _ hi)) h,
      writeChunk_frame hs₁ (hne info List.mem_cons_self)]

theorem readChunk_ok {s s' : ReadLocals × ReadTarget} {info : ReadChunk}
    (h : readChunk env r σ s info = .ok s') :
    s.1.chunkOid ≠ .freed ∧ (∃ name, s'.1.chunkOid = .live name) ∧
      s'.2.buffers = s.2.buffers := by
  unfold readChunk at h
  obtain ⟨oid, hoid, h⟩ := bind_eq_ok.mp h
  obtain ⟨hfreed, rfl⟩ := oidCreateChunk_live hoid
  obtain ⟨key, -, h⟩ := bind_eq_ok.mp h
  obtain ⟨_, -, h⟩ := bind_eq_ok.mp h
  obtain ⟨_, -, h⟩ := bind_eq_ok.mp h
  cases h
  exact ⟨hfreed, ⟨_, rfl⟩, rfl⟩

/-- What every step of a loop establishes holds after a loop with a step. -/
theorem foldlM_ok {α β : Type} {f : β → α → Except Stop β} {P : β → Prop}
    (hstep : ∀ {b a b'}, f b a = .ok b' → P b') {a : α} {l : List α} :
    ∀ {b b' : β}, (a :: l).foldlM f b = .ok b' → P b' := by
  induction l generalizing a with
  | nil =>
    intro b b' h
    obtain ⟨b₁, h₁, h⟩ := bind_eq_ok.mp h
    cases h
    exact hstep h₁
  | cons a' l ih =>
    intro b b' h
    obtain ⟨b₁, -, h⟩ := bind_eq_ok.mp h
    exact ih h

/-- The chunks that are read through a pointer, the first one before the loop. -/
theorem deref_head {α : Type} {p : Ptr (List α)} {l : List α} {a : α} (h : p.deref = .ok l)
    (hhead : orFault l.head? = .ok a) : ∃ rest, l = a :: rest ∧ p = .live (a :: rest) := by
  obtain rfl := Ptr.deref_eq_ok.mp h
  cases l with
  | nil => cases hhead
  | cons b rest =>
    obtain rfl := Option.some.inj (orFault_eq_ok.mp hhead)
    exact ⟨rest, rfl, rfl⟩

/-- A write of a dataset that succeeds: its conversion, its chunks, and the variables after it. -/
theorem writeDataset_ok {buf : Buffer} {L : WriteLocals} {s : Step WriteLocals Store}
    (h : writeDataset env r buf L σ = .ok s) :
    ∃ t selected first rest done L',
      tconvInit env.dstAbove r.dset.type (some r.memType) L.tconv = some t ∧
      selectChunks r r.realFileSpace r.realMemSpace L.chunkInfo L.closeSpaces =
        .ok (.live (first :: rest), selected) ∧
      (first :: rest).foldlM (writeChunk env r buf ((first :: rest).length == 1))
        (allocate env t first L, σ) = .ok done ∧
      L.chunkOid ≠ .freed ∧ L'.chunkOid = .freed ∧ L'.chunkInfo = .freed ∧
      s = .next L' done.2 (closedSpaces r selected (first :: rest)) := by
  unfold writeDataset at h
  obtain ⟨t, ht, h⟩ := bind_eq_ok.mp h
  obtain ⟨⟨info, selected⟩, hselected, h⟩ := bind_eq_ok.mp h
  obtain ⟨infos, hinfos, h⟩ := bind_eq_ok.mp h
  obtain ⟨first, hfirst, h⟩ := bind_eq_ok.mp h
  obtain ⟨done, hdone, h⟩ := bind_eq_ok.mp h
  obtain ⟨oid, hoid, h⟩ := bind_eq_ok.mp h
  obtain ⟨tconvBuf, -, h⟩ := bind_eq_ok.mp h
  obtain ⟨bkgBuf, -, h⟩ := bind_eq_ok.mp h
  cases h
  obtain ⟨rest, rfl, rfl⟩ := deref_head hinfos hfirst
  -- the last chunk has left a name, which is freed
  have hlive : ∃ name, done.1.chunkOid = .live name :=
    foldlM_ok (P := fun s => ∃ name, s.1.chunkOid = .live name)
      (fun h => (writeChunk_ok h).2.1) hdone
  obtain ⟨name, hname⟩ := hlive
  rw [hname] at hoid
  cases hoid
  obtain ⟨s₁, hs₁, -⟩ := bind_eq_ok.mp hdone
  exact ⟨t, selected, first, rest, done, _, orFault_eq_ok.mp ht, hselected, hdone,
    (writeChunk_ok hs₁).1, rfl, rfl, rfl⟩

/-- The next iteration finds no chunks of this one. -/
theorem writeIteration_chunkInfo {buf : Buffer} {L L' : WriteLocals} {σ' : Store}
    {closed : List Owner} (h : writeIteration env r buf L σ = .ok (.next L' σ' closed)) :
    L'.chunkInfo = .freed := by
  unfold writeIteration at h
  split at h
  · cases h
  · obtain ⟨_, _, _, _, _, _, -, -, -, -, -, hinfo, hs⟩ := writeDataset_ok h
    cases hs
    exact hinfo

theorem readDataset_ok {L : ReadLocals} {w : ReadTarget} {s : Step ReadLocals ReadTarget}
    (h : readDataset env σ r L w = .ok s) :
    ∃ t selected first rest done L',
      tconvInit env.dstAbove r.dset.type none L.tconv = some t ∧
      selectReadChunks r L.chunkInfo L.closeSpaces = .ok (.live (first :: rest), selected) ∧
      (first :: rest).foldlM (readChunk env r σ) ({ L with tconv := t }, w) = .ok done ∧
      L.chunkOid ≠ .freed ∧ L'.chunkOid = .freed ∧ L'.tconv = t ∧
      s = .next L' done.2 (closedReadSpaces r selected (first :: rest)) := by
  unfold readDataset at h
  obtain ⟨t, ht, h⟩ := bind_eq_ok.mp h
  obtain ⟨⟨info, selected⟩, hselected, h⟩ := bind_eq_ok.mp h
  obtain ⟨infos, hinfos, h⟩ := bind_eq_ok.mp h
  obtain ⟨first, hfirst, h⟩ := bind_eq_ok.mp h
  obtain ⟨done, hdone, h⟩ := bind_eq_ok.mp h
  obtain ⟨oid, hoid, h⟩ := bind_eq_ok.mp h
  cases h
  -- the list of chunks has a first one, whose dataspaces are taken
  obtain ⟨rest, rfl, rfl⟩ := deref_head hinfos hfirst
  -- the name buffer was allocated by the chunks, so it can be freed
  have hlive : ∃ name, done.1.chunkOid = .live name :=
    foldlM_ok (P := fun s => ∃ name, s.1.chunkOid = .live name)
      (fun h => (readChunk_ok h).2.1) hdone
  obtain ⟨name, hname⟩ := hlive
  rw [hname] at hoid
  cases hoid
  obtain ⟨s₁, hs₁, -⟩ := bind_eq_ok.mp hdone
  exact ⟨t, selected, first, rest, done, _, orFault_eq_ok.mp ht, hselected, hdone,
    (readChunk_ok hs₁).1, rfl, rfl, rfl⟩

end Leaves

end DTIO.Vol
