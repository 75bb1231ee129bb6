import DTIO.Foundation.Broadcast
import DTIO.Foundation.MachineInt
import DTIO.Foundation.Memory
import DTIO.Posix.State

/-!
# Opening Files and Datasets of the HDF5 Connector

`H5VL_dtio_dataset_open` and `H5VL_dtio_file_open` (`adapter/vol/vol-old/H5VLDTIO.cc`).  Rank 0
reads the stored metadata and broadcasts it in a buffer of fixed size; what does not fit goes
into a second broadcast.  Both sides have a buffer on the stack and allocate another one when
they need it.

Messages to `std::cerr` are not control flow: after a failed check the code goes on.

## Main definitions

- `datasetRecord`: what `H5VL_dtio_dataset_create` stores
- `datasetOpen`, `fileOpen`: the programs of one rank
-/

namespace DTIO.Vol

open DTIO.Posix DTIO.Memory DTIO.Broadcast DTIO.MachineInt

/-! ## What the ranks share -/

/-- The communicators of an open: the duplicate `file->comm`, and `info->comm` of the access
list. -/
inductive Comm where
  | file
  | info
  deriving DecidableEq, Repr

/-- The previous content of a rank's stack buffer and of what it allocates. -/
structure RankMemory where
  stack : Nat → Byte
  heap : Nat → Byte

/-- `UINT64DECODE` at an offset. -/
def uint64 (mem : List Byte) (off : Nat) : Option Nat := (load mem off 8).map decodeLE

/-- The `int` count of a broadcast; a negative one is no count. -/
def mpiCount (n : Nat) : Option Nat :=
  if toSigned32 n < 0 then none else some (toSigned32 n).toNat

/-- `UINT64ENCODE`. -/
def encode64 (n : Nat) : List Byte := encodeLE 8 n

@[simp] theorem length_encode64 (n : Nat) : (encode64 n).length = 8 := length_encodeLE 8 n

theorem uint64_append {pre post : List Byte} {n off : Nat} (hoff : pre.length = off)
    (hn : n < 18446744073709551616) : uint64 (pre ++ (encode64 n ++ post)) off = some n := by
  unfold uint64
  rw [load_append hoff (length_encode64 n), Option.map_some]
  exact congrArg some (decodeLE_encodeLE hn)

/-- A number at the beginning. -/
theorem uint64_first {n : Nat} (post : List Byte) (hn : n < 18446744073709551616) :
    uint64 (encode64 n ++ post) 0 = some n := by
  have hempty : ([] : List Byte).length = 0 := rfl
  exact uint64_append hempty hn

theorem mpiCount_of_lt {n : Nat} (h : n < 2147483648) : mpiCount n = some n := by
  have hsigned : toSigned32 n = n := Int.bmod_eq_of_le_mul_two (by omega) (by omega)
  unfold mpiCount
  rw [hsigned, if_neg (by omega), Int.toNat_natCast]

/-! ## Datasets -/

/-- The serialised datatype, dataspace and creation property list of a dataset. -/
structure DatasetInfo where
  type : List Byte
  space : List Byte
  dcpl : List Byte
  deriving DecidableEq, Repr

/-- The three strings one after another. -/
def DatasetInfo.strings (d : DatasetInfo) : List Byte := d.type ++ (d.space ++ d.dcpl)

/-- `md_buf` of `H5VL_dtio_dataset_create`: the three lengths, then the strings. -/
def datasetRecord (d : DatasetInfo) : List Byte :=
  encode64 d.type.length ++ (encode64 d.space.length ++ (encode64 d.dcpl.length ++ d.strings))

/-- What a rank ends with. -/
structure OpenedDataset where
  binOid : Nat
  info : DatasetInfo
  deriving DecidableEq, Repr

/-- `H5VL_DTIO_DINFO_BUF_SIZE`. -/
def dinfoBufSize : Nat := 1024

/-- `H5Tdecode(p)`, `H5Sdecode(p)` and `H5Pdecode(p)` with `p` at `off`. -/
def decodeDataset (buf : List Byte) (off binOid typeLen spaceLen dcplLen : Nat) :
    Option OpenedDataset := do
  let type ← load buf off typeLen
  let space ← load buf (off + typeLen) spaceLen
  let dcpl ← load buf (off + typeLen + spaceLen) dcplLen
  return ⟨binOid, type, space, dcpl⟩

/-- The variables with which a rank comes to the decoding: the buffer, the position of `p` in it,
and what was decoded from the header. -/
structure DatasetBuffer where
  buf : List Byte
  off : Nat
  binOid : Nat
  typeLen : Nat
  spaceLen : Nat
  dcplLen : Nat
  deriving DecidableEq, Repr

/-- The decoding, which all ranks have in common. -/
def DatasetBuffer.decode (b : DatasetBuffer) : Option OpenedDataset :=
  decodeDataset b.buf b.off b.binOid b.typeLen b.spaceLen b.dcplLen

/-- The branch of the ranks that read the record themselves; `bcast` tells whether other ranks
wait for it.  That the lengths do not match is only reported. -/
def readDatasetInfo (bcast : Bool) (binOid : Nat) (record : List Byte) (m : RankMemory) :
    Proc Comm Byte DatasetBuffer := do
  let mdLen := record.length
  let dyn := decide (mdLen + 8 > dinfoBufSize)
  let buf := if dyn then malloc m.heap (mdLen + 8) else malloc m.stack dinfoBufSize
  let buf ← .ofOption (store buf 8 record)
  let typeLen ← .ofOption (uint64 buf 8)
  let spaceLen ← .ofOption (uint64 buf 16)
  let dcplLen ← .ofOption (uint64 buf 24)
  if bcast then
    let buf ← .ofOption (store buf 0 (encode64 binOid))
    .assert (mdLen + 8 ≥ dinfoBufSize || !dyn)
    let first ← .ofOption (load buf 0 dinfoBufSize)
    .bcastSend .file first
    if dyn then
      .assert (mdLen + 8 > dinfoBufSize)
      let count ← .ofOption (mpiCount (mdLen - 24))
      let second ← .ofOption (load buf 32 count)
      .bcastSend .file second
    return ⟨buf, 32, binOid, typeLen, spaceLen, dcplLen⟩
  else
    return ⟨buf, 32, binOid, typeLen, spaceLen, dcplLen⟩

/-- What a receiving rank does with the first broadcast.  The sum of the lengths wraps; that
`type_len` is 0 is only reported. -/
def receiveDatasetInfo (m : RankMemory) (first : List Byte) : Proc Comm Byte DatasetBuffer := do
  let static ← .ofOption (store (malloc m.stack dinfoBufSize) 0 first)
  let binOid ← .ofOption (uint64 static 0)
  let typeLen ← .ofOption (uint64 static 8)
  let spaceLen ← .ofOption (uint64 static 16)
  let dcplLen ← .ofOption (uint64 static 24)
  let totLen := toUnsigned64 ((typeLen + spaceLen + dcplLen : Nat) : Int)
  if toUnsigned64 ((totLen + 32 : Nat) : Int) > dinfoBufSize then
    -- what does not fit even without the header gets a buffer of its own
    let buf := if totLen > dinfoBufSize then malloc m.heap totLen else static
    let count ← .ofOption (mpiCount totLen)
    let second ← .bcastRecv .file count
    let buf ← .ofOption (store buf 0 second)
    return ⟨buf, 0, binOid, typeLen, spaceLen, dcplLen⟩
  else
    return ⟨static, 32, binOid, typeLen, spaceLen, dcplLen⟩

/-- The ranks that read the record themselves. -/
def datasetOpenReader (bcast : Bool) (binOid : Nat) (record : List Byte) (m : RankMemory) :
    Proc Comm Byte OpenedDataset := do
  let b ← readDatasetInfo bcast binOid record m
  .ofOption b.decode

/-- The other ranks from the first broadcast on. -/
def datasetReceived (m : RankMemory) (first : List Byte) : Proc Comm Byte OpenedDataset := do
  let b ← receiveDatasetInfo m first
  .ofOption b.decode

/-- The branch of the ranks that receive. -/
def datasetOpenReceiver (m : RankMemory) : Proc Comm Byte OpenedDataset := do
  let first ← .bcastRecv .file dinfoBufSize
  datasetReceived m first

/-- `H5VL_dtio_dataset_open` of one rank.  `binOid` and `record` are what the link leads to. -/
def datasetOpen (collective : Bool) (rank numProcs binOid : Nat) (record : List Byte)
    (m : RankMemory) : Proc Comm Byte OpenedDataset :=
  if !collective || rank == 0 then
    datasetOpenReader (collective && decide (numProcs > 1)) binOid record m
  else datasetOpenReceiver m

/-! ## Files -/

/-- What a rank ends with: the highest oid, and the bytes the root group is built from. -/
structure OpenedFile where
  maxOid : Nat
  gcpl : List Byte
  deriving DecidableEq, Repr

/-- `H5VL_DTIO_FOI_BUF_SIZE`. -/
def foiBufSize : Nat := 1024

/-- A position in the static or in the dynamic buffer. -/
structure Cursor where
  dyn : Bool
  off : Nat
  deriving DecidableEq, Repr

/-- The branch of rank 0.  `globMd` and `gcpl` are the stored objects;
`H5VL_dtio_group_open_helper` builds the root group from all of `gcpl`. -/
def fileOpenReader (numProcs : Nat) (globMd gcpl : List Byte) (m : RankMemory) :
    Proc Comm Byte OpenedFile := do
  let static ← .ofOption (store (malloc m.stack foiBufSize) 0 (globMd.take 8))
  let maxOid ← .ofOption (uint64 static 0)
  -- where `UINT64DECODE` leaves the cursor
  let p : Cursor := ⟨false, 8⟩
  let gcplLen := gcpl.length
  if numProcs > 1 then
    let dyn := decide (gcplLen + 16 > foiBufSize)
    let header ← .ofOption (load static 0 8)
    let buf ← if dyn then .ofOption (store (malloc m.heap (gcplLen + 16)) 0 header)
      else .done static
    -- the cursor has to be in `foi_buf`
    .assert (p = ⟨dyn, 8⟩)
    let buf ← .ofOption (store buf p.off (encode64 gcplLen))
    let buf ← .ofOption (store buf (p.off + 8) gcpl)
    let first ← .ofOption (load buf 0 foiBufSize)
    .bcastSend .file first
    if dyn then
      let count ← .ofOption (mpiCount gcplLen)
      let second ← .ofOption (load buf (p.off + 8) count)
      .bcastSend .file second
    return ⟨maxOid, gcpl⟩
  else
    return ⟨maxOid, gcpl⟩

/-- What another rank does with the first broadcast.  `info` is `info->comm`, if the access
list has connector info. -/
def fileReceived (info : Option Comm) (m : RankMemory) (first : List Byte) :
    Proc Comm Byte OpenedFile := do
  let static ← .ofOption (store (malloc m.stack foiBufSize) 0 first)
  let maxOid ← .ofOption (uint64 static 0)
  let gcplLen ← .ofOption (uint64 static 8)
  if gcplLen + 16 > foiBufSize then
    -- `foi_buf_dyn`, which is null unless the list is longer than the static buffer
    let dynBuf := if gcplLen > foiBufSize then some (malloc m.heap gcplLen) else none
    let comm ← .ofOption info
    let count ← .ofOption (mpiCount gcplLen)
    let second ← .bcastRecv comm count
    let buf ← .ofOption (dynBuf.bind fun buf => store buf 0 second)
    let gcpl ← .ofOption (load buf 0 gcplLen)
    return ⟨maxOid, gcpl⟩
  else
    let gcpl ← .ofOption (load static 16 gcplLen)
    return ⟨maxOid, gcpl⟩

/-- The branch of the other ranks. -/
def fileOpenReceiver (info : Option Comm) (m : RankMemory) : Proc Comm Byte OpenedFile := do
  let first ← .bcastRecv .file foiBufSize
  fileReceived info m first

/-- `H5VL_dtio_file_open` of one rank. -/
def fileOpen (rank numProcs : Nat) (info : Option Comm) (globMd gcpl : List Byte)
    (m : RankMemory) : Proc Comm Byte OpenedFile :=
  if rank == 0 then fileOpenReader numProcs globMd gcpl m else fileOpenReceiver info m

end DTIO.Vol
