import DTIO.Vol.IoOp
import DTIO.Vol.Links
import DTIO.Vol.OidBuffers

/-!
# Opening Groups

`H5VL_dtio_group_open`, `H5VL_dtio_group_traverse`, `H5VL_dtio_link_follow` and
`H5VL_dtio_group_open_helper` (`adapter/vol/vol-old/H5VLDTIO.cc`).  Rank 0 follows the links of
the path, reads the creation list of each group on the way, and broadcasts that of the last one.
The buffer of the list is a variable of `H5VL_dtio_group_open`, to which the other functions have
a pointer if there is a broadcast.

## Main definitions

- `openHelper`: the group of an oid, and its list for the caller
- `groupTraverse`, `linkFollow`: the path, and the links on it
- `groupOpen`: the program of one rank
-/

namespace DTIO.Vol

open DTIO.Posix DTIO.Memory DTIO.Broadcast

/-! ## What a process works on -/

/-- Property lists and their serialised form, by `H5Pencode2` and `H5Pdecode`.  The decoder has no
length: it reads as much as it needs. -/
structure PlistCodec (P : Type) where
  encode : P → List Byte
  decode : List Byte → Option P
  decode_encode : ∀ p rest, decode (encode p ++ rest) = some p

/-- `H5VL_dtio_group_t`; the creation list is missing while `gcpl_id` is `FAIL`. -/
structure OpenGroup (P : Type) where
  binOid : UInt64
  oid : Key
  gcpl : Option P
  deriving DecidableEq, Repr

/-- `H5VL_dtio_file_t`. -/
structure GroupFile (P : Type) where
  name : FileName
  flags : Nat
  rootGrp : OpenGroup P
  numProcs : Nat
  collective : Bool

/-- What the caller passes as the object the path begins at. -/
inductive Item (P : Type) where
  | file
  | group (grp : OpenGroup P)
  | other

/-- What a call of `H5VL_dtio_link_read` finds: memory for the target, and what is behind the
structure of the caller. -/
structure LinkMemory where
  heap : Option (Nat → Byte)
  behind : List Byte

/-- What a process works on.  The calls of `H5VL_dtio_link_read` are numbered; what one finds may
depend on the group and the name too. -/
structure Context (σ P : Type) where
  plist : PlistCodec P
  file : GroupFile P
  omap : Omap σ
  state : σ
  objects : Store
  memory : Nat → Key → List Byte → LinkMemory

variable {σ P : Type}

/-! ## One group -/

/-- A variable of the caller for the buffer of the list, if it passes one. -/
abbrev GcplOut := Option (Ptr (List Byte))

/-- `assert(!*gcpl_buf_out)`, and the buffer is handed over. -/
def handOver (gcplBuf : List Byte) : GcplOut → Except Stop GcplOut
  | none => .ok none
  | some .null => .ok (some (.live gcplBuf))
  | some (.live _) => .error .fault
  | some .freed => .error .fault

/-- `H5VL_dtio_group_open_helper`.  Where there is no list, an empty buffer would be decoded. -/
def openHelper (c : Context σ P) (oid : UInt64) (out : GcplOut) :
    Except Stop (OpenGroup P × GcplOut) :=
  let key := stringName c.file.name.name oid.toNat
  let gcplBuf := c.objects.object key
  if gcplBuf = [] then .error .fault
  else (handOver gcplBuf out).map (Prod.mk ⟨oid, key, c.plist.decode gcplBuf⟩)

/-! ## Paths -/

/-- `'/'`. -/
def slash : Byte := 47

/-- `'.'`. -/
def dot : Byte := 46

/-- A byte in front of a path. -/
def consPath (b : Byte) : List (List Byte) × List Byte → List (List Byte) × List Byte
  | (names, last) =>
    if b = slash then ([] :: names, last)
    else
      match names with
      | [] => ([], b :: last)
      | name :: names => ((b :: name) :: names, last)

/-- The parts of a path that `strchr` finds a slash behind, and the last part. -/
def splitPath : List Byte → List (List Byte) × List Byte
  | [] => ([], [])
  | b :: path => consPath b (splitPath path)

/-- The name stands for the group itself. -/
def standsForGroup (name : List Byte) : Bool := name = [] || name = [dot]

/-- How a link of a group is followed; the numbers count the calls of `H5VL_dtio_link_read`. -/
abbrev Follow (P : Type) := OpenGroup P → List Byte → Nat → Except Stop (UInt64 × Nat)

/-- Where a traversal is. -/
structure Traversal (P : Type) where
  grp : OpenGroup P
  out : GcplOut
  calls : Nat

/-- `free(*gcpl_buf_out)` and `*gcpl_buf_out = NULL`. -/
def freeOut : GcplOut → Except Stop GcplOut
  | none => .ok none
  | some p => p.free.map fun _ => some .null

/-- `assert(next_obj > *obj_name)`. -/
def assertName (name : List Byte) : Except Stop Unit :=
  if name = [] then .error .fault else .ok ()

/-- One step of the loop of `H5VL_dtio_group_traverse`. -/
def traverseStep (c : Context σ P) (follow : Follow P) (t : Traversal P) (name : List Byte) :
    Except Stop (Traversal P) := do
  let out ← freeOut t.out
  assertName name
  -- the links on the way are followed without a variable for the list
  let target ← follow t.grp name t.calls
  let opened ← openHelper c target.1 out
  .ok ⟨opened.1, opened.2, target.2⟩

/-- The group that the path begins at. -/
def startGroup (c : Context σ P) (item : Item P) (path : List Byte) :
    Except Stop (OpenGroup P) :=
  if path.head? = some slash then .ok c.file.rootGrp
  else
    match item with
    | .file => .ok c.file.rootGrp
    | .group grp => .ok grp
    | .other => .error .fail

/-- The path without the slash for the root group. -/
def afterRoot (path : List Byte) : List Byte :=
  if path.head? = some slash then path.tail else path

/-- What `H5VL_dtio_group_traverse` returns: the last group of the path, and the name behind. -/
structure Traversed (P : Type) extends Traversal P where
  name : List Byte

/-- `H5VL_dtio_group_traverse`. -/
def groupTraverse (c : Context σ P) (follow : Follow P) (item : Item P) (path : List Byte)
    (out : GcplOut) (calls : Nat) : Except Stop (Traversed P) := do
  let start ← startGroup c item path
  let parts := splitPath (afterRoot path)
  let t ← parts.1.foldlM (traverseStep c follow) ⟨start, out, calls⟩
  .ok ⟨t, parts.2⟩

/-- `H5VL_dtio_link_follow` behind the traversal of a soft link. -/
def followLast (follow : Follow P) (t : Traversed P) : Except Stop (UInt64 × Nat) :=
  if standsForGroup t.name then .ok (t.grp.binOid, t.calls) else follow t.grp t.name t.calls

/-- What the value of a link leads to. -/
def followVal (c : Context σ P) (follow : Follow P) (grp : OpenGroup P) (calls : Nat) :
    LinkVal → Except Stop (UInt64 × Nat)
  | .hard oid => .ok (oid, calls)
  | .soft target =>
    groupTraverse c follow (.group grp) target.bytes none calls >>= followLast follow
  | .unsupported .. => .error .fail

/-- `H5VL_dtio_link_follow`.  `depth` is how many of its calls fit on the stack at once. -/
def linkFollow (c : Context σ P) : Nat → Follow P
  | 0, _, _, _ => .error .fault
  | depth + 1, grp, name, calls => do
    let val ← linkRead c.omap c.state ⟨grp.oid, c.file.flags⟩ (CString.ofBuffer name)
      (c.memory calls grp.oid name).heap (c.memory calls grp.oid name).behind
    followVal c (linkFollow c depth) grp (calls + 1) val

/-! ## The ranks -/

/-- `loc_params`: an address, or a name in the object. -/
inductive GroupLoc where
  | byAddr (addr : UInt64)
  | byName (path : CString)

/-- What a rank ends with: the group, and the list that it has sent or received, if any. -/
structure OpenedGroup (P : Type) where
  grp : OpenGroup P
  gcpl : Option (List Byte)
  deriving DecidableEq, Repr

/-- `H5VL_DTIO_GINFO_BUF_SIZE`. -/
def ginfoBufSize : Nat := 256

/-- The variable `gcpl_buf`; the functions get a pointer to it if there is a broadcast. -/
def gcplOut (bcast : Bool) (gcplBuf : Ptr (List Byte)) : GcplOut :=
  if bcast then some gcplBuf else none

/-- The branch for a path that ends with the group: its list is encoded into a new buffer. -/
def openTarget (c : Context σ P) (grp : OpenGroup P) :
    Except Stop (OpenGroup P × Ptr (List Byte)) :=
  (orFault grp.gcpl).map fun p => (grp, .live (c.plist.encode p))

/-- The branch for a path with a last name.  The buffer of the last group that was traversed is
freed, and the variable still points to it. -/
def openLast (c : Context σ P) (follow : Follow P) (bcast : Bool) (t : Traversed P) :
    Except Stop (OpenGroup P × Ptr (List Byte)) := do
  -- `gcpl_buf` is not set to null
  let gcplBuf ← (t.out.getD .null).free
  let target ← follow t.grp t.name t.calls
  let opened ← openHelper c target.1 (gcplOut bcast gcplBuf)
  .ok (opened.1, opened.2.getD gcplBuf)

/-- The group of a rank that looks for it, and `gcpl_buf`. -/
def openLocal (c : Context σ P) (follow : Follow P) (bcast : Bool) (item : Item P) :
    GroupLoc → Except Stop (OpenGroup P × Ptr (List Byte))
  | .byAddr addr =>
    (openHelper c addr (gcplOut bcast .null)).map fun opened => (opened.1, opened.2.getD .null)
  | .byName path => do
    let t ← groupTraverse c follow item path.bytes (gcplOut bcast .null) 0
    if standsForGroup t.name then openTarget c t.grp else openLast c follow bcast t

/-- The buffer of the broadcast, filled by rank 0. -/
def ginfoBuf (m : RankMemory) (binOid : UInt64) (gcpl : List Byte) : Option (List Byte) := do
  let buf ← store (malloc m.stack ginfoBufSize) 0 (encode64 binOid.toNat)
  let buf ← store buf 8 (encode64 gcpl.length)
  -- a list that does not fit is left to the second broadcast
  if gcpl.length + 16 ≤ ginfoBufSize then store buf 16 gcpl else some buf

/-- The broadcasts of rank 0. -/
def sendGroup (m : RankMemory) (grp : OpenGroup P) (gcpl : List Byte) :
    Proc Comm Byte (OpenedGroup P) := do
  let first ← .ofOption (ginfoBuf m grp.binOid gcpl)
  .bcastSend .file first
  if gcpl.length + 16 > ginfoBufSize then
    let count ← .ofOption (mpiCount gcpl.length)
    let second ← .ofOption (load gcpl 0 count)
    .bcastSend .file second
    return ⟨grp, some gcpl⟩
  else return ⟨grp, some gcpl⟩

/-- Errors are reported and not handled; what follows is undefined. -/
def ofLocal {α : Type} : Except Stop α → Proc Comm Byte α
  | .ok a => .done a
  | .error _ => .fault

/-- The branch of the ranks that look for the group. -/
def groupOpenReader (c : Context σ P) (follow : Follow P) (bcast : Bool) (item : Item P)
    (loc : GroupLoc) (m : RankMemory) : Proc Comm Byte (OpenedGroup P) := do
  let opened ← ofLocal (openLocal c follow bcast item loc)
  if bcast then
    -- `assert(gcpl_buf)`
    let gcpl ← ofLocal opened.2.deref
    let result ← sendGroup m opened.1 gcpl
    let _ ← ofLocal opened.2.free
    return result
  else
    let _ ← ofLocal opened.2.free
    return ⟨opened.1, none⟩

/-- `H5VL_dtio_group_reconstitute`, with the list at an offset of a buffer. -/
def groupReconstitute (c : Context σ P) (oid : UInt64) (buf : List Byte) (off gcplLen : Nat) :
    Proc Comm Byte (OpenedGroup P) := do
  let gcpl ← .ofOption (load buf off gcplLen)
  return ⟨⟨oid, stringName c.file.name.name oid.toNat, c.plist.decode (buf.drop off)⟩,
    some gcpl⟩

/-- What another rank does with the first broadcast. -/
def groupReceived (c : Context σ P) (m : RankMemory) (first : List Byte) :
    Proc Comm Byte (OpenedGroup P) := do
  let static ← .ofOption (store (malloc m.stack ginfoBufSize) 0 first)
  let oid ← .ofOption (uint64 static 0)
  let gcplLen ← .ofOption (uint64 static 8)
  if gcplLen + 16 > ginfoBufSize then
    let buf := if gcplLen > ginfoBufSize then malloc m.heap gcplLen else static
    let count ← .ofOption (mpiCount gcplLen)
    let second ← .bcastRecv .file count
    let buf ← .ofOption (store buf 0 second)
    groupReconstitute c (UInt64.ofNat oid) buf 0 gcplLen
  else groupReconstitute c (UInt64.ofNat oid) static 16 gcplLen

/-- The branch of the other ranks. -/
def groupOpenReceiver (c : Context σ P) (m : RankMemory) : Proc Comm Byte (OpenedGroup P) := do
  let first ← .bcastRecv .file ginfoBufSize
  groupReceived c m first

/-- `H5VL_dtio_group_open` of one rank.  `allColl` is the property of the access list, and `depth`
how many calls of `H5VL_dtio_link_follow` fit on the stack. -/
def groupOpen (c : Context σ P) (depth : Nat) (allColl : Bool) (rank : Nat) (item : Item P)
    (loc : GroupLoc) (m : RankMemory) : Proc Comm Byte (OpenedGroup P) :=
  let collective := c.file.collective || allColl
  if !collective || rank == 0 then
    groupOpenReader c (linkFollow c depth) (collective && decide (c.file.numProcs > 1)) item loc m
  else groupOpenReceiver c m

end DTIO.Vol
