import DTIO.Vol.Groups
import Mathlib.Data.Nat.Bitwise
import Mathlib.Logic.Function.Basic

/-!
# Files and the Ids of their Objects

The oid of an object is an index under two bits for its type (`H5VL_dtio_oid_create_binary`).  A
file counts its objects in `max_oid`, which each rank keeps for itself and a flush writes to the
global metadata object of the file (`H5VL_dtio_group_create_helper`, `H5VL_dtio_dataset_create`,
`H5VL_dtio_file_create`, `H5VL_dtio_write_max_oid`, `H5VL_dtio_file_flush` in
`adapter/vol/vol-old/H5VLDTIO.cc`).

## Main definitions

- `oidCreateBinary`, `oidToIdx`: ids and indices
- `FileHandle`, `groupCreateHelper`, `datasetCreate`, `fileFlush`: what one rank does
- `SharedFile`, `SharedFile.step`: the ranks of a communicator in lockstep, and the store

## Main results

- `oidToIdx_oidCreateBinary`: the index of an id
- `objects_untouched`, `objects_written`, `links_untouched`, `links_written`: what a set of writes
  leaves, in any order
-/

namespace DTIO.Vol

open DTIO.Posix DTIO.Memory DTIO.Broadcast

/-! ## Ids -/

/-- The types of objects that have an oid: `H5I_GROUP`, `H5I_DATASET` and `H5I_DATATYPE`. -/
inductive ObjType where
  | group
  | dataset
  | datatype
  deriving DecidableEq, Repr

/-- `H5VL_DTIO_TYPE_GRP`, `H5VL_DTIO_TYPE_DSET` and `H5VL_DTIO_TYPE_DTYPE`. -/
def ObjType.bits : ObjType → UInt64
  | group => 0x0000000000000000
  | dataset => 0x4000000000000000
  | datatype => 0x8000000000000000

/-- `H5VL_DTIO_IDX_MASK`. -/
def idxMask : UInt64 := 0x3fffffffffffffff

/-- `H5VL_dtio_oid_create_binary`. -/
def oidCreateBinary (idx : UInt64) (type : ObjType) : UInt64 := (idx &&& idxMask) ||| type.bits

/-- `H5VL_dtio_oid_to_idx`. -/
def oidToIdx (binOid : UInt64) : UInt64 := binOid &&& idxMask

/-- The two forms of an oid, `obj.bin_oid` and `obj.oid`. -/
structure ObjId where
  binOid : UInt64
  oid : Key
  deriving DecidableEq, Repr

/-- `H5VL_dtio_oid_create`. -/
def oidCreate (name : FileName) (idx : UInt64) (type : ObjType) : ObjId :=
  let binOid := oidCreateBinary idx type
  ⟨binOid, stringName name.name binOid.toNat⟩

/-! ## The store -/

/-- What the functions ask of the store. -/
inductive MdWrite where
  /-- `H5VL_dtio_write_full` -/
  | full (oid : Key) (data : List Byte)
  /-- a key of a group, for `H5VL_dtio_link_write` -/
  | link (oid : Key) (name : CString) (val : LinkVal)
  deriving DecidableEq

/-- The contents of the objects, and their keys. -/
structure MdStore where
  objects : Store
  links : Key → CString → List Byte

/-- One write, which succeeds. -/
def MdStore.apply (s : MdStore) : MdWrite → MdStore
  | .full oid data => { s with objects := Function.update s.objects oid (some data) }
  | .link oid name val =>
    let keys := Function.update (s.links oid) name (linkBytes val)
    { s with links := Function.update s.links oid keys }

/-! ## One rank -/

/-- What `H5VL_dtio_file_t` has on one rank. -/
structure FileHandle where
  name : FileName
  flags : Nat
  globMdOid : Key
  maxOid : UInt64
  maxOidDirty : Bool
  myRank : Nat
  collective : Bool

/-- Opened for writing. -/
def FileHandle.Writable (file : FileHandle) : Prop := file.flags &&& accRdwr ≠ 0

instance instDecidableFileWritable (file : FileHandle) : Decidable file.Writable :=
  inferInstanceAs (Decidable (_ ≠ _))

/-- What a rank has after a creation: the object, its file, and what it writes. -/
structure Creation where
  obj : ObjId
  file : FileHandle
  writes : List MdWrite

/-- What both creating functions do.  `data` is the metadata of the object, and `acts` tells
whether this process should write it. -/
def createObject (file : FileHandle) (type : ObjType) (data : List Byte) (links : List MdWrite)
    (acts : Bool) : Creation :=
  -- every rank counts the object, but only those that act mark the number as dirty
  let obj := oidCreate file.name (file.maxOid + 1) type
  let file := { file with maxOid := oidToIdx obj.binOid }
  if acts then ⟨obj, { file with maxOidDirty := true }, .full obj.oid data :: links⟩
  else ⟨obj, file, []⟩

/-- `!collective || (file->my_rank == 0)`. -/
def FileHandle.acts (file : FileHandle) (collective : Bool) : Bool :=
  !collective || file.myRank == 0

/-- The link to a new object, `H5VL_dtio_link_write` of a hard link. -/
def linkTo (file : FileHandle) (type : ObjType) (parent : Key × CString) : List MdWrite :=
  if file.Writable then
    [.link parent.1 parent.2 (.hard (oidCreate file.name (file.maxOid + 1) type).binOid)]
  else []

/-- `H5VL_dtio_group_create_helper`; `parent` is the group the new one is linked to, and the
name there. -/
def groupCreateHelper (file : FileHandle) (gcpl : List Byte) (parent : Option (Key × CString))
    (collective : Bool) : Except Stop Creation :=
  -- the assertion
  if file.Writable then
    .ok (createObject file .group gcpl (parent.elim [] (linkTo file .group))
      (file.acts collective))
  else .error .fault

/-- `H5VL_dtio_group_create`; `allColl` is the property of the access list, and `parent` where
the path leads. -/
def groupCreate (file : FileHandle) (allColl : Bool) (gcpl : List Byte) (parent : Key × CString) :
    Except Stop Creation :=
  let collective := file.collective || allColl
  groupCreateHelper file gcpl (if file.acts collective then some parent else none) collective

/-- `H5VL_dtio_dataset_create`. -/
def datasetCreate (file : FileHandle) (allColl : Bool) (info : DatasetInfo)
    (parent : Key × CString) : Except Stop Creation :=
  .ok (createObject file .dataset (datasetRecord info) (linkTo file .dataset parent)
    (file.acts (file.collective || allColl)))

/-- `H5VL_dtio_write_max_oid`. -/
def writeMaxOid (file : FileHandle) : FileHandle × List MdWrite :=
  if file.maxOidDirty then
    ({ file with maxOidDirty := false }, [.full file.globMdOid (encode64 file.maxOid.toNat)])
  else (file, [])

/-- `H5VL_dtio_file_flush`. -/
def fileFlush (file : FileHandle) : FileHandle × List MdWrite :=
  if file.Writable then writeMaxOid file else (file, [])

/-- `H5F_ACC_TRUNC`, `H5F_ACC_EXCL` and `H5F_ACC_CREAT`. -/
def accTrunc : Nat := 2

def accExcl : Nat := 4

def accCreat : Nat := 16

/-- The flags that `H5VL_dtio_file_create` adjusts. -/
def createFlags (flags : Nat) : Nat :=
  (if flags &&& (accExcl ||| accTrunc) = 0 then flags ||| accExcl else flags) |||
    (accRdwr ||| accCreat)

/-- The new handle of `H5VL_dtio_file_create`. -/
def newHandle (name : FileName) (flags : Nat) (collective : Bool) (rank : Nat) : FileHandle where
  name := name
  flags := createFlags flags
  globMdOid := stringName name.name 0
  maxOid := 0
  maxOidDirty := false
  myRank := rank
  collective := collective

/-- `assert(H5VL_dtio_oid_to_idx(file->root_grp->obj.bin_oid) == (uint64_t)1)`. -/
def assertRoot (created : Creation) : Except Stop Creation :=
  if oidToIdx created.obj.binOid = 1 then .ok created else .error .fault

/-- The root group, which is always created collectively. -/
def createRoot (gcpl : List Byte) (file : FileHandle) : Except Stop Creation :=
  groupCreateHelper file gcpl none true >>= assertRoot

/-- The handle of `H5VL_dtio_file_open`, with what the ranks end with. -/
def openedHandle (name : FileName) (flags : Nat) (collective : Bool) (x : OpenedFile × Nat) :
    FileHandle where
  name := name
  flags := flags
  globMdOid := stringName name.name 0
  maxOid := UInt64.ofNat x.1.maxOid
  maxOidDirty := false
  myRank := x.2
  collective := collective

/-! ## All ranks -/

/-- The order in which the writes of the ranks reach the store. -/
structure Schedule where
  order : List MdWrite → List MdWrite
  perm : ∀ ws, (order ws).Perm ws

/-- A file with the ranks that have it open, and what they have created. -/
structure SharedFile where
  name : FileName
  store : MdStore
  /-- nobody while the file is closed -/
  ranks : List FileHandle
  /-- for each creation, what each rank has got -/
  created : List (List ObjId)

namespace SharedFile

/-- The writes of all ranks. -/
def write (s : SharedFile) (sched : Schedule) (ws : List MdWrite) : MdStore :=
  (sched.order ws).foldl MdStore.apply s.store

/-- All ranks create an object. -/
def createAll (s : SharedFile) (create : FileHandle → Except Stop Creation) (sched : Schedule) :
    Except Stop SharedFile := do
  let results ← s.ranks.mapM create
  .ok { s with
    store := s.write sched (results.flatMap Creation.writes)
    ranks := results.map Creation.file
    created := s.created ++ [results.map Creation.obj] }

/-- All ranks flush the file. -/
def flushAll (s : SharedFile) (sched : Schedule) : SharedFile :=
  { s with
    store := s.write sched ((s.ranks.map fileFlush).flatMap Prod.snd)
    ranks := (s.ranks.map fileFlush).map Prod.fst }

/-- `H5VL_dtio_file_close` on all ranks. -/
def closeAll (s : SharedFile) (sched : Schedule) : SharedFile :=
  { s.flushAll sched with ranks := [] }

/-- The program of one rank that opens the file. -/
def openRank (s : SharedFile) (numProcs : Nat) (info : Option Comm) (rank : Nat) (m : RankMemory) :
    Proc Comm Byte OpenedFile :=
  fileOpen rank numProcs info (s.store.objects.object (stringName s.name.name 0))
    (s.store.objects.object (stringName s.name.name (oidCreateBinary 1 .group).toNat)) m

/-- `H5VL_dtio_file_open` on all ranks; `m` is the memory of rank 0 and `others` that of the
other ranks. -/
def openAll (s : SharedFile) (flags : Nat) (collective : Bool) (info : Option Comm)
    (m : RankMemory) (others : List RankMemory) : Except Stop SharedFile :=
  (orFault (lockstep (s.openRank (others.length + 1) info 0 m)
    (others.zipIdx.map fun x => s.openRank (others.length + 1) info (x.2 + 1) x.1))).map
      fun r => { s with ranks := (r.1 :: r.2).zipIdx.map (openedHandle s.name flags collective) }

/-- `H5VL_dtio_file_create` on all ranks. -/
def createFile (store : MdStore) (name : FileName) (flags : Nat) (collective : Bool)
    (gcpl : List Byte) (numProcs : Nat) (sched : Schedule) : Except Stop SharedFile :=
  createAll ⟨name, store, (List.range numProcs).map (newHandle name flags collective), []⟩
    (createRoot gcpl) sched

/-- What the ranks do together. -/
inductive Op where
  | createGroup (allColl : Bool) (gcpl : List Byte) (parent : Key × CString) (sched : Schedule)
  | createDataset (allColl : Bool) (info : DatasetInfo) (parent : Key × CString)
      (sched : Schedule)
  | flush (sched : Schedule)
  | close (sched : Schedule)
  | reopen (flags : Nat) (collective : Bool) (info : Option Comm) (m : RankMemory)
      (others : List RankMemory)

/-- One operation. -/
def step (s : SharedFile) : Op → Except Stop SharedFile
  | .createGroup allColl gcpl parent sched =>
    s.createAll (fun file => groupCreate file allColl gcpl parent) sched
  | .createDataset allColl info parent sched =>
    s.createAll (fun file => datasetCreate file allColl info parent) sched
  | .flush sched => .ok (s.flushAll sched)
  | .close sched => .ok (s.closeAll sched)
  | .reopen flags collective info m others => s.openAll flags collective info m others

/-- A sequence of operations. -/
def run (s : SharedFile) (ops : List Op) : Except Stop SharedFile := ops.foldlM step s

end SharedFile

/-! ## Indices -/

/-- The type of an object as a number over its index. -/
def ObjType.code : ObjType → Nat
  | group => 0
  | dataset => 1
  | datatype => 2

/-- The index is below the bits of the type. -/
theorem toNat_oidCreateBinary {idx : UInt64} (h : idx.toNat < 4611686018427387904)
    (type : ObjType) :
    (oidCreateBinary idx type).toNat = 4611686018427387904 * type.code + idx.toNat := by
  have hmask : idx.toNat &&& 4611686018427387903 = idx.toNat := by
    have hmod : idx.toNat &&& (2 ^ 62 - 1) = idx.toNat % 2 ^ 62 :=
      Nat.and_two_pow_sub_one_eq_mod _ _
    exact hmod.trans (Nat.mod_eq_of_lt h)
  have hbits : type.bits.toNat = 2 ^ 62 * type.code := by
    cases type <;> rfl
  have hor : 2 ^ 62 * type.code + idx.toNat = 2 ^ 62 * type.code ||| idx.toNat :=
    Nat.two_pow_add_eq_or_of_lt h _
  have hnat : (oidCreateBinary idx type).toNat =
      (idx.toNat &&& 4611686018427387903) ||| type.bits.toNat := by
    simp [oidCreateBinary, idxMask]
  -- the two bits of the type are above the index
  rw [hnat, hmask, hbits, Nat.lor_comm]
  exact hor.symm

/-- The index of an id. -/
theorem oidToIdx_oidCreateBinary {idx : UInt64} (h : idx.toNat < 4611686018427387904)
    (type : ObjType) : oidToIdx (oidCreateBinary idx type) = idx := by
  apply UInt64.toNat_inj.mp
  have hmask : (oidToIdx (oidCreateBinary idx type)).toNat =
      (oidCreateBinary idx type).toNat &&& (2 ^ 62 - 1) := by
    simp [oidToIdx, idxMask]
  rw [hmask, Nat.and_two_pow_sub_one_eq_mod, toNat_oidCreateBinary h]
  omega

/-! ## What writes leave -/

/-- An object that nobody writes. -/
theorem objects_untouched {ws : List MdWrite} {key : Key} (h : ∀ data, .full key data ∉ ws)
    (s : MdStore) : (ws.foldl MdStore.apply s).objects key = s.objects key := by
  induction ws generalizing s with
  | nil => rfl
  | cons w ws ih =>
    rw [List.foldl_cons, ih fun data hmem => h data (List.mem_cons_of_mem _ hmem)]
    cases w with
    | full oid data =>
      have hne : key ≠ oid := by
        rintro rfl
        exact h data List.mem_cons_self
      exact Function.update_of_ne hne _ _
    | link oid name val => rfl

/-- An object that somebody writes, and nobody writes otherwise. -/
theorem objects_written {ws : List MdWrite} {key : Key} {v : List Byte}
    (hmem : .full key v ∈ ws) (h : ∀ data, .full key data ∈ ws → data = v) (s : MdStore) :
    (ws.foldl MdStore.apply s).objects key = some v := by
  induction ws generalizing s with
  | nil => cases hmem
  | cons w ws ih =>
    rw [List.foldl_cons]
    by_cases hrest : .full key v ∈ ws
    · exact ih hrest (fun data hdata => h data (List.mem_cons_of_mem _ hdata)) _
    · -- the last one is this one
      have hhead : MdWrite.full key v = w := (List.mem_cons.mp hmem).resolve_right hrest
      have hnone : ∀ data, .full key data ∉ ws := by
        intro data hdata
        have hv : data = v := h data (List.mem_cons_of_mem _ hdata)
        exact hrest (hv ▸ hdata)
      rw [objects_untouched hnone, ← hhead]
      exact Function.update_self ..

/-- A link that nobody writes. -/
theorem links_untouched {ws : List MdWrite} {key : Key} {name : CString}
    (h : ∀ val, .link key name val ∉ ws) (s : MdStore) :
    (ws.foldl MdStore.apply s).links key name = s.links key name := by
  induction ws generalizing s with
  | nil => rfl
  | cons w ws ih =>
    rw [List.foldl_cons, ih fun val hmem => h val (List.mem_cons_of_mem _ hmem)]
    cases w with
    | full oid data => rfl
    | link oid name' val =>
      simp only [MdStore.apply]
      by_cases hoid : key = oid
      · subst hoid
        have hne : name ≠ name' := by
          rintro rfl
          exact h val List.mem_cons_self
        rw [Function.update_self, Function.update_of_ne hne]
      · rw [Function.update_of_ne hoid]

/-- A link that everybody who writes it binds to the same. -/
theorem links_written {ws : List MdWrite} {key : Key} {name : CString} {v : LinkVal}
    (hmem : .link key name v ∈ ws) (h : ∀ val, .link key name val ∈ ws → val = v) (s : MdStore) :
    (ws.foldl MdStore.apply s).links key name = linkBytes v := by
  induction ws generalizing s with
  | nil => cases hmem
  | cons w ws ih =>
    rw [List.foldl_cons]
    by_cases hrest : .link key name v ∈ ws
    · exact ih hrest (fun val hval => h val (List.mem_cons_of_mem _ hval)) _
    · -- the last one is this one
      have hhead : MdWrite.link key name v = w := (List.mem_cons.mp hmem).resolve_right hrest
      have hnone : ∀ val, .link key name val ∉ ws := by
        intro val hval
        have hv : val = v := h val (List.mem_cons_of_mem _ hval)
        exact hrest (hv ▸ hval)
      rw [links_untouched hnone, ← hhead]
      simp [MdStore.apply]

end DTIO.Vol
