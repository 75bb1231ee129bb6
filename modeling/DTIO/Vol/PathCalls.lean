import DTIO.Vol.Groups
import DTIO.Vol.Sessions

/-!
# Calls by Path

What an application calls with a path: `H5VL_dtio_group_create`, `H5VL_dtio_dataset_create`,
`H5VL_dtio_group_open` and `H5VL_dtio_dataset_open` (`adapter/vol/vol-old/H5VLDTIO.cc`), from
`H5VL_dtio_group_traverse` over the links in the store to the new objects and links.  All ranks of
a file make the same calls.  Any number of files share one store.

What is written to `std::cerr` has no effect: a group is created also when its path cannot be
traversed, and then nothing links to it.

## Main definitions

- `groupCreateAt`, `datasetCreateAt`, `datasetOpenAt`: one rank
- `PathFile.step`: all ranks of a file
- `Volume.step`, `Volume.run`: the files of a store
- `isAccessible`: what `H5Fis_accessible` says of a name
-/

namespace DTIO.Vol

open DTIO.Posix DTIO.Broadcast

/-! ## One rank -/

/-- What a process works with besides its handles: the property lists of HDF5, what the calls of
`H5VL_dtio_link_read` find, and how many calls of `H5VL_dtio_link_follow` fit on the stack. -/
structure Process (P : Type) where
  plist : PlistCodec P
  memory : Nat → Key → List Byte → LinkMemory
  depth : Nat

variable {σ P : Type}

/-- What a rank of `numProcs` works on. -/
def Process.context (w : Process P) (store : MdStore) (file : FileHandle) (rootGrp : OpenGroup P)
    (numProcs : Nat) : Context MdStore P where
  plist := w.plist
  file := ⟨file.name, file.flags, rootGrp, numProcs, file.collective⟩
  omap := MdStore.omap
  state := store
  objects := store.objects
  memory := w.memory

/-- `target_grp` and `target_name` of a creation, if the path can be traversed; otherwise
`target_grp` is null. -/
def targetGrp (c : Context σ P) (depth : Nat) (item : Item P) (path : CString) :
    Except Stop (Option (Key × CString)) :=
  match groupTraverse c (linkFollow c depth) item path.bytes none 0 with
  | .ok t => .ok (some (t.grp.oid, CString.ofBuffer t.name))
  | .error .fail => .ok none
  | .error .fault => .error .fault

/-- `H5VL_dtio_group_create`. -/
def groupCreateAt (c : Context σ P) (depth : Nat) (file : FileHandle) (allColl : Bool) (gcpl : P)
    (item : Item P) (path : CString) : Except Stop Creation := do
  let collective := file.collective || allColl
  let parent ← if file.acts collective then targetGrp c depth item path else .ok none
  groupCreateHelper file (c.plist.encode gcpl) parent collective

/-- `H5VL_dtio_dataset_create`. -/
def datasetCreateAt (c : Context σ P) (depth : Nat) (file : FileHandle) (allColl : Bool)
    (info : DatasetInfo) (item : Item P) (path : CString) : Except Stop Creation :=
  if file.acts (file.collective || allColl) then do
    match ← targetGrp c depth item path with
    | some parent => datasetCreate file allColl info parent
    -- `H5VL_dtio_link_write` to a null group
    | none => .error .fault
  else .ok (createObject file .dataset (datasetRecord info) [] false)

/-- The dataset that a rank finds. -/
def datasetLookup (c : Context σ P) (depth : Nat) (item : Item P) (path : CString) :
    Except Stop (UInt64 × Nat) := do
  let t ← groupTraverse c (linkFollow c depth) item path.bytes none 0
  -- the last name is looked up as it is, also if it is empty or a dot
  linkFollow c depth t.grp t.name t.calls

/-- `H5VL_dtio_dataset_open` of a rank. -/
def datasetOpenAt (c : Context σ P) (depth : Nat) (allColl : Bool) (rank : Nat) (item : Item P)
    (path : CString) (m : RankMemory) : Proc Comm Byte OpenedDataset :=
  let collective := c.file.collective || allColl
  if !collective || rank == 0 then do
    let target ← ofLocal (datasetLookup c depth item path)
    datasetOpen collective rank c.file.numProcs target.1.toNat
      (c.objects.object (stringName c.file.name.name target.1.toNat)) m
  else datasetOpenReceiver m

/-! ## All ranks -/

/-- A file with the handles of its ranks: `root_grp`, and the groups that were created or opened
since. -/
structure PathFile (P : Type) where
  file : SharedFile
  roots : List (OpenGroup P)
  groups : List (List (OpenGroup P))

/-- The object that is passed with a path: the file, a group of the table, or something else. -/
inductive Loc where
  | file
  | group (i : Nat)
  | other
  deriving DecidableEq, Repr

/-- What all ranks do with a file. -/
inductive PathOp (P : Type) where
  | createGroup (allColl : Bool) (loc : Loc) (path : CString) (gcpl : P) (sched : Schedule)
  | createDataset (allColl : Bool) (loc : Loc) (path : CString) (info : DatasetInfo)
      (sched : Schedule)
  | openGroup (allColl : Bool) (loc : Loc) (path : CString) (memory : Nat → RankMemory)
  | openDataset (allColl : Bool) (loc : Loc) (path : CString) (memory : Nat → RankMemory)
  | flush (sched : Schedule)
  | close (sched : Schedule)
  | reopen (flags : Nat) (collective : Bool) (info : Option Comm) (m : RankMemory)
      (others : List RankMemory)

/-- What the ranks get, one after another. -/
inductive PathReply (P : Type) where
  | created (binOids : List UInt64)
  | groups (grps : List (UInt64 × Option P))
  | datasets (dsets : List OpenedDataset)
  | done
  deriving DecidableEq

namespace PathFile

/-- The object of a rank. -/
def item (s : PathFile P) (loc : Loc) (rank : Nat) : Option (Item P) :=
  match loc with
  | .file => some .file
  | .group i => (s.groups[i]?.bind fun grps => grps[rank]?).map .group
  | .other => some .other

/-- What a rank works on, and the object that it passes; a handle that it has not got is a
fault. -/
def arguments (w : Process P) (s : PathFile P) (loc : Loc) (file : FileHandle) :
    Except Stop (Context MdStore P × Item P) := do
  let root ← orFault s.roots[file.myRank]?
  let item ← orFault (s.item loc file.myRank)
  return (w.context s.file.store file root s.file.ranks.length, item)

/-- The ranks run a program each, and broadcast in lockstep. -/
def together {α : Type} (s : PathFile P) (program : FileHandle → Except Stop (Proc Comm Byte α)) :
    Except Stop (List α) := do
  match ← s.file.ranks.mapM program with
  | [] => .error .fault
  | p :: ps => (orFault (lockstep p ps)).map fun r => r.1 :: r.2

/-- The handles of a group that was created. -/
def createdHandles (gcpl : P) (ids : List ObjId) : List (OpenGroup P) :=
  ids.map fun id => ⟨id.binOid, id.oid, some gcpl⟩

/-- The ids that the ranks have got in the last creation. -/
def lastIds (file : SharedFile) : List ObjId := file.created.getLastD []

/-- `H5VL_dtio_file_create` on all ranks. -/
def create (w : Process P) (store : MdStore) (name : FileName) (flags : Nat) (collective : Bool)
    (fcpl : P) (numProcs : Nat) (sched : Schedule) : Except Stop (PathFile P) :=
  (SharedFile.createFile store name flags collective (w.plist.encode fcpl) numProcs sched).map
    fun file => ⟨file, createdHandles fcpl (lastIds file), []⟩

/-- `H5VL_dtio_file_open` on all ranks, which have no other handles yet. -/
def reopen (w : Process P) (s : PathFile P) (flags : Nat) (collective : Bool) (info : Option Comm)
    (m : RankMemory) (others : List RankMemory) : Except Stop (PathFile P) :=
  (orFault (lockstep (s.file.openRank (others.length + 1) info 0 m)
    (others.zipIdx.map fun x => s.file.openRank (others.length + 1) info (x.2 + 1) x.1))).map
      fun r =>
        let opened := r.1 :: r.2
        let binOid := oidCreateBinary 1 .group
        { file := { s.file with
            ranks := opened.zipIdx.map (openedHandle s.file.name flags collective) }
          roots := opened.map fun x =>
            ⟨binOid, stringName s.file.name.name binOid.toNat, w.plist.decode x.gcpl⟩
          groups := [] }

/-! What one rank does with its handles. -/

def rankGroupCreate (w : Process P) (s : PathFile P) (allColl : Bool) (loc : Loc) (path : CString)
    (gcpl : P) (file : FileHandle) : Except Stop Creation := do
  let x ← s.arguments w loc file
  groupCreateAt x.1 w.depth file allColl gcpl x.2 path

def rankDatasetCreate (w : Process P) (s : PathFile P) (allColl : Bool) (loc : Loc)
    (path : CString) (info : DatasetInfo) (file : FileHandle) : Except Stop Creation := do
  let x ← s.arguments w loc file
  datasetCreateAt x.1 w.depth file allColl info x.2 path

def rankGroupOpen (w : Process P) (s : PathFile P) (allColl : Bool) (loc : Loc) (path : CString)
    (memory : Nat → RankMemory) (file : FileHandle) :
    Except Stop (Proc Comm Byte (OpenedGroup P)) := do
  let x ← s.arguments w loc file
  return groupOpen x.1 w.depth allColl file.myRank x.2 (.byName path) (memory file.myRank)

def rankDatasetOpen (w : Process P) (s : PathFile P) (allColl : Bool) (loc : Loc) (path : CString)
    (memory : Nat → RankMemory) (file : FileHandle) :
    Except Stop (Proc Comm Byte OpenedDataset) := do
  let x ← s.arguments w loc file
  return datasetOpenAt x.1 w.depth allColl file.myRank x.2 path (memory file.myRank)

/-! What all ranks do. -/

def createGroup (w : Process P) (s : PathFile P) (allColl : Bool) (loc : Loc) (path : CString)
    (gcpl : P) (sched : Schedule) : Except Stop (PathReply P × PathFile P) := do
  let file ← s.file.createAll (s.rankGroupCreate w allColl loc path gcpl) sched
  return (.created ((lastIds file).map ObjId.binOid),
    { s with file := file, groups := s.groups ++ [createdHandles gcpl (lastIds file)] })

def createDataset (w : Process P) (s : PathFile P) (allColl : Bool) (loc : Loc) (path : CString)
    (info : DatasetInfo) (sched : Schedule) : Except Stop (PathReply P × PathFile P) := do
  let file ← s.file.createAll (s.rankDatasetCreate w allColl loc path info) sched
  return (.created ((lastIds file).map ObjId.binOid), { s with file := file })

def openGroup (w : Process P) (s : PathFile P) (allColl : Bool) (loc : Loc) (path : CString)
    (memory : Nat → RankMemory) : Except Stop (PathReply P × PathFile P) := do
  let opened ← s.together (s.rankGroupOpen w allColl loc path memory)
  return (.groups (opened.map fun x => (x.grp.binOid, x.grp.gcpl)),
    { s with groups := s.groups ++ [opened.map OpenedGroup.grp] })

def openDataset (w : Process P) (s : PathFile P) (allColl : Bool) (loc : Loc) (path : CString)
    (memory : Nat → RankMemory) : Except Stop (PathReply P × PathFile P) := do
  let opened ← s.together (s.rankDatasetOpen w allColl loc path memory)
  return (.datasets opened, s)

/-- One operation. -/
def step (w : Process P) (s : PathFile P) : PathOp P → Except Stop (PathReply P × PathFile P)
  | .createGroup allColl loc path gcpl sched => s.createGroup w allColl loc path gcpl sched
  | .createDataset allColl loc path info sched => s.createDataset w allColl loc path info sched
  | .openGroup allColl loc path memory => s.openGroup w allColl loc path memory
  | .openDataset allColl loc path memory => s.openDataset w allColl loc path memory
  | .flush sched => .ok (.done, { s with file := s.file.flushAll sched })
  -- all handles are closed before the file
  | .close sched => .ok (.done, ⟨s.file.closeAll sched, [], []⟩)
  | .reopen flags collective info m others =>
    (s.reopen w flags collective info m others).map fun s => (.done, s)

/-- The file in another state of the store. -/
def withStore (s : PathFile P) (store : MdStore) : PathFile P :=
  { s with file := { s.file with store := store } }

end PathFile

/-! ## All files -/

instance instDecidableEqFileName : DecidableEq FileName := fun a b =>
  decidable_of_iff (a.name = b.name) ⟨FileName.ext, congrArg FileName.name⟩

/-- A store, and the files in it that were created. -/
structure Volume (P : Type) where
  store : MdStore
  files : FileName → Option (PathFile P)

/-- What is done with a file. -/
inductive FileOp (P : Type) where
  | create (flags : Nat) (collective : Bool) (fcpl : P) (numProcs : Nat) (sched : Schedule)
  | call (op : PathOp P)

namespace Volume

/-- What an operation leaves of a file, in the store and outside. -/
def setFile (v : Volume P) (name : FileName) (s : PathFile P) : Volume P :=
  ⟨s.file.store, Function.update v.files name (some s)⟩

/-- A call with a file that was created. -/
def call (w : Process P) (v : Volume P) (name : FileName) (op : PathOp P) :
    Except Stop (PathReply P × Volume P) := do
  let s ← orFault (v.files name)
  let r ← (s.withStore v.store).step w op
  return (r.1, v.setFile name r.2)

/-- One operation on a file. -/
def step (w : Process P) (v : Volume P) :
    FileName × FileOp P → Except Stop (PathReply P × Volume P)
  | (name, .create flags collective fcpl numProcs sched) =>
    (PathFile.create w v.store name flags collective fcpl numProcs sched).map
      fun s => (.done, v.setFile name s)
  | (name, .call op) => v.call w name op

/-- The replies to a sequence of operations, and the volume after it. -/
def run (w : Process P) (v : Volume P) :
    List (FileName × FileOp P) → Except Stop (List (PathReply P) × Volume P)
  | [] => .ok ([], v)
  | op :: ops => do
    let r ← v.step w op
    let rest ← r.2.run w ops
    return (r.1 :: rest.1, rest.2)

end Volume

/-! ## Names of files -/

/-- `H5VL_dtio_stat`: the size of an object; `psize` is left as it is if there is none. -/
def stat (objects : Store) (oid : Key) (psize : Nat) : Nat :=
  match objects oid with
  | some obj => obj.length
  | none => psize

/-- `H5VL_FILE_IS_ACCESSIBLE` of `H5VL_dtio_file_specific`: there is a global metadata object, and
it is not empty. -/
def isAccessible (store : MdStore) (name : FileName) : Bool :=
  stat store.objects (stringName name.name 0) 0 != 0

end DTIO.Vol
