import DTIO.Vol.Files
import DTIO.Vol.Transfer

/-!
# Sessions

What an application does with a file after `H5VL_dtio_file_create`
(`adapter/vol/vol-old/H5VLDTIO.cc`): all ranks create groups and datasets in the groups that they
have, and each rank looks up links (`H5VL_dtio_link_read`) and reads datasets
(`H5VL_dtio_dataset_read`) through its own handles.

## Main definitions

- `CreateCall`: a call of `H5VL_dtio_file_create`
- `Session`: a file and the handles of its objects
- `Session.call`, `Session.replies`: one call, and the replies to a sequence of calls
-/

namespace DTIO.Vol

open DTIO.Posix DTIO.Grid

/-- The operations on the keys of the objects. -/
def MdStore.omap : Omap MdStore where
  set s oid name data :=
    some (0, { s with
      links := Function.update s.links oid (Function.update (s.links oid) name data) })
  get s oid name := some ⟨0, 0, 0, s.links oid name⟩

theorem MdStore.omap_exact : MdStore.omap.Exact MdStore.links where
  set_ok s oid name data := by
    refine ⟨0, _, rfl, le_rfl, fun oid' name' => ?_⟩
    by_cases ho : oid' = oid
    · subst ho
      by_cases hn : name' = name
      · subst hn
        simp
      · simp [hn]
    · simp [ho]
  get_ok s oid name := ⟨⟨0, 0, 0, s.links oid name⟩, rfl, le_rfl, le_rfl, le_rfl, rfl⟩

/-! ## Handles -/

/-- What the handle of a dataset has besides its id. -/
structure Shape where
  extent : Coord
  layout : Layout
  type : Datatype
  rank_le : extent.length ≤ maxRank

inductive Kind where
  | group
  | dataset (shape : Shape)

def Kind.type : Kind → ObjType
  | group => .group
  | dataset _ => .dataset

/-- A file, and for each object that was created its kind and what each rank has got. -/
structure Session where
  file : SharedFile
  objects : List (Kind × List ObjId)

namespace Session

/-- A rank's handle of a group. -/
def group (s : Session) (rank obj : Nat) : Option ObjId :=
  match s.objects[obj]? with
  | some (.group, ids) => ids[rank]?
  | _ => none

/-- A rank's handle of a dataset. -/
def dataset (s : Session) (rank obj : Nat) : Option Dataset :=
  match s.objects[obj]? with
  | some (.dataset shape, ids) => ids[rank]?.map fun id =>
      ⟨s.file.name.name, id.binOid.toNat, shape.extent, shape.layout, shape.type⟩
  | _ => none

/-! ## Calls -/

/-- The entries of one dataset in the arrays of a read. -/
structure ReadEntry where
  dset : Nat
  memType : Datatype
  fileSpace : Option Dataspace
  memSpace : Option Dataspace

/-- What the ranks do together, and what one rank does. -/
inductive Call where
  | createGroup (allColl : Bool) (gcpl : List Byte) (parent : Nat) (name : CString)
      (sched : Schedule)
  | createDataset (allColl : Bool) (shape : Shape) (info : DatasetInfo) (parent : Nat)
      (name : CString) (sched : Schedule)
  | lookup (rank grp : Nat) (name : CString) (memory : LinkMemory)
  | read (rank : Nat) (env : Env) (entries : List ReadEntry) (target : ReadTarget)

/-- What a call returns. -/
inductive Reply where
  | created (ids : List ObjId)
  | link (result : Except Stop LinkVal)
  | data (result : Except Stop (ReadTarget × List Owner))
  | failed (why : Stop)
  /-- there is no such handle -/
  | noHandle

/-- The objects of a file after a creation. -/
def created (s : Session) (kind : Kind) : Except Stop SharedFile → Reply × Session
  | .error why => (.failed why, s)
  | .ok file =>
    let ids := file.created.getLastD []
    (.created ids, ⟨file, s.objects ++ [(kind, ids)]⟩)

/-- A creation in a group. -/
def create (s : Session) (kind : Kind) (parent : Nat) (name : CString)
    (op : Key × CString → SharedFile.Op) : Reply × Session :=
  match s.group 0 parent with
  | none => (.noHandle, s)
  | some id => s.created kind (s.file.step (op (id.oid, name)))

/-- The entry of a read, for the dataset of a handle. -/
def request (s : Session) (rank : Nat) (e : ReadEntry) : Except Stop Request :=
  (orFault (s.dataset rank e.dset)).map fun dset => ⟨dset, e.memType, e.fileSpace, e.memSpace⟩

/-- One call. -/
def call (s : Session) : Call → Reply × Session
  | .createGroup allColl gcpl parent name sched =>
    s.create .group parent name fun loc => .createGroup allColl gcpl loc sched
  | .createDataset allColl shape info parent name sched =>
    s.create (.dataset shape) parent name fun loc => .createDataset allColl info loc sched
  | .lookup rank grp name memory =>
    match s.group rank grp, s.file.ranks[rank]? with
    | some id, some file =>
      (.link (linkRead MdStore.omap s.file.store ⟨id.oid, file.flags⟩ name memory.heap
        memory.behind), s)
    | _, _ => (.noHandle, s)
  | .read rank env entries target =>
    match entries.mapM (s.request rank) with
    | .error _ => (.noHandle, s)
    | .ok requests =>
      (.data (datasetRead env s.file.store.objects requests .init target), s)

/-- The replies to a sequence of calls. -/
def replies (s : Session) : List Call → List Reply
  | [] => []
  | c :: calls => (s.call c).1 :: (s.call c).2.replies calls

end Session

/-! ## New files -/

/-- What the ranks pass to `H5VL_dtio_file_create`, and when their writes arrive. -/
structure CreateCall where
  name : FileName
  flags : Nat
  collective : Bool
  gcpl : List Byte
  numProcs : Nat
  sched : Schedule
  procs_pos : 0 < numProcs

namespace CreateCall

/-- The flags ask for a file that does not exist. -/
def Exclusive (c : CreateCall) : Prop := createFlags c.flags &&& accExcl ≠ 0

/-- The flags ask for an empty file. -/
def Truncating (c : CreateCall) : Prop := createFlags c.flags &&& accTrunc ≠ 0

instance instDecidableExclusive (c : CreateCall) : Decidable c.Exclusive :=
  inferInstanceAs (Decidable (_ ≠ _))

instance instDecidableTruncating (c : CreateCall) : Decidable c.Truncating :=
  inferInstanceAs (Decidable (_ ≠ _))

/-- `H5VL_dtio_file_create` on all ranks; there is a handle of the root group. -/
def run (c : CreateCall) (store : MdStore) : Except Stop Session :=
  (SharedFile.createFile store c.name c.flags c.collective c.gcpl c.numProcs c.sched).map
    fun file => ⟨file, [(.group, file.created.getLastD [])]⟩

end CreateCall

end DTIO.Vol
