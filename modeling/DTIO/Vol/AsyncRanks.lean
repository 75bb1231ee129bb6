import DTIO.Foundation.WriteOnce
import DTIO.Vol.PathCalls

/-!
# Ranks on Their Own

The calls of `Vol/PathCalls` in a file without collective metadata operations
(`adapter/vol/vol-old/H5VLDTIO.cc`).  Nothing is broadcast then, and no rank waits for another: each
goes through its calls in its own time, and they meet only in the store.  A call first reads links
and objects, then `H5VL_dtio_write_full` writes the new object and `H5VL_dtio_link_write` the link
to it.

## Main definitions

- `RankFile.step`: a call of one rank
- `Cell`, `MdStore.cell`: the store as cells
- `ownProgram`: the calls of the ranks on the cells
- `PathFile.run`: the same calls in lockstep
-/

namespace DTIO.Vol

open DTIO.Posix DTIO.Broadcast DTIO.WriteOnce

variable {P : Type}

/-! ## One rank -/

/-- What one rank has of a file. -/
structure RankFile (P : Type) where
  file : FileHandle
  root : OpenGroup P
  groups : List (OpenGroup P)

/-- A call of a rank. -/
inductive RankOp (P : Type) where
  | createGroup (loc : Loc) (path : CString) (gcpl : P)
  | createDataset (loc : Loc) (path : CString) (info : DatasetInfo)
  | openGroup (loc : Loc) (path : CString) (memory : Nat → RankMemory)
  | openDataset (loc : Loc) (path : CString) (memory : Nat → RankMemory)

/-- What the rank gets. -/
inductive RankReply (P : Type) where
  | created (binOid : UInt64)
  | group (binOid : UInt64) (gcpl : Option P)
  | dataset (dset : OpenedDataset)
  deriving DecidableEq

/-- What a call of a rank does. -/
structure RankStep (P : Type) where
  reply : RankReply P
  writes : List MdWrite
  rank : RankFile P

/-- A program that neither sends nor receives anything. -/
def alone {α : Type} (p : Proc Comm Byte α) : Except Stop α := orFault p.result?

namespace RankFile

/-- The object that the rank passes. -/
def item (r : RankFile P) : Loc → Option (Item P)
  | .file => some .file
  | .group i => r.groups[i]?.map .group
  | .other => some .other

/-- What the rank works on. -/
def context (w : Process P) (numProcs : Nat) (store : MdStore) (r : RankFile P) :
    Context MdStore P :=
  w.context store r.file r.root numProcs

/-- After a creation, with the handle of a group. -/
def created (r : RankFile P) (x : Creation) (groups : List (OpenGroup P)) : RankStep P :=
  ⟨.created x.obj.binOid, x.writes, { r with file := x.file, groups := r.groups ++ groups }⟩

/-- A call on what the rank reads of the store. -/
def step (w : Process P) (numProcs : Nat) (store : MdStore) (r : RankFile P) :
    RankOp P → Except Stop (RankStep P)
  | .createGroup loc path gcpl => do
    let item ← orFault (r.item loc)
    let x ← groupCreateAt (r.context w numProcs store) w.depth r.file false gcpl item path
    return r.created x [⟨x.obj.binOid, x.obj.oid, some gcpl⟩]
  | .createDataset loc path info => do
    let item ← orFault (r.item loc)
    let x ← datasetCreateAt (r.context w numProcs store) w.depth r.file false info item path
    return r.created x []
  | .openGroup loc path memory => do
    let item ← orFault (r.item loc)
    let x ← alone (groupOpen (r.context w numProcs store) w.depth false r.file.myRank item
      (.byName path) (memory r.file.myRank))
    return ⟨.group x.grp.binOid x.grp.gcpl, [], { r with groups := r.groups ++ [x.grp] }⟩
  | .openDataset loc path memory => do
    let item ← orFault (r.item loc)
    let x ← alone (datasetOpenAt (r.context w numProcs store) w.depth false r.file.myRank item path
      (memory r.file.myRank))
    return ⟨.dataset x, [], r⟩

end RankFile

/-! ## Cells -/

/-- An object, or a key of an object. -/
abbrev Cell := Key ⊕ (Key × CString)

namespace MdStore

def cell (s : MdStore) : Cell → Option (List Byte)
  | .inl key => s.objects key
  | .inr (key, name) => some (s.links key name)

def ofCells (cells : Cell → Option (List Byte)) : MdStore where
  objects key := cells (.inl key)
  links key name := (cells (.inr (key, name))).getD []

@[simp] theorem ofCells_cell (s : MdStore) : ofCells s.cell = s := rfl

end MdStore

/-- What is written, and where. -/
def MdWrite.cell : MdWrite → Cell × Option (List Byte)
  | .full oid data => (.inl oid, some data)
  | .link oid name val => (.inr (oid, name), some (linkBytes val))

/-- A rank, and what it has got so far. -/
structure RankState (P : Type) where
  rank : RankFile P
  replies : List (RankReply P)

/-- The calls that every rank of a file makes. -/
def ownProgram (w : Process P) (numProcs : Nat) (ops : List (RankOp P)) :
    Program (Fin numProcs) Cell (Option (List Byte)) (RankState P) where
  n := ops.length
  op i _ r view := do
    let op ← ops[i]?
    let x ← (r.rank.step w numProcs (.ofCells view) op).toOption
    return (x.writes.map MdWrite.cell, ⟨x.rank, r.replies ++ [x.reply]⟩)

/-! ## The same calls in lockstep -/

/-- The call of all ranks. -/
def RankOp.together (sched : Schedule) : RankOp P → PathOp P
  | .createGroup loc path gcpl => .createGroup false loc path gcpl sched
  | .createDataset loc path info => .createDataset false loc path info sched
  | .openGroup loc path memory => .openGroup false loc path memory
  | .openDataset loc path memory => .openDataset false loc path memory

/-- What a rank gets of a reply. -/
def PathReply.of (rank : Nat) : PathReply P → Option (RankReply P)
  | .created binOids => binOids[rank]?.map .created
  | .groups grps => grps[rank]?.map fun x => .group x.1 x.2
  | .datasets dsets => dsets[rank]?.map .dataset
  | .done => none

namespace PathFile

/-- What a rank has of the file. -/
def rank (s : PathFile P) (i : Nat) : Option (RankFile P) := do
  let file ← s.file.ranks[i]?
  let root ← s.roots[i]?
  let groups ← s.groups.mapM (·[i]?)
  return ⟨file, root, groups⟩

/-- The replies to a sequence of calls, and the file after it. -/
def run (w : Process P) (s : PathFile P) :
    List (PathOp P) → Except Stop (List (PathReply P) × PathFile P)
  | [] => .ok ([], s)
  | op :: ops => do
    let r ← s.step w op
    let rest ← r.2.run w ops
    return (r.1 :: rest.1, rest.2)

end PathFile

end DTIO.Vol
