import DTIO.Properties.TreeRuns
import DTIO.Vol.AsyncRanks

/-!
# Calls of a Rank on Its Own

A call in a file without collective metadata operations does the same on every rank, and what a rank
does of it does not depend on what else it reads than the tree: the ranks that are ahead have only
added to it.

## Main definitions

- `Settled`: the cells of a tree
- `Apart`: a call that does not depend on the other ranks
- `Advances`: a call in lockstep, and what each rank has of it

## Main results

- `contains_view`: whoever reads the cells of a tree sees the tree
- `groupCreateAt_own`, `datasetCreateAt_own`, `groupOpen_own`, `datasetOpenAt_own`: the calls
- `advance`: one call of all ranks
-/

namespace DTIO.Properties.OwnCalls

open DTIO.Posix DTIO.Broadcast DTIO.Namespace DTIO.WriteOnce DTIO.Vol DTIO.Vol.LinkGraph
open DTIO.Properties.TreeTraversal DTIO.Properties.TreeCreation DTIO.Properties.TreeOpens
open DTIO.Properties.TreeRefinement DTIO.Properties.TreeRuns

variable {P : Type} {w : Process P} {name : FileName}

/-! ## The cells of a tree -/

/-- A cell of the objects and links of a tree, with its value. -/
inductive Settled (w : Process P) (name : FileName) (t : ObjTree P) :
    Cell → Option (List Byte) → Prop
  | object {oid obj} : t.objects oid = some obj →
      Settled w name t (.inl (keyOf name oid)) (some (obj.bytes w))
  | link {a n b} : t.links a n = some b →
      Settled w name t (.inr (keyOf name a, n)) (some (linkBytes (.hard b)))

/-- What a rank writes for a new object, with a link to it. -/
def newWrites (w : Process P) (name : FileName) (t : ObjTree P) (obj : Object P)
    (p : t.Obj × CString) : List MdWrite :=
  [.full (keyOf name (t.nextOid obj.type)) (obj.bytes w),
    .link (keyOf name p.1.1) p.2 (.hard (t.nextOid obj.type))]

/-- A tree stays, or it gets an object under a name that was free. -/
inductive Adds (w : Process P) (name : FileName) (t : ObjTree P) :
    ObjTree P → List MdWrite → Prop
  | nothing : Adds w name t t []
  | object {hfew obj p} : t.links p.1.1 p.2 = none →
      Adds w name t (t.add hfew obj (some p)) (newWrites w name t obj p)

namespace Adds

variable {t t' : ObjTree P} {ws : List MdWrite} (h : Adds w name t t' ws)
include h

/-- What is settled stays. -/
theorem grows {k : Cell} {v : Option (List Byte)} (hk : Settled w name t k v) :
    Settled w name t' k v := by
  cases h with
  | nothing => exact hk
  | @object hfew obj p hfree =>
    cases hk with
    | object hobj => exact .object (ObjTree.add_objects hfew obj _ hobj)
    | @link a n b hlink =>
      have hne : ¬ (a = p.1.1 ∧ n = p.2) := by
        rintro ⟨rfl, rfl⟩
        rw [hfree] at hlink
        cases hlink
      exact .link ((Links.put_of_ne _ _ hne).trans hlink)

/-- What is written is settled. -/
theorem settles {x : Cell × Option (List Byte)} (hx : x ∈ ws.map MdWrite.cell) :
    Settled w name t' x.1 x.2 := by
  cases h with
  | nothing => cases hx
  | @object hfew obj p hfree =>
    simp only [newWrites, List.map_cons, List.map_nil, List.mem_cons, List.not_mem_nil,
      or_false] at hx
    rcases hx with rfl | rfl
    · exact .object (ObjTree.add_objects_self hfew obj (some p))
    · exact .link (Links.put_self ..)

/-- What becomes settled is written. -/
theorem writes {k : Cell} {v : Option (List Byte)} (hk : Settled w name t' k v) :
    Settled w name t k v ∨ (k, v) ∈ ws.map MdWrite.cell := by
  cases h with
  | nothing => exact Or.inl hk
  | @object hfew obj p hfree =>
    -- an object's cell is old or the one just created
    cases hk with
    | @object oid obj' hobj =>
      by_cases hnew : oid = t.nextOid obj.type
      · subst hnew
        rw [ObjTree.add_objects_self hfew obj (some p)] at hobj
        obtain rfl := Option.some.inj hobj
        exact Or.inr (by simp [newWrites, MdWrite.cell])
      · exact Or.inl (.object ((Function.update_of_ne hnew ..).symm.trans hobj))
    -- a link's cell is old or the one just bound
    | @link a n b hlink =>
      have hput : t.links.put p.1.1 p.2 (t.nextOid obj.type) a n = some b := hlink
      by_cases hnew : a = p.1.1 ∧ n = p.2
      · obtain ⟨rfl, rfl⟩ := hnew
        rw [Links.put_self] at hput
        obtain rfl := Option.some.inj hput
        exact Or.inr (by simp [newWrites, MdWrite.cell])
      · rw [Links.put_of_ne _ _ hnew] at hput
        exact Or.inl (.link hput)

end Adds

theorem mapM_handles {f : TreeFile P} {α : Type} (g : UInt64 → α) {t : Nat} (ht : t < f.numProcs)
    (oids : List UInt64) :
    (oids.map fun oid => f.all (g oid)).mapM (·[t]?) = some (oids.map g) := by
  induction oids with
  | nil => rfl
  | cons oid oids ih =>
    have hget : (f.all (g oid))[t]? = some (g oid) := replicate_getElem? _ ht
    rw [List.map_cons, List.mapM_cons, hget, ih]
    rfl

section Stored

variable {f : TreeFile P} {s : PathFile P} (hf : Represents w name f s)
include hf

/-- The store of a file has the cells of its tree. -/
theorem cell_settled {k : Cell} {v : Option (List Byte)} (hk : Settled w name f.tree k v) :
    s.file.store.cell k = v := by
  cases hk with
  | object hobj => exact (hf.objects _ _ hobj).1
  | @link a n b hlink =>
    have hstored := hf.links a n
    rw [hlink] at hstored
    exact congrArg some hstored

/-- What a rank works on, when it reads the cells of the tree. -/
theorem contains_view {view : Cell → Option (List Byte)}
    (hview : ∀ k v, Settled w name f.tree k v → view k = v) {h : FileHandle}
    (hh : h ∈ s.file.ranks) :
    Contains w name f (w.context (.ofCells view) h (handleOf f name rootOid) f.numProcs) where
  plist := rfl
  omap := rfl
  name_eq := hf.rank_name hh
  root := rfl
  objects oid obj hobj := by
    refine ⟨?_, (hf.objects oid obj hobj).2⟩
    show (view (.inl (keyOf name oid))).getD [] = obj.bytes w
    rw [hview _ _ (.object hobj)]
    rfl
  links a n b hlink := by
    show (view (.inr (keyOf name a, n))).getD [] = linkBytes (.hard b)
    rw [hview _ _ (.link hlink)]
    rfl

/-! ## What a rank has -/

/-- The handles of a rank. -/
theorem rank_eq {t : Nat} (ht : t < f.numProcs) :
    ∃ h ∈ s.file.ranks, s.file.ranks[t]? = some h ∧
      s.rank t = some ⟨h, handleOf f name rootOid, f.groups.map (handleOf f name)⟩ := by
  have hlt : t < s.file.ranks.length := by rwa [hf.length_ranks]
  have hget : s.file.ranks[t]? = some s.file.ranks[t] := List.getElem?_eq_getElem hlt
  have hroot : s.roots[t]? = some (handleOf f name rootOid) := by
    rw [hf.roots]
    exact replicate_getElem? _ ht
  refine ⟨s.file.ranks[t], List.getElem_mem hlt, hget, ?_⟩
  rw [PathFile.rank, hget, hroot, hf.groups]
  show ((f.groups.map fun oid => f.all (handleOf f name oid)).mapM (·[t]?)).bind _ = _
  rw [mapM_handles (handleOf f name) ht]
  rfl

end Stored

/-- The object that a rank passes. -/
theorem item_ok {f : TreeFile P} {loc : Loc} {cur : Option f.tree.Obj}
    (hcur : f.locObj loc = .ok cur) :
    ∃ item, Passes f name item cur ∧ ∀ h root,
      (⟨h, root, f.groups.map (handleOf f name)⟩ : RankFile P).item loc = some item := by
  cases loc with
  | file =>
    obtain rfl : some f.tree.rootObj = cur := Except.ok.inj hcur
    exact ⟨_, .file, fun _ _ => rfl⟩
  | group i =>
    by_cases hi : i < f.groups.length
    · rw [TreeFile.locObj_group hi] at hcur
      obtain rfl := Except.ok.inj hcur
      refine ⟨_, .group _, fun h root => ?_⟩
      simp only [RankFile.item, List.getElem?_map, List.getElem?_eq_getElem hi, Option.map_some]
      rfl
    · rw [TreeFile.locObj_group_none hi] at hcur
      cases hcur
  | other =>
    obtain rfl : none = cur := Except.ok.inj hcur
    exact ⟨_, .other, fun _ _ => rfl⟩

/-! ## Calls -/

/-- A call that does not depend on how far the other ranks are: its path leads to an object of the
right type, or to where a new object gets a name that is free. -/
def Apart (w : Process P) (f : TreeFile P) : RankOp P → Prop
  | .createGroup loc path gcpl => f.Room ∧ (Object.group gcpl).Fits w ∧
    ∃ p, f.parentOf loc path = .ok (some p) ∧ f.tree.links p.1.1 p.2 = none
  | .createDataset loc path info => f.Room ∧ (Object.dataset info).Fits w ∧
    ∃ p, f.parentOf loc path = .ok (some p) ∧ f.tree.links p.1.1 p.2 = none
  | .openGroup loc path _ => ∃ cur a gcpl, f.locObj loc = .ok cur ∧
    f.findAt cur path (TreeFile.namesGroup path) = .ok a ∧
    f.tree.objects a.1 = some (.group gcpl) ∧
    ∀ b, f.startObj cur path = .ok b → f.tree.Groups b (pathGroups path.bytes)
  | .openDataset loc path _ => ∃ cur a info, f.locObj loc = .ok cur ∧
    f.findAt cur path false = .ok a ∧ f.tree.objects a.1 = some (.dataset info)

/-- All calls of a sequence are. -/
def AllApart (w : Process P) (sched : Schedule) (f : TreeFile P) : List (RankOp P) → Prop
  | [] => True
  | op :: ops => Apart w f op ∧
    ∀ r, f.step (op.together sched) = .ok r → AllApart w sched r.2 ops

/-- A file between two calls: its tree, and what each of `n` ranks has. -/
structure Moment (P : Type) (n : Nat) where
  tree : TreeFile P
  file : PathFile P
  rank : Fin n → RankFile P

/-- The ranks have a file open that all of them write. -/
structure Moment.Ready {n : Nat} (w : Process P) (name : FileName) (m : Moment P n) : Prop where
  represents : Represents w name m.tree m.file
  numProcs : m.tree.numProcs = n
  own : m.tree.collective = false
  rank : ∀ t : Fin n, m.file.rank t = some (m.rank t)

/-- A call in lockstep.  Each rank does its part of it also on its own, whatever it reads besides
the tree. -/
structure Advances {n : Nat} (w : Process P) (name : FileName) (sched : Schedule) (op : RankOp P)
    (m m' : Moment P n) (reply : PathReply P) (steps : Fin n → RankStep P)
    (ws : List MdWrite) : Prop where
  together : m.file.step w (op.together sched) = .ok (reply, m'.file)
  tree : m.tree.step (op.together sched) = .ok (reply, m'.tree)
  adds : Adds w name m.tree.tree m'.tree.tree ws
  others : ∀ key, (∀ data, .full key data ∉ ws) →
    m'.file.file.store.objects key = m.file.file.store.objects key
  elsewhere : SameElsewhere name m.file.file.store m'.file.file.store
  writes : ∀ t, (steps t).writes = ws
  rank : ∀ t, (steps t).rank = m'.rank t
  reply : ∀ t : Fin n, reply.of t = some (steps t).reply
  alone : ∀ t view, (∀ k v, Settled w name m.tree.tree k v → view k = v) →
    (m.rank t).step w n (.ofCells view) op = .ok (steps t)

section Rank

variable {s : PathFile P} {t : Nat} {r : RankFile P}

theorem rank_eq_some : s.rank t = some r ↔ s.file.ranks[t]? = some r.file ∧
    s.roots[t]? = some r.root ∧ s.groups.mapM (·[t]?) = some r.groups := by
  unfold PathFile.rank
  cases s.file.ranks[t]? with
  | none => simp
  | some file =>
    cases s.roots[t]? with
    | none => simp
    | some root =>
      cases s.groups.mapM (·[t]?) with
      | none => simp
      | some groups =>
        obtain ⟨file', root', groups'⟩ := r
        simp

/-- After a creation. -/
theorem rank_file (h : s.rank t = some r) {file : SharedFile} {h' : FileHandle}
    (hfile : file.ranks[t]? = some h') :
    ({ s with file := file } : PathFile P).rank t = some { r with file := h' } := by
  obtain ⟨-, hroot, hgroups⟩ := rank_eq_some.mp h
  exact rank_eq_some.mpr ⟨hfile, hroot, hgroups⟩

/-- With one more handle. -/
theorem rank_push (h : s.rank t = some r) {grps : List (OpenGroup P)} {grp : OpenGroup P}
    (hgrp : grps[t]? = some grp) :
    ({ s with groups := s.groups ++ [grps] } : PathFile P).rank t =
      some { r with groups := r.groups ++ [grp] } := by
  obtain ⟨hfile, hroot, hgroups⟩ := rank_eq_some.mp h
  refine rank_eq_some.mpr ⟨hfile, hroot, ?_⟩
  show (s.groups ++ [grps]).mapM (·[t]?) = some (r.groups ++ [grp])
  rw [List.mapM_append, hgroups]
  simp [hgrp]

end Rank

section Calls

variable {n : Nat} {m : Moment P n} (hm : m.Ready w name)
include hm

/-- What a rank has. -/
theorem Moment.Ready.handles (t : Fin n) :
    ∃ h ∈ m.file.file.ranks, m.file.file.ranks[t.1]? = some h ∧ h.collective = false ∧
      m.rank t = ⟨h, handleOf m.tree name rootOid, m.tree.groups.map (handleOf m.tree name)⟩ := by
  have ht : t.1 < m.tree.numProcs := by
    rw [hm.numProcs]
    exact t.2
  obtain ⟨h, hh, hget, hrank⟩ := rank_eq hm.represents ht
  refine ⟨h, hh, hget, ?_, Option.some.inj ((hm.rank t).symm.trans hrank)⟩
  rw [hm.represents.collective h hh, hm.own]

/-- What all ranks get. -/
theorem Moment.Ready.all_get {α : Type} (t : Fin n) (a : α) : (m.tree.all a)[t.1]? = some a := by
  refine replicate_getElem? a ?_
  rw [hm.numProcs]
  exact t.2

/-- What a rank works on that reads the cells of the tree. -/
theorem Moment.Ready.contains {view : Cell → Option (List Byte)}
    (hview : ∀ k v, Settled w name m.tree.tree k v → view k = v) {h : FileHandle}
    (hh : h ∈ m.file.file.ranks) :
    Contains w name m.tree (w.context (.ofCells view) h (handleOf m.tree name rootOid) n) := by
  have hcontains := contains_view hm.represents hview hh
  rwa [hm.numProcs] at hcontains

/-- A call that does not depend on others is one of a correct application. -/
theorem Moment.Ready.specified {op : RankOp P} (hn : 0 < n) (hapart : Apart w m.tree op)
    (sched : Schedule) : m.tree.Specified w (op.together sched) := by
  have hopen : 0 < m.tree.numProcs := by
    rw [hm.numProcs]
    exact hn
  cases op with
  | createGroup loc path gcpl => exact ⟨hapart.1, hapart.2.1⟩
  | createDataset loc path info => exact ⟨hapart.1, hapart.2.1⟩
  | openGroup loc path memory =>
    obtain ⟨cur, a, gcpl, hcur, hfind, hobj, hgroups⟩ := hapart
    refine ⟨hopen, fun hbcast => ?_, fun cur' b hcur' hstart => ?_, fun a' hfind' => ?_⟩
    · -- nothing is broadcast
      have hcoll : (m.tree.collective || false) = true := hbcast.1
      rw [hm.own] at hcoll
      cases hcoll
    · obtain rfl := Except.ok.inj (hcur.symm.trans hcur')
      exact hgroups b hstart
    · rw [TreeFile.find, hcur, ok_bind, hfind] at hfind'
      obtain rfl := Except.ok.inj hfind'
      exact ⟨gcpl, hobj⟩
  | openDataset loc path memory =>
    obtain ⟨cur, a, info, hcur, hfind, hobj⟩ := hapart
    refine ⟨hopen, fun a' hfind' => ?_⟩
    rw [TreeFile.find, hcur, ok_bind, hfind] at hfind'
    obtain rfl := Except.ok.inj hfind'
    exact ⟨info, hobj⟩

end Calls

/-! ### Creations -/

/-- The parent of a new object, whatever else a rank reads. -/
theorem targetGrp_own {f : TreeFile P} {c : Context MdStore P} (hc : Contains w name f c)
    {item : Item P} {cur : Option f.tree.Obj} (hitem : Passes f name item cur) {path : CString}
    {p : f.tree.Obj × CString} (hparent : f.parentAt cur path = .ok (some p)) (d : Nat) :
    targetGrp c (d + 1) item path = .ok (some (keyOf name p.1.1, p.2)) := by
  obtain ⟨hlocate, hlast⟩ := TreeFile.parentAt_some hparent
  obtain ⟨t, ht, hoid, hname⟩ := hc.groupTraverse_ok hitem hlocate d 0
  rw [targetGrp, ht]
  simp only [hoid, hname, hlast]
  rfl

section Create

variable {f : TreeFile P} {s : PathFile P} (hf : Represents w name f s) {h : FileHandle}
  (hh : h ∈ s.file.ranks) (hown : h.collective = false) {obj : Object P}
  {p : f.tree.Obj × CString}
include hf hh hown

/-- The id of an object that a rank creates for itself, and what it writes. -/
theorem createObject_own :
    (createObject h obj.type (obj.bytes w) (linksOf name (some p) obj.type (takesPart false) h)
        (takesPart false h)).obj =
      ⟨f.tree.nextOid obj.type, keyOf name (f.tree.nextOid obj.type)⟩ ∧
    (createObject h obj.type (obj.bytes w) (linksOf name (some p) obj.type (takesPart false) h)
        (takesPart false h)).writes = newWrites w name f.tree obj p := by
  obtain ⟨_, -, -, hinv⟩ := hf.ids
  have hacts : takesPart false h = true := by simp [takesPart, FileHandle.acts, hown]
  have hnext : oidCreate h.name (h.maxOid + 1) obj.type =
      ⟨f.tree.nextOid obj.type, keyOf name (f.tree.nextOid obj.type)⟩ := by
    rw [(hinv.handles h hh).maxOid, hf.count, hf.rank_name hh]
    simp [oidCreate, ObjTree.nextOid, nthOid, keyOf]
  constructor
  · simp only [createObject, hacts, if_true, hnext]
  · simp only [createObject, hacts, if_true, hnext, linksOf, parentKey, Option.map_some,
      Option.elim_some, linkTo, if_pos (hinv.handles h hh).writable]
    rfl

omit hh hown in
/-- An object that nobody has written. -/
theorem others_afterCreate {create : FileHandle → Except Stop Creation}
    (hc : ObjectIds.Creates s.file create obj.type (obj.bytes w)
      (linksOf name (some p) obj.type (takesPart false)) (takesPart false)) (sched : Schedule)
    {key : Key} (hkey : ∀ data, .full key data ∉ newWrites w name f.tree obj p) :
    (ObjectIds.afterCreate s.file obj.type (obj.bytes w)
        (linksOf name (some p) obj.type (takesPart false)) (takesPart false)
        sched).store.objects key = s.file.store.objects key := by
  refine objects_afterCreate hf hc sched fun heq => hkey (obj.bytes w) ?_
  rw [heq]
  exact List.mem_cons_self

variable {c : Context MdStore P} (hc : Contains w name f c) {item : Item P}
  {cur : Option f.tree.Obj} (hitem : Passes f name item cur) {path : CString}
  (hparent : f.parentAt cur path = .ok (some p)) (d : Nat)
include hc hitem hparent

/-- `H5VL_dtio_group_create` of a rank for itself. -/
theorem groupCreateAt_own (gcpl : P) :
    groupCreateAt c (d + 1) h false gcpl item path =
      .ok (createObject h (Object.group gcpl).type ((Object.group gcpl).bytes w)
        (linksOf name (some p) (Object.group gcpl).type (takesPart false) h)
        (takesPart false h)) := by
  obtain ⟨_, -, -, hinv⟩ := hf.ids
  have hwritable := (hinv.handles h hh).writable
  have hacts : takesPart false h = true := by simp [takesPart, FileHandle.acts, hown]
  have hif : h.acts (h.collective || false) = true := hacts
  unfold groupCreateAt
  rw [if_pos hif, targetGrp_own hc hitem hparent, hc.plist]
  simp only [ok_bind, groupCreateHelper, if_pos hwritable, linksOf, if_pos hacts]
  rfl

omit hf hh in
/-- And `H5VL_dtio_dataset_create`. -/
theorem datasetCreateAt_own (info : DatasetInfo) :
    datasetCreateAt c (d + 1) h false info item path =
      .ok (createObject h (.dataset info : Object P).type ((Object.dataset info).bytes w)
        (linksOf name (some p) (.dataset info : Object P).type (takesPart false) h)
        (takesPart false h)) := by
  have hacts : takesPart false h = true := by simp [takesPart, FileHandle.acts, hown]
  have hif : h.acts (h.collective || false) = true := hacts
  unfold datasetCreateAt
  rw [if_pos hif, targetGrp_own hc hitem hparent]
  simp only [ok_bind, datasetCreate, linksOf, if_pos hacts]
  rfl

end Create

/-! ### Opens -/

section Open

variable {f : TreeFile P} {c : Context MdStore P} (hc : Contains w name f c)
  (hown : c.file.collective = false) {item : Item P} {cur : Option f.tree.Obj}
  (hitem : Passes f name item cur) {path : CString} {a : f.tree.Obj}
include hc hown hitem

/-- `H5VL_dtio_group_open` of a rank for itself. -/
theorem groupOpen_own
    (hgroups : ∀ a, f.startObj cur path = .ok a → f.tree.Groups a (pathGroups path.bytes))
    (hat : f.findAt cur path (TreeFile.namesGroup path) = .ok a) {gcpl : P}
    (hobj : f.tree.objects a.1 = some (.group gcpl)) (d rank : Nat) (m : RankMemory) :
    groupOpen c (d + 1) false rank item (.byName path) m = .done ⟨handleOf f name a.1, none⟩ := by
  have hreached := reached_of_find (d := d) hc hitem hgroups hat hobj
  obtain ⟨buf, hlocal, hready⟩ := GroupOpen.openLocal_ok hreached (Or.inl rfl)
  rw [handle_group hc hobj] at hlocal
  rw [← GroupOpen.reader_alone hlocal hready m]
  simp [groupOpen, hown]

/-- And `H5VL_dtio_dataset_open`. -/
theorem datasetOpenAt_own (hat : f.findAt cur path false = .ok a) {info : DatasetInfo}
    (hobj : f.tree.objects a.1 = some (.dataset info)) (d rank : Nat) (m : RankMemory) :
    datasetOpenAt c (d + 1) false rank item path m = .done ⟨a.1.toNat, info⟩ := by
  obtain ⟨b, hlocate, hlast⟩ := bind_eq_ok.mp hat
  have hlink : f.tree.follow b (CString.ofBuffer (pathLast path.bytes)) = some a :=
    ObjTree.linked_eq_ok.mp hlast
  obtain ⟨t, ht, hoid, hname⟩ := hc.groupTraverse_ok hitem hlocate d 0
  have hlookup : datasetLookup c (d + 1) item path = .ok (a.1, t.calls + 1) := by
    rw [datasetLookup, ht, ok_bind, hname]
    exact hc.linkFollow_ok hoid hlink d t.calls
  obtain ⟨hrecord, hfits⟩ := hc.objects _ _ hobj
  rw [← DatasetOpen.reader_alone hfits m]
  have hif : (!(false || false) || rank == 0) = true := rfl
  rw [datasetOpenAt, hown, if_pos hif, hlookup]
  show datasetOpen false rank c.file.numProcs a.1.toNat _ m = _
  simp only [hc.stringName_eq, hrecord, datasetOpen, Bool.not_false, Bool.true_or, if_true]
  rfl

end Open

/-! ### One call -/

section Advance

variable {n : Nat} {m : Moment P n} (hm : m.Ready w name) {sched : Schedule} {op : RankOp P}
include hm

/-- What a rank of the next moment has, and what it gets, is what it finds on its own. -/
theorem advance_of (hdepth : 0 < w.depth) (hspec : m.tree.Specified w (op.together sched))
    {reply : PathReply P} {f : TreeFile P} {s : PathFile P} {ws : List MdWrite}
    (htree : m.tree.step (op.together sched) = .ok (reply, f))
    (hfile : m.file.step w (op.together sched) = .ok (reply, s))
    (hnum : f.numProcs = n) (hown : f.collective = false)
    (hadds : Adds w name m.tree.tree f.tree ws)
    (hothers : ∀ key, (∀ data, .full key data ∉ ws) →
      s.file.store.objects key = m.file.file.store.objects key)
    (hranks : ∀ t : Fin n, ∃ k : RankStep P, k.writes = ws ∧ s.rank t = some k.rank ∧
      reply.of t = some k.reply ∧
      ∀ view, (∀ k v, Settled w name m.tree.tree k v → view k = v) →
        (m.rank t).step w n (.ofCells view) op = .ok k) :
    ∃ m' reply steps ws, Moment.Ready w name m' ∧
      Advances w name sched op m m' reply steps ws := by
  -- the step in lockstep keeps the tree and the file in agreement
  have hstep := step_spec hdepth hm.represents hspec
  rw [htree] at hstep
  obtain ⟨x, hx, hstepped⟩ := hstep
  obtain rfl := Except.ok.inj (hfile.symm.trans hx)
  -- each rank has its own step, which it finds alone
  choose steps hwrites hrank hreply halone using hranks
  refine ⟨⟨f, s, fun t => (steps t).rank⟩, reply, steps, ws, ?_, ?_⟩
  · exact ⟨hstepped.represents, hnum, hown, hrank⟩
  · exact {
      together := hfile
      tree := htree
      adds := hadds
      others := hothers
      elsewhere := hstepped.elsewhere
      writes := hwrites
      rank := fun _ => rfl
      reply := hreply
      alone := halone }

variable {d : Nat} (hdepth : w.depth = d + 1)
include hdepth

/-- **Groups.** -/
theorem advance_createGroup (hn : 0 < n) {loc : Loc} {path : CString} {gcpl : P}
    (hapart : Apart w m.tree (.createGroup loc path gcpl)) :
    ∃ m' reply steps ws, Moment.Ready w name m' ∧
      Advances w name sched (.createGroup loc path gcpl) m m' reply steps ws := by
  have hspec := hm.specified hn hapart sched
  have hf := hm.represents
  obtain ⟨hroom, hfits, p, hparent, hfree⟩ := hapart
  obtain ⟨cur, hcur, hat⟩ := bind_eq_ok.mp hparent
  obtain ⟨item, hitem, hargs⟩ := arguments_ok (w := w) hf hcur
  have hobj : (m.tree.add hroom.2 (.group gcpl) (some p)).tree.objects
      (m.tree.tree.nextOid .group) = some (.group gcpl) :=
    ObjTree.add_objects_self hroom.2 (.group gcpl) (some p)
  have hc := creates_group hf hdepth hitem hargs false gcpl hat
  have htree : m.tree.step ((RankOp.createGroup loc path gcpl).together sched) =
      .ok (.created (m.tree.all (m.tree.tree.nextOid .group)),
        (m.tree.add hroom.2 (.group gcpl) (some p)).push hobj) := by
    show m.tree.createGroup loc path gcpl = _
    rw [TreeFile.createGroup, dif_pos hroom.2, hparent]
    rfl
  -- together all ranks create it; what one of them does by itself is said next
  refine advance_of hm (by omega) hspec htree (createGroup_eq hf hdepth sched hitem hargs gcpl hat)
    hm.numProcs hm.own (.object hfree) (fun key => others_afterCreate hf hc sched) fun t => ?_
  obtain ⟨h, hh, hget, hcoll, hrank⟩ := hm.handles t
  obtain ⟨hid, hwrites⟩ := @createObject_own P w name _ _ hf h hh hcoll (.group gcpl) p
  obtain ⟨item', hitem', hitems⟩ := @item_ok P name _ _ _ hcur
  refine ⟨(m.rank t).created _ [⟨m.tree.tree.nextOid .group,
    keyOf name (m.tree.tree.nextOid .group), some gcpl⟩], hwrites, ?_, ?_, fun view hview => ?_⟩
  · refine rank_push (rank_file (hm.rank t) ?_) (hm.all_get t _)
    exact (List.getElem?_map ..).trans (congrArg (Option.map _) hget)
  · rw [RankFile.created, hid]
    exact congrArg (Option.map _) (hm.all_get t _)
  · have hview := hm.contains hview hh
    have hcreate := groupCreateAt_own hf hh hcoll hview hitem' hat d gcpl
    rw [hrank]
    simp only [RankFile.step, hitems, orFault_some, ok_bind, RankFile.context, hdepth, hcreate, hid]
    rfl

/-- **Datasets.** -/
theorem advance_createDataset (hn : 0 < n) {loc : Loc} {path : CString} {info : DatasetInfo}
    (hapart : Apart w m.tree (.createDataset loc path info)) :
    ∃ m' reply steps ws, Moment.Ready w name m' ∧
      Advances w name sched (.createDataset loc path info) m m' reply steps ws := by
  have hspec := hm.specified hn hapart sched
  have hf := hm.represents
  obtain ⟨hroom, hfits, p, hparent, hfree⟩ := hapart
  obtain ⟨cur, hcur, hat⟩ := bind_eq_ok.mp hparent
  obtain ⟨item, hitem, hargs⟩ := arguments_ok (w := w) hf hcur
  have hc := creates_dataset hf hdepth hitem hargs false info hat
  -- in the tree the object gets the next oid and its link
  have htree : m.tree.step ((RankOp.createDataset loc path info).together sched) =
      .ok (.created (m.tree.all (m.tree.tree.nextOid .dataset)),
        m.tree.add hroom.2 (.dataset info) (some p)) := by
    show m.tree.createDataset loc path info = _
    rw [TreeFile.createDataset, dif_pos hroom.2, hparent]
    rfl
  refine advance_of hm (by omega) hspec htree
    (createDataset_eq hf hdepth sched hitem hargs info hat) hm.numProcs hm.own (.object hfree)
    (fun key => others_afterCreate hf hc sched) fun t => ?_
  -- rank `t`, with its handle and the list of its own objects
  obtain ⟨h, hh, hget, hcoll, hrank⟩ := hm.handles t
  obtain ⟨hid, hwrites⟩ := @createObject_own P w name _ _ hf h hh hcoll (.dataset info) p
  obtain ⟨item', hitem', hitems⟩ := @item_ok P name _ _ _ hcur
  refine ⟨(m.rank t).created _ [], hwrites, ?_, ?_, fun view hview => ?_⟩
  · rw [RankFile.created, List.append_nil]
    exact rank_file (hm.rank t) ((List.getElem?_map ..).trans (congrArg (Option.map _) hget))
  · rw [RankFile.created, hid]
    exact congrArg (Option.map _) (hm.all_get t _)
  -- alone it makes the same oid, as the parent is the same object
  · have hview := hm.contains hview hh
    have hcreate := datasetCreateAt_own hcoll hview hitem' hat d info
    rw [hrank]
    simp only [RankFile.step, hitems, orFault_some, ok_bind, RankFile.context, hdepth, hcreate]
    rfl

/-- **Opens of groups.** -/
theorem advance_openGroup (hn : 0 < n) {loc : Loc} {path : CString} {memory : Nat → RankMemory}
    (hapart : Apart w m.tree (.openGroup loc path memory)) :
    ∃ m' reply steps ws, Moment.Ready w name m' ∧
      Advances w name sched (.openGroup loc path memory) m m' reply steps ws := by
  have hspec := hm.specified hn hapart sched
  have hf := hm.represents
  obtain ⟨cur, a, gcpl, hcur, hat, hobj, hgroups⟩ := hapart
  have hopen : 0 < m.tree.numProcs := by rwa [hm.numProcs]
  -- nothing is broadcast, as the file was opened by each rank for itself
  have halone : ¬ m.tree.Broadcasts false := by
    intro hbcast
    have hcoll : (m.tree.collective || false) = true := hbcast.1
    rw [hm.own] at hcoll
    cases hcoll
  have hfind : m.tree.find loc path (TreeFile.namesGroup path) = .ok a := by
    rw [TreeFile.find, hcur]
    exact hat
  refine advance_of hm (by omega) hspec (TreeFile.openGroup_eq hfind hobj)
    (openGroup_eq hf hdepth memory hopen (fun hbcast => absurd hbcast halone) hcur hgroups hat hobj)
    hm.numProcs hm.own .nothing (fun key _ => rfl) fun t => ?_
  -- rank `t`, which finds the group by the same links
  obtain ⟨h, hh, hget, hcoll, hrank⟩ := hm.handles t
  obtain ⟨item, hitem, hitems⟩ := @item_ok P name _ _ _ hcur
  refine ⟨⟨.group a.1 (some gcpl), [], { m.rank t with
    groups := (m.rank t).groups ++ [handleOf m.tree name a.1] }⟩, rfl, ?_, ?_, fun view hview => ?_⟩
  · exact rank_push (hm.rank t) (hm.all_get t _)
  · exact congrArg (Option.map _) (hm.all_get t _)
  · have hview := hm.contains hview hh
    have hgroup := groupOpen_own hview hcoll hitem hgroups hat hobj d h.myRank (memory h.myRank)
    rw [hrank, handleOf_group hobj] at *
    simp only [RankFile.step, hitems, orFault_some, ok_bind, RankFile.context, hdepth, hgroup]
    rfl

/-- **Opens of datasets.** -/
theorem advance_openDataset (hn : 0 < n) {loc : Loc} {path : CString} {memory : Nat → RankMemory}
    (hapart : Apart w m.tree (.openDataset loc path memory)) :
    ∃ m' reply steps ws, Moment.Ready w name m' ∧
      Advances w name sched (.openDataset loc path memory) m m' reply steps ws := by
  have hspec := hm.specified hn hapart sched
  have hf := hm.represents
  obtain ⟨cur, a, info, hcur, hat, hobj⟩ := hapart
  have hopen : 0 < m.tree.numProcs := by rwa [hm.numProcs]
  -- the tree answers with the dataset's description at every rank
  have htree : m.tree.openDataset loc path =
      .ok (.datasets (m.tree.all ⟨a.1.toNat, info⟩), m.tree) := by
    rw [TreeFile.openDataset, TreeFile.find, hcur, ok_bind, hat]
    simp only [hobj]
  refine advance_of hm (by omega) hspec htree (openDataset_eq hf hdepth memory hopen hcur hat hobj)
    hm.numProcs hm.own .nothing (fun key _ => rfl) fun t => ?_
  obtain ⟨h, hh, hget, hcoll, hrank⟩ := hm.handles t
  obtain ⟨item, hitem, hitems⟩ := @item_ok P name _ _ _ hcur
  refine ⟨⟨.dataset ⟨a.1.toNat, info⟩, [], m.rank t⟩, rfl, hm.rank t, ?_, fun view hview => ?_⟩
  · exact congrArg (Option.map _) (hm.all_get t _)
  -- the rank reads it from its own view, which holds it already
  · have hview := hm.contains hview hh
    have hdataset := datasetOpenAt_own hview hcoll hitem hat hobj d h.myRank (memory h.myRank)
    rw [hrank]
    simp only [RankFile.step, hitems, orFault_some, ok_bind, RankFile.context, hdepth, hdataset]
    rfl

/-- **One call.** -/
theorem advance (hn : 0 < n) (hapart : Apart w m.tree op) :
    ∃ m' reply steps ws, Moment.Ready w name m' ∧
      Advances w name sched op m m' reply steps ws := by
  cases op with
  | createGroup loc path gcpl => exact advance_createGroup hm hdepth hn hapart
  | createDataset loc path info => exact advance_createDataset hm hdepth hn hapart
  | openGroup loc path memory => exact advance_openGroup hm hdepth hn hapart
  | openDataset loc path memory => exact advance_openDataset hm hdepth hn hapart

end Advance

end DTIO.Properties.OwnCalls
