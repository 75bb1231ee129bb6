import DTIO.Properties.TreeTraversal

/-!
# Creations in Stored Trees

All ranks create an object, and some of them write it and its link to the store in any order.  The
file has the tree with the new object then, whoever has written.

## Main results

- `arguments_ok`, `arguments_error`: the ranks pass the same object
- `represents_afterCreate`: the tree after a creation
- `createGroup_stepped`, `createDataset_stepped`: creations by path
-/

namespace DTIO.Properties.TreeCreation

open DTIO.Posix DTIO.Broadcast DTIO.Namespace DTIO.Vol DTIO.Vol.LinkGraph
open DTIO.Properties.ObjectIds
  (Inv Index Creates afterCreate afterCreate_leader afterCreate_other objectOf)
open DTIO.Properties.TreeTraversal

variable {P : Type} {w : Process P} {name : FileName} {f : TreeFile P} {s : PathFile P}

/-! ## Arguments -/

theorem replicate_getElem? {α : Type} {n i : Nat} (a : α) (h : i < n) :
    (List.replicate n a)[i]? = some a := by
  rw [List.getElem?_replicate, if_pos h]

/-- All ranks pass the same object, and work on the same tree. -/
theorem arguments_ok (hf : Represents w name f s) {loc : Loc} {cur : Option f.tree.Obj}
    (hcur : f.locObj loc = .ok cur) :
    ∃ item, Passes f name item cur ∧
      ∀ h ∈ s.file.ranks, s.arguments w loc h = .ok (contextOf w f name s h, item) := by
  -- it is enough to find the object
  suffices hitem : ∃ item, Passes f name item cur ∧
      ∀ rank, rank < f.numProcs → s.item loc rank = some item by
    obtain ⟨item, hpasses, hitem⟩ := hitem
    refine ⟨item, hpasses, fun h hh => ?_⟩
    have hrank := hf.myRank_lt hh
    have hroot : s.roots[h.myRank]? = some (handleOf f name rootOid) := by
      rw [hf.roots]
      exact replicate_getElem? _ hrank
    simp only [PathFile.arguments, hroot, hitem _ hrank, orFault_some, ok_bind, contextOf,
      hf.length_ranks]
    rfl
  cases loc with
  | file =>
    obtain rfl : some f.tree.rootObj = cur := Except.ok.inj hcur
    exact ⟨_, .file, fun _ _ => rfl⟩
  | group i =>
    by_cases hi : i < f.groups.length
    · rw [TreeFile.locObj_group hi] at hcur
      obtain rfl := Except.ok.inj hcur
      refine ⟨_, .group _, fun rank hrank => ?_⟩
      have hget : s.groups[i]? = some (f.all (handleOf f name f.groups[i])) := by
        rw [hf.groups, List.getElem?_map, List.getElem?_eq_getElem hi, Option.map_some]
      have hhandle : (f.all (handleOf f name f.groups[i]))[rank]? =
          some (handleOf f name f.groups[i]) := replicate_getElem? _ hrank
      simp only [PathFile.item, hget, Option.bind_some, hhandle, Option.map_some]
      rfl
    · rw [TreeFile.locObj_group_none hi] at hcur
      cases hcur
  | other =>
    obtain rfl : none = cur := Except.ok.inj hcur
    exact ⟨_, .other, fun _ _ => rfl⟩

/-- A handle that an application has not got. -/
theorem arguments_error (hf : Represents w name f s) {loc : Loc} {e : Stop}
    (hcur : f.locObj loc = .error e) :
    e = .fault ∧ ∀ h ∈ s.file.ranks, s.arguments w loc h = .error .fault := by
  cases loc with
  | file => cases hcur
  | group i =>
    by_cases hi : i < f.groups.length
    · rw [TreeFile.locObj_group hi] at hcur
      cases hcur
    · rw [TreeFile.locObj_group_none hi] at hcur
      obtain rfl := Except.error.inj hcur
      refine ⟨rfl, fun h hh => ?_⟩
      have hroot : s.roots[h.myRank]? = some (handleOf f name rootOid) := by
        rw [hf.roots]
        exact replicate_getElem? _ (hf.myRank_lt hh)
      have hget : s.groups[i]? = none := by
        rw [hf.groups, List.getElem?_map, List.getElem?_eq_none (not_lt.mp hi), Option.map_none]
      simp only [PathFile.arguments, hroot, PathFile.item, hget, orFault_some, ok_bind,
        Option.bind_none, Option.map_none, orFault_none, error_bind]
  | other => cases hcur

/-! ## Creations -/

section Create

/-- The name that a new object is linked to, in the store. -/
def parentKey (name : FileName) (parent : Option (f.tree.Obj × CString)) :
    Option (Key × CString) :=
  parent.map fun p => (keyOf name p.1.1, p.2)

/-- The links that a rank writes. -/
def linksOf (name : FileName) (parent : Option (f.tree.Obj × CString)) (type : ObjType)
    (acts : FileHandle → Bool) (h : FileHandle) : List MdWrite :=
  (if acts h then parentKey name parent else none).elim [] (linkTo h type)

theorem createObject_flags {h : FileHandle} {type : ObjType} {data : List Byte}
    {links : List MdWrite} {acts : Bool} :
    (createObject h type data links acts).file.flags = h.flags := by
  cases acts with
  | true => rfl
  | false => rfl

theorem createObject_collective {h : FileHandle} {type : ObjType} {data : List Byte}
    {links : List MdWrite} {acts : Bool} :
    (createObject h type data links acts).file.collective = h.collective := by
  cases acts with
  | true => rfl
  | false => rfl

variable {obj : Object P} {parent : Option (f.tree.Obj × CString)} {acts : FileHandle → Bool}
  {create : FileHandle → Except Stop Creation}

/-- A link that is written is the one to the new object. -/
theorem link_of_writes (hf : Represents w name f s) {h : FileHandle} (hh : h ∈ s.file.ranks)
    {key : Key} {n : CString} {val : LinkVal}
    (hmem : .link key n val ∈ (createObject h obj.type (obj.bytes w)
      (linksOf name parent obj.type acts h) (acts h)).writes) :
    ∃ p, parent = some p ∧ key = keyOf name p.1.1 ∧ n = p.2 ∧
      val = .hard (f.tree.nextOid obj.type) := by
  obtain ⟨_, -, -, hinv⟩ := hf.ids
  -- the id the code makes is the tree's next one
  have hmax := (hinv.handles h hh).maxOid
  have hnext : (oidCreate h.name (h.maxOid + 1) obj.type).binOid = f.tree.nextOid obj.type := by
    rw [hmax, hf.count]
    simp [oidCreate, ObjTree.nextOid, nthOid]
  unfold createObject linksOf at hmem
  -- a rank that does not act writes nothing
  cases hacts : acts h with
  | false =>
    rw [hacts] at hmem
    cases hmem
  | true =>
    rw [hacts] at hmem
    -- one that acts writes a link when there is a parent
    cases hparent : parent with
    | none =>
      rw [hparent] at hmem
      simp [parentKey] at hmem
    | some p =>
      rw [hparent] at hmem
      refine ⟨p, rfl, ?_⟩
      simpa [parentKey, linkTo, (hinv.handles h hh).writable, hnext] using hmem

/-- Rank 0 writes it. -/
theorem leader_writes (hf : Represents w name f s) {h : FileHandle} (hh : h ∈ s.file.ranks)
    (hacts : acts h = true) (p : f.tree.Obj × CString) :
    .link (keyOf name p.1.1) p.2 (.hard (f.tree.nextOid obj.type)) ∈
      (createObject h obj.type (obj.bytes w) (linksOf name (some p) obj.type acts h)
        (acts h)).writes := by
  obtain ⟨_, -, -, hinv⟩ := hf.ids
  have hnext : (oidCreate h.name (h.maxOid + 1) obj.type).binOid = f.tree.nextOid obj.type := by
    rw [(hinv.handles h hh).maxOid, hf.count]
    simp [oidCreate, ObjTree.nextOid, nthOid]
  rw [createObject, hacts]
  simp [linksOf, hacts, parentKey, linkTo, (hinv.handles h hh).writable, hnext]

variable (hf : Represents w name f s) (hroom : f.Room) (hobj : obj.Fits w)
  (hc : Creates s.file create obj.type (obj.bytes w) (linksOf name parent obj.type acts) acts)
  (sched : Schedule)
include hf hc

/-- Only the new object is written. -/
theorem objects_afterCreate {key : Key} (hkey : key ≠ keyOf name (f.tree.nextOid obj.type)) :
    (afterCreate s.file obj.type (obj.bytes w) (linksOf name parent obj.type acts) acts
      sched).store.objects key = s.file.store.objects key := by
  obtain ⟨_, -, -, hinv⟩ := hf.ids
  refine afterCreate_other hinv.toCounted hc sched fun heq => hkey ?_
  rw [heq, hf.count, hf.name_eq]
  rfl

/-- Other files are left alone. -/
theorem sameElsewhere_afterCreate :
    SameElsewhere name s.file.store (afterCreate s.file obj.type (obj.bytes w)
      (linksOf name parent obj.type acts) acts sched).store := by
  intro key hkey
  refine ⟨objects_afterCreate hf hc sched (hkey _), ?_⟩
  funext n
  refine links_untouched (fun val hmem => ?_) s.file.store
  obtain ⟨h, hh, hw⟩ := List.mem_flatMap.mp ((sched.perm _).mem_iff.mp hmem)
  obtain ⟨p, -, hlink, -⟩ := link_of_writes hf hh hw
  exact hkey _ hlink

/-- All ranks get the id of the new object. -/
theorem lastIds_afterCreate :
    PathFile.lastIds (afterCreate s.file obj.type (obj.bytes w)
        (linksOf name parent obj.type acts) acts sched) =
      f.all ⟨f.tree.nextOid obj.type, keyOf name (f.tree.nextOid obj.type)⟩ := by
  obtain rfl := hf.name_eq
  obtain ⟨_, -, -, hinv⟩ := hf.ids
  have hlast : PathFile.lastIds (afterCreate s.file obj.type (obj.bytes w)
      (linksOf s.file.name parent obj.type acts) acts sched) = s.file.ranks.map fun h =>
        (createObject h obj.type (obj.bytes w) (linksOf s.file.name parent obj.type acts h)
          (acts h)).obj := by
    simp [PathFile.lastIds, afterCreate]
  have hobj : ∀ h ∈ s.file.ranks, (createObject h obj.type (obj.bytes w)
      (linksOf s.file.name parent obj.type acts h) (acts h)).obj =
        ⟨f.tree.nextOid obj.type, keyOf s.file.name (f.tree.nextOid obj.type)⟩ := by
    intro h hh
    rw [ObjectIds.createObject_obj (hinv.handles h hh), hf.count]
    rfl
  rw [hlast, TreeFile.all, List.map_congr_left hobj, List.map_const', hf.length_ranks]

include hroom

/-- The links of the store after a creation. -/
theorem links_afterCreate (oid : UInt64) (n : CString) :
    (afterCreate s.file obj.type (obj.bytes w) (linksOf name parent obj.type acts) acts
        sched).store.links (keyOf name oid) n =
      ((f.tree.add hroom.2 obj parent).links oid n).elim [] fun b => linkBytes (.hard b) := by
  have hwrites : ∀ key m val, .link key m val ∈ sched.order (s.file.ranks.flatMap fun h =>
      (createObject h obj.type (obj.bytes w) (linksOf name parent obj.type acts h)
        (acts h)).writes) →
      ∃ p, parent = some p ∧ key = keyOf name p.1.1 ∧ m = p.2 ∧
        val = .hard (f.tree.nextOid obj.type) := by
    intro key m val hmem
    obtain ⟨h, hh, hw⟩ := List.mem_flatMap.mp ((sched.perm _).mem_iff.mp hmem)
    exact link_of_writes hf hh hw
  by_cases hnew : ∃ p, parent = some p ∧ oid = p.1.1 ∧ n = p.2
  · -- rank 0 has written this link, and the others write the same
    obtain ⟨p, rfl, rfl, rfl⟩ := hnew
    obtain ⟨_, -, -, hinv⟩ := hf.ids
    have hopen : s.file.ranks ≠ [] := hinv.open_iff.mp (decide_eq_true hroom.1)
    obtain ⟨h, hh, hzero⟩ := hinv.leader hopen
    have hmem := @leader_writes P w name f s obj acts hf h hh (hc.leader_acts h hzero) p
    have hlink : (f.tree.add hroom.2 obj (some p)).links p.1.1 p.2 =
        some (f.tree.nextOid obj.type) := Links.put_self ..
    rw [hlink, Option.elim_some]
    refine links_written ((sched.perm _).mem_iff.mpr (List.mem_flatMap.mpr ⟨h, hh, hmem⟩)) ?_ _
    intro val hval
    obtain ⟨-, -, -, -, hhard⟩ := hwrites _ _ _ hval
    exact hhard
  · have hold : (f.tree.add hroom.2 obj parent).links oid n = f.tree.links oid n := by
      cases parent with
      | none => rfl
      | some p => exact Links.put_of_ne _ _ fun heq => hnew ⟨p, rfl, heq.1, heq.2⟩
    rw [hold, ← hf.links]
    refine links_untouched (fun val hmem => ?_) s.file.store
    obtain ⟨p, hp, hkey, hn, -⟩ := hwrites _ _ _ hmem
    exact hnew ⟨p, hp, (StoreKeys.stringName_inj hkey).2, hn⟩

include hobj

/-- **Creations.**  The file has the tree with the new object and the new link. -/
theorem represents_afterCreate :
    Represents w name (f.add hroom.2 obj parent)
      { s with
        file := afterCreate s.file obj.type (obj.bytes w) (linksOf name parent obj.type acts)
          acts sched } := by
  have hlinks := links_afterCreate hf hroom hc sched
  obtain rfl := hf.name_eq
  obtain ⟨gcpl, hroot, hfits, hinv⟩ := hf.ids
  rw [decide_eq_true hroom.1] at hinv
  have hfew : Index (s.file.created.length + 1) := hf.count ▸ hroom.2
  have hopen : s.file.ranks ≠ [] := hinv.open_iff.mp rfl
  -- handles that are open stay what they are
  have hkept : ∀ oid ∈ f.groups, handleOf (f.add hroom.2 obj parent) s.file.name oid =
      handleOf f s.file.name oid := by
    intro oid hoid
    obtain ⟨gcpl, hgrp⟩ := f.groups_objects oid hoid
    unfold handleOf
    rw [hgrp, show (f.add hroom.2 obj parent).tree.objects oid = some (.group gcpl) from
      ObjTree.add_objects hroom.2 obj parent hgrp]
  have hrootNew : (f.add hroom.2 obj parent).tree.objects rootOid = some (.group gcpl) :=
    ObjTree.add_objects hroom.2 obj parent hroot
  refine {
    name_eq := rfl
    ids := ⟨gcpl, hrootNew, hfits, ?_⟩
    count := ?_
    ranks := ?_
    flags := ?_
    collective := ?_
    objects := ?_
    links := hlinks
    roots := ?_
    groups := ?_ }
  · rw [show decide (0 < (f.add hroom.2 obj parent).numProcs) = true from decide_eq_true hroom.1]
    exact hinv.create hfew hc sched
  · rw [show (f.add hroom.2 obj parent).tree.count = f.tree.count + 1 from rfl, ← hf.count]
    simp [afterCreate]
  · rw [show (f.add hroom.2 obj parent).numProcs = f.numProcs from rfl, ← hf.ranks]
    simp [afterCreate, ObjectIds.createObject_myRank]
  · obtain ⟨flags, hflags⟩ := hf.flags
    refine ⟨flags, fun h' hmem => ?_⟩
    obtain ⟨h, hh, rfl⟩ := List.mem_map.mp hmem
    exact createObject_flags.trans (hflags h hh)
  · intro h' hmem
    obtain ⟨h, hh, rfl⟩ := List.mem_map.mp hmem
    exact createObject_collective.trans (hf.collective h hh)
  · intro oid obj' hobj'
    -- the new object has been written; the others have other keys
    by_cases hnew : oid = f.tree.nextOid obj.type
    · subst hnew
      rw [show (f.add hroom.2 obj parent).tree.objects (f.tree.nextOid obj.type) = some obj from
        ObjTree.add_objects_self hroom.2 obj parent] at hobj'
      obtain rfl := Option.some.inj hobj'
      have hstored := (afterCreate_leader hinv.toCounted hc hopen sched).1
      rw [hf.count] at hstored
      exact ⟨hstored, hobj⟩
    · have hold : f.tree.objects oid = some obj' := by
        rw [← hobj']
        exact (Function.update_of_ne hnew ..).symm
      obtain ⟨hbytes, hsize⟩ := hf.objects oid obj' hold
      have hkey : keyOf s.file.name oid ≠ keyOf s.file.name (f.tree.nextOid obj.type) :=
        fun heq => hnew (StoreKeys.stringName_inj heq).2
      exact ⟨(objects_afterCreate hf hc sched hkey).trans hbytes, hsize⟩
  · rw [hf.roots]
    unfold TreeFile.all handleOf
    rw [hroot, hrootNew]
    rfl
  · rw [hf.groups]
    refine List.map_congr_left fun oid hoid => ?_
    rw [hkept oid hoid]
    rfl

end Create

/-! ## Creations by path -/

section ByPath

variable {d : Nat} {h : FileHandle} {item : Item P} {cur : Option f.tree.Obj}

/-- What a new object is linked to. -/
theorem targetGrp_spec (hf : Represents w name f s) (hh : h ∈ s.file.ranks)
    (hitem : Passes f name item cur) (path : CString) :
    targetGrp (contextOf w f name s h) (d + 1) item path =
      (f.parentAt cur path).map (parentKey name) := by
  have htraverse := @groupTraverse_spec P w name f s hf h hh d item cur hitem path none nofun 0
  unfold targetGrp TreeFile.parentAt
  cases hlocate : f.locate cur path with
  | error e =>
    rw [hlocate] at htraverse
    rw [show groupTraverse _ _ item path.bytes none 0 = .error e from htraverse]
    cases e with
    | fail => rfl
    | fault => rfl
  | ok a =>
    rw [hlocate] at htraverse
    obtain ⟨t, ht, hat, hname⟩ := htraverse
    have hoid : t.grp.oid = keyOf name a.1 := by
      rw [hat.named.oid_eq, hat.binOid, hf.stringName_context hh]
    rw [ht]
    simp only [hoid, hname]
    rfl

/-- Rank 0 looks for the parent first. -/
theorem mapM_head_error {α β : Type} {l : List α} {g : α → Except Stop β} {e : Stop} {x : α}
    (hx : l.head? = some x) (h : g x = .error e) : l.mapM g = .error e := by
  cases l with
  | nil => cases hx
  | cons y l =>
    obtain rfl := Option.some.inj hx
    rw [List.mapM_cons, h]
    rfl

/-- Rank 0 comes first. -/
theorem head_ranks (hf : Represents w name f s) (hopen : 0 < f.numProcs) :
    ∃ h ∈ s.file.ranks, s.file.ranks.head? = some h ∧ h.myRank = 0 := by
  obtain ⟨n, hn⟩ := Nat.exists_eq_add_of_lt hopen
  have hranks := hf.ranks
  cases hlist : s.file.ranks with
  | nil =>
    rw [hlist, hn] at hranks
    simp at hranks
  | cons h rest =>
    refine ⟨h, List.mem_cons_self, rfl, ?_⟩
    have hhead := congrArg List.head? hranks
    rw [hlist, hn, List.range_succ_eq_map] at hhead
    simpa using hhead

theorem createAll_head_error {create : FileHandle → Except Stop Creation} {e : Stop}
    (hx : s.file.ranks.head? = some h) (herr : create h = .error e) (sched : Schedule) :
    s.file.createAll create sched = .error e := by
  rw [SharedFile.createAll, mapM_head_error hx herr]
  rfl

/-- The ranks that take part in a creation. -/
def takesPart (allColl : Bool) (h : FileHandle) : Bool := h.acts (h.collective || allColl)

theorem takesPart_leader (allColl : Bool) (hzero : h.myRank = 0) : takesPart allColl h = true := by
  simp [takesPart, FileHandle.acts, hzero]

theorem linksOf_only {parent : Option (f.tree.Obj × CString)} {type : ObjType}
    {acts : FileHandle → Bool} (key : Key) (data : List Byte) :
    MdWrite.full key data ∉ linksOf name parent type acts h := by
  unfold linksOf
  split
  · cases parent with
    | none => exact List.not_mem_nil
    | some p =>
      simp only [parentKey, Option.map_some, Option.elim_some, linkTo]
      split
      · simp
      · exact List.not_mem_nil
  · exact List.not_mem_nil

variable {loc : Loc} {path : CString} {parent : Option (f.tree.Obj × CString)}
  (hf : Represents w name f s) (hdepth : w.depth = d + 1) (hitem : Passes f name item cur)
  (hargs : ∀ h ∈ s.file.ranks, s.arguments w loc h = .ok (contextOf w f name s h, item))
include hf hdepth hitem hargs

/-- The ranks that take part create the group with its link, and the others count it. -/
theorem creates_group (allColl : Bool) (gcpl : P) (hparent : f.parentAt cur path = .ok parent) :
    Creates s.file (s.rankGroupCreate w allColl loc path gcpl) (Object.group gcpl).type
      ((Object.group gcpl).bytes w) (linksOf name parent (Object.group gcpl).type
        (takesPart allColl)) (takesPart allColl) where
  create_eq := by
    intro h hh
    obtain ⟨_, -, -, hinv⟩ := hf.ids
    have hwritable := (hinv.handles h hh).writable
    rw [PathFile.rankGroupCreate, hargs h hh, ok_bind]
    unfold groupCreateAt
    by_cases hacts : takesPart allColl h = true
    · have hif : h.acts (h.collective || allColl) = true := hacts
      rw [if_pos hif, hdepth, targetGrp_spec hf hh hitem, hparent]
      simp only [Except.map, ok_bind, groupCreateHelper, if_pos hwritable, linksOf, if_pos hacts]
      rfl
    · have hif : ¬ h.acts (h.collective || allColl) = true := hacts
      rw [if_neg hif]
      simp only [ok_bind, groupCreateHelper, if_pos hwritable, linksOf, if_neg hacts]
      rfl
  links_only := fun h key data => linksOf_only key data
  leader_acts := fun h hzero => takesPart_leader allColl hzero

/-- So do those of a dataset. -/
theorem creates_dataset (allColl : Bool) (info : DatasetInfo) {p : f.tree.Obj × CString}
    (hparent : f.parentAt cur path = .ok (some p)) :
    Creates s.file (s.rankDatasetCreate w allColl loc path info) (.dataset info : Object P).type
      ((Object.dataset info).bytes w) (linksOf name (some p) (.dataset info : Object P).type
        (takesPart allColl)) (takesPart allColl) where
  create_eq := by
    intro h hh
    rw [PathFile.rankDatasetCreate, hargs h hh, ok_bind]
    unfold datasetCreateAt
    -- a rank that takes part finds the parent, another one writes nothing
    by_cases hacts : takesPart allColl h = true
    · have hif : h.acts (h.collective || allColl) = true := hacts
      rw [if_pos hif, hdepth, targetGrp_spec hf hh hitem, hparent]
      simp only [Except.map, ok_bind, parentKey, Option.map_some, datasetCreate, linksOf,
        if_pos hacts, Option.elim_some]
      rfl
    · have hif : ¬ h.acts (h.collective || allColl) = true := hacts
      rw [if_neg hif]
      simp only [linksOf, eq_false_of_ne_true hacts, Bool.false_eq_true, if_false,
        Option.elim_none]
      rfl
  links_only := fun h key data => linksOf_only key data
  leader_acts := fun h hzero => takesPart_leader allColl hzero

end ByPath

/-- A group has another handle. -/
theorem represents_push (hf : Represents w name f s) {oid : UInt64} {gcpl : P}
    (hobj : f.tree.objects oid = some (.group gcpl)) :
    Represents w name (f.push hobj)
      { s with groups := s.groups ++ [f.all (handleOf f name oid)] } where
  name_eq := hf.name_eq
  ids := hf.ids
  count := hf.count
  ranks := hf.ranks
  flags := hf.flags
  collective := hf.collective
  objects := hf.objects
  links := hf.links
  roots := hf.roots
  groups := by
    rw [hf.groups]
    unfold TreeFile.push
    rw [List.map_append]
    rfl

theorem handleOf_group {oid : UInt64} {gcpl : P}
    (h : f.tree.objects oid = some (.group gcpl)) :
    handleOf f name oid = ⟨oid, keyOf name oid, some gcpl⟩ := by
  unfold handleOf
  rw [h]

theorem createdHandles_all (gcpl : P) (id : ObjId) :
    PathFile.createdHandles gcpl (f.all id) = f.all ⟨id.binOid, id.oid, some gcpl⟩ :=
  List.map_replicate

section Steps

variable {d : Nat} (hf : Represents w name f s) (hdepth : w.depth = d + 1) (allColl : Bool)
  (loc : Loc) (path : CString) (sched : Schedule)
include hf hdepth

section Parent

variable {allColl loc path} {item : Item P} {cur : Option f.tree.Obj}
  (hitem : Passes f name item cur)
  (hargs : ∀ h ∈ s.file.ranks, s.arguments w loc h = .ok (contextOf w f name s h, item))
include hitem hargs

/-- What is left of a group that is created. -/
theorem createGroup_eq (gcpl : P) {parent : Option (f.tree.Obj × CString)}
    (hparent : f.parentAt cur path = .ok parent) :
    s.createGroup w allColl loc path gcpl sched =
      .ok (.created (f.all (f.tree.nextOid .group)),
        { s with
          file := afterCreate s.file (Object.group gcpl).type ((Object.group gcpl).bytes w)
            (linksOf name parent (Object.group gcpl).type (takesPart allColl)) (takesPart allColl)
            sched
          groups := s.groups ++ [f.all
            ⟨f.tree.nextOid .group, keyOf name (f.tree.nextOid .group), some gcpl⟩] }) := by
  have hc := creates_group hf hdepth hitem hargs allColl gcpl hparent
  rw [PathFile.createGroup, ObjectIds.createAll_eq hc, ok_bind, lastIds_afterCreate hf hc sched,
    createdHandles_all, TreeFile.all, List.map_replicate]
  rfl

/-- And of a dataset. -/
theorem createDataset_eq (info : DatasetInfo) {p : f.tree.Obj × CString}
    (hparent : f.parentAt cur path = .ok (some p)) :
    s.createDataset w allColl loc path info sched =
      .ok (.created (f.all (f.tree.nextOid .dataset)),
        { s with
          file := afterCreate s.file (.dataset info : Object P).type ((Object.dataset info).bytes w)
            (linksOf name (some p) (.dataset info : Object P).type (takesPart allColl))
            (takesPart allColl) sched }) := by
  have hc := creates_dataset hf hdepth hitem hargs allColl info hparent
  rw [PathFile.createDataset, ObjectIds.createAll_eq hc, ok_bind, lastIds_afterCreate hf hc sched,
    TreeFile.all, List.map_replicate]
  rfl

end Parent

/-- **Groups.**  A group is created where the path leads to, or without a link. -/
theorem createGroup_stepped {gcpl : P} (hroom : f.Room) (hfits : (Object.group gcpl).Fits w) :
    Agrees (Stepped w name s) (f.createGroup loc path gcpl)
      (s.createGroup w allColl loc path gcpl sched) := by
  obtain ⟨h, hh, hhead, hzero⟩ := head_ranks hf hroom.1
  unfold TreeFile.createGroup TreeFile.parentOf
  rw [dif_pos hroom.2]
  cases hcur : f.locObj loc with
  | error e =>
    obtain ⟨rfl, herr⟩ := arguments_error (w := w) hf hcur
    -- there is no such handle on any rank
    have hfault : s.rankGroupCreate w allColl loc path gcpl h = .error .fault := by
      rw [PathFile.rankGroupCreate, herr h hh]
      rfl
    rw [PathFile.createGroup, createAll_head_error hhead hfault]
    exact Agrees.error _
  | ok cur =>
    obtain ⟨item, hitem, hargs⟩ := arguments_ok (w := w) hf hcur
    rw [ok_bind]
    cases hparent : f.parentAt cur path with
    | error e =>
      -- the leader takes part and does not find the parent
      have hgrp : targetGrp (contextOf w f name s h) (d + 1) item path = .error e := by
        rw [targetGrp_spec hf hh hitem, hparent]
        rfl
      have hacts : h.acts (h.collective || allColl) = true := takesPart_leader allColl hzero
      have hfault : s.rankGroupCreate w allColl loc path gcpl h = .error e := by
        rw [PathFile.rankGroupCreate, hargs h hh, ok_bind, groupCreateAt, if_pos hacts, hdepth,
          hgrp]
        rfl
      rw [PathFile.createGroup, createAll_head_error hhead hfault]
      exact Agrees.error _
    | ok parent =>
      have hc := creates_group hf hdepth hitem hargs allColl gcpl hparent
      have hcreated := represents_afterCreate hf hroom hfits hc sched
      have hobj : (f.add hroom.2 (.group gcpl) parent).tree.objects (f.tree.nextOid .group) =
          some (.group gcpl) := ObjTree.add_objects_self hroom.2 (.group gcpl) parent
      have hpush := represents_push hcreated hobj
      rw [handleOf_group hobj] at hpush
      rw [createGroup_eq hf hdepth sched hitem hargs gcpl hparent]
      exact Agrees.ok ⟨rfl, hpush, sameElsewhere_afterCreate hf hc sched⟩

/-- **Datasets.**  A dataset is created where the path leads to. -/
theorem createDataset_stepped {info : DatasetInfo} (hroom : f.Room)
    (hfits : (Object.dataset info).Fits w) :
    Agrees (Stepped w name s) (f.createDataset loc path info)
      (s.createDataset w allColl loc path info sched) := by
  obtain ⟨h, hh, hhead, hzero⟩ := head_ranks hf hroom.1
  unfold TreeFile.createDataset TreeFile.parentOf
  rw [dif_pos hroom.2]
  cases hcur : f.locObj loc with
  | error e =>
    obtain ⟨rfl, herr⟩ := arguments_error (w := w) hf hcur
    have hfault : s.rankDatasetCreate w allColl loc path info h = .error .fault := by
      rw [PathFile.rankDatasetCreate, herr h hh]
      rfl
    rw [PathFile.createDataset, createAll_head_error hhead hfault]
    exact Agrees.error _
  | ok cur =>
    obtain ⟨item, hitem, hargs⟩ := arguments_ok (w := w) hf hcur
    rw [ok_bind]
    have hacts : h.acts (h.collective || allColl) = true := takesPart_leader allColl hzero
    have hgrp := targetGrp_spec (d := d) hf hh hitem path
    -- rank 0 faults also if the path leads nowhere
    have hrank : ∀ e, (targetGrp (contextOf w f name s h) (d + 1) item path = .error e ∨
        targetGrp (contextOf w f name s h) (d + 1) item path = .ok none ∧ e = .fault) →
        s.rankDatasetCreate w allColl loc path info h = .error e := by
      intro e he
      rw [PathFile.rankDatasetCreate, hargs h hh, ok_bind, datasetCreateAt, if_pos hacts, hdepth]
      rcases he with herr | ⟨hnone, rfl⟩
      · rw [herr]
        rfl
      · rw [hnone]
        rfl
    cases hparent : f.parentAt cur path with
    | error e =>
      rw [hparent] at hgrp
      rw [PathFile.createDataset, createAll_head_error hhead (hrank e (Or.inl hgrp))]
      exact Agrees.error _
    | ok parent =>
      rw [hparent] at hgrp
      cases parent with
      | none =>
        rw [PathFile.createDataset,
          createAll_head_error hhead (hrank .fault (Or.inr ⟨hgrp, rfl⟩))]
        exact Agrees.error _
      | some p =>
        have hc := creates_dataset hf hdepth hitem hargs allColl info hparent
        rw [createDataset_eq hf hdepth sched hitem hargs info hparent]
        exact Agrees.ok ⟨rfl, represents_afterCreate hf hroom hfits hc sched,
          sameElsewhere_afterCreate hf hc sched⟩

end Steps

end DTIO.Properties.TreeCreation
