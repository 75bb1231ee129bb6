import DTIO.Properties.TreeOpens

/-!
# Files as Trees

What an application sees of the files of a store is what their trees say: every creation, open,
flush, close and re-open of any number of files, each by any number of ranks, in any order.

## Main definitions

- `Holds`: a volume has the trees of a forest

## Main results

- `step_spec`, `volume_step_spec`: one operation
- `volume_run_spec`: a sequence of operations
- `volume_run_eq`: the replies of a volume are those of its trees
-/

namespace DTIO.Properties.TreeRefinement

open DTIO.Posix DTIO.Broadcast DTIO.Vol
open DTIO.Properties.ObjectIds (Inv Index Counted HandleOf)
open DTIO.Properties.TreeTraversal DTIO.Properties.TreeCreation DTIO.Properties.TreeOpens

variable {P : Type} {w : Process P} {name : FileName} {f : TreeFile P} {s : PathFile P}

/-! ## Flushes and closes -/

section Flush

variable (hf : Represents w name f s) (sched : Schedule)
include hf

theorem counted : Counted s.file := by
  obtain ⟨_, -, -, hinv⟩ := hf.ids
  exact hinv.toCounted

theorem few_created : Index s.file.created.length := by
  rw [hf.count]
  exact f.tree.few

/-- A flush writes the global metadata object. -/
theorem flush_objects {key : Key} (hkey : key ≠ keyOf name 0) :
    (s.file.flushAll sched).store.objects key = s.file.store.objects key := by
  obtain rfl := hf.name_eq
  refine objects_untouched (fun data hmem => hkey ?_) s.file.store
  exact (ObjectIds.mem_flushes (counted hf) (few_created hf) hmem).1

theorem flush_links (key : Key) (n : CString) :
    (s.file.flushAll sched).store.links key n = s.file.store.links key n := by
  refine links_untouched (fun val hmem => ?_) s.file.store
  obtain ⟨r, hr, hw⟩ := List.mem_flatMap.mp ((sched.perm _).mem_iff.mp hmem)
  obtain ⟨h, hh, rfl⟩ := List.mem_map.mp hr
  rw [ObjectIds.fileFlush_eq ((counted hf).handles h hh)] at hw
  cases hdirty : h.maxOidDirty with
  | true => simp [hdirty] at hw
  | false => simp [hdirty] at hw

theorem sameElsewhere_flush : SameElsewhere name s.file.store (s.file.flushAll sched).store :=
  fun key hkey => ⟨flush_objects hf sched (hkey 0), funext (flush_links hf sched key)⟩

/-- The objects of the tree are still there. -/
theorem flush_stored (oid : UInt64) (obj : Object P) (hobj : f.tree.objects oid = some obj) :
    (s.file.flushAll sched).store.objects (keyOf name oid) = some (obj.bytes w) ∧ obj.Fits w := by
  obtain ⟨hbytes, hsize⟩ := hf.objects oid obj hobj
  refine ⟨(flush_objects hf sched fun hkey => ?_).trans hbytes, hsize⟩
  have hpos := f.tree.index_pos oid (by rw [hobj]; exact Option.some_ne_none _)
  rw [(StoreKeys.stringName_inj hkey).2] at hpos
  exact absurd hpos (by decide)

/-- **Flushes.**  A flush leaves the tree. -/
theorem represents_flush (hopen : 0 < f.numProcs) :
    Represents w name f { s with file := s.file.flushAll sched } := by
  obtain ⟨gcpl, hroot, hfits, hinv⟩ := hf.ids
  -- a flush writes numbers and groups, and changes no handle
  have hranks := ObjectIds.flushAll_ranks (counted hf) sched
  have hflush : Inv (w.plist.encode gcpl) (decide (0 < f.numProcs)) (s.file.flushAll sched) := by
    rw [decide_eq_true hopen] at hinv ⊢
    exact hinv.flush (few_created hf) sched
  refine {
    name_eq := hf.name_eq
    ids := ⟨gcpl, hroot, hfits, hflush⟩
    count := hf.count
    ranks := ?_
    flags := ?_
    collective := ?_
    objects := flush_stored hf sched
    links := fun oid n => (flush_links hf sched _ n).trans (hf.links oid n)
    roots := hf.roots
    groups := hf.groups }
  -- the handles, which are the same but for what is to be written
  · rw [hranks, List.map_map]
    exact hf.ranks
  · obtain ⟨flags, hflags⟩ := hf.flags
    refine ⟨flags, fun h' hmem => ?_⟩
    rw [hranks] at hmem
    obtain ⟨h, hh, rfl⟩ := List.mem_map.mp hmem
    exact hflags h hh
  · intro h' hmem
    rw [hranks] at hmem
    obtain ⟨h, hh, rfl⟩ := List.mem_map.mp hmem
    exact hf.collective h hh

/-- **Closes.**  Nobody has the tree open. -/
theorem represents_close (hopen : 0 < f.numProcs) :
    Represents w name f.closed ⟨s.file.closeAll sched, [], []⟩ := by
  obtain ⟨gcpl, hroot, hfits, hinv⟩ := hf.ids
  rw [decide_eq_true hopen] at hinv
  exact {
    name_eq := hf.name_eq
    ids := ⟨gcpl, hroot, hfits, hinv.close (few_created hf) sched⟩
    count := hf.count
    ranks := rfl
    flags := ⟨0, nofun⟩
    collective := nofun
    objects := flush_stored hf sched
    links := fun oid n => (flush_links hf sched _ n).trans (hf.links oid n)
    roots := rfl
    groups := rfl }

end Flush

/-! ## Opening files again -/

section Reopen

/-- **Opens.**  All ranks have the tree of the file that was closed. -/
theorem represents_reopen (hf : Represents w name f s) (hclosed : f.numProcs = 0) {flags : Nat}
    (hflags : flags &&& accRdwr ≠ 0) (collective : Bool) (info : Option Comm) (m : RankMemory)
    (others : List RankMemory) :
    ∃ s', s.reopen w flags collective info m others = .ok s' ∧
      s'.file.store = s.file.store ∧
      Represents w name (f.opened (others.length + 1) collective) s' := by
  obtain rfl := hf.name_eq
  obtain ⟨gcpl, hroot, hfits, hinv⟩ := hf.ids
  rw [hclosed] at hinv
  have hnobody : s.file.ranks = [] := by
    by_contra hopen
    exact absurd (hinv.open_iff.mpr hopen) Bool.false_ne_true
  have hlist : s.file.store.objects.object
      (stringName s.file.name.name (oidCreateBinary 1 .group).toNat) = w.plist.encode gcpl :=
    hf.object hroot
  have hmax : s.file.store.objects.object (stringName s.file.name.name 0) =
      encode64 s.file.created.length := by
    have hstored := hinv.maxOid.resolve_left (by simp [hnobody])
    rw [Store.object, hstored]
    rfl
  have hlt : s.file.created.length < 18446744073709551616 := by
    have hfew := few_created hf
    unfold Index at hfew
    omega
  have hall := @FileOpen.allOpen_of_fits s.file.created.length (w.plist.encode gcpl) hlt info m
    others (Or.inr hfits)
  unfold FileOpen.AllOpen at hall
  -- the ranks and the file that `H5VL_dtio_file_open` leaves
  have hfile : s.file.openAll flags collective info m others =
      .ok (ObjectIds.reopened s.file flags collective (w.plist.encode gcpl) others) := by
    simp only [SharedFile.openAll, SharedFile.openRank, hmax, hlist, hall, orFault_some]
    rfl
  obtain ⟨file, hopen, hinv', -⟩ :=
    hinv.reopen hfits (few_created hf) hflags collective info m others
  obtain rfl := Except.ok.inj (hfile.symm.trans hopen)
  refine ⟨⟨ObjectIds.reopened s.file flags collective (w.plist.encode gcpl) others,
    List.replicate (others.length + 1) (handleOf f s.file.name rootOid), []⟩, ?_, rfl, ?_⟩
  · have hdecode : w.plist.decode (w.plist.encode gcpl) = some gcpl := by
      have h := w.plist.decode_encode gcpl []
      rwa [List.append_nil] at h
    simp only [PathFile.reopen, SharedFile.openRank, hmax, hlist, hall, orFault_some, Except.map,
      List.map_cons, List.map_map, handleOf_group hroot, hdecode]
    have hothers : (others.zipIdx.map fun _ : RankMemory × Nat =>
        (⟨rootOid, keyOf s.file.name rootOid, some gcpl⟩ : OpenGroup P)) =
        List.replicate others.length ⟨rootOid, keyOf s.file.name rootOid, some gcpl⟩ := by
      rw [List.map_const', List.length_zipIdx]
    rw [List.replicate_succ, ← hothers]
    simp only [Function.comp_def, hdecode]
    rfl
  · refine {
      name_eq := rfl
      ids := ⟨gcpl, hroot, hfits, ?_⟩
      count := hf.count
      ranks := ?_
      flags := ⟨flags, ?_⟩
      collective := ?_
      objects := hf.objects
      links := hf.links
      roots := rfl
      groups := rfl }
    · rw [show decide (0 < (f.opened (others.length + 1) collective).numProcs) = true from
        decide_eq_true (Nat.succ_pos _)]
      exact hinv'
    · simp only [ObjectIds.reopened, List.map_map]
      rw [show FileHandle.myRank ∘ openedHandle s.file.name flags collective = Prod.snd from rfl,
        List.zipIdx_map_snd, List.range_eq_range']
      simp [TreeFile.opened]
    · intro h hmem
      obtain ⟨x, -, rfl⟩ := List.mem_map.mp hmem
      rfl
    · intro h hmem
      obtain ⟨x, -, rfl⟩ := List.mem_map.mp hmem
      rfl

end Reopen

/-! ## New files -/

section New

variable {store : MdStore} (hlinks : ∀ oid n, store.links (keyOf name oid) n = []) (fcpl : P)
  (hlen : (w.plist.encode fcpl).length ≤ 1008) (hne : w.plist.encode fcpl ≠ []) (flags : Nat)
  (collective : Bool) {numProcs : Nat} (hprocs : 0 < numProcs) (sched : Schedule)

/-- The root group has no links. -/
theorem createRoot_links {h : FileHandle} {gcpl : List Byte} {key : Key} {n : CString}
    {val : LinkVal} :
    MdWrite.link key n val ∉ (createObject h .group gcpl [] (h.acts true)).writes := by
  unfold createObject
  split
  · simp
  · simp

/-- **New files.**  A new file has a tree with a root group. -/
theorem create_spec (hlinks : ∀ oid n, store.links (keyOf name oid) n = [])
    (hlen : (w.plist.encode fcpl).length ≤ 1008) (hne : w.plist.encode fcpl ≠ [])
    (hprocs : 0 < numProcs) :
    ∃ s, PathFile.create w store name flags collective fcpl numProcs sched = .ok s ∧
      Represents w name (.new fcpl numProcs collective) s ∧
      SameElsewhere name store s.file.store ∧
      ∀ key, key ≠ keyOf name rootOid → s.file.store.objects key = store.objects key := by
  have hfresh := ObjectIds.counted_fresh store name flags collective hprocs
  have hc := ObjectIds.creates_root hfresh rfl (w.plist.encode fcpl)
  have hfile := ObjectIds.createAll_eq hc sched
  obtain ⟨file, hcreate, hinv, -, -⟩ := ObjectIds.createFile_inv store name flags collective
    (w.plist.encode fcpl) hprocs sched
  obtain rfl := Except.ok.inj (hfile.symm.trans hcreate)
  set file := ObjectIds.afterCreate (ObjectIds.fresh store name flags collective numProcs) .group
    (w.plist.encode fcpl) (fun _ => []) (fun h => h.acts true) sched with hdef
  -- every rank has counted to the same id
  have hids : PathFile.lastIds file = List.replicate numProcs ⟨rootOid, keyOf name rootOid⟩ := by
    have hobj : ∀ h ∈ (ObjectIds.fresh store name flags collective numProcs).ranks,
        (createObject h .group (w.plist.encode fcpl) [] (h.acts true)).obj =
          ⟨rootOid, keyOf name rootOid⟩ := by
      intro h hh
      exact ObjectIds.createObject_obj (hfresh.handles h hh)
    have hlast : PathFile.lastIds file = (ObjectIds.fresh store name flags collective
        numProcs).ranks.map fun h =>
          (createObject h .group (w.plist.encode fcpl) [] (h.acts true)).obj := by
      simp [PathFile.lastIds, hdef, ObjectIds.afterCreate, ObjectIds.fresh]
    rw [hlast, List.map_congr_left hobj, List.map_const']
    simp [ObjectIds.fresh]
  -- the leader writes one object and no link
  have hsame : ∀ key n, file.store.links key n = store.links key n := by
    intro key n
    refine links_untouched (fun val hmem => ?_) store
    obtain ⟨h, hh, hw⟩ := List.mem_flatMap.mp ((sched.perm _).mem_iff.mp hmem)
    exact createRoot_links hw
  have hother : ∀ key, key ≠ keyOf name rootOid → file.store.objects key = store.objects key :=
    fun key hkey => ObjectIds.afterCreate_other hfresh hc sched hkey
  refine ⟨⟨file, PathFile.createdHandles fcpl (PathFile.lastIds file), []⟩, ?_, ?_, ?_, hother⟩
  · rw [PathFile.create, hcreate]
    rfl
  · refine {
      name_eq := rfl
      ids := ⟨fcpl, ObjTree.new_objects_root fcpl, hlen, ?_⟩
      count := rfl
      ranks := ?_
      flags := ⟨createFlags flags, ?_⟩
      collective := ?_
      objects := ?_
      links := fun oid n => (hsame _ n).trans (hlinks oid n)
      roots := ?_
      groups := rfl }
    · rw [show decide (0 < (TreeFile.new fcpl numProcs collective).numProcs) = true from
        decide_eq_true hprocs]
      exact hinv
    · have hranks : file.ranks.map FileHandle.myRank = (List.range numProcs).map id := by
        simp only [hdef, ObjectIds.afterCreate, ObjectIds.fresh, List.map_map]
        exact List.map_congr_left fun rank _ => ObjectIds.createObject_myRank
      rwa [List.map_id] at hranks
    · intro h' hmem
      obtain ⟨h, hh, rfl⟩ := List.mem_map.mp hmem
      obtain ⟨rank, -, rfl⟩ := List.mem_map.mp hh
      exact createObject_flags
    · intro h' hmem
      obtain ⟨h, hh, rfl⟩ := List.mem_map.mp hmem
      obtain ⟨rank, -, rfl⟩ := List.mem_map.mp hh
      exact createObject_collective
    · intro oid obj hobj
      obtain ⟨rfl, rfl⟩ := ObjTree.new_objects hobj
      exact ⟨hinv.root, hne, by omega⟩
    · rw [hids, handleOf_group (ObjTree.new_objects_root fcpl)]
      exact List.map_replicate
  · intro key hkey
    exact ⟨hother key (hkey _), funext (hsame key)⟩

end New

/-! ## Operations -/

/-- **One operation on a file** does what it does to the tree. -/
theorem step_spec (hdepth : 0 < w.depth) (hf : Represents w name f s) {op : PathOp P}
    (hspec : f.Specified w op) : Agrees (Stepped w name s) (f.step op) (s.step w op) := by
  obtain ⟨d, hd⟩ : ∃ d, w.depth = d + 1 := ⟨w.depth - 1, by omega⟩
  -- one lemma for each call
  cases op with
  | createGroup allColl loc path gcpl sched =>
    exact createGroup_stepped hf hd allColl loc path sched hspec.1 hspec.2
  | createDataset allColl loc path info sched =>
    exact createDataset_stepped hf hd allColl loc path sched hspec.1 hspec.2
  | openGroup allColl loc path memory => exact openGroup_stepped hf hd hspec
  | openDataset allColl loc path memory => exact openDataset_stepped hf hd hspec
  | flush sched =>
    exact Agrees.ok ⟨rfl, represents_flush hf sched hspec, sameElsewhere_flush hf sched⟩
  | close sched =>
    exact Agrees.ok ⟨rfl, represents_close hf sched hspec, sameElsewhere_flush hf sched⟩
  | reopen flags collective info m others =>
    -- a reopen reads the tree back from the store, which it leaves
    obtain ⟨s', hopen, hstore, hrep⟩ :=
      represents_reopen hf hspec.1 hspec.2 collective info m others
    rw [show s.step w (.reopen flags collective info m others) =
      (s.reopen w flags collective info m others).map fun s => (.done, s) from rfl, hopen]
    refine Agrees.ok ⟨rfl, hrep, fun _ _ => ?_⟩
    rw [hstore]
    exact ⟨rfl, rfl⟩

/-! ## Volumes -/

/-- The files of a volume have the trees of a forest, and there are no links under other names. -/
structure Holds (w : Process P) (f : Forest P) (v : Volume P) : Prop where
  file : ∀ name t, f name = some t →
    ∃ s, v.files name = some s ∧ Represents w name t (s.withStore v.store)
  fresh : ∀ name, f name = none →
    v.files name = none ∧ ∀ oid n, v.store.links (keyOf name oid) n = []

section Volumes

variable {forest : Forest P} {v : Volume P}

/-- What an operation on one file leaves. -/
theorem holds_setFile (h : Holds w forest v) {t : TreeFile P} {s : PathFile P}
    (hrep : Represents w name t s) (hsame : SameElsewhere name v.store s.file.store) :
    Holds w (Function.update forest name (some t)) (v.setFile name s) where
  file := by
    intro name' t' ht'
    -- the file itself is represented anew; the others' keys are not touched
    by_cases hname : name' = name
    · subst hname
      rw [Function.update_self] at ht'
      obtain rfl := Option.some.inj ht'
      exact ⟨s, Function.update_self .., hrep⟩
    · rw [Function.update_of_ne hname] at ht'
      obtain ⟨s', hs', hrep'⟩ := h.file name' t' ht'
      exact ⟨s', (Function.update_of_ne hname ..).trans hs', hrep'.frame hname hsame⟩
  fresh := by
    intro name' hnone
    -- a file that is not there now was not there before
    have hname : name' ≠ name := by
      rintro rfl
      rw [Function.update_self] at hnone
      cases hnone
    rw [Function.update_of_ne hname] at hnone
    obtain ⟨hfiles, hlinks⟩ := h.fresh name' hnone
    refine ⟨(Function.update_of_ne hname ..).trans hfiles, fun oid n => ?_⟩
    exact (congrFun (hsame _ fun oid' => keyOf_ne hname oid oid').2 n).trans (hlinks oid n)

/-- The replies are the same, and the volume has the trees. -/
def Simulates (w : Process P) {α : Type} (r : α × Forest P) (x : α × Volume P) : Prop :=
  x.1 = r.1 ∧ Holds w r.2 x.2

/-- An operation on a file concerns no objects and links under other names. -/
def Local (op : FileName × FileOp P) (v v' : Volume P) : Prop :=
  SameElsewhere op.1 v.store v'.store

/-- **One operation** on a volume does what it does to the trees, and nothing else. -/
theorem volume_step_local (hdepth : 0 < w.depth) (h : Holds w forest v)
    {op : FileName × FileOp P} (hspec : forest.Specified w op) :
    Agrees (fun r x => Simulates w r x ∧ Local op v x.2) (forest.step op) (v.step w op) := by
  obtain ⟨name, op⟩ := op
  cases op with
  | create flags collective fcpl numProcs sched =>
    -- a new file has a tree with a root group and nothing else
    obtain ⟨hnone, hprocs, hne, hlen⟩ := hspec
    obtain ⟨s, hcreate, hrep, hsame, -⟩ := create_spec fcpl flags collective sched
      (h.fresh name hnone).2 hlen hne hprocs
    rw [show v.step w (name, .create flags collective fcpl numProcs sched) =
      (PathFile.create w v.store name flags collective fcpl numProcs sched).map
        fun s => (.done, v.setFile name s) from rfl, hcreate]
    exact Agrees.ok ⟨⟨rfl, holds_setFile h hrep hsame⟩, hsame⟩
  -- a call is refused without an open file, and keeps the agreement otherwise
  | call op =>
    show Agrees _ (forest.call name op) (v.call w name op)
    unfold Forest.call Volume.call
    cases htree : forest name with
    | none =>
      rw [(h.fresh name htree).1]
      exact Agrees.error _
    | some t =>
      obtain ⟨s, hs, hrep⟩ := h.file name t htree
      rw [hs]
      refine (step_spec hdepth hrep (hspec t htree)).bind fun r x hstepped => ?_
      exact Agrees.ok ⟨⟨hstepped.reply, holds_setFile h hstepped.represents hstepped.elsewhere⟩,
        hstepped.elsewhere⟩

theorem volume_step_spec (hdepth : 0 < w.depth) (h : Holds w forest v)
    {op : FileName × FileOp P} (hspec : forest.Specified w op) :
    Agrees (Simulates w) (forest.step op) (v.step w op) :=
  (volume_step_local hdepth h hspec).mono fun _ _ hboth => hboth.1

/-- **Runs.**  By induction on the operations, up to the first one that stops the application. -/
theorem volume_run_spec (hdepth : 0 < w.depth) {ops : List (FileName × FileOp P)} :
    ∀ {forest : Forest P} {v : Volume P}, Holds w forest v → forest.Admits w ops →
      Agrees (Simulates w) (forest.run ops) (v.run w ops) := by
  induction ops with
  | nil => exact fun h _ => Agrees.ok ⟨rfl, h⟩
  | cons op ops ih =>
    intro forest v h hadmits
    have hstep := volume_step_spec hdepth h hadmits.1
    unfold Forest.run Volume.run
    cases hr : forest.step op with
    | error e =>
      rw [hr] at hstep
      rw [show v.step w op = .error e from hstep]
      exact Agrees.error _
    | ok r =>
      rw [hr] at hstep
      obtain ⟨x, hx, hreply, hholds⟩ := hstep
      rw [hx]
      refine (ih hholds (hadmits.2 r hr)).bind fun rest rest' hrest => ?_
      refine Agrees.ok ⟨?_, hrest.2⟩
      rw [hreply, hrest.1]

/-- Nothing was created yet. -/
theorem holds_empty {store : MdStore} (hlinks : ∀ key n, store.links key n = []) :
    Holds w (fun _ => none) ⟨store, fun _ => none⟩ where
  file := nofun
  fresh := fun _ _ => ⟨rfl, fun _ n => hlinks _ n⟩

end Volumes

/-- **Files as trees.**  Any number of files are created in a store without links.  Each of them is
used by any number of ranks, on their own or collectively, in any order: they create groups and
datasets where paths lead to, open groups and datasets by paths, flush and close the file, and open
it again with other ranks, as `Forest.Admits` says.  Whatever the memory of the ranks holds, and in
whatever order the writes of the ranks reach the store, all replies and errors are those of the
trees. -/
theorem volume_run_eq (hdepth : 0 < w.depth) {store : MdStore}
    (hlinks : ∀ key n, store.links key n = []) {ops : List (FileName × FileOp P)}
    (hadmits : Forest.Admits w (fun _ => none) ops) :
    (Volume.run w ⟨store, fun _ => none⟩ ops).map Prod.fst =
      (Forest.run (fun _ => none) ops).map Prod.fst := by
  have hrun := volume_run_spec hdepth (holds_empty hlinks) hadmits
  cases hr : Forest.run (fun _ => none) ops with
  | error e =>
    rw [hr] at hrun
    rw [show Volume.run w ⟨store, fun _ => none⟩ ops = .error e from hrun]
    rfl
  | ok r =>
    rw [hr] at hrun
    obtain ⟨x, hx, hreply, -⟩ := hrun
    rw [hx]
    exact congrArg Except.ok hreply

/-! ## A small volume -/

/-- Creation lists of one byte, and one call of `H5VL_dtio_link_follow` on the stack. -/
def demo : Process Byte := ⟨GroupOpen.byteCodec, fun _ _ _ => ⟨none, []⟩, 1⟩

/-- `a`. -/
def pathA : CString := ⟨[97], zero_notMem_a⟩

/-- The tree of a file with a group `a`, which two ranks have created. -/
def demoTree : TreeFile Byte :=
  ((TreeFile.new 5 2 false).add (by decide) (.group 6)
    (some ((TreeFile.new 5 2 false).tree.rootObj, TreeFile.lastName pathA))).push
      (ObjTree.add_objects_self ..)

theorem create_demo : (TreeFile.new 5 2 false).createGroup .file pathA 6 =
    .ok (.created [nthOid 2 .group, nthOid 2 .group], demoTree) := rfl

/-- Two ranks create a file with a group `a` and close it, and three ranks open it again, and the
group with a broadcast. -/
def demoOps : List (FileName × FileOp Byte) :=
  [(ObjectIds.nameF, .create 0 false 5 2 ObjectIds.inOrder),
    (ObjectIds.nameF, .call (.createGroup false .file pathA 6 ObjectIds.inOrder)),
    (ObjectIds.nameF, .call (.close ObjectIds.inOrder)),
    (ObjectIds.nameF, .call (.reopen 1 true none ⟨fun _ => 0, fun _ => 0⟩
      [⟨fun _ => 1, fun _ => 1⟩, ⟨fun _ => 2, fun _ => 2⟩])),
    (ObjectIds.nameF, .call (.openGroup true .file pathA fun _ => ⟨fun _ => 0, fun _ => 0⟩))]

/-- The path leads to the group. -/
theorem find_demo {a : demoTree.tree.Obj}
    (h : (demoTree.closed.opened 3 true).find .file pathA (TreeFile.namesGroup pathA) = .ok a) :
    demoTree.tree.objects a.1 = some (.group 6) := by
  have hlink : demoTree.tree.linked demoTree.tree.rootObj (TreeFile.lastName pathA) = .ok a := h
  have hput : demoTree.tree.links rootOid (TreeFile.lastName pathA) = some (nthOid 2 .group) :=
    Namespace.Links.put_self (TreeFile.new (5 : Byte) 2 false).tree.links rootOid
      (TreeFile.lastName pathA) (nthOid 2 .group)
  have ha : a.1 = nthOid 2 .group :=
    Option.some.inj ((follow_eq_some.mp (ObjTree.linked_eq_ok.mp hlink)).symm.trans hput)
  rw [ha]
  exact ObjTree.add_objects_self ..

theorem admits_demo : Forest.Admits demo (fun _ => none) demoOps := by
  have hnames : LinkGraph.pathGroups pathA.bytes = [] := by decide
  have hfits : (Object.group (6 : Byte)).Fits demo := ⟨by decide, by decide⟩
  refine ⟨⟨rfl, by decide, by decide, by decide⟩, fun r hr => ?_⟩
  obtain rfl := Except.ok.inj hr
  refine Forest.admits_call (t := .new 5 2 false) (by simp) ⟨⟨by decide, by decide⟩, hfits⟩
    fun r hr => ?_
  obtain rfl := Except.ok.inj (create_demo.symm.trans hr)
  have hopen : 0 < demoTree.numProcs := by decide
  refine Forest.admits_call (t := demoTree) (by simp) hopen fun r hr => ?_
  obtain rfl := Except.ok.inj hr
  refine Forest.admits_call (t := demoTree.closed) (by simp) ⟨rfl, by decide⟩ fun r hr => ?_
  obtain rfl := Except.ok.inj hr
  refine Forest.admits_call (t := demoTree.closed.opened 3 true) (by simp)
    ⟨by decide, ?_, ?_, ?_⟩ fun _ _ => trivial
  · exact fun _ => Or.inl hnames
  · intro cur a _ _
    rw [hnames]
    trivial
  · exact fun a ha => ⟨6, find_demo ha⟩

theorem volume_run_eq_demo :
    (Volume.run demo ⟨ObjectIds.emptyStore, fun _ => none⟩ demoOps).map Prod.fst =
      (Forest.run (fun _ => none) demoOps).map Prod.fst :=
  volume_run_eq (by decide) (fun _ _ => rfl) admits_demo

end DTIO.Properties.TreeRefinement
