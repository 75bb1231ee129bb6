import DTIO.Properties.TreeRuns

/-!
# Accessible Files

`H5Fis_accessible` looks for the global metadata object of a file, which `H5VL_dtio_file_create`
does not write.  Over any run of the files of a store: a name is accessible from the first flush or
close of its file on, and not before.

## Main results

- `step_saves`, `step_keeps`: what one operation does to the global metadata object
- `accessible_iff`: runs
-/

namespace DTIO.Properties.Accessibility

open DTIO.Posix DTIO.Vol
open DTIO.Properties.TreeTraversal DTIO.Properties.TreeCreation DTIO.Properties.TreeRefinement

variable {P : Type} {w : Process P} {name : FileName}

/-- The file is flushed or closed. -/
def Saves (name : FileName) : FileName × FileOp P → Prop
  | (name', .call (.flush _)) => name' = name
  | (name', .call (.close _)) => name' = name
  | _ => False

theorem isAccessible_congr {store store' : MdStore}
    (h : store'.objects (keyOf name 0) = store.objects (keyOf name 0)) :
    isAccessible store' name = isAccessible store name := by
  have hstat : stat store'.objects (keyOf name 0) 0 = stat store.objects (keyOf name 0) 0 := by
    unfold stat
    rw [h]
  exact congrArg (· != 0) hstat

/-! ## One file -/

section File

variable {f : TreeFile P} {s : PathFile P} (hf : Represents w name f s)
include hf

/-- A flush writes the number of objects. -/
theorem accessible_flush (sched : Schedule) :
    isAccessible (s.file.flushAll sched).store name = true := by
  obtain rfl := hf.name_eq
  obtain ⟨_, -, -, hinv⟩ := hf.ids
  have hstored := ObjectIds.flushAll_stores (counted hf) hinv.toStored (few_created hf) sched
  unfold isAccessible stat
  rw [hstored]
  rfl

omit hf in
/-- No object is the global metadata object. -/
theorem keyOf_nextOid_ne (hfew : Few (f.tree.count + 1)) (type : ObjType) :
    keyOf name 0 ≠ keyOf name (f.tree.nextOid type) := by
  intro hkey
  have hindex := index_nthOid hfew type
  rw [show nthOid (f.tree.count + 1) type = 0 from (StoreKeys.stringName_inj hkey).2.symm] at hindex
  exact absurd hindex (Nat.succ_ne_zero _).symm

variable {d : Nat} (hdepth : w.depth = d + 1)
include hdepth

/-- Creations write one new object, and opens none. -/
theorem call_keeps {op : PathOp P} (hspec : f.Specified w op) (hop : ¬ Saves name (name, .call op))
    {x : PathReply P × PathFile P} (hstep : s.step w op = .ok x) :
    x.2.file.store.objects (keyOf name 0) = s.file.store.objects (keyOf name 0) := by
  obtain ⟨r, hr, -⟩ := (step_spec (by omega) hf hspec).of_ok hstep
  cases op with
  | createGroup allColl loc path gcpl sched =>
    -- the id of the new object is not 0
    obtain ⟨hfew, parent, hparent, -, -⟩ := TreeFile.createGroup_ok hr
    obtain ⟨cur, hcur, hat⟩ := bind_eq_ok.mp hparent
    obtain ⟨item, hitem, hargs⟩ := arguments_ok (w := w) hf hcur
    have hx := (createGroup_eq hf hdepth sched hitem hargs gcpl hat).symm.trans hstep
    obtain rfl := Except.ok.inj hx
    exact objects_afterCreate hf (creates_group hf hdepth hitem hargs allColl gcpl hat) sched
      (keyOf_nextOid_ne hfew .group)
  | createDataset allColl loc path info sched =>
    obtain ⟨hfew, p, hparent, -, -⟩ := TreeFile.createDataset_ok hr
    obtain ⟨cur, hcur, hat⟩ := bind_eq_ok.mp hparent
    obtain ⟨item, hitem, hargs⟩ := arguments_ok (w := w) hf hcur
    have hx := (createDataset_eq hf hdepth sched hitem hargs info hat).symm.trans hstep
    obtain rfl := Except.ok.inj hx
    exact objects_afterCreate hf (creates_dataset hf hdepth hitem hargs allColl info hat) sched
      (keyOf_nextOid_ne hfew .dataset)
  | openGroup allColl loc path memory =>
    -- the store is not written
    obtain ⟨opened, -, hx⟩ := bind_eq_ok.mp hstep
    obtain rfl := Except.ok.inj hx
    rfl
  | openDataset allColl loc path memory =>
    obtain ⟨opened, -, hx⟩ := bind_eq_ok.mp hstep
    obtain rfl := Except.ok.inj hx
    rfl
  | flush sched => exact absurd rfl hop
  | close sched => exact absurd rfl hop
  | reopen flags collective info m others =>
    obtain ⟨s', hopen, hstore, -⟩ :=
      represents_reopen hf hspec.1 hspec.2 collective info m others
    obtain ⟨s'', hs'', rfl⟩ := map_eq_ok.mp hstep
    obtain rfl := Except.ok.inj (hopen.symm.trans hs'')
    rw [hstore]

end File

/-! ## All files -/

section Volumes

variable {forest : Forest P} {v v' : Volume P} (h : Holds w forest v) {op : FileName × FileOp P}
  {reply : PathReply P}
include h

/-- A call is one of the file that it is made on. -/
theorem volume_call_ok {op : PathOp P} (hstep : v.step w (name, .call op) = .ok (reply, v')) :
    ∃ (t : TreeFile P) (s : PathFile P) (x : PathReply P × PathFile P), forest name = some t ∧
      Represents w name t (s.withStore v.store) ∧ (s.withStore v.store).step w op = .ok x ∧
        v' = v.setFile name x.2 := by
  have hcall : v.call w name op = .ok (reply, v') := hstep
  obtain ⟨s, hs, hcall⟩ := bind_eq_ok.mp hcall
  obtain ⟨x, hx, hv⟩ := bind_eq_ok.mp hcall
  have hfile : v.files name = some s := orFault_eq_ok.mp hs
  cases hforest : forest name with
  | none => cases hfile.symm.trans (h.fresh name hforest).1
  | some t =>
    obtain ⟨s', hs', hrep⟩ := h.file name t hforest
    obtain rfl := Option.some.inj (hfile.symm.trans hs')
    exact ⟨t, s, x, rfl, hrep, hx, (Prod.mk.inj (Except.ok.inj hv)).2.symm⟩

/-- After a flush or a close the file is accessible. -/
theorem step_saves (hstep : v.step w op = .ok (reply, v')) (hop : Saves name op) :
    isAccessible v'.store name = true := by
  obtain ⟨name', op⟩ := op
  cases op with
  | create flags collective fcpl numProcs sched => exact absurd hop id
  | call op =>
    obtain ⟨t, s, x, -, hrep, hx, rfl⟩ := volume_call_ok h hstep
    cases op with
    | flush sched =>
      obtain rfl : name' = name := hop
      obtain rfl := Except.ok.inj hx
      exact accessible_flush hrep sched
    | close sched =>
      obtain rfl : name' = name := hop
      obtain rfl := Except.ok.inj hx
      exact accessible_flush hrep sched
    | _ => exact absurd hop id

variable (hdepth : 0 < w.depth) (hspec : forest.Specified w op)
  (hstep : v.step w op = .ok (reply, v'))
include hdepth hspec hstep

/-- Anything else leaves the global metadata object as it is. -/
theorem step_keeps (hop : ¬ Saves name op) :
    v'.store.objects (keyOf name 0) = v.store.objects (keyOf name 0) := by
  obtain ⟨name', op⟩ := op
  by_cases hname : name = name'
  · subst hname
    cases op with
    | create flags collective fcpl numProcs sched =>
      obtain ⟨hnone, hprocs, hne, hlen⟩ := hspec
      obtain ⟨s, hcreate, -, -, hkeep⟩ := create_spec fcpl flags collective sched
        (h.fresh name hnone).2 hlen hne hprocs
      obtain ⟨s', hs', hv⟩ := map_eq_ok.mp hstep
      obtain rfl := Except.ok.inj (hcreate.symm.trans hs')
      obtain ⟨-, rfl⟩ := Prod.mk.inj hv
      exact hkeep _ fun hkey => absurd (StoreKeys.stringName_inj hkey).2 (by decide)
    | call op =>
      obtain ⟨t, s, x, hforest, hrep, hx, rfl⟩ := volume_call_ok h hstep
      obtain ⟨d, hd⟩ : ∃ d, w.depth = d + 1 := ⟨w.depth - 1, by omega⟩
      exact call_keeps hrep hd (hspec t hforest) hop hx
  · -- another file
    obtain ⟨r, -, -, hlocal⟩ := (volume_step_local hdepth h hspec).of_ok hstep
    exact (hlocal _ fun oid => keyOf_ne hname 0 oid).1

/-- One operation makes the file accessible, or leaves it as it is. -/
theorem step_accessible : isAccessible v'.store name = true ↔
    isAccessible v.store name = true ∨ Saves name op := by
  by_cases hop : Saves name op
  · exact iff_of_true (step_saves h hstep hop) (Or.inr hop)
  · rw [isAccessible_congr (step_keeps h hdepth hspec hstep hop)]
    exact (or_iff_left hop).symm

end Volumes

/-- By induction on the operations. -/
theorem run_accessible (hdepth : 0 < w.depth) {ops : List (FileName × FileOp P)} :
    ∀ {forest : Forest P} {v v' : Volume P} {replies : List (PathReply P)}, Holds w forest v →
      forest.Admits w ops → v.run w ops = .ok (replies, v') →
      (isAccessible v'.store name = true ↔
        isAccessible v.store name = true ∨ ∃ op ∈ ops, Saves name op) := by
  induction ops with
  | nil =>
    intro forest v v' replies h hadmits hrun
    obtain ⟨-, rfl⟩ := Prod.mk.inj (Except.ok.inj hrun)
    exact (or_iff_left fun hsaves => absurd hsaves (by simp)).symm
  | cons op ops ih =>
    intro forest v v' replies h hadmits hrun
    obtain ⟨x, hx, hrun⟩ := bind_eq_ok.mp hrun
    obtain ⟨rest, hrest, hv⟩ := bind_eq_ok.mp hrun
    obtain ⟨-, rfl⟩ := Prod.mk.inj (Except.ok.inj hv)
    obtain ⟨r, hr, -, hholds⟩ := (volume_step_spec hdepth h hadmits.1).of_ok hx
    rw [ih hholds (hadmits.2 r hr) hrest, step_accessible h hdepth hadmits.1 hx, or_assoc]
    simp

/-- **Accessible files.**  After any run of calls on any number of files that trees specify, a name
is accessible if it was so before, or if its file was flushed or closed since: a file that was only
created is not. -/
theorem accessible_iff (hdepth : 0 < w.depth) {store : MdStore}
    (hlinks : ∀ key n, store.links key n = []) {ops : List (FileName × FileOp P)}
    (hadmits : Forest.Admits w (fun _ => none) ops) {replies : List (PathReply P)} {v : Volume P}
    (hrun : Volume.run w ⟨store, fun _ => none⟩ ops = .ok (replies, v)) (name : FileName) :
    isAccessible v.store name = true ↔
      isAccessible store name = true ∨ ∃ op ∈ ops, Saves name op :=
  run_accessible hdepth (holds_empty hlinks) hadmits hrun

/-- The file of the example is closed in between, and was not there before. -/
theorem accessible_iff_demo : ∃ replies v,
    Volume.run demo ⟨ObjectIds.emptyStore, fun _ => none⟩ demoOps = .ok (replies, v) ∧
      isAccessible ObjectIds.emptyStore ObjectIds.nameF = false ∧
      isAccessible v.store ObjectIds.nameF = true := by
  obtain ⟨replies, v, hrun⟩ := TreeRuns.run_demo
  refine ⟨replies, v, hrun, rfl, ?_⟩
  refine (accessible_iff (by decide) (fun _ _ => rfl) admits_demo hrun ObjectIds.nameF).mpr
    (Or.inr ⟨(ObjectIds.nameF, .call (.close ObjectIds.inOrder)), ?_, rfl⟩)
  simp [demoOps]

end DTIO.Properties.Accessibility
