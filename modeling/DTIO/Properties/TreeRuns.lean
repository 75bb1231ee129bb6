import DTIO.Properties.TreeRefinement

/-!
# What Runs Leave and What They Find

Over any run of the files of a store: the links in the store lead from stored objects to stored
objects of higher indices, so they are neither dangling nor in a cycle; and an object that was
created where its path leads to is found by the path, whatever happened to this file and to others
in between, unless a name of the path was bound again.

## Main results

- `run_append`: runs one after another
- `resolve_of_walk`, `walk_of_resolve`: paths of names in trees
- `stored_links_ascend`: the links that a run leaves
- `created_found`: creations and opens of one path
-/

namespace DTIO.Properties.TreeRuns

open DTIO.Posix DTIO.Broadcast DTIO.Namespace DTIO.Vol DTIO.Vol.LinkGraph
open DTIO.Properties.TreeTraversal DTIO.Properties.TreeRefinement

variable {P : Type} {w : Process P}

/-! ## The links in the store -/

/-- The trees of the files after a run. -/
theorem volume_replies (hdepth : 0 < w.depth) {store : MdStore}
    (hlinks : ∀ key n, store.links key n = []) {ops : List (FileName × FileOp P)}
    (hadmits : Forest.Admits w (fun _ => none) ops) {replies : List (PathReply P)} {v : Volume P}
    (hrun : Volume.run w ⟨store, fun _ => none⟩ ops = .ok (replies, v)) :
    ∃ forest, Forest.run (fun _ => none) ops = .ok (replies, forest) ∧ Holds w forest v := by
  obtain ⟨r, hr, hreplies, hholds⟩ :=
    (volume_run_spec hdepth (holds_empty hlinks) hadmits).of_ok hrun
  exact ⟨r.2, hr.trans (congrArg Except.ok (Prod.ext hreplies.symm rfl)), hholds⟩

/-- **Stored links.**  After any run of correct applications, whatever is stored under a key of an
object of a file is a hard link.  The object and the one that it leads to are both stored in full,
and the index increases along the link: no link dangles, and no path of links returns. -/
theorem stored_links_ascend (hdepth : 0 < w.depth) {store : MdStore}
    (hlinks : ∀ key n, store.links key n = []) {ops : List (FileName × FileOp P)}
    (hadmits : Forest.Admits w (fun _ => none) ops) {replies : List (PathReply P)} {v : Volume P}
    (hrun : Volume.run w ⟨store, fun _ => none⟩ ops = .ok (replies, v)) (name : FileName)
    (oid : UInt64) (n : CString) :
    v.store.links (keyOf name oid) n = [] ∨
    ∃ target, v.store.links (keyOf name oid) n = linkBytes (.hard target) ∧
      v.store.objects.object (keyOf name oid) ≠ [] ∧
      v.store.objects.object (keyOf name target) ≠ [] ∧ index oid < index target := by
  obtain ⟨forest, -, hholds⟩ := volume_replies hdepth hlinks hadmits hrun
  -- the store has no links for a file that was not created
  cases hfile : forest name with
  | none => exact Or.inl ((hholds.fresh name hfile).2 oid n)
  | some t =>
    obtain ⟨s, -, hrep⟩ := hholds.file name t hfile
    have hstored : v.store.links (keyOf name oid) n = _ := hrep.links oid n
    -- a stored link is one of the tree, where links ascend
    cases hlink : t.tree.links oid n with
    | none =>
      rw [hlink] at hstored
      exact Or.inl hstored
    | some target =>
      rw [hlink] at hstored
      refine Or.inr ⟨target, hstored, ?_, ?_, t.tree.ascending oid n target hlink⟩
      · exact hrep.object_ne_nil ⟨oid, t.tree.source oid n target hlink⟩
      · exact hrep.object_ne_nil ⟨target, t.tree.target oid n target hlink⟩

theorem run_demo : ∃ replies v,
    Volume.run demo ⟨ObjectIds.emptyStore, fun _ => none⟩ demoOps = .ok (replies, v) := by
  obtain ⟨r, hr⟩ : ∃ r, Forest.run (fun _ => none) demoOps = .ok r := ⟨_, rfl⟩
  have hlinks : ∀ key n, ObjectIds.emptyStore.links key n = [] := fun _ _ => rfl
  have hdepth : 0 < demo.depth := by decide
  have hspec := volume_run_spec hdepth (holds_empty hlinks) admits_demo
  rw [hr] at hspec
  obtain ⟨x, hx, -⟩ := hspec
  exact ⟨x.1, x.2, hx⟩

theorem stored_links_ascend_demo : ∃ replies v,
    Volume.run demo ⟨ObjectIds.emptyStore, fun _ => none⟩ demoOps = .ok (replies, v) ∧
    (v.store.links (keyOf ObjectIds.nameF rootOid) pathA = [] ∨
      ∃ target, v.store.links (keyOf ObjectIds.nameF rootOid) pathA = linkBytes (.hard target) ∧
        v.store.objects.object (keyOf ObjectIds.nameF rootOid) ≠ [] ∧
        v.store.objects.object (keyOf ObjectIds.nameF target) ≠ [] ∧
        index rootOid < index target) := by
  obtain ⟨replies, v, hrun⟩ := run_demo
  exact ⟨replies, v, hrun, stored_links_ascend (by decide) (fun _ _ => rfl) admits_demo hrun
    ObjectIds.nameF rootOid pathA⟩

/-! ## Paths of names -/

/-- The names of a path. -/
def namesOf (path : CString) : List CString :=
  (pathGroups path.bytes).map CString.ofBuffer ++ [TreeFile.lastName path]

section Names

variable {t : ObjTree P} {a b : t.Obj} {names : List (List Byte)}

/-- A walk in a tree resolves the names. -/
theorem resolve_of_walk (h : t.walk a names = .ok b) :
    Namespace.resolve t.links a.1 (names.map CString.ofBuffer) = some b.1 := by
  induction names generalizing a with
  | nil => exact congrArg (fun x : t.Obj => some x.1) (Except.ok.inj h)
  | cons n names ih =>
    obtain ⟨-, c, hlink, hrest⟩ := ObjTree.walk_cons_ok h
    rw [List.map_cons, Namespace.resolve_cons_some (follow_eq_some.mp hlink)]
    exact ih hrest

/-- A walk meets no empty name. -/
theorem ne_nil_of_walk (h : t.walk a names = .ok b) : ∀ n ∈ names, n ≠ [] := by
  induction names generalizing a with
  | nil => exact fun n hn => absurd hn List.not_mem_nil
  | cons n names ih =>
    obtain ⟨hn, c, -, hrest⟩ := ObjTree.walk_cons_ok h
    exact List.forall_mem_cons.mpr ⟨hn, ih hrest⟩

/-- Names that resolve can be walked along, if none is empty. -/
theorem walk_of_resolve (hne : ∀ n ∈ names, n ≠ []) {oid : UInt64}
    (h : Namespace.resolve t.links a.1 (names.map CString.ofBuffer) = some oid) :
    ∃ b : t.Obj, t.walk a names = .ok b ∧ b.1 = oid := by
  induction names generalizing a with
  | nil => exact ⟨a, rfl, Option.some.inj h⟩
  | cons n names ih =>
    rw [List.forall_mem_cons] at hne
    unfold ObjTree.walk
    rw [if_neg hne.1]
    rw [List.map_cons, Namespace.resolve] at h
    obtain ⟨c, hlink, hrest⟩ := Option.bind_eq_some_iff.mp h
    cases hfollow : t.follow a (CString.ofBuffer n) with
    | none => cases (follow_eq_none.mp hfollow).symm.trans hlink
    | some c' =>
      obtain rfl := Option.some.inj ((follow_eq_some.mp hfollow).symm.trans hlink)
      exact ih hne.2 hrest

end Names

section Files

variable {f : TreeFile P} {path : CString} {a : f.tree.Obj}

theorem locate_file : f.locate (some f.tree.rootObj) path =
    f.tree.walk f.tree.rootObj (pathGroups path.bytes) := by
  have hstart : f.startObj (some f.tree.rootObj) path = .ok f.tree.rootObj := by
    unfold TreeFile.startObj
    split
    · rfl
    · rfl
  rw [TreeFile.locate, hstart, ok_bind]

/-- What the names of a path lead to is found by the path, from the file. -/
theorem find_of_resolve (hne : ∀ n ∈ pathGroups path.bytes, n ≠ []) {oid : UInt64}
    (h : Namespace.resolve f.tree.links rootOid (namesOf path) = some oid) :
    ∃ b : f.tree.Obj, f.find .file path false = .ok b ∧ b.1 = oid := by
  rw [namesOf, Namespace.resolve_append, show rootOid = f.tree.rootObj.1 from rfl] at h
  obtain ⟨parent, hparent, hlast⟩ := Option.bind_eq_some_iff.mp h
  obtain ⟨b, hwalk, rfl⟩ := walk_of_resolve hne hparent
  rw [Namespace.resolve] at hlast
  obtain ⟨c, hlink, hc⟩ := Option.bind_eq_some_iff.mp hlast
  rw [Namespace.resolve_nil] at hc
  cases hfollow : f.tree.follow b (TreeFile.lastName path) with
  | none => cases (follow_eq_none.mp hfollow).symm.trans hlink
  | some c' =>
    refine ⟨c', ?_, ?_⟩
    · show (f.locate (some f.tree.rootObj) path >>= fun b =>
        f.tree.linked b (TreeFile.lastName path)) = .ok c'
      rw [locate_file, hwalk, ok_bind]
      exact ObjTree.linked_eq_ok.mpr hfollow
    · exact Option.some.inj ((follow_eq_some.mp hfollow).symm.trans (hlink.trans hc))

end Files

/-! ## Names that stay -/

/-- An operation creates the file again, or binds a name of the path. -/
def Rebinds (name : FileName) (path : CString) : FileName × FileOp P → Prop
  | (name', .create ..) => name' = name
  | (name', .call op) => name' = name ∧ ∃ n ∈ namesOf path, TreeFile.bindsName op = some n

/-- The file has the object, and the path leads from its root to it. -/
def Leads (name : FileName) (path : CString) (oid : UInt64) (obj : Object P)
    (forest : Forest P) : Prop :=
  ∃ f, forest name = some f ∧ f.tree.objects oid = some obj ∧
    Namespace.resolve f.tree.links rootOid (namesOf path) = some oid

section Stays

variable {name : FileName} {path : CString} {oid : UInt64} {obj : Object P}

/-- A new object does not change what the names of a path lead to if its name is not one of
them. -/
theorem resolve_add {t : ObjTree P} (hfew : Few (t.count + 1)) (new : Object P)
    {parent : Option (t.Obj × CString)} {names : List CString}
    (h : ∀ p, parent = some p → p.2 ∉ names) (a : UInt64) :
    Namespace.resolve (t.add hfew new parent).links a names =
      Namespace.resolve t.links a names := by
  cases parent with
  | none => rfl
  | some p => exact resolve_put_of_not_meets (fun hmeets => h p rfl hmeets.mem) _

theorem leads_step {forest forest' : Forest P} {op : FileName × FileOp P} {r : PathReply P}
    (hleads : Leads name path oid obj forest) (hkeep : ¬ Rebinds name path op)
    (hstep : forest.step op = .ok (r, forest')) : Leads name path oid obj forest' := by
  obtain ⟨f, hf, hobj, hresolve⟩ := hleads
  obtain ⟨name', op⟩ := op
  cases op with
  | create flags collective fcpl numProcs sched =>
    obtain ⟨-, rfl⟩ := Prod.mk.inj (Except.ok.inj hstep)
    exact ⟨f, (Function.update_of_ne (Ne.symm hkeep) ..).trans hf, hobj, hresolve⟩
  -- a call of another file leaves this one as it is
  | call op =>
    have hcall : forest.call name' op = .ok (r, forest') := hstep
    obtain ⟨f₀, hfile, hcall⟩ := bind_eq_ok.mp hcall
    obtain ⟨x, hop, hx⟩ := bind_eq_ok.mp hcall
    obtain ⟨-, rfl⟩ := Prod.mk.inj (Except.ok.inj hx)
    have hfile : forest name' = some f₀ := orFault_eq_ok.mp hfile
    by_cases hname : name = name'
    · subst hname
      obtain rfl := Option.some.inj (hfile.symm.trans hf)
      refine ⟨x.2, Function.update_self .., ?_⟩
      -- the tree is the same, or has a new object, which this path does not meet
      rcases TreeFile.step_tree hop with htree | ⟨hfew, new, parent, htree, hbinds⟩
      · rw [htree]
        exact ⟨hobj, hresolve⟩
      · rw [htree]
        refine ⟨ObjTree.add_objects hfew new parent hobj, ?_⟩
        rw [resolve_add hfew new (fun p hp hmem => hkeep ⟨rfl, p.2, hmem, hbinds p hp⟩)]
        exact hresolve
    · exact ⟨f, (Function.update_of_ne hname ..).trans hf, hobj, hresolve⟩

/-- By induction on the operations. -/
theorem leads_run {ops : List (FileName × FileOp P)} {forest forest' : Forest P}
    {replies : List (PathReply P)} (hleads : Leads name path oid obj forest)
    (hkeep : ∀ op ∈ ops, ¬ Rebinds name path op)
    (hrun : forest.run ops = .ok (replies, forest')) : Leads name path oid obj forest' := by
  induction ops generalizing forest replies with
  | nil =>
    obtain ⟨-, rfl⟩ := Prod.mk.inj (Except.ok.inj hrun)
    exact hleads
  | cons op ops ih =>
    obtain ⟨r, hstep, hrun⟩ := bind_eq_ok.mp hrun
    obtain ⟨rest, hrest, hx⟩ := bind_eq_ok.mp hrun
    obtain ⟨-, rfl⟩ := Prod.mk.inj (Except.ok.inj hx)
    have hnext := leads_step hleads (hkeep op List.mem_cons_self) hstep
    exact ih hnext (fun op' hop' => hkeep op' (List.mem_cons_of_mem _ hop')) hrest

end Stays

/-! ## Runs one after another -/

theorem run_append (forest : Forest P) (ops ops' : List (FileName × FileOp P)) :
    forest.run (ops ++ ops') = forest.run ops >>= fun r =>
      (r.2.run ops').map fun r' => (r.1 ++ r'.1, r'.2) := by
  induction ops generalizing forest with
  | nil =>
    show forest.run ops' = (forest.run ops').map fun r' => ([] ++ r'.1, r'.2)
    cases forest.run ops' with
    | error e => rfl
    | ok r => rfl
  | cons op ops ih =>
    rw [List.cons_append, Forest.run, Forest.run]
    -- a first step that fails ends both runs
    cases forest.step op with
    | error e => rfl
    | ok r =>
      rw [ok_bind, ok_bind, ih]
      cases r.2.run ops with
      | error e => rfl
      | ok r₁ =>
        rw [ok_bind, ok_bind]
        show _ = (r₁.2.run ops').map fun r' => (r.1 :: r₁.1 ++ r'.1, r'.2)
        cases r₁.2.run ops' with
        | error e => rfl
        | ok r₂ => rfl

theorem length_replies {ops : List (FileName × FileOp P)} {forest : Forest P}
    {r : List (PathReply P) × Forest P} (h : forest.run ops = .ok r) :
    r.1.length = ops.length := by
  induction ops generalizing forest r with
  | nil =>
    obtain rfl := Except.ok.inj h
    rfl
  | cons op ops ih =>
    obtain ⟨x, -, h⟩ := bind_eq_ok.mp h
    obtain ⟨rest, hrest, hr⟩ := bind_eq_ok.mp h
    obtain rfl := Except.ok.inj hr
    exact congrArg (· + 1) (ih hrest)

theorem admits_left {ops ops' : List (FileName × FileOp P)} {forest : Forest P}
    (h : forest.Admits w (ops ++ ops')) : forest.Admits w ops := by
  induction ops generalizing forest with
  | nil => trivial
  | cons op ops ih => exact ⟨h.1, fun r hr => ih (h.2 r hr)⟩

theorem admits_append {ops ops' : List (FileName × FileOp P)} {forest : Forest P}
    (h : forest.Admits w (ops ++ ops')) {r : List (PathReply P) × Forest P}
    (hrun : forest.run ops = .ok r) : r.2.Admits w ops' := by
  induction ops generalizing forest r with
  | nil =>
    obtain rfl := Except.ok.inj hrun
    exact h
  | cons op ops ih =>
    obtain ⟨x, hx, hrun⟩ := bind_eq_ok.mp hrun
    obtain ⟨rest, hrest, hr⟩ := bind_eq_ok.mp hrun
    obtain rfl := Except.ok.inj hr
    show Forest.Admits w rest.2 ops'
    exact ih (h.2 x hx) hrest

/-! ## Creations and opens of one path -/

/-- The creation of an object by a path from the file. -/
def createOf (obj : Object P) (allColl : Bool) (path : CString) (sched : Schedule) : PathOp P :=
  match obj with
  | .group gcpl => .createGroup allColl .file path gcpl sched
  | .dataset info => .createDataset allColl .file path info sched

/-- The open of an object of the same type. -/
def openOf (obj : Object P) (allColl : Bool) (path : CString) (memory : Nat → RankMemory) :
    PathOp P :=
  match obj with
  | .group _ => .openGroup allColl .file path memory
  | .dataset _ => .openDataset allColl .file path memory

/-- What `numProcs` ranks get that open an object. -/
def openedAs (obj : Object P) (oid : UInt64) (numProcs : Nat) : PathReply P :=
  match obj with
  | .group gcpl => .groups (List.replicate numProcs (oid, some gcpl))
  | .dataset info => .datasets (List.replicate numProcs ⟨oid.toNat, info⟩)

/-- All but the last name of a path lead to an object of the file. -/
def HasParent (name : FileName) (path : CString) (forest : Forest P) : Prop :=
  ∃ f a, forest name = some f ∧ f.locate (some f.tree.rootObj) path = .ok a

section Found

variable {f f' : TreeFile P} {obj : Object P} {allColl : Bool} {path : CString}
  {sched : Schedule} {memory : Nat → RankMemory} {r : PathReply P}

/-- After a creation where its path leads to, the path leads to the new object. -/
theorem create_leads
    (hparent : ∀ gcpl, obj = .group gcpl → ∃ a, f.locate (some f.tree.rootObj) path = .ok a)
    (h : f.step (createOf obj allColl path sched) = .ok (r, f')) :
    r = .created (f.all (f.tree.nextOid obj.type)) ∧
      f'.tree.objects (f.tree.nextOid obj.type) = some obj ∧
      (∀ n ∈ pathGroups path.bytes, n ≠ []) ∧
      Namespace.resolve f'.tree.links rootOid (namesOf path) =
        some (f.tree.nextOid obj.type) := by
  -- the tree, whichever object it is
  obtain ⟨hfew, p, hp, hr, htree⟩ : ∃ hfew p,
      f.parentAt (some f.tree.rootObj) path = .ok (some p) ∧
      r = .created (f.all (f.tree.nextOid obj.type)) ∧
      f'.tree = f.tree.add hfew obj (some p) := by
    cases obj with
    | group gcpl =>
      obtain ⟨hfew, parent, hat, hr, htree⟩ := TreeFile.createGroup_ok h
      obtain ⟨a, ha⟩ := hparent gcpl rfl
      have hsome : f.parentAt (some f.tree.rootObj) path =
          .ok (some (a, TreeFile.lastName path)) := by
        rw [TreeFile.parentAt, ha]
      obtain rfl := Except.ok.inj
        ((show f.parentAt (some f.tree.rootObj) path = .ok parent from hat).symm.trans hsome)
      exact ⟨hfew, _, hsome, hr, htree⟩
    | dataset info => exact TreeFile.createDataset_ok h
  obtain ⟨hlocate, hlast⟩ := TreeFile.parentAt_some hp
  rw [locate_file] at hlocate
  refine ⟨hr, ?_, ne_nil_of_walk hlocate, ?_⟩
  · rw [htree]
    exact ObjTree.add_objects_self hfew obj (some p)
  · rw [htree]
    show Namespace.resolve (f.tree.links.put p.1.1 p.2 (f.tree.nextOid obj.type)) rootOid
      (namesOf path) = _
    rw [namesOf, ← hlast]
    exact f.tree.ascending.resolve_put_last (resolve_of_walk hlocate) p.2 _

/-- An open succeeds where the path leads to the object, and gets it. -/
theorem open_found (hname : ∀ gcpl, obj = .group gcpl → TreeFile.namesGroup path = false)
    (hne : ∀ n ∈ pathGroups path.bytes, n ≠ []) {oid : UInt64}
    (hobj : f.tree.objects oid = some obj)
    (hresolve : Namespace.resolve f.tree.links rootOid (namesOf path) = some oid) :
    ∃ f', f.step (openOf obj allColl path memory) = .ok (openedAs obj oid f.numProcs, f') := by
  obtain ⟨b, hfind, rfl⟩ := find_of_resolve hne hresolve
  cases obj with
  | group gcpl =>
    rw [← hname gcpl rfl] at hfind
    exact ⟨_, TreeFile.openGroup_eq hfind hobj⟩
  | dataset info =>
    refine ⟨f, ?_⟩
    show f.openDataset .file path = _
    unfold TreeFile.openDataset
    rw [hfind]
    dsimp only
    rw [hobj]
    rfl

end Found

/-- Every rank has a file open that it creates something in. -/
theorem room_of_specified {f : TreeFile P} {obj : Object P} {allColl : Bool} {path : CString}
    {sched : Schedule} (h : f.Specified w (createOf obj allColl path sched)) : f.Room := by
  cases obj with
  | group gcpl => exact h.1
  | dataset info => exact h.1

theorem open_of_specified {f : TreeFile P} {obj : Object P} {allColl : Bool} {path : CString}
    {memory : Nat → RankMemory} (h : f.Specified w (openOf obj allColl path memory)) :
    0 < f.numProcs := by
  cases obj with
  | group gcpl => exact h.1
  | dataset info => exact h.1

/-- A call in a run, on the tree of its file. -/
theorem call_ok {forest : Forest P} {name : FileName} {op : PathOp P}
    {r : PathReply P × Forest P} (hstep : forest.step (name, .call op) = .ok r) :
    ∃ f f', forest name = some f ∧ f.step op = .ok (r.1, f') ∧
      r.2 = Function.update forest name (some f') := by
  have hcall : forest.call name op = .ok r := hstep
  obtain ⟨f, hfile, hcall⟩ := bind_eq_ok.mp hcall
  obtain ⟨x, hop, hx⟩ := bind_eq_ok.mp hcall
  obtain rfl := Except.ok.inj hx
  exact ⟨f, x.2, orFault_eq_ok.mp hfile, hop, rfl⟩

/-- **Creations and opens.**  An object is created by a path from the file, by any number of
ranks; a group where the path leads to, since it gets no link otherwise.  Then anything is done
with this file and with others: it may be closed and opened again by other ranks, and objects may
be created anywhere in it, as long as no name of the path is bound again.  When the path is opened
then, the open succeeds, and all ranks get the object that was created, with the same oid and the
same metadata. -/
theorem created_found (hdepth : 0 < w.depth) {store : MdStore}
    (hlinks : ∀ key n, store.links key n = []) {name : FileName} {obj : Object P} {path : CString}
    {before after : List (FileName × FileOp P)}
    (hname : ∀ gcpl, obj = .group gcpl → TreeFile.namesGroup path = false)
    (hparent : ∀ gcpl, obj = .group gcpl →
      ∀ r, Forest.run (fun _ => none) before = .ok r → HasParent name path r.2)
    {allColl allColl' : Bool} {sched : Schedule} {memory : Nat → RankMemory}
    (hkeep : ∀ op ∈ after, ¬ Rebinds name path op)
    (hadmits : Forest.Admits w (fun _ => none)
      ((before ++ (name, .call (createOf obj allColl path sched)) :: after) ++
        [(name, .call (openOf obj allColl' path memory))]))
    {replies : List (PathReply P)} {v : Volume P}
    (hrun : Volume.run w ⟨store, fun _ => none⟩
      (before ++ (name, .call (createOf obj allColl path sched)) :: after) = .ok (replies, v)) :
    ∃ oid m n v', 0 < m ∧ 0 < n ∧
      replies[before.length]? = some (.created (List.replicate m oid)) ∧
      Volume.run w ⟨store, fun _ => none⟩
        ((before ++ (name, .call (createOf obj allColl path sched)) :: after) ++
          [(name, .call (openOf obj allColl' path memory))]) =
        .ok (replies ++ [openedAs obj oid n], v') := by
  obtain ⟨forest, hforest, -⟩ := volume_replies hdepth hlinks (admits_left hadmits) hrun
  have hlast := admits_append hadmits hforest
  -- the run before the open, in three parts
  have hparts := hforest
  rw [run_append] at hparts
  obtain ⟨r₁, hbefore, hrest₁⟩ := bind_eq_ok.mp hparts
  obtain ⟨r₂, hrest₂, hreplies⟩ := map_eq_ok.mp hrest₁
  obtain ⟨x, hcreate, hrest₃⟩ := bind_eq_ok.mp hrest₂
  obtain ⟨r₃, hafter, hr₂⟩ := bind_eq_ok.mp hrest₃
  have hadmits₂ := admits_append (admits_left hadmits) hbefore
  obtain ⟨hfirst, hend⟩ := Prod.mk.inj hreplies
  rw [← Except.ok.inj hr₂] at hfirst hend
  -- the creation, and what stays
  obtain ⟨f, f', hf, hstep, hx⟩ := call_ok hcreate
  obtain ⟨hcreated, hobj, hne, hresolve⟩ := create_leads (fun gcpl hgroup => by
    obtain ⟨f₀, a, hf₀, ha⟩ := hparent gcpl hgroup r₁ hbefore
    obtain rfl := Option.some.inj (hf.symm.trans hf₀)
    exact ⟨a, ha⟩) hstep
  have hleads : Leads name path (f.tree.nextOid obj.type) obj x.2 := by
    rw [hx]
    exact ⟨f', Function.update_self .., hobj, hresolve⟩
  obtain ⟨g, hg, hobj', hresolve'⟩ := leads_run hleads hkeep hafter
  rw [hend] at hg
  -- the open
  obtain ⟨g', hopen⟩ : ∃ g', g.step (openOf obj allColl' path memory) =
      .ok (openedAs obj (f.tree.nextOid obj.type) g.numProcs, g') :=
    open_found hname hne hobj' hresolve'
  have hopened : forest.run [(name, .call (openOf obj allColl' path memory))] =
      .ok ([openedAs obj (f.tree.nextOid obj.type) g.numProcs],
        Function.update forest name (some g')) := by
    rw [Forest.run, show forest.step (name, .call (openOf obj allColl' path memory)) =
      forest.call name (openOf obj allColl' path memory) from rfl, Forest.call_eq hg, hopen]
    rfl
  have hwhole := volume_run_spec hdepth (holds_empty hlinks) hadmits
  rw [run_append, hforest, ok_bind, hopened] at hwhole
  obtain ⟨y, hy, hyreplies, -⟩ := hwhole
  refine ⟨f.tree.nextOid obj.type, f.numProcs, g.numProcs, y.2,
    (room_of_specified (hadmits₂.1 f hf)).1, open_of_specified (hlast.1 g hg), ?_, ?_⟩
  · rw [← hfirst, ← length_replies hbefore, List.getElem?_append_right le_rfl, Nat.sub_self]
    exact congrArg some hcreated
  · exact hy.trans (congrArg Except.ok (Prod.ext hyreplies rfl))

/-- The file is closed and opened again in between. -/
theorem created_found_demo : ∃ replies v,
    Volume.run demo ⟨ObjectIds.emptyStore, fun _ => none⟩ (demoOps.take 4) = .ok (replies, v) ∧
    ∃ oid m n v', 0 < m ∧ 0 < n ∧
      replies[1]? = some (.created (List.replicate m oid)) ∧
      Volume.run demo ⟨ObjectIds.emptyStore, fun _ => none⟩ demoOps =
        .ok (replies ++ [openedAs (.group 6) oid n], v') := by
  have hadmits : Forest.Admits demo (fun _ => none) ((demoOps.take 1 ++
      (ObjectIds.nameF, .call (createOf (.group 6) false pathA ObjectIds.inOrder)) ::
        (demoOps.drop 2).take 2) ++ [(ObjectIds.nameF,
          .call (openOf (.group 6) true pathA fun _ => ⟨fun _ => 0, fun _ => 0⟩))]) := admits_demo
  obtain ⟨r, hr⟩ : ∃ r, Forest.run (fun _ => none) (demoOps.take 4) = .ok r := ⟨_, rfl⟩
  have hempty : Holds demo (fun _ => none) ⟨ObjectIds.emptyStore, fun _ => none⟩ :=
    holds_empty fun _ _ => rfl
  have hspec := volume_run_spec (by decide) hempty (admits_left hadmits)
  rw [show Forest.run (fun _ => none) (demoOps.take 1 ++
      (ObjectIds.nameF, .call (createOf (.group 6) false pathA ObjectIds.inOrder)) ::
        (demoOps.drop 2).take 2) = .ok r from hr] at hspec
  obtain ⟨x, hrun, -⟩ := hspec
  have hkeep : ∀ op ∈ (demoOps.drop 2).take 2, ¬ Rebinds ObjectIds.nameF pathA op := by
    intro op hop
    simp only [demoOps, List.drop_succ_cons, List.drop_zero, List.take_succ_cons, List.take_zero,
      List.mem_cons, List.not_mem_nil, or_false] at hop
    rcases hop with rfl | rfl
    · simp [Rebinds, TreeFile.bindsName]
    · simp [Rebinds, TreeFile.bindsName]
  have hname : ∀ gcpl, Object.group (6 : Byte) = .group gcpl →
      TreeFile.namesGroup pathA = false := fun _ _ => by decide
  -- the path has one name, so the root group is where it leads to
  have hparent : ∀ gcpl, Object.group (6 : Byte) = .group gcpl →
      ∀ r, Forest.run (fun _ => none) (demoOps.take 1) = .ok r →
        HasParent ObjectIds.nameF pathA r.2 := by
    intro gcpl _ r hr
    obtain rfl := Except.ok.inj hr
    refine ⟨.new 5 2 false, _, ?_, rfl⟩
    show Function.update (fun _ => none) ObjectIds.nameF (some (TreeFile.new (5 : Byte) 2 false))
      ObjectIds.nameF = _
    exact Function.update_self ..
  exact ⟨x.1, x.2, hrun,
    created_found (by decide) (fun _ _ => rfl) hname hparent hkeep hadmits hrun⟩

end DTIO.Properties.TreeRuns
