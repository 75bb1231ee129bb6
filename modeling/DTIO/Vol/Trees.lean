import DTIO.Foundation.Namespace
import DTIO.Vol.LinkGraph
import DTIO.Vol.PathCalls

/-!
# Trees

What a file of the connector stands for: groups and datasets that are numbered as they are
created, and links by name that lead from an object to later ones.  The operations of
`Vol/PathCalls` on such trees say what an application can expect of them, without ranks, stores,
keys, encodings and broadcasts.

## Main definitions

- `ObjTree`: objects and links
- `TreeFile.step`: an operation on the tree of a file
- `Forest.step`, `Forest.run`: the trees of all files
- `Specified`, `Forest.Admits`: the operations for which trees say what happens
-/

namespace DTIO.Vol

open DTIO.Posix DTIO.Broadcast DTIO.Namespace DTIO.Vol.LinkGraph

variable {P : Type}

/-! ## Objects and links -/

inductive Object (P : Type) where
  | group (gcpl : P)
  | dataset (info : DatasetInfo)
  deriving DecidableEq, Repr

def Object.type : Object P → ObjType
  | group _ => .group
  | dataset _ => .dataset

/-- The metadata of an object. -/
def Object.bytes (w : Process P) : Object P → List Byte
  | group gcpl => w.plist.encode gcpl
  | dataset info => datasetRecord info

/-- The metadata can be stored, and sent in a broadcast. -/
def Object.Fits (w : Process P) : Object P → Prop
  | group gcpl => w.plist.encode gcpl ≠ [] ∧ (w.plist.encode gcpl).length < 2147483648
  | dataset info => info.strings.length < 2147483648

/-- The number of an object, as it is in its id. -/
def index (oid : UInt64) : Nat := (oidToIdx oid).toNat

/-- The `n`-th object of a file, if it has this type. -/
def nthOid (n : Nat) (type : ObjType) : UInt64 := oidCreateBinary (UInt64.ofNat n) type

def rootOid : UInt64 := nthOid 1 .group

/-- Some indices are left. -/
def Few (n : Nat) : Prop := n < 4611686018427387904

instance instDecidableFew (n : Nat) : Decidable (Few n) := inferInstanceAs (Decidable (_ < _))

theorem index_nthOid {n : Nat} (h : Few n) (type : ObjType) : index (nthOid n type) = n := by
  have hn : (UInt64.ofNat n).toNat = n := by
    unfold Few at h
    exact UInt64.toNat_ofNat_of_lt' (lt_of_lt_of_le h (by decide))
  unfold index nthOid
  rw [oidToIdx_oidCreateBinary (by rw [hn]; exact h), hn]

/-- Objects with links by name.  Each link leads from an object to one that was created later. -/
structure ObjTree (P : Type) where
  count : Nat
  objects : UInt64 → Option (Object P)
  links : Links UInt64 CString
  few : Few count
  root : ∃ gcpl, objects rootOid = some (.group gcpl)
  index_pos : ∀ oid, objects oid ≠ none → 0 < index oid
  index_le : ∀ oid, objects oid ≠ none → index oid ≤ count
  source : ∀ a n b, links a n = some b → objects a ≠ none
  target : ∀ a n b, links a n = some b → objects b ≠ none
  ascending : Ascending index links

namespace ObjTree

/-- The objects of a tree. -/
abbrev Obj (t : ObjTree P) := { oid : UInt64 // t.objects oid ≠ none }

/-- The root group. -/
def rootObj (t : ObjTree P) : t.Obj :=
  ⟨rootOid, fun h => by obtain ⟨gcpl, hroot⟩ := t.root; rw [hroot] at h; cases h⟩

/-- A link of an object. -/
def follow (t : ObjTree P) (a : t.Obj) (n : CString) : Option t.Obj :=
  match h : t.links a.1 n with
  | none => none
  | some b => some ⟨b, t.target _ _ _ h⟩

/-- A link, or an error. -/
def linked (t : ObjTree P) (a : t.Obj) (n : CString) : Except Stop t.Obj :=
  (t.follow a n).elim (.error .fail) .ok

theorem linked_eq_ok {t : ObjTree P} {a b : t.Obj} {n : CString} :
    t.linked a n = .ok b ↔ t.follow a n = some b := by
  unfold linked
  cases t.follow a n with
  | none => exact iff_of_false nofun nofun
  | some b' =>
    exact ⟨fun h => congrArg some (Except.ok.inj h), fun h => congrArg _ (Option.some.inj h)⟩

/-- From an object along names that have a slash behind them, none of which may be empty. -/
def walk (t : ObjTree P) : t.Obj → List (List Byte) → Except Stop t.Obj
  | a, [] => .ok a
  | a, name :: names =>
    if name = [] then .error .fault
    else
      match t.follow a (CString.ofBuffer name) with
      | none => .error .fail
      | some b => walk t b names

/-- A walk that arrives went over a link for its first name. -/
theorem walk_cons_ok {t : ObjTree P} {a b : t.Obj} {name : List Byte} {names : List (List Byte)}
    (h : t.walk a (name :: names) = .ok b) :
    name ≠ [] ∧ ∃ c, t.follow a (CString.ofBuffer name) = some c ∧ t.walk c names = .ok b := by
  unfold walk at h
  by_cases hname : name = []
  · rw [if_pos hname] at h
    cases h
  · rw [if_neg hname] at h
    cases hlink : t.follow a (CString.ofBuffer name) with
    | none =>
      rw [hlink] at h
      cases h
    | some c =>
      rw [hlink] at h
      exact ⟨hname, c, rfl, h⟩

/-- The tree of a new file. -/
def new (gcpl : P) : ObjTree P where
  count := 1
  objects := Function.update (fun _ => none) rootOid (some (.group gcpl))
  links := fun _ _ => none
  few := by decide
  root := ⟨gcpl, Function.update_self ..⟩
  index_pos := by
    intro oid h
    by_cases hoid : oid = rootOid
    · subst hoid
      decide
    · simp [hoid] at h
  index_le := by
    intro oid h
    by_cases hoid : oid = rootOid
    · subst hoid
      decide
    · simp [hoid] at h
  source := nofun
  target := nofun
  ascending := nofun

theorem new_objects_root (gcpl : P) : (ObjTree.new gcpl).objects rootOid = some (.group gcpl) := by
  simp [new]

theorem new_objects {gcpl : P} {oid : UInt64} {obj : Object P}
    (h : (ObjTree.new gcpl).objects oid = some obj) : oid = rootOid ∧ obj = .group gcpl := by
  by_cases hroot : oid = rootOid
  · subst hroot
    exact ⟨rfl, Option.some.inj (h.symm.trans (new_objects_root gcpl))⟩
  · simp [new, hroot] at h

/-- The id of the next object. -/
def nextOid (t : ObjTree P) (type : ObjType) : UInt64 := nthOid (t.count + 1) type

theorem nextOid_fresh {t : ObjTree P} (h : Few (t.count + 1)) (type : ObjType) :
    t.objects (t.nextOid type) = none := by
  by_contra hsome
  have hle := t.index_le _ hsome
  rw [nextOid, index_nthOid h] at hle
  omega

/-- One more object, and a link to it if it has a parent. -/
def add (t : ObjTree P) (h : Few (t.count + 1)) (obj : Object P)
    (parent : Option (t.Obj × CString)) : ObjTree P where
  count := t.count + 1
  objects := Function.update t.objects (t.nextOid obj.type) (some obj)
  links := parent.elim t.links fun p => t.links.put p.1.1 p.2 (t.nextOid obj.type)
  few := h
  root := by
    obtain ⟨gcpl, hroot⟩ := t.root
    refine ⟨gcpl, ?_⟩
    have hne : rootOid ≠ t.nextOid obj.type := by
      intro heq
      rw [heq, nextOid_fresh h] at hroot
      cases hroot
    rw [Function.update_of_ne hne, hroot]
  index_pos := by
    intro oid hoid
    by_cases heq : oid = t.nextOid obj.type
    · rw [heq, nextOid, index_nthOid h]
      exact Nat.succ_pos _
    · rw [Function.update_of_ne heq] at hoid
      exact t.index_pos oid hoid
  index_le := by
    intro oid hoid
    by_cases heq : oid = t.nextOid obj.type
    · rw [heq, nextOid, index_nthOid h]
    · rw [Function.update_of_ne heq] at hoid
      exact Nat.le_succ_of_le (t.index_le oid hoid)
  source := by
    have hmono : ∀ oid, t.objects oid ≠ none →
        Function.update t.objects (t.nextOid obj.type) (some obj) oid ≠ none := by
      intro oid hoid
      by_cases heq : oid = t.nextOid obj.type
      · simp [heq]
      · rwa [Function.update_of_ne heq]
    intro a n b hlink
    cases parent with
    | none => exact hmono a (t.source a n b hlink)
    | some p =>
      rw [Option.elim_some, Links.put_apply] at hlink
      split at hlink
      · next heq => exact heq.1 ▸ hmono p.1.1 p.1.2
      · exact hmono a (t.source a n b hlink)
  target := by
    intro a n b hlink
    by_cases heq : b = t.nextOid obj.type
    · simp [heq]
    · rw [Function.update_of_ne heq]
      cases parent with
      | none => exact t.target a n b hlink
      | some p =>
        rw [Option.elim_some, Links.put_apply] at hlink
        split at hlink
        · exact absurd (Option.some.inj hlink).symm heq
        · exact t.target a n b hlink
  ascending := by
    cases parent with
    | none => exact t.ascending
    | some p =>
      refine t.ascending.put p.2 ?_
      rw [nextOid, index_nthOid h]
      exact Nat.lt_succ_of_le (t.index_le _ p.1.2)

variable {t : ObjTree P}

theorem add_objects (h : Few (t.count + 1)) (obj : Object P) (parent : Option (t.Obj × CString))
    {oid : UInt64} {x : Object P} (hx : t.objects oid = some x) :
    (t.add h obj parent).objects oid = some x := by
  have hne : oid ≠ t.nextOid obj.type := by
    intro heq
    rw [heq, nextOid_fresh h] at hx
    cases hx
  exact (Function.update_of_ne hne ..).trans hx

theorem add_objects_self (h : Few (t.count + 1)) (obj : Object P)
    (parent : Option (t.Obj × CString)) :
    (t.add h obj parent).objects (t.nextOid obj.type) = some obj :=
  Function.update_self ..

/-- All objects that a path goes through are groups. -/
def Groups (t : ObjTree P) : t.Obj → List (List Byte) → Prop
  | _, [] => True
  | a, name :: names => ∀ b, t.follow a (CString.ofBuffer name) = some b →
    (∃ gcpl, t.objects b.1 = some (.group gcpl)) ∧ t.Groups b names

end ObjTree

/-! ## Files -/

/-- The tree of a file, which `numProcs` ranks have open or nobody, with the groups that they have
created or opened. -/
structure TreeFile (P : Type) where
  tree : ObjTree P
  numProcs : Nat
  collective : Bool
  groups : List UInt64
  groups_objects : ∀ oid ∈ groups, ∃ gcpl, tree.objects oid = some (.group gcpl)

namespace TreeFile

/-- A group of the table. -/
def groupObj (f : TreeFile P) (i : Nat) (h : i < f.groups.length) : f.tree.Obj :=
  ⟨f.groups[i], by
    obtain ⟨gcpl, hobj⟩ := f.groups_objects _ (List.getElem_mem h)
    rw [hobj]
    exact Option.some_ne_none _⟩

/-- The object that is passed with a path; a path can only begin at a file or a group. -/
def locObj (f : TreeFile P) : Loc → Except Stop (Option f.tree.Obj)
  | .file => .ok (some f.tree.rootObj)
  | .group i => if h : i < f.groups.length then .ok (some (f.groupObj i h)) else .error .fault
  | .other => .ok none

theorem locObj_group {f : TreeFile P} {i : Nat} (h : i < f.groups.length) :
    f.locObj (.group i) = .ok (some (f.groupObj i h)) := dif_pos h

theorem locObj_group_none {f : TreeFile P} {i : Nat} (h : ¬ i < f.groups.length) :
    f.locObj (.group i) = .error .fault := dif_neg h

/-- The object that a path begins at. -/
def startObj (f : TreeFile P) (cur : Option f.tree.Obj) (path : CString) :
    Except Stop f.tree.Obj :=
  if path.bytes.head? = some slash then .ok f.tree.rootObj
  else
    match cur with
    | some a => .ok a
    | none => .error .fail

/-- The object that all but the last name of a path lead to. -/
def locate (f : TreeFile P) (cur : Option f.tree.Obj) (path : CString) : Except Stop f.tree.Obj :=
  f.startObj cur path >>= fun a => f.tree.walk a (pathGroups path.bytes)

/-- The last name of a path. -/
def lastName (path : CString) : CString := CString.ofBuffer (pathLast path.bytes)

/-- One more object. -/
def add (f : TreeFile P) (h : Few (f.tree.count + 1)) (obj : Object P)
    (parent : Option (f.tree.Obj × CString)) : TreeFile P :=
  { f with
    tree := f.tree.add h obj parent
    groups_objects := by
      intro oid hoid
      obtain ⟨gcpl, hobj⟩ := f.groups_objects oid hoid
      exact ⟨gcpl, ObjTree.add_objects h obj parent hobj⟩ }

/-- One more handle of a group. -/
def push (f : TreeFile P) {oid : UInt64} {gcpl : P}
    (h : f.tree.objects oid = some (.group gcpl)) : TreeFile P :=
  { f with
    groups := f.groups ++ [oid]
    groups_objects := by
      intro oid' hoid'
      rcases List.mem_append.mp hoid' with hold | hnew
      · exact f.groups_objects oid' hold
      · exact List.mem_singleton.mp hnew ▸ ⟨gcpl, h⟩ }

/-- What all ranks get. -/
def all {α : Type} (f : TreeFile P) (a : α) : List α := List.replicate f.numProcs a

/-- What a new group is linked to; nothing if its path leads nowhere. -/
def parentAt (f : TreeFile P) (cur : Option f.tree.Obj) (path : CString) :
    Except Stop (Option (f.tree.Obj × CString)) :=
  match f.locate cur path with
  | .ok a => .ok (some (a, lastName path))
  | .error .fail => .ok none
  | .error .fault => .error .fault

def parentOf (f : TreeFile P) (loc : Loc) (path : CString) :
    Except Stop (Option (f.tree.Obj × CString)) :=
  f.locObj loc >>= fun cur => f.parentAt cur path

/-- A group is created, and all ranks have a handle of it. -/
def createGroup (f : TreeFile P) (loc : Loc) (path : CString) (gcpl : P) :
    Except Stop (PathReply P × TreeFile P) :=
  if h : Few (f.tree.count + 1) then
    (f.parentOf loc path).map fun parent =>
      (.created (f.all (f.tree.nextOid .group)),
        (f.add h (.group gcpl) parent).push (ObjTree.add_objects_self h (.group gcpl) parent))
  else .error .fault

/-- A dataset is created, where its path leads to. -/
def createDataset (f : TreeFile P) (loc : Loc) (path : CString) (info : DatasetInfo) :
    Except Stop (PathReply P × TreeFile P) :=
  if h : Few (f.tree.count + 1) then do
    match ← f.parentOf loc path with
    | some parent =>
      return (.created (f.all (f.tree.nextOid .dataset)), f.add h (.dataset info) (some parent))
    | none => .error .fault
  else .error .fault

/-- What a path leads to. -/
def findAt (f : TreeFile P) (cur : Option f.tree.Obj) (path : CString) (stays : Bool) :
    Except Stop f.tree.Obj :=
  f.locate cur path >>= fun a =>
    if stays then .ok a else f.tree.linked a (lastName path)

def find (f : TreeFile P) (loc : Loc) (path : CString) (stays : Bool) :
    Except Stop f.tree.Obj :=
  f.locObj loc >>= fun cur => f.findAt cur path stays

/-- A path without a last name leads to the group itself, when a group is opened. -/
def namesGroup (path : CString) : Bool := standsForGroup (pathLast path.bytes)

/-- All ranks have another handle of a group. -/
def openObj (f : TreeFile P) (a : f.tree.Obj) : Except Stop (PathReply P × TreeFile P) :=
  match h : f.tree.objects a.1 with
  | some (.group gcpl) => .ok (.groups (f.all (a.1, some gcpl)), f.push h)
  | _ => .error .fault

theorem openObj_group {f : TreeFile P} {a : f.tree.Obj} {gcpl : P}
    (h : f.tree.objects a.1 = some (.group gcpl)) :
    f.openObj a = .ok (.groups (f.all (a.1, some gcpl)), f.push h) := by
  unfold openObj
  split
  · next gcpl' h' =>
    obtain rfl : gcpl' = gcpl := by
      rw [h'] at h
      exact Object.group.inj (Option.some.inj h)
    rfl
  · next hnot => exact absurd h (hnot gcpl)

/-- All ranks open a group. -/
def openGroup (f : TreeFile P) (loc : Loc) (path : CString) :
    Except Stop (PathReply P × TreeFile P) :=
  match f.find loc path (namesGroup path) with
  | .error _ => .error .fault
  | .ok a => f.openObj a

theorem openGroup_error {f : TreeFile P} {loc : Loc} {path : CString} {e : Stop}
    (h : f.find loc path (namesGroup path) = .error e) : f.openGroup loc path = .error .fault := by
  rw [openGroup, h]

theorem openGroup_eq {f : TreeFile P} {loc : Loc} {path : CString} {a : f.tree.Obj} {gcpl : P}
    (h : f.find loc path (namesGroup path) = .ok a)
    (hobj : f.tree.objects a.1 = some (.group gcpl)) :
    f.openGroup loc path = .ok (.groups (f.all (a.1, some gcpl)), f.push hobj) := by
  rw [openGroup, h]
  exact openObj_group hobj

/-- All ranks open a dataset. -/
def openDataset (f : TreeFile P) (loc : Loc) (path : CString) :
    Except Stop (PathReply P × TreeFile P) :=
  match f.find loc path false with
  | .error _ => .error .fault
  | .ok a =>
    match f.tree.objects a.1 with
    | some (.dataset info) => .ok (.datasets (f.all ⟨a.1.toNat, info⟩), f)
    | _ => .error .fault

/-- Nobody has a closed file open. -/
def closed (f : TreeFile P) : TreeFile P :=
  { f with numProcs := 0, groups := [], groups_objects := nofun }

/-- All ranks have a closed file open, and nothing else. -/
def opened (f : TreeFile P) (numProcs : Nat) (collective : Bool) : TreeFile P :=
  { f with
    numProcs := numProcs
    collective := collective
    groups := []
    groups_objects := nofun }

/-- One operation. -/
def step (f : TreeFile P) : PathOp P → Except Stop (PathReply P × TreeFile P)
  | .createGroup _ loc path gcpl _ => f.createGroup loc path gcpl
  | .createDataset _ loc path info _ => f.createDataset loc path info
  | .openGroup _ loc path _ => f.openGroup loc path
  | .openDataset _ loc path _ => f.openDataset loc path
  | .flush _ => .ok (.done, f)
  | .close _ => .ok (.done, f.closed)
  | .reopen _ collective _ _ others =>
    .ok (.done, f.opened (others.length + 1) collective)

/-! ### What an operation can do -/

section Cases

variable {f f' : TreeFile P} {loc : Loc} {path : CString} {r : PathReply P}

theorem parentAt_some {cur : Option f.tree.Obj} {p : f.tree.Obj × CString}
    (h : f.parentAt cur path = .ok (some p)) :
    f.locate cur path = .ok p.1 ∧ p.2 = lastName path := by
  unfold parentAt at h
  split at h
  · next a hlocate =>
    obtain rfl := Option.some.inj (Except.ok.inj h)
    exact ⟨hlocate, rfl⟩
  · cases h
  · cases h

theorem createGroup_ok {gcpl : P} (h : f.createGroup loc path gcpl = .ok (r, f')) :
    ∃ hfew parent, f.parentOf loc path = .ok parent ∧
      r = .created (f.all (f.tree.nextOid .group)) ∧
      f'.tree = f.tree.add hfew (.group gcpl) parent := by
  unfold createGroup at h
  split at h
  · next hfew =>
    obtain ⟨parent, hparent, hx⟩ := map_eq_ok.mp h
    obtain ⟨rfl, rfl⟩ := Prod.mk.inj hx
    exact ⟨hfew, parent, hparent, rfl, rfl⟩
  · cases h

theorem createDataset_ok {info : DatasetInfo} (h : f.createDataset loc path info = .ok (r, f')) :
    ∃ hfew p, f.parentOf loc path = .ok (some p) ∧
      r = .created (f.all (f.tree.nextOid .dataset)) ∧
      f'.tree = f.tree.add hfew (.dataset info) (some p) := by
  unfold createDataset at h
  split at h
  · next hfew =>
    obtain ⟨parent, hparent, hx⟩ := bind_eq_ok.mp h
    cases parent with
    | none => cases hx
    | some p =>
      obtain ⟨rfl, rfl⟩ := Prod.mk.inj (Except.ok.inj hx)
      exact ⟨hfew, p, hparent, rfl, rfl⟩
  · cases h

theorem openGroup_ok (h : f.openGroup loc path = .ok (r, f')) :
    ∃ a gcpl, f.find loc path (namesGroup path) = .ok a ∧
      f.tree.objects a.1 = some (.group gcpl) ∧ r = .groups (f.all (a.1, some gcpl)) ∧
      f'.tree = f.tree := by
  unfold openGroup at h
  split at h
  · cases h
  · next a hfind =>
    unfold openObj at h
    split at h
    · next gcpl hobj =>
      obtain ⟨rfl, rfl⟩ := Prod.mk.inj (Except.ok.inj h)
      exact ⟨a, gcpl, hfind, hobj, rfl, rfl⟩
    · cases h

theorem openDataset_ok (h : f.openDataset loc path = .ok (r, f')) :
    ∃ a info, f.find loc path false = .ok a ∧ f.tree.objects a.1 = some (.dataset info) ∧
      r = .datasets (f.all ⟨a.1.toNat, info⟩) ∧ f' = f := by
  unfold openDataset at h
  split at h
  · cases h
  · next a hfind =>
    split at h
    · next info hobj =>
      obtain ⟨rfl, rfl⟩ := Prod.mk.inj (Except.ok.inj h)
      exact ⟨a, info, hfind, hobj, rfl, rfl⟩
    · cases h

/-- The name of a link that an operation binds. -/
def bindsName : PathOp P → Option CString
  | .createGroup _ _ path _ _ => some (lastName path)
  | .createDataset _ _ path _ _ => some (lastName path)
  | _ => none

/-- An operation leaves a tree, or adds an object, with a link of the last name of its path or
without. -/
theorem step_tree {op : PathOp P} (h : f.step op = .ok (r, f')) :
    f'.tree = f.tree ∨ ∃ hfew obj parent, f'.tree = f.tree.add hfew obj parent ∧
      ∀ p, parent = some p → bindsName op = some p.2 := by
  cases op with
  -- a creation adds its object, under the name it binds if there is a parent
  | createGroup allColl loc path gcpl sched =>
    obtain ⟨hfew, parent, hparent, -, htree⟩ := createGroup_ok h
    refine Or.inr ⟨hfew, _, parent, htree, ?_⟩
    rintro p rfl
    obtain ⟨cur, -, hat⟩ := bind_eq_ok.mp hparent
    exact congrArg some (parentAt_some hat).2.symm
  | createDataset allColl loc path info sched =>
    obtain ⟨hfew, p, hparent, -, htree⟩ := createDataset_ok h
    refine Or.inr ⟨hfew, _, some p, htree, ?_⟩
    rintro q hq
    obtain rfl := Option.some.inj hq
    obtain ⟨cur, -, hat⟩ := bind_eq_ok.mp hparent
    exact congrArg some (parentAt_some hat).2.symm
  -- the other operations leave the tree
  | openGroup allColl loc path memory =>
    obtain ⟨-, -, -, -, -, htree⟩ := openGroup_ok h
    exact Or.inl htree
  | openDataset allColl loc path memory =>
    obtain ⟨-, -, -, -, -, rfl⟩ := openDataset_ok h
    exact Or.inl rfl
  | flush sched =>
    obtain ⟨-, rfl⟩ := Prod.mk.inj (Except.ok.inj h)
    exact Or.inl rfl
  | close sched =>
    obtain ⟨-, rfl⟩ := Prod.mk.inj (Except.ok.inj h)
    exact Or.inl rfl
  | reopen flags collective info m others =>
    obtain ⟨-, rfl⟩ := Prod.mk.inj (Except.ok.inj h)
    exact Or.inl rfl

end Cases

/-- The tree of a new file. -/
def new (gcpl : P) (numProcs : Nat) (collective : Bool) : TreeFile P where
  tree := .new gcpl
  numProcs := numProcs
  collective := collective
  groups := []
  groups_objects := nofun

/-! ### Operations that trees say something about -/

/-- All ranks get what rank 0 finds. -/
def Broadcasts (f : TreeFile P) (allColl : Bool) : Prop :=
  (f.collective || allColl) = true ∧ 1 < f.numProcs

/-- A file that is open and has room for another object. -/
def Room (f : TreeFile P) : Prop := 0 < f.numProcs ∧ Few (f.tree.count + 1)

/-- The operations of a correct application: an open file and some indices left, metadata that can
be stored and broadcast, objects that are opened as what they are, and no broadcast of a group
that is reached through other groups. -/
def Specified (w : Process P) (f : TreeFile P) : PathOp P → Prop
  | .createGroup _ _ _ gcpl _ => f.Room ∧ (Object.group gcpl).Fits w
  | .createDataset _ _ _ info _ => f.Room ∧ (Object.dataset info).Fits w
  | .openGroup allColl loc path _ =>
    0 < f.numProcs ∧
      (f.Broadcasts allColl → pathGroups path.bytes = [] ∨ namesGroup path = true) ∧
      (∀ cur a, f.locObj loc = .ok cur → f.startObj cur path = .ok a →
        f.tree.Groups a (pathGroups path.bytes)) ∧
      ∀ a, f.find loc path (namesGroup path) = .ok a →
        ∃ gcpl, f.tree.objects a.1 = some (.group gcpl)
  | .openDataset _ loc path _ =>
    0 < f.numProcs ∧ ∀ a, f.find loc path false = .ok a →
      ∃ info, f.tree.objects a.1 = some (.dataset info)
  | .flush _ => 0 < f.numProcs
  | .close _ => 0 < f.numProcs
  -- to write to it
  | .reopen flags .. => f.numProcs = 0 ∧ flags &&& accRdwr ≠ 0

end TreeFile

/-! ## All files -/

/-- The trees of the files that were created. -/
abbrev Forest (P : Type) := FileName → Option (TreeFile P)

namespace Forest

/-- A call with a file that was created. -/
def call (f : Forest P) (name : FileName) (op : PathOp P) :
    Except Stop (PathReply P × Forest P) := do
  let t ← orFault (f name)
  let r ← t.step op
  return (r.1, Function.update f name (some r.2))

/-- One operation on a file. -/
def step (f : Forest P) : FileName × FileOp P → Except Stop (PathReply P × Forest P)
  | (name, .create _ collective fcpl numProcs _) =>
    .ok (.done, Function.update f name (some (.new fcpl numProcs collective)))
  | (name, .call op) => f.call name op

/-- The replies to a sequence of operations, and the trees after it. -/
def run (f : Forest P) :
    List (FileName × FileOp P) → Except Stop (List (PathReply P) × Forest P)
  | [] => .ok ([], f)
  | op :: ops => do
    let r ← f.step op
    let rest ← r.2.run ops
    return (r.1 :: rest.1, rest.2)

/-- The operations of correct applications; a file is created under a new name, with a creation
list for which all ranks can open it. -/
def Specified (w : Process P) (f : Forest P) : FileName × FileOp P → Prop
  | (name, .create _ _ fcpl numProcs _) => f name = none ∧ 0 < numProcs ∧
    w.plist.encode fcpl ≠ [] ∧ (w.plist.encode fcpl).length ≤ 1008
  | (name, .call op) => ∀ t, f name = some t → t.Specified w op

/-- All operations of a sequence are, until one of them stops an application. -/
def Admits (w : Process P) (f : Forest P) : List (FileName × FileOp P) → Prop
  | [] => True
  | op :: ops => f.Specified w op ∧ ∀ r, f.step op = .ok r → Admits w r.2 ops

section Calls

variable {w : Process P} {f : Forest P} {name : FileName} {t : TreeFile P} {op : PathOp P}

/-- A call is one on the tree of its file. -/
theorem call_eq (h : f name = some t) :
    f.call name op = (t.step op).map fun r => (r.1, Function.update f name (some r.2)) := by
  unfold call
  rw [h, orFault_some, ok_bind]
  cases t.step op with
  | error e => rfl
  | ok r => rfl

theorem admits_call {ops : List (FileName × FileOp P)} (h : f name = some t)
    (hspec : t.Specified w op)
    (hnext : ∀ r, t.step op = .ok r → Admits w (Function.update f name (some r.2)) ops) :
    Admits w f ((name, .call op) :: ops) := by
  refine ⟨fun t' ht' => ?_, fun r hr => ?_⟩
  · obtain rfl := Option.some.inj (h.symm.trans ht')
    exact hspec
  · rw [show f.step (name, .call op) = f.call name op from rfl, call_eq h] at hr
    cases hstep : t.step op with
    | error e =>
      rw [hstep] at hr
      cases hr
    | ok r' =>
      rw [hstep] at hr
      obtain rfl := Except.ok.inj hr
      exact hnext r' hstep

end Calls

end Forest

end DTIO.Vol
