import DTIO.Properties.GroupOpen
import DTIO.Properties.ObjectIds
import DTIO.Vol.LinkTraversal
import DTIO.Vol.Trees

/-!
# Traversals of Stored Trees

A file whose store holds the encodings of a tree, and whose ranks have handles of its groups.
`H5VL_dtio_group_traverse` and `H5VL_dtio_link_follow` lead where the tree does, on every rank, with
one call of `H5VL_dtio_link_follow` on the stack.

## Main definitions

- `Represents`: a file has a tree
- `Stepped`: what an operation should leave

## Main results

- `groupTraverse_spec`, `linkFollow_spec`: the two functions on a stored tree
- `Represents.frame`: only the objects of the file matter
-/

namespace DTIO.Properties.TreeTraversal

open DTIO.Posix DTIO.Broadcast DTIO.CallTree DTIO.Namespace DTIO.Vol DTIO.Vol.LinkGraph
open DTIO.Properties.ObjectIds (Inv Index)

variable {P : Type}

/-! ## Functions that do what a tree says -/

/-- A function returns what is related to the result on the tree, or the same error. -/
def Agrees {α β : Type} (found : α → β → Prop) : Except Stop α → Except Stop β → Prop
  | .ok a, x => ∃ b, x = .ok b ∧ found a b
  | .error e, x => x = .error e

namespace Agrees

variable {α β γ δ : Type} {found : α → β → Prop} {found' : γ → δ → Prop} {r : Except Stop α}
  {x : Except Stop β}

theorem ok {a : α} {b : β} (h : found a b) : Agrees found (.ok a) (.ok b) := ⟨b, rfl, h⟩

theorem error (e : Stop) : Agrees found (.error e) (.error e) := rfl

/-- Both go on in the same way. -/
theorem bind {k : α → Except Stop γ} {k' : β → Except Stop δ} (h : Agrees found r x)
    (hk : ∀ a b, found a b → Agrees found' (k a) (k' b)) : Agrees found' (r >>= k) (x >>= k') := by
  cases r with
  | error e =>
    obtain rfl : x = .error e := h
    exact rfl
  | ok a =>
    obtain ⟨b, rfl, hfound⟩ := h
    exact hk a b hfound

theorem mono {found' : α → β → Prop} (h : Agrees found r x)
    (himp : ∀ a b, found a b → found' a b) : Agrees found' r x := by
  cases r with
  | error e => exact h
  | ok a =>
    obtain ⟨b, hx, hfound⟩ := h
    exact ⟨b, hx, himp a b hfound⟩

/-- Where the function succeeds, the tree says with what. -/
theorem of_ok (h : Agrees found r x) {b : β} (hx : x = .ok b) : ∃ a, r = .ok a ∧ found a b := by
  cases r with
  | error e => cases (show x = .error e from h).symm.trans hx
  | ok a =>
    obtain ⟨b', hx', hfound⟩ := h
    obtain rfl := Except.ok.inj (hx'.symm.trans hx)
    exact ⟨a, rfl, hfound⟩

end Agrees

/-! ## Trees as link graphs -/

/-- The links of a tree, all of which are hard. -/
def graph (t : ObjTree P) : Graph := fun oid name => (t.links oid name).map .hard

section Walk

variable {t : ObjTree P} {root : UInt64} {d : Nat}

/-- What a resolution ends with. -/
def answer : Except Stop t.Obj → Answer
  | .ok a => .leads a.1
  | .error .fail => .halts .fails
  | .error .fault => .halts .aborts

theorem follow_eq_none {a : t.Obj} {n : CString} :
    t.follow a n = none ↔ t.links a.1 n = none := by
  unfold ObjTree.follow
  split
  · next h => exact iff_of_true rfl h
  · next b h => exact iff_of_false (Option.some_ne_none _) (by rw [h]; exact Option.some_ne_none _)

theorem follow_eq_some {a b : t.Obj} {n : CString} :
    t.follow a n = some b ↔ t.links a.1 n = some b.1 := by
  unfold ObjTree.follow
  split
  · next h => exact iff_of_false nofun (by rw [h]; nofun)
  · next c h =>
    have hval : t.links a.1 n = some b.1 ↔ c = b.1 := by rw [h, Option.some.injEq]
    rw [hval, Option.some.injEq]
    exact ⟨congrArg Subtype.val, fun heq => Subtype.ext heq⟩

/-- A link is followed in one call. -/
theorem eval_follow (a : t.Obj) (n : CString) :
    eval (followBody connector (graph t) root) (d + 1) (a.1, n) =
      some ((t.follow a n).elim (.halts .fails) fun b => .leads b.1) := by
  simp only [eval, followBody, graph]
  cases h : t.follow a n with
  | none =>
    rw [follow_eq_none.mp h]
    rfl
  | some b =>
    rw [follow_eq_some.mp h]
    rfl

/-- The names of a path are resolved as in the tree. -/
theorem run_walk_tree (a : t.Obj) (names : List (List Byte)) :
    (walk connector (fun oid => .ret (.leads oid)) a.1 names).run
        (eval (followBody connector (graph t) root) (d + 1)) =
      some (answer (t.walk a names)) := by
  induction names generalizing a with
  | nil => rfl
  | cons name names ih =>
    unfold ObjTree.walk
    by_cases hname : name = []
    · rw [walk_halt (if_pos hname), if_pos hname]
      rfl
    · rw [walk_follow (if_neg hname), if_neg hname, Prog.run, eval_follow, Option.bind_some]
      cases t.follow a (CString.ofBuffer name) with
      | none => rfl
      | some b => exact ih b

end Walk

/-! ## Stored trees -/

/-- The name of an object of a file. -/
def keyOf (name : FileName) (oid : UInt64) : Key := stringName name.name oid.toNat

/-- A handle of a group. -/
def handleOf (f : TreeFile P) (name : FileName) (oid : UInt64) : OpenGroup P where
  binOid := oid
  oid := keyOf name oid
  gcpl :=
    match f.tree.objects oid with
    | some (.group gcpl) => some gcpl
    | _ => none

/-- A file has the tree `f`: the store holds its objects and its links, and the ranks have counted
the objects and have handles of the groups. -/
structure Represents (w : Process P) (name : FileName) (f : TreeFile P) (s : PathFile P) :
    Prop where
  name_eq : s.file.name = name
  ids : ∃ gcpl, f.tree.objects rootOid = some (.group gcpl) ∧
    (w.plist.encode gcpl).length ≤ 1008 ∧
    Inv (w.plist.encode gcpl) (decide (0 < f.numProcs)) s.file
  count : s.file.created.length = f.tree.count
  ranks : s.file.ranks.map FileHandle.myRank = List.range f.numProcs
  flags : ∃ flags, ∀ h ∈ s.file.ranks, h.flags = flags
  collective : ∀ h ∈ s.file.ranks, h.collective = f.collective
  objects : ∀ oid obj, f.tree.objects oid = some obj →
    s.file.store.objects (keyOf name oid) = some (obj.bytes w) ∧ obj.Fits w
  links : ∀ oid n, s.file.store.links (keyOf name oid) n =
    (f.tree.links oid n).elim [] fun b => linkBytes (.hard b)
  roots : s.roots = f.all (handleOf f name rootOid)
  groups : s.groups = f.groups.map fun oid => f.all (handleOf f name oid)

/-- The objects and links under other names are the same in both stores. -/
def SameElsewhere (name : FileName) (store store' : MdStore) : Prop :=
  ∀ key, (∀ oid, key ≠ keyOf name oid) →
    store'.objects key = store.objects key ∧ store'.links key = store.links key

/-- A reply as the tree says, and a file that has the new tree. -/
structure Stepped (w : Process P) (name : FileName) (s : PathFile P)
    (r : PathReply P × TreeFile P) (x : PathReply P × PathFile P) : Prop where
  reply : x.1 = r.1
  represents : Represents w name r.2 x.2
  elsewhere : SameElsewhere name s.file.store x.2.file.store

theorem keyOf_ne {name name' : FileName} (h : name ≠ name') (oid oid' : UInt64) :
    keyOf name oid ≠ keyOf name' oid' :=
  fun heq => h (FileName.ext (StoreKeys.stringName_inj heq).1)

section Stored

variable {w : Process P} {name : FileName} {f : TreeFile P} {s : PathFile P}

theorem object_bytes_ne_nil {obj : Object P} (h : obj.Fits w) : obj.bytes w ≠ [] := by
  cases obj with
  | group gcpl => exact h.1
  | dataset info =>
    apply List.ne_nil_of_length_pos
    simp only [Object.bytes, datasetRecord, List.length_append, length_encode64]
    omega

namespace Represents

variable (hf : Represents w name f s)
include hf

/-- The metadata of an object. -/
theorem object {oid : UInt64} {obj : Object P} (h : f.tree.objects oid = some obj) :
    s.file.store.objects.object (keyOf name oid) = obj.bytes w := by
  rw [Store.object, (hf.objects oid obj h).1, Option.getD_some]

theorem object_ne_nil (a : f.tree.Obj) :
    s.file.store.objects.object (keyOf name a.1) ≠ [] := by
  obtain ⟨obj, hobj⟩ := Option.ne_none_iff_exists'.mp a.2
  rw [hf.object hobj]
  exact object_bytes_ne_nil (hf.objects _ _ hobj).2

/-- Only the objects and the links of the file matter. -/
theorem congr {store : MdStore} (hkey : ∀ oid,
    store.objects (keyOf name oid) = s.file.store.objects (keyOf name oid) ∧
      store.links (keyOf name oid) = s.file.store.links (keyOf name oid)) :
    Represents w name f (s.withStore store) := by
  obtain ⟨gcpl, hroot, hfits, hinv⟩ := hf.ids
  have hname := hf.name_eq
  refine {
    name_eq := hf.name_eq
    ids := ⟨gcpl, hroot, hfits, ?_⟩
    count := hf.count
    ranks := hf.ranks
    flags := hf.flags
    collective := hf.collective
    objects := ?_
    links := ?_
    roots := hf.roots
    groups := hf.groups }
  · -- the invariant of the ids is about two objects of the file
    have hglobal : store.objects (stringName s.file.name.name 0) =
        s.file.store.objects (stringName s.file.name.name 0) := by
      rw [hname]
      exact (hkey 0).1
    have hstored : store.objects (ObjectIds.objectOf s.file.name 1 .group).oid =
        s.file.store.objects (ObjectIds.objectOf s.file.name 1 .group).oid := by
      rw [hname]
      exact (hkey rootOid).1
    exact {
      handles := hinv.handles
      leader := hinv.leader
      indexed := hinv.indexed
      root := hstored.trans hinv.root
      maxOid := hinv.maxOid.imp id hglobal.trans
      nonempty := hinv.nonempty
      open_iff := hinv.open_iff }
  · intro oid obj hobj
    obtain ⟨hbytes, hsize⟩ := hf.objects oid obj hobj
    exact ⟨(hkey oid).1.trans hbytes, hsize⟩
  · intro oid n
    exact (congrFun (hkey oid).2 n).trans (hf.links oid n)

/-- **Frame.**  What is written for other files does not concern this one. -/
theorem frame {other : FileName} (hne : name ≠ other) {store : MdStore}
    (hsame : SameElsewhere other s.file.store store) : Represents w name f (s.withStore store) :=
  hf.congr fun oid => hsame _ fun oid' => keyOf_ne hne oid oid'

end Represents

end Stored

/-! ## What a rank works on -/

/-- The object that a rank passes with a path. -/
inductive Passes (f : TreeFile P) (name : FileName) : Item P → Option f.tree.Obj → Prop
  | file : Passes f name .file (some f.tree.rootObj)
  | group (a : f.tree.Obj) : Passes f name (.group (handleOf f name a.1)) (some a)
  | other : Passes f name .other none

section Rank

variable {w : Process P} {name : FileName} {f : TreeFile P} {s : PathFile P}

/-- What a rank works on. -/
def contextOf (w : Process P) (f : TreeFile P) (name : FileName) (s : PathFile P)
    (h : FileHandle) : Context MdStore P :=
  w.context s.file.store h (handleOf f name rootOid) f.numProcs

namespace Represents

variable (hf : Represents w name f s)
include hf

theorem length_ranks : s.file.ranks.length = f.numProcs := by
  have hlen := congrArg List.length hf.ranks
  rwa [List.length_map, List.length_range] at hlen

variable {h : FileHandle} (hh : h ∈ s.file.ranks)
include hh

theorem rank_name : h.name = name := by
  obtain ⟨_, -, -, hinv⟩ := hf.ids
  rw [(hinv.handles h hh).name, hf.name_eq]

theorem myRank_lt : h.myRank < f.numProcs := by
  have hmem : h.myRank ∈ s.file.ranks.map FileHandle.myRank := List.mem_map_of_mem hh
  rw [hf.ranks] at hmem
  exact List.mem_range.mp hmem

theorem stringName_context (oid : UInt64) :
    stringName (contextOf w f name s h).file.name.name oid.toNat = keyOf name oid := by
  have hname : (contextOf w f name s h).file.name = name := hf.rank_name hh
  rw [hname]
  rfl

theorem stored_obj (a : f.tree.Obj) : Stored (contextOf w f name s h) a.1 := by
  unfold Stored
  rw [hf.stringName_context hh]
  exact hf.object_ne_nil a

theorem named_handle (a : f.tree.Obj) : Named (contextOf w f name s h) (handleOf f name a.1) where
  oid_eq := (hf.stringName_context hh a.1).symm
  stored := hf.stored_obj hh a

/-- The links of the tree are read. -/
theorem reads : Reads (contextOf w f name s h) (graph f.tree) Set.univ where
  read calls oid n _ := by
    have hlinks : s.file.store.links (keyOf name oid) (CString.ofBuffer n) =
        (f.tree.links oid (CString.ofBuffer n)).elim [] fun b => linkBytes (.hard b) :=
      hf.links oid _
    rw [hf.stringName_context hh]
    rw [linkRead_eq (show (contextOf w f name s h).omap.Exact MdStore.links from
      MdStore.omap_exact)]
    show decodeLinkVal _ _ (s.file.store.links (keyOf name oid) _) = _
    rw [hlinks]
    unfold graph
    cases f.tree.links oid (CString.ofBuffer n) with
    | none => rfl
    | some b => exact decodeLinkVal_hard _ _ b
  hard oid n target hlink := by
    obtain ⟨b, hb, hhard⟩ := Option.map_eq_some_iff.mp hlink
    obtain rfl := LinkVal.hard.inj hhard
    exact hf.stored_obj hh ⟨b, f.tree.target _ _ _ hb⟩
  root := hf.named_handle hh f.tree.rootObj

end Represents

/-! ## The two functions -/

theorem agrees_of_matches {α : Type} {t : ObjTree P} {found : UInt64 → α → Prop}
    {r : Except Stop t.Obj} {x : Except Stop α} (h : Matches found (some (answer r)) x) :
    Agrees (fun a y => found a.1 y) r x := by
  cases r with
  | ok a => exact h
  | error e =>
    cases e with
    | fail => exact h
    | fault => exact h

variable (hf : Represents w name f s) {h : FileHandle} (hh : h ∈ s.file.ranks) (d : Nat)
include hf hh

theorem follows_tree :
    Follows (contextOf w f name s h) Set.univ
      (eval (followBody connector (graph f.tree) rootOid) (d + 1))
      (linkFollow (contextOf w f name s h) (d + 1)) :=
  linkFollow_matches (hf.reads hh) (fun _ _ _ _ => trivial) (d + 1)

/-- A traversal from a file or from a group. -/
theorem groupTraverse_begins {item : Item P} {a : f.tree.Obj}
    (hitem : Begins (contextOf w f name s h) item a.1) (path : CString) {out : GcplOut}
    (hout : out ≠ some .freed) (calls : Nat) :
    Agrees (fun b t => Traverses (contextOf w f name s h) path.bytes b.1 t)
      (f.locate (some a) path)
      (groupTraverse (contextOf w f name s h) (linkFollow (contextOf w f name s h) (d + 1)) item
        path.bytes out calls) := by
  have hmatches := groupTraverse_matches (hf.reads hh) (follows_tree hf hh d) hitem path.bytes hout
    calls fun _ _ => trivial
  -- both start at the root for a leading slash, else at the item
  obtain ⟨b, hb, hstart⟩ : ∃ b, f.startObj (some a) path = .ok b ∧
      pathStart rootOid a.1 path.bytes = b.1 := by
    unfold TreeFile.startObj pathStart
    by_cases hslash : path.bytes.head? = some slash
    · exact ⟨_, if_pos hslash, if_pos hslash⟩
    · exact ⟨a, if_neg hslash, if_neg hslash⟩
  -- from there the tree walks the same components
  have hlocate : f.locate (some a) path = f.tree.walk b (pathGroups path.bytes) := by
    unfold TreeFile.locate
    rw [hb]
    rfl
  have hroot : (contextOf w f name s h).file.rootGrp.binOid = rootOid := rfl
  rw [hroot, resolveGroup, hstart, run_walk_tree] at hmatches
  rw [hlocate]
  exact agrees_of_matches hmatches

/-- **Traversals.**  `H5VL_dtio_group_traverse` leads where all but the last name of a path lead in
the tree. -/
theorem groupTraverse_spec {item : Item P} {cur : Option f.tree.Obj}
    (hitem : Passes f name item cur) (path : CString) {out : GcplOut} (hout : out ≠ some .freed)
    (calls : Nat) :
    Agrees (fun b t => Traverses (contextOf w f name s h) path.bytes b.1 t)
      (f.locate cur path)
      (groupTraverse (contextOf w f name s h) (linkFollow (contextOf w f name s h) (d + 1)) item
        path.bytes out calls) := by
  have hfile : Begins (contextOf w f name s h) .file f.tree.rootObj.1 := .file
  cases hitem with
  | file => exact groupTraverse_begins hf hh d hfile path hout calls
  | group a =>
    have hgroup : Begins (contextOf w f name s h) (.group (handleOf f name a.1)) a.1 :=
      .group (hf.named_handle hh a)
    exact groupTraverse_begins hf hh d hgroup path hout calls
  | other =>
    by_cases hslash : path.bytes.head? = some slash
    · -- as from the file
      have hstart : f.locate none path = f.locate (some f.tree.rootObj) path := by
        unfold TreeFile.locate TreeFile.startObj
        rw [if_pos hslash, if_pos hslash]
      have hsame : ∀ follow, groupTraverse (contextOf w f name s h) follow .other path.bytes out
          calls = groupTraverse (contextOf w f name s h) follow .file path.bytes out calls := by
        intro follow
        unfold groupTraverse startGroup
        rw [if_pos hslash, if_pos hslash]
      rw [hstart, hsame]
      exact groupTraverse_begins hf hh d hfile path hout calls
    · have hstart : f.locate none path = .error .fail := by
        unfold TreeFile.locate TreeFile.startObj
        rw [if_neg hslash]
        rfl
      rw [hstart]
      unfold groupTraverse startGroup
      rw [if_neg hslash]
      exact Agrees.error _

/-- **Links.**  `H5VL_dtio_link_follow` follows the links of the tree. -/
theorem linkFollow_spec {grp : OpenGroup P} (hgrp : Named (contextOf w f name s h) grp)
    {a : f.tree.Obj} (ha : grp.binOid = a.1) (n : List Byte) (calls : Nat) :
    Agrees (fun b target => target.1 = b.1) (f.tree.linked a (CString.ofBuffer n))
      (linkFollow (contextOf w f name s h) (d + 1) grp n calls) := by
  have hfollows := follows_tree hf hh d grp n calls hgrp trivial
  rw [ha, eval_follow] at hfollows
  unfold ObjTree.linked
  cases hlink : f.tree.follow a (CString.ofBuffer n) with
  | none =>
    rw [hlink] at hfollows
    exact hfollows
  | some b =>
    rw [hlink] at hfollows
    obtain ⟨target, htarget, hto, -⟩ := hfollows
    exact ⟨target, htarget, hto⟩

end Rank

/-! ## Readers that see more -/

/-- A rank reads the tree of a file; whatever the tree does not have, it may find or not. -/
structure Contains (w : Process P) (name : FileName) (f : TreeFile P) (c : Context MdStore P) :
    Prop where
  plist : c.plist = w.plist
  omap : c.omap = MdStore.omap
  name_eq : c.file.name = name
  root : c.file.rootGrp = handleOf f name rootOid
  objects : ∀ oid obj, f.tree.objects oid = some obj →
    c.objects.object (keyOf name oid) = obj.bytes w ∧ obj.Fits w
  links : ∀ a n b, f.tree.links a n = some b →
    c.state.links (keyOf name a) n = linkBytes (.hard b)

theorem Represents.contains {w : Process P} {name : FileName} {f : TreeFile P} {s : PathFile P}
    (hf : Represents w name f s) {h : FileHandle} (hh : h ∈ s.file.ranks) :
    Contains w name f (contextOf w f name s h) where
  plist := rfl
  omap := rfl
  name_eq := hf.rank_name hh
  root := rfl
  objects _ _ hobj := ⟨hf.object hobj, (hf.objects _ _ hobj).2⟩
  links a n b hlink := by
    have hstored : s.file.store.links (keyOf name a) n = _ := hf.links a n
    rw [hlink] at hstored
    exact hstored

namespace Contains

variable {w : Process P} {name : FileName} {f : TreeFile P} {c : Context MdStore P}
  (hc : Contains w name f c)
include hc

theorem stringName_eq (oid : UInt64) :
    stringName c.file.name.name oid.toNat = keyOf name oid := by
  rw [hc.name_eq]
  rfl

/-- A link of the tree is followed. -/
theorem linkFollow_ok {grp : OpenGroup P} {a b : f.tree.Obj} (hgrp : grp.oid = keyOf name a.1)
    {n : List Byte} (hlink : f.tree.follow a (CString.ofBuffer n) = some b) (d calls : Nat) :
    linkFollow c (d + 1) grp n calls = .ok (b.1, calls + 1) := by
  have hexact : c.omap.Exact MdStore.links := by
    rw [hc.omap]
    exact MdStore.omap_exact
  have hstored := hc.links _ _ _ (follow_eq_some.mp hlink)
  rw [linkFollow, linkRead_eq hexact]
  simp only [hgrp, hstored, decodeLinkVal_hard, ok_bind]
  rfl

/-- An object of the tree is opened, also one that is no group. -/
theorem openHelper_ok (b : f.tree.Obj) :
    ∃ grp, openHelper c b.1 none = .ok (grp, none) ∧ grp.oid = keyOf name b.1 := by
  obtain ⟨obj, hobj⟩ := Option.ne_none_iff_exists'.mp b.2
  obtain ⟨hbytes, hfits⟩ := hc.objects _ _ hobj
  have hne : ¬ obj.bytes w = [] := object_bytes_ne_nil hfits
  refine ⟨⟨b.1, keyOf name b.1, c.plist.decode (obj.bytes w)⟩, ?_, rfl⟩
  simp only [openHelper, hc.stringName_eq, hbytes, if_neg hne, handOver, Except.map]

/-- By induction on the names. -/
theorem traverse_ok {names : List (List Byte)} {a b : f.tree.Obj}
    (hwalk : f.tree.walk a names = .ok b) {grp : OpenGroup P} (hgrp : grp.oid = keyOf name a.1)
    (d calls : Nat) :
    ∃ t, names.foldlM (traverseStep c (linkFollow c (d + 1))) ⟨grp, none, calls⟩ = .ok t ∧
      t.grp.oid = keyOf name b.1 := by
  induction names generalizing a grp calls with
  | nil =>
    obtain rfl := Except.ok.inj hwalk
    exact ⟨_, rfl, hgrp⟩
  | cons n names ih =>
    obtain ⟨hn, next, hlink, hrest⟩ := ObjTree.walk_cons_ok hwalk
    -- the link is followed and the group behind it opened
    obtain ⟨opened, hopen, hoid⟩ := hc.openHelper_ok next
    have hstep : traverseStep c (linkFollow c (d + 1)) ⟨grp, none, calls⟩ n =
        .ok ⟨opened, none, calls + 1⟩ := by
      simp only [traverseStep, freeOut, assertName, if_neg hn, ok_bind,
        hc.linkFollow_ok hgrp hlink, hopen]
    rw [List.foldlM_cons, hstep, ok_bind]
    exact ih hrest hoid (calls + 1)

/-- The object that a path begins at. -/
theorem startGroup_eq {item : Item P} {cur : Option f.tree.Obj} (hitem : Passes f name item cur)
    {path : CString} {a : f.tree.Obj} (hstart : f.startObj cur path = .ok a) :
    startGroup c item path.bytes = .ok (handleOf f name a.1) := by
  unfold TreeFile.startObj at hstart
  unfold startGroup
  by_cases hslash : path.bytes.head? = some slash
  · rw [if_pos hslash] at hstart ⊢
    obtain rfl := Except.ok.inj hstart
    exact congrArg Except.ok hc.root
  · rw [if_neg hslash] at hstart ⊢
    cases hitem with
    | file =>
      obtain rfl := Except.ok.inj hstart
      exact congrArg Except.ok hc.root
    | group a =>
      obtain rfl := Except.ok.inj hstart
      rfl
    | other => cases hstart

/-- **Traversals.**  A path that leads somewhere in the tree leads there, whatever else the rank
reads. -/
theorem groupTraverse_ok {item : Item P} {cur : Option f.tree.Obj}
    (hitem : Passes f name item cur) {path : CString} {b : f.tree.Obj}
    (hlocate : f.locate cur path = .ok b) (d calls : Nat) :
    ∃ t, groupTraverse c (linkFollow c (d + 1)) item path.bytes none calls = .ok t ∧
      t.grp.oid = keyOf name b.1 ∧ t.name = pathLast path.bytes := by
  obtain ⟨a, hstart, hwalk⟩ := bind_eq_ok.mp hlocate
  have hgrp : (handleOf f name a.1).oid = keyOf name a.1 := rfl
  obtain ⟨t, ht, hoid⟩ := hc.traverse_ok hwalk hgrp d calls
  refine ⟨⟨t, pathLast path.bytes⟩, ?_, hoid, rfl⟩
  rw [pathGroups_eq] at ht
  simp only [groupTraverse, hc.startGroup_eq hitem hstart, ok_bind, ht, pathLast_eq]

end Contains

end DTIO.Properties.TreeTraversal
