import DTIO.Properties.DatasetReads
import DTIO.Properties.TreeRefinement

/-!
# One Store for Metadata and Elements

The objects of the metadata and of the chunks are in one store, under names that are put together
from the name of the file, an id and coordinates.  Calls on files, writes and reads of any number of
datasets follow each other in any order; a file sees its tree, a dataset its array, and neither sees
the other.

## Main definitions

- `Event`, `step`, `run`: calls on a store
- `Contents`: trees and arrays, and the replies that they permit

## Main results

- `objectName_ne`: datasets have objects of their own
- `step_spec`, `run_spec`: calls do what they do to trees and arrays
- `shared_store`: from a store without links on
-/

namespace DTIO.Properties.SharedStore

open DTIO.Posix DTIO.Grid DTIO.Assignment DTIO.Vol
open DTIO.Properties.ChunkedStorage DTIO.Properties.DatasetReads
open DTIO.Properties.TreeTraversal DTIO.Properties.TreeRefinement

/-! ## Datasets with objects of their own -/

/-- Datasets of which no two have the same file and the same id. -/
structure Datasets (ι : Type) where
  dataset : ι → ArrayDataset
  distinct : ∀ i j, i ≠ j → (dataset i).fileName ≠ (dataset j).fileName ∨
    (dataset i).binOid ≠ (dataset j).binOid

/-- The rank at the beginning of a name gives the width of what follows the file. -/
theorem objectName_ne {d d' : ArrayDataset}
    (hne : d.fileName ≠ d'.fileName ∨ d.binOid ≠ d'.binOid) {start start' : Coord}
    (hs : d.extent.length ≤ start.length) (hs' : d'.extent.length ≤ start'.length) :
    objectName d.toDataset start ≠ objectName d'.toDataset start' := by
  intro h
  obtain ⟨hdigits, hrest⟩ := List.append_inj h (by simp [decimal2])
  have hrank : d.extent.length = d'.extent.length :=
    StoreKeys.decimal2_inj (d.rank_le.trans (by decide)) (d'.rank_le.trans (by decide)) hdigits
  obtain ⟨hfile, hrest⟩ := List.append_inj' hrest
    (by simp [List.length_flatMap, hrank, hs', hrank ▸ hs])
  obtain ⟨hoid, -⟩ := List.append_inj hrest (by simp)
  exact hne.elim (fun h => h hfile) fun h => h (hex_inj d.binOid_lt d'.binOid_lt hoid)

/-- What another dataset has in the store. -/
theorem location_frame {d : ArrayDataset} {σ σ' : Store}
    (hsame : ∀ start, start.length = d.extent.length →
      σ' (objectName d.toDataset start) = σ (objectName d.toDataset start))
    {y : Coord} (hy : Inside y d.extent) (j : Nat) :
    byteOf σ' (location d.toDataset y j) = byteOf σ (location d.toDataset y j) ∧
      (Present σ' (location d.toDataset y j) ↔ Present σ (location d.toDataset y j)) := by
  have hobject := hsame _ (chunkStart_spec d hy).1
  unfold byteOf Present location Store.object
  rw [hobject]
  exact ⟨rfl, Iff.rfl⟩

/-! ## Calls on a store -/

section Calls

variable {P ι : Type}

/-- A call on a file, or a write or a read of a dataset by some process. -/
inductive Event (P : Type) (ds : Datasets ι) where
  | file (name : FileName) (op : FileOp P)
  | write (env : Env) (i : ι) (a : ArrayWrite (ds.dataset i))
  | read (env : Env) (i : ι) (r : ArrayRead (ds.dataset i)) (target : ReadTarget)

inductive Reply (P : Type) where
  | file (reply : PathReply P)
  | written
  | elements (target : ReadTarget)

variable {ds : Datasets ι}

/-- The volume with other objects. -/
def withObjects (v : Volume P) (σ : Store) : Volume P :=
  { v with store := { v.store with objects := σ } }

/-- One call. -/
def step (w : Process P) (v : Volume P) : Event P ds → Except Stop (Reply P × Volume P)
  | .file name op => (v.step w (name, op)).map fun r => (.file r.1, r.2)
  | .write env _ a => (a.run env v.store.objects).map fun σ => (.written, withObjects v σ)
  | .read env _ r target => (r.run env v.store.objects target).map fun t => (.elements t, v)

/-- The replies to a sequence of calls, and the volume after it. -/
def run (w : Process P) (v : Volume P) :
    List (Event P ds) → Except Stop (List (Reply P) × Volume P)
  | [] => .ok ([], v)
  | e :: es => do
    let r ← step w v e
    let rest ← run w r.2 es
    return (r.1 :: rest.1, rest.2)

/-- The calls on files. -/
def fileOps : List (Event P ds) → List (FileName × FileOp P)
  | [] => []
  | .file name op :: es => (name, op) :: fileOps es
  | .write .. :: es => fileOps es
  | .read .. :: es => fileOps es

/-- The array of a read reaches as far as its selection. -/
def Event.Room : Event P ds → Prop
  | .file .. => True
  | .write .. => True
  | .read _ _ r target => r.Room target

/-- A call of a correct application. -/
def Event.Specified (w : Process P) (forest : Forest P) : Event P ds → Prop
  | .file name op => forest.Specified w (name, op)
  | .write .. => True
  | .read _ _ r target => r.Room target

end Calls

/-! ## Trees and arrays -/

section Contents

variable {P ι : Type} [DecidableEq ι] {ds : Datasets ι} {d : ArrayDataset}

/-- An array of elements, as far as they were written. -/
abbrev Values := Coord → Option (List Byte)

/-- The elements of a write, over those that were there. -/
def overlay (a : ArrayWrite d) (values : Values) : Values :=
  a.pairs.foldl (fun values x => Function.update values x.1 (some (a.element x.2))) values

/-- What a read leaves of its array and of the other buffers, by the elements that were written. -/
structure Delivers (r : ArrayRead d) (values : Values) (t t' : ReadTarget) : Prop where
  buffers : t'.buffers = t.buffers
  length : t'.array.length = t.array.length
  elements : ∀ x ∈ r.pairs, r.Once x → ∀ val, values x.1 = some val → r.element t' x.2 = val
  others : ∀ k, (∀ m ∈ r.mem.points, ∀ j < d.type.size, k ≠ r.position m j) →
    t'.array.getD k 0 = t.array.getD k 0

/-- The trees of the files, and the arrays of the datasets. -/
structure Contents (P ι : Type) where
  forest : Forest P
  arrays : ι → Values

namespace Contents

/-- One call: the replies that are permitted, and the contents after it. -/
def step (c : Contents P ι) :
    Event P ds → Except Stop ((Reply P → Prop) × Contents P ι)
  | .file name op => (c.forest.step (name, op)).map fun r =>
      ((fun x => x = .file r.1), { c with forest := r.2 })
  | .write _ i a => .ok ((fun x => x = .written),
      { c with arrays := Function.update c.arrays i (overlay a (c.arrays i)) })
  | .read _ i r t => .ok ((fun x => ∃ t', x = .elements t' ∧ Delivers r (c.arrays i) t t'), c)

/-- The replies that a sequence of calls permits, and the contents after it. -/
def run (c : Contents P ι) :
    List (Event P ds) → Except Stop (List (Reply P → Prop) × Contents P ι)
  | [] => .ok ([], c)
  | e :: es => do
    let r ← c.step e
    let rest ← r.2.run es
    return (r.1 :: rest.1, rest.2)

/-- Nothing was created or written. -/
def empty : Contents P ι := ⟨fun _ => none, fun _ _ => none⟩

end Contents

/-- A dataset has the elements of an array. -/
def Shows (d : ArrayDataset) (values : Values) (σ : Store) : Prop :=
  ∀ y val, values y = some val → Inside y d.extent ∧ storedValue d.toDataset σ y = val ∧
    ∀ j < d.type.size, Present σ (location d.toDataset y j)

variable (ds) in
/-- A volume has the trees and the arrays. -/
structure Has (w : Process P) (c : Contents P ι) (v : Volume P) : Prop where
  files : Holds w c.forest v
  datasets : ∀ i, Shows (ds.dataset i) (c.arrays i) v.store.objects

end Contents

/-! ## One call -/

section Shows

variable {d : ArrayDataset} {values : Values} {σ σ' : Store} {env : Env}

/-- What concerns other objects leaves an array. -/
theorem Shows.frame (h : Shows d values σ)
    (hsame : ∀ start, start.length = d.extent.length →
      σ' (objectName d.toDataset start) = σ (objectName d.toDataset start)) :
    Shows d values σ' := by
  intro y val hval
  obtain ⟨hinside, hstored, hpresent⟩ := h y val hval
  refine ⟨hinside, ?_, fun j hj => (location_frame hsame hinside j).2.mpr (hpresent j hj)⟩
  rw [← hstored]
  exact List.map_congr_left fun j _ => (location_frame hsame hinside j).1

/-- An element after a write. -/
theorem overlay_eq_some {a : ArrayWrite d} {y : Coord} {val : List Byte}
    (h : overlay a values y = some val) :
    (y ∈ a.file.points ∧ ∀ b, a.flatWrite b y = val) ∨
      values y = some val ∧ ∀ b, a.flatWrite b y = b y := by
  -- the values of the overlay are assigned in the order of the selection
  have hassigned : overlay a values y =
      assigned ((a.pairs.map fun x => (x.1, a.element x.2)).map fun x => (x.1, some x.2)) y
        (values y) := by
    rw [← foldl_update, List.foldl_map, List.foldl_map]
    rfl
  rw [hassigned] at h
  -- a selected element has its last value, whatever was there before
  by_cases hy : y ∈ a.file.points
  · rw [← map_fst_pairs] at hy
    obtain ⟨x, hx, rfl⟩ := List.mem_map.mp hy
    refine Or.inl ⟨by rwa [map_fst_pairs] at hy, fun b => ?_⟩
    rw [assigned_of_mem ⟨_, List.mem_map_of_mem (List.mem_map_of_mem hx), rfl⟩ _ (some (b x.1)),
      assigned_map_values] at h
    rw [flatWrite_eq]
    exact Option.some.inj h
  -- no pair is for another element, and so nothing is assigned to it
  · have hother : ∀ x ∈ a.pairs, x.1 ≠ y := fun x hx heq =>
      hy (map_fst_pairs a ▸ heq ▸ List.mem_map_of_mem hx)
    refine Or.inr ⟨?_, fun b => ?_⟩
    · rwa [assigned_of_ne] at h
      simp only [List.mem_map]
      rintro _ ⟨_, ⟨x, hx, rfl⟩, rfl⟩
      exact hother x hx
    · rw [flatWrite_eq, assigned_of_ne]
      simp only [List.mem_map]
      rintro _ ⟨x, hx, rfl⟩
      exact hother x hx

/-- A write of the dataset. -/
theorem Shows.write (h : Shows d values σ) {a : ArrayWrite d} (hrun : a.run env σ = .ok σ') :
    Shows d (overlay a values) σ' := by
  obtain ⟨σ₁, hrun₁, hvalue, -⟩ := ChunkedStorage.run_spec a env σ
  obtain rfl := Except.ok.inj (hrun₁.symm.trans hrun)
  obtain ⟨hkeeps, hpresent⟩ := run_present a hrun
  intro y val hval
  rcases overlay_eq_some hval with ⟨hy, hflat⟩ | ⟨hold, hflat⟩
  · have hinside := point_inside a hy
    refine ⟨hinside, (hvalue y hinside).trans (hflat _), ?_⟩
    rw [← map_fst_pairs] at hy
    obtain ⟨x, hx, rfl⟩ := List.mem_map.mp hy
    exact hpresent x hx
  · obtain ⟨hinside, hstored, hthere⟩ := h y val hold
    refine ⟨hinside, ?_, fun j hj => hkeeps _ (hthere j hj)⟩
    rw [hvalue y hinside, hflat, hstored]

/-- A read of the dataset. -/
theorem Shows.read (h : Shows d values σ) {r : ArrayRead d} {t : ReadTarget} (hroom : r.Room t) :
    ∃ t', r.run env σ t = .ok t' ∧ Delivers r values t t' := by
  obtain ⟨t', hread, hbuffers, hlen, hreceived, hother⟩ := r.run_spec env σ hroom
  refine ⟨t', hread, hbuffers, hlen, fun x hx honce val hval => ?_, hother⟩
  obtain ⟨-, hstored, hpresent⟩ := h x.1 val hval
  rw [element_eq r (hreceived x hx honce) hpresent, hstored]

end Shows

section Step

variable {P : Type} {w : Process P} {v : Volume P}

/-- Objects of chunks do not concern the files. -/
theorem holds_withObjects {forest : Forest P} (h : Holds w forest v) {σ : Store}
    (hsame : ∀ name oid, σ (keyOf name oid) = v.store.objects (keyOf name oid)) :
    Holds w forest (withObjects v σ) where
  file name t ht := by
    obtain ⟨s, hs, hrep⟩ := h.file name t ht
    exact ⟨s, hs, hrep.congr fun oid => ⟨hsame name oid, rfl⟩⟩
  fresh := h.fresh

variable {ι : Type} {ds : Datasets ι}

variable (ds w) in
/-- Nothing was created or written yet. -/
theorem has_empty {store : MdStore} (hlinks : ∀ key n, store.links key n = []) :
    Has ds w Contents.empty ⟨store, fun _ => none⟩ where
  files := holds_empty hlinks
  datasets _ := nofun

variable (ds) in
/-- A reply that is permitted, and a volume that has the new contents. -/
def Simulated (w : Process P) (r : (Reply P → Prop) × Contents P ι) (x : Reply P × Volume P) :
    Prop := r.1 x.1 ∧ Has ds w r.2 x.2

variable [DecidableEq ι] {c : Contents P ι}

/-- A write leaves the files and the other datasets. -/
theorem has_write (h : Has ds w c v) {env : Env} {i : ι} {a : ArrayWrite (ds.dataset i)} {σ : Store}
    (hrun : a.run env v.store.objects = .ok σ) :
    Has ds w { c with arrays := Function.update c.arrays i (overlay a (c.arrays i)) }
      (withObjects v σ) where
  files := holds_withObjects h.files fun name oid => run_frame a hrun fun start _ =>
    (chunkName_ne_stringName _ _ _ _ _ _).symm
  datasets j := by
    by_cases hij : j = i
    · subst hij
      simp only [Function.update_self]
      exact (h.datasets j).write hrun
    · simp only [Function.update_of_ne hij]
      refine (h.datasets j).frame fun start hstart => ?_
      exact run_frame a hrun fun start' hstart' =>
        objectName_ne (ds.distinct j i hij) hstart.ge hstart'

/-- **One call** does what it does to the trees and the arrays. -/
theorem step_spec (hdepth : 0 < w.depth) (h : Has ds w c v) {e : Event P ds}
    (hspec : e.Specified w c.forest) :
    Agrees (Simulated ds w) (c.step e) (step w v e) := by
  -- calls concern the trees, writes and reads of datasets what is in the chunks
  cases e with
  | file name op =>
    have hstep := volume_step_local hdepth h.files (show c.forest.Specified w (name, op) from hspec)
    simp only [Contents.step, step]
    cases hforest : c.forest.step (name, op) with
    | error e =>
      rw [hforest] at hstep
      rw [show v.step w (name, op) = .error e from hstep]
      exact Agrees.error _
    | ok r =>
      rw [hforest] at hstep
      obtain ⟨x, hx, ⟨hreply, hholds⟩, hlocal⟩ := hstep
      rw [hx]
      refine Agrees.ok ⟨congrArg Reply.file hreply, hholds, fun i => ?_⟩
      -- the names of chunks are no names of objects, so what is in the chunks stays
      exact (h.datasets i).frame fun start _ =>
        (hlocal _ fun oid => chunkName_ne_stringName _ _ _ _ _ _).1
  | write env i a =>
    obtain ⟨σ, hrun, -⟩ := ChunkedStorage.run_spec a env v.store.objects
    simp only [Contents.step, step]
    rw [hrun]
    exact Agrees.ok ⟨rfl, has_write h hrun⟩
  | read env i r target =>
    obtain ⟨t', hrun, hdelivers⟩ := @Shows.read _ _ _ env (h.datasets i) r target hspec
    simp only [Contents.step, step]
    rw [hrun]
    exact Agrees.ok ⟨⟨t', rfl, hdelivers⟩, h⟩

/-! ## Runs -/

/-- What the calls on files do to the trees does not depend on the other calls. -/
theorem admits_step {e : Event P ds} {es : List (Event P ds)}
    (h : c.forest.Admits w (fileOps (e :: es))) (hroom : e.Room) :
    e.Specified w c.forest ∧ ∀ r, c.step e = .ok r → r.2.forest.Admits w (fileOps es) := by
  cases e with
  | file name op =>
    refine ⟨h.1, fun r hr => ?_⟩
    obtain ⟨r', hforest, rfl⟩ := map_eq_ok.mp hr
    exact h.2 r' hforest
  | write env i a =>
    refine ⟨trivial, fun r hr => ?_⟩
    cases hr
    exact h
  | read env i r target =>
    refine ⟨hroom, fun r hr => ?_⟩
    cases hr
    exact h

variable (ds) in
/-- Replies that are permitted, and a volume that has the new contents. -/
def SimulatedAll (w : Process P) (r : List (Reply P → Prop) × Contents P ι)
    (x : List (Reply P) × Volume P) : Prop :=
  List.Forall₂ (fun ok reply => ok reply) r.1 x.1 ∧ Has ds w r.2 x.2

/-- **Runs.**  By induction on the calls, up to the first one that stops the application. -/
theorem run_spec (hdepth : 0 < w.depth) {es : List (Event P ds)} :
    ∀ {c : Contents P ι} {v : Volume P}, Has ds w c v → c.forest.Admits w (fileOps es) →
      (∀ e ∈ es, e.Room) → Agrees (SimulatedAll ds w) (c.run es) (run w v es) := by
  induction es with
  | nil => exact fun h _ _ => Agrees.ok ⟨.nil, h⟩
  | cons e es ih =>
    intro c v h hadmits hroom
    obtain ⟨hspec, hnext⟩ := admits_step hadmits (hroom e List.mem_cons_self)
    have hstep := step_spec hdepth h hspec
    unfold Contents.run run
    cases hr : c.step e with
    -- both stop with the same error
    | error e =>
      rw [hr] at hstep
      rw [show step w v _ = .error e from hstep]
      exact Agrees.error _
    | ok r =>
      rw [hr] at hstep
      -- the step is simulated, and the rest by induction
      obtain ⟨x, hx, hreply, hhas⟩ := hstep
      rw [hx]
      refine (ih hhas (hnext r hr) fun e he => hroom e (List.mem_cons_of_mem _ he)).bind
        fun rest rest' hrest => ?_
      exact Agrees.ok ⟨.cons hreply hrest.1, hrest.2⟩

end Step

/-- **One store.**  Calls on any number of files that trees specify, and writes and reads of any
number of datasets without conversion and with selections of one rank and shape, follow each other
in any order in a store without links.  The replies to the calls on files are those of the trees, as
if there were no datasets; every write succeeds; every read gets, for each element that was written
before and has a place in memory to itself, what the last write of it wrote, wherever the files and
the other datasets have their objects, and leaves what is not selected in memory. -/
theorem shared_store {P ι : Type} [DecidableEq ι] {ds : Datasets ι} {w : Process P}
    (hdepth : 0 < w.depth) {store : MdStore} (hlinks : ∀ key n, store.links key n = [])
    {es : List (Event P ds)} (hadmits : Forest.Admits w (fun _ => none) (fileOps es))
    (hroom : ∀ e ∈ es, e.Room) :
    Agrees (List.Forall₂ fun ok reply => ok reply) ((Contents.empty.run es).map Prod.fst)
      ((run w ⟨store, fun _ => none⟩ es).map Prod.fst) := by
  have hrun := run_spec hdepth (has_empty w ds hlinks) hadmits hroom
  cases hr : Contents.empty.run es with
  | error e =>
    rw [hr] at hrun
    rw [show run w ⟨store, fun _ => none⟩ es = .error e from hrun]
    exact Agrees.error _
  | ok r =>
    rw [hr] at hrun
    obtain ⟨x, hx, hreplies, -⟩ := hrun
    rw [hx]
    exact Agrees.ok hreplies

/-! ## Two datasets beside a small volume -/

/-- Another dataset of the same file. -/
def twin : ArrayDataset := { nine with binOid := 6, binOid_lt := of_decide_eq_true rfl }

/-- The two datasets. -/
def both : Datasets Bool where
  dataset i := if i then twin else nine
  distinct := by
    intro i j hij
    cases i with
    | true =>
      cases j with
      | true => exact absurd rfl hij
      | false => exact Or.inr (by decide)
    | false =>
      cases j with
      | true => exact Or.inr (by decide)
      | false => exact absurd rfl hij

/-- All elements of the other dataset. -/
def twinWrite : ArrayWrite twin where
  fileSpace := none
  memSpace := none
  buf := fun _ => 7
  file_valid := Dataspace.valid_all nine.count
  file_extent := rfl
  mem_valid := Dataspace.valid_all nine.count
  mem_rank := rfl
  same_shape := of_decide_eq_true rfl
  bytes_lt := of_decide_eq_true rfl

/-- Between the calls on the file, both datasets are written and one is read. -/
def demoEvents : List (Event Byte both) :=
  demoOps.flatMap fun x => [.file x.1 x.2, .write plain false wholeWrite,
    .write plain true twinWrite, .read plain false rowRead ⟨List.replicate 16 9, []⟩]

theorem shared_store_demo :
    Agrees (List.Forall₂ fun ok reply => ok reply) ((Contents.empty.run demoEvents).map Prod.fst)
      ((run demo ⟨ObjectIds.emptyStore, fun _ => none⟩ demoEvents).map Prod.fst) := by
  refine shared_store (by decide) (fun _ _ => rfl) admits_demo fun e he => ?_
  obtain ⟨x, -, he⟩ := List.mem_flatMap.mp he
  simp only [List.mem_cons, List.not_mem_nil, or_false] at he
  rcases he with rfl | rfl | rfl | rfl
  · exact trivial
  · exact trivial
  · exact trivial
  · show ∀ m ∈ rowRead.mem.points, _
    decide

end DTIO.Properties.SharedStore
