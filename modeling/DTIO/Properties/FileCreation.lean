import DTIO.Properties.ChunkedStorage
import DTIO.Properties.ObjectIds
import DTIO.Vol.Sessions

/-!
# Creating over an Existing File

`H5VL_dtio_file_create` adjusts the flags and does not look at them again: it neither asks whether
the file exists nor removes anything.  A new file has the ids of the old one, so that links and
chunks of the old one are found by objects of the new one.

That nothing of the old file is returned is a statement about two runs: the replies to any
sequence of calls are those of the same calls on a store that was empty.

## Main definitions

- `Held`, `Fresh`: what a store has of a file
- `Refuses`, `StartsEmpty`: what the flags ask for
- `Same`: two sessions that differ in what no call finds

## Main results

- `Same.call`: a call replies the same in both sessions, and keeps them so
- `file_creation`: when the function does what the flags ask for
-/

namespace DTIO.Properties.FileCreation

open DTIO.Posix DTIO.Memory DTIO.Vol DTIO.Grid DTIO.Properties.ObjectIds
open DTIO.Properties.StoreKeys (stringName_inj)
open Session (Call Reply)

/-! ## What the flags ask for -/

/-- The name of the metadata of a group. -/
def groupKey (name : FileName) (idx : UInt64) : Key := (oidCreate name idx .group).oid

/-- The name of a chunk of a dataset. -/
def chunkKey (name : FileName) (idx : UInt64) (rank : Nat) (coords : Coord) : Key :=
  chunkName name.name (oidCreateBinary idx .dataset).toNat rank coords

/-- The store has the global metadata of the file, or its root group. -/
def Held (store : MdStore) (name : FileName) : Prop :=
  store.objects (stringName name.name 0) ≠ none ∨ store.objects (groupKey name 1) ≠ none

/-- The store has no hard or soft link in any group of the file, and no bytes of any chunk. -/
structure Fresh (store : MdStore) (name : FileName) : Prop where
  links : ∀ idx n, ∀ type ∈ (store.links (groupKey name idx) n).head?, type ≠ 0 ∧ type ≠ 1
  chunks : ∀ idx rank coords, rank ≤ maxRank →
    store.objects.object (chunkKey name idx rank coords) = []

/-- With the exclusive flag, an existing file is not created: the call fails, and leaves the store
as it is. -/
def Refuses (c : CreateCall) (store : MdStore) : Prop :=
  c.Exclusive → Held store c.name → ∃ why, c.run store = .error why

/-- With the truncating flag, nothing of what the store had is found afterwards. -/
def StartsEmpty (c : CreateCall) (store : MdStore) : Prop :=
  c.Truncating → ∀ s, c.run store = .ok s →
    ∃ s₀, c.run emptyStore = .ok s₀ ∧ ∀ calls, s.replies calls = s₀.replies calls

/-! ## Stores that no call tells apart -/

/-- Every link of a group of the file is decoded alike, and every chunk has the same bytes. -/
structure Alike (name : FileName) (s t : MdStore) : Prop where
  links : ∀ idx n heap behind,
    decodeLinkVal heap behind (s.links (groupKey name idx) n) =
      decodeLinkVal heap behind (t.links (groupKey name idx) n)
  chunks : ∀ idx rank coords, rank ≤ maxRank →
    s.objects.object (chunkKey name idx rank coords) =
      t.objects.object (chunkKey name idx rank coords)

section Alike

variable {name : FileName} {s t : MdStore}

/-- The same write is done on both. -/
theorem Alike.apply (h : Alike name s t) (w : MdWrite) : Alike name (s.apply w) (t.apply w) := by
  cases w with
  | full oid data =>
    -- another chunk is as it was, and this one has the same bytes now
    refine ⟨h.links, fun idx rank coords hrank => ?_⟩
    have hsame := h.chunks idx rank coords hrank
    simp only [MdStore.apply, Store.object, Function.update_apply] at hsame ⊢
    split
    · rfl
    · exact hsame
  | link oid n val =>
    -- a link of another group or name is as it was, and this one has the same value now
    refine ⟨fun idx n' heap behind => ?_, h.chunks⟩
    have hsame := h.links idx n' heap behind
    simp only [MdStore.apply, Function.update_apply]
    split
    next hoid =>
      subst hoid
      simp only [Function.update_apply]
      split
      · rfl
      · exact hsame
    next => exact hsame

theorem Alike.writes (h : Alike name s t) (ws : List MdWrite) :
    Alike name (ws.foldl MdStore.apply s) (ws.foldl MdStore.apply t) := by
  induction ws generalizing s t with
  | nil => exact h
  | cons w ws ih => exact ih (h.apply w)

/-- A store that has nothing of the file is like an empty one. -/
theorem Fresh.alike (h : Fresh s name) : Alike name s emptyStore where
  links idx n heap behind := by
    have hempty : decodeLinkVal heap behind (emptyStore.links (groupKey name idx) n) =
        .error .fail := rfl
    rw [hempty]
    -- a value of neither type is not decoded, as if there were none
    have hlinks := h.links idx n
    cases hval : s.links (groupKey name idx) n with
    | nil => rfl
    | cons type p =>
      rw [hval] at hlinks
      obtain ⟨hhard, hsoft⟩ := hlinks type rfl
      simp only [decodeLinkVal, if_neg hhard, if_neg hsoft]
  chunks idx rank coords hrank := by
    rw [h.chunks idx rank coords hrank]
    rfl

end Alike

/-! ## Reads -/

section Reads

variable {env : Env} {σ σ' : Store}

/-- A read of a chunk only depends on the bytes of its object. -/
theorem readChunk_congr {r : Request}
    (h : ∀ coords, σ.object (chunkName r.dset.fileName r.dset.binOid r.dset.extent.length coords) =
      σ'.object (chunkName r.dset.fileName r.dset.binOid r.dset.extent.length coords)) :
    readChunk env r σ = readChunk env r σ' := by
  funext s info
  unfold readChunk
  -- the name of the object comes first; the rest only asks for its bytes
  cases hoid : oidCreateChunk r.dset.fileName r.dset.binOid r.dset.extent.length
    info.chunkCoords s.1.chunkOid with
  | error why => rfl
  | ok oid =>
    obtain ⟨-, rfl⟩ := oidCreateChunk_live hoid
    simp only [ok_bind, Ptr.deref, readOpOperate, h]

/-- So does a read of datasets. -/
theorem datasetRead_congr {requests : List Request}
    (h : ∀ r ∈ requests, ∀ coords,
      σ.object (chunkName r.dset.fileName r.dset.binOid r.dset.extent.length coords) =
        σ'.object (chunkName r.dset.fileName r.dset.binOid r.dset.extent.length coords))
    (L : ReadLocals) (w : ReadTarget) :
    datasetRead env σ requests L w = datasetRead env σ' requests L w := by
  induction requests generalizing L w with
  | nil => rfl
  | cons r rest ih =>
    have hchunk : readChunk env r σ = readChunk env r σ' := readChunk_congr (h r List.mem_cons_self)
    have hone : readIteration env σ r L w = readIteration env σ' r L w := by
      simp only [readIteration, readDataset, hchunk]
    unfold datasetRead
    rw [hone]
    split
    · rfl
    · rfl
    · rw [ih fun r hr => h r (List.mem_cons_of_mem _ hr)]

end Reads

/-! ## Sessions that no call tells apart -/

/-- The handles are those of objects of the file. -/
structure Proper (s : Session) : Prop where
  names : ∀ h ∈ s.file.ranks, h.name = s.file.name
  ids : ∀ x ∈ s.objects, ∀ id ∈ x.2, ∃ idx, id = oidCreate s.file.name idx x.1.type

/-- Two sessions with the same handles, and stores that are alike. -/
structure Same (s t : Session) : Prop where
  name : s.file.name = t.file.name
  ranks : s.file.ranks = t.file.ranks
  objects : s.objects = t.objects
  store : Alike s.file.name s.file.store t.file.store

/-- A creating function makes an object of this type with the next index. -/
def Makes (type : ObjType) (create : FileHandle → Except Stop Creation) : Prop :=
  ∀ {h made}, create h = .ok made →
    made.obj = oidCreate h.name (h.maxOid + 1) type ∧ made.file.name = h.name

theorem createObject_makes (h : FileHandle) (type : ObjType) (data : List Byte)
    (links : List MdWrite) (acts : Bool) :
    (createObject h type data links acts).obj = oidCreate h.name (h.maxOid + 1) type ∧
      (createObject h type data links acts).file.name = h.name := by
  cases acts with
  | true => exact ⟨rfl, rfl⟩
  | false => exact ⟨rfl, rfl⟩

theorem groupCreateHelper_makes {h : FileHandle} {gcpl : List Byte}
    {parent : Option (Key × CString)} {collective : Bool} {made : Creation}
    (hmade : groupCreateHelper h gcpl parent collective = .ok made) :
    made.obj = oidCreate h.name (h.maxOid + 1) .group ∧ made.file.name = h.name := by
  unfold groupCreateHelper at hmade
  split at hmade
  · cases hmade
    exact createObject_makes ..
  · cases hmade

theorem createRoot_makes (gcpl : List Byte) : Makes .group (createRoot gcpl) := by
  intro h made hmade
  obtain ⟨made', hmade', hassert⟩ := bind_eq_ok.mp hmade
  unfold assertRoot at hassert
  split at hassert
  · cases hassert
    exact groupCreateHelper_makes hmade'
  · cases hassert

theorem groupCreate_makes (allColl : Bool) (gcpl : List Byte) (parent : Key × CString) :
    Makes .group fun h => groupCreate h allColl gcpl parent :=
  fun hmade => groupCreateHelper_makes hmade

theorem datasetCreate_makes (allColl : Bool) (info : DatasetInfo) (parent : Key × CString) :
    Makes .dataset fun h => datasetCreate h allColl info parent := by
  intro h made hmade
  cases hmade
  exact createObject_makes ..

theorem mapM_mem {α β : Type} {f : α → Except Stop β} {l : List α} {results : List β}
    (h : l.mapM f = .ok results) : ∀ b ∈ results, ∃ a ∈ l, f a = .ok b := by
  induction l generalizing results with
  | nil =>
    cases h
    exact fun b hb => nomatch hb
  | cons a l ih =>
    rw [List.mapM_cons] at h
    obtain ⟨b, hb, hrest⟩ := bind_eq_ok.mp h
    obtain ⟨bs, hbs, hdone⟩ := bind_eq_ok.mp hrest
    cases hdone
    intro b' hb'
    rcases List.mem_cons.mp hb' with rfl | hmem
    · exact ⟨a, List.mem_cons_self, hb⟩
    · obtain ⟨a', ha', hf⟩ := ih hbs b' hmem
      exact ⟨a', List.mem_cons_of_mem _ ha', hf⟩

/-- The file after a creation that succeeds on all ranks. -/
theorem createAll_of_ok {file : SharedFile} {create : FileHandle → Except Stop Creation}
    {results : List Creation} (h : file.ranks.mapM create = .ok results) (sched : Schedule) :
    file.createAll create sched = .ok { file with
      store := file.write sched (results.flatMap Creation.writes)
      ranks := results.map Creation.file
      created := file.created ++ [results.map Creation.obj] } := by
  rw [SharedFile.createAll, h]
  rfl

theorem createAll_of_error {file : SharedFile} {create : FileHandle → Except Stop Creation}
    {why : Stop} (h : file.ranks.mapM create = .error why) (sched : Schedule) :
    file.createAll create sched = .error why := by
  rw [SharedFile.createAll, h]
  rfl

section Same

variable {s t : Session} {kind : Kind}

/-- **A creation** gives the ranks the same ids in both sessions. -/
theorem Same.created (hsame : Same s t) (hproper : Proper s)
    {create : FileHandle → Except Stop Creation} (hmakes : Makes kind.type create)
    (sched : Schedule) :
    (s.created kind (s.file.createAll create sched)).1 =
        (t.created kind (t.file.createAll create sched)).1 ∧
      Same (s.created kind (s.file.createAll create sched)).2
        (t.created kind (t.file.createAll create sched)).2 ∧
      Proper (s.created kind (s.file.createAll create sched)).2 := by
  cases hresults : s.file.ranks.mapM create with
  | error why =>
    have hresults' : t.file.ranks.mapM create = .error why := hsame.ranks ▸ hresults
    rw [createAll_of_error hresults, createAll_of_error hresults']
    exact ⟨rfl, hsame, hproper⟩
  | ok results =>
    have hresults' : t.file.ranks.mapM create = .ok results := hsame.ranks ▸ hresults
    rw [createAll_of_ok hresults, createAll_of_ok hresults']
    -- whatever the rank has counted, the object is one of the file
    have hmade : ∀ made ∈ results, (∃ idx, made.obj = oidCreate s.file.name idx kind.type) ∧
        made.file.name = s.file.name := by
      intro made hmem
      obtain ⟨h, hh, hcreate⟩ := mapM_mem hresults made hmem
      obtain ⟨hobj, hname⟩ := hmakes hcreate
      rw [hproper.names h hh] at hobj hname
      exact ⟨⟨_, hobj⟩, hname⟩
    simp only [Session.created, List.getLastD_concat, true_and]
    refine ⟨⟨hsame.name, rfl, by rw [hsame.objects], ?_⟩, ?_, ?_⟩
    · exact hsame.store.writes _
    · intro h hmem
      obtain ⟨made, hmade', rfl⟩ := List.mem_map.mp hmem
      exact (hmade made hmade').2
    · intro x hx id hid
      rcases List.mem_append.mp hx with hold | hnew
      · exact hproper.ids x hold id hid
      · obtain rfl := List.mem_singleton.mp hnew
        obtain ⟨made, hmade', rfl⟩ := List.mem_map.mp hid
        exact (hmade made hmade').1

theorem Same.group (hsame : Same s t) (rank obj : Nat) : s.group rank obj = t.group rank obj := by
  rw [Session.group, Session.group, hsame.objects]

theorem Same.request (hsame : Same s t) (rank : Nat) : s.request rank = t.request rank := by
  funext e
  simp only [Session.request, Session.dataset, hsame.objects, hsame.name]

/-- The handle of a group is one of a group of the file. -/
theorem Proper.group (hproper : Proper s) {rank obj : Nat} {id : ObjId}
    (h : s.group rank obj = some id) : ∃ idx, id.oid = groupKey s.file.name idx := by
  unfold Session.group at h
  split at h
  next ids hids =>
    obtain ⟨idx, rfl⟩ := hproper.ids _ (List.mem_of_getElem? hids) id (List.mem_of_getElem? h)
    exact ⟨idx, rfl⟩
  next => cases h

/-- The handle of a dataset is one of a dataset of the file. -/
theorem Proper.request (hproper : Proper s) {rank : Nat} {e : Session.ReadEntry} {r : Request}
    (h : s.request rank e = .ok r) (coords : Coord) :
    ∃ idx, r.dset.extent.length ≤ maxRank ∧
      chunkName r.dset.fileName r.dset.binOid r.dset.extent.length coords =
        chunkKey s.file.name idx r.dset.extent.length coords := by
  obtain ⟨dset, hfault, rfl⟩ := map_eq_ok.mp h
  have hdset := orFault_eq_ok.mp hfault
  unfold Session.dataset at hdset
  split at hdset
  next shape ids hids =>
    obtain ⟨id, hid, rfl⟩ := Option.map_eq_some_iff.mp hdset
    obtain ⟨idx, rfl⟩ := hproper.ids _ (List.mem_of_getElem? hids) id (List.mem_of_getElem? hid)
    exact ⟨idx, shape.rank_le, rfl⟩
  next => cases hdset

/-- **A call** replies the same in both sessions, which stay so. -/
theorem Same.call (hsame : Same s t) (hproper : Proper s) (c : Call) :
    (s.call c).1 = (t.call c).1 ∧ Same (s.call c).2 (t.call c).2 ∧ Proper (s.call c).2 := by
  cases c with
  | createGroup allColl gcpl parent name sched =>
    -- both have the same parent, so that the same link is written
    simp only [Session.call, Session.create, hsame.group]
    split
    · exact ⟨rfl, hsame, hproper⟩
    · exact hsame.created hproper (groupCreate_makes allColl gcpl _) sched
  | createDataset allColl shape info parent name sched =>
    simp only [Session.call, Session.create, hsame.group]
    split
    · exact ⟨rfl, hsame, hproper⟩
    · exact hsame.created hproper (datasetCreate_makes allColl info _) sched
  | lookup rank grp name memory =>
    simp only [Session.call, hsame.group, hsame.ranks]
    split
    next id file hid hfile =>
      -- the key is one of a group of the file, where both stores are decoded alike
      obtain ⟨idx, hkey⟩ := hproper.group ((hsame.group rank grp).trans hid)
      have hlink := hsame.store.links idx name memory.heap memory.behind
      rw [← hkey] at hlink
      rw [linkRead_eq MdStore.omap_exact, linkRead_eq MdStore.omap_exact, hlink]
      exact ⟨rfl, hsame, hproper⟩
    next => exact ⟨rfl, hsame, hproper⟩
  | read rank env entries target =>
    simp only [Session.call, hsame.request]
    split
    next => exact ⟨rfl, hsame, hproper⟩
    next requests hrequests =>
      have hread : datasetRead env s.file.store.objects requests .init target =
          datasetRead env t.file.store.objects requests .init target := by
        -- the chunks are those of datasets of the file
        refine datasetRead_congr (fun r hr coords => ?_) _ _
        obtain ⟨e, -, he⟩ := mapM_mem hrequests r hr
        rw [← hsame.request] at he
        obtain ⟨idx, hrank, hkey⟩ := hproper.request he coords
        rw [hkey]
        exact hsame.store.chunks idx _ coords hrank
      rw [hread]
      exact ⟨rfl, hsame, hproper⟩

/-- **Sessions**, by induction on the calls. -/
theorem Same.replies (hsame : Same s t) (hproper : Proper s) (calls : List Call) :
    s.replies calls = t.replies calls := by
  induction calls generalizing s t with
  | nil => rfl
  | cons c calls ih =>
    obtain ⟨hreply, hsame', hproper'⟩ := hsame.call hproper c
    simp only [Session.replies]
    rw [hreply, ih hsame' hproper']

end Same

/-! ## New files -/

section New

variable (c : CreateCall) (store : MdStore)

/-- A new session before it has a root group. -/
def unrooted : Session := ⟨fresh store c.name c.flags c.collective c.numProcs, []⟩

theorem run_eq : c.run store =
    ((unrooted c store).file.createAll (createRoot c.gcpl) c.sched).map fun file =>
      ((unrooted c store).created .group (.ok file)).2 := rfl

theorem unrooted_proper : Proper (unrooted c store) where
  names := by
    intro h hmem
    obtain ⟨rank, -, rfl⟩ := List.mem_map.mp hmem
    rfl
  ids := fun x hx => nomatch hx

/-- The function succeeds, whatever the store has. -/
theorem exists_run : ∃ s, c.run store = .ok s := by
  obtain ⟨file, hfile, -⟩ :=
    createFile_inv store c.name c.flags c.collective c.gcpl c.procs_pos c.sched
  exact ⟨_, by rw [CreateCall.run, hfile]; rfl⟩

variable {c store}

/-- Stores that are alike before are so afterwards. -/
theorem same_run {store' : MdStore} (h : Alike c.name store store') {s : Session}
    (hrun : c.run store = .ok s) :
    ∃ s', c.run store' = .ok s' ∧ Same s s' ∧ Proper s := by
  -- before the root group, the ranks and the objects do not depend on the store
  have hsame : Same (unrooted c store) (unrooted c store') := ⟨rfl, rfl, rfl, h⟩
  have hmakes : Makes Kind.group.type (createRoot c.gcpl) := createRoot_makes c.gcpl
  obtain ⟨-, hafter, hproper⟩ := hsame.created (unrooted_proper c store) hmakes c.sched
  obtain ⟨s', hrun'⟩ := exists_run c store'
  rw [run_eq] at hrun hrun'
  obtain ⟨file, hfile, rfl⟩ := map_eq_ok.mp hrun
  obtain ⟨file', hfile', rfl⟩ := map_eq_ok.mp hrun'
  rw [hfile] at hafter hproper
  rw [hfile'] at hafter
  refine ⟨_, ?_, hafter, hproper⟩
  rw [run_eq, hfile']
  rfl

/-- **Creating over an existing file.**  The exclusive flag is respected if and only if there is
no such file.  The truncating flag is, in every session, if the store has no link and no chunk of
such a file. -/
theorem file_creation (c : CreateCall) (store : MdStore) :
    (Refuses c store ↔ (c.Exclusive → ¬ Held store c.name)) ∧
    ((c.Truncating → Fresh store c.name) → StartsEmpty c store) := by
  constructor
  · constructor
    · intro hrefuses hexclusive hheld
      -- there is no run that fails
      obtain ⟨why, hwhy⟩ := hrefuses hexclusive hheld
      obtain ⟨s, hs⟩ := exists_run c store
      rw [hs] at hwhy
      cases hwhy
    · intro hnone hexclusive hheld
      exact absurd hheld (hnone hexclusive)
  · intro hfresh htruncating s hs
    obtain ⟨s₀, hs₀, hsame, hproper⟩ := same_run (hfresh htruncating).alike hs
    exact ⟨s₀, hs₀, hsame.replies hproper⟩

/-! ## A link of the old file -/

/-- Contents of objects are not links. -/
theorem links_eq_of_full {ws : List MdWrite} (h : ∀ w ∈ ws, ∃ oid data, w = .full oid data)
    (s : MdStore) : (ws.foldl MdStore.apply s).links = s.links := by
  funext key name
  refine links_untouched (fun val hmem => ?_) s
  obtain ⟨oid, data, heq⟩ := h _ hmem
  cases heq

/-- A new session has a handle of the root group on rank 0, and all links that there were. -/
theorem run_root {s : Session} (hrun : c.run store = .ok s) :
    s.group 0 0 = some (objectOf c.name 1 .group) ∧ (∃ h, s.file.ranks[0]? = some h) ∧
      s.file.store.links = store.links := by
  have hs := counted_fresh store c.name c.flags c.collective c.procs_pos
  have hfile := createAll_eq (creates_root hs rfl c.gcpl) c.sched
  rw [run_eq, unrooted, hfile] at hrun
  obtain rfl := Except.ok.inj hrun
  have hzero : (List.range c.numProcs)[0]? = some 0 := List.getElem?_range c.procs_pos
  have hleader : HandleOf c.name 0 (newHandle c.name c.flags c.collective 0) :=
    hs.handles _ (List.mem_map_of_mem (List.mem_range.mpr c.procs_pos))
  refine ⟨?_, ⟨(createObject (newHandle c.name c.flags c.collective 0) .group c.gcpl []
    ((newHandle c.name c.flags c.collective 0).acts true)).file, ?_⟩, ?_⟩
  · simp [Session.created, Session.group, afterCreate, fresh, hzero, createObject_obj hleader]
  · simp [Session.created, afterCreate, fresh, hzero]
  -- the root group is linked nowhere
  · refine links_eq_of_full (fun w hw => ?_) store
    have hmem := (c.sched.perm _).mem_iff.mp hw
    obtain ⟨h, -, hwrites⟩ := List.mem_flatMap.mp hmem
    unfold createObject at hwrites
    split at hwrites
    · exact ⟨_, _, List.mem_singleton.mp hwrites⟩
    · cases hwrites

/-- The links of the old root group are links of the new one. -/
theorem lookup_root {s : Session} (hrun : c.run store = .ok s) (n : CString)
    (memory : LinkMemory) :
    s.replies [.lookup 0 0 n memory] = [.link (decodeLinkVal memory.heap memory.behind
      (store.links (groupKey c.name 1) n))] := by
  obtain ⟨hgroup, ⟨h, hrank⟩, hlinks⟩ := run_root hrun
  simp only [Session.replies, Session.call, hgroup, hrank]
  rw [linkRead_eq MdStore.omap_exact, hlinks]
  rfl

theorem orFault_ne_fail {α : Type} (x : Option α) : orFault x ≠ .error .fail := by
  intro h
  cases x with
  | none => cases h
  | some a => cases h

theorem bind_ne_fail {α β : Type} {x : Except Stop α} {f : α → Except Stop β}
    (hx : x ≠ .error .fail) (hf : ∀ a, f a ≠ .error .fail) : x >>= f ≠ .error .fail := by
  cases x with
  | error why =>
    intro h
    exact hx (congrArg Except.error (Except.error.inj h))
  | ok a => exact hf a

/-- A read of a link that there is does not fail as if there were none. -/
theorem decodeLinkVal_stale {type : Byte} (h : type = 0 ∨ type = 1) (heap : Nat → Byte)
    (behind p : List Byte) : decodeLinkVal (some heap) behind (type :: p) ≠ .error .fail := by
  rcases h with rfl | rfl
  · rw [decodeLinkVal, if_pos rfl]
    cases uint64 p 0 with
    | none =>
      intro h
      cases h
    | some oid =>
      intro h
      cases h
  · have hone : (1 : Byte) ≠ 0 := by decide
    rw [decodeLinkVal, if_neg hone, if_pos rfl, readSoft, mallocOrFail, ok_bind]
    refine bind_ne_fail (orFault_ne_fail _) fun copied => ?_
    refine bind_ne_fail (orFault_ne_fail _) fun buf => ?_
    refine bind_ne_fail (orFault_ne_fail _) fun buf' => ?_
    intro h
    cases h

/-- A truncated file with a link in its root group is not empty. -/
theorem not_startsEmpty (htruncating : c.Truncating) {n : CString} {type : Byte}
    (hold : type ∈ (store.links (groupKey c.name 1) n).head?) (htype : type = 0 ∨ type = 1) :
    ¬ StartsEmpty c store := by
  intro hempty
  obtain ⟨s, hs⟩ := exists_run c store
  obtain ⟨s₀, hs₀, hreplies⟩ := hempty htruncating s hs
  obtain ⟨p, hp⟩ := List.head?_eq_some_iff.mp hold
  -- one lookup tells the two runs apart
  have hsame := hreplies [.lookup 0 0 n ⟨some fun _ => 0, []⟩]
  rw [lookup_root hs, lookup_root hs₀, hp] at hsame
  exact decodeLinkVal_stale htype _ _ _ (Reply.link.inj (List.cons.inj hsame).1)

end New

/-! ## A file that exists -/

/-- The application is one process; the new file is `f`. -/
def createF (flags : Nat) : CreateCall := ⟨nameF, flags, false, [], 1, inOrder, Nat.one_pos⟩

/-- A root group with a link `a`. -/
def oldGroup (name : FileName) : MdStore :=
  (emptyStore.apply (.full (groupKey name 1) [5])).apply
    (.link (groupKey name 1) ⟨[97], zero_notMem_a⟩ (.hard 7))

/-- A chunk of the first dataset. -/
def oldChunk : MdStore := emptyStore.apply (.full (chunkKey nameF 2 1 [0]) [42, 43])

def twoBytes : Dataspace := ⟨[2], [[0], [1]]⟩

/-- A dataset `b` is created in the root group, and read before anything is written to it. -/
def createAndRead : List Call :=
  [.createDataset false ⟨[2], .contiguous, .atomic .integer 1 0, by decide⟩ ⟨[1], [2], [3]⟩ 0
      ⟨[98], zero_notMem_b⟩ inOrder,
    .read 0 ChunkedStorage.plain [⟨1, .atomic .integer 1 0, some twoBytes, some twoBytes⟩]
      ⟨[0, 0], []⟩]

/-- What the last call has read. -/
def lastRead (replies : List Reply) : Option (List Byte) :=
  match replies.getLast? with
  | some (.data (.ok x)) => some x.1.array
  | _ => none

theorem createAndRead_old : ((createF accTrunc).run oldChunk).map
    (fun s => lastRead (s.replies createAndRead)) = .ok (some [42, 43]) := by decide +kernel

theorem createAndRead_empty : ((createF accTrunc).run emptyStore).map
    (fun s => lastRead (s.replies createAndRead)) = .ok (some [0, 0]) := by decide +kernel

/-- An existing file is created without an error, its links are there after it was truncated, and
so are the data of its first dataset. -/
theorem existing_file_created : ¬ Refuses (createF 0) (oldGroup nameF) ∧
    ¬ StartsEmpty (createF accTrunc) (oldGroup nameF) ∧
    ¬ StartsEmpty (createF accTrunc) oldChunk := by
  have htruncating : (createF accTrunc).Truncating := by decide
  have hlink : (0 : Byte) ∈
      ((oldGroup nameF).links (groupKey nameF 1) ⟨[97], zero_notMem_a⟩).head? := by
    simp [oldGroup, MdStore.apply, linkBytes]
  refine ⟨fun hrefuses => ?_, not_startsEmpty htruncating hlink (Or.inl rfl), fun hempty => ?_⟩
  -- the file is there, and the creation succeeds
  · have hheld : Held (oldGroup nameF) nameF := Or.inr (by decide)
    obtain ⟨why, hwhy⟩ := hrefuses (by decide) hheld
    obtain ⟨s, hs⟩ := exists_run (createF 0) (oldGroup nameF)
    rw [hs] at hwhy
    cases hwhy
  -- a byte of the old chunk is read from the new dataset
  · obtain ⟨s, hs⟩ := exists_run (createF accTrunc) oldChunk
    obtain ⟨s₀, hs₀, hreplies⟩ := hempty htruncating s hs
    have hold := createAndRead_old
    have hnew := createAndRead_empty
    rw [hs] at hold
    rw [hs₀] at hnew
    have hread : lastRead (s.replies createAndRead) = some [42, 43] := Except.ok.inj hold
    have hread₀ : lastRead (s₀.replies createAndRead) = some [0, 0] := Except.ok.inj hnew
    rw [hreplies, hread₀] at hread
    exact absurd hread (by decide)

theorem nul_notMem_g : nul ∉ ['g'] := by decide

theorem length_g : ['g'].length < 2147482624 := by decide

def nameG : FileName := ⟨['g'], nul_notMem_g, length_g⟩

/-- Another file is not in the way. -/
theorem file_creation_other :
    Refuses (createF 0) (oldGroup nameG) ∧ StartsEmpty (createF accTrunc) (oldGroup nameG) := by
  -- keys of `f` are not keys of `g`
  have hother : ∀ idx type, stringName nameF.name (oidCreateBinary idx type).toNat ≠
      groupKey nameG 1 := by
    intro idx type heq
    exact absurd (stringName_inj heq).1 (by decide)
  have hglobal : stringName nameF.name 0 ≠ groupKey nameG 1 := hother 0 .group
  -- the store holds the group's own object and nothing else
  have hobject : ∀ key, key ≠ groupKey nameG 1 → (oldGroup nameG).objects key = none := by
    intro key hkey
    simp [oldGroup, MdStore.apply, hkey, emptyStore]
  -- so `f` is fresh: no link and no object under its keys
  have hfresh : Fresh (oldGroup nameG) nameF := by
    refine ⟨fun idx n type htype => ?_, fun idx rank coords _ => ?_⟩
    · have hkey : groupKey nameF idx ≠ groupKey nameG 1 := hother idx .group
      simp [oldGroup, MdStore.apply, hkey, emptyStore] at htype
    · have hkey : chunkKey nameF idx rank coords ≠ groupKey nameG 1 :=
        chunkName_ne_stringName _ _ _ _ _ _
      rw [Store.object, hobject _ hkey]
      rfl
  -- and not held: neither its global object nor its root is there
  have hnone : ¬ Held (oldGroup nameG) nameF := by
    rintro (hglob | hroot)
    · exact hglob (hobject _ hglobal)
    · exact hroot (hobject _ (hother 1 .group))
  exact ⟨(file_creation (createF 0) (oldGroup nameG)).1.mpr fun _ => hnone,
    (file_creation (createF accTrunc) (oldGroup nameG)).2 fun _ => hfresh⟩

end DTIO.Properties.FileCreation
