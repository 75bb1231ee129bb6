import DTIO.Properties.FileOpen
import DTIO.Properties.StoreKeys
import DTIO.Vol.Files

/-!
# Object Ids over the Lifetime of a File

Every rank counts all creations, the ones that it has no part in too, so that the ranks agree on
the next index.  The number of the objects is in the memory of every rank that has the file open,
and in the global metadata object unless some rank has a dirty mark: rank 0 takes part in every
creation.  A flush writes where the mark is, and what it writes is the same on all ranks.

## Main definitions

- `Inv`: the handles, the created objects and the store belong to one number of objects
- `Sound`: what the ids of a file have to satisfy

## Main results

- `Inv.step`: every operation keeps the invariant, and succeeds
- `object_ids`: the ids of a file over any run
-/

namespace DTIO.Properties.ObjectIds

open DTIO.Posix DTIO.Memory DTIO.Vol
open DTIO.Properties.StoreKeys (stringName_inj)
open DTIO.Properties.FileOpen (allOpen_of_fits)
open SharedFile (Op)

/-! ## Ids of different indices -/

/-- The object with an index. -/
def objectOf (name : FileName) (n : Nat) (type : ObjType) : ObjId :=
  oidCreate name (UInt64.ofNat n) type

/-- The indices that the two bits of the type leave. -/
def Index (n : Nat) : Prop := n < 4611686018427387904

theorem Index.toNat {n : Nat} (h : Index n) : (UInt64.ofNat n).toNat = n := by
  have hsize : 4611686018427387904 ≤ UInt64.size := by decide
  exact UInt64.toNat_ofNat_of_lt' (lt_of_lt_of_le h hsize)

theorem Index.of_le {m n : Nat} (h : Index n) (hle : m ≤ n) : Index m := lt_of_le_of_lt hle h

theorem oidToIdx_objectOf (name : FileName) {n : Nat} (h : Index n) (type : ObjType) :
    oidToIdx (objectOf name n type).binOid = UInt64.ofNat n := by
  apply oidToIdx_oidCreateBinary
  rw [h.toNat]
  exact h

/-- The index of an id is the number it was created with. -/
theorem index_objectOf (name : FileName) {n : Nat} (h : Index n) (type : ObjType) :
    (oidToIdx (objectOf name n type).binOid).toNat = n := by
  rw [oidToIdx_objectOf name h, h.toNat]

theorem binOid_ne {name : FileName} {m n : Nat} (hm : Index m) (hn : Index n) (h : m ≠ n)
    (type type' : ObjType) :
    (objectOf name m type).binOid ≠ (objectOf name n type').binOid := by
  intro heq
  apply h
  rw [← index_objectOf name hm type, heq, index_objectOf name hn type']

theorem oid_ne {name : FileName} {m n : Nat} (hm : Index m) (hn : Index n) (h : m ≠ n)
    (type type' : ObjType) : (objectOf name m type).oid ≠ (objectOf name n type').oid := by
  intro heq
  exact @binOid_ne name m n hm hn h type type' (stringName_inj heq).2

/-- The id of the global metadata object has the index 0. -/
theorem binOid_ne_zero (name : FileName) {n : Nat} (h : Index n) (hpos : 0 < n)
    (type : ObjType) : (objectOf name n type).binOid ≠ 0 := by
  intro heq
  have hidx := index_objectOf name h type
  rw [heq] at hidx
  have hzero : (oidToIdx 0).toNat = 0 := by decide
  omega

theorem oid_ne_global (name : FileName) {n : Nat} (h : Index n) (hpos : 0 < n) (type : ObjType) :
    (objectOf name n type).oid ≠ stringName name.name 0 := by
  intro heq
  have hglob : stringName name.name 0 = stringName name.name (0 : UInt64).toNat := rfl
  rw [hglob] at heq
  exact binOid_ne_zero name h hpos type (stringName_inj heq).2

/-! ## The invariant -/

/-- A handle of a file with `n` objects. -/
structure HandleOf (file : FileName) (n : Nat) (h : FileHandle) : Prop where
  name : h.name = file
  globMdOid : h.globMdOid = stringName file.name 0
  maxOid : h.maxOid = UInt64.ofNat n
  writable : h.Writable

/-- All ranks have counted the objects, and rank 0 is among them. -/
structure Counted (s : SharedFile) : Prop where
  handles : ∀ h ∈ s.ranks, HandleOf s.name s.created.length h
  leader : s.ranks ≠ [] → ∃ h ∈ s.ranks, h.myRank = 0
  indexed : ∀ i e, s.created[i]? = some e →
    ∃ type, ∀ a ∈ e, a = objectOf s.name (i + 1) type

/-- The root group is stored, and the number of objects is stored or marked as dirty. -/
structure Stored (gcpl : List Byte) (s : SharedFile) : Prop where
  root : s.store.objects (objectOf s.name 1 .group).oid = some gcpl
  maxOid : (∃ h ∈ s.ranks, h.maxOidDirty = true) ∨
    s.store.objects (stringName s.name.name 0) = some (encode64 s.created.length)
  nonempty : s.created ≠ []

/-- The file is open on some ranks, or closed. -/
structure Inv (gcpl : List Byte) (isOpen : Bool) (s : SharedFile) : Prop extends
    Counted s, Stored gcpl s where
  open_iff : isOpen = true ↔ s.ranks ≠ []

/-! ## Creations -/

theorem mapM_ok {α β : Type} {f : α → Except Stop β} {g : α → β} {l : List α}
    (h : ∀ x ∈ l, f x = .ok (g x)) : l.mapM f = .ok (l.map g) := by
  induction l with
  | nil => rfl
  | cons x l ih =>
    have hx : f x = .ok (g x) := h x List.mem_cons_self
    have hrest : l.mapM f = .ok (l.map g) := ih fun y hy => h y (List.mem_cons_of_mem _ hy)
    rw [List.mapM_cons, hx, ok_bind, hrest]
    rfl

section Create

variable {name : FileName} {n : Nat} {h : FileHandle} {type : ObjType} {data : List Byte}
  {links : List MdWrite} {acts : Bool}

/-- A rank that counts to `n` creates the object with the next index. -/
theorem createObject_obj (hh : HandleOf name n h) :
    (createObject h type data links acts).obj = objectOf name (n + 1) type := by
  have hnext : h.maxOid + 1 = UInt64.ofNat (n + 1) := by
    rw [hh.maxOid]
    simp
  have hobj : oidCreate h.name (h.maxOid + 1) type = objectOf name (n + 1) type := by
    rw [hnext, hh.name]
    rfl
  cases acts with
  | true => exact hobj
  | false => exact hobj

/-- It has counted the object, whether it has written it or not. -/
theorem createObject_file (hh : HandleOf name n h) (hfew : Index (n + 1)) :
    HandleOf name (n + 1) (createObject h type data links acts).file := by
  have hobj : oidCreate h.name (h.maxOid + 1) type = objectOf name (n + 1) type :=
    @createObject_obj name n h type data links false hh
  have hmax : oidToIdx (oidCreate h.name (h.maxOid + 1) type).binOid = UInt64.ofNat (n + 1) := by
    rw [hobj]
    exact oidToIdx_objectOf name hfew type
  cases acts with
  | true => exact ⟨hh.name, hh.globMdOid, hmax, hh.writable⟩
  | false => exact ⟨hh.name, hh.globMdOid, hmax, hh.writable⟩

theorem createObject_myRank : (createObject h type data links acts).file.myRank = h.myRank := by
  cases acts with
  | true => rfl
  | false => rfl

/-- The contents that it writes are those of the object. -/
theorem createObject_writes (hh : HandleOf name n h)
    (hlinks : ∀ key d, MdWrite.full key d ∉ links) {key : Key} {d : List Byte}
    (hmem : .full key d ∈ (createObject h type data links acts).writes) :
    key = (objectOf name (n + 1) type).oid ∧ d = data := by
  have hobj : oidCreate h.name (h.maxOid + 1) type = objectOf name (n + 1) type :=
    @createObject_obj name n h type data links false hh
  cases acts with
  | false => cases hmem
  | true =>
    rcases List.mem_cons.mp hmem with heq | hlink
    · obtain ⟨rfl, rfl⟩ := MdWrite.full.inj heq
      exact ⟨congrArg ObjId.oid hobj, rfl⟩
    · exact absurd hlink (hlinks key d)

/-- A rank that acts writes the object and marks the number of objects. -/
theorem createObject_acts (hh : HandleOf name n h) :
    (createObject h type data links true).file.maxOidDirty = true ∧
      .full (objectOf name (n + 1) type).oid data ∈
        (createObject h type data links true).writes := by
  have hobj : oidCreate h.name (h.maxOid + 1) type = objectOf name (n + 1) type :=
    @createObject_obj name n h type data links false hh
  refine ⟨rfl, ?_⟩
  rw [← hobj]
  exact List.mem_cons_self

end Create

/-- What the creating functions have in common: rank 0 acts, and contents are only written for
the new object. -/
structure Creates (s : SharedFile) (create : FileHandle → Except Stop Creation) (type : ObjType)
    (data : List Byte) (links : FileHandle → List MdWrite) (acts : FileHandle → Bool) :
    Prop where
  create_eq : ∀ h ∈ s.ranks, create h = .ok (createObject h type data (links h) (acts h))
  links_only : ∀ h key d, MdWrite.full key d ∉ links h
  leader_acts : ∀ h, h.myRank = 0 → acts h = true

section CreateAll

variable {s : SharedFile} {create : FileHandle → Except Stop Creation} {type : ObjType}
  {data : List Byte} {links : FileHandle → List MdWrite} {acts : FileHandle → Bool}

/-- The file after a creation. -/
def afterCreate (s : SharedFile) (type : ObjType) (data : List Byte)
    (links : FileHandle → List MdWrite) (acts : FileHandle → Bool) (sched : Schedule) :
    SharedFile where
  name := s.name
  store := s.write sched
    (s.ranks.flatMap fun h => (createObject h type data (links h) (acts h)).writes)
  ranks := s.ranks.map fun h => (createObject h type data (links h) (acts h)).file
  created := s.created ++
    [s.ranks.map fun h => (createObject h type data (links h) (acts h)).obj]

theorem createAll_eq (hc : Creates s create type data links acts) (sched : Schedule) :
    s.createAll create sched = .ok (afterCreate s type data links acts sched) := by
  have hresults : s.ranks.mapM create =
      .ok (s.ranks.map fun h => createObject h type data (links h) (acts h)) :=
    mapM_ok hc.create_eq
  simp only [SharedFile.createAll, hresults, ok_bind, List.map_map, List.flatMap_map]
  rfl

/-- All ranks have counted the new object. -/
theorem counted_afterCreate (hs : Counted s) (hfew : Index (s.created.length + 1))
    (sched : Schedule) : Counted (afterCreate s type data links acts sched) where
  handles := by
    intro h' hmem
    obtain ⟨h, hh, rfl⟩ := List.mem_map.mp hmem
    have hlen : (afterCreate s type data links acts sched).created.length =
        s.created.length + 1 := by simp [afterCreate]
    rw [hlen]
    exact createObject_file (hs.handles h hh) hfew
  leader := by
    intro hopen
    have hranks : s.ranks ≠ [] := by
      intro hnil
      simp [afterCreate, hnil] at hopen
    obtain ⟨h, hh, hzero⟩ := hs.leader hranks
    exact ⟨_, List.mem_map_of_mem hh, createObject_myRank.trans hzero⟩
  indexed := by
    intro i e he
    -- an earlier creation, this one, or none
    rcases lt_trichotomy i s.created.length with hlt | heq | hgt
    · rw [show (afterCreate s type data links acts sched).created[i]? = s.created[i]? from
        List.getElem?_append_left hlt] at he
      exact hs.indexed i e he
    · subst heq
      have hlast : e = s.ranks.map fun h => (createObject h type data (links h) (acts h)).obj := by
        simpa [afterCreate] using he.symm
      refine ⟨type, ?_⟩
      rintro a ha
      rw [hlast] at ha
      obtain ⟨h, hh, rfl⟩ := List.mem_map.mp ha
      exact createObject_obj (hs.handles h hh)
    · have hnone : (afterCreate s type data links acts sched).created[i]? = none := by
        apply List.getElem?_eq_none
        simp only [afterCreate, List.length_append, List.length_singleton]
        omega
      rw [hnone] at he
      cases he

variable (hs : Counted s) (hc : Creates s create type data links acts)
include hs hc

/-- Contents are written for the new object. -/
theorem mem_writes {sched : Schedule} {key : Key} {d : List Byte}
    (hmem : .full key d ∈ sched.order
      (s.ranks.flatMap fun h => (createObject h type data (links h) (acts h)).writes)) :
    key = (objectOf s.name (s.created.length + 1) type).oid ∧ d = data := by
  obtain ⟨h, hh, hw⟩ := List.mem_flatMap.mp ((sched.perm _).mem_iff.mp hmem)
  exact createObject_writes (hs.handles h hh) (hc.links_only h) hw

/-- The other objects are left alone. -/
theorem afterCreate_other (sched : Schedule) {key : Key}
    (hkey : key ≠ (objectOf s.name (s.created.length + 1) type).oid) :
    (afterCreate s type data links acts sched).store.objects key = s.store.objects key := by
  refine objects_untouched ?_ s.store
  intro d hmem
  exact hkey (mem_writes hs hc hmem).1

/-- Rank 0 has written the object and has the mark. -/
theorem afterCreate_leader (hopen : s.ranks ≠ []) (sched : Schedule) :
    (afterCreate s type data links acts sched).store.objects
        (objectOf s.name (s.created.length + 1) type).oid = some data ∧
      ∃ h ∈ (afterCreate s type data links acts sched).ranks, h.maxOidDirty = true := by
  obtain ⟨h, hh, hzero⟩ := hs.leader hopen
  have hacts : acts h = true := hc.leader_acts h hzero
  obtain ⟨hdirty, hwrite⟩ := @createObject_acts s.name s.created.length h type data (links h)
    (hs.handles h hh)
  constructor
  · refine objects_written ?_ (fun d hmem => (mem_writes hs hc hmem).2) s.store
    refine (sched.perm _).mem_iff.mpr (List.mem_flatMap.mpr ⟨h, hh, ?_⟩)
    rw [hacts]
    exact hwrite
  · refine ⟨_, List.mem_map_of_mem hh, ?_⟩
    rw [hacts]
    exact hdirty

end CreateAll

section Steps

variable {gcpl : List Byte} {s : SharedFile}

/-- A creation in an open file. -/
theorem Inv.create (hs : Inv gcpl true s) (hfew : Index (s.created.length + 1))
    {create : FileHandle → Except Stop Creation} {type : ObjType} {data : List Byte}
    {links : FileHandle → List MdWrite} {acts : FileHandle → Bool}
    (hc : Creates s create type data links acts) (sched : Schedule) :
    Inv gcpl true (afterCreate s type data links acts sched) := by
  have hopen : s.ranks ≠ [] := hs.open_iff.mp rfl
  -- the root group is there, so the new object does not take its place
  have hone : 1 ≠ s.created.length + 1 := by
    have hpos := List.length_pos_iff.mpr hs.nonempty
    omega
  have hroot : (objectOf s.name 1 .group).oid ≠
      (objectOf s.name (s.created.length + 1) type).oid :=
    oid_ne (by unfold Index; decide) hfew hone .group type
  exact {
    toCounted := counted_afterCreate hs.toCounted hfew sched
    root := (afterCreate_other hs.toCounted hc sched hroot).trans hs.root
    maxOid := Or.inl (afterCreate_leader hs.toCounted hc hopen sched).2
    nonempty := List.append_ne_nil_of_right_ne_nil _ (List.cons_ne_nil _ _)
    open_iff := by simpa [afterCreate] using hopen }

/-! ## Flushes -/

/-- A rank writes the number of objects if it has the mark. -/
theorem fileFlush_eq {file : FileName} {n : Nat} {h : FileHandle} (hh : HandleOf file n h) :
    fileFlush h = ({ h with maxOidDirty := false },
      if h.maxOidDirty then [.full h.globMdOid (encode64 h.maxOid.toNat)] else []) := by
  cases hdirty : h.maxOidDirty with
  | true => simp [fileFlush, hh.writable, writeMaxOid, hdirty]
  | false =>
    have hsame : { h with maxOidDirty := false } = h := by rw [← hdirty]
    simp [fileFlush, hh.writable, writeMaxOid, hdirty, hsame]

theorem flushAll_ranks (hs : Counted s) (sched : Schedule) :
    (s.flushAll sched).ranks = s.ranks.map fun h => { h with maxOidDirty := false } := by
  simp only [SharedFile.flushAll, List.map_map]
  apply List.map_congr_left
  intro h hh
  exact congrArg Prod.fst (fileFlush_eq (hs.handles h hh))

/-- The ranks with the mark write the same. -/
theorem mem_flushes (hs : Counted s) (hfew : Index s.created.length) {sched : Schedule}
    {key : Key} {d : List Byte}
    (hmem : .full key d ∈ sched.order ((s.ranks.map fileFlush).flatMap Prod.snd)) :
    key = stringName s.name.name 0 ∧ d = encode64 s.created.length := by
  obtain ⟨r, hr, hw⟩ := List.mem_flatMap.mp ((sched.perm _).mem_iff.mp hmem)
  obtain ⟨h, hh, rfl⟩ := List.mem_map.mp hr
  have hhandle := hs.handles h hh
  rw [fileFlush_eq hhandle] at hw
  cases hdirty : h.maxOidDirty with
  | false => simp [hdirty] at hw
  | true =>
    have heq : key = h.globMdOid ∧ d = encode64 h.maxOid.toNat := by simpa [hdirty] using hw
    rw [hhandle.globMdOid, hhandle.maxOid, hfew.toNat] at heq
    exact heq

/-- Afterwards the number of objects is in the store. -/
theorem flushAll_stores (hs : Counted s) (hstored : Stored gcpl s)
    (hfew : Index s.created.length) (sched : Schedule) :
    (s.flushAll sched).store.objects (stringName s.name.name 0) =
      some (encode64 s.created.length) := by
  by_cases hdirty : ∃ h ∈ s.ranks, h.maxOidDirty = true
  · -- several ranks may write, but all of them write this number
    obtain ⟨h, hh, hmark⟩ := hdirty
    refine objects_written ?_ (fun d hmem => (mem_flushes hs hfew hmem).2) s.store
    refine (sched.perm _).mem_iff.mpr (List.mem_flatMap.mpr ⟨_, List.mem_map_of_mem hh, ?_⟩)
    have hhandle := hs.handles h hh
    rw [fileFlush_eq hhandle]
    simp [hmark, hhandle.globMdOid, hhandle.maxOid, hfew.toNat]
  · -- nobody writes, and it is there already
    have hnone : ∀ d, .full (stringName s.name.name 0) d ∉
        sched.order ((s.ranks.map fileFlush).flatMap Prod.snd) := by
      intro d hmem
      obtain ⟨r, hr, hw⟩ := List.mem_flatMap.mp ((sched.perm _).mem_iff.mp hmem)
      obtain ⟨h, hh, rfl⟩ := List.mem_map.mp hr
      have hclean : h.maxOidDirty = false := by
        simpa using fun hmark => hdirty ⟨h, hh, hmark⟩
      rw [fileFlush_eq (hs.handles h hh)] at hw
      simp [hclean] at hw
    exact (objects_untouched hnone s.store).trans (hstored.maxOid.resolve_left hdirty)

theorem flushAll_root (hs : Counted s) (hstored : Stored gcpl s) (hfew : Index s.created.length)
    (sched : Schedule) :
    (s.flushAll sched).store.objects (objectOf s.name 1 .group).oid = some gcpl := by
  have hroot : (objectOf s.name 1 .group).oid ≠ stringName s.name.name 0 :=
    oid_ne_global s.name (by unfold Index; decide) Nat.one_pos .group
  refine (objects_untouched ?_ s.store).trans hstored.root
  intro d hmem
  exact hroot (mem_flushes hs hfew hmem).1

theorem Inv.flush (hs : Inv gcpl true s) (hfew : Index s.created.length) (sched : Schedule) :
    Inv gcpl true (s.flushAll sched) := by
  -- of the handles a flush changes the mark only
  have hranks := flushAll_ranks hs.toCounted sched
  exact {
    handles := by
      intro h' hmem
      rw [hranks] at hmem
      obtain ⟨h, hh, rfl⟩ := List.mem_map.mp hmem
      have hhandle := hs.handles h hh
      exact ⟨hhandle.name, hhandle.globMdOid, hhandle.maxOid, hhandle.writable⟩
    leader := by
      intro _
      obtain ⟨h, hh, hzero⟩ := hs.leader (hs.open_iff.mp rfl)
      rw [hranks]
      exact ⟨_, List.mem_map_of_mem hh, hzero⟩
    indexed := hs.indexed
    root := flushAll_root hs.toCounted hs.toStored hfew sched
    maxOid := Or.inr (flushAll_stores hs.toCounted hs.toStored hfew sched)
    nonempty := hs.nonempty
    open_iff := by
      rw [hranks]
      simpa using hs.open_iff.mp rfl }

/-- A close leaves the file with nobody. -/
theorem Inv.close (hs : Inv gcpl true s) (hfew : Index s.created.length) (sched : Schedule) :
    Inv gcpl false (s.closeAll sched) where
  handles := nofun
  leader := fun h => absurd rfl h
  indexed := hs.indexed
  root := flushAll_root hs.toCounted hs.toStored hfew sched
  maxOid := Or.inr (flushAll_stores hs.toCounted hs.toStored hfew sched)
  nonempty := hs.nonempty
  open_iff := by simp [SharedFile.closeAll]

/-- The file when all ranks have it open with the stored number. -/
def reopened (s : SharedFile) (flags : Nat) (collective : Bool) (gcpl : List Byte)
    (others : List RankMemory) : SharedFile :=
  let opened : OpenedFile := ⟨s.created.length, gcpl⟩
  let all := (opened :: others.zipIdx.map fun _ => opened).zipIdx
  { s with ranks := all.map (openedHandle s.name flags collective) }

/-- The ranks that open the file again all get the stored number. -/
theorem Inv.reopen (hs : Inv gcpl false s) (hfits : gcpl.length ≤ 1008)
    (hfew : Index s.created.length) {flags : Nat} (hflags : flags &&& accRdwr ≠ 0)
    (collective : Bool) (info : Option Comm) (m : RankMemory) (others : List RankMemory) :
    ∃ s', s.openAll flags collective info m others = .ok s' ∧ Inv gcpl true s' ∧
      s'.created = s.created := by
  -- nobody has a mark, so the store has the number
  have hclosed : s.ranks = [] := by
    by_contra hopen
    exact absurd (hs.open_iff.mpr hopen) Bool.false_ne_true
  have hmax : s.store.objects.object (stringName s.name.name 0) =
      encode64 s.created.length := by
    have hstored := hs.maxOid.resolve_left (by simp [hclosed])
    simp [Store.object, hstored]
  have hroot : s.store.objects.object
      (stringName s.name.name (oidCreateBinary 1 .group).toNat) = gcpl := by
    have hstored : s.store.objects (stringName s.name.name (oidCreateBinary 1 .group).toNat) =
        some gcpl := hs.root
    simp [Store.object, hstored]
  have hlt : s.created.length < 18446744073709551616 := by
    unfold Index at hfew
    omega
  have hall := @allOpen_of_fits s.created.length gcpl hlt info m others (Or.inr hfits)
  unfold FileOpen.AllOpen at hall
  refine ⟨reopened s flags collective gcpl others, ?_, ?_, rfl⟩
  · simp only [SharedFile.openAll, SharedFile.openRank, hmax, hroot, hall, orFault_some]
    rfl
  · exact {
      handles := by
        intro h' hmem
        obtain ⟨⟨r, i⟩, hr, rfl⟩ := List.mem_map.mp hmem
        -- whichever rank it is, it has got the same two numbers
        have hget : r = ⟨s.created.length, gcpl⟩ := by
          rcases List.mem_cons.mp (List.fst_mem_of_mem_zipIdx hr) with hfirst | hother
          · exact hfirst
          · obtain ⟨x, -, heq⟩ := List.mem_map.mp hother
            exact heq.symm
        subst hget
        exact ⟨rfl, rfl, rfl, hflags⟩
      leader := fun _ => ⟨_, List.mem_cons_self, rfl⟩
      indexed := hs.indexed
      root := hs.root
      maxOid := Or.inr (hs.maxOid.resolve_left (by simp [hclosed]))
      nonempty := hs.nonempty
      open_iff := by simp [reopened] }

end Steps

/-! ## Runs -/

/-- The operation belongs to a file that is open, or to one that is closed; it is opened again
for writing. -/
def Applies : Bool → Op → Prop
  | isOpen, .createGroup .. => isOpen = true
  | isOpen, .createDataset .. => isOpen = true
  | isOpen, .flush _ => isOpen = true
  | isOpen, .close _ => isOpen = true
  | isOpen, .reopen flags .. => isOpen = false ∧ flags &&& accRdwr ≠ 0

/-- Only a close leaves the file closed. -/
def opens : Op → Bool
  | .close _ => false
  | _ => true

/-- Each operation applies to what the one before it has left. -/
def Valid : Bool → List Op → Prop
  | _, [] => True
  | isOpen, op :: ops => Applies isOpen op ∧ Valid (opens op) ops

/-- How many objects an operation creates. -/
def creates : Op → Nat
  | .createGroup .. => 1
  | .createDataset .. => 1
  | _ => 0

/-- The objects that a sequence of operations creates. -/
def creations (ops : List Op) : Nat := (ops.map creates).sum

section Runs

variable {gcpl : List Byte} {s : SharedFile}

theorem creates_group (hs : Counted s) (allColl : Bool) (data : List Byte)
    (parent : Key × CString) :
    Creates s (fun file => groupCreate file allColl data parent) .group data
      (fun file => (if file.acts (file.collective || allColl) then some parent else none).elim []
        (linkTo file .group))
      (fun file => file.acts (file.collective || allColl)) where
  create_eq := by
    intro h hh
    simp [groupCreate, groupCreateHelper, (hs.handles h hh).writable]
  links_only := by
    intro h key d hmem
    split at hmem
    · simp [linkTo] at hmem
    · cases hmem
  leader_acts := by
    intro h hzero
    simp [FileHandle.acts, hzero]

theorem creates_dataset (allColl : Bool) (info : DatasetInfo) (parent : Key × CString) :
    Creates s (fun file => datasetCreate file allColl info parent) .dataset (datasetRecord info)
      (fun file => linkTo file .dataset parent)
      (fun file => file.acts (file.collective || allColl)) where
  create_eq := fun _ _ => rfl
  links_only := by
    intro h key d hmem
    simp [linkTo] at hmem
  leader_acts := by
    intro h hzero
    simp [FileHandle.acts, hzero]

/-- Every operation succeeds and keeps the invariant. -/
theorem Inv.step (hfits : gcpl.length ≤ 1008) {isOpen : Bool} (hs : Inv gcpl isOpen s) {op : Op}
    (hop : Applies isOpen op) (hfew : Index (s.created.length + creates op)) :
    ∃ s', s.step op = .ok s' ∧ Inv gcpl (opens op) s' ∧
      s'.created.length = s.created.length + creates op := by
  cases op with
  | createGroup allColl data parent sched =>
    -- an open file: every rank takes the next id, whatever the order
    obtain rfl : isOpen = true := hop
    have hc := creates_group hs.toCounted allColl data parent
    exact ⟨_, createAll_eq hc sched, hs.create hfew hc sched, by simp [afterCreate, creates]⟩
  | createDataset allColl info parent sched =>
    obtain rfl : isOpen = true := hop
    have hc := @creates_dataset s allColl info parent
    exact ⟨_, createAll_eq hc sched, hs.create hfew hc sched, by simp [afterCreate, creates]⟩
  | flush sched =>
    -- flush and close leave the ids and only move the stored maximum
    obtain rfl : isOpen = true := hop
    exact ⟨_, rfl, hs.flush hfew sched, rfl⟩
  | close sched =>
    obtain rfl : isOpen = true := hop
    exact ⟨_, rfl, hs.close hfew sched, rfl⟩
  | reopen flags collective info m others =>
    -- a closed file: the maximum is read back from the store
    obtain ⟨rfl, hflags⟩ := hop
    obtain ⟨s', hopen, hinv, hcreated⟩ :=
      hs.reopen hfits hfew hflags collective info m others
    exact ⟨s', hopen, hinv, congrArg List.length hcreated⟩

/-- So does every run, by induction on its operations. -/
theorem Inv.run (hfits : gcpl.length ≤ 1008) {isOpen : Bool} (hs : Inv gcpl isOpen s)
    {ops : List Op} (hvalid : Valid isOpen ops) (hfew : Index (s.created.length + creations ops)) :
    ∃ s' isOpen', s.run ops = .ok s' ∧ Inv gcpl isOpen' s' ∧
      s'.created.length = s.created.length + creations ops := by
  induction ops generalizing s isOpen with
  | nil => exact ⟨s, isOpen, rfl, hs, rfl⟩
  | cons op ops ih =>
    have hcount : creations (op :: ops) = creates op + creations ops := by simp [creations]
    rw [hcount] at hfew
    have hone : Index (s.created.length + creates op) := hfew.of_le (by omega)
    obtain ⟨s₁, hstep, hinv, hlen⟩ := hs.step hfits hvalid.1 hone
    obtain ⟨s', isOpen', hrun, hinv', hlen'⟩ := ih hinv hvalid.2 (by rwa [hlen, add_assoc])
    refine ⟨s', isOpen', ?_, hinv', by omega⟩
    rw [SharedFile.run, List.foldlM_cons, hstep, ok_bind]
    exact hrun

end Runs

/-! ## New files -/

/-- A new file is opened for writing. -/
theorem createFlags_writable (flags : Nat) : createFlags flags &&& accRdwr ≠ 0 := by
  rw [createFlags, accRdwr, Nat.and_one_is_mod, Nat.or_mod_two_eq_one.mpr (Or.inr (by decide))]
  exact Nat.one_ne_zero

/-- The file before it has a root group. -/
def fresh (store : MdStore) (name : FileName) (flags : Nat) (collective : Bool)
    (numProcs : Nat) : SharedFile :=
  ⟨name, store, (List.range numProcs).map (newHandle name flags collective), []⟩

theorem counted_fresh (store : MdStore) (name : FileName) (flags : Nat) (collective : Bool)
    {numProcs : Nat} (hprocs : 0 < numProcs) :
    Counted (fresh store name flags collective numProcs) where
  handles := by
    intro h hmem
    obtain ⟨rank, -, rfl⟩ := List.mem_map.mp hmem
    exact ⟨rfl, rfl, rfl, createFlags_writable flags⟩
  leader := fun _ => ⟨_, List.mem_map_of_mem (List.mem_range.mpr hprocs), rfl⟩
  indexed := nofun

theorem index_one : Index (0 + 1) := by
  unfold Index
  decide

/-- The root group gets the index 1. -/
theorem creates_root {s : SharedFile} (hs : Counted s) (hnone : s.created = []) (gcpl : List Byte) :
    Creates s (createRoot gcpl) .group gcpl (fun _ => []) (fun h => h.acts true) where
  create_eq := by
    intro h hh
    have hhandle : HandleOf s.name 0 h := by
      have hcounted := hs.handles h hh
      rwa [hnone] at hcounted
    have hone : oidToIdx (createObject h .group gcpl [] (h.acts true)).obj.binOid = 1 := by
      rw [createObject_obj hhandle, oidToIdx_objectOf s.name index_one]
      rfl
    simp [createRoot, groupCreateHelper, hhandle.writable, assertRoot, hone]
  links_only := fun _ _ _ => List.not_mem_nil
  leader_acts := by
    intro h hzero
    simp [FileHandle.acts, hzero]

/-- A new file has one object. -/
theorem createFile_inv (store : MdStore) (name : FileName) (flags : Nat) (collective : Bool)
    (gcpl : List Byte) {numProcs : Nat} (hprocs : 0 < numProcs) (sched : Schedule) :
    ∃ s, SharedFile.createFile store name flags collective gcpl numProcs sched = .ok s ∧
      Inv gcpl true s ∧ s.name = name ∧ s.created.length = 1 := by
  have hs := counted_fresh store name flags collective hprocs
  have hc := creates_root hs rfl gcpl
  have hopen : (fresh store name flags collective numProcs).ranks ≠ [] := by
    simp [fresh, hprocs.ne']
  obtain ⟨hroot, hdirty⟩ := afterCreate_leader hs hc hopen sched
  refine ⟨_, createAll_eq hc sched, ?_, rfl, rfl⟩
  exact {
    toCounted := counted_afterCreate hs index_one sched
    root := hroot
    maxOid := Or.inl hdirty
    nonempty := List.cons_ne_nil _ _
    open_iff := by simpa [afterCreate] using hopen }

/-! ## The ids of a file -/

/-- What the ids of a file have to satisfy: in each creation the ranks have got the same object,
different creations have different ids, none of them is the global metadata object, and the ranks
agree on the highest index. -/
structure Sound (s : SharedFile) : Prop where
  agree : ∀ e ∈ s.created, ∀ a ∈ e, ∀ b ∈ e, a = b
  distinct : s.created.Pairwise fun e e' =>
    ∀ a ∈ e, ∀ b ∈ e', a.binOid ≠ b.binOid ∧ a.oid ≠ b.oid
  not_global : ∀ e ∈ s.created, ∀ a ∈ e, a.binOid ≠ 0 ∧ a.oid ≠ stringName s.name.name 0
  same_max : ∀ h ∈ s.ranks, ∀ h' ∈ s.ranks, h.maxOid = h'.maxOid
  below_max : ∀ e ∈ s.created, ∀ a ∈ e, ∀ h ∈ s.ranks, oidToIdx a.binOid ≤ h.maxOid

/-- The stored number is the one that a rank has in its memory. -/
def StoresMax (store : MdStore) (h : FileHandle) : Prop :=
  store.objects h.globMdOid = some (encode64 h.maxOid.toNat)

/-- The index of a creation is at most the number of creations. -/
theorem Inv.created_eq {gcpl : List Byte} {isOpen : Bool} {s : SharedFile}
    (hs : Inv gcpl isOpen s) {e : List ObjId} (he : e ∈ s.created) :
    ∃ i type, i < s.created.length ∧ ∀ a ∈ e, a = objectOf s.name (i + 1) type := by
  obtain ⟨i, hi, rfl⟩ := List.mem_iff_getElem.mp he
  obtain ⟨type, hall⟩ := hs.indexed i _ (List.getElem?_eq_getElem hi)
  exact ⟨i, type, hi, hall⟩

theorem Inv.sound {gcpl : List Byte} {isOpen : Bool} {s : SharedFile} (hs : Inv gcpl isOpen s)
    (hfew : Index s.created.length) : Sound s where
  agree := by
    intro e he a ha b hb
    -- the ids of one creation are the object of its index
    obtain ⟨i, type, -, hall⟩ := hs.created_eq he
    rw [hall a ha, hall b hb]
  distinct := by
    rw [List.pairwise_iff_getElem]
    intro i j hi hj hij a ha b hb
    -- two creations have two indices, and the ids tell indices apart
    obtain ⟨type, hall⟩ := hs.indexed i _ (List.getElem?_eq_getElem hi)
    obtain ⟨type', hall'⟩ := hs.indexed j _ (List.getElem?_eq_getElem hj)
    have hne : i + 1 ≠ j + 1 := by omega
    rw [hall a ha, hall' b hb]
    exact ⟨binOid_ne (hfew.of_le hi) (hfew.of_le hj) hne _ _,
      oid_ne (hfew.of_le hi) (hfew.of_le hj) hne _ _⟩
  not_global := by
    intro e he a ha
    -- an index is positive, and the global object is index zero
    obtain ⟨i, type, hi, hall⟩ := hs.created_eq he
    have hindex : Index (i + 1) := hfew.of_le hi
    rw [hall a ha]
    exact ⟨binOid_ne_zero s.name hindex i.succ_pos type,
      oid_ne_global s.name hindex i.succ_pos type⟩
  same_max := by
    intro h hh h' hh'
    rw [(hs.handles h hh).maxOid, (hs.handles h' hh').maxOid]
  below_max := by
    intro e he a ha h hh
    -- an index is at most the number of creations, which is every rank's maximum
    obtain ⟨i, type, hi, hall⟩ := hs.created_eq he
    have hindex : Index (i + 1) := hfew.of_le hi
    rw [hall a ha, UInt64.le_iff_toNat_le, index_objectOf s.name hindex, (hs.handles h hh).maxOid,
      hfew.toNat]
    omega

/-- A flush, alone or before the file is closed. -/
def Flushes : Op → Prop
  | .flush _ => True
  | .close _ => True
  | _ => False

/-- A flush by all ranks stores the number that they have. -/
theorem Inv.flush_stores {gcpl : List Byte} {isOpen : Bool} {s : SharedFile}
    (hs : Inv gcpl isOpen s) (hfew : Index s.created.length) (sched : Schedule) {h : FileHandle}
    (hh : h ∈ s.ranks ++ (s.flushAll sched).ranks) : StoresMax (s.flushAll sched).store h := by
  -- the mark does not matter
  have hsame : h.globMdOid = stringName s.name.name 0 ∧
      h.maxOid = UInt64.ofNat s.created.length := by
    rw [flushAll_ranks hs.toCounted sched] at hh
    rcases List.mem_append.mp hh with hbefore | hafter
    · have hhandle := hs.handles h hbefore
      exact ⟨hhandle.globMdOid, hhandle.maxOid⟩
    · obtain ⟨h₀, hh₀, rfl⟩ := List.mem_map.mp hafter
      have hhandle := hs.handles h₀ hh₀
      exact ⟨hhandle.globMdOid, hhandle.maxOid⟩
  unfold StoresMax
  rw [hsame.1, hsame.2, hfew.toNat]
  exact flushAll_stores hs.toCounted hs.toStored hfew sched

/-- A flush and a close store the number that the ranks have before and after. -/
theorem Inv.stores_max {gcpl : List Byte} {isOpen : Bool} {s s' : SharedFile}
    (hs : Inv gcpl isOpen s) (hfew : Index s.created.length) {op : Op} (hop : Flushes op)
    (hstep : s.step op = .ok s') {h : FileHandle} (hh : h ∈ s.ranks ++ s'.ranks) :
    StoresMax s'.store h := by
  cases op with
  | flush sched =>
    obtain rfl := Except.ok.inj hstep
    exact hs.flush_stores hfew sched hh
  | close sched =>
    obtain rfl := Except.ok.inj hstep
    have hbefore : h ∈ s.ranks := by simpa [SharedFile.closeAll] using hh
    exact hs.flush_stores hfew sched (List.mem_append_left _ hbefore)
  | createGroup => exact hop.elim
  | createDataset => exact hop.elim
  | reopen => exact hop.elim

/-- **Object ids over the lifetime of a file.**  For any store, any number of ranks, a root
creation list that fits, and any sequence of creations, flushes, closes and opens by all ranks, in
which the writes of the ranks reach the store in any order, with fewer than `2^62 - 1` objects:
every operation succeeds, the ids are sound in every state, and every flush and every close
stores the number that the ranks have. -/
theorem object_ids (store : MdStore) (name : FileName) (flags : Nat) (collective : Bool)
    {gcpl : List Byte} (hfits : gcpl.length ≤ 1008) {numProcs : Nat} (hprocs : 0 < numProcs)
    (sched : Schedule) {ops : List Op} (hvalid : Valid true ops)
    (hfew : creations ops + 1 < 4611686018427387904) :
    ∃ s, (SharedFile.createFile store name flags collective gcpl numProcs sched >>= fun s₀ =>
        s₀.run ops) = .ok s ∧ s.created.length = creations ops + 1 ∧ Sound s ∧
      ∀ op s', Flushes op → s.step op = .ok s' → ∀ h ∈ s.ranks ++ s'.ranks,
        StoresMax s'.store h := by
  obtain ⟨s₀, hcreate, hinv₀, -, hlen₀⟩ :=
    createFile_inv store name flags collective gcpl hprocs sched
  have hcount : Index (s₀.created.length + creations ops) := by
    unfold Index
    omega
  obtain ⟨s, isOpen, hrun, hinv, hlen⟩ := hinv₀.run hfits hvalid hcount
  have hindex : Index s.created.length := by rwa [hlen]
  refine ⟨s, by rw [hcreate, ok_bind, hrun], by omega, hinv.sound hindex, ?_⟩
  intro op s' hop hstep h hh
  exact hinv.stores_max hindex hop hstep hh

/-! ## A small file -/

theorem perm_self (ws : List MdWrite) : ws.Perm ws := List.Perm.refl ws

/-- The writes arrive as the ranks are numbered. -/
def inOrder : Schedule := ⟨id, perm_self⟩

theorem nul_notMem_f : nul ∉ ['f'] := by decide

theorem length_f : ['f'].length < 2147482624 := by decide

/-- A file `f` in an empty store. -/
def nameF : FileName := ⟨['f'], nul_notMem_f, length_f⟩

def emptyStore : MdStore := ⟨fun _ => none, fun _ _ => []⟩

/-- A group is created collectively, the file is closed and opened by three ranks, and each of
them creates a dataset. -/
def twoObjects : List Op :=
  [.createGroup true [1] (stringName ['f'] 1, ⟨[97], zero_notMem_a⟩) inOrder, .close inOrder,
    .reopen 1 false none ⟨fun _ => 0, fun _ => 0⟩
      [⟨fun _ => 1, fun _ => 1⟩, ⟨fun _ => 2, fun _ => 2⟩],
    .createDataset false ⟨[1], [2], [3]⟩ (stringName ['f'] 1, ⟨[98], zero_notMem_b⟩) inOrder]

theorem object_ids_two :
    ∃ s, (SharedFile.createFile emptyStore nameF 0 false [7, 7] 3 inOrder >>= fun s₀ =>
        s₀.run twoObjects) = .ok s ∧ s.created.length = creations twoObjects + 1 ∧ Sound s ∧
      ∀ op s', Flushes op → s.step op = .ok s' → ∀ h ∈ s.ranks ++ s'.ranks,
        StoresMax s'.store h :=
  object_ids emptyStore nameF 0 false (by decide) (by decide) inOrder
    ⟨rfl, rfl, ⟨rfl, by decide⟩, rfl, trivial⟩ (by decide)

end DTIO.Properties.ObjectIds
