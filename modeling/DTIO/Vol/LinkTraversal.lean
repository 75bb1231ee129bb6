import DTIO.Vol.LinkGraph

/-!
# Traversals of Link Graphs

When `H5VL_dtio_link_read` returns the links of a graph, `H5VL_dtio_link_follow` and
`H5VL_dtio_group_traverse` resolve paths in that graph, with the reading of the connector.

## Main definitions

- `Reads`: these links of a graph are read
- `Within`: a resolution follows only these links
- `Matches`: a function of the connector does what a resolution says

## Main results

- `linkFollow_matches`, `groupTraverse_matches`: the two functions do
- `reads_of_stored`: links that are stored are read, where `link_read` copies their targets
-/

namespace DTIO.Vol.LinkGraph

open DTIO.Posix DTIO.Vol DTIO.CallTree

variable {σ P : Type}

/-! ## Names of a path -/

/-- `strchr` finds all slashes. -/
theorem splitOn_eq_splitPath (path : List Byte) :
    path.splitOn slash = (splitPath path).1 ++ [(splitPath path).2] := by
  induction path with
  | nil => rfl
  | cons b path ih =>
    rw [List.splitOn_cons_eq_if_modifyHead, ih]
    rcases h : splitPath path with ⟨names, last⟩
    by_cases hb : b = slash
    · simp [splitPath, consPath, hb, h]
    · simp only [splitPath, h, consPath, if_neg hb]
      -- the byte belongs to the first name, which may be the last one
      cases names with
      | nil => simp [hb]
      | cons name names => simp [hb]

theorem pathGroups_eq (path : List Byte) : pathGroups path = (splitPath (afterRoot path)).1 := by
  simp [pathGroups, pathNames, splitOn_eq_splitPath]

theorem pathLast_eq (path : List Byte) : pathLast path = (splitPath (afterRoot path)).2 := by
  simp [pathLast, pathNames, splitOn_eq_splitPath]

/-! ## What is read and opened -/

section Context

variable {c : Context σ P} {g : Graph}

/-- There is an object with this oid. -/
def Stored (c : Context σ P) (oid : UInt64) : Prop :=
  c.objects.object (stringName c.file.name.name oid.toNat) ≠ []

/-- A handle of an object that is there. -/
structure Named (c : Context σ P) (grp : OpenGroup P) : Prop where
  oid_eq : grp.oid = stringName c.file.name.name grp.binOid.toNat
  stored : Stored c grp.binOid

/-- The result of `H5VL_dtio_link_read`. -/
def readResult : Option LinkVal → Except Stop LinkVal
  | some val => .ok val
  | none => .error .fail

/-- Every call of `H5VL_dtio_link_read` for one of `links` returns what the graph has, hard links
lead to objects, and the root group is there. -/
structure Reads (c : Context σ P) (g : Graph) (links : Set Link) : Prop where
  read : ∀ calls oid name, (oid, CString.ofBuffer name) ∈ links →
    linkRead c.omap c.state ⟨stringName c.file.name.name oid.toNat, c.file.flags⟩
      (CString.ofBuffer name)
      (c.memory calls (stringName c.file.name.name oid.toNat) name).heap
      (c.memory calls (stringName c.file.name.name oid.toNat) name).behind =
        readResult (g oid (CString.ofBuffer name))
  hard : ∀ oid name target, g oid name = some (.hard target) → Stored c target
  root : Named c c.file.rootGrp

theorem Reads.mono {links links' : Set Link} (h : Reads c g links) (hsub : links' ⊆ links) :
    Reads c g links' :=
  ⟨fun calls oid name hmem => h.read calls oid name (hsub hmem), h.hard, h.root⟩

theorem handOver_ok (gcpl : List Byte) {out : GcplOut} (hout : out = none ∨ out = some .null) :
    ∃ out', handOver gcpl out = .ok out' ∧ out' ≠ some .freed := by
  rcases hout with rfl | rfl
  · exact ⟨none, rfl, by simp⟩
  · exact ⟨_, rfl, by simp⟩

/-- Every object can be opened as a group. -/
theorem openHelper_named {oid : UInt64} (h : Stored c oid) {out : GcplOut}
    (hout : out = none ∨ out = some .null) :
    ∃ grp out', openHelper c oid out = .ok (grp, out') ∧ grp.binOid = oid ∧ Named c grp ∧
      out' ≠ some .freed := by
  have hne : ¬ c.objects.object (stringName c.file.name.name oid.toNat) = [] := h
  obtain ⟨out', hgive, hout'⟩ := handOver_ok (c.objects.object
    (stringName c.file.name.name oid.toNat)) hout
  have hopen : openHelper c oid out = .ok (⟨oid, stringName c.file.name.name oid.toNat,
      c.plist.decode (c.objects.object (stringName c.file.name.name oid.toNat))⟩, out') := by
    rw [openHelper, if_neg hne, hgive]
    rfl
  exact ⟨_, out', hopen, rfl, ⟨rfl, h⟩, hout'⟩

/-! ## Functions that resolve -/

/-- A function does what a resolution says: `found` tells what it returns for an object.  A
resolution without an answer runs out of stack. -/
def Matches {α : Type} (found : UInt64 → α → Prop) : Option Answer → Except Stop α → Prop
  | some (.leads oid), r => ∃ a, r = .ok a ∧ found oid a
  | some (.halts .fails), r => r = .error .fail
  | some (.halts _), r => r = .error .fault
  | none, r => r = .error .fault

/-- Only a resolution that fails makes a function fail. -/
theorem Matches.halts {α : Type} {found : UInt64 → α → Prop} {why : Halt} {r : Except Stop α}
    (h : Matches found (some (.halts why)) r) :
    ∃ e, r = .error e ∧ (e = .fail ↔ why = .fails) := by
  cases why with
  | fails => exact ⟨_, h, by simp⟩
  | aborts => exact ⟨_, h, by simp⟩
  | dots => exact ⟨_, h, by simp⟩

/-- A function that goes on where the resolution does. -/
theorem Matches.bind {α β : Type} {found : UInt64 → α → Prop} {found' : UInt64 → β → Prop}
    {ans : Option Answer} {r : Except Stop α} {k : UInt64 → Prog Link Answer}
    {next : α → Except Stop β} {f : Link → Option Answer} (h : Matches found ans r)
    (hnext : ∀ oid a, ans = some (.leads oid) → found oid a →
      Matches found' ((k oid).run f) (next a)) :
    Matches found' (ans.bind fun a => (onLeads k a).run f) (r >>= next) := by
  match ans, h with
  | some (.leads oid), ⟨a, hr, hfound⟩ =>
    rw [hr]
    exact hnext oid a rfl hfound
  | some (.halts .fails), hr =>
    rw [hr]
    rfl
  | some (.halts .aborts), hr =>
    rw [hr]
    rfl
  | some (.halts .dots), hr =>
    rw [hr]
    rfl
  | none, hr =>
    rw [hr]
    rfl

/-- Where a link leads, and that there is an object. -/
def LeadsTo (c : Context σ P) (oid : UInt64) (target : UInt64 × Nat) : Prop :=
  target.1 = oid ∧ Stored c oid

/-- A function that follows some links. -/
def Follows (c : Context σ P) (links : Set Link) (f : Link → Option Answer) (follow : Follow P) :
    Prop :=
  ∀ grp name calls, Named c grp → (grp.binOid, CString.ofBuffer name) ∈ links →
    Matches (LeadsTo c) (f (grp.binOid, CString.ofBuffer name)) (follow grp name calls)

/-- A resolution follows no other links. -/
def Within (f : Link → Option Answer) (links : Set Link) (p : Prog Link Answer) : Prop :=
  ∀ link, p.Calls (fun link a => f link = some a) link → link ∈ links

/-- The group of a traversal. -/
structure At (c : Context σ P) (oid : UInt64) (t : Traversal P) : Prop where
  binOid : t.grp.binOid = oid
  named : Named c t.grp
  out : t.out ≠ some .freed

variable {f : Link → Option Answer} {follow : Follow P} {links : Set Link}

theorem Within.group {rd : Reading} {k : UInt64 → Prog Link Answer} {cur : UInt64}
    {names : List (List Byte)} (h : Within f links (walk rd k cur names)) :
    Within f links (walk rd (fun oid => .ret (.leads oid)) cur names) :=
  fun link hcalls => h link (calls_walk_group hcalls)

theorem Within.last {rd : Reading} {k : UInt64 → Prog Link Answer} {cur oid : UInt64}
    {names : List (List Byte)} (h : Within f links (walk rd k cur names))
    (hrun : (walk rd (fun oid => .ret (.leads oid)) cur names).run f = some (.leads oid)) :
    Within f links (k oid) :=
  fun link hcalls => h link (calls_walk_last (fun _ _ ha => ha) hrun hcalls)

theorem freeOut_ok {out : GcplOut} (h : out ≠ some .freed) :
    ∃ out', freeOut out = .ok out' ∧ (out' = none ∨ out' = some .null) := by
  cases out with
  | none => exact ⟨none, rfl, Or.inl rfl⟩
  | some q =>
    cases q with
    | null => exact ⟨_, rfl, Or.inr rfl⟩
    | live => exact ⟨_, rfl, Or.inr rfl⟩
    | freed => exact absurd rfl h

/-- One step, at a name that is not empty. -/
theorem traverseStep_matches (hfollow : Follows c links f follow) {oid : UInt64}
    {t : Traversal P} (ht : At c oid t) {name : List Byte} (hname : name ≠ [])
    (hlink : (oid, CString.ofBuffer name) ∈ links) :
    Matches (At c) (f (oid, CString.ofBuffer name)) (traverseStep c follow t name) := by
  -- a list of an earlier round can be freed
  obtain ⟨out, hfree, hout⟩ := freeOut_ok ht.out
  have hcalled := hfollow t.grp name t.calls ht.named (ht.binOid ▸ hlink)
  rw [ht.binOid] at hcalled
  simp only [traverseStep, hfree, ok_bind, assertName, if_neg hname]
  -- the case split is on what the graph says of the link
  match hans : f (oid, CString.ofBuffer name), hcalled with
  -- an object: it is opened as a group, whatever it is
  | some (.leads target), ⟨a, hr, hto, hstored⟩ =>
    obtain ⟨grp, out', hopen, hbin, hnamed, hout'⟩ := openHelper_named hstored hout
    rw [hr, ok_bind, hto, hopen]
    exact ⟨_, rfl, hbin, hnamed, hout'⟩
  -- no object: the call fails as the graph says, and so does the step
  | some (.halts .fails), hr =>
    rw [hr]
    rfl
  | some (.halts .aborts), hr =>
    rw [hr]
    rfl
  | some (.halts .dots), hr =>
    rw [hr]
    rfl
  | none, hr =>
    rw [hr]
    rfl

/-- The loop, by induction on the names. -/
theorem traverse_matches (hfollow : Follows c links f follow) (names : List (List Byte))
    {oid : UInt64} {t : Traversal P} (ht : At c oid t)
    (hwithin : Within f links (walk connector (fun oid => .ret (.leads oid)) oid names)) :
    Matches (At c) ((walk connector (fun oid => .ret (.leads oid)) oid names).run f)
      (names.foldlM (traverseStep c follow) t) := by
  induction names generalizing oid t with
  | nil => exact ⟨t, rfl, ht⟩
  | cons name names ih =>
    rw [List.foldlM_cons]
    by_cases hname : name = []
    · -- the assertion fails
      obtain ⟨out, hfree, -⟩ := freeOut_ok ht.out
      rw [walk_halt (if_pos hname)]
      simp only [traverseStep, hfree, ok_bind, assertName, if_pos hname, error_bind]
      rfl
    · rw [walk_follow (if_neg hname)] at hwithin ⊢
      have hstep := traverseStep_matches hfollow ht hname (hwithin _ .here)
      refine hstep.bind fun next _ hnext ht' => ?_
      exact ih ht' fun link hcalls => hwithin link (.later hnext hcalls)

/-- The group that relative paths begin at. -/
inductive Begins (c : Context σ P) : Item P → UInt64 → Prop
  | file : Begins c .file c.file.rootGrp.binOid
  | group {grp : OpenGroup P} (hgrp : Named c grp) : Begins c (.group grp) grp.binOid

theorem startGroup_ok (hg : Reads c g links) {item : Item P} {cur : UInt64}
    (hitem : Begins c item cur) (path : List Byte) :
    ∃ start, startGroup c item path = .ok start ∧ Named c start ∧
      start.binOid = pathStart c.file.rootGrp.binOid cur path := by
  unfold startGroup pathStart
  by_cases hslash : path.head? = some slash
  · exact ⟨_, if_pos hslash, hg.root, (if_pos hslash).symm⟩
  · simp only [if_neg hslash]
    cases hitem with
    | file => exact ⟨_, rfl, hg.root, rfl⟩
    | group hgrp => exact ⟨_, rfl, hgrp, rfl⟩

/-- What `H5VL_dtio_group_traverse` returns for a group. -/
def Traverses (c : Context σ P) (path : List Byte) (oid : UInt64) (t : Traversed P) : Prop :=
  At c oid t.toTraversal ∧ t.name = pathLast path

/-- **Traversals.**  `H5VL_dtio_group_traverse` resolves all but the last name of a path. -/
theorem groupTraverse_matches (hg : Reads c g links) (hfollow : Follows c links f follow)
    {item : Item P} {cur : UInt64} (hitem : Begins c item cur) (path : List Byte) {out : GcplOut}
    (hout : out ≠ some .freed) (calls : Nat)
    (hwithin : Within f links (resolveGroup connector c.file.rootGrp.binOid cur path)) :
    Matches (Traverses c path)
      ((resolveGroup connector c.file.rootGrp.binOid cur path).run f)
      (groupTraverse c follow item path out calls) := by
  obtain ⟨start, hstart, hnamed, hoid⟩ := startGroup_ok hg hitem path
  have hat : At c start.binOid ⟨start, out, calls⟩ := ⟨rfl, hnamed, hout⟩
  -- behind the loop, the last name is handed out as it is
  have hname : ∀ oid t, At c oid t → Matches (Traverses c path)
      ((Prog.ret (.leads oid) : Prog Link Answer).run f)
      (.ok (⟨t, (splitPath (afterRoot path)).2⟩ : Traversed P)) :=
    fun oid t ht => ⟨_, rfl, ht, (pathLast_eq path).symm⟩
  have hdone := (traverse_matches hfollow (pathGroups path) hat (hoid ▸ hwithin)).bind
    fun oid t _ => hname oid t
  rw [← run_walk, hoid, pathGroups_eq] at hdone
  simp only [groupTraverse, hstart, ok_bind, resolveGroup]
  rw [pathGroups_eq]
  exact hdone

/-- The last name. -/
theorem followLast_matches (hfollow : Follows c links f follow) {path : List Byte} {oid : UInt64}
    {t : Traversed P} (ht : Traverses c path oid t)
    (hwithin : Within f links (lastStep (pathLast path) oid)) :
    Matches (LeadsTo c) ((lastStep (pathLast path) oid).run f) (followLast follow t) := by
  obtain ⟨hat, hname⟩ := ht
  unfold followLast lastStep
  rw [hname]
  by_cases hstands : standsForGroup (pathLast path)
  · rw [if_pos hstands, if_pos hstands]
    exact ⟨_, rfl, hat.binOid, hat.binOid ▸ hat.named.stored⟩
  · rw [lastStep, if_neg hstands] at hwithin
    rw [if_neg hstands, if_neg hstands]
    have hcalled := hfollow t.grp (pathLast path) t.calls hat.named
      (hat.binOid ▸ hwithin _ .here)
    rw [hat.binOid] at hcalled
    rwa [Prog.run_call_ret]

/-- With a link, the links that are followed for it are among these. -/
def Closed (g : Graph) (root : UInt64) (links : Set Link) : Prop :=
  ∀ link ∈ links, ∀ link', LeadsOver connector g root link link' → link' ∈ links

/-- **Links.**  `H5VL_dtio_link_follow` follows the links of the graph that are read, by induction
on the room on the stack. -/
theorem linkFollow_matches (hg : Reads c g links)
    (hclosed : Closed g c.file.rootGrp.binOid links) (depth : Nat) :
    Follows c links (eval (followBody connector g c.file.rootGrp.binOid) depth)
      (linkFollow c depth) := by
  induction depth with
  | zero => exact fun _ _ _ _ _ => rfl
  | succ depth ih =>
    intro grp name calls hnamed hlink
    have hread := hg.read calls grp.binOid name hlink
    rw [← hnamed.oid_eq] at hread
    simp only [linkFollow, eval, followBody]
    rw [hread]
    cases hval : g grp.binOid (CString.ofBuffer name) with
    | none => rfl
    | some val =>
      cases val with
      | hard oid => exact ⟨_, rfl, rfl, hg.hard _ _ _ hval⟩
      | soft target =>
        have hwithin : Within (eval (followBody connector g c.file.rootGrp.binOid) depth) links
            (resolve connector c.file.rootGrp.binOid grp.binOid target.bytes) := by
          intro link hcalls
          refine hclosed _ hlink link ?_
          unfold LeadsOver CallsTo followBody
          rw [hval]
          exact hcalls.mono fun _ _ ha => ⟨depth, ha⟩
        -- the target of the link is traversed, and its last name is followed in the group
        have htraverse := groupTraverse_matches hg ih (.group hnamed) target.bytes
          (by simp : (none : GcplOut) ≠ some .freed) (calls + 1) hwithin.group
        have hresolved := htraverse.bind fun _ _ hoid ht =>
          followLast_matches ih ht (hwithin.last hoid)
        rw [← run_resolve] at hresolved
        exact hresolved
      | unsupported => rfl

/-- Links that are stored are read, where the memory that `H5VL_dtio_link_read` copies the target
of a soft link from begins with it. -/
theorem reads_of_stored {contents : σ → Key → CString → List Byte} {links : Set Link}
    (hkv : c.omap.Exact contents) (hsupported : ∀ oid name val, g oid name = some val →
      val.Supported)
    (hlinks : ∀ oid name, contents c.state (stringName c.file.name.name oid.toNat) name =
      (g oid name).elim [] linkBytes)
    (hmem : ∀ calls oid name target, (oid, CString.ofBuffer name) ∈ links →
      g oid (CString.ofBuffer name) = some (.soft target) →
      ∃ heap, (c.memory calls (stringName c.file.name.name oid.toNat) name).heap = some heap ∧
        target.bytes <+: (c.memory calls (stringName c.file.name.name oid.toNat) name).behind)
    (hhard : ∀ oid name target, g oid name = some (.hard target) → Stored c target)
    (hroot : Named c c.file.rootGrp) : Reads c g links where
  read calls oid name hlink := by
    rw [linkRead_eq hkv, hlinks]
    cases hval : g oid (CString.ofBuffer name) with
    | none => rfl
    | some val =>
      cases val with
      | hard target => exact decodeLinkVal_hard _ _ target
      | soft target =>
        obtain ⟨heap, hheap, hbehind⟩ := hmem calls oid name target hlink hval
        rw [hheap]
        -- what is copied begins with the target and its terminator
        refine (decodeLinkVal_soft heap hbehind.length_le).trans ?_
        rw [← List.prefix_iff_eq_take.mp hbehind, CString.ofBuffer_terminated target []]
        rfl
      | unsupported => exact (hsupported _ _ _ hval).elim
  hard := hhard
  root := hroot

end Context

end DTIO.Vol.LinkGraph
