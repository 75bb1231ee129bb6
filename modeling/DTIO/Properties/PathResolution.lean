import DTIO.Properties.GroupOpen
import DTIO.Properties.StoreKeys
import DTIO.Vol.LinkTraversal

/-!
# Path Resolution

In the reference, repeated slashes count as one and a dot is the group itself.
`H5VL_dtio_group_traverse` asserts that no name in front of a slash is empty, and looks a dot there
up as the name of a link.  Only the last name may be empty or a dot.

## Main definitions

- `Right`: a traversal, and the link of the last name, lead to where the reference does
- `Met`: the links that are followed for a path
- `Accepted`: where the reading of the connector halts, so does the reference

## Main results

- `right_iff`: the traversal is right if and only if the path is accepted
-/

namespace DTIO.Properties.PathResolution

open DTIO.Posix DTIO.Vol DTIO.Vol.LinkGraph DTIO.CallTree
open DTIO.Properties.LinkValues (listOmap listContents listOmap_exact)
open DTIO.Properties.StoreKeys (stringName_inj)

variable {σ P : Type} {c : Context σ P} {g : Graph} {item : Item P} {cur oid : UInt64}
  {path : List Byte} {out : GcplOut} {calls : Nat}

/-! ## Right traversals -/

/-- The answers of the reference, for all but the last name of a path. -/
def RefGroup (g : Graph) (root cur : UInt64) (path : List Byte) (a : Answer) : Prop :=
  Ends (followBody reference g root) (resolveGroup reference root cur path) a

/-- The answers of the reference. -/
def RefObject (g : Graph) (root cur : UInt64) (path : List Byte) (a : Answer) : Prop :=
  Ends (followBody reference g root) (resolve reference root cur path) a

/-- The last name leads to the object of the reference, if there is one. -/
def RightLast (g : Graph) (root cur : UInt64) (path : List Byte) (follow : Follow P)
    (t : Traversed P) : Prop :=
  (∀ target, RefObject g root cur path (.leads target) →
    ∃ calls', followLast follow t = .ok (target, calls')) ∧
  ((¬ ∃ target, RefObject g root cur path (.leads target)) → followLast follow t = .error .fail)

/-- The traversal returns the group of the reference and the last name, which is right, or fails if
the reference has no group. -/
def RightAt (c : Context σ P) (g : Graph) (item : Item P) (cur : UInt64) (path : List Byte)
    (out : GcplOut) (calls depth : Nat) : Prop :=
  (∀ oid, RefGroup g c.file.rootGrp.binOid cur path (.leads oid) →
    ∃ t, groupTraverse c (linkFollow c depth) item path out calls = .ok t ∧ t.grp.binOid = oid ∧
      t.name = pathLast path ∧
      RightLast g c.file.rootGrp.binOid cur path (linkFollow c depth) t) ∧
  ((¬ ∃ oid, RefGroup g c.file.rootGrp.binOid cur path (.leads oid)) →
    groupTraverse c (linkFollow c depth) item path out calls = .error .fail)

/-- With enough room on the stack, the traversal is right. -/
def Right (c : Context σ P) (g : Graph) (item : Item P) (cur : UInt64) (path : List Byte)
    (out : GcplOut) (calls : Nat) : Prop :=
  ∃ room, ∀ depth, room ≤ depth → RightAt c g item cur path out calls depth

/-! ## Accepted paths -/

/-- Where the plain reading of a path halts, there is no such link, or it is at a dot and the
reference does not lead anywhere either. -/
def Halts (g : Graph) (root : UInt64) (plainly byReference : Prog Link Answer) : Prop :=
  ∀ why, Ends (followBody plain g root) plainly (.halts why) → why = .fails ∨
    why = .dots ∧ ¬ ∃ oid, Ends (followBody reference g root) byReference (.leads oid)

/-- The group of a path, and the object. -/
def Accepted (g : Graph) (root cur : UInt64) (path : List Byte) : Prop :=
  Halts g root (resolveGroup plain root cur path) (resolveGroup reference root cur path) ∧
    Halts g root (resolve plain root cur path) (resolve reference root cur path)

/-- No empty name and no dot is met in front of a slash. -/
def Clear (g : Graph) (root cur : UInt64) (path : List Byte) : Prop :=
  ∀ why, Ends (followBody plain g root) (resolve plain root cur path) (.halts why) → why = .fails

/-! ## What the functions do -/

/-- The links that the connector follows for a path: those of its names, those of the names of
their targets, and so on. -/
def Met (g : Graph) (root cur : UInt64) (path : List Byte) : Set Link :=
  {link | ∃ first, (resolve connector root cur path).Calls
    (Returns (followBody connector g root)) first ∧
      Relation.ReflTransGen (LeadsOver connector g root) first link}

theorem met_closed (root : UInt64) (path : List Byte) : Closed g root (Met g root cur path) := by
  rintro link ⟨first, hfirst, hreach⟩ link' hover
  exact ⟨first, hfirst, hreach.tail hover⟩

/-- The traversal, with room for the resolution. -/
theorem traverse_of_ends (hg : Reads c g (Met g c.file.rootGrp.binOid cur path))
    (hitem : Begins c item cur) (hout : out ≠ some .freed) (calls : Nat) {a : Answer}
    (h : Ends (followBody connector g c.file.rootGrp.binOid)
      (resolveGroup connector c.file.rootGrp.binOid cur path) a) :
    ∃ room, ∀ depth, room ≤ depth → Matches (Traverses c path) (some a)
      (groupTraverse c (linkFollow c depth) item path out calls) := by
  obtain ⟨room, hroom⟩ := h
  refine ⟨room, fun depth hdepth => ?_⟩
  have hmatches := groupTraverse_matches hg (linkFollow_matches hg (met_closed _ _) depth) hitem
    path hout calls fun link hcalls =>
      ⟨link, calls_walk_group (hcalls.mono fun _ _ ha => ⟨depth, ha⟩), .refl⟩
  rwa [run_mono_depth hdepth hroom] at hmatches

/-- The last name, of any traversal to its group. -/
theorem followLast_of_ends (hg : Reads c g (Met g c.file.rootGrp.binOid cur path))
    (hgroup : Ends (followBody connector g c.file.rootGrp.binOid)
      (resolveGroup connector c.file.rootGrp.binOid cur path) (.leads oid)) {a : Answer}
    (h : Ends (followBody connector g c.file.rootGrp.binOid) (lastStep (pathLast path) oid) a) :
    ∃ room, ∀ depth, room ≤ depth → ∀ t, Traverses c path oid t →
      Matches (LeadsTo c) (some a) (followLast (linkFollow c depth) t) := by
  obtain ⟨room, hroom⟩ := h
  obtain ⟨d, hd⟩ := hgroup
  refine ⟨room, fun depth hdepth t ht => ?_⟩
  have hmatches := followLast_matches (linkFollow_matches hg (met_closed _ _) depth) ht
    fun link hcalls => ⟨link, calls_walk_last (fun _ _ ha => ⟨d, ha⟩) hd
      (hcalls.mono fun _ _ ha => ⟨depth, ha⟩), .refl⟩
  rwa [run_mono_depth hdepth hroom] at hmatches

/-- A traversal that halts is right if it fails and the reference has no group. -/
theorem rightAt_halts {depth : Nat} {why : Halt} (h : Matches (Traverses c path)
    (some (.halts why)) (groupTraverse c (linkFollow c depth) item path out calls)) :
    RightAt c g item cur path out calls depth ↔
      why = .fails ∧ ¬ ∃ oid, RefGroup g c.file.rootGrp.binOid cur path (.leads oid) := by
  obtain ⟨e, he, hwhy⟩ := h.halts
  unfold RightAt
  rw [he, ← hwhy]
  constructor
  · rintro ⟨hleads, hfails⟩
    have hnone : ¬ ∃ oid, RefGroup g c.file.rootGrp.binOid cur path (.leads oid) := by
      rintro ⟨oid, hoid⟩
      obtain ⟨t, ht, -⟩ := hleads oid hoid
      cases ht
    exact ⟨Except.error.inj (hfails hnone), hnone⟩
  · rintro ⟨rfl, hnone⟩
    exact ⟨fun oid hoid => absurd ⟨oid, hoid⟩ hnone, fun _ => rfl⟩

/-- A last name is right if it leads to where the reference does, or both do not lead anywhere. -/
theorem rightLast_iff {follow : Follow P} {t : Traversed P} {a : Answer}
    (h : Matches (LeadsTo c) (some a) (followLast follow t))
    (hleads : ∀ target, a = .leads target → RefObject g c.file.rootGrp.binOid cur path a) :
    RightLast g c.file.rootGrp.binOid cur path follow t ↔ ∀ why, a = .halts why →
      why = .fails ∧ ¬ ∃ target, RefObject g c.file.rootGrp.binOid cur path (.leads target) := by
  cases a with
  -- the code arrived at an object: the reference's is the same one
  | leads target =>
    refine iff_of_true ?_ nofun
    have htarget := hleads target rfl
    obtain ⟨⟨target', calls'⟩, hok, rfl, -⟩ := h
    refine ⟨fun other hother => ?_, fun hnone => absurd ⟨_, htarget⟩ hnone⟩
    obtain rfl : other = target' := Answer.leads.inj (hother.unique htarget)
    exact ⟨calls', hok⟩
  | halts why =>
    -- the code stopped: it has to be a failure, and the reference without an object
    obtain ⟨e, he, hwhy⟩ := h.halts
    unfold RightLast
    rw [he]
    constructor
    · rintro ⟨hsome, hnone⟩ why' hwhy'
      obtain rfl : why = why' := Answer.halts.inj hwhy'
      -- an object of the reference would make the code succeed
      have hnot : ¬ ∃ target, RefObject g c.file.rootGrp.binOid cur path (.leads target) := by
        rintro ⟨target, htarget⟩
        obtain ⟨calls', hok⟩ := hsome target htarget
        cases hok
      exact ⟨hwhy.mp (Except.error.inj (hnone hnot)), hnot⟩
    · intro hboth
      obtain ⟨rfl, hnot⟩ := hboth why rfl
      refine ⟨fun target htarget => absurd ⟨target, htarget⟩ hnot, fun _ => ?_⟩
      rw [hwhy.mpr rfl]

/-- A traversal to the group of the reference is right if the last name is. -/
theorem rightAt_leads {depth : Nat} {t : Traversed P}
    (hgroup : RefGroup g c.file.rootGrp.binOid cur path (.leads oid))
    (h : groupTraverse c (linkFollow c depth) item path out calls = .ok t)
    (ht : Traverses c path oid t) :
    RightAt c g item cur path out calls depth ↔
      RightLast g c.file.rootGrp.binOid cur path (linkFollow c depth) t := by
  unfold RightAt
  rw [h]
  constructor
  · rintro ⟨hleads, -⟩
    obtain ⟨t', ht', -, -, hlast⟩ := hleads oid hgroup
    obtain rfl : t = t' := Except.ok.inj ht'
    exact hlast
  · intro hlast
    refine ⟨fun oid' hoid' => ?_, fun hnone => absurd ⟨oid, hgroup⟩ hnone⟩
    obtain rfl : oid = oid' := Answer.leads.inj (hgroup.unique hoid')
    exact ⟨t, rfl, ht.1.binOid, ht.2, hlast⟩

/-! ## Which paths are accepted -/

section Accepted

variable {root : UInt64} {plainly byReference : Prog Link Answer} {a : Answer}

/-- In terms of what the connector ends with. -/
theorem halts_iff (byReference : Prog Link Answer)
    (h : Ends (followBody plain g root) plainly a) (hfails : a = .halts .fails →
      ¬ ∃ oid, Ends (followBody reference g root) byReference (.leads oid)) :
    (∀ why, ending undotted a = .halts why → why = .fails ∧
      ¬ ∃ oid, Ends (followBody reference g root) byReference (.leads oid)) ↔
        Halts g root plainly byReference := by
  constructor
  · intro hends why hwhy
    -- the answer is the one that the plain reading gives
    obtain rfl : a = .halts why := h.unique hwhy
    obtain ⟨hundotted, hnone⟩ := hends _ rfl
    cases why with
    | fails => exact Or.inl rfl
    | aborts => cases hundotted
    | dots => exact Or.inr ⟨rfl, hnone⟩
  · intro hhalts why hwhy
    cases a with
    | leads oid => cases hwhy
    | halts why' =>
      obtain rfl : undotted why' = why := Answer.halts.inj hwhy
      rcases hhalts why' h with rfl | ⟨rfl, hnone⟩
      · exact ⟨rfl, hfails rfl⟩
      · exact ⟨rfl, hnone⟩

/-- A reference that fails too does not lead anywhere. -/
theorem not_leads_of_fails (h : Ends (followBody reference g root) byReference (.halts .fails)) :
    ¬ ∃ oid, Ends (followBody reference g root) byReference (.leads oid) := by
  rintro ⟨oid, hoid⟩
  cases h.unique hoid

end Accepted

theorem clear_group {root : UInt64} (h : Clear g root cur path) (why : Halt)
    (hwhy : Ends (followBody plain g root) (resolveGroup plain root cur path) (.halts why)) :
    why = .fails :=
  h why (ends_resolve_of_halts hwhy)

/-- A clear path is accepted. -/
theorem Clear.accepted {root : UInt64} (h : Clear g root cur path) : Accepted g root cur path :=
  ⟨fun _ hwhy => Or.inl (clear_group h _ hwhy), fun why hwhy => Or.inl (h why hwhy)⟩

/-! ## All paths -/

/-- What the plain reading and the connector share. -/
theorem good_of_dots {root : UInt64} {p : Prog Link Answer}
    (hclear : NoDots g ∨ ∀ why, Ends (followBody plain g root) p (.halts why) → why = .fails)
    {a : Answer} (h : Ends (followBody plain g root) p a) :
    Good (fun why => why = .dots → NoDots g) a := by
  cases a with
  | leads oid => exact trivial
  | halts why =>
    rintro rfl
    rcases hclear with hdots | hclear
    · exact hdots
    · cases hclear _ h

/-- A traversal without a group. -/
theorem rightAt_iff_halts (hg : Reads c g (Met g c.file.rootGrp.binOid cur path))
    (hitem : Begins c item cur) (hout : out ≠ some .freed)
    {why : Halt} (hends : Ends (followBody plain g c.file.rootGrp.binOid)
      (resolveGroup plain c.file.rootGrp.binOid cur path) (.halts why))
    (hgood : why = .dots → NoDots g) :
    ∃ room, ∀ depth, room ≤ depth → (RightAt c g item cur path out calls depth ↔
      Accepted g c.file.rootGrp.binOid cur path) := by
  obtain ⟨room, hroom⟩ := traverse_of_ends hg hitem hout calls
    (covers_connector.ends_resolveGroup hends hgood)
  refine ⟨room, fun depth hdepth => ?_⟩
  -- where the plain reading fails, so does the reference; at a dot they may differ
  have hfails : Answer.halts why = .halts .fails →
      ¬ ∃ oid, RefGroup g c.file.rootGrp.binOid cur path (.leads oid) := by
    intro hfails
    rw [hfails] at hends
    exact not_leads_of_fails (covers_reference.ends_resolveGroup hends rfl)
  have hhalts := halts_iff _ hends hfails
  rw [rightAt_halts (hroom depth hdepth)]
  constructor
  · intro hright
    have hgroup := hhalts.mp fun why' hwhy' => Answer.halts.inj hwhy' ▸ hright
    refine ⟨hgroup, fun why' hwhy' => ?_⟩
    -- the path halts where its group does
    obtain rfl : why = why' := Answer.halts.inj ((ends_resolve_of_halts hends).unique hwhy')
    rcases hgroup why hends with hfails | ⟨hdots, hnone⟩
    · exact Or.inl hfails
    · refine Or.inr ⟨hdots, ?_⟩
      rintro ⟨target, htarget⟩
      exact hnone (exists_group_of_object htarget)
  · intro haccepted
    exact hhalts.mpr haccepted.1 _ rfl

/-- A traversal to a group, and the last name. -/
theorem rightAt_iff_leads (hg : Reads c g (Met g c.file.rootGrp.binOid cur path))
    (hitem : Begins c item cur) (hout : out ≠ some .freed)
    (hends : Ends (followBody plain g c.file.rootGrp.binOid)
      (resolveGroup plain c.file.rootGrp.binOid cur path) (.leads oid)) {a : Answer}
    (hlast : Ends (followBody plain g c.file.rootGrp.binOid) (lastStep (pathLast path) oid) a)
    (hgood : Good (fun why => why = .dots → NoDots g) a) :
    ∃ room, ∀ depth, room ≤ depth → (RightAt c g item cur path out calls depth ↔
      Accepted g c.file.rootGrp.binOid cur path) := by
  have hgroup : RefGroup g c.file.rootGrp.binOid cur path (.leads oid) :=
    covers_reference.ends_resolveGroup hends trivial
  have hobject := (ends_resolve_of_leads hends).mp hlast
  have hconnector := covers_connector.ends_resolveGroup hends trivial
  obtain ⟨room, hroom⟩ := traverse_of_ends hg hitem hout calls hconnector
  obtain ⟨room', hroom'⟩ := followLast_of_ends hg hconnector
    (covers_connector.ends_lastStep hlast hgood)
  -- one depth has room for the group and for the last name
  refine ⟨max room room', fun depth hdepth => ?_⟩
  obtain ⟨t, hok, ht⟩ := hroom depth (le_trans (le_max_left ..) hdepth)
  have hfollowed := hroom' depth (le_trans (le_max_right ..) hdepth) t ht
  have hleads : ∀ target, ending undotted a = .leads target →
      RefObject g c.file.rootGrp.binOid cur path (ending undotted a) := by
    intro target htarget
    cases a with
    | leads oid' => exact covers_reference.ends_resolve hobject trivial
    | halts why => cases htarget
  have hfails : a = .halts .fails →
      ¬ ∃ target, RefObject g c.file.rootGrp.binOid cur path (.leads target) := by
    rintro rfl
    exact not_leads_of_fails (covers_reference.ends_resolve hobject rfl)
  have hhalts := halts_iff _ hobject hfails
  rw [rightAt_leads hgroup hok ht, rightLast_iff hfollowed hleads]
  constructor
  · intro hlast
    exact ⟨fun _ hwhy => (nomatch hends.unique hwhy), hhalts.mp hlast⟩
  · exact fun haccepted => hhalts.mpr haccepted.2

/-- The two cases of the group. -/
theorem right_iff (hg : Reads c g (Met g c.file.rootGrp.binOid cur path))
    (hfin : (softLinks g).Finite)
    (hacyclic : ∀ link, ¬ Relation.TransGen
      (LeadsOver reference g c.file.rootGrp.binOid) link link)
    (hitem : Begins c item cur) (hout : out ≠ some .freed)
    (hclear : NoDots g ∨ Clear g c.file.rootGrp.binOid cur path) :
    Right c g item cur path out calls ↔ Accepted g c.file.rootGrp.binOid cur path := by
  have hroom : ∃ room, ∀ depth, room ≤ depth → (RightAt c g item cur path out calls depth ↔
      Accepted g c.file.rootGrp.binOid cur path) := by
    -- no soft link is followed inside itself, so the plain reading ends
    obtain ⟨a, ha⟩ := exists_ends_plain hfin hacyclic
      (resolveGroup plain c.file.rootGrp.binOid cur path)
    cases a with
    | halts why =>
      have hclear' := hclear.imp_right clear_group
      exact rightAt_iff_halts hg hitem hout ha (good_of_dots hclear' ha)
    | leads oid =>
      obtain ⟨b, hb⟩ := exists_ends_plain hfin hacyclic (lastStep (pathLast path) oid)
      have hgood := good_of_dots hclear ((ends_resolve_of_leads ha).mp hb)
      exact rightAt_iff_leads hg hitem hout ha hb hgood
  obtain ⟨room, hroom⟩ := hroom
  constructor
  · rintro ⟨room', hright⟩
    exact (hroom _ (le_max_left ..)).mp (hright (max room room') (le_max_right ..))
  · exact fun haccepted => ⟨room, fun depth hdepth => (hroom depth hdepth).mpr haccepted⟩

/-- **Resolving paths.**  For any link graph in which no soft link is followed while it is
followed, any file or group to start from and any path for which the links that are met are read
as the graph has them: where no empty name and no dot is met in front of a slash, the traversal is
right.  If no link is called by a dot, it is right if and only if the path is accepted. -/
theorem path_resolution_iff (hfin : (softLinks g).Finite)
    (hacyclic : ∀ link, ¬ Relation.TransGen
      (LeadsOver reference g c.file.rootGrp.binOid) link link)
    (hitem : Begins c item cur) (path : CString)
    (hg : Reads c g (Met g c.file.rootGrp.binOid cur path.bytes)) (hout : out ≠ some .freed)
    (calls : Nat) :
    (Clear g c.file.rootGrp.binOid cur path.bytes → Right c g item cur path.bytes out calls) ∧
    (NoDots g → (Right c g item cur path.bytes out calls ↔
      Accepted g c.file.rootGrp.binOid cur path.bytes)) := by
  constructor
  · intro hclear
    exact (right_iff hg hfin hacyclic hitem hout (Or.inr hclear)).mpr hclear.accepted
  · intro hdots
    exact right_iff hg hfin hacyclic hitem hout (Or.inl hdots)

/-! ## A file with a list of links -/

/-- The graph of some links. -/
def listGraph (links : List (Link × LinkVal)) : Graph := fun oid name => links.lookup (oid, name)

/-- The values of the links. -/
def listState (links : List (Link × LinkVal)) : List ((Key × CString) × List Byte) :=
  links.map fun l => ((stringName ['f'] l.1.1.toNat, l.1.2), linkBytes l.2)

/-- A file with these links, where all objects are there.  Memory holds `target`. -/
def linkFile (links : List (Link × LinkVal)) (target : List Byte) :
    Context (List ((Key × CString) × List Byte)) Byte where
  plist := GroupOpen.byteCodec
  file := GroupOpen.twoRanks
  omap := listOmap
  state := listState links
  objects _ := some [5]
  memory _ _ _ := ⟨some fun _ => 0, target⟩

theorem listGraph_mem {links : List (Link × LinkVal)} {oid : UInt64} {name : CString}
    {val : LinkVal} (h : listGraph links oid name = some val) : ((oid, name), val) ∈ links := by
  obtain ⟨l₁, l₂, rfl, -⟩ := List.lookup_eq_some_iff.mp h
  simp

/-- A list has finitely many soft links. -/
theorem softLinks_finite (links : List (Link × LinkVal)) :
    (softLinks (listGraph links)).Finite := by
  refine (links.map Prod.fst).finite_toSet.subset ?_
  rintro ⟨oid, name⟩ ⟨target, htarget⟩
  exact List.mem_map.mpr ⟨_, listGraph_mem htarget, rfl⟩

theorem listContents_listState (links : List (Link × LinkVal)) (oid : UInt64) (name : CString) :
    listContents (listState links) (stringName ['f'] oid.toNat) name =
      (listGraph links oid name).elim [] linkBytes := by
  induction links with
  | nil => rfl
  | cons l links ih =>
    obtain ⟨⟨oid', name'⟩, val⟩ := l
    by_cases h : oid = oid' ∧ name = name'
    · obtain ⟨rfl, rfl⟩ := h
      simp [listContents, listState, listGraph]
    · have hkey : ¬ (stringName ['f'] oid.toNat = stringName ['f'] oid'.toNat ∧ name = name') :=
        fun hkey => h ⟨(stringName_inj hkey.1).2, hkey.2⟩
      have hne : ((oid, name) == (oid', name')) = false := by simpa using h
      have hne' : ((stringName ['f'] oid.toNat, name) ==
          (stringName ['f'] oid'.toNat, name')) = false := by simpa using hkey
      simp only [listContents, listState, listGraph, List.map_cons, List.lookup_cons, hne, hne']
      exact ih

/-- These links of the file are read, if the soft ones have the target that memory holds. -/
theorem reads_linkFile {links : List (Link × LinkVal)} {target : List Byte} {met : Set Link}
    (hsupported : ∀ l ∈ links, l.2.Supported)
    (hmem : ∀ l ∈ links, l.1 ∈ met → ∀ s, l.2 = .soft s → s.bytes = target) :
    Reads (linkFile links target) (listGraph links) met := by
  have hthere : ∀ oid, Stored (linkFile links target) oid := fun _ => List.cons_ne_nil 5 []
  refine reads_of_stored listOmap_exact ?_ (listContents_listState links) ?_
    (fun _ _ target _ => hthere target) ⟨rfl, hthere 1⟩
  · intro oid name val hval
    exact hsupported _ (listGraph_mem hval)
  · intro calls oid name s hmet hs
    refine ⟨_, rfl, ?_⟩
    rw [hmem _ (listGraph_mem hs) hmet s rfl]
    exact List.prefix_rfl

/-- The root group has a group `a` with the oid 2, which has a group `b` with the oid 3. -/
def nestedLinks : List (Link × LinkVal) :=
  [((1, ⟨[97], zero_notMem_a⟩), .hard 2), ((2, ⟨[98], zero_notMem_b⟩), .hard 3)]

theorem reads_nested (met : Set Link) :
    Reads (linkFile nestedLinks []) (listGraph nestedLinks) met := by
  apply reads_linkFile
  · simp [nestedLinks, LinkVal.Supported]
  · simp [nestedLinks]

/-- It has no soft links. -/
theorem nested_acyclic (root : UInt64) (link : Link) :
    ¬ Relation.TransGen (LeadsOver reference (listGraph nestedLinks) root) link link := by
  intro hcycle
  obtain ⟨link', hover, -⟩ := Relation.TransGen.head'_iff.mp hcycle
  obtain ⟨target, htarget⟩ := LeadsOver.soft hover
  have hmem := listGraph_mem htarget
  simp [nestedLinks] at hmem

theorem nested_noDots : NoDots (listGraph nestedLinks) := by
  intro oid
  cases h : listGraph nestedLinks oid (CString.ofBuffer [dot]) with
  | none => rfl
  | some val =>
    have hmem := listGraph_mem h
    simp [nestedLinks, CString.ofBuffer, dot] at hmem

/-- `a//b`. -/
def pathASlashB : CString := ⟨[97, 47, 47, 98], by decide⟩

/-- The path `a//b` leads to the group `b` of `a` in the reference, and the traversal fails its
assertion. -/
theorem empty_name_aborts :
    RefObject (listGraph nestedLinks) 1 1 pathASlashB.bytes (.leads 3) ∧
    groupTraverse (linkFile nestedLinks []) (linkFollow (linkFile nestedLinks []) 1) .file
      pathASlashB.bytes none 0 = .error .fault ∧
    ¬ Right (linkFile nestedLinks []) (listGraph nestedLinks) .file 1 pathASlashB.bytes none 0 := by
  have hplain : Ends (followBody plain (listGraph nestedLinks) 1)
      (resolve plain 1 1 pathASlashB.bytes) (.halts .aborts) := ⟨1, by decide +kernel⟩
  have hconnector : (resolveGroup connector 1 1 pathASlashB.bytes).run
      (eval (followBody connector (listGraph nestedLinks) 1) 1) = some (.halts .aborts) := by
    decide +kernel
  refine ⟨⟨1, by decide +kernel⟩, ?_, ?_⟩
  -- the traversal does what the links say, which is to abort
  · have hmatches := groupTraverse_matches (reads_nested Set.univ)
      (linkFollow_matches (reads_nested _) (fun _ _ _ _ => trivial) 1)
      (.file : Begins _ .file _) pathASlashB.bytes (by simp : (none : GcplOut) ≠ some .freed) 0
      fun _ _ => trivial
    have hroot : (linkFile nestedLinks []).file.rootGrp.binOid = 1 := rfl
    rwa [hroot, hconnector] at hmatches
  · intro hright
    have haccepted := (right_iff (reads_nested _) (softLinks_finite _) (nested_acyclic _) .file
      (by simp) (Or.inl nested_noDots)).mp hright
    have hhalts := haccepted.2 _ hplain
    simp at hhalts

/-- `s`. -/
def nameS : CString := ⟨[115], by decide⟩

/-- The root group has a soft link `s` with the target `a`, and a group `a` with the oid 2, which
has a group `b` with the oid 3. -/
def softNested : List (Link × LinkVal) :=
  ((1, nameS), .soft ⟨[97], zero_notMem_a⟩) :: nestedLinks

/-- `s/b`. -/
def pathSB : CString := ⟨[115, 47, 98], by decide⟩

/-- The only soft link is `s`. -/
theorem softNested_soft {link : Link} {target : CString}
    (h : listGraph softNested link.1 link.2 = some (.soft target)) :
    link = (1, nameS) ∧ target = ⟨[97], zero_notMem_a⟩ := by
  have hmem := listGraph_mem h
  simpa [softNested, nestedLinks] using hmem

/-- It is followed over `a`, which is not a soft link. -/
theorem softNested_acyclic (rd : Reading) (link : Link) :
    ¬ Relation.TransGen (LeadsOver rd (listGraph softNested) 1) link link := by
  intro hcycle
  obtain ⟨link', hover, hrest⟩ := Relation.TransGen.head'_iff.mp hcycle
  obtain ⟨target, htarget⟩ := hover.soft
  obtain ⟨rfl, rfl⟩ := softNested_soft htarget
  have hbody : followBody rd (listGraph softNested) 1 (1, nameS) =
      .call (1, ⟨[97], zero_notMem_a⟩) .ret := rfl
  have hlink' : link' = (1, ⟨[97], zero_notMem_a⟩) := by
    unfold LeadsOver CallsTo at hover
    rw [hbody] at hover
    cases hover with
    | here => rfl
    | later _ hret => cases hret
  subst hlink'
  cases Relation.ReflTransGen.cases_head hrest with
  | inl heq => simp [nameS] at heq
  | inr hnext =>
    obtain ⟨link'', hover', -⟩ := hnext
    obtain ⟨target', htarget'⟩ := hover'.soft
    simpa [nameS] using (softNested_soft htarget').1

theorem reads_softNested (met : Set Link) :
    Reads (linkFile softNested [97]) (listGraph softNested) met := by
  apply reads_linkFile
  · simp [softNested, nestedLinks, LinkVal.Supported]
  · simp [softNested, nestedLinks]

/-- The path `s/b`, where the memory that the target of `s` is copied from holds `a`. -/
theorem path_resolution_iff_soft :
    Clear (listGraph softNested) 1 1 pathSB.bytes ∧
    Right (linkFile softNested [97]) (listGraph softNested) .file 1 pathSB.bytes none 0 := by
  have hclear : Clear (listGraph softNested) 1 1 pathSB.bytes := by
    have hplain : Ends (followBody plain (listGraph softNested) 1)
        (resolve plain 1 1 pathSB.bytes) (.leads 3) := ⟨2, by decide +kernel⟩
    intro why hwhy
    cases hplain.unique hwhy
  exact ⟨hclear, (path_resolution_iff (c := linkFile softNested [97]) (softLinks_finite _)
    (softNested_acyclic reference) .file pathSB (reads_softNested _) (by simp) 0).1 hclear⟩

end DTIO.Properties.PathResolution
