import DTIO.Properties.DatasetOpen
import DTIO.Properties.TreeCreation

/-!
# Opens in Stored Trees

All ranks open a group or a dataset by a path, each on its own or with a broadcast by rank 0.  All
of them get what the path leads to in the tree.

## Main results

- `together_eq`: the programs of the ranks in lockstep
- `reached_of_find`: the paths of the tree are those of `H5VL_dtio_group_open`
- `openGroup_stepped`, `openDataset_stepped`: opens by path
-/

namespace DTIO.Properties.TreeOpens

open DTIO.Posix DTIO.Broadcast DTIO.Vol DTIO.Vol.LinkGraph
open DTIO.Properties.GroupOpen (Existing Walk Reached ThroughGroups)
open DTIO.Properties.TreeTraversal DTIO.Properties.TreeCreation

variable {P : Type} {w : Process P} {name : FileName} {f : TreeFile P} {s : PathFile P}

/-! ## All ranks -/

/-- The ranks work on the same. -/
theorem contextOf_eq (hf : Represents w name f s) {h h' : FileHandle} (hh : h ∈ s.file.ranks)
    (hh' : h' ∈ s.file.ranks) : contextOf w f name s h = contextOf w f name s h' := by
  obtain ⟨flags, hflags⟩ := hf.flags
  simp only [contextOf, Process.context, hf.rank_name hh, hf.rank_name hh', hflags h hh,
    hflags h' hh', hf.collective h hh, hf.collective h' hh']

section Together

variable {α : Type} {program : FileHandle → Except Stop (Proc Comm Byte α)}

/-- The ranks run the programs of their numbers. -/
theorem together_eq (hf : Represents w name f s) {n : Nat} (hn : f.numProcs = n + 1)
    (prog : Nat → Proc Comm Byte α) (h : ∀ h ∈ s.file.ranks, program h = .ok (prog h.myRank)) :
    s.together program =
      (orFault (lockstep (prog 0) ((List.range n).map fun i => prog (i + 1)))).map
        fun r => r.1 :: r.2 := by
  have hprogs : s.file.ranks.mapM program = .ok (prog 0 :: (List.range n).map fun i =>
      prog (i + 1)) := by
    have hmap : (s.file.ranks.map fun h => prog h.myRank) = (List.range (n + 1)).map prog := by
      rw [← hn, ← hf.ranks, List.map_map]
      rfl
    rw [ObjectIds.mapM_ok h, hmap, List.range_succ_eq_map, List.map_cons, List.map_map]
    rfl
  rw [PathFile.together, hprogs, ok_bind]

theorem zipIdx_map_range {β : Type} (g : Nat → α) (k : α × Nat → β) (n : Nat) :
    ((List.range n).map g).zipIdx.map k = (List.range n).map fun i => k (g i, i) :=
  List.ext_getElem (by simp) (by simp)

/-- Rank 0 does not get to its program. -/
theorem together_head_error {h : FileHandle} {e : Stop} (hx : s.file.ranks.head? = some h)
    (herr : program h = .error e) : s.together program = .error e := by
  rw [PathFile.together, mapM_head_error hx herr]
  rfl

end Together

/-! ## Groups on paths -/

section Paths

variable {c : Context MdStore P} (hc : Contains w name f c) {d : Nat} {item : Item P}
  {cur : Option f.tree.Obj}
include hc

theorem existing_group {oid : UInt64} {gcpl : P} (hobj : f.tree.objects oid = some (.group gcpl)) :
    Existing c oid gcpl := by
  obtain ⟨hbytes, hfits⟩ := hc.objects oid _ hobj
  unfold Existing
  rw [hc.stringName_eq, hc.plist]
  exact ⟨hbytes, hfits.1⟩

theorem handle_group {oid : UInt64} {gcpl : P} (hobj : f.tree.objects oid = some (.group gcpl)) :
    GroupOpen.handle c oid gcpl = handleOf f name oid := by
  rw [GroupOpen.handle, hc.stringName_eq, handleOf_group hobj]

/-- A walk from group to group. -/
theorem walk_of_tree {names : List (List Byte)} {a b : f.tree.Obj}
    (hwalk : f.tree.walk a names = .ok b) (hgroups : f.tree.Groups a names) (calls : Nat) :
    ∃ calls', Walk c (linkFollow c (d + 1)) (handleOf f name a.1) calls names
      (handleOf f name b.1) calls' := by
  induction names generalizing a calls with
  | nil =>
    obtain rfl := Except.ok.inj hwalk
    exact ⟨calls, .nil _ _⟩
  | cons n names ih =>
    obtain ⟨hn, next, hlink, hwalk⟩ := ObjTree.walk_cons_ok hwalk
    -- the next object on the way is a group, which can be opened
    obtain ⟨⟨gcpl, hobj⟩, hrest⟩ := hgroups next hlink
    have hgrp : (handleOf f name a.1).oid = keyOf name a.1 := rfl
    have hcall := hc.linkFollow_ok hgrp hlink d calls
    obtain ⟨calls', hnext⟩ := ih hwalk hrest (calls + 1)
    rw [← handle_group hc hobj] at hnext
    exact ⟨calls', .cons hn hcall (existing_group hc hobj) hnext⟩

/-- A group that a path leads to in the tree. -/
theorem reached_of_find (hitem : Passes f name item cur) {path : CString}
    (hgroups : ∀ a, f.startObj cur path = .ok a → f.tree.Groups a (pathGroups path.bytes))
    {a : f.tree.Obj} (hfind : f.findAt cur path (TreeFile.namesGroup path) = .ok a) {gcpl : P}
    (hobj : f.tree.objects a.1 = some (.group gcpl)) :
    Reached c (linkFollow c (d + 1)) item (.byName path) a.1 gcpl := by
  -- the names that both sides split the path into are the same
  have hnames : GroupOpen.groupNames path = pathGroups path.bytes := (pathGroups_eq _).symm
  have hlast : GroupOpen.lastName path = pathLast path.bytes := (pathLast_eq _).symm
  obtain ⟨b, hlocate, hfind⟩ := bind_eq_ok.mp hfind
  obtain ⟨start, hstart, hwalk⟩ := bind_eq_ok.mp hlocate
  have hbegin := hc.startGroup_eq hitem hstart
  obtain ⟨calls, hpath⟩ := walk_of_tree (d := d) hc hwalk (hgroups start hstart) 0
  rw [← hnames] at hpath
  -- the last name stands for the group itself, or is that of a link to follow
  by_cases hstays : TreeFile.namesGroup path = true
  · rw [if_pos hstays] at hfind
    obtain rfl := Except.ok.inj hfind
    rw [← handle_group hc hobj] at hpath
    refine .target hbegin hpath ?_
    rw [hlast]
    exact hstays
  · rw [if_neg hstays] at hfind
    have hlink : f.tree.follow b (CString.ofBuffer (pathLast path.bytes)) = some a :=
      ObjTree.linked_eq_ok.mp hfind
    have hgrp : (handleOf f name b.1).oid = keyOf name b.1 := rfl
    have hcall := hc.linkFollow_ok hgrp hlink d calls
    rw [← hlast] at hcall
    refine .last hbegin hpath ?_ hcall (existing_group hc hobj)
    rw [hlast]
    exact eq_false_of_ne_true hstays

end Paths

/-! ## Opening groups -/

theorem ptr_free {α : Type} {q : Ptr α} (h : q ≠ .freed) : ∃ q', q.free = .ok q' := by
  cases q with
  | null => exact ⟨_, rfl⟩
  | live x => exact ⟨_, rfl⟩
  | freed => exact absurd rfl h

section Groups

variable (hf : Represents w name f s) {h : FileHandle} (hh : h ∈ s.file.ranks) {d : Nat}
  {item : Item P} {cur : Option f.tree.Obj} (hitem : Passes f name item cur) {path : CString}
include hf hh hitem

/-- Rank 0 does not find a group where the tree has none. -/
theorem openLocal_error {e : Stop}
    (hfind : f.findAt cur path (TreeFile.namesGroup path) = .error e) (bcast : Bool) :
    openLocal (contextOf w f name s h) (linkFollow (contextOf w f name s h) (d + 1)) bcast item
      (.byName path) = .error e := by
  have hout : gcplOut bcast .null ≠ some .freed := by
    cases bcast with
    | false => simp [gcplOut]
    | true => simp [gcplOut]
  have htraverse := groupTraverse_spec hf hh d hitem path hout 0
  unfold TreeFile.findAt at hfind
  cases hlocate : f.locate cur path with
  | error e' =>
    -- the traversal of the path fails
    rw [hlocate] at hfind htraverse
    obtain rfl : e' = e := Except.error.inj hfind
    rw [openLocal, show groupTraverse _ _ item path.bytes (gcplOut bcast .null) 0 = .error e' from
      htraverse]
    rfl
  | ok b =>
    rw [hlocate, ok_bind] at hfind
    rw [hlocate] at htraverse
    obtain ⟨t, ht, hat, hname⟩ := htraverse
    by_cases hstays : TreeFile.namesGroup path = true
    · rw [if_pos hstays] at hfind
      cases hfind
    · -- the link of the last name leads nowhere
      rw [if_neg hstays] at hfind
      have hfollow := linkFollow_spec hf hh d hat.named hat.binOid t.name t.calls
      rw [hname, show f.tree.linked b (CString.ofBuffer (pathLast path.bytes)) = .error e from
        hfind] at hfollow
      have hstands : ¬ standsForGroup t.name = true := by
        rw [hname]
        exact hstays
      have hlive : t.out.getD .null ≠ .freed := by
        cases htout : t.out with
        | none => simp
        | some q =>
          intro hfreed
          exact hat.out (by rw [htout]; exact congrArg some hfreed)
      obtain ⟨q, hfree⟩ := ptr_free hlive
      rw [openLocal, ht, ok_bind, if_neg hstands, openLast, hfree, ok_bind, hname,
        show linkFollow _ _ t.grp (pathLast path.bytes) t.calls = .error e from hfollow]
      rfl

variable (allColl : Bool) (memory : Nat → RankMemory)

/-- Then nobody opens anything. -/
theorem openGroup_fault {e : Stop}
    (hfind : f.findAt cur path (TreeFile.namesGroup path) = .error e)
    (others : List (Proc Comm Byte (OpenedGroup P))) :
    lockstep (groupOpen (contextOf w f name s h) (d + 1) allColl 0 item (.byName path) (memory 0))
      others = none := by
  have hlocal := openLocal_error (d := d) hf hh hitem hfind
    (((contextOf w f name s h).file.collective || allColl) &&
      decide ((contextOf w f name s h).file.numProcs > 1))
  have hfault : groupOpen (contextOf w f name s h) (d + 1) allColl 0 item (.byName path)
      (memory 0) = .fault := by
    unfold groupOpen
    rw [if_pos (by simp), groupOpenReader, hlocal]
    rfl
  rw [hfault, lockstep_fault]

omit hitem in
/-- A rank that opens the group for itself. -/
theorem groupOpen_alone {a : f.tree.Obj} {gcpl : P}
    (hreached : Reached (contextOf w f name s h) (linkFollow (contextOf w f name s h) (d + 1)) item
      (.byName path) a.1 gcpl) (halone : ¬ f.Broadcasts allColl) {i : Nat} (hi : i < f.numProcs) :
    groupOpen (contextOf w f name s h) (d + 1) allColl i item (.byName path) (memory i) =
      .done ⟨GroupOpen.handle (contextOf w f name s h) a.1 gcpl, none⟩ := by
  have hcollective : (contextOf w f name s h).file.collective = f.collective :=
    hf.collective h hh
  have hself : false = false ∨ ¬ ThroughGroups (.byName path) := Or.inl rfl
  obtain ⟨buf, hlocal, hready⟩ := GroupOpen.openLocal_ok hreached hself
  rw [← GroupOpen.reader_alone hlocal hready (memory i)]
  unfold groupOpen
  rw [hcollective]
  by_cases hcoll : (f.collective || allColl) = true
  · -- there is only rank 0
    have hone : ¬ 1 < f.numProcs := fun hmany => halone ⟨hcoll, hmany⟩
    obtain rfl : i = 0 := by omega
    rw [if_pos (by simp), show (contextOf w f name s h).file.numProcs = f.numProcs from rfl,
      decide_eq_false hone, Bool.and_false]
  · simp [eq_false_of_ne_true hcoll]

omit hitem in
/-- All ranks open the group. -/
theorem openGroup_ok {a : f.tree.Obj} {gcpl : P}
    (hreached : Reached (contextOf w f name s h) (linkFollow (contextOf w f name s h) (d + 1)) item
      (.byName path) a.1 gcpl)
    (hlen : (w.plist.encode gcpl).length < 2147483648) {n : Nat} (hn : f.numProcs = n + 1)
    (hthrough : f.Broadcasts allColl → ¬ ThroughGroups (.byName path)) :
    ∃ r, lockstep
        (groupOpen (contextOf w f name s h) (d + 1) allColl 0 item (.byName path) (memory 0))
        ((List.range n).map fun i => groupOpen (contextOf w f name s h) (d + 1) allColl (i + 1) item
          (.byName path) (memory (i + 1))) = some r ∧
      (r.1 :: r.2).map OpenedGroup.grp =
        f.all (GroupOpen.handle (contextOf w f name s h) a.1 gcpl) := by
  by_cases hbcast : f.Broadcasts allColl
  · -- rank 0 tells the others
    obtain ⟨hcoll, hmany⟩ := hbcast
    have hcollective : (contextOf w f name s h).file.collective = f.collective :=
      hf.collective h hh
    obtain ⟨other, others, hmem⟩ : ∃ other others,
        ((List.range n).map fun i => memory (i + 1)) = other :: others := by
      apply List.exists_cons_of_ne_nil
      simp
      omega
    have hprocs : (contextOf w f name s h).file.numProcs = (other :: others).length + 1 := by
      rw [← hmem, List.length_map, List.length_range]
      exact hn
    have hall := GroupOpen.allOpen_bcast (by rw [hcollective]; exact hcoll) hreached
      (hthrough ⟨hcoll, hmany⟩) hlen (memory 0) other hprocs
    unfold GroupOpen.AllOpen at hall
    rw [← hmem, zipIdx_map_range] at hall
    refine ⟨_, hall, ?_⟩
    simp [TreeFile.all, hn, List.replicate_succ]
  · have hothers : ((List.range n).map fun i => groupOpen (contextOf w f name s h) (d + 1) allColl
        (i + 1) item (.byName path) (memory (i + 1))) = (List.range n).map fun _ =>
          .done ⟨GroupOpen.handle (contextOf w f name s h) a.1 gcpl, none⟩ := by
      apply List.map_congr_left
      intro i hi
      have hlt : i + 1 < f.numProcs := by
        rw [hn]
        exact Nat.succ_lt_succ (List.mem_range.mp hi)
      exact groupOpen_alone hf hh allColl memory hreached hbcast hlt
    have hfirst := groupOpen_alone hf hh allColl memory hreached hbcast
      (i := 0) (by omega)
    rw [hfirst, hothers, lockstep_done]
    refine ⟨_, rfl, ?_⟩
    simp [TreeFile.all, hn, List.replicate_succ]

end Groups

theorem numProcs_succ (hopen : 0 < f.numProcs) : ∃ n, f.numProcs = n + 1 :=
  ⟨f.numProcs - 1, by omega⟩

/-- A path with a broadcast does not go through a group to a last name. -/
theorem not_throughGroups {path : CString}
    (h : pathGroups path.bytes = [] ∨ TreeFile.namesGroup path = true) :
    ¬ ThroughGroups (.byName path) := by
  rintro ⟨hnames, hlast⟩
  rcases h with hnil | hstays
  · exact hnames ((pathGroups_eq _).symm.trans hnil)
  · rw [GroupOpen.lastName, ← pathLast_eq] at hlast
    exact absurd (hstays.symm.trans hlast) nofun

section Found

variable (hf : Represents w name f s) {d : Nat} (hdepth : w.depth = d + 1) {allColl : Bool}
  {loc : Loc} {path : CString} (memory : Nat → RankMemory)
include hf hdepth

/-- The programs of the ranks. -/
theorem rankGroupOpen_ok {h : FileHandle} (hh : h ∈ s.file.ranks) {item : Item P}
    (hargs : ∀ h ∈ s.file.ranks, s.arguments w loc h = .ok (contextOf w f name s h, item)) :
    ∀ h' ∈ s.file.ranks, s.rankGroupOpen w allColl loc path memory h' =
      .ok (groupOpen (contextOf w f name s h) (d + 1) allColl h'.myRank item (.byName path)
        (memory h'.myRank)) := by
  intro h' hh'
  rw [PathFile.rankGroupOpen, hargs h' hh', ok_bind, contextOf_eq hf hh' hh, hdepth]
  rfl

/-- All ranks open a group that the path leads to. -/
theorem openGroup_eq (hopen : 0 < f.numProcs)
    (hthrough : f.Broadcasts allColl → ¬ ThroughGroups (.byName path)) {cur : Option f.tree.Obj}
    (hcur : f.locObj loc = .ok cur)
    (hgroups : ∀ a, f.startObj cur path = .ok a → f.tree.Groups a (pathGroups path.bytes))
    {a : f.tree.Obj} (hat : f.findAt cur path (TreeFile.namesGroup path) = .ok a) {gcpl : P}
    (hobj : f.tree.objects a.1 = some (.group gcpl)) :
    s.openGroup w allColl loc path memory = .ok (.groups (f.all (a.1, some gcpl)),
      { s with groups := s.groups ++ [f.all (handleOf f name a.1)] }) := by
  obtain ⟨h, hh, -, -⟩ := head_ranks hf hopen
  obtain ⟨n, hn⟩ := numProcs_succ hopen
  obtain ⟨item, hitem, hargs⟩ := arguments_ok (w := w) hf hcur
  -- the traversal reaches the group from the item of each rank
  have hreached := reached_of_find (d := d) (hf.contains hh) hitem hgroups hat hobj
  obtain ⟨-, hfits⟩ := hf.objects _ _ hobj
  obtain ⟨r, hr, hgrps⟩ := openGroup_ok hf hh allColl memory hreached hfits.2 hn hthrough
  -- all ranks get handles of the same group
  have hhandle : (r.1 :: r.2).map OpenedGroup.grp = f.all (handleOf f name a.1) := by
    rw [hgrps, handle_group (hf.contains hh) hobj]
  have hreply : ((r.1 :: r.2).map fun x => (x.grp.binOid, x.grp.gcpl)) =
      f.all (a.1, some gcpl) := by
    have hmap := congrArg (List.map fun g : OpenGroup P => (g.binOid, g.gcpl)) hhandle
    rw [List.map_map, TreeFile.all, List.map_replicate, handleOf_group hobj] at hmap
    exact hmap
  rw [PathFile.openGroup, together_eq hf hn (fun i => groupOpen (contextOf w f name s h) (d + 1)
    allColl i item (.byName path) (memory i)) (rankGroupOpen_ok hf hdepth memory hh hargs), hr]
  simp only [orFault_some, Except.map, ok_bind, hreply, hhandle]
  rfl

end Found

/-- **Groups.**  All ranks get the group that the path leads to. -/
theorem openGroup_stepped (hf : Represents w name f s) {d : Nat} (hdepth : w.depth = d + 1)
    {allColl : Bool} {loc : Loc} {path : CString} {memory : Nat → RankMemory}
    (hspec : f.Specified w (.openGroup allColl loc path memory)) :
    Agrees (Stepped w name s) (f.openGroup loc path) (s.openGroup w allColl loc path memory) := by
  obtain ⟨hopen, hbcast, hgroups, htype⟩ := hspec
  obtain ⟨h, hh, hhead, hzero⟩ := head_ranks hf hopen
  obtain ⟨n, hn⟩ := numProcs_succ hopen
  cases hcur : f.locObj loc with
  | error e =>
    obtain ⟨rfl, herr⟩ := arguments_error (w := w) hf hcur
    -- there is no such handle on any rank
    have hfault : s.rankGroupOpen w allColl loc path memory h = .error .fault := by
      rw [PathFile.rankGroupOpen, herr h hh]
      rfl
    have hfind : f.find loc path (TreeFile.namesGroup path) = .error .fault := by
      rw [TreeFile.find, hcur]
      rfl
    rw [PathFile.openGroup, together_head_error hhead hfault, TreeFile.openGroup_error hfind]
    exact Agrees.error _
  | ok cur =>
    have hfind : f.find loc path (TreeFile.namesGroup path) =
        f.findAt cur path (TreeFile.namesGroup path) := by
      rw [TreeFile.find, hcur]
      rfl
    cases hat : f.findAt cur path (TreeFile.namesGroup path) with
    | error e =>
      obtain ⟨item, hitem, hargs⟩ := arguments_ok (w := w) hf hcur
      rw [PathFile.openGroup, together_eq hf hn (fun i => groupOpen (contextOf w f name s h) (d + 1)
        allColl i item (.byName path) (memory i)) (rankGroupOpen_ok hf hdepth memory hh hargs),
        openGroup_fault hf hh hitem allColl memory hat,
        TreeFile.openGroup_error (hfind.trans hat)]
      exact Agrees.error _
    | ok a =>
      obtain ⟨gcpl, hobj⟩ := htype a (hfind.trans hat)
      rw [openGroup_eq hf hdepth memory hopen (fun hb => not_throughGroups (hbcast hb)) hcur
        (hgroups cur · hcur) hat hobj, TreeFile.openGroup_eq (hfind.trans hat) hobj]
      exact Agrees.ok ⟨rfl, represents_push hf hobj, fun _ _ => ⟨rfl, rfl⟩⟩

/-! ## Opening datasets -/

/-- The ranks open a dataset, each alone or by one broadcast or two. -/
theorem datasetOpen_lockstep {info : DatasetInfo} (hfits : DatasetOpen.Fits info) {oid : Nat}
    (hoid : oid < 18446744073709551616) (collective : Bool) (memory : Nat → RankMemory) (n : Nat) :
    lockstep (datasetOpen collective 0 (n + 1) oid (datasetRecord info) (memory 0))
        ((List.range n).map fun i =>
          datasetOpen collective (i + 1) (n + 1) oid (datasetRecord info) (memory (i + 1))) =
      some (⟨oid, info⟩, (List.range n).map fun _ => ⟨oid, info⟩) := by
  by_cases hbcast : collective = true ∧ 0 < n
  · obtain ⟨rfl, hpos⟩ := hbcast
    obtain ⟨rest, hrest, hshort, hreader⟩ := @DatasetOpen.reader_bcast info oid hfits (memory 0)
    have hroot : datasetOpen true 0 (n + 1) oid (datasetRecord info) (memory 0) =
        datasetOpenReader true oid (datasetRecord info) (memory 0) := by
      simp [datasetOpen, hpos]
    have hothers : ((List.range n).map fun i =>
          datasetOpen true (i + 1) (n + 1) oid (datasetRecord info) (memory (i + 1))) =
        (List.range n).map fun i =>
          .recv .file dinfoBufSize (datasetReceived (memory (i + 1))) := by
      apply List.map_congr_left
      intro i _
      simp [datasetOpen, datasetOpenReceiver, Proc.bcastRecv]
    have hlen : dinfoBufSize = (DatasetOpen.framed (encode64 oid) info rest).length := by
      rw [DatasetOpen.length_framed (length_encode64 oid), hrest]
      rfl
    rw [hroot, hreader, hothers, lockstep_send _ _ _ _ _ hlen]
    simp only [DatasetOpen.received hfits hoid hrest hshort]
    by_cases htwice : DatasetOpen.Twice info
    · simp only [if_pos htwice]
      rw [lockstep_send _ _ _ _ _ rfl]
      simp only [DatasetOpen.received_second _ hrest]
      exact lockstep_done _ _ _
    · simp only [if_neg htwice]
      exact lockstep_done _ _ _
  · -- no broadcast
    have halone : ∀ i < n + 1, datasetOpen collective i (n + 1) oid (datasetRecord info)
        (memory i) = .done ⟨oid, info⟩ := by
      intro i hi
      rw [← DatasetOpen.reader_alone hfits (memory i)]
      unfold datasetOpen
      by_cases hcoll : collective = true
      · have hn : n = 0 := by
          by_contra hne
          exact hbcast ⟨hcoll, Nat.pos_of_ne_zero hne⟩
        subst hn
        obtain rfl : i = 0 := by omega
        simp [hcoll]
      · simp [eq_false_of_ne_true hcoll]
    have hothers : ((List.range n).map fun i =>
          datasetOpen collective (i + 1) (n + 1) oid (datasetRecord info) (memory (i + 1))) =
        (List.range n).map fun _ => .done ⟨oid, info⟩ := by
      apply List.map_congr_left
      intro i hi
      exact halone (i + 1) (Nat.succ_lt_succ (List.mem_range.mp hi))
    rw [halone 0 (Nat.succ_pos n), hothers]
    exact lockstep_done _ _ _

section Datasets

variable (hf : Represents w name f s) {h : FileHandle} (hh : h ∈ s.file.ranks) {d : Nat}
  {item : Item P} {cur : Option f.tree.Obj} (hitem : Passes f name item cur)
include hf hh hitem

/-- The object that a rank finds. -/
theorem datasetLookup_spec (path : CString) :
    Agrees (fun a target => target.1 = a.1) (f.findAt cur path false)
      (datasetLookup (contextOf w f name s h) (d + 1) item path) := by
  have htraverse := @groupTraverse_spec P w name f s hf h hh d item cur hitem path none nofun 0
  refine htraverse.bind fun b t ht => ?_
  obtain ⟨hat, hname⟩ := ht
  have hfollow := linkFollow_spec hf hh d hat.named hat.binOid t.name t.calls
  rw [hname] at hfollow ⊢
  exact hfollow

/-- A rank that looks for a dataset, or waits for rank 0. -/
theorem datasetOpenAt_eq {path : CString} {a : f.tree.Obj} {info : DatasetInfo}
    (hfind : f.findAt cur path false = .ok a) (hobj : f.tree.objects a.1 = some (.dataset info))
    (allColl : Bool) (rank : Nat) (m : RankMemory) :
    datasetOpenAt (contextOf w f name s h) (d + 1) allColl rank item path m =
      datasetOpen (f.collective || allColl) rank f.numProcs a.1.toNat (datasetRecord info) m := by
  have hlookup := datasetLookup_spec (d := d) hf hh hitem path
  rw [hfind] at hlookup
  obtain ⟨⟨oid, calls⟩, hlookup, rfl⟩ := hlookup
  have hcollective : (contextOf w f name s h).file.collective = f.collective :=
    hf.collective h hh
  have hrecord : (contextOf w f name s h).objects.object (keyOf name a.1) = datasetRecord info :=
    hf.object hobj
  unfold datasetOpenAt
  rw [hcollective]
  by_cases hreads : (!(f.collective || allColl) || rank == 0) = true
  · rw [if_pos hreads, hlookup]
    show datasetOpen _ rank f.numProcs a.1.toNat _ m = _
    rw [hf.stringName_context hh, hrecord]
  · rw [if_neg hreads, datasetOpen, if_neg hreads]

end Datasets

section FoundDataset

variable (hf : Represents w name f s) {d : Nat} (hdepth : w.depth = d + 1) {allColl : Bool}
  {loc : Loc} {path : CString} (memory : Nat → RankMemory)
include hf hdepth

/-- The programs of the ranks. -/
theorem rankDatasetOpen_ok {h : FileHandle} (hh : h ∈ s.file.ranks) {item : Item P}
    (hargs : ∀ h ∈ s.file.ranks, s.arguments w loc h = .ok (contextOf w f name s h, item)) :
    ∀ h' ∈ s.file.ranks, s.rankDatasetOpen w allColl loc path memory h' =
      .ok (datasetOpenAt (contextOf w f name s h) (d + 1) allColl h'.myRank item path
        (memory h'.myRank)) := by
  intro h' hh'
  rw [PathFile.rankDatasetOpen, hargs h' hh', ok_bind, contextOf_eq hf hh' hh, hdepth]
  rfl

/-- All ranks open a dataset that the path leads to. -/
theorem openDataset_eq (hopen : 0 < f.numProcs) {cur : Option f.tree.Obj}
    (hcur : f.locObj loc = .ok cur) {a : f.tree.Obj} (hat : f.findAt cur path false = .ok a)
    {info : DatasetInfo} (hobj : f.tree.objects a.1 = some (.dataset info)) :
    s.openDataset w allColl loc path memory = .ok (.datasets (f.all ⟨a.1.toNat, info⟩), s) := by
  obtain ⟨h, hh, -, -⟩ := head_ranks hf hopen
  obtain ⟨n, hn⟩ := numProcs_succ hopen
  obtain ⟨item, hitem, hargs⟩ := arguments_ok (w := w) hf hcur
  obtain ⟨-, hfits⟩ := hf.objects _ _ hobj
  rw [PathFile.openDataset, together_eq hf hn (fun i => datasetOpenAt (contextOf w f name s h)
    (d + 1) allColl i item path (memory i)) (rankDatasetOpen_ok hf hdepth memory hh hargs)]
  simp only [datasetOpenAt_eq (d := d) hf hh hitem hat hobj, hn]
  rw [datasetOpen_lockstep hfits a.1.toNat_lt]
  simp [Except.map, TreeFile.all, hn, List.replicate_succ]

end FoundDataset

/-- **Datasets.**  All ranks get the dataset that the path leads to. -/
theorem openDataset_stepped (hf : Represents w name f s) {d : Nat} (hdepth : w.depth = d + 1)
    {allColl : Bool} {loc : Loc} {path : CString} {memory : Nat → RankMemory}
    (hspec : f.Specified w (.openDataset allColl loc path memory)) :
    Agrees (Stepped w name s) (f.openDataset loc path)
      (s.openDataset w allColl loc path memory) := by
  obtain ⟨hopen, htype⟩ := hspec
  obtain ⟨h, hh, hhead, hzero⟩ := head_ranks hf hopen
  obtain ⟨n, hn⟩ := numProcs_succ hopen
  unfold TreeFile.openDataset
  cases hcur : f.locObj loc with
  | error e =>
    obtain ⟨rfl, herr⟩ := arguments_error (w := w) hf hcur
    -- there is no such handle on any rank
    have hfault : s.rankDatasetOpen w allColl loc path memory h = .error .fault := by
      rw [PathFile.rankDatasetOpen, herr h hh]
      rfl
    rw [PathFile.openDataset, together_head_error hhead hfault, TreeFile.find, hcur]
    exact Agrees.error _
  | ok cur =>
    obtain ⟨item, hitem, hargs⟩ := arguments_ok (w := w) hf hcur
    have hfind : f.find loc path false = f.findAt cur path false := by
      rw [TreeFile.find, hcur]
      rfl
    rw [hfind]
    cases hat : f.findAt cur path false with
    | error e =>
      -- rank 0 finds nothing, and no rank goes on
      have hlookup := datasetLookup_spec (d := d) hf hh hitem path
      rw [hat] at hlookup
      have hfault : datasetOpenAt (contextOf w f name s h) (d + 1) allColl 0 item path (memory 0) =
          .fault := by
        unfold datasetOpenAt
        rw [if_pos (by simp), show datasetLookup _ (d + 1) item path = .error e from hlookup]
        rfl
      rw [PathFile.openDataset, together_eq hf hn (fun i => datasetOpenAt (contextOf w f name s h)
        (d + 1) allColl i item path (memory i)) (rankDatasetOpen_ok hf hdepth memory hh hargs),
        hfault, lockstep_fault]
      exact Agrees.error _
    | ok a =>
      obtain ⟨info, hobj⟩ := htype a (hfind.trans hat)
      rw [openDataset_eq hf hdepth memory hopen hcur hat hobj]
      simp only [hobj]
      exact Agrees.ok ⟨rfl, hf, fun _ _ => ⟨rfl, rfl⟩⟩

end DTIO.Properties.TreeOpens
