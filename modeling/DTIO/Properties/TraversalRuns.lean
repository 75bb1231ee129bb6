import DTIO.Properties.BalancedTraversal
import Mathlib.Data.List.TakeWhile

/-!
# Runs of Traversals

What `Vol/Groups` says of `H5VL_dtio_group_traverse` and `H5VL_dtio_link_follow` is what the
functions with handles and a buffer do: where the former return or fail, so do the latter, with
the same group, the same name and the same calls.  In particular the loop makes as many steps as
it needs.

This takes that closes succeed and that no count of references gets too large.

## Main results

- `strchr_name`: slashes in the buffer are the ones between the names of the path
- `linkFollow_runs`, `groupTraverse_runs`: the two functions
-/

namespace DTIO.Properties.TraversalRuns

open DTIO.Posix DTIO.Vol DTIO.Vol.GroupHandles DTIO.Vol.GroupHandles.HandleCalls DTIO.RefCount
open DTIO.Properties.BalancedTraversal

/-! ## The buffer of the path -/

theorem splitPath_nil {path last : List Byte} (h : splitPath path = ([], last)) :
    last = path ∧ slash ∉ path := by
  induction path generalizing last with
  | nil => simpa [splitPath] using h.symm
  | cons b path ih =>
    rcases hsplit : splitPath path with ⟨names, last'⟩
    by_cases hb : b = slash
    · simp [splitPath, hsplit, consPath, hb] at h
    · cases names with
      | nil =>
        obtain ⟨rfl, hnot⟩ := ih hsplit
        simp only [splitPath, hsplit, consPath, if_neg hb, Prod.mk.injEq, true_and] at h
        exact ⟨h.symm, by simp [hnot, Ne.symm hb]⟩
      | cons name names => simp [splitPath, hsplit, consPath, hb] at h

theorem splitPath_cons {path name last : List Byte} {names : List (List Byte)}
    (h : splitPath path = (name :: names, last)) :
    ∃ rest, path = name ++ slash :: rest ∧ slash ∉ name ∧ splitPath rest = (names, last) := by
  induction path generalizing name names last with
  | nil => simp [splitPath] at h
  | cons b path ih =>
    rcases hsplit : splitPath path with ⟨names', last'⟩
    by_cases hb : b = slash
    · simp only [splitPath, hsplit, consPath, if_pos hb, Prod.mk.injEq, List.cons.injEq] at h
      obtain ⟨⟨rfl, rfl⟩, rfl⟩ := h
      exact ⟨path, by rw [hb]; rfl, List.not_mem_nil, hsplit⟩
    · cases names' with
      | nil => simp [splitPath, hsplit, consPath, hb] at h
      | cons name' names' =>
        obtain ⟨rest, rfl, hnot, hrest⟩ := ih hsplit
        simp only [splitPath, hsplit, consPath, if_neg hb, Prod.mk.injEq, List.cons.injEq] at h
        obtain ⟨⟨rfl, rfl⟩, rfl⟩ := h
        exact ⟨rest, rfl, by simp [hnot, Ne.symm hb], hrest⟩

/-- The last name is at the end of the path. -/
theorem splitPath_suffix {path last : List Byte} {names : List (List Byte)}
    (h : splitPath path = (names, last)) : last <:+ path := by
  induction names generalizing path with
  | nil =>
    obtain ⟨rfl, -⟩ := splitPath_nil h
    exact List.suffix_rfl
  | cons name names ih =>
    obtain ⟨rest, rfl, -, hrest⟩ := splitPath_cons h
    exact (ih hrest).trans ((List.suffix_cons slash rest).trans (List.suffix_append name _))

/-- The slash behind a name is found. -/
theorem strchr_name {name : List Byte} (hslash : slash ∉ name) (hnul : 0 ∉ name)
    (post : List Byte) (pos : Nat) :
    strchr slash (name ++ slash :: post) pos = some (some (pos + name.length)) := by
  induction name generalizing pos with
  | nil => exact if_pos rfl
  | cons b name ih =>
    obtain ⟨hb, hname⟩ := List.ne_and_not_mem_of_not_mem_cons hslash
    obtain ⟨hzero, hnul⟩ := List.ne_and_not_mem_of_not_mem_cons hnul
    rw [List.cons_append, strchr, if_neg (Ne.symm hb), if_neg (Ne.symm hzero), ih hname hnul,
      List.length_cons, Nat.add_right_comm, Nat.add_assoc]

/-- There is none behind the last name. -/
theorem strchr_last {last : List Byte} (hslash : slash ∉ last) (hnul : 0 ∉ last)
    (post : List Byte) (pos : Nat) : strchr slash (last ++ 0 :: post) pos = some none := by
  induction last generalizing pos with
  | nil =>
    have hzero : ¬ (0 : Byte) = slash := by decide
    rw [List.nil_append, strchr, if_neg hzero, if_pos rfl]
  | cons b last ih =>
    obtain ⟨hb, hlast⟩ := List.ne_and_not_mem_of_not_mem_cons hslash
    obtain ⟨hzero, hnul⟩ := List.ne_and_not_mem_of_not_mem_cons hnul
    rw [List.cons_append, strchr, if_neg (Ne.symm hb), if_neg (Ne.symm hzero), ih hlast hnul]

variable {σ P : Type}

/-- A name in the buffer is followed. -/
theorem linkFollowComp_run {follow : GroupHandles.Follow P} {grp objName : Nat}
    {path name post : List Byte} {r : Except Failure UInt64} {s s' : Handles P}
    (hpath : path.drop objName = name ++ slash :: post) (hnul : 0 ∉ name)
    (h : follow grp ⟨name, hnul⟩ s = .ok (r, s')) :
    linkFollowComp follow grp path objName name.length s = .ok ((r, path), s') := by
  have hend : path[objName + name.length]? = some slash := by
    rw [← List.getElem?_drop, hpath]
    simp
  -- the slash is overwritten by a terminator, so the name is the component
  have hcut : (path.set (objName + name.length) 0).drop objName = name ++ 0 :: post := by
    rw [List.drop_set, if_neg (by omega), hpath, Nat.add_sub_cancel_left]
    simp
  have hname : CString.ofBuffer (name ++ 0 :: post) = ⟨name, hnul⟩ :=
    CString.ofBuffer_terminated ⟨name, hnul⟩ post
  obtain ⟨path', hrun⟩ : ∃ path',
      linkFollowComp follow grp path objName name.length s = .ok ((r, path'), s') := by
    refine ⟨(path.set (objName + name.length) 0).set (objName + name.length) slash, ?_⟩
    unfold linkFollowComp
    rw [bind_run (ofOption_run_iff.mpr ⟨hend, rfl⟩)]
    rw [hcut, hname, bind_run h]
    rfl
  -- and put back afterwards
  obtain ⟨rfl, -⟩ := linkFollowComp_spec hrun
  exact hrun

/-! ## Handles that are ready -/

section Runs

variable (c : Context σ P) (root : Nat)

/-- The root group is open, and no group has so many references that `room` more are too many. -/
structure Ready (room : Nat) (heap : Heap (OpenGroup P)) : Prop where
  root : heap.read root = some c.file.rootGrp
  room : ∀ h, heap.count h + room ≤ rcMax

variable {c root} {room : Nat} {s : Handles P} {before heap : Heap (OpenGroup P)}

/-- A group more is open. -/
theorem Ready.of_held (h : Ready c root (room + 1) before) {grp : Nat}
    (hd : Nets before heap (held (some grp))) : Ready c root room heap := by
  have hheld : ∀ k, 0 ≤ held (some grp) k ∧ held (some grp) k ≤ 1 := by
    intro k
    rw [held, Pi.single_apply]
    split <;> simp
  constructor
  · have hpos := Heap.count_pos_of_read h.root
    have hcount := hd.counts root
    have hroot := hheld root
    exact hd.read_eq h.root (by omega)
  · intro k
    have hcount := hd.counts k
    have hroom := h.room k
    have hk := hheld k
    omega

/-- An open group can be held. -/
theorem exists_retained (h : Ready c root (room + 1) s.heap) {grp : Nat} {start : OpenGroup P}
    (hread : s.heap.read grp = some start) :
    ∃ heap', HandleCalls.retain grp s = .ok ((), { s with heap := heap' }) ∧
      Nets s.heap heap' (held (some grp)) ∧ heap'.read grp = some start := by
  have hpos := Heap.count_pos_of_read hread
  have hroom := h.room grp
  obtain ⟨heap', hretain⟩ := Heap.exists_retain hpos (show s.heap.count grp < rcMax by omega)
  have hnets : Nets s.heap heap' (held (some grp)) := nets_retain hretain
  have hcount := hnets.counts grp
  rw [held, Pi.single_eq_same] at hcount
  refine ⟨heap', ?_, hnets, hnets.read_eq hread (by omega)⟩
  rw [HandleCalls.retain, hretain]

/-- Closing the group that is held reports no error. -/
theorem exists_close_ok {closeValue : Nat → Int} (hclose : ∀ n, 0 ≤ closeValue n) {grp : Nat}
    (hd : Nets before s.heap (held (some grp))) :
    ∃ v heap', groupClose (.ofContext c root closeValue) grp s =
      .ok (v, { s with heap := heap', closes := s.closes + 1 }) ∧ ¬ v < 0 := by
  obtain ⟨heap', hclosed⟩ := exists_close (.ofContext c root closeValue) hd
  exact ⟨_, heap', hclosed, not_lt.mpr (hclose _)⟩

/-! ## The functions -/

/-- A function does what `Vol/Groups` says where that is not a fault. -/
def Agrees {α β ε : Type} (same : α → β → Handles P → Prop) (result : Except Stop α)
    (run : Except Crash (Except ε β × Handles P)) : Prop :=
  match result with
  | .ok a => ∃ b s', run = .ok (.ok b, s') ∧ same a b s'
  | .error .fail => ∃ why s', run = .ok (.error why, s')
  | .error .fault => True

/-- The object that a link leads to, and the calls so far. -/
def SameTarget (target : UInt64 × Nat) (oid : UInt64) (s : Handles P) : Prop :=
  target.1 = oid ∧ target.2 = s.reads

variable (c root) in
/-- Two functions that follow links agree. -/
def FollowRuns (room : Nat) (follow : Vol.Follow P) (follow' : GroupHandles.Follow P) : Prop :=
  ∀ {h grp name s}, Ready c root room s.heap → s.heap.read h = some grp →
    Agrees SameTarget (follow grp name.bytes s.reads) (follow' h name s)

/-- The loops are at the same place of a path. -/
structure SamePlace (before : Heap (OpenGroup P)) (rest : List Byte) (t : Traversal P)
    (v : Vars Nat) (s : Handles P) : Prop where
  nets : Nets before s.heap (held (some v.grp))
  grp : s.heap.read v.grp = some t.grp
  out : v.out = t.out
  calls : s.reads = t.calls
  path : v.path.drop v.objName = rest ++ [0]

theorem freeOut_error {out : GcplOut} {why : Stop} (h : freeOut out = .error why) :
    why = .fault := by
  cases out with
  | none => cases h
  | some p =>
    cases p with
    | null => cases h
    | live => cases h
    | freed => exact (Except.error.inj h).symm

theorem handOver_error {gcplBuf : List Byte} {out : GcplOut} {why : Stop}
    (h : handOver gcplBuf out = .error why) : why = .fault := by
  cases out with
  | none => cases h
  | some p =>
    cases p with
    | null => cases h
    | live => exact (Except.error.inj h).symm
    | freed => exact (Except.error.inj h).symm

variable {follow : Vol.Follow P} {follow' : GroupHandles.Follow P} {closeValue : Nat → Int}

theorem openHelper_error {oid : UInt64} {out : GcplOut} {why : Stop}
    (h : Vol.openHelper c oid out = .error why) : why = .fault := by
  unfold Vol.openHelper at h
  simp only at h
  split at h
  · exact (Except.error.inj h).symm
  · cases hgive : handOver (c.objects.object (stringName c.file.name.name oid.toNat)) out with
    | error why' =>
      rw [hgive] at h
      obtain rfl := Except.error.inj h
      exact handOver_error hgive
    | ok out' =>
      rw [hgive] at h
      cases h

/-- The next group is opened. -/
theorem openHelper_run {oid : UInt64} {out out' : GcplOut} {grp : OpenGroup P}
    (h : Vol.openHelper c oid out = .ok (grp, out')) (root : Nat) (closeValue : Nat → Int)
    (s : Handles P) :
    GroupHandles.openHelper (.ofContext c root closeValue) oid out s =
      .ok (some (s.heap.cells.length, out'), { s with heap := s.heap.alloc grp }) := by
  unfold Vol.openHelper at h
  simp only at h
  split at h
  · cases h
  · cases hgive : handOver (c.objects.object (stringName c.file.name.name oid.toNat)) out with
    | error why =>
      rw [hgive] at h
      cases h
    | ok out'' =>
      rw [hgive] at h
      cases h
      simp [GroupHandles.openHelper, Environment.ofContext, hgive]

/-- **A step.** -/
theorem traverseStep_runs (hclose : ∀ n, 0 ≤ closeValue n)
    (hfollow : FollowRuns c root room follow follow')
    (hbalanced : Follows (.ofContext c root closeValue) follow')
    (hready : Ready c root (room + 1) before) {name rest : List Byte} (hnul : 0 ∉ name)
    {t : Traversal P} {v : Vars Nat}
    (hsame : SamePlace before (name ++ slash :: rest) t v s) :
    Agrees (SamePlace before rest) (Vol.traverseStep c follow t name)
      (GroupHandles.traverseStep (.ofContext c root closeValue) follow' v
        (v.objName + name.length) s) := by
  unfold Vol.traverseStep
  cases hfree : freeOut t.out with
  | error why =>
    obtain rfl := freeOut_error hfree
    trivial
  | ok out =>
    rw [ok_bind]
    by_cases hname : name = []
    · simp only [assertName, if_pos hname, error_bind]
      trivial
    · simp only [assertName, if_neg hname, ok_bind]
      have hlt : ¬ v.objName + name.length ≤ v.objName := by
        have hlen := List.length_pos_iff.mpr hname
        omega
      have hpath : v.path.drop v.objName = name ++ slash :: (rest ++ [0]) := by
        rw [hsame.path]
        simp
      have hcalled := @hfollow v.grp t.grp ⟨name, hnul⟩ s (hready.of_held hsame.nets) hsame.grp
      rw [hsame.calls] at hcalled
      have hfree' : (ofStop (freeOut v.out) : HandleCalls P GcplOut) s = .ok (out, s) :=
        ofStop_run_iff.mpr ⟨hsame.out ▸ hfree, rfl⟩
      cases hresult : follow t.grp name t.calls with
      | error why =>
        rw [hresult] at hcalled
        cases why with
        | fault => trivial
        | fail =>
          obtain ⟨why, s₁, hrun⟩ := hcalled
          refine ⟨⟨why, some v.grp, v.path, v.objName, out⟩, s₁, ?_⟩
          unfold GroupHandles.traverseStep
          rw [bind_run hfree', if_neg hlt, Nat.add_sub_cancel_left,
            bind_run (linkFollowComp_run hpath hnul hrun)]
          rfl
      | ok found =>
        obtain ⟨oid, calls⟩ := found
        rw [hresult] at hcalled
        obtain ⟨oid', s₁, hrun, hoid, hcalls⟩ := hcalled
        obtain rfl : oid = oid' := hoid
        rw [ok_bind]
        cases hopen : Vol.openHelper c oid out with
        | error why =>
          obtain rfl := openHelper_error hopen
          trivial
        | ok opened =>
          obtain ⟨grp, out'⟩ := opened
          -- the group is closed, and the next one is opened
          have hheld : Nets before s₁.heap (held (some v.grp) + 0) :=
            hsame.nets.trans (hbalanced hrun)
          rw [add_zero] at hheld
          obtain ⟨v', heap', hclosed, hnonneg⟩ := exists_close_ok hclose hheld
          have hopened := openHelper_run hopen root closeValue
            { s₁ with heap := heap', closes := s₁.closes + 1 }
          have hstep : GroupHandles.traverseStep (.ofContext c root closeValue) follow' v
              (v.objName + name.length) s =
                .ok (.ok ⟨heap'.cells.length, v.path, v.objName + name.length + 1, out'⟩,
                  { s₁ with heap := heap'.alloc grp, closes := s₁.closes + 1 }) := by
            unfold GroupHandles.traverseStep
            rw [bind_run hfree', if_neg hlt, Nat.add_sub_cancel_left,
              bind_run (linkFollowComp_run hpath hnul hrun)]
            simp only
            rw [bind_run hclosed, if_neg hnonneg, bind_run hopened]
            rfl
          have hnets := (traverseStep_nets hbalanced hsame.nets hstep).2
          refine ⟨_, _, hstep, hnets, Heap.read_alloc heap' grp, rfl, hcalls.symm, ?_⟩
          rw [Nat.add_assoc, ← List.drop_drop, hpath]
          simp

/-- **The loop**, by induction on the names; it makes one step for each. -/
theorem traverseLoop_runs (hclose : ∀ n, 0 ≤ closeValue n)
    (hfollow : FollowRuns c root room follow follow')
    (hbalanced : Follows (.ofContext c root closeValue) follow')
    (hready : Ready c root (room + 1) before) (names : List (List Byte)) {last rest : List Byte}
    (hsplit : splitPath rest = (names, last)) (hnul : 0 ∉ rest) {t : Traversal P} {v : Vars Nat}
    (hsame : SamePlace before rest t v s) {steps : Nat} (hsteps : rest.length < steps) :
    Agrees (SamePlace before last) (names.foldlM (Vol.traverseStep c follow) t)
      (traverseLoop (.ofContext c root closeValue) follow' steps v s) := by
  induction names generalizing rest t v s steps with
  | nil =>
    obtain ⟨rfl, hslash⟩ := splitPath_nil hsplit
    cases steps with
    | zero => omega
    | succ steps =>
      refine ⟨v, s, ?_, hsame⟩
      -- `strchr` finds no slash up to the terminator
      have hnone := strchr_last hslash hnul [] v.objName
      rw [traverseLoop, hsame.path, bind_run (ofOption_run_iff.mpr ⟨hnone, rfl⟩)]
      rfl
  | cons name names ih =>
    obtain ⟨rest', rfl, hslash, hrest⟩ := splitPath_cons hsplit
    simp only [List.mem_append, List.mem_cons, not_or] at hnul
    obtain ⟨hname, -, hnul'⟩ := hnul
    cases steps with
    | zero => omega
    | succ steps =>
      -- it finds the one behind the name, and the step starts there
      have hfound := strchr_name hslash hname (rest' ++ [0]) v.objName
      have hstep := traverseStep_runs hclose hfollow hbalanced hready hname hsame
      rw [List.foldlM_cons, traverseLoop, hsame.path, List.append_assoc, List.cons_append,
        bind_run (ofOption_run_iff.mpr ⟨hfound, rfl⟩)]
      match hresult : Vol.traverseStep c follow t name, hstep with
      | .error .fault, _ => trivial
      | .error .fail, ⟨ex, s', hrun⟩ =>
        refine ⟨ex, s', ?_⟩
        simp only
        rw [bind_run hrun]
        rfl
      | .ok t', ⟨v', s', hrun, hsame'⟩ =>
        have hlong : rest'.length < steps := by
          simp only [List.length_append, List.length_cons] at hsteps
          omega
        simp only
        rw [bind_run hrun]
        exact ih hrest hnul' hsame' hlong

/-- The items are the same object. -/
inductive SameItem (heap : Heap (OpenGroup P)) : Vol.Item P → GroupHandles.Item → Prop
  | file : SameItem heap .file .file
  | group {h : Nat} {grp : OpenGroup P} (hread : heap.read h = some grp) :
      SameItem heap (.group grp) (.group h)
  | other : SameItem heap .other .other

/-- What the traversals return. -/
structure SameGroup (before : Heap (OpenGroup P)) (t : Vol.Traversed P)
    (t' : GroupHandles.Traversed) (s : Handles P) : Prop where
  result : ∃ grp objName, t'.result = .ok (grp, objName) ∧ s.heap.read grp = some t.grp ∧
    t'.path.drop objName = t.name ++ [0] ∧ Nets before s.heap (held (some grp))
  noNul : 0 ∉ t.name
  out : t'.out = t.out
  calls : s.reads = t.calls

/-- Where the traversal begins. -/
theorem startGroup_runs {heap : Heap (OpenGroup P)} (hroot : heap.read root = some c.file.rootGrp)
    {item : Vol.Item P} {item' : GroupHandles.Item} (hitem : SameItem heap item item')
    (path : List Byte) (closeValue : Nat → Int) :
    ∃ first, (path ++ [0])[0]? = some first ∧
      match Vol.startGroup c item path with
      | .ok start => ∃ grp objName,
          GroupHandles.startGroup (.ofContext c root closeValue) item' first =
              .ok (grp, objName) ∧
            heap.read grp = some start ∧ (path ++ [0]).drop objName = afterRoot path ++ [0]
      | .error .fail => ∃ why,
          GroupHandles.startGroup (.ofContext c root closeValue) item' first = .error why
      | .error .fault => True := by
  -- a leading slash: both start at the root group, behind the slash
  by_cases hslash : path.head? = some slash
  · obtain ⟨rest, rfl⟩ := List.head?_eq_some_iff.mp hslash
    refine ⟨slash, rfl, ?_⟩
    simp only [Vol.startGroup, if_pos hslash]
    exact ⟨root, 1, if_pos rfl, hroot, rfl⟩
  -- no slash: the terminator is read at worst, and nothing is skipped
  · have hafter : afterRoot path = path := if_neg hslash
    obtain ⟨first, hfirst, hne⟩ : ∃ first, (path ++ [0])[0]? = some first ∧ first ≠ slash := by
      cases path with
      | nil => exact ⟨0, rfl, by decide⟩
      | cons b path => exact ⟨b, rfl, fun h => hslash (congrArg some h)⟩
    refine ⟨first, hfirst, ?_⟩
    simp only [Vol.startGroup, if_neg hslash, GroupHandles.startGroup, if_neg hne, hafter]
    -- the start is the root of a file item or the group itself
    cases hitem with
    | file => exact ⟨root, 0, rfl, hroot, rfl⟩
    | group hread => exact ⟨_, 0, rfl, hread, rfl⟩
    | other => exact ⟨.item, rfl⟩

/-- The group of a variable can be closed after an error too. -/
theorem traverseDone_error (hclose : ∀ n, 0 ≤ closeValue n) {path : List Byte} {ex : Exit}
    (hloop : LoopNets (.ofContext c root closeValue) before path s.heap (.error ex)) :
    ∃ t' s' why, traverseDone (.ofContext c root closeValue) (.error ex) s = .ok (t', s') ∧
      t'.result = .error why := by
  obtain ⟨why, grp, path', objName, out⟩ := ex
  obtain ⟨-, d, hlost, hd⟩ := hloop
  cases grp with
  | none => exact ⟨_, _, why, rfl, rfl⟩
  | some grp =>
    rw [lost_eq_zero hclose hlost, add_zero] at hd
    obtain ⟨heap', hclosed⟩ := exists_close (.ofContext c root closeValue) hd
    exact ⟨_, _, why, bind_run hclosed _, rfl⟩

/-- **Traversals** return what `Vol/Groups` says. -/
theorem groupTraverse_runs (hclose : ∀ n, 0 ≤ closeValue n)
    (hfollow : FollowRuns c root room follow follow')
    (hbalanced : Follows (.ofContext c root closeValue) follow')
    (hready : Ready c root (room + 1) s.heap) {item : Vol.Item P} {item' : GroupHandles.Item}
    (hitem : SameItem s.heap item item') {path : List Byte} (hnul : 0 ∉ path) (out : GcplOut) :
    match Vol.groupTraverse c follow item path out s.reads with
    | .ok t => ∃ t' s', GroupHandles.groupTraverse (.ofContext c root closeValue) follow' item'
        (path ++ [0]) out s = .ok (t', s') ∧ SameGroup s.heap t t' s'
    | .error .fail => ∃ t' s' why, GroupHandles.groupTraverse (.ofContext c root closeValue)
        follow' item' (path ++ [0]) out s = .ok (t', s') ∧ t'.result = .error why
    | .error .fault => True := by
  obtain ⟨first, hfirst, hstart⟩ := startGroup_runs hready.root hitem path closeValue
  have hfirst' : (ofOption (path ++ [0])[0]? : HandleCalls P Byte) s = .ok (first, s) :=
    ofOption_run_iff.mpr ⟨hfirst, rfl⟩
  unfold Vol.groupTraverse
  match hvol : Vol.startGroup c item path, hstart with
  | .error .fault, _ => trivial
  | .error .fail, ⟨why, hnone⟩ =>
    refine ⟨⟨.error why, path ++ [0], out⟩, s, why, ?_, rfl⟩
    rw [GroupHandles.groupTraverse, bind_run hfirst', hnone]
    rfl
  | .ok start, ⟨grp, objName, hsome, hread, hpath⟩ =>
    obtain ⟨heap', hretain, hnets, hread'⟩ := exists_retained hready hread
    rcases hsplit : splitPath (afterRoot path) with ⟨names, last⟩
    -- a leading slash is skipped by both
    have hsuffix : afterRoot path <:+ path := by
      unfold afterRoot
      split
      · exact List.tail_suffix path
      · exact List.suffix_rfl
    have hlong : (afterRoot path).length < (path ++ [0]).length + 1 := by
      have := hsuffix.length_le
      simp only [List.length_append, List.length_singleton]
      omega
    have hplace : SamePlace s.heap (afterRoot path) ⟨start, out, s.reads⟩
        ⟨grp, path ++ [0], objName, out⟩ { s with heap := heap' } :=
      ⟨hnets, hread', rfl, rfl, hpath⟩
    have hloop := traverseLoop_runs hclose hfollow hbalanced hready names hsplit
      (fun h => hnul (hsuffix.mem h)) hplace hlong
    -- what is left is the loop, with one more reference to the first group
    have hrun : GroupHandles.groupTraverse (.ofContext c root closeValue) follow' item'
        (path ++ [0]) out s = (traverseLoop (.ofContext c root closeValue) follow'
          ((path ++ [0]).length + 1) ⟨grp, path ++ [0], objName, out⟩ >>=
            traverseDone (.ofContext c root closeValue)) { s with heap := heap' } := by
      rw [GroupHandles.groupTraverse, bind_run hfirst', hsome]
      exact bind_run hretain _
    rw [ok_bind, hrun]
    simp only
    match hresult : names.foldlM (Vol.traverseStep c follow) ⟨start, out, s.reads⟩, hloop with
    | .error .fault, _ => trivial
    | .error .fail, ⟨ex, s', hlooped⟩ =>
      simp only [error_bind]
      rw [bind_run hlooped]
      exact traverseDone_error hclose (traverseLoop_nets hbalanced _ hnets hlooped)
    | .ok t, ⟨v, s', hlooped, hsame⟩ =>
      simp only [ok_bind]
      rw [bind_run hlooped]
      have hlast : 0 ∉ last := fun h => hnul ((splitPath_suffix hsplit).trans hsuffix |>.mem h)
      exact ⟨_, _, rfl, ⟨_, _, rfl, hsame.grp, hsame.path, hsame.nets⟩, hlast, hsame.out,
        hsame.calls⟩

/-! ## Links -/

theorem CString.ofBuffer_bytes (name : CString) : CString.ofBuffer name.bytes = name := by
  apply CString.ext
  have hall : ∀ b ∈ name.bytes, decide (b ≠ 0) = true := by
    intro b hb
    have hne : b ≠ 0 := fun h => name.noNul (h ▸ hb)
    simpa using hne
  exact List.takeWhile_eq_self_iff.mpr hall

/-- The last name. -/
theorem followLast_runs (hfollow : FollowRuns c root room follow follow')
    (hready : Ready c root (room + 1) before) {t : Vol.Traversed P} {grp : Nat}
    (hnets : Nets before s.heap (held (some grp))) (hread : s.heap.read grp = some t.grp)
    (hcalls : s.reads = t.calls) (hnul : 0 ∉ t.name) :
    Agrees SameTarget (Vol.followLast follow t)
      (GroupHandles.followLast follow' grp ⟨t.name, hnul⟩ s) := by
  have hread' : (HandleCalls.read grp : HandleCalls P (OpenGroup P)) s = .ok (t.grp, s) := by
    rw [HandleCalls.read, hread]
  rw [GroupHandles.followLast, bind_run hread', Vol.followLast]
  by_cases hstands : standsForGroup t.name
  · rw [if_pos hstands, if_pos hstands]
    exact ⟨_, s, rfl, rfl, hcalls.symm⟩
  · rw [if_neg hstands, if_neg hstands, ← hcalls]
    exact @hfollow grp t.grp ⟨t.name, hnul⟩ s (hready.of_held hnets) hread

/-- The case of a soft link. -/
theorem followSoft_runs (hclose : ∀ n, 0 ≤ closeValue n)
    (hfollow : FollowRuns c root room follow follow')
    (hbalanced : Follows (.ofContext c root closeValue) follow')
    (hready : Ready c root (room + 1) s.heap) {h : Nat} {grp : OpenGroup P}
    (hread : s.heap.read h = some grp) (target : CString) :
    Agrees SameTarget
      (Vol.groupTraverse c follow (.group grp) target.bytes none s.reads >>= Vol.followLast follow)
      (followSoft (.ofContext c root closeValue) follow' h target s) := by
  have htraverse := groupTraverse_runs hclose hfollow hbalanced hready (.group hread)
    target.noNul none
  unfold followSoft
  cases hresult : Vol.groupTraverse c follow (.group grp) target.bytes none s.reads with
  | error why =>
    rw [hresult] at htraverse
    cases why with
    | fault => trivial
    | fail =>
      obtain ⟨t', s', why, hrun, hwhy⟩ := htraverse
      refine ⟨why, s', ?_⟩
      rw [bind_run hrun]
      simp only [hwhy]
      rfl
  | ok t =>
    rw [hresult] at htraverse
    obtain ⟨t', s', hrun, hsame⟩ := htraverse
    obtain ⟨targetGrp, targetName, hok, hread', hname, hnets⟩ := hsame.result
    have hlast := followLast_runs hfollow hready hnets hread' hsame.calls hsame.noNul
    have hcut : CString.ofBuffer (t'.path.drop targetName) = ⟨t.name, hsame.noNul⟩ := by
      rw [hname]
      exact CString.ofBuffer_terminated ⟨t.name, hsame.noNul⟩ []
    rw [ok_bind, bind_run hrun]
    simp only [hok, hcut]
    -- the group of the target is closed, whatever its link leads to
    cases hfollowed : Vol.followLast follow t with
    | error why =>
      rw [hfollowed] at hlast
      cases why with
      | fault => trivial
      | fail =>
        obtain ⟨why, s₁, hrun'⟩ := hlast
        obtain ⟨d, hlost, hd⟩ := followLast_nets hbalanced hrun'
        have hheld := hnets.trans hd
        rw [lost_eq_zero hclose hlost, add_zero] at hheld
        obtain ⟨v', heap', hclosed, hnonneg⟩ := exists_close_ok hclose hheld
        refine ⟨why, { s₁ with heap := heap', closes := s₁.closes + 1 }, ?_⟩
        rw [bind_run hrun', bind_run hclosed, if_neg hnonneg]
        rfl
    | ok found =>
      rw [hfollowed] at hlast
      obtain ⟨oid, s₁, hrun', hsame'⟩ := hlast
      have hheld := hnets.trans (followLast_nets hbalanced hrun')
      rw [add_zero] at hheld
      obtain ⟨v', heap', hclosed, hnonneg⟩ := exists_close_ok hclose hheld
      refine ⟨oid, { s₁ with heap := heap', closes := s₁.closes + 1 }, ?_, hsame'⟩
      rw [bind_run hrun', bind_run hclosed, if_neg hnonneg]
      rfl

section ReadLink

variable {grp : OpenGroup P} {name : CString}

theorem readLink_ok {val : LinkVal}
    (hval : linkRead c.omap c.state ⟨grp.oid, c.file.flags⟩ name
      (c.memory s.reads grp.oid name.bytes).heap
      (c.memory s.reads grp.oid name.bytes).behind = .ok val) :
    readLink (.ofContext c root closeValue) grp name s =
      .ok (.ok val, { s with reads := s.reads + 1 }) := by
  simp only [readLink, Environment.ofContext, hval]

theorem readLink_fail
    (hval : linkRead c.omap c.state ⟨grp.oid, c.file.flags⟩ name
      (c.memory s.reads grp.oid name.bytes).heap
      (c.memory s.reads grp.oid name.bytes).behind = .error .fail) :
    readLink (.ofContext c root closeValue) grp name s =
      .ok (.error .linkRead, { s with reads := s.reads + 1 }) := by
  simp only [readLink, Environment.ofContext, hval]

end ReadLink

/-- **Links** are followed as `Vol/Groups` says, by induction on the room on the stack. -/
theorem linkFollow_runs (hclose : ∀ n, 0 ≤ closeValue n) (depth : Nat) :
    FollowRuns c root depth (Vol.linkFollow c depth)
      (GroupHandles.linkFollow (.ofContext c root closeValue) depth) := by
  induction depth with
  | zero =>
    intro h grp name s _ _
    trivial
  | succ depth ih =>
    intro h grp name s hready hread
    have hread' : (HandleCalls.read h : HandleCalls P (OpenGroup P)) s = .ok (grp, s) := by
      rw [HandleCalls.read, hread]
    rw [Vol.linkFollow, GroupHandles.linkFollow, bind_run hread', CString.ofBuffer_bytes]
    -- both read the link, and go on with its value
    cases hval : linkRead c.omap c.state ⟨grp.oid, c.file.flags⟩ name
        (c.memory s.reads grp.oid name.bytes).heap
        (c.memory s.reads grp.oid name.bytes).behind with
    | error why =>
      cases why with
      | fault => trivial
      | fail =>
        refine ⟨.linkRead, { s with reads := s.reads + 1 }, ?_⟩
        rw [bind_run (readLink_fail hval)]
        rfl
    | ok val =>
      rw [ok_bind, bind_run (readLink_ok hval)]
      cases val with
      | hard oid => exact ⟨oid, { s with reads := s.reads + 1 }, rfl, rfl, rfl⟩
      | soft target =>
        exact followSoft_runs (s := { s with reads := s.reads + 1 }) hclose ih
          (linkFollow_follows _ depth) hready hread target
      | unsupported type target =>
        exact ⟨.linkType, { s with reads := s.reads + 1 }, rfl⟩

/-- **Runs.**  Where `Vol/Groups` says that a traversal returns or fails, it does so here, with
the same group and the same name, if closes succeed and the counts leave room. -/
theorem traversal_runs (hclose : ∀ n, 0 ≤ closeValue n) (depth : Nat)
    (hready : Ready c root (depth + 1) s.heap) {item : Vol.Item P} {item' : GroupHandles.Item}
    (hitem : SameItem s.heap item item') {path : List Byte} (hnul : 0 ∉ path) (out : GcplOut) :
    match Vol.groupTraverse c (Vol.linkFollow c depth) item path out s.reads with
    | .ok t => ∃ t' s', GroupHandles.groupTraverse (.ofContext c root closeValue)
        (GroupHandles.linkFollow (.ofContext c root closeValue) depth) item' (path ++ [0]) out s =
          .ok (t', s') ∧ SameGroup s.heap t t' s'
    | .error .fail => ∃ t' s' why, GroupHandles.groupTraverse (.ofContext c root closeValue)
        (GroupHandles.linkFollow (.ofContext c root closeValue) depth) item' (path ++ [0]) out s =
          .ok (t', s') ∧ t'.result = .error why
    | .error .fault => True :=
  groupTraverse_runs hclose (linkFollow_runs hclose depth) (linkFollow_follows _ depth) hready
    hitem hnul out

end Runs

end DTIO.Properties.TraversalRuns
