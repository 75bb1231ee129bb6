import DTIO.Properties.PathResolution
import DTIO.Vol.GroupHandles

/-!
# Balance of Traversals

`H5VL_dtio_group_traverse` and `H5VL_dtio_link_follow` give back what they take: whichever way
they end, no handle of a group has more or fewer references than before, but for the group that
is returned, and the buffer of the path is restored.

A traversal holds one reference, to the group that it is at.  The functions call each other; the
balance of the inner ones is what the invariant of the loop needs of them.

## Main definitions

- `Lost`: the references that are missing after an error
- `Follows`: a function that follows links and gives back what it takes

## Main results

- `traverseLoop_nets`: the loop, with the group that is held
- `traversal_balanced`: both functions
- `traversal_safe`: no handle is used after it was freed
-/

namespace DTIO.Properties.BalancedTraversal

open DTIO.Posix DTIO.Vol DTIO.Vol.GroupHandles DTIO.Vol.GroupHandles.HandleCalls DTIO.RefCount

variable {σ P : Type} {e : Environment σ P} {follow : GroupHandles.Follow P}

/-! ## References -/

/-- The references that a variable for a group holds. -/
def held : Option Nat → Nat → Int
  | none => 0
  | some grp => Pi.single grp 1

/-- What is missing after an error: when the close of a group reports one, the group is closed
again. -/
def Lost (e : Environment σ P) : Failure → (Nat → Int) → Prop
  | .groupClose, d => (∃ n, e.closeValue n < 0) ∧ ∃ grp, d = Pi.single grp (-1)
  | .item, d => d = 0
  | .linkRead, d => d = 0
  | .linkType, d => d = 0
  | .groupOpen, d => d = 0

/-- What following a link leaves. -/
def LinkNets (e : Environment σ P) (before after : Heap (OpenGroup P)) :
    Except Failure UInt64 → Prop
  | .ok _ => Nets before after 0
  | .error why => ∃ d, Lost e why d ∧ Nets before after d

/-- A function that follows links. -/
def Follows (e : Environment σ P) (follow : GroupHandles.Follow P) : Prop :=
  ∀ {grp name s r s'}, follow grp name s = .ok (r, s') → LinkNets e s.heap s'.heap r

/-- What the loop leaves, from a heap without its group on. -/
def LoopNets (e : Environment σ P) (before : Heap (OpenGroup P)) (path : List Byte)
    (after : Heap (OpenGroup P)) : Except Exit (Vars Nat) → Prop
  | .ok v => v.path = path ∧ Nets before after (held (some v.grp))
  | .error ex =>
    ex.vars.path = path ∧ ∃ d, Lost e ex.why d ∧ Nets before after (held ex.vars.grp + d)

theorem held_add_release (grp : Nat) (d : Nat → Int) :
    held (some grp) + d + Pi.single grp (-1) = d := by
  rw [held, add_right_comm, ← Pi.single_add, add_neg_cancel, Pi.single_zero, zero_add]

/-! ## Functions that are called -/

theorem groupClose_nets {h : Nat} {v : Int} {s s' : Handles P}
    (hclose : groupClose e h s = .ok (v, s')) :
    v = e.closeValue s.closes ∧ Nets s.heap s'.heap (Pi.single h (-1)) := by
  unfold groupClose at hclose
  split at hclose
  next heap hrelease =>
    cases hclose
    exact ⟨rfl, nets_release hrelease⟩
  next => cases hclose

/-- The group that is held can be closed. -/
theorem exists_close (e : Environment σ P) {grp : Nat} {before : Heap (OpenGroup P)}
    {s : Handles P} (hd : Nets before s.heap (held (some grp))) :
    ∃ heap', groupClose e grp s =
      .ok (e.closeValue s.closes, { s with heap := heap', closes := s.closes + 1 }) := by
  have hcount := hd.counts grp
  rw [held, Pi.single_eq_same] at hcount
  obtain ⟨heap', hrelease⟩ := Heap.exists_release (show 0 < s.heap.count grp by omega)
  exact ⟨heap', by rw [groupClose, hrelease]⟩

theorem openHelper_nets {oid : UInt64} {out : GcplOut} {opened : Option (Nat × GcplOut)}
    {s s' : Handles P} (hopen : GroupHandles.openHelper e oid out s = .ok (opened, s')) :
    Nets s.heap s'.heap (held (opened.map Prod.fst)) := by
  unfold GroupHandles.openHelper at hopen
  split at hopen
  · cases hopen
    exact .refl _
  · split at hopen
    · cases hopen
    · cases hopen
      exact nets_alloc _ _

theorem readLink_spec {grp : OpenGroup P} {name : CString} {r : Except Failure LinkVal}
    {s s' : Handles P} (hread : readLink e grp name s = .ok (r, s')) :
    s'.heap = s.heap ∧ ∀ why, r = .error why → why = .linkRead := by
  simp only [readLink] at hread
  split at hread
  · cases hread
    exact ⟨rfl, nofun⟩
  · cases hread
    exact ⟨rfl, fun why h => (Except.error.inj h).symm⟩
  · cases hread

theorem read_spec {h : Nat} {grp : OpenGroup P} {s s' : Handles P}
    (hread : HandleCalls.read h s = .ok (grp, s')) : s = s' := by
  unfold HandleCalls.read at hread
  split at hread
  · cases hread
    rfl
  · cases hread

theorem retain_nets {h : Nat} {s s' : Handles P}
    (hretain : HandleCalls.retain h s = .ok ((), s')) :
    Nets s.heap s'.heap (held (some h)) := by
  unfold HandleCalls.retain at hretain
  split at hretain
  next heap hheap =>
    cases hretain
    exact nets_retain hheap
  next => cases hretain

/-! ## The traversal -/

/-- The terminator that ends a name is replaced by what was there. -/
theorem linkFollowComp_spec {grp name nameLen : Nat} {path path' : List Byte}
    {r : Except Failure UInt64} {s s' : Handles P}
    (h : linkFollowComp follow grp path name nameLen s = .ok ((r, path'), s')) :
    path' = path ∧ ∃ name', follow grp name' s = .ok (r, s') := by
  obtain ⟨savedEnd, s₁, hsaved, hcalled⟩ := bind_run_iff.mp h
  obtain ⟨hend, rfl⟩ := ofOption_run_iff.mp hsaved
  obtain ⟨r', s₂, hfollow, hdone⟩ := bind_run_iff.mp hcalled
  obtain ⟨heq, rfl⟩ := pure_run_iff.mp hdone
  cases heq
  refine ⟨?_, _, hfollow⟩
  obtain ⟨hlt, rfl⟩ := List.getElem?_eq_some_iff.mp hend
  rw [List.set_set]
  exact List.set_getElem_self hlt

/-- **A step.**  One group is held before and after it. -/
theorem traverseStep_nets (hfollow : Follows e follow) {before : Heap (OpenGroup P)}
    {v : Vars Nat} {nextObj : Nat} {r : Except Exit (Vars Nat)} {s s' : Handles P}
    (hbefore : Nets before s.heap (held (some v.grp)))
    (h : traverseStep e follow v nextObj s = .ok (r, s')) :
    LoopNets e before v.path s'.heap r := by
  obtain ⟨out, s₁, hfree, hname⟩ := bind_run_iff.mp h
  obtain ⟨-, rfl⟩ := ofStop_run_iff.mp hfree
  split at hname
  -- the assertion fails for an empty name, and there is no result
  · cases hname
  · obtain ⟨⟨followed, path⟩, s₂, hcomp, hthen⟩ := bind_run_iff.mp hname
    obtain ⟨rfl, name, hcalled⟩ := linkFollowComp_spec hcomp
    have hnets := hfollow hcalled
    cases followed with
    | error why =>
      -- the group is still held when the link leads nowhere
      obtain ⟨rfl, rfl⟩ := pure_run_iff.mp hthen
      obtain ⟨d, hlost, hd⟩ := hnets
      exact ⟨rfl, d, hlost, hbefore.trans hd⟩
    | ok oid =>
      obtain ⟨closed, s₃, hclose, hclosed⟩ := bind_run_iff.mp hthen
      obtain ⟨rfl, hreleased⟩ := groupClose_nets hclose
      have hheld : Nets before s₂.heap (held (some v.grp) + 0) := hbefore.trans hnets
      have hnone := hheld.trans hreleased
      split at hclosed
      next hneg =>
        -- the group is closed, and still in the variable
        obtain ⟨rfl, rfl⟩ := pure_run_iff.mp hclosed
        exact ⟨rfl, _, ⟨⟨_, hneg⟩, v.grp, rfl⟩, add_zero (held (some v.grp)) ▸ hnone⟩
      next =>
        -- between the close and the open nothing is held
        rw [held_add_release] at hnone
        obtain ⟨opened, s₄, hopen, hdone⟩ := bind_run_iff.mp hclosed
        have hopened := hnone.trans (openHelper_nets hopen)
        rw [zero_add] at hopened
        cases opened with
        | none =>
          obtain ⟨rfl, rfl⟩ := pure_run_iff.mp hdone
          exact ⟨rfl, 0, rfl, by rwa [add_zero]⟩
        | some opened =>
          obtain ⟨rfl, rfl⟩ := pure_run_iff.mp hdone
          exact ⟨rfl, hopened⟩

/-- **The loop.**  By induction on its steps, with the group that is held as its invariant. -/
theorem traverseLoop_nets (hfollow : Follows e follow) {before : Heap (OpenGroup P)} (steps : Nat)
    {v : Vars Nat} {r : Except Exit (Vars Nat)} {s s' : Handles P}
    (hbefore : Nets before s.heap (held (some v.grp)))
    (h : traverseLoop e follow steps v s = .ok (r, s')) :
    LoopNets e before v.path s'.heap r := by
  induction steps generalizing v s with
  | zero => cases h
  | succ steps ih =>
    obtain ⟨next, s₁, hnext, hthen⟩ := bind_run_iff.mp h
    obtain ⟨-, rfl⟩ := ofOption_run_iff.mp hnext
    cases next with
    | none =>
      -- no slash is left, and the group is returned
      obtain ⟨rfl, rfl⟩ := pure_run_iff.mp hthen
      exact ⟨rfl, hbefore⟩
    | some nextObj =>
      obtain ⟨stepped, s₂, hstep, hrest⟩ := bind_run_iff.mp hthen
      have hnets := traverseStep_nets hfollow hbefore hstep
      cases stepped with
      | error ex =>
        obtain ⟨rfl, rfl⟩ := pure_run_iff.mp hrest
        exact hnets
      | ok v' =>
        obtain ⟨hpath, hheld⟩ := hnets
        exact hpath ▸ ih hheld hrest

/-- What `H5VL_dtio_group_traverse` leaves. -/
def TraverseNets (e : Environment σ P) (before after : Heap (OpenGroup P)) :
    Except Failure (Nat × Nat) → Prop
  | .ok (grp, _) => Nets before after (held (some grp))
  | .error why => ∃ d, Lost e why d ∧ Nets before after d

theorem traverseDone_nets {before : Heap (OpenGroup P)} {path : List Byte}
    {r : Except Exit (Vars Nat)} {t : GroupHandles.Traversed} {s s' : Handles P}
    (hloop : LoopNets e before path s.heap r) (h : traverseDone e r s = .ok (t, s')) :
    t.path = path ∧ TraverseNets e before s'.heap t.result := by
  match r with
  | .ok v =>
    obtain ⟨rfl, rfl⟩ := pure_run_iff.mp h
    exact hloop
  | .error ⟨why, some grp, path', objName, out⟩ =>
    obtain ⟨hpath, d, hlost, hd⟩ := hloop
    obtain ⟨closed, s₁, hclose, hdone⟩ := bind_run_iff.mp h
    obtain ⟨rfl, rfl⟩ := pure_run_iff.mp hdone
    have hreleased := hd.trans (groupClose_nets hclose).2
    rw [held_add_release] at hreleased
    exact ⟨hpath, d, hlost, hreleased⟩
  | .error ⟨why, none, path', objName, out⟩ =>
    obtain ⟨hpath, d, hlost, hd⟩ := hloop
    obtain ⟨rfl, rfl⟩ := pure_run_iff.mp h
    exact ⟨hpath, d, hlost, zero_add d ▸ hd⟩

theorem startGroup_error {item : GroupHandles.Item} {first : Byte} {why : Failure}
    (h : GroupHandles.startGroup e item first = .error why) : why = .item := by
  unfold GroupHandles.startGroup at h
  split at h
  · cases h
  · cases item with
    | file => cases h
    | group => cases h
    | other => exact (Except.error.inj h).symm

/-- **Traversals** hold the group that they return. -/
theorem groupTraverse_nets (hfollow : Follows e follow) {item : GroupHandles.Item}
    {path : List Byte} {out : GcplOut} {t : GroupHandles.Traversed} {s s' : Handles P}
    (h : GroupHandles.groupTraverse e follow item path out s = .ok (t, s')) :
    t.path = path ∧ TraverseNets e s.heap s'.heap t.result := by
  obtain ⟨first, s₁, hfirst, hthen⟩ := bind_run_iff.mp h
  obtain ⟨-, rfl⟩ := ofOption_run_iff.mp hfirst
  cases hstart : GroupHandles.startGroup e item first with
  | error why =>
    -- nothing is held yet
    rw [hstart] at hthen
    obtain ⟨rfl, rfl⟩ := pure_run_iff.mp hthen
    obtain rfl := startGroup_error hstart
    exact ⟨rfl, 0, rfl, .refl _⟩
  | ok start =>
    -- the loop starts with a reference of its own to the first group
    rw [hstart] at hthen
    obtain ⟨_, s₂, hretain, hloop⟩ := bind_run_iff.mp hthen
    obtain ⟨r, s₃, hlooped, hdone⟩ := bind_run_iff.mp hloop
    exact traverseDone_nets (traverseLoop_nets hfollow _ (retain_nets hretain) hlooped) hdone

/-! ## Links -/

theorem followLast_nets (hfollow : Follows e follow) {grp : Nat} {name : CString}
    {r : Except Failure UInt64} {s s' : Handles P}
    (h : GroupHandles.followLast follow grp name s = .ok (r, s')) :
    LinkNets e s.heap s'.heap r := by
  obtain ⟨target, s₁, hread, hthen⟩ := bind_run_iff.mp h
  obtain rfl := read_spec hread
  split at hthen
  · obtain ⟨rfl, rfl⟩ := pure_run_iff.mp hthen
    exact .refl _
  · exact hfollow hthen

theorem followSoft_nets (hfollow : Follows e follow) {grp : Nat} {target : CString}
    {r : Except Failure UInt64} {s s' : Handles P}
    (h : followSoft e follow grp target s = .ok (r, s')) : LinkNets e s.heap s'.heap r := by
  obtain ⟨⟨result, path, out⟩, s₁, htraverse, hthen⟩ := bind_run_iff.mp h
  obtain ⟨-, hnets⟩ := groupTraverse_nets hfollow htraverse
  match result with
  | .error why =>
    obtain ⟨rfl, rfl⟩ := pure_run_iff.mp hthen
    exact hnets
  | .ok (targetGrp, targetName) =>
    obtain ⟨r', s₂, hlast, hrest⟩ := bind_run_iff.mp hthen
    obtain ⟨closed, s₃, hclose, hdone⟩ := bind_run_iff.mp hrest
    have hlastNets := followLast_nets hfollow hlast
    have hreleased := (groupClose_nets hclose).2
    split at hdone
    -- a close that reports an error would free the target twice, and there is no result
    · cases hdone
    · obtain ⟨rfl, rfl⟩ := pure_run_iff.mp hdone
      cases r' with
      | ok oid =>
        have hall := (hnets.trans hlastNets).trans hreleased
        rwa [held_add_release] at hall
      | error why =>
        obtain ⟨d, hlost, hd⟩ := hlastNets
        have hall := (hnets.trans hd).trans hreleased
        rw [held_add_release] at hall
        exact ⟨d, hlost, hall⟩

/-- **Links.**  By induction on the room on the stack. -/
theorem linkFollow_follows (e : Environment σ P) (depth : Nat) :
    Follows e (GroupHandles.linkFollow e depth) := by
  induction depth with
  | zero =>
    -- no room to recurse: nothing ran to its end
    intro grp name s r s' h
    cases h
  | succ depth ih =>
    intro grp name s r s' h
    -- the link is read, which touches no handle
    obtain ⟨g, s₁, hg, hthen⟩ := bind_run_iff.mp h
    obtain rfl := read_spec hg
    obtain ⟨val, s₂, hread, hval⟩ := bind_run_iff.mp hthen
    obtain ⟨hheap, hwhy⟩ := readLink_spec hread
    have hsame : Nets s.heap s₂.heap 0 := hheap ▸ .refl _
    match val with
    -- not read, a hard link or an unsupported one: nothing is held, nothing returned
    | .error why =>
      obtain ⟨rfl, rfl⟩ := pure_run_iff.mp hval
      obtain rfl := hwhy why rfl
      exact ⟨0, rfl, hsame⟩
    | .ok (.hard oid) =>
      obtain ⟨rfl, rfl⟩ := pure_run_iff.mp hval
      exact hsame
    -- a soft link: the target is traversed one level deeper
    | .ok (.soft target) => exact hheap ▸ followSoft_nets ih hval
    | .ok (.unsupported ..) =>
      obtain ⟨rfl, rfl⟩ := pure_run_iff.mp hval
      exact ⟨0, rfl, hsame⟩

/-! ## Both functions -/

/-- Everything is given back, unless the call fails because a close reported an error. -/
structure Ends {α : Type} (e : Environment σ P) (before after : Heap (OpenGroup P))
    (r : Except Failure α) : Prop where
  balanced : Balanced before after ↔ r ≠ .error .groupClose
  reported : r = .error .groupClose → ∃ n, e.closeValue n < 0

theorem Ends.of_ok {α : Type} {before after : Heap (OpenGroup P)} (h : Nets before after 0)
    (a : α) : Ends e before after (.ok a) := ⟨iff_of_true h.balanced nofun, nofun⟩

theorem Ends.of_lost {α : Type} {before after : Heap (OpenGroup P)} {why : Failure}
    {d : Nat → Int} (hlost : Lost e why d) (hd : Nets before after d) :
    Ends e before after (.error why : Except Failure α) := by
  -- only a close that reported an error has lost a reference
  have hzero : d = 0 ↔ why ≠ .groupClose := by
    cases why with
    | groupClose =>
      obtain ⟨-, grp, rfl⟩ := hlost
      simp
    | item => exact iff_of_true hlost nofun
    | linkRead => exact iff_of_true hlost nofun
    | linkType => exact iff_of_true hlost nofun
    | groupOpen => exact iff_of_true hlost nofun
  constructor
  · rw [hd.balanced_iff, hzero, Ne, Ne, Except.error.injEq]
  · intro h
    obtain rfl := Except.error.inj h
    exact hlost.1

theorem LinkNets.ends {r : Except Failure UInt64} {before after : Heap (OpenGroup P)}
    (h : LinkNets e before after r) : Ends e before after r := by
  cases r with
  | ok oid => exact .of_ok h oid
  | error why =>
    obtain ⟨d, hlost, hd⟩ := h
    exact .of_lost hlost hd

/-- The group that is returned can be closed. -/
theorem exists_closeReturned {t : GroupHandles.Traversed} {before : Heap (OpenGroup P)}
    {s : Handles P} (h : TraverseNets e before s.heap t.result) :
    ∃ s', closeReturned e t s = .ok ((), s') ∧ Ends e before s'.heap t.result := by
  obtain ⟨result, path, out⟩ := t
  match result with
  | .error why =>
    obtain ⟨d, hlost, hd⟩ := h
    exact ⟨s, rfl, .of_lost hlost hd⟩
  | .ok (grp, name) =>
    -- the caller has a reference to the group that is returned
    obtain ⟨heap, hclose⟩ := exists_close e h
    have hreleased := Nets.trans h (groupClose_nets hclose).2
    have hzero : held (some grp) + Pi.single grp (-1) = 0 := by
      have hadd := held_add_release grp 0
      rwa [add_zero] at hadd
    rw [hzero] at hreleased
    exact ⟨_, bind_run_iff.mpr ⟨_, _, hclose, rfl⟩, .of_ok hreleased _⟩

/-- **Balance.**  For any item, path and variable for a list, whatever the calls of a traversal
find: when it returns, the buffer is as it was, and the caller can close the group that is
returned, if any; then all handles are as they were, and the ones that were opened have been freed
once, unless the close of a group reported an error.  So it is when a link has been followed. -/
theorem traversal_balanced (e : Environment σ P) (depth : Nat) :
    (∀ item path out s t s',
      GroupHandles.groupTraverse e (GroupHandles.linkFollow e depth) item path out s =
          .ok (t, s') →
        t.path = path ∧
          ∃ s'', closeReturned e t s' = .ok ((), s'') ∧ Ends e s.heap s''.heap t.result) ∧
    (∀ grp name s r s', GroupHandles.linkFollow e depth grp name s = .ok (r, s') →
      Ends e s.heap s'.heap r) := by
  constructor
  · intro item path out s t s' h
    obtain ⟨hpath, hnets⟩ := groupTraverse_nets (linkFollow_follows e depth) h
    exact ⟨hpath, exists_closeReturned hnets⟩
  · intro grp name s r s' h
    exact (linkFollow_follows e depth h).ends

/-! ## Handles that are not freed -/

section Safe

/-- Where closes succeed, nothing is missing after an error. -/
theorem lost_eq_zero (hclose : ∀ n, 0 ≤ e.closeValue n) {why : Failure} {d : Nat → Int}
    (hlost : Lost e why d) : d = 0 := by
  cases why with
  | groupClose =>
    obtain ⟨⟨n, hneg⟩, -⟩ := hlost
    exact absurd hneg (not_lt.mpr (hclose n))
  | item => exact hlost
  | linkRead => exact hlost
  | linkType => exact hlost
  | groupOpen => exact hlost

/-- A function that follows the links of groups that are open, beside the root group. -/
def Safe (e : Environment σ P) (follow : GroupHandles.Follow P) : Prop :=
  ∀ {grp name s}, 0 < s.heap.count e.rootGrp → 0 < s.heap.count grp →
    follow grp name s ≠ .error .handle

variable {before : Heap (OpenGroup P)} {s : Handles P}

/-- What is open stays open while a group more is held. -/
theorem count_pos_of_held {grp h : Nat} (hd : Nets before s.heap (held (some grp)))
    (hpos : 0 < before.count h) : 0 < s.heap.count h := by
  have hcount := hd.counts h
  rw [held, Pi.single_apply] at hcount
  split at hcount
  · omega
  · omega

/-- The group that is held is open. -/
theorem count_held {grp : Nat} (hd : Nets before s.heap (held (some grp))) :
    0 < s.heap.count grp := by
  have hcount := hd.counts grp
  rw [held, Pi.single_eq_same] at hcount
  omega

theorem pure_ne_crash {α : Type} {a : α} {why : Crash} :
    (pure a : HandleCalls P α) s ≠ .error why := nofun

theorem ofOption_ne_handle {α : Type} (o : Option α) :
    (ofOption o : HandleCalls P α) s ≠ .error .handle := by
  cases o with
  | none => exact nofun
  | some a => exact nofun

theorem ofStop_ne_handle {α : Type} (o : Except Stop α) :
    (ofStop o : HandleCalls P α) s ≠ .error .handle := by
  cases o with
  | error why => exact nofun
  | ok a => exact nofun

theorem openHelper_ne_handle (oid : UInt64) (out : GcplOut) :
    GroupHandles.openHelper e oid out s ≠ .error .handle := by
  unfold GroupHandles.openHelper
  split
  · exact nofun
  · split
    · exact nofun
    · exact nofun

theorem readLink_ne_handle (grp : OpenGroup P) (name : CString) :
    readLink e grp name s ≠ .error .handle := by
  simp only [readLink]
  split
  · exact nofun
  · exact nofun
  · exact nofun

theorem read_ne_handle {h : Nat} (hpos : 0 < s.heap.count h) :
    HandleCalls.read h s ≠ .error .handle := by
  obtain ⟨cell, hlive⟩ := Heap.live_isSome hpos
  unfold HandleCalls.read
  rw [Heap.read, hlive]
  intro h
  cases h

theorem retain_ne_handle {h : Nat} (hpos : 0 < s.heap.count h) :
    HandleCalls.retain h s ≠ .error .handle := by
  unfold HandleCalls.retain
  split
  · exact nofun
  · rw [if_pos hpos]
    exact nofun

theorem groupClose_ne_handle {grp : Nat} (hd : Nets before s.heap (held (some grp))) :
    groupClose e grp s ≠ .error .handle := by
  obtain ⟨heap', hclosed⟩ := exists_close e hd
  rw [hclosed]
  exact nofun

variable (hclose : ∀ n, 0 ≤ e.closeValue n) (hfollow : Follows e follow) (hsafe : Safe e follow)
include hclose hfollow hsafe

omit hclose hfollow in
theorem linkFollowComp_safe {grp : Nat} {path : List Byte} {name nameLen : Nat}
    (hroot : 0 < s.heap.count e.rootGrp) (hgrp : 0 < s.heap.count grp) :
    linkFollowComp follow grp path name nameLen s ≠ .error .handle := by
  intro h
  rcases bind_crash_iff.mp h with h | ⟨savedEnd, s₁, hsaved, h⟩
  · exact ofOption_ne_handle _ h
  · obtain ⟨-, rfl⟩ := ofOption_run_iff.mp hsaved
    rcases bind_crash_iff.mp h with h | ⟨r, s₂, -, h⟩
    · exact hsafe hroot hgrp h
    · exact pure_ne_crash h

omit hclose in
/-- **A step** uses the group that is held, and after it the next one. -/
theorem traverseStep_safe (hroot : 0 < before.count e.rootGrp) {v : Vars Nat} {nextObj : Nat}
    (hbefore : Nets before s.heap (held (some v.grp))) :
    traverseStep e follow v nextObj s ≠ .error .handle := by
  intro h
  -- the buffer of an earlier round is freed, which is no use of a handle
  rcases bind_crash_iff.mp h with h | ⟨out, s₁, hfree, h⟩
  · exact ofStop_ne_handle _ h
  · obtain ⟨-, rfl⟩ := ofStop_run_iff.mp hfree
    split at h
    · cases h
    · rcases bind_crash_iff.mp h with h | ⟨⟨followed, path⟩, s₂, hcomp, h⟩
      -- the component is followed in `v.grp`, which is still held
      · exact linkFollowComp_safe hsafe (count_pos_of_held hbefore hroot) (count_held hbefore) h
      · obtain ⟨rfl, name, hcalled⟩ := linkFollowComp_spec hcomp
        have hnets := hfollow hcalled
        cases followed with
        | error why => exact pure_ne_crash h
        | ok oid =>
          have hheld : Nets before s₂.heap (held (some v.grp) + 0) := hbefore.trans hnets
          rw [add_zero] at hheld
          -- `v.grp` is closed only after that, and the call kept it held
          rcases bind_crash_iff.mp h with h | ⟨closed, s₃, hclosed, h⟩
          · exact groupClose_ne_handle hheld h
          · split at h
            · exact pure_ne_crash h
            -- the group opened next has a fresh handle
            · rcases bind_crash_iff.mp h with h | ⟨opened, s₄, -, h⟩
              · exact openHelper_ne_handle _ _ h
              · cases opened with
                | none => exact pure_ne_crash h
                | some opened => exact pure_ne_crash h

omit hclose in
/-- **The loop**, by induction on its steps. -/
theorem traverseLoop_safe (hroot : 0 < before.count e.rootGrp) (steps : Nat) {v : Vars Nat}
    (hbefore : Nets before s.heap (held (some v.grp))) :
    traverseLoop e follow steps v s ≠ .error .handle := by
  induction steps generalizing v s with
  | zero => exact nofun
  | succ steps ih =>
    intro h
    rcases bind_crash_iff.mp h with h | ⟨next, s₁, hnext, h⟩
    · exact ofOption_ne_handle _ h
    · obtain ⟨-, rfl⟩ := ofOption_run_iff.mp hnext
      cases next with
      | none => exact pure_ne_crash h
      | some nextObj =>
        rcases bind_crash_iff.mp h with h | ⟨stepped, s₂, hstep, h⟩
        · exact traverseStep_safe hfollow hsafe hroot hbefore h
        · have hnets := traverseStep_nets hfollow hbefore hstep
          cases stepped with
          | error ex => exact pure_ne_crash h
          | ok v' => exact ih hnets.2 h

omit hfollow hsafe in
/-- After an error, the group that is still in the variable is open. -/
theorem traverseDone_safe {path : List Byte} {r : Except Exit (Vars Nat)}
    (hloop : LoopNets e before path s.heap r) : traverseDone e r s ≠ .error .handle := by
  cases r with
  | ok v => exact pure_ne_crash
  | error ex =>
    obtain ⟨why, ⟨grp, path', objName, out⟩⟩ := ex
    obtain ⟨-, d, hlost, hd⟩ := hloop
    rw [lost_eq_zero hclose hlost, add_zero] at hd
    cases grp with
    | none => exact pure_ne_crash
    | some grp =>
      intro h
      rcases bind_crash_iff.mp h with h | ⟨closed, s₁, -, h⟩
      · exact groupClose_ne_handle hd h
      · exact pure_ne_crash h

/-- **Traversals** begin at a group that is open. -/
theorem groupTraverse_safe (hroot : 0 < s.heap.count e.rootGrp) {item : GroupHandles.Item}
    (hitem : ∀ h, item = .group h → 0 < s.heap.count h) (path : List Byte) (out : GcplOut) :
    GroupHandles.groupTraverse e follow item path out s ≠ .error .handle := by
  intro h
  -- splitting the path uses no handle
  rcases bind_crash_iff.mp h with h | ⟨first, s₁, hfirst, h⟩
  · exact ofOption_ne_handle _ h
  · obtain ⟨-, rfl⟩ := ofOption_run_iff.mp hfirst
    cases hstart : GroupHandles.startGroup e item first with
    | error why =>
      rw [hstart] at h
      exact pure_ne_crash h
    | ok start =>
      obtain ⟨grp, objName⟩ := start
      -- the start is the file's root group or the item's own, both open
      have hgrp : 0 < s.heap.count grp := by
        unfold GroupHandles.startGroup at hstart
        split at hstart
        · cases hstart
          exact hroot
        · split at hstart
          · cases hstart
            exact hroot
          · cases hstart
            exact hitem _ rfl
          · cases hstart
      rw [hstart] at h
      -- it is retained before the loop, so it is held in every round
      rcases bind_crash_iff.mp h with h | ⟨_, s₂, hretain, h⟩
      · exact retain_ne_handle hgrp h
      · have hheld := retain_nets hretain
        rcases bind_crash_iff.mp h with h | ⟨r, s₃, hlooped, h⟩
        · exact traverseLoop_safe hfollow hsafe hroot _ hheld h
        · exact traverseDone_safe hclose (traverseLoop_nets hfollow _ hheld hlooped) h

omit hclose hfollow in
theorem followLast_safe {grp : Nat} (name : CString) (hroot : 0 < s.heap.count e.rootGrp)
    (hgrp : 0 < s.heap.count grp) :
    GroupHandles.followLast follow grp name s ≠ .error .handle := by
  intro h
  rcases bind_crash_iff.mp h with h | ⟨target, s₁, hread, h⟩
  · exact read_ne_handle hgrp h
  · obtain rfl := read_spec hread
    split at h
    · exact pure_ne_crash h
    · exact hsafe hroot hgrp h

theorem followSoft_safe {grp : Nat} (target : CString) (hroot : 0 < s.heap.count e.rootGrp)
    (hgrp : 0 < s.heap.count grp) : followSoft e follow grp target s ≠ .error .handle := by
  intro h
  rcases bind_crash_iff.mp h with h | ⟨⟨result, path, out⟩, s₁, htraverse, h⟩
  · refine groupTraverse_safe hclose hfollow hsafe hroot (fun h' hitem => ?_) _ _ h
    cases hitem
    exact hgrp
  · have hnets := (groupTraverse_nets hfollow htraverse).2
    cases result with
    | error why => exact pure_ne_crash h
    | ok found =>
      obtain ⟨targetGrp, targetName⟩ := found
      have hheld : Nets s.heap s₁.heap (held (some targetGrp)) := hnets
      rcases bind_crash_iff.mp h with h | ⟨r, s₂, hlast, h⟩
      · exact followLast_safe hsafe _ (count_pos_of_held hheld hroot) (count_held hheld) h
      · -- the group of the target is still held, whatever its link leads to
        have hheld' : Nets s.heap s₂.heap (held (some targetGrp)) := by
          have hlastNets := followLast_nets hfollow hlast
          cases r with
          | ok oid => exact add_zero (held (some targetGrp)) ▸ hheld.trans hlastNets
          | error why =>
            obtain ⟨d, hlost, hd⟩ := hlastNets
            rw [lost_eq_zero hclose hlost] at hd
            exact add_zero (held (some targetGrp)) ▸ hheld.trans hd
        rcases bind_crash_iff.mp h with h | ⟨closed, s₃, -, h⟩
        · exact groupClose_ne_handle hheld' h
        · split at h
          · cases h
          · exact pure_ne_crash h

omit hfollow hsafe in
/-- **Links**, by induction on the room on the stack. -/
theorem linkFollow_safe (depth : Nat) : Safe e (GroupHandles.linkFollow e depth) := by
  induction depth with
  | zero =>
    intro grp name s _ _
    exact nofun
  | succ depth ih =>
    intro grp name s hroot hgrp h
    -- the group whose link is read is open
    rcases bind_crash_iff.mp h with h | ⟨g, s₁, hg, h⟩
    · exact read_ne_handle hgrp h
    · obtain rfl := read_spec hg
      rcases bind_crash_iff.mp h with h | ⟨val, s₂, hread, h⟩
      · exact readLink_ne_handle _ _ h
      · obtain ⟨hheap, -⟩ := readLink_spec hread
        -- only a soft link is followed on, from the same group
        cases val with
        | error why => exact pure_ne_crash h
        | ok val =>
          cases val with
          | hard oid => exact pure_ne_crash h
          | soft target =>
            rw [← hheap] at hroot hgrp
            exact followSoft_safe hclose (linkFollow_follows e depth) ih target hroot hgrp h
          | unsupported type target => exact pure_ne_crash h

end Safe

/-- **No handle is used after it was freed**, whatever the calls of a traversal find, if it begins
at a group that is open and no close reports an error: neither where the functions return nor
where the process crashes for another reason. -/
theorem traversal_safe (e : Environment σ P) (hclose : ∀ n, 0 ≤ e.closeValue n) (depth : Nat)
    {s : Handles P} (hroot : 0 < s.heap.count e.rootGrp) :
    (∀ item path out, (∀ h, item = .group h → 0 < s.heap.count h) →
      GroupHandles.groupTraverse e (GroupHandles.linkFollow e depth) item path out s ≠
        .error .handle) ∧
    ∀ grp name, 0 < s.heap.count grp → GroupHandles.linkFollow e depth grp name s ≠
      .error .handle := by
  constructor
  · intro item path out hitem
    exact groupTraverse_safe hclose (linkFollow_follows e depth) (linkFollow_safe hclose depth)
      hroot hitem path out
  · intro grp name hgrp
    exact linkFollow_safe hclose depth hroot hgrp

/-! ## A soft link to its own group -/

theorem zero_notMem_dot : (0 : Byte) ∉ [46] := by decide

/-- The soft link `a` of the root group leads to the root group. -/
def dotLink : List (LinkGraph.Link × LinkVal) :=
  [((1, ⟨[97], zero_notMem_a⟩), .soft ⟨[46], zero_notMem_dot⟩)]

def dotFile : Environment (List ((Key × CString) × List Byte)) Byte :=
  .ofContext (PathResolution.linkFile dotLink [46]) 0 fun _ => 0

/-- The root group is open. -/
def rootHandle : Handles Byte where
  heap :=
    { cells := [⟨(PathResolution.linkFile dotLink [46]).file.rootGrp, 1⟩]
      frees := []
      count_frees := fun h => by cases h <;> rfl }
  reads := 0
  closes := 0

theorem exists_of_toOption {ε α : Type} {x : Except ε α} (h : x.toOption.isSome = true) :
    ∃ a, x = .ok a := by
  cases x with
  | error why => cases h
  | ok a => exact ⟨a, rfl⟩

/-- The path `a/b`. -/
theorem traversal_balanced_dot :
    (∃ t s', GroupHandles.groupTraverse dotFile (GroupHandles.linkFollow dotFile 1) .file
        [97, 47, 98, 0] none rootHandle = .ok (t, s') ∧ t.path = [97, 47, 98, 0] ∧
      ∃ s'', closeReturned dotFile t s' = .ok ((), s'') ∧
        Ends dotFile rootHandle.heap s''.heap t.result) ∧
    ∃ r s', GroupHandles.linkFollow dotFile 1 0 ⟨[97], zero_notMem_a⟩ rootHandle =
      .ok (r, s') ∧ Ends dotFile rootHandle.heap s'.heap r := by
  have htraverse : (GroupHandles.groupTraverse dotFile (GroupHandles.linkFollow dotFile 1) .file
      [97, 47, 98, 0] none rootHandle).toOption.isSome = true := by decide +kernel
  have hfollow : (GroupHandles.linkFollow dotFile 1 0 ⟨[97], zero_notMem_a⟩
      rootHandle).toOption.isSome = true := by decide +kernel
  obtain ⟨⟨t, s'⟩, ht⟩ := exists_of_toOption htraverse
  obtain ⟨⟨r, s''⟩, hr⟩ := exists_of_toOption hfollow
  exact ⟨⟨t, s', ht, (traversal_balanced dotFile 1).1 _ _ _ _ t s' ht⟩,
    r, s'', hr, (traversal_balanced dotFile 1).2 _ _ _ r s'' hr⟩

end DTIO.Properties.BalancedTraversal
