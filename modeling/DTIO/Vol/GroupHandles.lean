import DTIO.Foundation.RefCount
import DTIO.Vol.Groups

/-!
# Handles of Groups

`H5VL_dtio_group_traverse`, `H5VL_dtio_link_follow`, `H5VL_dtio_link_follow_comp` and
`H5VL_dtio_group_close` (`adapter/vol/vol-old/H5VLDTIO.cc`) with what they do to the handles of
groups and to the buffer of the path.  `Vol/Groups` has what they return.

An error comes with the call that it is from, and the sections behind `done:` run with the
variables as they are.  Where the process crashes there is no result but the reason.

## Main definitions

- `Crash`: why the process crashes
- `HandleCalls`: a function that opens and closes groups
- `groupTraverse`, `linkFollow`: the two functions
- `closeReturned`: what the caller does with the result

## Main results

- `bind_run_iff`, `bind_crash_iff`: a function that goes on after another one
-/

namespace DTIO.Vol.GroupHandles

open DTIO.Posix

/-! ## What the functions call -/

/-- Where an error comes from. -/
inductive Failure where
  /-- "item not a file or group" -/
  | item
  /-- "can't read link": the link is not read, or its value not decoded -/
  | linkRead
  /-- "invalid or unsupported link type" -/
  | linkType
  /-- "can't open group" -/
  | groupOpen
  /-- "can't close group" -/
  | groupClose
  deriving DecidableEq, Repr

/-- The file, and what the calls find.  The calls of each function are numbered. -/
structure Environment (σ P : Type) where
  name : FileName
  flags : Nat
  /-- the handle `root_grp` -/
  rootGrp : Nat
  omap : Nat → Omap σ
  state : Nat → σ
  memory : Nat → Key → List Byte → LinkMemory
  /-- `gcpl_buf` and the list that `H5Pdecode` returns, if any, for the handle and the oid that
  `H5VL_dtio_group_open_helper` opens; it reports errors and goes on.  There is nothing if it
  returns `NULL`, for which its caller looks. -/
  opening : Nat → UInt64 → Option (List Byte × Option P)
  /-- `H5VL_dtio_group_close` has no `return` -/
  closeValue : Nat → Int

/-- The handles of groups, and how many links have been read and handles closed. -/
structure Handles (P : Type) where
  heap : RefCount.Heap (OpenGroup P)
  reads : Nat
  closes : Nat

/-- Why the process crashes. -/
inductive Crash where
  /-- a handle is used that is freed -/
  | handle
  /-- a count of references is too large for an `int` -/
  | count
  /-- an assertion fails -/
  | assertion
  /-- memory of a buffer is used that is freed or not part of it -/
  | memory
  /-- the stack is full -/
  | stack
  deriving DecidableEq, Repr

/-- A function that opens and closes groups. -/
abbrev HandleCalls (P : Type) := StateT (Handles P) (Except Crash)

variable {σ P : Type}

namespace HandleCalls

/-- The process crashes. -/
def crash {α : Type} (why : Crash) : HandleCalls P α := fun _ => .error why

/-- A byte of a buffer. -/
def ofOption {α : Type} : Option α → HandleCalls P α
  | none => crash .memory
  | some a => pure a

/-- Where `Vol/Groups` has a fault, a buffer is freed twice; other errors do not occur. -/
def ofStop {α : Type} : Except Stop α → HandleCalls P α
  | .ok a => pure a
  | .error _ => crash .memory

variable {α β : Type} {x : HandleCalls P α} {f : α → HandleCalls P β} {s s' : Handles P}

theorem bind_run {a : α} (hx : x s = .ok (a, s')) (f : α → HandleCalls P β) :
    (x >>= f) s = f a s' := by
  have hbind : (x >>= f) s = (x s >>= fun p => f p.1 p.2) := rfl
  rw [hbind, hx, ok_bind]

theorem bind_run_iff {r : β × Handles P} :
    (x >>= f) s = .ok r ↔ ∃ a s', x s = .ok (a, s') ∧ f a s' = .ok r := by
  have hbind : (x >>= f) s = (x s >>= fun p => f p.1 p.2) := rfl
  rw [hbind, bind_eq_ok]
  constructor
  · rintro ⟨⟨a, s'⟩, hx, hf⟩
    exact ⟨a, s', hx, hf⟩
  · rintro ⟨a, s', hx, hf⟩
    exact ⟨(a, s'), hx, hf⟩

theorem bind_crash_iff {why : Crash} :
    (x >>= f) s = .error why ↔
      x s = .error why ∨ ∃ a s', x s = .ok (a, s') ∧ f a s' = .error why := by
  cases hx : x s with
  | error why' =>
    have hbind : (x >>= f) s = (x s >>= fun p => f p.1 p.2) := rfl
    rw [hbind, hx, error_bind]
    constructor
    · intro h
      exact .inl (congrArg Except.error (Except.error.inj h))
    · rintro (h | ⟨a, s', h, -⟩)
      · exact congrArg Except.error (Except.error.inj h)
      · cases h
  | ok p =>
    rw [bind_run hx]
    constructor
    · exact fun hf => .inr ⟨p.1, p.2, rfl, hf⟩
    · rintro (h | ⟨a, s', h, hf⟩)
      · cases h
      · cases h
        exact hf

theorem pure_run_iff {a b : α} :
    (pure a : HandleCalls P α) s = .ok (b, s') ↔ a = b ∧ s = s' := by
  have hpure : (pure a : HandleCalls P α) s = .ok (a, s) := rfl
  rw [hpure, Except.ok.injEq, Prod.mk.injEq]

theorem ofOption_run_iff {o : Option α} {a : α} :
    (ofOption o : HandleCalls P α) s = .ok (a, s') ↔ o = some a ∧ s = s' := by
  cases o with
  | none => exact iff_of_false nofun nofun
  | some b => rw [Option.some.injEq]; exact pure_run_iff

theorem ofStop_run_iff {o : Except Stop α} {a : α} :
    (ofStop o : HandleCalls P α) s = .ok (a, s') ↔ o = .ok a ∧ s = s' := by
  cases o with
  | error why => exact iff_of_false nofun nofun
  | ok b => rw [Except.ok.injEq]; exact pure_run_iff

/-- What is behind a handle. -/
def read (h : Nat) : HandleCalls P (OpenGroup P) := fun s =>
  match s.heap.read h with
  | some grp => .ok (grp, s)
  | none => .error .handle

/-- `INT_MAX`, for `int rc`. -/
def rcMax : Nat := 2147483647

/-- `grp->obj.item.rc++`. -/
def retain (h : Nat) : HandleCalls P Unit := fun s =>
  match s.heap.retain rcMax h with
  | some heap => .ok ((), { s with heap })
  | none => .error (if 0 < s.heap.count h then .count else .handle)

end HandleCalls

open HandleCalls

variable (e : Environment σ P)

/-- `H5VL_dtio_group_close`, and whatever it returns. -/
def groupClose (h : Nat) : HandleCalls P Int := fun s =>
  match s.heap.release h with
  | some heap => .ok (e.closeValue s.closes, { s with heap, closes := s.closes + 1 })
  | none => .error .handle

/-- `H5VL_dtio_group_open_helper`. -/
def openHelper (oid : UInt64) (out : GcplOut) : HandleCalls P (Option (Nat × GcplOut)) := fun s =>
  match e.opening s.heap.cells.length oid with
  | none => .ok (none, s)
  | some (gcplBuf, gcpl) =>
    match handOver gcplBuf out with
    | .error _ => .error .memory
    | .ok out =>
      let grp : OpenGroup P := ⟨oid, stringName e.name.name oid.toNat, gcpl⟩
      .ok (some (s.heap.cells.length, out), { s with heap := s.heap.alloc grp })

/-- `H5VL_dtio_link_read`. -/
def readLink (grp : OpenGroup P) (name : CString) :
    HandleCalls P (Except Failure LinkVal) := fun s =>
  let memory := e.memory s.reads grp.oid name.bytes
  let s' := { s with reads := s.reads + 1 }
  match linkRead (e.omap s.reads) (e.state s.reads) ⟨grp.oid, e.flags⟩ name memory.heap
    memory.behind with
  | .ok val => .ok (.ok val, s')
  | .error .fail => .ok (.error .linkRead, s')
  | .error .fault => .error .memory

/-! ## The traversal -/

/-- `strchr` from a position on, up to the terminator. -/
def strchr (b : Byte) : List Byte → Nat → Option (Option Nat)
  | [], _ => none
  | x :: rest, pos =>
    if x = b then some (some pos) else if x = 0 then some none else strchr b rest (pos + 1)

/-- How a link of a group is followed. -/
abbrev Follow (P : Type) := Nat → CString → HandleCalls P (Except Failure UInt64)

/-- The variables `grp`, `path`, `*obj_name` and `*gcpl_buf_out`. -/
structure Vars (H : Type) where
  grp : H
  path : List Byte
  objName : Nat
  out : GcplOut

/-- How the loop is left early; `grp` may be `NULL` then. -/
structure Exit where
  why : Failure
  vars : Vars (Option Nat)

variable (follow : Follow P)

/-- `H5VL_dtio_link_follow_comp`, for the `nameLen` bytes from `name` on, and the buffer behind
`done:`. -/
def linkFollowComp (grp : Nat) (path : List Byte) (name nameLen : Nat) :
    HandleCalls P (Except Failure UInt64 × List Byte) := do
  let savedEnd ← ofOption path[name + nameLen]?
  let cut := path.set (name + nameLen) 0
  let r ← follow grp (CString.ofBuffer (cut.drop name))
  return (r, cut.set (name + nameLen) savedEnd)

/-- The body of the loop, for the slash at `nextObj`. -/
def traverseStep (v : Vars Nat) (nextObj : Nat) : HandleCalls P (Except Exit (Vars Nat)) := do
  let out ← ofStop (freeOut v.out)
  -- `assert(next_obj > *obj_name)`
  if nextObj ≤ v.objName then crash .assertion
  else
    let (followed, path) ← linkFollowComp follow v.grp v.path v.objName (nextObj - v.objName)
    match followed with
    | .error why => return .error ⟨why, some v.grp, path, v.objName, out⟩
    | .ok oid =>
      let closed ← groupClose e v.grp
      -- `grp` still points to the group
      if closed < 0 then return .error ⟨.groupClose, some v.grp, path, v.objName, out⟩
      else
        match ← openHelper e oid out with
        | none => return .error ⟨.groupOpen, none, path, v.objName, out⟩
        | some (grp, out) => return .ok ⟨grp, path, nextObj + 1, out⟩

/-- The loop; it ends after at most as many steps as the path has bytes. -/
def traverseLoop : Nat → Vars Nat → HandleCalls P (Except Exit (Vars Nat))
  | 0, _ => crash .memory
  | steps + 1, v => do
    match ← ofOption (strchr slash (v.path.drop v.objName) v.objName) with
    | none => return .ok v
    | some nextObj =>
      match ← traverseStep e follow v nextObj with
      | .error ex => return .error ex
      | .ok v => traverseLoop steps v

/-- What the caller passes as the object the path begins at. -/
inductive Item where
  | file
  | group (h : Nat)
  | other
  deriving DecidableEq, Repr

/-- The group that the path begins at, and where its names begin. -/
def startGroup (item : Item) (first : Byte) : Except Failure (Nat × Nat) :=
  if first = slash then .ok (e.rootGrp, 1)
  else
    match item with
    | .file => .ok (e.rootGrp, 0)
    | .group h => .ok (h, 0)
    | .other => .error .item

/-- What `H5VL_dtio_group_traverse` leaves: the handle and the position of the last name, or an
error, the buffer of the path and the variable for the list. -/
structure Traversed where
  result : Except Failure (Nat × Nat)
  path : List Byte
  out : GcplOut

/-- Behind `done:`. -/
def traverseDone : Except Exit (Vars Nat) → HandleCalls P Traversed
  | .ok v => return ⟨.ok (v.grp, v.objName), v.path, v.out⟩
  | .error ⟨why, some grp, path, _, out⟩ => do
    -- another error does not change the result
    let _ ← groupClose e grp
    return ⟨.error why, path, out⟩
  | .error ⟨why, none, path, _, out⟩ => return ⟨.error why, path, out⟩

/-- `H5VL_dtio_group_traverse`. -/
def groupTraverse (item : Item) (path : List Byte) (out : GcplOut) : HandleCalls P Traversed := do
  let first ← ofOption path[0]?
  match startGroup e item first with
  | .error why => return ⟨.error why, path, out⟩
  | .ok (grp, objName) =>
    retain grp
    let r ← traverseLoop e follow (path.length + 1) ⟨grp, path, objName, out⟩
    traverseDone e r

/-! ## Links -/

/-- `H5VL_dtio_link_follow` behind the traversal of a soft link. -/
def followLast (grp : Nat) (name : CString) : HandleCalls P (Except Failure UInt64) := do
  let target ← read grp
  if standsForGroup name.bytes then return .ok target.binOid else follow grp name

/-- The case of a soft link. -/
def followSoft (grp : Nat) (target : CString) : HandleCalls P (Except Failure UInt64) := do
  let t ← groupTraverse e follow (.group grp) (target.bytes ++ [0]) none
  match t.result with
  | .error why => return .error why
  | .ok (targetGrp, targetName) =>
    let r ← followLast follow targetGrp (CString.ofBuffer (t.path.drop targetName))
    let closed ← groupClose e targetGrp
    -- an error would lead back to `done:`, where the target is freed again
    if closed < 0 then crash .memory else return r

/-- `H5VL_dtio_link_follow`.  `depth` is how many of its calls fit on the stack at once. -/
def linkFollow : Nat → Follow P
  | 0, _, _ => crash .stack
  | depth + 1, grp, name => do
    let g ← read grp
    match ← readLink e g name with
    | .error why => return .error why
    | .ok (.hard oid) => return .ok oid
    | .ok (.soft target) => followSoft e (linkFollow depth) grp target
    | .ok (.unsupported ..) => return .error .linkType

/-! ## The caller -/

/-- The caller closes the group that was returned, if any. -/
def closeReturned (t : Traversed) : HandleCalls P Unit :=
  match t.result with
  | .error _ => pure ()
  | .ok (grp, _) => do
    let _ ← groupClose e grp
    return ()

/-! ## The calls of one context -/

/-- Every call finds what `Vol/Groups` assumes, and closes return `closeValue`. -/
def Environment.ofContext (c : Context σ P) (rootGrp : Nat) (closeValue : Nat → Int) :
    Environment σ P where
  name := c.file.name
  flags := c.file.flags
  rootGrp := rootGrp
  omap _ := c.omap
  state _ := c.state
  memory := c.memory
  opening _ oid :=
    let gcplBuf := c.objects.object (stringName c.file.name.name oid.toNat)
    some (gcplBuf, c.plist.decode gcplBuf)
  closeValue := closeValue

end DTIO.Vol.GroupHandles
