import DTIO.Properties.LinkValues
import DTIO.Vol.Groups

/-!
# Opening a Group on All Ranks

Rank 0 decides by the length of the creation list whether it broadcasts twice, and the other ranks
decide by the length they receive, with the same threshold.  Which list it is, and whether rank 0
gets that far, depends on the path: a traversal leaves the list of its last group in the variable
of `H5VL_dtio_group_open`, which frees it without setting the variable to null before it opens
the group of the last name.

## Main results

- `openLocal_ok`, `openLocal_fault`: what rank 0 has before the broadcasts
- `group_open_iff`: the ranks agree if there is one rank, or if the path does not go through a
  group to a last name
-/

namespace DTIO.Properties.GroupOpen

open DTIO.Posix DTIO.Memory DTIO.Broadcast DTIO.Vol
open DTIO.Properties.LinkValues (listOmap)

variable {σ P : Type} {c : Context σ P} {oid : UInt64} {p : P}

/-! ## Groups that are there -/

/-- The handle of an open group. -/
def handle (c : Context σ P) (oid : UInt64) (p : P) : OpenGroup P :=
  ⟨oid, stringName c.file.name.name oid.toNat, some p⟩

/-- The object of the group holds a creation list. -/
def Existing (c : Context σ P) (oid : UInt64) (p : P) : Prop :=
  c.objects.object (stringName c.file.name.name oid.toNat) = c.plist.encode p ∧
    c.plist.encode p ≠ []

/-- From group to group along the names of a path. -/
inductive Walk (c : Context σ P) (follow : Follow P) :
    OpenGroup P → Nat → List (List Byte) → OpenGroup P → Nat → Prop
  | nil (grp : OpenGroup P) (calls : Nat) : Walk c follow grp calls [] grp calls
  | cons {grp : OpenGroup P} {calls : Nat} {name : List Byte} {names : List (List Byte)}
      {oid : UInt64} {p : P} {calls' : Nat} {last : OpenGroup P} {calls'' : Nat}
      (hname : name ≠ []) (hfollow : follow grp name calls = .ok (oid, calls'))
      (hthere : Existing c oid p)
      (hrest : Walk c follow (handle c oid p) calls' names last calls'') :
      Walk c follow grp calls (name :: names) last calls''

/-- The last name of a path. -/
def lastName (path : CString) : List Byte := (splitPath (afterRoot path.bytes)).2

/-- The names before it. -/
def groupNames (path : CString) : List (List Byte) := (splitPath (afterRoot path.bytes)).1

/-- An existing group, and its creation list, that an address or a path leads to.  A path without
a last name leads to the last group of the traversal. -/
inductive Reached (c : Context σ P) (follow : Follow P) (item : Item P) :
    GroupLoc → UInt64 → P → Prop
  | byAddr {oid : UInt64} {p : P} (hthere : Existing c oid p) :
      Reached c follow item (.byAddr oid) oid p
  | target {path : CString} {start : OpenGroup P} {calls : Nat} {oid : UInt64} {p : P}
      (hstart : startGroup c item path.bytes = .ok start)
      (hwalk : Walk c follow start 0 (groupNames path) (handle c oid p) calls)
      (hlast : standsForGroup (lastName path) = true) :
      Reached c follow item (.byName path) oid p
  | last {path : CString} {start grp : OpenGroup P} {calls calls' : Nat} {oid : UInt64} {p : P}
      (hstart : startGroup c item path.bytes = .ok start)
      (hwalk : Walk c follow start 0 (groupNames path) grp calls)
      (hlast : standsForGroup (lastName path) = false)
      (hfollow : follow grp (lastName path) calls = .ok (oid, calls'))
      (hthere : Existing c oid p) : Reached c follow item (.byName path) oid p

/-- A path that goes through a group to a last name. -/
def ThroughGroups : GroupLoc → Prop
  | .byAddr _ => False
  | .byName path => groupNames path ≠ [] ∧ standsForGroup (lastName path) = false

/-! ## Rank 0 before the broadcasts -/

theorem openHelper_ok (h : Existing c oid p) {out out' : GcplOut}
    (hout : handOver (c.plist.encode p) out = .ok out') :
    openHelper c oid out = .ok (handle c oid p, out') := by
  have hdecode : c.plist.decode (c.plist.encode p ++ []) = some p := c.plist.decode_encode p []
  rw [List.append_nil] at hdecode
  simp only [openHelper, h.1, if_neg h.2, hout, hdecode, handle]
  rfl

/-- What the traversal of some names does to the variable of the caller: the list of the last
group is there. -/
def After (names : List (List Byte)) (out out' : GcplOut) : Prop :=
  if names = [] then out' = out
  else if out = none then out' = none else ∃ gcpl, out' = some (.live gcpl)

theorem after_cons {name : List Byte} {names : List (List Byte)} {out out' : GcplOut}
    {gcpl : List Byte} (h : After names (out.map fun _ => .live gcpl) out') :
    After (name :: names) out out' := by
  unfold After at h ⊢
  rw [if_neg (List.cons_ne_nil _ _)]
  cases out with
  | none =>
    rw [if_pos rfl]
    split at h
    · exact h
    · simpa using h
  | some q =>
    rw [if_neg (by simp)]
    split at h
    · exact ⟨gcpl, h⟩
    · simpa using h

/-- A step frees the list of the group before, and leaves that of the next one. -/
theorem traverseStep_ok {follow : Follow P} {grp : OpenGroup P} {name : List Byte}
    {calls calls' : Nat} {out : GcplOut} (hname : name ≠ [])
    (hfollow : follow grp name calls = .ok (oid, calls')) (hthere : Existing c oid p)
    (hout : out ≠ some .freed) :
    traverseStep c follow ⟨grp, out, calls⟩ name =
      .ok ⟨handle c oid p, out.map fun _ => .live (c.plist.encode p), calls'⟩ := by
  have hfree : freeOut out = .ok (out.map fun _ => .null) := by
    cases out with
    | none => rfl
    | some q =>
      cases q with
      | null => rfl
      | live gcpl => rfl
      | freed => exact absurd rfl hout
  have hgive : handOver (c.plist.encode p) (out.map fun _ => .null) =
      .ok (out.map fun _ => .live (c.plist.encode p)) := by
    cases out with
    | none => rfl
    | some q => rfl
  simp only [traverseStep, hfree, ok_bind, assertName, if_neg hname, hfollow,
    openHelper_ok hthere hgive]

/-- The traversal, by induction on the walk. -/
theorem traverse_ok {follow : Follow P} {grp last : OpenGroup P} {calls calls' : Nat}
    {names : List (List Byte)} (hwalk : Walk c follow grp calls names last calls') :
    ∀ out : GcplOut, out ≠ some .freed → ∃ out',
      names.foldlM (traverseStep c follow) ⟨grp, out, calls⟩ = .ok ⟨last, out', calls'⟩ ∧
        After names out out' := by
  induction hwalk with
  | nil grp calls => exact fun out _ => ⟨out, rfl, rfl⟩
  | @cons grp calls name names oid p calls' last calls'' hname hfollow hthere _ ih =>
    intro out hout
    -- the next step has a list to free, or no variable at all
    have hlive : (out.map fun _ => Ptr.live (c.plist.encode p)) ≠ some .freed := by
      cases out with
      | none => simp
      | some q => simp
    obtain ⟨out', hrest, hafter⟩ := ih _ hlive
    refine ⟨out', ?_, after_cons hafter⟩
    rw [List.foldlM_cons, traverseStep_ok hname hfollow hthere hout, ok_bind, hrest]

theorem groupTraverse_ok {follow : Follow P} {item : Item P} {path : CString}
    {start last : OpenGroup P} {calls : Nat} (hstart : startGroup c item path.bytes = .ok start)
    (hwalk : Walk c follow start 0 (groupNames path) last calls) (bcast : Bool) :
    ∃ out, groupTraverse c follow item path.bytes (gcplOut bcast .null) 0 =
        .ok ⟨⟨last, out, calls⟩, lastName path⟩ ∧
      After (groupNames path) (gcplOut bcast .null) out := by
  have hnull : gcplOut bcast .null ≠ some .freed := by
    cases bcast with
    | false => simp [gcplOut]
    | true => simp [gcplOut]
  obtain ⟨out, hfold, hafter⟩ := traverse_ok hwalk _ hnull
  refine ⟨out, ?_, hafter⟩
  rw [groupNames] at hfold
  simp only [groupTraverse, hstart, ok_bind, hfold]
  rfl

/-- What the variable holds when rank 0 has the group: the list, if others wait for it. -/
def Ready (bcast : Bool) (gcpl : List Byte) (buf : Ptr (List Byte)) : Prop :=
  buf ≠ .freed ∧ (bcast = true → buf = .live gcpl)

/-- A group is opened with an empty variable. -/
theorem openHelper_ready (hthere : Existing c oid p) (bcast : Bool) :
    ∃ out, openHelper c oid (gcplOut bcast .null) = .ok (handle c oid p, out) ∧
      Ready bcast (c.plist.encode p) (out.getD .null) := by
  cases bcast with
  | false => exact ⟨none, openHelper_ok hthere rfl, by simp [Ready]⟩
  | true => exact ⟨some (.live (c.plist.encode p)), openHelper_ok hthere rfl, by simp [Ready]⟩

variable {follow : Follow P} {item : Item P} {loc : GroupLoc}

/-- Rank 0 has the group and its list, if it is alone or the path does not go on. -/
theorem openLocal_ok (hreached : Reached c follow item loc oid p) {bcast : Bool}
    (h : bcast = false ∨ ¬ ThroughGroups loc) :
    ∃ buf, openLocal c follow bcast item loc = .ok (handle c oid p, buf) ∧
      Ready bcast (c.plist.encode p) buf := by
  cases hreached with
  | byAddr hthere =>
    obtain ⟨out, hopen, hready⟩ := openHelper_ready hthere bcast
    refine ⟨_, ?_, hready⟩
    simp only [openLocal, hopen]
    rfl
  | target hstart hwalk hlast =>
    obtain ⟨out, htraverse, -⟩ := groupTraverse_ok hstart hwalk bcast
    -- the list is encoded again, and the variable overwritten
    refine ⟨.live (c.plist.encode p), ?_, by simp [Ready]⟩
    simp only [openLocal, htraverse, ok_bind, hlast, if_true]
    rfl
  | last hstart hwalk hlast hfollow hthere =>
    obtain ⟨out, htraverse, hafter⟩ := groupTraverse_ok hstart hwalk bcast
    -- no list was left in the variable
    have hnull : out.getD .null = .null := by
      unfold After at hafter
      split at hafter
      · cases bcast <;> simp [hafter, gcplOut]
      · next hnames =>
        have hbcast : bcast = false := by
          rcases h with hfalse | hnot
          · exact hfalse
          · exact absurd ⟨hnames, hlast⟩ hnot
        simp only [hbcast, gcplOut, Bool.false_eq_true, if_false, if_true] at hafter
        simp [hafter]
    obtain ⟨out', hopen, hready⟩ := openHelper_ready hthere bcast
    refine ⟨_, ?_, hready⟩
    simp only [openLocal, htraverse, ok_bind, hlast, Bool.false_eq_true, if_false, openLast, hnull,
      Ptr.free, hfollow, hopen]

/-- Otherwise the assertion of `H5VL_dtio_group_open_helper` fails. -/
theorem openLocal_fault (hreached : Reached c follow item loc oid p) (h : ThroughGroups loc) :
    openLocal c follow true item loc = .error .fault := by
  cases hreached with
  | byAddr hthere => exact h.elim
  | target hstart hwalk hlast => simp [h.2] at hlast
  | last hstart hwalk hlast hfollow hthere =>
    obtain ⟨out, htraverse, hafter⟩ := groupTraverse_ok hstart hwalk true
    obtain ⟨gcpl, rfl⟩ : ∃ gcpl, out = some (.live gcpl) := by
      unfold After at hafter
      simpa [h.1, gcplOut] using hafter
    -- it is freed but not null
    have hassert : openHelper c oid (gcplOut true .freed) = .error .fault := by
      simp only [openHelper, hthere.1, if_neg hthere.2, gcplOut, if_true, handOver]
      rfl
    simp only [openLocal, htraverse, ok_bind, hlast, Bool.false_eq_true, if_false, openLast,
      Option.getD_some, Ptr.free, hfollow, hassert, error_bind]

/-! ## Rank 0 -/

/-- The beginning of the first broadcast, for a list of `len` bytes. -/
def ginfo (oid : UInt64) (len : Nat) (rest : List Byte) : List Byte :=
  encode64 oid.toNat ++ (encode64 len ++ rest)

theorem length_ginfo (oid : UInt64) (len : Nat) (rest : List Byte) :
    (ginfo oid len rest).length = 16 + rest.length := by
  simp [ginfo]
  omega

/-- The list does not fit behind the two numbers. -/
def Twice (gcpl : List Byte) : Prop := gcpl.length + 16 > ginfoBufSize

instance instDecidableTwice (gcpl : List Byte) : Decidable (Twice gcpl) :=
  inferInstanceAs (Decidable (_ > _))

/-- The buffer that rank 0 fills. -/
theorem ginfoBuf_ok (m : RankMemory) (oid : UInt64) (gcpl : List Byte) :
    ∃ rest, rest.length = 240 ∧ ginfoBuf m oid gcpl = some (ginfo oid gcpl.length rest) ∧
      (¬ Twice gcpl → ∃ post, rest = gcpl ++ post) := by
  obtain ⟨a, b, old, hbuf, ha, hb, hold⟩ : ∃ a b old : List Byte,
      malloc m.stack ginfoBufSize = a ++ (b ++ old) ∧ a.length = 8 ∧ b.length = 8 ∧
        old.length = 240 := exists_parts (by simp [ginfoBufSize])
  have hoid : store (a ++ (b ++ old)) 0 (encode64 oid.toNat) =
      some (encode64 oid.toNat ++ (b ++ old)) := store_first _ (by rw [ha, length_encode64])
  have hlen : store (encode64 oid.toNat ++ (b ++ old)) 8 (encode64 gcpl.length) =
      some (ginfo oid gcpl.length old) :=
    store_append (length_encode64 _) (by rw [hb, length_encode64])
  unfold ginfoBuf
  simp only [hbuf, hoid, hlen, Option.bind_eq_bind, Option.bind_some]
  by_cases htwice : Twice gcpl
  · -- the rest of the buffer is sent as it was
    exact ⟨old, hold, if_neg (by unfold Twice at htwice; omega), fun h => absurd htwice h⟩
  · have hfits : gcpl.length + 16 ≤ ginfoBufSize := by
      unfold Twice at htwice
      omega
    obtain ⟨mid, post, last, rfl, hmid, hpost, -⟩ : ∃ mid post last : List Byte,
        old = mid ++ (post ++ last) ∧ mid.length = gcpl.length ∧
          post.length = 240 - gcpl.length ∧ last.length = 0 := by
      apply exists_parts
      unfold ginfoBufSize at hfits
      omega
    have hlist : store ((encode64 oid.toNat ++ encode64 gcpl.length) ++ (mid ++ (post ++ last)))
        16 gcpl = some ((encode64 oid.toNat ++ encode64 gcpl.length) ++ (gcpl ++ (post ++ last))) :=
      store_append (by simp) hmid
    refine ⟨gcpl ++ (post ++ last), ?_, ?_, fun _ => ⟨_, rfl⟩⟩
    · simpa [hmid] using hold
    · rw [if_pos hfits, ginfo, ← List.append_assoc, hlist, List.append_assoc]
      rfl

/-- One broadcast or two. -/
theorem sendGroup_eq (m : RankMemory) (grp : OpenGroup P) {gcpl : List Byte}
    (hlen : gcpl.length < 2147483648) :
    ∃ rest, rest.length = 240 ∧ (¬ Twice gcpl → ∃ post, rest = gcpl ++ post) ∧
      sendGroup m grp gcpl = .send .file (ginfo grp.binOid gcpl.length rest)
        (if Twice gcpl then .send .file gcpl (.done ⟨grp, some gcpl⟩)
          else .done ⟨grp, some gcpl⟩) := by
  obtain ⟨rest, hrest, hbuf, hfits⟩ := ginfoBuf_ok m grp.binOid gcpl
  refine ⟨rest, hrest, hfits, ?_⟩
  have hcount : mpiCount gcpl.length = some gcpl.length := mpiCount_of_lt hlen
  have hload : load gcpl 0 gcpl.length = some gcpl := load_all rfl
  simp only [sendGroup, hbuf, hcount, hload, Proc.ofOption_some, Proc.done_bind, Proc.bcastSend,
    Proc.send_bind, Proc.pure_eq]
  rfl

/-! ## The other ranks -/

/-- A list at an offset of a buffer. -/
theorem groupReconstitute_eq {pre post : List Byte} {off : Nat} (hoff : pre.length = off) :
    groupReconstitute c oid (pre ++ (c.plist.encode p ++ post)) off (c.plist.encode p).length =
      .done ⟨handle c oid p, some (c.plist.encode p)⟩ := by
  have hload : load (pre ++ (c.plist.encode p ++ post)) off (c.plist.encode p).length =
      some (c.plist.encode p) := load_append hoff rfl
  have hdrop : (pre ++ (c.plist.encode p ++ post)).drop off = c.plist.encode p ++ post := by
    rw [← hoff, List.drop_left]
  simp only [groupReconstitute, hload, hdrop, c.plist.decode_encode, Proc.ofOption_some,
    Proc.done_bind, Proc.pure_eq, handle]

/-- The second broadcast fits into the buffer that was chosen for it. -/
theorem received_second (m : RankMemory) {static : List Byte}
    (hstatic : static.length = ginfoBufSize) :
    (.ofOption (store (if (c.plist.encode p).length > ginfoBufSize
        then malloc m.heap (c.plist.encode p).length else static) 0 (c.plist.encode p)) >>=
      fun buf => groupReconstitute c oid buf 0 (c.plist.encode p).length :
      Proc Comm Byte (OpenedGroup P)) = .done ⟨handle c oid p, some (c.plist.encode p)⟩ := by
  obtain ⟨pre, old, post, hbuf, hpre, hold, -⟩ : ∃ pre old post : List Byte,
      (if (c.plist.encode p).length > ginfoBufSize then malloc m.heap (c.plist.encode p).length
        else static) = pre ++ (old ++ post) ∧ pre.length = 0 ∧
      old.length = (c.plist.encode p).length ∧
      post.length = if (c.plist.encode p).length > ginfoBufSize then 0
        else ginfoBufSize - (c.plist.encode p).length := by
    apply exists_parts
    split
    · simp
    · rw [hstatic]
      omega
  obtain rfl := List.length_eq_zero_iff.mp hpre
  rw [hbuf, store_append hpre hold, Proc.ofOption_some, Proc.done_bind]
  exact groupReconstitute_eq hpre

/-- What the other ranks do with the first broadcast. -/
theorem received (hlen : (c.plist.encode p).length < 2147483648) {rest : List Byte}
    (hrest : rest.length = 240)
    (hfits : ¬ Twice (c.plist.encode p) → ∃ post, rest = c.plist.encode p ++ post)
    (m : RankMemory) :
    groupReceived c m (ginfo oid (c.plist.encode p).length rest) =
      if Twice (c.plist.encode p) then
        .recv .file (c.plist.encode p).length fun second =>
          .ofOption (store (if (c.plist.encode p).length > ginfoBufSize
            then malloc m.heap (c.plist.encode p).length
            else ginfo oid (c.plist.encode p).length rest) 0 second) >>=
          fun buf => groupReconstitute c oid buf 0 (c.plist.encode p).length
      else .done ⟨handle c oid p, some (c.plist.encode p)⟩ := by
  -- the first message has the size of the buffer it is received into
  have hsize : (ginfo oid (c.plist.encode p).length rest).length = ginfoBufSize := by
    rw [length_ginfo, hrest]
    rfl
  have hstore : store (malloc m.stack ginfoBufSize) 0 (ginfo oid (c.plist.encode p).length rest) =
      some (ginfo oid (c.plist.encode p).length rest) := by
    simp [store, hsize]
  -- the id and the length of the list come first in it
  have hoid : uint64 (ginfo oid (c.plist.encode p).length rest) 0 = some oid.toNat :=
    uint64_first _ oid.toNat_lt
  have hgcplLen : uint64 (ginfo oid (c.plist.encode p).length rest) 8 =
      some (c.plist.encode p).length := uint64_append (length_encode64 _) (by omega)
  have hcount : mpiCount (c.plist.encode p).length = some (c.plist.encode p).length :=
    mpiCount_of_lt hlen
  unfold groupReceived
  simp only [hstore, hoid, hgcplLen, hcount, Proc.ofOption_some, Proc.done_bind,
    Proc.bcastRecv, Proc.recv_bind, UInt64.ofNat_toNat]
  -- a list that did not fit is broadcast again, else it stands behind the length
  by_cases htwice : Twice (c.plist.encode p)
  · rw [if_pos htwice]
    exact if_pos htwice
  · rw [if_neg htwice]
    refine (if_neg htwice).trans ?_
    obtain ⟨post, rfl⟩ := hfits htwice
    rw [ginfo, ← List.append_assoc]
    exact groupReconstitute_eq (by simp)

/-! ## All ranks -/

/-- All ranks open the group: their broadcasts match, nobody faults, and everybody has the oid
and the creation list, whose bytes were sent if there is more than one rank. -/
def AllOpen (c : Context σ P) (depth : Nat) (allColl : Bool) (item : Item P) (loc : GroupLoc)
    (oid : UInt64) (p : P) (m : RankMemory) (others : List RankMemory) : Prop :=
  lockstep (groupOpen c depth allColl 0 item loc m)
      (others.zipIdx.map fun x => groupOpen c depth allColl (x.2 + 1) item loc x.1) =
    some (⟨handle c oid p, if others = [] then none else some (c.plist.encode p)⟩,
      others.zipIdx.map fun _ => ⟨handle c oid p, some (c.plist.encode p)⟩)

/-- A rank that has the group and tells nobody. -/
theorem reader_alone {gcpl : List Byte} {grp : OpenGroup P} {buf : Ptr (List Byte)}
    (hlocal : openLocal c follow false item loc = .ok (grp, buf)) (hready : Ready false gcpl buf)
    (m : RankMemory) : groupOpenReader c follow false item loc m = .done ⟨grp, none⟩ := by
  have hfree : ∃ q, buf.free = .ok q := by
    cases buf with
    | null => exact ⟨_, rfl⟩
    | live gcpl => exact ⟨_, rfl⟩
    | freed => exact absurd rfl hready.1
  obtain ⟨q, hfree⟩ := hfree
  simp [groupOpenReader, hlocal, ofLocal, hfree]

/-- Rank 0 has the group and tells the others. -/
theorem reader_bcast {gcpl : List Byte} {grp : OpenGroup P} {buf : Ptr (List Byte)}
    (hlocal : openLocal c follow true item loc = .ok (grp, buf)) (hready : Ready true gcpl buf)
    (hlen : gcpl.length < 2147483648) (m : RankMemory) :
    ∃ rest, rest.length = 240 ∧ (¬ Twice gcpl → ∃ post, rest = gcpl ++ post) ∧
      groupOpenReader c follow true item loc m = .send .file (ginfo grp.binOid gcpl.length rest)
        (if Twice gcpl then .send .file gcpl (.done ⟨grp, some gcpl⟩)
          else .done ⟨grp, some gcpl⟩) := by
  obtain ⟨rest, hrest, hfits, hsend⟩ := sendGroup_eq m grp hlen
  refine ⟨rest, hrest, hfits, ?_⟩
  obtain rfl := hready.2 rfl
  simp only [groupOpenReader, hlocal, ofLocal, Proc.done_bind, if_true, Ptr.deref, Ptr.free,
    hsend, Proc.send_bind, Proc.pure_eq]
  by_cases htwice : Twice gcpl
  · simp only [if_pos htwice, Proc.send_bind, Proc.done_bind]
  · simp only [if_neg htwice, Proc.done_bind]

/-- Ranks that open a group by one broadcast or by two. -/
theorem allOpen_bcast {depth : Nat} {allColl : Bool} (hcoll : (c.file.collective || allColl) = true)
    (hreached : Reached c (linkFollow c depth) item loc oid p) (hthrough : ¬ ThroughGroups loc)
    (hlen : (c.plist.encode p).length < 2147483648) (m other : RankMemory)
    {others : List RankMemory} (hprocs : c.file.numProcs = (other :: others).length + 1) :
    AllOpen c depth allColl item loc oid p m (other :: others) := by
  have hroot : groupOpen c depth allColl 0 item loc m =
      groupOpenReader c (linkFollow c depth) true item loc m := by
    simp [groupOpen, hcoll, hprocs]
  obtain ⟨buf, hlocal, hready⟩ := openLocal_ok hreached (Or.inr hthrough)
  obtain ⟨rest, hrest, hfits, hreader⟩ := reader_bcast hlocal hready hlen m
  have hothers : ((other :: others).zipIdx.map fun x =>
        groupOpen c depth allColl (x.2 + 1) item loc x.1) =
      (other :: others).zipIdx.map fun x =>
        .recv .file ginfoBufSize (groupReceived c x.1) := by
    apply List.map_congr_left
    intro x _
    simp [groupOpen, hcoll, groupOpenReceiver, Proc.bcastRecv]
  have hsize : ginfoBufSize = (ginfo oid (c.plist.encode p).length rest).length := by
    rw [length_ginfo, hrest]
    rfl
  have hreceived := @received _ _ c oid p hlen rest hrest hfits
  have hbinOid : (handle c oid p).binOid = oid := rfl
  unfold AllOpen
  rw [hroot, hreader, hothers, hbinOid, lockstep_send _ _ _ _ _ hsize,
    if_neg (List.cons_ne_nil other others)]
  simp only [hreceived]
  by_cases htwice : Twice (c.plist.encode p)
  · -- both sides have another broadcast, of the same length
    simp only [if_pos htwice]
    rw [lockstep_send _ _ _ _ _ rfl]
    simp only [received_second _ hsize.symm]
    exact lockstep_done _ _ _
  · simp only [if_neg htwice]
    exact lockstep_done _ _ _

/-- **Opening a group.**  For any number of ranks, any existing group, reached by an address or by
any path of names, through hard and soft links, and any creation list of less than `2^31` bytes,
a collective open succeeds on all ranks with the same group and the same list if and only if
there is one rank or the path does not go through a group to a last name. -/
theorem group_open_iff {depth : Nat} {allColl : Bool}
    (hcoll : (c.file.collective || allColl) = true)
    (hreached : Reached c (linkFollow c depth) item loc oid p)
    (hlen : (c.plist.encode p).length < 2147483648) (m : RankMemory) {others : List RankMemory}
    (hprocs : c.file.numProcs = others.length + 1) :
    AllOpen c depth allColl item loc oid p m others ↔ others = [] ∨ ¬ ThroughGroups loc := by
  have hroot : groupOpen c depth allColl 0 item loc m = groupOpenReader c (linkFollow c depth)
      (decide (others.length + 1 > 1)) item loc m := by
    simp [groupOpen, hcoll, hprocs]
  cases others with
  | nil =>
    refine iff_of_true ?_ (Or.inl rfl)
    obtain ⟨buf, hlocal, hready⟩ := openLocal_ok hreached (Or.inl rfl)
    have halone : groupOpenReader c (linkFollow c depth)
        (decide (([] : List RankMemory).length + 1 > 1)) item loc m =
          .done ⟨handle c oid p, none⟩ := reader_alone hlocal hready m
    unfold AllOpen
    rw [hroot, halone]
    rfl
  | cons other others =>
    by_cases hthrough : ThroughGroups loc
    · -- rank 0 does not get to the broadcasts that the others wait for
      have hbcast : decide ((other :: others).length + 1 > 1) = true := by simp
      have hfault : groupOpenReader c (linkFollow c depth) true item loc m = .fault := by
        simp [groupOpenReader, openLocal_fault hreached hthrough, ofLocal]
      unfold AllOpen
      rw [hroot, hbcast, hfault, lockstep_fault]
      exact iff_of_false (by simp) (by simp [hthrough])
    · exact iff_of_true (allOpen_bcast hcoll hreached hthrough hlen m other hprocs)
        (Or.inr hthrough)

/-! ## A group in a group -/

theorem head_byte (b : Byte) (rest : List Byte) : ([b] ++ rest).head? = some b := rfl

/-- Creation lists of one byte. -/
def byteCodec : PlistCodec Byte := ⟨fun b => [b], List.head?, head_byte⟩

/-- A file of two processes. -/
def twoRanks : GroupFile Byte where
  name := ⟨['f'], by decide, by decide⟩
  flags := 1
  rootGrp := ⟨1, stringName ['f'] 1, some 5⟩
  numProcs := 2
  collective := true

/-- The root group has a group `a` with the oid 2, which has a group `b` with the oid 3. -/
def nested : Context (List ((Key × CString) × List Byte)) Byte where
  plist := byteCodec
  file := twoRanks
  omap := listOmap
  state := [((stringName ['f'] 1, ⟨[97], by decide⟩), linkBytes (.hard 2)),
    ((stringName ['f'] 2, ⟨[98], by decide⟩), linkBytes (.hard 3))]
  objects key :=
    if key = stringName ['f'] 2 then some [6]
    else if key = stringName ['f'] 3 then some [7] else none
  memory _ _ _ := ⟨none, []⟩

/-- `a/b`. -/
def pathAB : CString := ⟨[97, 47, 98], by decide⟩

theorem reached_ab : Reached nested (linkFollow nested 1) .file (.byName pathAB) 3 7 := by
  have hfirst : linkFollow nested 1 nested.file.rootGrp [97] 0 = .ok (2, 1) := by decide +kernel
  have hsecond : linkFollow nested 1 (handle nested 2 6) [98] 1 = .ok (3, 2) := by decide +kernel
  have ha : Existing nested 2 6 := by
    unfold Existing
    decide +kernel
  have hb : Existing nested 3 7 := by
    unfold Existing
    decide +kernel
  have hnames : groupNames pathAB = [[97]] := by decide
  have hname : lastName pathAB = [98] := by decide
  have hwalk : Walk nested (linkFollow nested 1) nested.file.rootGrp 0 (groupNames pathAB)
      (handle nested 2 6) 1 := by
    rw [hnames]
    exact .cons (by decide) hfirst ha (.nil _ _)
  rw [← hname] at hsecond
  exact .last rfl hwalk (by decide) hsecond hb

/-- What the memory of the ranks held before. -/
def before : RankMemory := ⟨fun _ => 0, fun _ => 0⟩

/-- When two ranks open `a/b`, the assertion stops rank 0 before it broadcasts anything. -/
theorem nested_open_faults :
    Reached nested (linkFollow nested 1) .file (.byName pathAB) 3 7 ∧
    groupOpen nested 1 false 0 .file (.byName pathAB) before = .fault ∧
    ¬ AllOpen nested 1 false .file (.byName pathAB) 3 7 before [before] := by
  have hthrough : ThroughGroups (.byName pathAB) := by
    unfold ThroughGroups
    decide
  have hfault : groupOpen nested 1 false 0 .file (.byName pathAB) before = .fault := by
    have hreader : groupOpen nested 1 false 0 .file (.byName pathAB) before =
        groupOpenReader nested (linkFollow nested 1) true .file (.byName pathAB) before := rfl
    simp [hreader, groupOpenReader, openLocal_fault reached_ab hthrough, ofLocal]
  refine ⟨reached_ab, hfault, ?_⟩
  unfold AllOpen
  rw [hfault, lockstep_fault]
  nofun

theorem group_open_iff_ab :
    AllOpen nested 1 false .file (.byName pathAB) 3 7 before [before] ↔
      [before] = [] ∨ ¬ ThroughGroups (.byName pathAB) :=
  group_open_iff rfl reached_ab (by decide) before rfl

end DTIO.Properties.GroupOpen
