import DTIO.Vol.Links

/-!
# Round Trips of Links

`H5VL_dtio_link_write` stores every supported value as it is, whichever of its buffers it takes.
`H5VL_dtio_link_read` decodes the type and the oid of a hard link.  For a soft link it allocates
a buffer of the right size, but copies the memory behind the structure of the caller into it
instead of the stored target.

## Main results

- `link_round_trip_iff`: the value is read back if it is a hard link, or if the target happens to
  lie behind the structure
- `same_length_same_target`: of a soft link, no more than the length is read
-/

namespace DTIO.Properties.LinkValues

open DTIO.Posix DTIO.Memory DTIO.Vol

variable {σ : Type} {kv : Omap σ} {contents : σ → Key → CString → List Byte}

/-- The memory of the two calls: what the stack buffer of the write and the allocated buffers
held before, and what is behind the structure that is passed to the read. -/
structure CallMemory where
  stack : Nat → Byte
  writeHeap : Nat → Byte
  readHeap : Nat → Byte
  behind : List Byte

/-- The write succeeds, the read of the same name yields the value, and links of other names are
read as before. -/
def RoundTrips (kv : Omap σ) (s : σ) (grp : LinkGroup) (name : CString) (val : LinkVal)
    (m : CallMemory) : Prop :=
  ∃ s', linkWrite kv s grp name val m.stack (some m.writeHeap) = .ok s' ∧
    linkRead kv s' grp name (some m.readHeap) m.behind = .ok val ∧
    ∀ name', name' ≠ name → ∀ heap behind,
      linkRead kv s' grp name' heap behind = linkRead kv s grp name' heap behind

/-- What is read back. -/
def ReadBack (m : CallMemory) : LinkVal → Prop
  | .hard _ => True
  | .soft target => target.bytes <+: m.behind
  | .unsupported .. => False

/-! ## Soft links -/

/-- A buffer holds a string of its whole length only if it has no other terminator. -/
theorem ofBuffer_eq_iff {buf : List Byte} {target : CString}
    (hlen : buf.length = target.bytes.length) :
    CString.ofBuffer (buf ++ [0]) = target ↔ buf = target.bytes := by
  constructor
  · intro h
    -- the string ends at a zero, and it is too long to end at an earlier one
    have htarget : target.bytes <+: buf ++ [0] := by
      rw [← h]
      exact List.takeWhile_prefix _
    have hbegins : target.bytes <+: buf :=
      List.prefix_of_prefix_length_le htarget (List.prefix_append buf [0]) hlen.ge
    exact (hbegins.eq_of_length hlen.symm).symm
  · rintro rfl
    exact CString.ofBuffer_terminated target []

/-- A soft link is read back when its target lies behind the structure. -/
theorem decode_soft_iff (m : CallMemory) (target : CString) :
    decodeLinkVal (some m.readHeap) m.behind (linkBytes (.soft target)) = .ok (.soft target) ↔
      target.bytes <+: m.behind := by
  rcases lt_or_ge m.behind.length target.bytes.length with hshort | hlong
  · -- the copy runs out of the memory of the caller
    rw [decodeLinkVal_short m.readHeap hshort]
    refine iff_of_false (by simp) ?_
    intro hbegins
    exact absurd hbegins.length_le (not_le.mpr hshort)
  · have hlen : (m.behind.take target.bytes.length).length = target.bytes.length :=
      List.length_take_of_le hlong
    rw [decodeLinkVal_soft m.readHeap hlong, Except.ok.injEq, LinkVal.soft.injEq,
      ofBuffer_eq_iff hlen, List.prefix_iff_eq_take]
    exact eq_comm

/-- Of a soft link, no more than the length of its target is read. -/
theorem same_length_same_target (m : CallMemory) {target target' : CString}
    (h : target.bytes.length = target'.bytes.length) :
    decodeLinkVal (some m.readHeap) m.behind (linkBytes (.soft target)) =
      decodeLinkVal (some m.readHeap) m.behind (linkBytes (.soft target')) := by
  rcases lt_or_ge m.behind.length target.bytes.length with hshort | hlong
  · rw [decodeLinkVal_short m.readHeap hshort, decodeLinkVal_short m.readHeap (h ▸ hshort)]
  · rw [decodeLinkVal_soft m.readHeap hlong, decodeLinkVal_soft m.readHeap (h ▸ hlong), h]

/-! ## All links -/

/-- After a write, the same name is decoded from the format of the value, and the other names
have not changed. -/
theorem roundTrips_iff_decode (hkv : kv.Exact contents) (s : σ) {grp : LinkGroup}
    (hw : grp.Writable) (name : CString) {val : LinkVal} (m : CallMemory)
    (hval : val.Supported) :
    RoundTrips kv s grp name val m ↔
      decodeLinkVal (some m.readHeap) m.behind (linkBytes val) = .ok val := by
  obtain ⟨s', hwrite, hcontents⟩ := linkWrite_ok hkv s hw name m.stack m.writeHeap hval
  have hread : linkRead kv s' grp name (some m.readHeap) m.behind =
      decodeLinkVal (some m.readHeap) m.behind (linkBytes val) := by
    rw [linkRead_eq hkv, hcontents, if_pos ⟨rfl, rfl⟩]
  constructor
  · rintro ⟨s₁, hwrite₁, hread₁, -⟩
    obtain rfl : s' = s₁ := Except.ok.inj (hwrite.symm.trans hwrite₁)
    exact hread.symm.trans hread₁
  · intro hdecode
    refine ⟨s', hwrite, hread.trans hdecode, ?_⟩
    intro name' hne heap behind
    have hother : ¬ (grp.oid = grp.oid ∧ name' = name) := fun h => hne h.2
    rw [linkRead_eq hkv, linkRead_eq hkv, hcontents, if_neg hother]

/-- **Round trips of links.**  For a writable group, any name, any value and any memory, a link
that was written is read back, and the links of other names are read as before, if and only if
it is a hard link, or a soft link whose target lies behind the structure of the caller. -/
theorem link_round_trip_iff (hkv : kv.Exact contents) (s : σ) {grp : LinkGroup}
    (hw : grp.Writable) (name : CString) (val : LinkVal) (m : CallMemory) :
    RoundTrips kv s grp name val m ↔ ReadBack m val := by
  cases val with
  | hard oid =>
    have hval : (LinkVal.hard oid).Supported := trivial
    rw [roundTrips_iff_decode hkv s hw name m hval]
    exact iff_of_true (decodeLinkVal_hard _ _ oid) trivial
  | soft target =>
    have hval : (LinkVal.soft target).Supported := trivial
    rw [roundTrips_iff_decode hkv s hw name m hval]
    exact decode_soft_iff m target
  | unsupported type h =>
    -- nothing is written
    refine iff_of_false ?_ id
    rintro ⟨s', hwrite, -⟩
    simp [linkWrite, encodeLinkVal] at hwrite

/-! ## A store of lists of keys -/

/-- A store whose objects keep the latest pair of a key first. -/
def listOmap : Omap (List ((Key × CString) × List Byte)) where
  set s oid name data := some (0, ((oid, name), data) :: s)
  get s oid name := some ⟨0, 0, 0, (s.lookup (oid, name)).getD []⟩

/-- Its values. -/
def listContents (s : List ((Key × CString) × List Byte)) (oid : Key) (name : CString) :
    List Byte := (s.lookup (oid, name)).getD []

theorem listOmap_exact : listOmap.Exact listContents where
  set_ok s oid name data := by
    refine ⟨0, _, rfl, le_rfl, ?_⟩
    intro oid' name'
    by_cases h : oid' = oid ∧ name' = name
    · obtain ⟨rfl, rfl⟩ := h
      simp [listContents]
    · have hne : ((oid', name') == (oid, name)) = false := by
        simpa using h
      simp [listContents, List.lookup_cons, hne, h]
  get_ok s oid name := ⟨_, rfl, le_rfl, le_rfl, le_rfl, rfl⟩

/-- A group, and a stack without targets. -/
def group : LinkGroup := ⟨stringName ['f'] 1, 1⟩

def memory : CallMemory := ⟨fun _ => 7, fun _ => 7, fun _ => 7, [0, 0, 0, 0]⟩

/-- The soft link `n` to `ab`. -/
def nameN : CString := ⟨[110], by decide⟩

def softAb : CString := ⟨[97, 98], by decide⟩

/-- It is read back as a link to the empty path. -/
theorem soft_link_lost :
    (linkWrite listOmap [] group nameN (.soft softAb) memory.stack (some memory.writeHeap)).bind
        (fun s => linkRead listOmap s group nameN (some memory.readHeap) memory.behind) =
      .ok (.soft ⟨[], by decide⟩) ∧
    ¬ RoundTrips listOmap [] group nameN (.soft softAb) memory := by
  have hlost : (linkWrite listOmap [] group nameN (.soft softAb) memory.stack
      (some memory.writeHeap)).bind
        (fun s => linkRead listOmap s group nameN (some memory.readHeap) memory.behind) =
      .ok (.soft ⟨[], by decide⟩) := by decide +kernel
  refine ⟨hlost, ?_⟩
  rintro ⟨s', hwrite, hread, -⟩
  rw [hwrite] at hlost
  have hsame : (Except.ok (.soft softAb) : Except Stop LinkVal) = .ok (.soft ⟨[], by decide⟩) :=
    hread.symm.trans hlost
  exact absurd hsame (by decide)

theorem link_round_trip_iff_ab :
    RoundTrips listOmap [] group nameN (.soft softAb) memory ↔ ReadBack memory (.soft softAb) :=
  link_round_trip_iff listOmap_exact [] (by decide) nameN (.soft softAb) memory

end DTIO.Properties.LinkValues
