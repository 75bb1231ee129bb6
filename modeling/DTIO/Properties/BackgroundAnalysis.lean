import DTIO.Vol.NeedBkg

/-!
# Exactness of the Background Analysis

`H5VL_dtio_need_bkg` adds up the sizes of the members of the destination and compares the sum
with the size of the type.  Members do not overlap, so the sum stands for the bytes that they
have; and a byte of a member is filled in if the member of the source that has its name fills it
in.

## Main definitions

- `Datatype.covered`: the bytes of a destination that the source fills in
- `Exact`: what the function has to find out

## Main results

- `membersLoop_ends`: the loop over the members
- `need_bkg_exact`: all types
-/

namespace DTIO.Properties.BackgroundAnalysis

open DTIO.Vol DTIO.MachineInt

/-! ## What the function is for -/

mutual

/-- Byte `b` of a destination is filled in: it belongs to members, at every depth, that have a
counterpart of the same name in the source. -/
def covered (src : Datatype) : Datatype → Nat → Bool
  | .atomic _ size _, b => decide (b < size)
  | .compound _ members, b => coveredByMember src members b
  | .array count base, b =>
    match src.super with
    | none => false
    | some src' => decide (b < count * base.size) && covered src' base (b % base.size)
  | .reference size, b => decide (b < size)
  | .vlen size _, b => decide (b < size)

/-- The byte belongs to one of the members, and is filled in there. -/
def coveredByMember (src : Datatype) : Members → Nat → Bool
  | .nil, _ => false
  | .cons name offset type rest, b =>
    (match src.member name with
      | none => false
      | some src' =>
        decide (offset ≤ b ∧ b < offset + type.size) && covered src' type (b - offset)) ||
      coveredByMember src rest b

end

/-- A compound type, or an array of them. -/
def HasCompounds : Datatype → Prop
  | .compound .. => True
  | .array _ base => HasCompounds base
  | .atomic .. => False
  | .reference _ => False
  | .vlen .. => False

/-- What the function returns, and leaves in `*dst_type_size` and `*fill_bkg`. -/
structure Exact (src dst : Datatype) (r : Analysis) : Prop where
  need : r.need = true ↔ HasCompounds dst
  dstTypeSize : r.dstTypeSize = dst.size
  fillBkg : r.fillBkg = true ↔ ∃ b < dst.size, covered src dst b = false

/-! ## Bytes of members -/

/-- All bytes of a member are filled in. -/
def Filled (src : Datatype) (m : Member) : Prop :=
  ∃ src', src.member m.name = some src' ∧ ∀ b < m.type.size, covered src' m.type b = true

section Members

variable {src : Datatype} {members : Members} {b : Nat}

theorem coveredByMember_iff (src : Datatype) (members : Members) (b : Nat) :
    coveredByMember src members b = true ↔ ∃ m ∈ members.list, m.Owns b ∧
      ∃ src', src.member m.name = some src' ∧ covered src' m.type (b - m.offset) = true := by
  match members with
  | .nil => simp [coveredByMember, Members.list]
  | .cons name offset type rest =>
    have ih := coveredByMember_iff src rest b
    simp only [coveredByMember, Members.list, List.mem_cons, Bool.or_eq_true, ih]
    constructor
    -- the first member covers the byte, or one of the others does
    · rintro (hhead | ⟨m, hm, hrest⟩)
      · cases hmember : src.member name with
        | none => simp [hmember] at hhead
        | some src' =>
          simp only [hmember, Bool.and_eq_true, decide_eq_true_eq] at hhead
          exact ⟨_, Or.inl rfl, hhead.1, src', hmember, hhead.2⟩
      · exact ⟨m, Or.inr hm, hrest⟩
    -- the same two ways back
    · rintro ⟨m, rfl | hm, hrest⟩
      · obtain ⟨howns, src', hmember, hcovered⟩ := hrest
        have hmember' : src.member name = some src' := hmember
        refine Or.inl ?_
        simp only [hmember', Bool.and_eq_true, decide_eq_true_eq]
        exact ⟨howns, hcovered⟩
      · exact Or.inr ⟨m, hm, hrest⟩

theorem wellFormed_of_mem (members : Members) (h : members.WellFormed) {m : Member}
    (hm : m ∈ members.list) : m.type.WellFormed := by
  match members with
  | .nil => cases hm
  | .cons name offset type rest =>
    rcases List.mem_cons.mp hm with rfl | hm
    · exact h.1
    · exact wellFormed_of_mem rest h.2 hm

/-- A byte belongs to one member at most. -/
theorem eq_of_owns (h : members.list.Pairwise (Packing.Apart Member.offset fun m => m.type.size))
    {m m' : Member} (hm : m ∈ members.list) (hm' : m' ∈ members.list) (hb : m.Owns b)
    (hb' : m'.Owns b) : m = m' := by
  by_contra hne
  -- `Pairwise` is about the order of the members, but to be apart is symmetric
  have : Std.Symm (Packing.Apart Member.offset fun m : Member => m.type.size) :=
    ⟨fun _ _ h => Or.symm h⟩
  have hapart := h.forall hm hm' hne
  simp only [Packing.Apart] at hapart
  unfold Member.Owns at hb hb'
  omega

/-- A member that is not filled in has a byte that is not. -/
theorem exists_of_not_filled {m : Member} (hwf : m.type.WellFormed) (h : ¬ Filled src m) :
    ∃ b < m.type.size, ∀ src', src.member m.name = some src' → covered src' m.type b = false := by
  cases hmember : src.member m.name with
  | none => exact ⟨0, hwf.size_pos, nofun⟩
  | some src' =>
    have hsome : ∃ b < m.type.size, ¬ covered src' m.type b = true := by
      by_contra hall
      push Not at hall
      exact h ⟨src', hmember, hall⟩
    obtain ⟨b, hb, hno⟩ := hsome
    refine ⟨b, hb, fun src'' heq => ?_⟩
    obtain rfl := Option.some.inj heq
    simpa using hno

/-- **Bytes of a compound type.**  All are filled in if all members are, and the members leave no
byte out. -/
theorem uncovered_iff {size : Nat} (hwf : (Datatype.compound size members).WellFormed) :
    (∃ b < size, covered src (.compound size members) b = false) ↔
      ¬ ((∀ m ∈ members.list, Filled src m) ∧ members.used = size) := by
  obtain ⟨-, -, hmembers, hapart, hin⟩ := hwf
  rw [members.used_eq, Packing.sum_eq_iff hapart hin]
  constructor
  · rintro ⟨b, hb, hno⟩ ⟨hfilled, hfull⟩
    obtain ⟨m, hm, howns⟩ := hfull b hb
    obtain ⟨src', hmember, hall⟩ := hfilled m hm
    have hcovered : coveredByMember src members b = true :=
      (coveredByMember_iff src members b).mpr
        ⟨m, hm, howns, src', hmember, hall _ (by omega)⟩
    exact Bool.false_ne_true (hno.symm.trans hcovered)
  · intro hnot
    by_cases hfilled : ∀ m ∈ members.list, Filled src m
    · -- a byte between the members
      have hgap : ¬ ∀ x < size, ∃ m ∈ members.list,
          m.offset ≤ x ∧ x < m.offset + m.type.size := fun hfull => hnot ⟨hfilled, hfull⟩
      push Not at hgap
      obtain ⟨b, hb, hnone⟩ := hgap
      refine ⟨b, hb, Bool.eq_false_iff.mpr fun hcovered => ?_⟩
      obtain ⟨m, hm, howns, -⟩ := (coveredByMember_iff src members b).mp hcovered
      exact absurd howns.2 (not_lt.mpr (hnone m hm howns.1))
    · -- a byte of a member
      push Not at hfilled
      obtain ⟨m, hm, hno⟩ := hfilled
      obtain ⟨b, hb, hnone⟩ := exists_of_not_filled (wellFormed_of_mem members hmembers hm) hno
      have hlt : m.offset + b < size := by
        have := hin m hm
        omega
      refine ⟨m.offset + b, hlt, Bool.eq_false_iff.mpr fun hcovered => ?_⟩
      obtain ⟨m', hm', howns, src', hmember, hbyte⟩ :=
        (coveredByMember_iff src members _).mp hcovered
      have howns' : m.Owns (m.offset + b) := ⟨Nat.le_add_right _ _, Nat.add_lt_add_left hb _⟩
      obtain rfl := eq_of_owns hapart hm hm' howns' howns
      rw [Nat.add_sub_cancel_left, hnone src' hmember] at hbyte
      cases hbyte

end Members

/-- The elements of an array are alike. -/
theorem uncovered_array_iff {src src' base : Datatype} {count : Nat}
    (hsuper : src.super = some src') (hwf : (Datatype.array count base).WellFormed) :
    (∃ b < (Datatype.array count base).size, covered src (.array count base) b = false) ↔
      ∃ b < base.size, covered src' base b = false := by
  obtain ⟨hcount, hbase⟩ := hwf
  have hpos := hbase.size_pos
  have hcovered : ∀ b < count * base.size,
      covered src (.array count base) b = covered src' base (b % base.size) := by
    intro b hb
    simp [covered, hsuper, hb]
  constructor
  · rintro ⟨b, hb, hno⟩
    exact ⟨b % base.size, Nat.mod_lt _ hpos, (hcovered b hb).symm.trans hno⟩
  · rintro ⟨b, hb, hno⟩
    have hlt : b < count * base.size := hb.trans_le (Nat.le_mul_of_pos_left _ hcount)
    refine ⟨b, hlt, ?_⟩
    rw [hcovered b hlt, Nat.mod_eq_of_lt hb]
    exact hno

/-! ## The function -/

section Ends

variable (lib : TypeLibrary)

mutual

/-- The result for a destination, by its structure. -/
theorem needBkgVars_ends (src : Datatype) :
    ∀ dst : Datatype, dst.WellFormed → (needBkgVars lib src dst false).Ends (Exact src dst)
  | .atomic cls size format, _ => by
    -- all bytes of the type are filled in
    refine (ends_sizeAndClass lib _).bind fun dstTypeSize hsize => .pure ⟨?_, hsize, ?_⟩
    · simp [HasCompounds]
    · simp only [Datatype.size, covered, Bool.false_eq_true, false_iff]
      rintro ⟨b, hb, hno⟩
      exact of_decide_eq_false hno hb
  | .compound size members, hwf => by
    -- the loop starts with no member, and what it says of the sum is about all of them
    refine (ends_sizeAndClass lib _).bind fun dstTypeSize hsize => ?_
    obtain rfl : dstTypeSize = size := hsize
    have hused : 0 + members.used ≤ dstTypeSize := by
      rw [Nat.zero_add]
      exact Members.used_le hwf
    refine (ends_check lib).bind fun _ _ => ?_
    refine (membersLoop_ends src hwf.2.1 members 0 hwf.2.2.1 hused).mono ?_
    rintro r ⟨hneed, hsize, hfill⟩
    rw [Nat.zero_add] at hfill
    exact ⟨by simp [hneed, HasCompounds], hsize, hfill.trans (uncovered_iff hwf).symm⟩
  | .array count base, hwf => by
    -- the recursion is on the base, and its bytes are those of every element
    refine (ends_sizeAndClass lib _).bind fun dstTypeSize hsize => (ends_check lib).bind fun _ _ =>
      (ends_call lib _).bind fun src' hsuper => ?_
    refine (needBkgVars_ends src' base hwf.2).bind fun r hr => ?_
    refine (ends_check lib).bind fun _ _ => (ends_check lib).bind fun _ _ => .pure ?_
    exact ⟨hr.need, hsize, hr.fillBkg.trans (uncovered_array_iff hsuper hwf).symm⟩
  | .reference _, _ => (ends_sizeAndClass lib _).bind fun _ _ _ => rfl
  | .vlen .., _ => (ends_sizeAndClass lib _).bind fun _ _ _ => rfl

/-- The loop from a member on, when all members before it are filled in. -/
theorem membersLoop_ends (src : Datatype) {size : Nat} (hsize : size < 18446744073709551616) :
    ∀ (members : Members) (sizeUsed : Nat), members.WellFormed → sizeUsed + members.used ≤ size →
      (membersLoop lib src size members sizeUsed false).Ends fun r =>
        r.need = true ∧ r.dstTypeSize = size ∧ (r.fillBkg = true ↔
          ¬ ((∀ m ∈ members.list, Filled src m) ∧ sizeUsed + members.used = size))
  | .nil, sizeUsed, _, hused => by
    -- the sum is compared with the size after the last member
    have hle : sizeUsed ≤ size := hused
    simp only [membersLoop, if_pos hle]
    refine .pure ⟨rfl, rfl, ?_⟩
    simp [Members.list, Members.used]
  | .cons name offset type rest, sizeUsed, hwf, hused => by
    unfold membersLoop
    refine (ends_check lib).bind fun _ _ => (ends_check lib).bind fun _ _ =>
      (ends_check lib).bind fun _ _ => ?_
    cases hindex : lib.memberIndex src name with
    | none =>
      -- the loop is left at a member that the source does not have
      refine (ends_check lib).bind fun _ _ => .pure ⟨rfl, rfl, iff_of_true rfl ?_⟩
      rintro ⟨hfilled, -⟩
      obtain ⟨src', hmember, -⟩ := hfilled ⟨name, offset, type⟩ List.mem_cons_self
      rw [member_of_memberIndex_none hindex] at hmember
      cases hmember
    | some i =>
      refine (ends_call lib _).bind fun src' htype => ?_
      have hmember := memberType_of_memberIndex hindex htype
      refine (needBkgVars_ends src' type hwf.1).bind fun r hr => ?_
      refine (ends_check lib).bind fun _ _ => (ends_check lib).bind fun _ _ => ?_
      -- what the recursion says of the type is what the loop needs of the member
      have hfilled : Filled src ⟨name, offset, type⟩ ↔ r.fillBkg = false := by
        rw [Bool.eq_false_iff, Ne, hr.fillBkg]
        push Not
        simp only [Filled, hmember, Option.some.injEq, exists_eq_left', Bool.eq_false_iff, ne_eq,
          not_not]
      cases hfill : r.fillBkg with
      | true =>
        refine .pure ⟨rfl, rfl, iff_of_true rfl ?_⟩
        rintro ⟨hall, -⟩
        have hhead := hfilled.mp (hall _ List.mem_cons_self)
        rw [hfill] at hhead
        cases hhead
      | false =>
        -- the sum does not wrap, since the members fit into the type
        have hsum : sizeUsed + type.size + rest.used ≤ size := by
          rw [Members.used] at hused
          omega
        have hwrap : toUnsigned64 ((sizeUsed + type.size : Nat) : Int) = sizeUsed + type.size :=
          toUnsigned64_of_lt (by omega)
        simp only [Bool.false_eq_true, if_false, hr.dstTypeSize, hwrap]
        refine (membersLoop_ends src hsize rest _ hwf.2 hsum).mono ?_
        rintro r' ⟨hneed, hsize', hrest⟩
        refine ⟨hneed, hsize', hrest.trans ?_⟩
        simp only [Members.list, List.forall_mem_cons, hfilled.mpr hfill, true_and, Members.used,
          Nat.add_assoc]

end

end Ends

/-- **The background analysis.**  For every two types, of which HDF5 has built the destination:
the function never fails its assertion, whichever calls of the library fail, and when it succeeds
its results are exact.  It succeeds on types that are converted, if the library does. -/
theorem need_bkg_exact (lib : TypeLibrary) (src : Datatype) {dst : Datatype}
    (hwf : dst.WellFormed) :
    (needBkgVars lib src dst false).Ends (Exact src dst) ∧
    (src.Convertible dst → (∀ n, lib.succeeds n = true) →
      ∃ r, (needBkgVars lib src dst false).Returns r) := by
  refine ⟨needBkgVars_ends lib src dst hwf, fun hconvertible hlib => ?_⟩
  obtain ⟨need, fill, -, hreturns⟩ := needBkgVars_eq hlib hwf hconvertible
  exact ⟨_, hreturns⟩

/-- Two members with four bytes between them. -/
def gapped : Datatype :=
  .compound 16 (.cons ['a'] 0 (.atomic .integer 4 0)
    (.cons ['b'] 8 (.array 2 (.atomic .float 4 0)) .nil))

theorem gapped_wellFormed : gapped.WellFormed := by
  have hint : (Datatype.atomic .integer 4 0).WellFormed := Nat.succ_pos 3
  have hfloats : (Datatype.array 2 (.atomic .float 4 0)).WellFormed :=
    ⟨Nat.succ_pos 1, Nat.succ_pos 3⟩
  refine ⟨by norm_num, by norm_num, ⟨hint, hfloats, trivial⟩, ?_, ?_⟩
  · simp [Members.list, Packing.Apart, Datatype.size]
  · simp [Members.list, Datatype.size]

theorem gapped_convertible : gapped.Convertible gapped := by
  refine ⟨⟨_, _, rfl⟩, ?_, ?_, trivial⟩
  · rintro src' hmember
    obtain rfl := Option.some.inj hmember
    exact ⟨_, _, _, rfl⟩
  · rintro src' hmember
    obtain rfl := Option.some.inj hmember
    exact ⟨_, rfl, _, _, _, rfl⟩

theorem need_bkg_exact_gapped :
    (needBkgVars ⟨fun _ => true, fun _ _ => []⟩ gapped gapped false).Ends (Exact gapped gapped) ∧
      ∃ r, (needBkgVars ⟨fun _ => true, fun _ _ => []⟩ gapped gapped false).Returns r := by
  have h := need_bkg_exact ⟨fun _ => true, fun _ _ => []⟩ gapped gapped_wellFormed
  exact ⟨h.1, h.2 gapped_convertible fun _ => rfl⟩

end DTIO.Properties.BackgroundAnalysis
