import DTIO.Foundation.Packing
import DTIO.Vol.Background

/-!
# The Analysis of the Background

`H5VL_dtio_need_bkg` (`adapter/vol/vol-old/H5VLDTIO.cc`) with its variables: `*dst_type_size`,
which is set first, `*fill_bkg`, which all calls share, and `size_used`, a `size_t`.  Any call of
the HDF5 library may fail.  `needBkg` is what is left where none does.

The identifiers of types that the function opens are closed again on every way out, and are left
out.

## Main definitions

- `TypeLibrary`: what the function asks of HDF5
- `needBkgVars`: the function

## Main results

- `needBkgVars_eq`: where the library does not fail, the result is that of `needBkg`
-/

namespace DTIO.Vol

open DTIO.MachineInt

/-! ## The library -/

/-- Which of the calls, in order, succeed, and the names that an enumeration has. -/
structure TypeLibrary where
  succeeds : Nat → Bool
  enumNames : Nat → Nat → List (List Char)

/-- A function that calls the library; the calls are numbered. -/
abbrev LibraryCalls := StateT Nat (Except Stop)

namespace TypeLibrary

variable (lib : TypeLibrary)

/-- A call that returns `a`, if it succeeds. -/
def call {α : Type} (a : Option α) : LibraryCalls α := fun n =>
  if lib.succeeds n then
    match a with
    | some a => .ok (a, n + 1)
    | none => .error .fail
  else .error .fail

/-- A call whose result is not looked at. -/
def check : LibraryCalls Unit := lib.call (some ())

/-- `H5Tget_size`, which is 0 on failure. -/
def getSize (type : Datatype) : LibraryCalls Nat :=
  lib.call (if type.size = 0 then none else some type.size)

/-- `H5Tget_member_index`, negative where there is no such name; enumerations have names too. -/
def memberIndex : Datatype → List Char → Option Nat
  | .compound _ members, name => members.list.findIdx? fun m => m.name == name
  | .atomic .enumeration size format, name =>
    (lib.enumNames size format).findIdx? fun name' => name' == name
  | _, _ => none

end TypeLibrary

/-- The type behind `H5Tget_member_type`; the names of an enumeration have none. -/
def Datatype.memberType : Datatype → Nat → Option Datatype
  | .compound _ members, i => members.list[i]?.map Member.type
  | _, _ => none

/-! ## The function -/

/-- The return value, `*dst_type_size` and `*fill_bkg`. -/
structure Analysis where
  need : Bool
  dstTypeSize : Nat
  fillBkg : Bool
  deriving DecidableEq, Repr

/-- `H5Tget_size` and `H5Tget_class` of the destination. -/
def sizeAndClass (lib : TypeLibrary) (dst : Datatype) : LibraryCalls Nat := do
  let dstTypeSize ← lib.getSize dst
  lib.check
  return dstTypeSize

mutual

/-- `H5VL_dtio_need_bkg`, with what `*fill_bkg` is before. -/
def needBkgVars (lib : TypeLibrary) (src : Datatype) : Datatype → Bool → LibraryCalls Analysis
  | .atomic cls size format, fillBkg => do
    let dstTypeSize ← sizeAndClass lib (.atomic cls size format)
    return ⟨false, dstTypeSize, fillBkg⟩
  | .compound size members, fillBkg => do
    let dstTypeSize ← sizeAndClass lib (.compound size members)
    -- `H5Tget_nmembers`
    lib.check
    membersLoop lib src dstTypeSize members 0 fillBkg
  | .array count base, fillBkg => do
    let dstTypeSize ← sizeAndClass lib (.array count base)
    -- `H5Tget_super` of both types
    lib.check
    let src' ← lib.call src.super
    let r ← needBkgVars lib src' base fillBkg
    -- `H5Tclose` of both
    lib.check
    lib.check
    return ⟨r.need, dstTypeSize, r.fillBkg⟩
  | .reference size, _ => do
    let _ ← sizeAndClass lib (.reference size)
    throw .fail
  | .vlen size base, _ => do
    let _ ← sizeAndClass lib (.vlen size base)
    throw .fail

/-- The loop over the members of a compound destination, with `size_used` so far. -/
def membersLoop (lib : TypeLibrary) (src : Datatype) (dstTypeSize : Nat) :
    Members → Nat → Bool → LibraryCalls Analysis
  | .nil, sizeUsed, fillBkg =>
    -- the assertion
    if sizeUsed ≤ dstTypeSize then
      return ⟨true, dstTypeSize, if sizeUsed ≠ dstTypeSize then true else fillBkg⟩
    else throw .fault
  | .cons name _ type rest, sizeUsed, fillBkg => do
    -- `H5Tget_member_type`, `H5Tget_member_name` and `H5free_memory`
    lib.check
    lib.check
    lib.check
    match lib.memberIndex src name with
    | none =>
      -- the member is not filled in
      lib.check
      return ⟨true, dstTypeSize, true⟩
    | some srcI =>
      let src' ← lib.call (src.memberType srcI)
      let r ← needBkgVars lib src' type fillBkg
      lib.check
      lib.check
      if r.fillBkg then return ⟨true, dstTypeSize, true⟩
      else
        membersLoop lib src dstTypeSize rest
          (toUnsigned64 ((sizeUsed + r.dstTypeSize : Nat) : Int)) r.fillBkg

end

/-! ## Types as HDF5 builds them -/

mutual

/-- Sizes are not 0 and of the type `size_t`; the members of a compound type lie within it and do
not overlap. -/
def Datatype.WellFormed : Datatype → Prop
  | .atomic _ size _ => 0 < size
  | .compound size members =>
    0 < size ∧ size < 18446744073709551616 ∧ members.WellFormed ∧
      members.list.Pairwise (Packing.Apart Member.offset fun m => m.type.size) ∧
      ∀ m ∈ members.list, m.offset + m.type.size ≤ size
  | .array count base => 0 < count ∧ base.WellFormed
  | .reference size => 0 < size
  | .vlen size _ => 0 < size

def Members.WellFormed : Members → Prop
  | .nil => True
  | .cons _ _ type rest => type.WellFormed ∧ rest.WellFormed

end

mutual

/-- Types that HDF5 converts: compound types into compound types where members of one name are
converted, and arrays into arrays.  Which atomic types are converted is not looked at. -/
def Datatype.Convertible (src : Datatype) : Datatype → Prop
  | .atomic .. => ∃ cls size format, src = .atomic cls size format
  | .compound _ members =>
    (∃ size members', src = .compound size members') ∧ src.ConvertibleMembers members
  | .array count base => ∃ base', src = .array count base' ∧ base'.Convertible base
  | .reference _ => False
  | .vlen .. => False

def Datatype.ConvertibleMembers (src : Datatype) : Members → Prop
  | .nil => True
  | .cons name _ type rest =>
    (∀ src', src.member name = some src' → src'.Convertible type) ∧ src.ConvertibleMembers rest

end

theorem Datatype.WellFormed.size_pos : ∀ {type : Datatype}, type.WellFormed → 0 < type.size
  | .atomic .., h => h
  | .compound .., h => h.1
  | .array .., h => Nat.mul_pos h.1 h.2.size_pos
  | .reference _, h => h
  | .vlen .., h => h

theorem Members.used_eq (members : Members) :
    members.used = (members.list.map fun m => m.type.size).sum := by
  match members with
  | .nil => rfl
  | .cons name offset type rest => simp [Members.used, Members.list, Members.used_eq rest]

/-! ## Calls -/

namespace LibraryCalls

variable {α β : Type}

/-- The function fails, or it ends with what satisfies `Q`.  It does not abort. -/
def Ends (x : LibraryCalls α) (Q : α → Prop) : Prop :=
  ∀ n, match x n with
    | .ok r => Q r.1
    | .error e => e = .fail

/-- The function ends with `a`. -/
def Returns (x : LibraryCalls α) (a : α) : Prop := ∀ n, ∃ n', x n = .ok (a, n')

theorem Ends.bind {x : LibraryCalls α} {f : α → LibraryCalls β} {Q : α → Prop} {R : β → Prop}
    (hx : Ends x Q) (hf : ∀ a, Q a → Ends (f a) R) : Ends (x >>= f) R := by
  intro n
  have hxn := hx n
  show match (x n >>= fun r => f r.1 r.2) with | .ok r => R r.1 | .error e => e = .fail
  cases hr : x n with
  | error e =>
    rw [hr] at hxn
    exact hxn
  | ok r =>
    rw [hr] at hxn
    exact hf r.1 hxn r.2

theorem Ends.mono {x : LibraryCalls α} {Q R : α → Prop} (hx : Ends x Q) (h : ∀ a, Q a → R a) :
    Ends x R := by
  intro n
  have hxn := hx n
  split at hxn
  · exact h _ hxn
  · exact hxn

theorem Ends.pure {a : α} {Q : α → Prop} (h : Q a) : Ends (pure a : LibraryCalls α) Q :=
  fun _ => h

theorem Returns.bind {x : LibraryCalls α} {f : α → LibraryCalls β} {a : α} {b : β}
    (hx : Returns x a) (hf : Returns (f a) b) : Returns (x >>= f) b := by
  intro n
  obtain ⟨n', hn'⟩ := hx n
  obtain ⟨n'', hn''⟩ := hf n'
  refine ⟨n'', ?_⟩
  show (x n >>= fun r => f r.1 r.2) = _
  rw [hn']
  exact hn''

theorem Returns.pure (a : α) : Returns (pure a : LibraryCalls α) a := fun n => ⟨n, rfl⟩

end LibraryCalls

section Library

variable {lib : TypeLibrary}

theorem ends_call {α : Type} (lib : TypeLibrary) (a : Option α) :
    (lib.call a).Ends fun b => a = some b := by
  intro n
  unfold TypeLibrary.call
  cases lib.succeeds n with
  | false => rfl
  | true =>
    cases a with
    | none => rfl
    | some a => rfl

theorem ends_check (lib : TypeLibrary) : lib.check.Ends fun _ => True := fun n => by
  have h := ends_call lib (some ()) n
  unfold TypeLibrary.check
  split at h
  · trivial
  · exact h

theorem ends_sizeAndClass (lib : TypeLibrary) (dst : Datatype) :
    (sizeAndClass lib dst).Ends fun size => size = dst.size := by
  refine (ends_call lib _).bind fun size hsize => (ends_check lib).bind fun _ _ => .pure ?_
  split at hsize
  · cases hsize
  · exact (Option.some.inj hsize).symm

variable (hlib : ∀ n, lib.succeeds n = true)
include hlib

theorem returns_call {α : Type} (a : α) : (lib.call (some a)).Returns a := by
  intro n
  exact ⟨n + 1, by simp [TypeLibrary.call, hlib]⟩

theorem returns_check : lib.check.Returns () := returns_call hlib ()

theorem returns_sizeAndClass {dst : Datatype} (h : dst.WellFormed) :
    (sizeAndClass lib dst).Returns dst.size := by
  have hsize : (lib.getSize dst).Returns dst.size := by
    unfold TypeLibrary.getSize
    rw [if_neg h.size_pos.ne']
    exact returns_call hlib _
  exact hsize.bind ((returns_check hlib).bind (.pure _))

end Library

/-! ## Members of the source -/

/-- The first member of a name. -/
theorem find_eq_findIdx? (members : Members) (name : List Char) :
    Datatype.member.find members name =
      (members.list.findIdx? fun m => m.name == name).bind fun i =>
        members.list[i]?.map Member.type := by
  match members with
  | .nil => rfl
  | .cons name' offset type rest =>
    have ih := find_eq_findIdx? rest name
    simp only [Datatype.member.find, Members.list, List.findIdx?_cons]
    by_cases h : name' = name
    · simp [h]
    · have hne : (name' == name) = false := by simpa using h
      rw [if_neg h, ih]
      simp only [hne, Bool.false_eq_true, if_false, Option.bind_map]
      rfl

/-- Looking up the index and then the type. -/
theorem memberType_of_memberIndex {lib : TypeLibrary} {src : Datatype} {name : List Char}
    {i : Nat} {type : Datatype} (h : lib.memberIndex src name = some i)
    (htype : src.memberType i = some type) : src.member name = some type := by
  cases src with
  | compound size members =>
    simp only [TypeLibrary.memberIndex] at h
    simp only [Datatype.memberType] at htype
    rw [Datatype.member, find_eq_findIdx?, h]
    exact htype
  | atomic => cases htype
  | array => cases htype
  | reference => cases htype
  | vlen => cases htype

/-- A name that is not found is not one of a member. -/
theorem member_of_memberIndex_none {lib : TypeLibrary} {src : Datatype} {name : List Char}
    (h : lib.memberIndex src name = none) : src.member name = none := by
  cases src with
  | compound size members =>
    simp only [TypeLibrary.memberIndex] at h
    rw [Datatype.member, find_eq_findIdx?, h]
    rfl
  | atomic => rfl
  | array => rfl
  | reference => rfl
  | vlen => rfl

/-- A compound type has a member behind every index that is found. -/
theorem exists_memberType {lib : TypeLibrary} {size : Nat} {members : Members}
    {name : List Char} {i : Nat} (h : lib.memberIndex (.compound size members) name = some i) :
    ∃ type, (Datatype.compound size members).memberType i = some type ∧
      (Datatype.compound size members).member name = some type := by
  have hlt : i < members.list.length := (List.findIdx?_eq_some_iff_getElem.mp h).1
  have htype : (Datatype.compound size members).memberType i = some members.list[i].type := by
    simp [Datatype.memberType, hlt]
  exact ⟨_, htype, memberType_of_memberIndex h htype⟩

/-! ## What is left of the function -/

theorem Members.used_le {size : Nat} {members : Members}
    (h : (Datatype.compound size members).WellFormed) : members.used ≤ size := by
  obtain ⟨-, -, -, hapart, hin⟩ := h
  rw [members.used_eq]
  exact Packing.sum_le hapart hin

section Refinement

variable {lib : TypeLibrary} (hlib : ∀ n, lib.succeeds n = true)
include hlib

mutual

/-- **Refinement.**  Where the library does not fail, the function returns what `needBkg` says of
types that are converted. -/
theorem needBkgVars_eq {src : Datatype} :
    ∀ {dst : Datatype}, dst.WellFormed → src.Convertible dst →
      ∃ need fill, needBkg src dst = .returns need fill ∧
        (needBkgVars lib src dst false).Returns ⟨need, dst.size, fill⟩
  | .atomic cls size format, hwf, _ =>
    ⟨false, false, rfl, (returns_sizeAndClass hlib hwf).bind (.pure _)⟩
  | .compound size members, hwf, hc => by
    obtain ⟨⟨size', members', rfl⟩, hmembers⟩ := hc
    -- the loop starts with nothing used, and the members fit the size
    have hused : 0 + members.used ≤ size := by
      rw [Nat.zero_add]
      exact Members.used_le hwf
    obtain ⟨fill, hneed, hloop⟩ :=
      membersLoop_eq hwf.2.1 hwf.2.2.1 hmembers hused
    refine ⟨true, fill, hneed, (returns_sizeAndClass hlib hwf).bind ?_⟩
    exact (returns_check hlib).bind hloop
  | .array count base, hwf, hc => by
    obtain ⟨base', rfl, hbase⟩ := hc
    -- an array answers as its base type does
    obtain ⟨need, fill, hneed, hreturns⟩ := needBkgVars_eq hwf.2 hbase
    refine ⟨need, fill, hneed, (returns_sizeAndClass hlib hwf).bind ?_⟩
    refine (returns_check hlib).bind ((returns_call hlib base').bind (hreturns.bind ?_))
    exact (returns_check hlib).bind ((returns_check hlib).bind (.pure _))
  | .reference _, _, hc => nomatch hc
  | .vlen .., _, hc => nomatch hc

/-- The loop, from a member on. -/
theorem membersLoop_eq {size' : Nat} {members' : Members} {size : Nat}
    (hsize : size < 18446744073709551616) :
    ∀ {members : Members} {sizeUsed : Nat}, members.WellFormed →
      (Datatype.compound size' members').ConvertibleMembers members →
      sizeUsed + members.used ≤ size →
      ∃ fill, needBkgMembers (.compound size' members') size members sizeUsed =
          .returns true fill ∧
        (membersLoop lib (.compound size' members') size members sizeUsed false).Returns
          ⟨true, size, fill⟩
  | .nil, sizeUsed, _, _, hused => by
    have hle : sizeUsed ≤ size := hused
    refine ⟨sizeUsed != size, if_pos hle, ?_⟩
    simp only [membersLoop, if_pos hle]
    -- the comparison of the sum with the size of the type
    have hfill : (if sizeUsed ≠ size then true else false) = (sizeUsed != size) := by
      by_cases h : sizeUsed = size <;> simp [h]
    rw [hfill]
    exact .pure _
  | .cons name offset type rest, sizeUsed, hwf, hc, hused => by
    unfold membersLoop needBkgMembers
    cases hindex : lib.memberIndex (.compound size' members') name with
    | none =>
      refine ⟨true, by rw [member_of_memberIndex_none hindex], ?_⟩
      refine (returns_check hlib).bind ((returns_check hlib).bind ((returns_check hlib).bind ?_))
      exact (returns_check hlib).bind (.pure _)
    | some i =>
      obtain ⟨src', htype, hmember⟩ := exists_memberType hindex
      obtain ⟨need, fill, hneed, hreturns⟩ := needBkgVars_eq hwf.1 (hc.1 src' hmember)
      -- with this member the sum is still within the type
      have hsum : sizeUsed + type.size + rest.used ≤ size := by
        rw [Members.used] at hused
        omega
      obtain ⟨fill', hrest, hloop⟩ := membersLoop_eq hsize hwf.2 hc.2 hsum
      have hwrap : toUnsigned64 ((sizeUsed + type.size : Nat) : Int) = sizeUsed + type.size :=
        toUnsigned64_of_lt (by omega)
      simp only [hmember, hneed]
      cases fill with
      | true =>
        refine ⟨true, rfl, ?_⟩
        refine (returns_check hlib).bind ((returns_check hlib).bind ((returns_check hlib).bind ?_))
        simp only [htype]
        refine (returns_call hlib src').bind (hreturns.bind ?_)
        exact (returns_check hlib).bind ((returns_check hlib).bind (.pure _))
      | false =>
        refine ⟨fill', hrest, ?_⟩
        refine (returns_check hlib).bind ((returns_check hlib).bind ((returns_check hlib).bind ?_))
        simp only [htype]
        refine (returns_call hlib src').bind (hreturns.bind ?_)
        refine (returns_check hlib).bind ((returns_check hlib).bind ?_)
        simp only [Bool.false_eq_true, if_false, hwrap]
        exact hloop

end

end Refinement

end DTIO.Vol
