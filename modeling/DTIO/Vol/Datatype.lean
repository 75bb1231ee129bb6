import DTIO.Posix.State

/-!
# Datatypes and their Conversion

`H5VL_dtio_need_bkg` and `H5VL_dtio_tconv_init` (`adapter/vol/vol-old/H5VLDTIO.cc`): whether a
conversion needs a background buffer, whether that has to be filled, and whether the buffer of
the application can serve as one.

## Main definitions

- `Datatype`: the datatypes of HDF5 as far as the connector looks at them
- `needBkg`: the recursion over the destination type
- `tconvInit`: the variables of a transfer that describe its conversion
-/

namespace DTIO.Vol

/-- The classes whose conversion needs no background. -/
inductive AtomicClass where
  | integer | float | time | string | bitfield | opaqueData | enumeration
  deriving DecidableEq, Repr

mutual

/-- A datatype; `format` stands for what distinguishes types of one class and size. -/
inductive Datatype where
  | atomic (cls : AtomicClass) (size format : Nat)
  | compound (size : Nat) (members : Members)
  | array (count : Nat) (base : Datatype)
  | reference (size : Nat)
  | vlen (size : Nat) (base : Datatype)

/-- The members of a compound type, in order. -/
inductive Members where
  | nil
  | cons (name : List Char) (offset : Nat) (type : Datatype) (rest : Members)

end

deriving instance DecidableEq for Datatype, Members

deriving instance Repr for Datatype, Members

namespace Datatype

/-- `H5Tget_size`. -/
def size : Datatype → Nat
  | .atomic _ size _ => size
  | .compound size _ => size
  | .array count base => count * base.size
  | .reference size => size
  | .vlen size _ => size

/-- `H5Tget_super`; the base of an enumeration is an integer type of its size. -/
def super : Datatype → Option Datatype
  | .array _ base => some base
  | .vlen _ base => some base
  | .atomic .enumeration size format => some (.atomic .integer size format)
  | _ => none

/-- `H5Tget_member_type` of `H5Tget_member_index`. -/
def member : Datatype → List Char → Option Datatype
  | .compound _ members, name => find members name
  | _, _ => none
where
  find : Members → List Char → Option Datatype
    | .nil, _ => none
    | .cons name' _ type rest, name => if name' = name then some type else find rest name

end Datatype

/-- The result of `H5VL_dtio_need_bkg`. -/
inductive NeedBkg where
  /-- the failed assertion `size_used <= *dst_type_size` -/
  | aborts
  /-- `FAIL`, with `fill_bkg` as it was -/
  | fails
  /-- the return value and `fill_bkg` -/
  | returns (need fill : Bool)
  deriving DecidableEq, Repr

mutual

/-- `H5VL_dtio_need_bkg`, with `*fill_bkg` false before. -/
def needBkg (src : Datatype) : Datatype → NeedBkg
  | .atomic .. => .returns false false
  | .compound size members => needBkgMembers src size members 0
  | .array _ base =>
    match src.super with
    | none => .fails
    | some src => needBkg src base
  | .reference _ => .fails
  | .vlen _ _ => .fails

/-- The loop over the members of a compound destination, with `sizeUsed` so far. -/
def needBkgMembers (src : Datatype) (size : Nat) : Members → Nat → NeedBkg
  | .nil, sizeUsed => if sizeUsed ≤ size then .returns true (sizeUsed != size) else .aborts
  | .cons name _ type rest, sizeUsed =>
    match src.member name with
    -- the member is not filled in
    | none => .returns true true
    | some src' =>
      match needBkg src' type with
      | .returns _ true => .returns true true
      | .returns _ false => needBkgMembers src size rest (sizeUsed + type.size)
      | r => r

end

/-- `H5VL_dtio_tconv_reuse_t`. -/
inductive Reuse where
  | none | tconv | bkg
  deriving DecidableEq, Repr

/-- The variables that `H5VL_dtio_tconv_init` sets. -/
structure Tconv where
  srcTypeSize : Nat
  dstTypeSize : Nat
  typesEqual : Bool
  needBkg : Bool
  fillBkg : Bool
  reuse : Reuse
  deriving DecidableEq, Repr

/-- What a transfer starts with; the sizes are not initialised. -/
def Tconv.init : Tconv := ⟨0, 0, true, false, false, .none⟩

/-- `H5VL_dtio_tconv_init`; nothing if an assertion fails.  The destination is `none` if the
identifier is not one of a datatype: then the function fails, and so it does where
`H5VL_dtio_need_bkg` does; the caller goes on with the variables as they are.  `dstAbove` tells
whether `mem_type_size` lies above `file_type_size` in memory: it is the pointers that are
compared. -/
def tconvInit (dstAbove : Bool) (src : Datatype) (dst : Option Datatype) (t : Tconv) :
    Option Tconv :=
  if t.fillBkg then none
  else
    let t := { t with srcTypeSize := src.size }
    match dst with
    | none => some { t with reuse := .none }
    | some dst =>
      -- `H5Tequal`
      if src = dst then
        some { t with dstTypeSize := src.size, typesEqual := true, needBkg := false }
      else
        match needBkg src dst with
        | .aborts => none
        | .fails => some { t with dstTypeSize := dst.size, reuse := .none }
        | .returns need fill =>
          -- `assert(*reuse == H5VL_DTIO_TCONV_REUSE_NONE)`
          if t.reuse ≠ .none then none
          else some
            { t with
              dstTypeSize := dst.size
              typesEqual := false
              needBkg := need
              fillBkg := fill
              reuse := if dstAbove then .tconv else if need then .bkg else .none }

/-- An identifier that is not one of a datatype leaves the types equal. -/
theorem tconvInit_invalid (dstAbove : Bool) (src : Datatype) {t : Tconv}
    (h : t.fillBkg = false) :
    tconvInit dstAbove src none t = some { t with srcTypeSize := src.size, reuse := .none } := by
  simp [tconvInit, h]

/-- The size of the source type is always set. -/
theorem tconvInit_src {dstAbove : Bool} {src : Datatype} {dst : Option Datatype} {t t' : Tconv}
    (h : tconvInit dstAbove src dst t = some t') : t'.srcTypeSize = src.size := by
  unfold tconvInit at h
  split at h
  · cases h
  cases dst with
  | none =>
    obtain rfl := Option.some.inj h
    rfl
  | some dst =>
    simp only at h
    split at h
    · obtain rfl := Option.some.inj h
      rfl
    split at h
    · cases h
    · obtain rfl := Option.some.inj h
      rfl
    · split at h
      · cases h
      · obtain rfl := Option.some.inj h
        rfl

/-- The sizes of the types of a conversion. -/
theorem tconvInit_sizes {dstAbove : Bool} {src dst : Datatype} {t : Tconv}
    (h : tconvInit dstAbove src (some dst) .init = some t) :
    t.srcTypeSize = src.size ∧ (t.typesEqual = false → t.dstTypeSize = dst.size) := by
  simp only [tconvInit, Tconv.init, Bool.false_eq_true, if_false, ne_eq, not_true_eq_false] at h
  split at h
  · obtain rfl := Option.some.inj h
    exact ⟨rfl, nofun⟩
  · split at h
    · cases h
    · obtain rfl := Option.some.inj h
      exact ⟨rfl, nofun⟩
    · obtain rfl := Option.some.inj h
      exact ⟨rfl, fun _ => rfl⟩

/-- A conversion whose background is known. -/
theorem tconvInit_returns (dstAbove : Bool) {src dst : Datatype} {need fill : Bool}
    (hne : src ≠ dst) (h : Vol.needBkg src dst = .returns need fill) :
    ∃ t, tconvInit dstAbove src (some dst) .init = some t ∧ t.srcTypeSize = src.size ∧
      t.dstTypeSize = dst.size ∧ t.typesEqual = false ∧ t.needBkg = need ∧
      t.fillBkg = fill := by
  refine ⟨⟨src.size, dst.size, false, need, fill,
    if dstAbove then .tconv else if need then .bkg else .none⟩, ?_, rfl, rfl, rfl, rfl, rfl⟩
  simp [tconvInit, Tconv.init, hne, h]

/-- The types count as equal where the background cannot be determined. -/
theorem tconvInit_fails (dstAbove : Bool) {src dst : Datatype} (hne : src ≠ dst)
    (h : Vol.needBkg src dst = .fails) :
    tconvInit dstAbove src (some dst) .init =
      some ⟨src.size, dst.size, true, false, false, .none⟩ := by
  simp [tconvInit, Tconv.init, hne, h]

theorem tconvInit_aborts (dstAbove : Bool) {src dst : Datatype} (hne : src ≠ dst)
    (h : Vol.needBkg src dst = .aborts) : tconvInit dstAbove src (some dst) .init = none := by
  simp [tconvInit, Tconv.init, hne, h]

theorem tconvInit_equal (dstAbove : Bool) (type : Datatype) :
    tconvInit dstAbove type (some type) .init = some ⟨type.size, type.size, true, false, false,
      .none⟩ := by
  simp [tconvInit, Tconv.init]

end DTIO.Vol
