import DTIO.Vol.ReadConversion

/-!
# Conversion in the Buffer of the Application

A read may convert in the buffer of the application if its elements are at least as large as
those in the file.  `H5VL_dtio_tconv_init` compares the pointers to the two sizes and not the
sizes, so that it is the places of two variables of the caller that decide.

## Main definitions

- `SizesDecide`: the buffer is reused only if it is large enough, and the types decide alone
- `Within`: a conversion in the buffer of the application stays in the selection

## Main results

- `within_iff`: the selection is left where the places allow the reuse and the elements shrink
- `in_place_iff`: both hold exactly for types that are not converted
-/

namespace DTIO.Properties.InPlaceConversion

open DTIO.Posix DTIO.Grid DTIO.Vol

variable {env : Env} {src dst : Datatype} {above : Bool}

/-! ## What should hold of a pair of types -/

/-- `H5VL_dtio_tconv_init` gets as far as the choice. -/
def Converts (src dst : Datatype) : Prop :=
  src ≠ dst ∧ ∃ need fill, needBkg src dst = .returns need fill

/-- `H5VL_DTIO_TCONV_REUSE_TCONV` is chosen for a destination that is large enough only, and the
choice is the same wherever the sizes lie. -/
structure SizesDecide (src dst : Datatype) : Prop where
  large : ∀ above t, tconvInit above src (some dst) .init = some t → t.reuse = .tconv →
    t.srcTypeSize ≤ t.dstTypeSize
  types : ∀ above above' t t', tconvInit above src (some dst) .init = some t →
    tconvInit above' src (some dst) .init = some t' → t.reuse = t'.reuse

/-- Where a contiguous selection ends with the buffer of the application, a chunk that is
converted in it is read without an access behind the buffer. -/
def Within (env : Env) (src dst : Datatype) (above : Bool) : Prop :=
  ∀ t, tconvInit above src (some dst) .init = some t → t.typesEqual = false → t.reuse = .tconv →
    ∀ info m, ContigChunk env.iter dst.size t.needBkg info m →
      ∀ numElemChunk key σ, ∃ m', readConverted env src dst t numElemChunk info key σ m = .ok m'

/-! ## The choice -/

/-- Types that are converted. -/
theorem tconvInit_converts {need fill : Bool} (hne : src ≠ dst)
    (hneed : needBkg src dst = .returns need fill) (above : Bool) :
    tconvInit above src (some dst) .init = some ⟨src.size, dst.size, false, need, fill,
      if above then .tconv else if need then .bkg else .none⟩ := by
  simp [tconvInit, Tconv.init, hne, hneed]

/-- Types that are not converted count as equal, and nothing is reused. -/
theorem tconvInit_not_converts (h : ¬ Converts src dst) {t : Tconv}
    (ht : tconvInit above src (some dst) .init = some t) :
    t.typesEqual = true ∧ t.reuse = .none := by
  by_cases heq : src = dst
  · subst heq
    rw [tconvInit_equal] at ht
    obtain rfl := Option.some.inj ht
    exact ⟨rfl, rfl⟩
  · cases hneed : needBkg src dst with
    | aborts =>
      rw [tconvInit_aborts above heq hneed] at ht
      cases ht
    | fails =>
      rw [tconvInit_fails above heq hneed] at ht
      obtain rfl := Option.some.inj ht
      exact ⟨rfl, rfl⟩
    | returns need fill => exact absurd ⟨heq, need, fill, hneed⟩ h

/-- The places decide for all types that are converted. -/
theorem sizesDecide_iff : SizesDecide src dst ↔ ¬ Converts src dst := by
  constructor
  · rintro h ⟨hne, need, fill, hneed⟩
    have hsame := h.types true false _ _ (tconvInit_converts hne hneed true)
      (tconvInit_converts hne hneed false)
    cases need with
    | true => cases hsame
    | false => cases hsame
  · intro h
    refine ⟨fun above t ht hreuse => ?_, fun above above' t t' ht ht' => ?_⟩
    · rw [(tconvInit_not_converts h ht).2] at hreuse
      cases hreuse
    · rw [(tconvInit_not_converts h ht).2, (tconvInit_not_converts h ht').2]

/-! ## The buffer -/

/-- A selection of one element is contiguous. -/
theorem firstSequence_single (iter : SelIter) :
    firstSequence iter (Dataspace.all [1]) = .ok ⟨0, 1⟩ := by
  have hvalid : (Dataspace.all [1]).Valid := Dataspace.valid_all (by decide)
  have horder := iter.order hvalid one_pos one_pos
  have hbytes : (Dataspace.all [1]).bytes 1 = [0] := by decide
  rw [hbytes] at horder
  cases hbatches : iter.batches (Dataspace.all [1]) 1 1 with
  | nil =>
    rw [hbatches] at horder
    cases horder
  | cons b bs =>
    obtain ⟨hne, hpos⟩ := iter.progress hvalid one_pos one_pos b (hbatches ▸ List.mem_cons_self)
    obtain ⟨r, runs, hruns⟩ := List.exists_cons_of_ne_nil hne
    have hlen : 0 < r.len := hpos r (hruns ▸ List.mem_cons_self)
    rw [hbatches] at horder
    simp only [batchBytes, List.flatMap_cons, hruns] at horder
    -- the first byte is the only one
    obtain ⟨n, hn⟩ := Nat.exists_eq_succ_of_ne_zero hlen.ne'
    rw [Run.bytes, hn, List.range_succ_eq_map] at horder
    have hfirst : r.off = 0 ∧ n = 0 ∧ (∀ x ∈ runs, x.bytes = []) ∧
        ∀ x ∈ bs, ∀ y ∈ x.runs, y.bytes = [] := by simpa using horder
    obtain ⟨hoff, rfl, -⟩ := hfirst
    have hr : r = ⟨0, 1⟩ := by
      cases r with
      | mk off len => exact congrArg₂ Run.mk hoff hn
    simp [firstSequence, hbatches, hruns, hr]

/-- One element, in a buffer of its size. -/
theorem contigChunk_single (iter : SelIter) {memSize : Nat}
    (hmem : memSize < 18446744073709551616) (needBkg : Bool) :
    ContigChunk iter memSize needBkg ⟨[0], .all [1], .all [1]⟩
      ⟨List.replicate memSize 0, .null, .live (List.replicate memSize 0)⟩ where
  fspace := Dataspace.valid_all (by decide)
  mspace := Dataspace.valid_all (by decide)
  count := rfl
  pos := by decide
  contig := by
    refine ⟨⟨0, 1⟩, firstSequence_single iter, rfl, ?_⟩
    simp
  addressable := by simpa using hmem
  bkg _ := by
    refine ⟨_, rfl, ?_⟩
    have hone : (Dataspace.all [1]).npoints = 1 := by decide
    simp [hone]

/-- The selection is left if the buffer is reused for elements that shrink. -/
theorem within_iff (env : Env) (hsrc : 0 < src.size) (hdst : dst.size < 18446744073709551616)
    (above : Bool) :
    Within env src dst above ↔ ¬ (Converts src dst ∧ above = true ∧ dst.size < src.size) := by
  constructor
  · rintro h ⟨⟨hne, need, fill, hneed⟩, rfl, hlt⟩
    have ht := tconvInit_converts hne hneed true
    obtain ⟨m', hm'⟩ := h _ ht rfl rfl _ _ (contigChunk_single env.iter hdst need) 1 []
      fun _ => none
    have hle := (readConverted_inPlace hsrc ⟨rfl, rfl⟩ rfl
      (contigChunk_single env.iter hdst need) 1 [] fun _ => none).mp ⟨m', hm'⟩
    exact absurd hle (not_le.mpr hlt)
  · intro hnot t ht hequal hreuse info m hchunk numElemChunk key σ
    have hconverts : Converts src dst := by
      by_contra hnone
      rw [(tconvInit_not_converts hnone ht).1] at hequal
      cases hequal
    obtain ⟨hne, need, fill, hneed⟩ := hconverts
    rw [tconvInit_converts hne hneed above] at ht
    obtain rfl := Option.some.inj ht
    -- only a size variable above the other one allows the reuse
    have habove : above = true := by
      cases above with
      | true => rfl
      | false =>
        cases need with
        | true => cases hreuse
        | false => cases hreuse
    have hle : src.size ≤ dst.size :=
      not_lt.mp fun hlt => hnot ⟨⟨hne, need, fill, hneed⟩, habove, hlt⟩
    exact (readConverted_inPlace hsrc ⟨rfl, rfl⟩ hreuse hchunk numElemChunk key σ).mpr hle

/-- **Conversion in place.**  For any two types, wherever the sizes lie: the buffer is reused only
if it is large enough, the types decide alone and a conversion in the buffer of the application
stays in the selection if and only if the types are not converted.  For given places, the
selection is left if and only if the types are converted, the size of the elements in memory lies
above that of the file, and it is smaller. -/
theorem in_place_iff (env : Env) (hsrc : 0 < src.size) (hdst : dst.size < 18446744073709551616) :
    (SizesDecide src dst ∧ (∀ above, Within env src dst above) ↔ ¬ Converts src dst) ∧
    ∀ above, Within env src dst above ↔
      ¬ (Converts src dst ∧ above = true ∧ dst.size < src.size) := by
  refine ⟨⟨fun h => sizesDecide_iff.mp h.1, fun h => ⟨sizesDecide_iff.mpr h, fun above => ?_⟩⟩,
    within_iff env hsrc hdst⟩
  exact (within_iff env hsrc hdst above).mpr fun hconverts => h hconverts.1

/-! ## An integer that shrinks -/

def int64 : Datatype := .atomic .integer 8 0

def int32 : Datatype := .atomic .integer 4 0

/-- A conversion to zeros. -/
def toZeros : Env := ⟨elementwise, fun _ _ _ _ _ => ⟨fun _ => 0, fun _ => 0⟩, fun _ => 0, true⟩

/-- The four bytes of the application are reused for an integer of eight, if `mem_type_size` lies
above `file_type_size`. -/
theorem shrinking_overruns :
    tconvInit true int64 (some int32) .init = some ⟨8, 4, false, false, false, .tconv⟩ ∧
    tconvInit false int64 (some int32) .init = some ⟨8, 4, false, false, false, .none⟩ ∧
    readConverted toZeros int64 int32 ⟨8, 4, false, false, false, .tconv⟩ 1
      ⟨[0], .all [1], .all [1]⟩ [] (fun _ => some [1, 2, 3, 4, 5, 6, 7, 8])
      ⟨[0, 0, 0, 0], .null, .null⟩ = .error .fault ∧
    ¬ (SizesDecide int64 int32 ∧ ∀ above, Within toZeros int64 int32 above) := by
  have habove : tconvInit true int64 (some int32) .init =
      some ⟨8, 4, false, false, false, .tconv⟩ := by decide
  refine ⟨habove, by decide, by decide +kernel, ?_⟩
  rintro ⟨hsizes, -⟩
  have hle := hsizes.large true _ habove rfl
  exact absurd hle (by decide)

theorem in_place_iff_int32 :
    (SizesDecide int64 int32 ∧ (∀ above, Within toZeros int64 int32 above) ↔
      ¬ Converts int64 int32) ∧
    ∀ above, Within toZeros int64 int32 above ↔
      ¬ (Converts int64 int32 ∧ above = true ∧ int32.size < int64.size) :=
  in_place_iff toZeros (by decide) (by decide)

end DTIO.Properties.InPlaceConversion
