import DTIO.Properties.JoinedReads

/-!
# Several Datasets in one Call

A call of `H5VL_dtio_dataset_write` or `H5VL_dtio_dataset_read` with several datasets, and calls
with one dataset each.  The loop returns at the first empty selection, and `chunk_oid` is freed at
the end of an iteration and used in the next one.

## Main results

- `multi_iff`: exactly when one call is as good as several
- `not_as_singles`: two datasets of one byte
-/

namespace DTIO.Properties.MultiDataset

open DTIO.Posix DTIO.Grid DTIO.Memory DTIO.Vol
open DTIO.Properties.ChunkedStorage DTIO.Properties.DatasetReads
open DTIO.Properties.JoinedWrites DTIO.Properties.JoinedReads

/-- **When a transfer of several datasets equals single transfers.**  A write does, for datasets
that can each be written by a call of its own, if and only if no dataset but the first one has a
selection.  A read does, for datasets that can each be read by a call of its own, if and only if
the first or the second dataset has no selection and no dataset but the first one is asked for
anything. -/
theorem multi_iff (rs : List Request) :
    ((∀ r ∈ rs, Writable r) →
      (WritesAsSingles rs ↔ ∀ r ∈ rs.tail, r.realFileSpace.npoints = 0)) ∧
    ((∀ r ∈ rs, Readable r) →
      (ReadsAsSingles rs ↔ FirstOrSecondEmpty rs ∧ ∀ r ∈ rs.tail, ¬ Moves r)) := by
  refine ⟨fun hw => ⟨empty_of_writesAsSingles hw, writesAsSingles_of_empty⟩, fun hr => ⟨?_, ?_⟩⟩
  · exact fun h => ⟨firstOrSecondEmpty_of_readsAsSingles hr h, idle_of_readsAsSingles hr h⟩
  · rintro ⟨hends, hidle⟩
    exact readsAsSingles_of_idle hends hidle

/-! ## Two datasets of one byte -/

/-- A dataset of one byte. -/
def oneByte (binOid : UInt64) : ArrayDataset where
  fileName := ['f']
  binOid := binOid.toNat
  extent := [1]
  layout := .contiguous
  type := .atomic .integer 1 0
  rank_le := of_decide_eq_true rfl
  count := of_decide_eq_true rfl
  type_pos := Nat.one_pos
  binOid_lt := binOid.toNat_lt
  supported := Or.inr (Or.inl rfl)

/-- A buffer of sevens. -/
def sevens : Buffer := fun _ => 7

/-- One byte, selected or not. -/
def byteSpace (selected : Bool) : Dataspace := ⟨[1], if selected then [[0]] else []⟩

theorem valid_byteSpace (selected : Bool) : (byteSpace selected).Valid := by
  cases selected
  · exact valid_column rfl (by decide) (by decide)
  · exact valid_column rfl (by decide) (by decide)

theorem npoints_byteSpace (selected : Bool) :
    (byteSpace selected).npoints * 1 < 18446744073709551616 := by
  cases selected <;> decide

theorem shapeSame_byteSpace (selected : Bool) :
    (byteSpace selected).shapeSame (byteSpace selected) = true := by
  cases selected <;> rfl

/-- A write of this byte, from one byte of memory. -/
def byteWrite (binOid : UInt64) (selected : Bool) : ArrayWrite (oneByte binOid) where
  fileSpace := some (byteSpace selected)
  memSpace := some (byteSpace selected)
  buf := sevens
  file_valid := valid_byteSpace selected
  file_extent := rfl
  mem_valid := valid_byteSpace selected
  mem_rank := rfl
  same_shape := shapeSame_byteSpace selected
  bytes_lt := npoints_byteSpace selected

def byteRequest (binOid : UInt64) (selected : Bool) : Request := (byteWrite binOid selected).req

theorem writable_byteRequest (binOid : UInt64) (selected : Bool) :
    Writable (byteRequest binOid selected) := writable_of_arrayWrite (byteWrite binOid selected)

/-- A write of the byte of a dataset from two-byte integers. -/
def wideRequest (binOid : UInt64) : Request :=
  ⟨(oneByte binOid).toDataset, .atomic .integer 2 0, some (byteSpace true), some (byteSpace true)⟩

theorem writable_wideRequest (binOid : UInt64) : Writable (wideRequest binOid) :=
  writable_of_conversion (Or.inr rfl) (show 1 ≤ 99 by decide) Nat.one_pos Nat.two_pos nofun rfl
    (valid_byteSpace true) rfl le_rfl (show 1 * max 1 2 < 18446744073709551616 by decide)

/-- A read of this byte. -/
def byteRead (binOid : UInt64) (selected : Bool) : ArrayRead (oneByte binOid) where
  memType := .atomic .integer 1 0
  file := byteSpace selected
  mem := byteSpace selected
  file_valid := valid_byteSpace selected
  file_extent := rfl
  mem_valid := valid_byteSpace selected
  mem_rank := rfl
  same_shape := shapeSame_byteSpace selected
  bytes_lt := npoints_byteSpace selected

theorem readable_byteRequest (binOid : UInt64) (selected : Bool) :
    Readable (byteRequest binOid selected) := by
  refine readable_of_arrayRead (byteRead binOid selected) ?_
  unfold ArrayRead.Room
  cases selected
  · exact nofun
  · intro m hm
    obtain rfl := List.mem_singleton.mp hm
    show 1 ≤ 8
    exact of_decide_eq_true rfl

/-- Of two datasets with a selection, the name of the second one is written into freed memory;
after an empty selection, no dataset is written or read. -/
theorem not_as_singles :
    (∀ b selected, Writable (byteRequest b selected) ∧ Readable (byteRequest b selected)) ∧
      datasetWrite plain [(byteRequest 1 true, sevens), (byteRequest 2 true, sevens)]
        .init (fun _ => none) = .error .fault ∧
      datasetRead plain (ones 1) [byteRequest 1 true, byteRequest 2 true] .init
        (target [entry, entry]) = .error .fault ∧
      ¬ WritesAsSingles [byteRequest 1 true, byteRequest 2 true] ∧
      ¬ WritesAsSingles [byteRequest 1 false, byteRequest 2 true] ∧
      ¬ ReadsAsSingles [byteRequest 1 true, byteRequest 2 true] ∧
      ¬ ReadsAsSingles [byteRequest 1 false, byteRequest 2 true] := by
  have hfault : datasetWrite plain
      [(byteRequest 1 true, sevens), (byteRequest 2 true, sevens)] .init
        (fun _ => none) = .error .fault := rfl
  have hfault' : datasetRead plain (ones 1) [byteRequest 1 true, byteRequest 2 true] .init
      (target [entry, entry]) = .error .fault := rfl
  refine ⟨fun b selected => ⟨writable_byteRequest b selected, readable_byteRequest b selected⟩,
    hfault, hfault', fun h => ?_, fun h => ?_, fun h => ?_, fun h => ?_⟩
  · have hwritable : ∀ t ∈ [(byteRequest 1 true, sevens), (byteRequest 2 true, sevens)],
        Writable t.1 := by simp [writable_byteRequest]
    obtain ⟨σ', hsingle⟩ := singleWrites_ok hwritable plain fun _ => none
    obtain ⟨x, hx, -⟩ := h.effect plain _ _ _ rfl hsingle
    rw [hfault] at hx
    cases hx
  · -- one call leaves the store empty, two calls do not
    obtain ⟨x, hx, hσ'⟩ := h.effect plain
      [(byteRequest 1 false, sevens), (byteRequest 2 true, sevens)] (fun _ => none) _ rfl rfl
    cases hx
    have hbyte := congrFun hσ' (chunkName ['f'] 2 1 [0])
    cases hbyte
  · have hreadable : ∀ t ∈ [(byteRequest 1 true, entry), (byteRequest 2 true, entry)],
        Readable t.1 := by simp [readable_byteRequest]
    obtain ⟨w, hsingle⟩ := singleReads_ok hreadable plain (ones 1)
    obtain ⟨x, hx, -⟩ := h.effect plain _ _ _ rfl hsingle
    cases hfault'.symm.trans hx
  · -- one call leaves two null pointers, of two calls the second one reads a one
    obtain ⟨x, hx, hw⟩ := h.effect plain (ones 1)
      [(byteRequest 1 false, entry), (byteRequest 2 true, entry)] _ rfl rfl
    cases hx
    have hbyte := congrArg (fun w => w.array[8]?) hw
    cases hbyte

theorem multi_iff_bytes :
    WritesAsSingles [byteRequest 1 true, byteRequest 2 false] ∧
      ¬ WritesAsSingles [byteRequest 1 false, byteRequest 2 true] ∧
      ¬ WritesAsSingles [wideRequest 1, wideRequest 2] ∧
      ReadsAsSingles [byteRequest 1 true, byteRequest 2 false] ∧
      ¬ ReadsAsSingles [byteRequest 1 true, byteRequest 2 true] ∧
      ¬ ReadsAsSingles [byteRequest 1 false, byteRequest 2 true] := by
  have hmoves : Moves (byteRequest 2 true) := by decide
  refine ⟨?_, fun h => ?_, fun h => ?_, ?_, fun h => ?_, fun h => ?_⟩
  -- the second write selects nothing, so it may as well be left out
  · refine ((multi_iff _).1 ?_).mpr ?_
    · simp [writable_byteRequest]
    · intro r hr
      obtain rfl := List.mem_singleton.mp hr
      rfl
  -- the second write selects a byte
  · have hempty := ((multi_iff _).1 (by simp [writable_byteRequest])).mp h (byteRequest 2 true)
      (List.mem_singleton_self _)
    cases hempty
  -- the same with a conversion
  · have hempty := ((multi_iff _).1 (by simp [writable_wideRequest])).mp h (wideRequest 2)
      (List.mem_singleton_self _)
    cases hempty
  -- the second read selects nothing and moves nothing
  · refine ((multi_iff _).2 (by simp [readable_byteRequest])).mpr ⟨?_, fun r hr => ?_⟩
    · intro r₁ r₂ rest heq
      cases heq
      exact .inr rfl
    · obtain rfl := List.mem_singleton.mp hr
      decide
  -- the second read asks for a byte, here and behind an empty selection
  · have hidle := ((multi_iff _).2 (by simp [readable_byteRequest])).mp h
    exact hidle.2 _ (List.mem_singleton_self _) hmoves
  · have hidle := ((multi_iff _).2 (by simp [readable_byteRequest])).mp h
    exact hidle.2 _ (List.mem_singleton_self _) hmoves

end DTIO.Properties.MultiDataset
