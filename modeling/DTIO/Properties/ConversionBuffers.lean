import DTIO.Properties.DatasetLoop
import DTIO.Properties.PartialCompound

/-!
# The Buffers of a Conversion

A write with a conversion has two buffers, which are allocated before the loop over the chunks:
`tconv_buf` for the elements of the first chunk with the larger of both types, and `bkg_buf` for
the elements of the first chunk with the type in memory.  Each chunk then uses them for the
elements that are selected in it, and `bkg_buf` with the type in the file.

## Main definitions

- `Admitted`: requests as HDF5 admits them
- `BuffersSuffice`: no chunk leaves the buffers
- `Room`: the sizes that the buffers need

## Main results

- `chunks_of_select`: the elements of the chunks that are found
- `suffice_run`: the buffers in a run over the chunks
- `buffers_suffice_iff`: exactly when the buffers suffice
-/

namespace DTIO.Properties.ConversionBuffers

open DTIO.Posix DTIO.Grid DTIO.MachineInt DTIO.Memory DTIO.Vol
open DTIO.Properties.DatasetLoop

/-! ## Requests and buffers -/

/-- A request with dataspaces and chunks of sizes that HDF5 admits.  Nothing relates the two
selections. -/
structure Admitted (r : Request) : Prop where
  file : r.realFileSpace.Valid
  mem : r.realMemSpace.Valid
  chunks : ∀ c, r.dset.layout = .chunked c → Positive c ∧ c.prod < 4294967296
  type_pos : 0 < r.dset.type.size

/-- Two buffers of one size, or the same pointer. -/
def SameSize : Ptr (List Byte) → Ptr (List Byte) → Prop
  | .live a, .live b => a.length = b.length
  | p, q => p = q

/-- The buffers of an iteration that starts with the variables `L` suffice: the background is
there if it is filled, and no chunk whose operation is built leaves a buffer, whatever the
buffers, the memory of the application and the store have. -/
def BuffersSuffice (env : Env) (r : Request) (L : WriteLocals) : Prop :=
  ∀ t infos first closeSpaces, r.realFileSpace.npoints ≠ 0 →
    tconvInit env.dstAbove r.dset.type (some r.memType) L.tconv = some t →
    t.typesEqual = false →
    selectChunks r r.realFileSpace r.realMemSpace L.chunkInfo L.closeSpaces =
      .ok (.live infos, closeSpaces) → infos.head? = some first →
    (t.fillBkg = true → ∃ b, (allocate env t first L).bkgBuf = .live b) ∧
    ∀ info ∈ infos, (∃ op, buildIoOpContig env.iter info.fspace t.srcTypeSize
        info.mspace.npoints = .ok op) →
      ∀ tconvBuf bkgBuf, SameSize (allocate env t first L).tconvBuf tconvBuf →
        SameSize (allocate env t first L).bkgBuf bkgBuf →
        ∀ buf key σ, ∃ done,
          writeConverted env r buf t info key tconvBuf bkgBuf σ = .ok done

/-! ## When they do -/

/-- The types are converted, with what the iterations before have left in `t`. -/
def Convertible (r : Request) (t : Tconv) : Prop :=
  r.dset.type ≠ r.memType ∧ t.fillBkg = false ∧
    match needBkg r.dset.type r.memType with
    | .aborts => False
    | .fails => t.typesEqual = false
    | .returns _ _ => t.reuse = .none

/-- Whether the conversion has a background. -/
def hasBackground (r : Request) (t : Tconv) : Bool :=
  match needBkg r.dset.type r.memType with
  | .returns need _ => need
  | _ => t.needBkg

/-- The operations of the chunks are built. -/
def Built (iter : SelIter) (r : Request) : Prop :=
  match r.dset.layout with
  | .compact | .contiguous => ∃ op, buildIoOpContig iter r.realFileSpace r.dset.type.size
      r.realMemSpace.npoints = .ok op
  | .chunked c => c.length = r.realFileSpace.extent.length ∧
      r.realMemSpace.extent.length = r.realFileSpace.extent.length ∧
      r.realFileSpace.shapeSame r.realMemSpace = true
  | .other => False

/-- The elements of a chunk. -/
def blockCount (r : Request) : Nat :=
  match r.dset.layout with
  | .chunked c => c.prod
  | _ => r.realFileSpace.extent.prod

/-- The elements that are written with the one at `x`. -/
def writtenWith (r : Request) (x : Coord) : Nat :=
  match r.dset.layout with
  | .chunked c =>
    (r.realFileSpace.points.filter fun y => decide (blockStart c y = blockStart c x)).length
  | _ => r.realMemSpace.npoints

/-- What is allocated is enough for the elements of each chunk: for both types, and with a
background for the type in the file. -/
def Room (r : Request) (background : Bool) : Prop :=
  ∀ x ∈ r.realFileSpace.points,
    writtenWith r x * max r.dset.type.size r.memType.size ≤
      toUnsigned64 ((blockCount r * max r.dset.type.size r.memType.size : Nat) : Int) ∧
    (background = true → writtenWith r x * r.dset.type.size ≤
      toUnsigned64 ((blockCount r * r.memType.size : Nat) : Int))

/-! ## The conversion -/

section Conversion

variable {r : Request} {t t' : Tconv} {above : Bool}

/-- A background that is filled is needed. -/
theorem needBkg_fill {need : Bool} :
    ∀ {src dst : Datatype}, needBkg src dst = .returns need true → need = true
  | _, .atomic .., h => nomatch h
  | _, .compound .., h => needBkgMembers_needs h
  | src, .array _ base, h => by
    unfold needBkg at h
    cases hsuper : src.super with
    | none =>
      rw [hsuper] at h
      cases h
    | some src' =>
      rw [hsuper] at h
      exact needBkg_fill h
  | _, .reference _, h => nomatch h
  | _, .vlen .., h => nomatch h

/-- The variables of the conversion of a request. -/
structure Describes (r : Request) (t t' : Tconv) : Prop where
  sizes : t'.srcTypeSize = r.dset.type.size ∧ t'.dstTypeSize = r.memType.size
  needBkg : t'.needBkg = hasBackground r t
  fillBkg : t'.fillBkg = true → t'.needBkg = true

/-- Types that are converted are convertible. -/
theorem tconvInit_convertible
    (h : tconvInit above r.dset.type (some r.memType) t = some t')
    (hequal : t'.typesEqual = false) : Convertible r t ∧ Describes r t t' := by
  cases hfill : t.fillBkg with
  | true => simp [tconvInit, hfill] at h
  | false =>
    -- equal types: no conversion, against `hequal`
    by_cases hne : r.dset.type = r.memType
    · simp only [tconvInit, hfill, hne, Bool.false_eq_true, if_false, if_true] at h
      obtain rfl := Option.some.inj h
      cases hequal
    · unfold Convertible
      simp only [tconvInit, hfill, if_neg hne, Bool.false_eq_true, if_false] at h
      cases hneed : needBkg r.dset.type r.memType with
      -- the analysis aborts, or fails and then asks for no background, or answers
      | aborts =>
        rw [hneed] at h
        cases h
      | fails =>
        simp only [hneed] at h
        obtain rfl := Option.some.inj h
        refine ⟨⟨hne, hfill, hequal⟩, ⟨rfl, rfl⟩, ?_, ?_⟩
        · simp [hasBackground, hneed]
        · intro hfilled
          cases hfilled
      | returns need fill =>
        simp only [hneed] at h
        split at h
        · cases h
        -- it answers, and the assertion on `reuse` holds
        next hreuse =>
          obtain rfl := Option.some.inj h
          refine ⟨⟨hne, hfill, not_not.mp hreuse⟩, ⟨rfl, rfl⟩, ?_, ?_⟩
          · simp [hasBackground, hneed]
          · rintro rfl
            exact needBkg_fill hneed

theorem exists_tconvInit (h : Convertible r t) (above : Bool) :
    ∃ t', tconvInit above r.dset.type (some r.memType) t = some t' ∧ t'.typesEqual = false := by
  obtain ⟨hne, hfill, h⟩ := h
  cases hneed : needBkg r.dset.type r.memType with
  | aborts =>
    rw [hneed] at h
    exact h.elim
  | fails =>
    rw [hneed] at h
    have hequal : t.typesEqual = false := h
    simp [tconvInit, hfill, hne, hneed, hequal]
  | returns need fill =>
    rw [hneed] at h
    have hreuse : t.reuse = .none := h
    simp [tconvInit, hfill, hne, hneed, hreuse]

end Conversion

/-! ## The chunks -/

section Chunks

variable {r : Request} {L : WriteLocals} {env : Env} {infos : List ChunkInfo} {closeSpaces : Bool}

/-- The chunk of the element at `x`. -/
structure ChunkAt (r : Request) (x : Coord) (info : ChunkInfo) : Prop where
  valid : info.fspace.Valid
  elements : info.fspace.extentNpoints = blockCount r
  count : info.mspace.npoints = writtenWith r x
  small : info.mspace.npoints < 18446744073709551616

theorem lt_of_valid {s : Dataspace} (hs : s.Valid) : s.npoints < 18446744073709551616 :=
  hs.selected.trans (by decide)

/-- A dataset that is not chunked has all elements in one chunk. -/
theorem chunkAt_whole (hr : Admitted r)
    (h : r.dset.layout = .compact ∨ r.dset.layout = .contiguous) (x : Coord) :
    ChunkAt r x ⟨List.replicate maxRank 0, r.realMemSpace, r.realFileSpace⟩ := by
  refine ⟨hr.file, ?_, ?_, lt_of_valid hr.mem⟩
  · unfold blockCount
    rcases h with h | h
    · rw [h]
      rfl
    · rw [h]
      rfl
  · unfold writtenWith
    rcases h with h | h
    · rw [h]
    · rw [h]

/-- Selections whose chunks are found. -/
theorem compatible {c : Coord} (hr : Admitted r) (hne : r.realFileSpace.npoints ≠ 0)
    (h : r.dset.layout = .chunked c) (hrank : c.length = r.realFileSpace.extent.length)
    (hmem : r.realMemSpace.extent.length = r.realFileSpace.extent.length)
    (hshape : r.realFileSpace.shapeSame r.realMemSpace = true) :
    Compatible c r.realFileSpace r.realMemSpace where
  fileValid := hr.file
  memValid := hr.mem
  pos := (hr.chunks c h).1
  small := (hr.chunks c h).2
  chunkRank := hrank
  memRank := hmem
  sameShape := hshape
  nonempty := fun hnil => hne (by rw [Dataspace.npoints, hnil, List.length_nil])

/-- One of the chunks of a chunked dataset. -/
theorem chunkAt_chunked {c : Coord} {info : ChunkInfo}
    (hcompat : Compatible c r.realFileSpace r.realMemSpace) (h : r.dset.layout = .chunked c)
    (hi : ChunkOf c r.realFileSpace r.realMemSpace info) {x : Coord}
    (hx : blockStart c x = info.chunkCoords) : ChunkAt r x info := by
  have hsmall : c.prod < 9223372036854775808 := hcompat.small.trans (by decide)
  refine ⟨hi.fspace_valid hcompat.enumerable hsmall, ?_, ?_, lt_of_valid (hi.mspace_valid hcompat)⟩
  · unfold blockCount
    rw [h, hi.fspace]
    rfl
  · unfold writtenWith
    rw [hi.npoints_mspace hcompat, hi.npoints_fspace, h]
    simp only [hx]

/-- The operation of a dataset that is not chunked. -/
theorem built_whole {iter : SelIter}
    (h : r.dset.layout = .compact ∨ r.dset.layout = .contiguous) :
    Built iter r ↔ ∃ op, buildIoOpContig iter r.realFileSpace r.dset.type.size
      r.realMemSpace.npoints = .ok op := by
  unfold Built
  rcases h with h | h
  · rw [h]
  · rw [h]

/-- The chunk of a dataset that is not chunked. -/
theorem chunk_of_whole {iter : SelIter} (hr : Admitted r) (hne : r.realFileSpace.npoints ≠ 0)
    (hl : r.dset.layout = .compact ∨ r.dset.layout = .contiguous)
    (h : selectChunks r r.realFileSpace r.realMemSpace L.chunkInfo L.closeSpaces =
      .ok (.live infos, closeSpaces)) {info : ChunkInfo} (hinfo : info ∈ infos) :
    (∃ x ∈ r.realFileSpace.points, ChunkAt r x info) ∧
      ((∃ op, buildIoOpContig iter info.fspace r.dset.type.size info.mspace.npoints =
        .ok op) → Built iter r) := by
  obtain ⟨x, hx⟩ := List.exists_mem_of_length_pos (Nat.pos_of_ne_zero hne)
  rw [selectChunks_whole hl] at h
  cases h
  rw [List.mem_singleton] at hinfo
  subst hinfo
  exact ⟨⟨x, hx, chunkAt_whole hr hl x⟩, (built_whole hl).mpr⟩

/-- **The chunks that are found** have the elements that are written with one of theirs; where the
operation of one is built, those of all are. -/
theorem chunks_of_select (iter : SelIter) (hr : Admitted r) (hne : r.realFileSpace.npoints ≠ 0)
    (hL : ∀ infos, L.chunkInfo ≠ .live infos)
    (h : selectChunks r r.realFileSpace r.realMemSpace L.chunkInfo L.closeSpaces =
      .ok (.live infos, closeSpaces)) {info : ChunkInfo} (hinfo : info ∈ infos) :
    (∃ x ∈ r.realFileSpace.points, ChunkAt r x info) ∧
      ((∃ op, buildIoOpContig iter info.fspace r.dset.type.size info.mspace.npoints =
        .ok op) → Built iter r) := by
  cases hl : r.dset.layout with
  | compact => exact chunk_of_whole hr hne (Or.inl hl) h hinfo
  | contiguous => exact chunk_of_whole hr hne (Or.inr hl) h hinfo
  | chunked c =>
    unfold selectChunks at h
    simp only [hl] at h
    cases hfound : getSelectedChunkInfo c r.realFileSpace r.realMemSpace with
    | error e =>
      rw [hfound] at h
      cases e with
      -- `chunk_info` stays as it was, which is no array
      | fail => exact absurd (congrArg Prod.fst (Except.ok.inj h)) (hL infos)
      | fault => cases h
    | ok infos' =>
      rw [hfound] at h
      obtain rfl : infos' = infos := Ptr.live.inj (congrArg Prod.fst (Except.ok.inj h))
      obtain ⟨hmem, hrank, hshape⟩ := getSelectedChunkInfo_ok hne hfound
      have hcompat := compatible hr hne hl hrank hmem hshape
      obtain ⟨_, hok, -, -, hinfos⟩ := hcompat.enumerable.getSelectedChunkInfo_spec
      obtain rfl := Except.ok.inj (hfound.symm.trans hok)
      obtain ⟨hi, p, hp, hstart⟩ := hinfos info hinfo
      refine ⟨⟨p, hp, chunkAt_chunked hcompat hl hi hstart⟩, fun _ => ?_⟩
      unfold Built
      rw [hl]
      exact ⟨hrank, hmem, hshape⟩
  | other =>
    unfold selectChunks at h
    simp only [hl] at h
    exact absurd (congrArg Prod.fst (Except.ok.inj h)) (hL infos)

/-- Chunks that are found, where each element has one with an operation. -/
def Found (iter : SelIter) (r : Request) (L : WriteLocals) : Prop :=
  ∃ infos closeSpaces, selectChunks r r.realFileSpace r.realMemSpace L.chunkInfo L.closeSpaces =
      .ok (.live infos, closeSpaces) ∧
    ∀ x ∈ r.realFileSpace.points, ∃ info ∈ infos, ChunkAt r x info ∧
      ∃ op, buildIoOpContig iter info.fspace r.dset.type.size info.mspace.npoints = .ok op

/-- A dataset that is not chunked has one chunk. -/
theorem found_whole {iter : SelIter} (hr : Admitted r)
    (hl : r.dset.layout = .compact ∨ r.dset.layout = .contiguous) (hbuilt : Built iter r)
    (L : WriteLocals) : Found iter r L := by
  refine ⟨_, _, selectChunks_whole hl .., fun x _ => ?_⟩
  exact ⟨_, List.mem_singleton_self _, chunkAt_whole hr hl x, (built_whole hl).mp hbuilt⟩

/-- Where operations are built, the chunks are found. -/
theorem found_of_built {iter : SelIter} (hr : Admitted r) (hne : r.realFileSpace.npoints ≠ 0)
    (hbuilt : Built iter r) (L : WriteLocals) : Found iter r L := by
  cases hl : r.dset.layout with
  | compact => exact found_whole hr (Or.inl hl) hbuilt L
  | contiguous => exact found_whole hr (Or.inr hl) hbuilt L
  | chunked c =>
    unfold Built at hbuilt
    rw [hl] at hbuilt
    obtain ⟨hrank, hmem, hshape⟩ := hbuilt
    have hcompat := compatible hr hne hl hrank hmem hshape
    obtain ⟨infos, hok, -, hcovers, hinfos⟩ := hcompat.enumerable.getSelectedChunkInfo_spec
    refine ⟨infos, true, ?_, ?_⟩
    · unfold selectChunks
      simp only [hl, hok]
    · intro x hx
      obtain ⟨info, hinfo, hcoords⟩ := List.mem_map.mp (hcovers x hx)
      obtain ⟨hi, hp⟩ := hinfos info hinfo
      have hsmall : c.prod < 9223372036854775808 := hcompat.small.trans (by decide)
      obtain ⟨runs, hop, -⟩ := buildIoOpContig_spec iter
        (hi.fspace_valid hcompat.enumerable hsmall) hr.type_pos (hi.npoints_pos hp)
      refine ⟨info, hinfo, chunkAt_chunked hcompat hl hi hcoords.symm, ?_⟩
      -- as many elements are selected in memory
      rw [hi.npoints_mspace hcompat]
      exact ⟨_, hop⟩
  | other =>
    unfold Built at hbuilt
    rw [hl] at hbuilt
    exact hbuilt.elim

end Chunks

/-! ## The sizes -/

section Sizes

variable {env : Env} {r : Request} {L : WriteLocals} {t t' : Tconv} {first : ChunkInfo}

theorem SameSize.refl (p : Ptr (List Byte)) : SameSize p p := by
  cases p with
  | live a => exact Eq.refl a.length
  | null => rfl
  | freed => rfl

theorem SameSize.exists_live {a : List Byte} {p : Ptr (List Byte)} (h : SameSize (.live a) p) :
    ∃ b, p = .live b ∧ b.length = a.length := by
  cases p with
  | live b => exact ⟨b, rfl, Eq.symm h⟩
  | null => cases h
  | freed => cases h

theorem SameSize.trans {p q s : Ptr (List Byte)} (h : SameSize p q) (h' : SameSize q s) :
    SameSize p s := by
  cases p with
  | live a =>
    obtain ⟨b, rfl, hb⟩ := h.exists_live
    obtain ⟨c, rfl, hc⟩ := h'.exists_live
    exact (hc.trans hb).symm
  | null =>
    cases q with
    | null => exact h'
    | live b => cases h
    | freed => cases h
  | freed =>
    cases q with
    | freed => exact h'
    | live b => cases h
    | null => cases h

/-- Buffers as they were allocated have room for `n` elements. -/
theorem hasRoom_iff (ht : Describes r t t') (hequal : t'.typesEqual = false)
    (hfirst : first.fspace.extentNpoints = blockCount r) {n : Nat}
    {tconvBuf bkgBuf : Ptr (List Byte)}
    (htconv : SameSize (allocate env t' first L).tconvBuf tconvBuf)
    (hbkg : SameSize (allocate env t' first L).bkgBuf bkgBuf) :
    HasRoom t' n tconvBuf bkgBuf ↔
      n * max r.dset.type.size r.memType.size ≤
        toUnsigned64 ((blockCount r * max r.dset.type.size r.memType.size : Nat) : Int) ∧
      (hasBackground r t = true → n * r.dset.type.size ≤
        toUnsigned64 ((blockCount r * r.memType.size : Nat) : Int)) := by
  -- both buffers are those `allocate` made, up to what is in them
  simp only [allocate, hequal, hfirst, ht.sizes.1, ht.sizes.2, ht.needBkg, Bool.false_eq_true,
    if_false] at htconv hbkg
  obtain ⟨m, rfl, hm⟩ := htconv.exists_live
  rw [mallocSize, length_malloc] at hm
  constructor
  · rintro ⟨⟨_, hlive, helements⟩, hbackground⟩
    cases hlive
    rw [ht.sizes.1, ht.sizes.2, hm] at helements
    refine ⟨helements, fun hneed => ?_⟩
    -- with background, its buffer is of the memory type's size for each element
    rw [if_pos hneed] at hbkg
    obtain ⟨b, rfl, hb⟩ := hbkg.exists_live
    rw [mallocSize, length_malloc] at hb
    obtain ⟨_, hlive, hle⟩ := hbackground (ht.needBkg.trans hneed)
    cases hlive
    rwa [ht.sizes.1, hb] at hle
  -- back: the same lengths, read the other way
  · rintro ⟨helements, hbackground⟩
    refine ⟨⟨m, rfl, ?_⟩, fun hneed => ?_⟩
    · rwa [ht.sizes.1, ht.sizes.2, hm]
    · rw [ht.needBkg] at hneed
      rw [if_pos hneed] at hbkg
      obtain ⟨b, rfl, hb⟩ := hbkg.exists_live
      rw [mallocSize, length_malloc] at hb
      refine ⟨b, rfl, ?_⟩
      rw [ht.sizes.1, hb]
      exact hbackground hneed

end Sizes

/-! ## A run over the chunks -/

section Run

variable {env : Env} {r : Request} {buf : Buffer} {single : Bool}

/-- A chunk leaves buffers of the same sizes. -/
theorem writeChunk_sizes {s s' : WriteLocals × Store} {info : ChunkInfo}
    (h : writeChunk env r buf single s info = .ok s') :
    SameSize s.1.tconvBuf s'.1.tconvBuf ∧ SameSize s.1.bkgBuf s'.1.bkgBuf := by
  unfold writeChunk at h
  obtain ⟨_, -, h⟩ := bind_eq_ok.mp h
  obtain ⟨key, -, h⟩ := bind_eq_ok.mp h
  split at h
  · obtain ⟨_, -, h⟩ := bind_eq_ok.mp h
    cases h
    exact ⟨.refl _, .refl _⟩
  · obtain ⟨done, hdone, h⟩ := bind_eq_ok.mp h
    cases h
    obtain ⟨⟨m, hm, hlen⟩, hbkg⟩ := length_writeConverted hdone
    rw [hm]
    refine ⟨Eq.symm hlen, ?_⟩
    cases hb : done.2.1 with
    | none => exact .refl _
    | some b' =>
      obtain ⟨b, hlive, hlen⟩ := hbkg b' hb
      rw [hlive]
      exact Eq.symm hlen

/-- So do several chunks. -/
theorem writeChunks_sizes {infos : List ChunkInfo} :
    ∀ {s s' : WriteLocals × Store}, infos.foldlM (writeChunk env r buf single) s = .ok s' →
      SameSize s.1.tconvBuf s'.1.tconvBuf ∧ SameSize s.1.bkgBuf s'.1.bkgBuf := by
  induction infos with
  | nil =>
    intro s s' h
    cases h
    exact ⟨.refl _, .refl _⟩
  | cons info infos ih =>
    intro s s' h
    obtain ⟨s₁, hs₁, h⟩ := bind_eq_ok.mp h
    have hfirst := writeChunk_sizes hs₁
    have hrest := ih h
    exact ⟨hfirst.1.trans hrest.1, hfirst.2.trans hrest.2⟩

/-- **The buffers in a run**: if they suffice, the next chunk that is reached does not leave them
either. -/
theorem suffice_run {L L₁ : WriteLocals} (h : BuffersSuffice env r L)
    (hne : r.realFileSpace.npoints ≠ 0) {t : Tconv}
    (ht : tconvInit env.dstAbove r.dset.type (some r.memType) L.tconv = some t)
    (hequal : t.typesEqual = false) {infos before after : List ChunkInfo} {info first : ChunkInfo}
    {closeSpaces : Bool}
    (hselect : selectChunks r r.realFileSpace r.realMemSpace L.chunkInfo L.closeSpaces =
      .ok (.live infos, closeSpaces)) (hfirst : infos.head? = some first)
    (hinfos : infos = before ++ info :: after) {σ σ₁ : Store}
    (hrun : before.foldlM (writeChunk env r buf single) (allocate env t first L, σ) =
      .ok (L₁, σ₁))
    (hop : ∃ op, buildIoOpContig env.iter info.fspace t.srcTypeSize info.mspace.npoints = .ok op)
    (key : Key) :
    ∃ done, writeConverted env r buf t info key L₁.tconvBuf L₁.bkgBuf σ₁ = .ok done := by
  have hinfo : info ∈ infos := by
    rw [hinfos]
    exact List.mem_append_right _ List.mem_cons_self
  obtain ⟨htconv, hbkg⟩ := writeChunks_sizes hrun
  have hchunks := (h t infos first closeSpaces hne ht hequal hselect hfirst).2
  exact hchunks info hinfo hop _ _ htconv hbkg buf key σ₁

end Run

/-! ## Exactly when the buffers suffice -/

section Iff

variable {env : Env} {r : Request} {L : WriteLocals}

/-- No iteration starts with chunks. -/
theorem chunkInfo_of_arrives {before : List (Request × Buffer)} {σ₀ σ : Store}
    (h : Arrives (writeStep env) .init σ₀ before L σ) (infos : List ChunkInfo) :
    L.chunkInfo ≠ .live infos := by
  cases h with
  | start => exact nofun
  | next _ hstep =>
    rw [writeIteration_chunkInfo hstep]
    exact nofun

/-- Where the buffers suffice, there is room. -/
theorem room_of_suffice (hr : Admitted r) (hL : ∀ infos, L.chunkInfo ≠ .live infos)
    (h : BuffersSuffice env r L) (hconvertible : Convertible r L.tconv)
    (hbuilt : Built env.iter r) : Room r (hasBackground r L.tconv) := by
  intro x hx
  have hne : r.realFileSpace.npoints ≠ 0 := (List.length_pos_of_mem hx).ne'
  obtain ⟨t, ht, hequal⟩ := exists_tconvInit hconvertible env.dstAbove
  obtain ⟨-, hdescribes⟩ := tconvInit_convertible ht hequal
  obtain ⟨infos, closeSpaces, hselect, hinfos⟩ := found_of_built hr hne hbuilt L
  obtain ⟨info, hinfo, hat, hop⟩ := hinfos x hx
  obtain ⟨first, rest, rfl⟩ := List.exists_cons_of_ne_nil (List.ne_nil_of_mem hinfo)
  obtain ⟨⟨y, hy, hfirst⟩, -⟩ := chunks_of_select env.iter hr hne hL hselect List.mem_cons_self
  rw [← hdescribes.sizes.1] at hop
  obtain ⟨done, hdone⟩ := (h t _ first closeSpaces hne ht hequal hselect rfl).2 info hinfo hop
    _ _ (.refl _) (.refl _) (fun _ => 0) [] fun _ => none
  have hroom := writeConverted_room hdescribes.sizes hdone
  rw [hat.count] at hroom
  exact (hasRoom_iff hdescribes hequal hfirst.elements (.refl _) (.refl _)).mp hroom

/-- Where there is room, the buffers suffice. -/
theorem suffice_of_room (hr : Admitted r) (hL : ∀ infos, L.chunkInfo ≠ .live infos)
    (h : Convertible r L.tconv → Built env.iter r → Room r (hasBackground r L.tconv)) :
    BuffersSuffice env r L := by
  intro t infos first closeSpaces hne ht hequal hselect hfirst
  obtain ⟨hconvertible, hdescribes⟩ := tconvInit_convertible ht hequal
  refine ⟨fun hfill => ?_, fun info hinfo hop tconvBuf bkgBuf htconv hbkg buf key σ => ?_⟩
  · exact ⟨_, if_pos (hdescribes.fillBkg hfill)⟩
  · rw [hdescribes.sizes.1] at hop
    obtain ⟨⟨x, hx, hat⟩, hbuilt⟩ := chunks_of_select env.iter hr hne hL hselect hinfo
    obtain ⟨⟨y, hy, hfirst⟩, -⟩ :=
      chunks_of_select env.iter hr hne hL hselect (List.mem_of_mem_head? hfirst)
    have hroom := h hconvertible (hbuilt hop) x hx
    obtain ⟨op, hop'⟩ := hop
    obtain ⟨runs, rfl, hlen⟩ := buildIoOpContig_len env.iter hat.valid hr.type_pos hat.small hop'
    rw [← hdescribes.sizes.1] at hop' hlen
    apply (writeConverted_iff hdescribes.fillBkg hdescribes.sizes hop' hlen).mpr
    apply (hasRoom_iff hdescribes hequal hfirst.elements htconv hbkg).mpr
    rwa [hat.count]

/-- **When the buffers of a conversion suffice.**  For every request, whatever its types, layout
and selections are, and the variables that the iterations before have left: the background is
there if it is filled and no chunk leaves the buffers if and only if, where the types are converted
and the operations are built, the number of elements that are written in each chunk times the
larger size is at most the allocated size of `tconv_buf`, and, with a background, their number
times the size in the file at most that of `bkg_buf`. -/
theorem buffers_suffice_iff (env : Env) (hr : Admitted r) {before : List (Request × Buffer)}
    {σ₀ σ : Store} (hL : Arrives (writeStep env) .init σ₀ before L σ) :
    BuffersSuffice env r L ↔
      (Convertible r L.tconv → Built env.iter r → Room r (hasBackground r L.tconv)) := by
  have hchunks := chunkInfo_of_arrives hL
  constructor
  · exact fun h hconvertible hbuilt => room_of_suffice hr hchunks h hconvertible hbuilt
  · exact suffice_of_room hr hchunks

/-- The sizes of elements that are written once each, if the type in memory is the larger one. -/
theorem room_of_le {background : Bool}
    (honce : ∀ x ∈ r.realFileSpace.points, writtenWith r x ≤ blockCount r)
    (hle : r.dset.type.size ≤ r.memType.size)
    (hsmall : blockCount r * r.memType.size < 18446744073709551616) : Room r background := by
  have hbytes : toUnsigned64 ((blockCount r * r.memType.size : Nat) : Int) =
      blockCount r * r.memType.size := toUnsigned64_of_lt hsmall
  intro x hx
  rw [max_eq_right hle, hbytes]
  have hbound : writtenWith r x * r.memType.size ≤ blockCount r * r.memType.size :=
    Nat.mul_le_mul_right _ (honce x hx)
  exact ⟨hbound, fun _ => (Nat.mul_le_mul_left _ hle).trans hbound⟩

/-- The operation of a dataset that is not chunked is built if as many elements are selected in
memory as in the file. -/
theorem built_of_count (hr : Admitted r)
    (hlayout : r.dset.layout = .compact ∨ r.dset.layout = .contiguous)
    (hcount : r.realMemSpace.npoints = r.realFileSpace.npoints)
    (hne : r.realFileSpace.npoints ≠ 0) : Built env.iter r := by
  obtain ⟨runs, hop, -⟩ :=
    buildIoOpContig_spec env.iter hr.file hr.type_pos (Nat.pos_of_ne_zero hne)
  rw [← hcount] at hop
  exact (built_whole hlayout).mpr ⟨_, hop⟩

end Iff

/-! ## A type that shrinks -/

/-- A write of both elements of a dataset of two-byte elements, from memory with one of their
members in elements of `memSize` bytes. -/
def abRequest (memSize : Nat) : Request :=
  ⟨PartialCompound.abDataset, .compound memSize PartialCompound.aMember, none, none⟩

theorem admitted_abRequest (memSize : Nat) : Admitted (abRequest memSize) := by
  have hsmall : PartialCompound.abDataset.extent.prod < 9223372036854775808 := by decide
  have hpos : 0 < PartialCompound.abDataset.type.size := by decide
  exact ⟨Dataspace.valid_all hsmall, Dataspace.valid_all hsmall, nofun, hpos⟩

/-- `H5Tconvert` of members, where memory is filled with zeros. -/
def copying : Env := ⟨elementwise, PartialCompound.copyMembers, fun _ => 0, true⟩

/-- From packed memory the background is too small: both elements have four bytes in the file, and
two are allocated. -/
theorem packed_overruns :
    Admitted (abRequest 1) ∧ ¬ BuffersSuffice copying (abRequest 1) .init := by
  refine ⟨admitted_abRequest 1, fun h => ?_⟩
  have hbuilt : Built copying.iter (abRequest 1) :=
    built_of_count (admitted_abRequest 1) (Or.inr rfl) rfl (by decide)
  have hconvertible : Convertible (abRequest 1) WriteLocals.init.tconv :=
    ⟨by decide, rfl, rfl⟩
  have hchunks : ∀ infos, WriteLocals.init.chunkInfo ≠ .live infos := nofun
  have hroom := room_of_suffice (admitted_abRequest 1) hchunks h hconvertible hbuilt
  have hbackground := (hroom [0] (by decide)).2 (by decide)
  exact absurd hbackground (by decide)

/-- From padded memory it is large enough. -/
theorem buffers_suffice_iff_padded : BuffersSuffice copying (abRequest 2) .init := by
  have hstart : Arrives (writeStep copying) .init (fun _ => none) [] .init fun _ => none := .start
  apply (buffers_suffice_iff copying (admitted_abRequest 2) hstart).mpr
  intro _ _
  exact room_of_le (by decide) (by decide) (by decide)

end DTIO.Properties.ConversionBuffers
