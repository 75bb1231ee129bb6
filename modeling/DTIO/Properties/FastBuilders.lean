import DTIO.Properties.SequenceMerge
import DTIO.Vol.Background

/-!
# The Fast Builders

`H5VL_dtio_build_io_op_match` and `H5VL_dtio_build_io_op_contig` move the bytes that
`H5VL_dtio_build_io_op_merge` would move, so that a write stores the same whichever path it takes.

## Main definitions

- `Counted`: answers that count the elements of a selection
- `withMemSpace`: a request that does not take the matching path

## Main results

- `match_agrees`, `contig_agrees`: the two builders and the merge
- `datasetWrite_withMemSpace`: the matching path of `H5VL_dtio_dataset_write`
- `fast_builders_agree`: all of it
-/

namespace DTIO.Properties.FastBuilders

open DTIO.MachineInt DTIO.Grid DTIO.Vol DTIO.Properties.SequenceMerge

/-! ## The builders -/

/-- The answers for a selection of `totNelem` elements, whose bytes a `size_t` counts: each of
them counts whole elements. -/
structure Counted (answers : List Batch) (typeSize totNelem : Nat) : Prop extends
    Delivered answers where
  count : ∀ b ∈ answers, (b.runs.map Run.len).sum = b.nelem * typeSize
  nelem : (answers.map Batch.nelem).sum = totNelem
  typePos : 0 < typeSize
  nelemPos : 0 < totNelem
  small : totNelem * typeSize < 18446744073709551616

section Builders

variable {answers : List Batch} {typeSize totNelem : Nat} {rbuf wbuf : Bool}

theorem Counted.length (h : Counted answers typeSize totNelem) :
    (batchBytes answers).length = totNelem * typeSize := by
  rw [length_batchBytes h.count, h.nelem]

theorem Counted.totLen (h : Counted answers typeSize totNelem) :
    totNelem * typeSize = toUnsigned64 ((totNelem * typeSize : Nat) : Int) :=
  (toUnsigned64_of_lt h.small).symm

/-- Both loops over one list take all answers: `tot_nelem` reaches 0 at the last one. -/
theorem Counted.sequences (h : Counted answers typeSize totNelem) :
    sequences answers totNelem = .ok (answers.flatMap Batch.runs) := by
  have hle : totNelem * 1 ≤ totNelem * typeSize := Nat.mul_le_mul_left _ h.typePos
  have := h.small
  exact sequences_eq h.room h.progress h.count h.typePos h.nelem h.nelemPos (by omega)

/-- The bytes of all sequences. -/
theorem flatMap_runs_bytes (answers : List Batch) :
    (answers.flatMap Batch.runs).flatMap Run.bytes = batchBytes answers := by
  rw [List.flatMap_assoc]
  rfl

/-- The operation of the buffers that there are. -/
def opsOf (rbuf wbuf : Bool) (op : List Entry) : Arrays.Ops :=
  ⟨if rbuf = true then op else [], if wbuf = true then op else []⟩

theorem recordAll_empty (op : List Entry) :
    Arrays.Ops.recordAll ⟨[], []⟩ rbuf wbuf op = opsOf rbuf wbuf op := by
  rw [Arrays.recordAll_eq]
  rfl

/-- The merge moves the bytes of the two lists in order. -/
theorem merge_moves {memAnswers : List Batch} (h : Counted answers typeSize totNelem)
    (hmem : Delivered memAnswers) (hlen : (batchBytes memAnswers).length = totNelem * typeSize)
    (hbuf : rbuf ≠ wbuf) :
    ∃ op, opBytes op = (batchBytes answers).zip (batchBytes memAnswers) ∧
      ∀ rounds, totNelem * typeSize ≤ rounds →
        Arrays.buildIoOpMerge rounds memAnswers answers typeSize totNelem rbuf wbuf =
          .ok (opsOf rbuf wbuf op) := by
  have hpos : 0 < totNelem * typeSize := Nat.mul_pos h.nelemPos h.typePos
  obtain ⟨op, hop, hbytes, hlens⟩ :=
    mergeLoop_spec hmem.good h.toDelivered.good hlen h.length hpos h.small le_rfl
  refine ⟨op, hbytes, fun rounds hrounds => ?_⟩
  have hloop : Arrays.mergeLoop rbuf wbuf rounds (.start memAnswers) (.start answers)
      (totNelem * typeSize) ⟨[], []⟩ = .ok (Arrays.Ops.recordAll ⟨[], []⟩ rbuf wbuf op) :=
    Arrays.mergeLoop_arrays (Arrays.SeqList.start_ok memAnswers) (Arrays.SeqList.start_ok answers)
      hmem.addressable h.toDelivered.addressable (mergeLoop_mono hop hrounds) hlens
  simp only [Arrays.buildIoOpMerge, if_pos (And.intro hbuf h.nelemPos), ← h.totLen, hloop,
    recordAll_empty]

/-- What is recorded where bytes keep their places. -/
theorem match_moves (h : Counted answers typeSize totNelem) (hbuf : rbuf ≠ wbuf) :
    ∃ op, opBytes op = (batchBytes answers).zip (batchBytes answers) ∧
      Arrays.buildIoOpMatch answers totNelem rbuf wbuf = .ok (opsOf rbuf wbuf op) := by
  refine ⟨(answers.flatMap Batch.runs).map fun r => ⟨r.off, r.len, r.off⟩, ?_, ?_⟩
  · rw [opBytes_match, flatMap_runs_bytes, List.zip_eq_zipWith, List.zipWith_self]
  · unfold Arrays.buildIoOpMatch
    rw [if_neg hbuf, if_pos h.nelemPos, Arrays.matchLoop_eq h.sequences, recordAll_empty]

/-- What is recorded where a buffer is filled from its start. -/
theorem contig_moves (h : Counted answers typeSize totNelem) (hbuf : rbuf = true ∨ wbuf = true) :
    ∃ op, opBytes op = (batchBytes answers).zip (List.range (totNelem * typeSize)) ∧
      Arrays.buildIoOpContig answers totNelem rbuf wbuf = .ok (opsOf rbuf wbuf op) := by
  have hsum : ((answers.flatMap Batch.runs).map Run.len).sum = totNelem * typeSize := by
    rw [← length_flatMap_bytes, flatMap_runs_bytes, h.length]
  have hsmall : 0 + ((answers.flatMap Batch.runs).map Run.len).sum < 18446744073709551616 := by
    rw [hsum, Nat.zero_add]
    exact h.small
  refine ⟨contiguous (answers.flatMap Batch.runs) 0, ?_, ?_⟩
  · rw [opBytes_contiguous, flatMap_runs_bytes, List.zipIdx_eq_zip_range', h.length,
      List.range_eq_range']
  · unfold Arrays.buildIoOpContig
    rw [if_pos ⟨hbuf, h.nelemPos⟩, Arrays.contigLoop_eq h.sequences hsmall, recordAll_empty]

end Builders

/-! ## The matching path of a write -/

/-- The same request with a memory dataspace, the one that is used where it is `H5S_ALL`.  Such a
request never takes the matching path. -/
def withMemSpace (r : Request) : Request := { r with memSpace := some r.realMemSpace }

/-- A file selection of a dataspace, and a type, whose bytes a `size_t` counts. -/
structure Proper (r : Request) : Prop where
  fileValid : r.realFileSpace.Valid
  typePos : 0 < r.dset.type.size
  small : r.realFileSpace.npoints * r.dset.type.size < 18446744073709551616

section Write

variable {env : Env} {r : Request} {info : ChunkInfo}

/-- A selection has the shape of itself, and its chunks have the extent of the dataset. -/
theorem enumerable_self {file : Dataspace} (h : file.Valid) (hne : file.points ≠ []) :
    Enumerable file.extent file file := by
  have hend := h.inside_selEnd hne
  refine ⟨hend.positive, rfl, rfl, h.length_eq, h.length_eq, by simp [Dataspace.shapeSame], hne,
    h.selected, h.coord_lt hend, ?_, h.coord_lt hend⟩
  refine List.forall₂_iff_zip.mpr ⟨hend.length, fun {a n} han => ?_⟩
  have ha := h.coord_lt hend a (List.of_mem_zip han).1
  have hn := hend.positive.le_prod (List.of_mem_zip han).2
  have hcount := h.count
  omega

/-- On the matching path memory is laid out as the file. -/
theorem matching_chunk (h : Proper r) (hne : r.realFileSpace.npoints ≠ 0)
    (hmem : r.memSpace = none) {chunkInfo : Ptr (List ChunkInfo)} {closeSpaces closes : Bool}
    {infos : List ChunkInfo} (hstale : ∀ infos, chunkInfo ≠ .live infos)
    (hselect : selectChunks r r.realFileSpace r.realMemSpace chunkInfo closeSpaces =
      .ok (.live infos, closes))
    (hinfo : info ∈ infos) (hext : r.realFileSpace.extent = info.fspace.extent) :
    info.mspace = info.fspace ∧ info.fspace.Valid ∧
      info.fspace.npoints ≤ r.realFileSpace.npoints := by
  have hreal : r.realMemSpace = r.realFileSpace := by rw [Request.realMemSpace, hmem]; rfl
  rw [hreal] at hselect
  unfold selectChunks at hselect
  split at hselect
  -- compact and contiguous: the one chunk has both selections as they are
  · cases hselect
    obtain rfl := List.mem_singleton.mp hinfo
    exact ⟨rfl, h.fileValid, le_rfl⟩
  · cases hselect
    obtain rfl := List.mem_singleton.mp hinfo
    exact ⟨rfl, h.fileValid, le_rfl⟩
  next c =>
    split at hselect
    next infos' hfound =>
      cases hselect
      -- the extents are equal, so the chunk is the dataset, and the memory has its shape
      have hc := getSelectedChunkInfo_extent hfound info hinfo
      rw [hc] at hext
      subst hext
      have hpoints : r.realFileSpace.points ≠ [] := fun hnil => hne (congrArg List.length hnil)
      have henum := enumerable_self h.fileValid hpoints
      obtain ⟨infos', hfound', -, -, hparts⟩ := henum.getSelectedChunkInfo_spec
      obtain rfl := Except.ok.inj (hfound.symm.trans hfound')
      obtain ⟨hpart, -⟩ := hparts info hinfo
      exact ⟨hpart.mspace_eq_fspace h.fileValid rfl hc.symm,
        hpart.fspace_valid henum h.fileValid.count, hpart.npoints_le⟩
    next =>
      -- a failed search leaves the pointer of the dataset before, which is freed
      obtain ⟨heq, -⟩ := Prod.mk.inj (Except.ok.inj hselect)
      exact absurd heq (hstale infos)
    next => cases hselect
  · obtain ⟨heq, -⟩ := Prod.mk.inj (Except.ok.inj hselect)
    exact absurd heq (hstale infos)

/-- **The matching path** leaves the store that the merge would leave. -/
theorem writeEqual_withMemSpace (h : Proper r) (hne : r.realFileSpace.npoints ≠ 0)
    {chunkInfo : Ptr (List ChunkInfo)} {closeSpaces closes : Bool} {infos : List ChunkInfo}
    (hstale : ∀ infos, chunkInfo ≠ .live infos)
    (hselect : selectChunks r r.realFileSpace r.realMemSpace chunkInfo closeSpaces =
      .ok (.live infos, closes)) (hinfo : info ∈ infos) (buf : Buffer) (single : Bool) (key : Key)
    (σ : Store) :
    writeEqual env r buf single r.dset.type.size info key σ =
      writeEqual env (withMemSpace r) buf single r.dset.type.size info key σ := by
  have hother : buildEqual env (withMemSpace r) single r.dset.type.size info =
      buildIoOpMerge env.iter info.mspace info.fspace r.dset.type.size info.mspace.npoints := by
    simp [buildEqual, withMemSpace]
  unfold writeEqual
  rw [hother]
  by_cases hmatch : (r.memSpace.isNone && single &&
      decide (r.realFileSpace.extent = info.fspace.extent)) = true
  · have hbuild : buildEqual env r single r.dset.type.size info =
        buildIoOpMatch env.iter info.fspace r.dset.type.size info.mspace.npoints := if_pos hmatch
    simp only [Bool.and_eq_true, Option.isNone_iff_eq_none, decide_eq_true_eq] at hmatch
    obtain ⟨⟨hmem, -⟩, hext⟩ := hmatch
    obtain ⟨hsame, hvalid, hle⟩ := matching_chunk h hne hmem hstale hselect hinfo hext
    rw [hbuild, hsame]
    rcases Nat.eq_zero_or_pos info.fspace.npoints with hzero | hpos
    · -- nothing is selected: both assertions fail
      simp [buildIoOpMatch, buildIoOpMerge, hzero]
    · have hsmall : info.fspace.npoints * r.dset.type.size < 18446744073709551616 :=
        lt_of_le_of_lt (Nat.mul_le_mul_right _ hle) h.small
      obtain ⟨op, hop, hbytes⟩ := buildIoOpMatch_spec env.iter hvalid h.typePos hpos
      obtain ⟨op', hop', hbytes'⟩ :=
        buildIoOpMerge_spec env.iter hvalid hvalid h.typePos rfl hpos hsmall
      rw [hop, hop', ok_bind, ok_bind]
      exact writeOpOperate_congr (hbytes.trans hbytes'.symm) key σ
  · have hbuild : buildEqual env r single r.dset.type.size info =
        buildIoOpMerge env.iter info.mspace info.fspace r.dset.type.size info.mspace.npoints :=
      if_neg hmatch
    rw [hbuild]

/-- A loop whose steps agree where an invariant holds. -/
theorem foldlM_congr {α β : Type} {f g : β → α → Except Stop β} {I : β → Prop} {l : List α}
    (hagree : ∀ b, I b → ∀ a ∈ l, f b a = g b a) (hstep : ∀ b a b', I b → f b a = .ok b' → I b') :
    ∀ {b : β}, I b → l.foldlM f b = l.foldlM g b := by
  induction l with
  | nil => exact fun _ => rfl
  | cons a l ih =>
    intro b hb
    rw [List.foldlM_cons, List.foldlM_cons, ← hagree b hb a List.mem_cons_self]
    cases hfb : f b a with
    | error e => rfl
    | ok b' =>
      exact ih (fun b hb a ha => hagree b hb a (List.mem_cons_of_mem _ ha)) (hstep b a b' hb hfb)

/-- All chunks of a dataset. -/
theorem writeChunks_withMemSpace (h : Proper r) (hne : r.realFileSpace.npoints ≠ 0)
    {chunkInfo : Ptr (List ChunkInfo)} {closeSpaces closes : Bool} {infos : List ChunkInfo}
    (hstale : ∀ infos, chunkInfo ≠ .live infos)
    (hselect : selectChunks r r.realFileSpace r.realMemSpace chunkInfo closeSpaces =
      .ok (.live infos, closes)) (buf : Buffer) (single : Bool) {s : WriteLocals × Store}
    (hs : s.1.tconv.srcTypeSize = r.dset.type.size) :
    infos.foldlM (writeChunk env r buf single) s =
      infos.foldlM (writeChunk env (withMemSpace r) buf single) s := by
  -- a chunk changes the buffers and the store, never the sizes of the types
  refine foldlM_congr (I := fun s => s.1.tconv.srcTypeSize = r.dset.type.size) ?_ ?_ hs
  · intro s hs info hinfo
    have hdset : (withMemSpace r).dset = r.dset := rfl
    have hmemType : (withMemSpace r).memType = r.memType := rfl
    have hequal : ∀ key σ, writeEqual env r buf single r.dset.type.size info key σ =
        writeEqual env (withMemSpace r) buf single r.dset.type.size info key σ := fun key σ =>
      writeEqual_withMemSpace h hne hstale hselect hinfo buf single key σ
    simp only [writeChunk, writeConverted, hdset, hmemType, hs, hequal]
  · intro s info s' hs hok
    rw [(writeChunk_ok hok).2.2]
    exact hs

/-- How an iteration ends, without the dataspaces that it has closed. -/
def outcome {L W : Type} : Step L W → Option L × W
  | .returns w => (none, w)
  | .next L w _ => (some L, w)

/-- Whatever a computation does before, only the way it ends counts. -/
theorem bind_map_congr {α β γ : Type} {x : Except Stop α} {f g : α → Except Stop β} {F : β → γ}
    (h : ∀ a, x = .ok a → (f a).map F = (g a).map F) : (x >>= f).map F = (x >>= g).map F := by
  cases x with
  | error e => rfl
  | ok a => exact h a rfl

/-- One dataset. -/
theorem writeDataset_withMemSpace (h : Proper r) (hne : r.realFileSpace.npoints ≠ 0)
    {L : WriteLocals} (hstale : ∀ infos, L.chunkInfo ≠ .live infos) (buf : Buffer) (σ : Store) :
    (writeDataset env r buf L σ).map outcome =
      (writeDataset env (withMemSpace r) buf L σ).map outcome := by
  unfold writeDataset
  -- the steps before the chunks are the same ones
  refine bind_map_congr fun t ht => ?_
  refine bind_map_congr fun selected hselect => ?_
  refine bind_map_congr fun infos hinfos => ?_
  refine bind_map_congr fun first _ => ?_
  have hsize : t.srcTypeSize = r.dset.type.size := tconvInit_src (orFault_eq_ok.mp ht)
  obtain ⟨chunkInfo, closes⟩ := selected
  -- the chunk list is the one that was selected
  have hlive : chunkInfo = .live infos := by
    cases chunkInfo with
    | null => cases hinfos
    | freed => cases hinfos
    | live infos' =>
      cases hinfos
      rfl
  subst hlive
  have hchunks :
      infos.foldlM (writeChunk env r buf (infos.length == 1)) (allocate env t first L, σ) =
        infos.foldlM (writeChunk env (withMemSpace r) buf (infos.length == 1))
          (allocate env t first L, σ) :=
    writeChunks_withMemSpace h hne hstale hselect buf _ hsize
  simp only [hchunks]
  -- the buffers are freed alike
  refine bind_map_congr fun done _ => ?_
  refine bind_map_congr fun oid _ => ?_
  refine bind_map_congr fun tconvBuf _ => ?_
  exact bind_map_congr fun bkgBuf _ => rfl

theorem writeIteration_withMemSpace (h : Proper r) {L : WriteLocals}
    (hstale : ∀ infos, L.chunkInfo ≠ .live infos) (buf : Buffer) (σ : Store) :
    (writeIteration env r buf L σ).map outcome =
      (writeIteration env (withMemSpace r) buf L σ).map outcome := by
  have hfile : (withMemSpace r).realFileSpace = r.realFileSpace := rfl
  unfold writeIteration
  rw [hfile]
  by_cases hne : r.realFileSpace.npoints = 0
  · rw [if_pos hne, if_pos hne]
  · rw [if_neg hne, if_neg hne]
    exact writeDataset_withMemSpace h hne hstale buf σ

/-- What a write stores follows from how its iterations end. -/
theorem datasetWrite_cons (buf : Buffer) (reqs : List (Request × Buffer)) (L : WriteLocals)
    (σ : Store) :
    (datasetWrite env ((r, buf) :: reqs) L σ).map Prod.fst =
      (writeIteration env r buf L σ).map outcome >>= fun x =>
        match x with
        | (none, σ') => .ok σ'
        | (some L', σ') => (datasetWrite env reqs L' σ').map Prod.fst := by
  rw [datasetWrite]
  cases writeIteration env r buf L σ with
  | error e => rfl
  | ok s =>
    cases s with
    | returns σ' => rfl
    | next L' σ' closed =>
      show Except.map _ (Except.map _ _) = Except.map _ _
      cases datasetWrite env reqs L' σ' <;> rfl

/-- All datasets of a write. -/
theorem datasetWrite_withMemSpace (env : Env) {reqs : List (Request × Buffer)} :
    ∀ {L : WriteLocals} {σ : Store}, (∀ x ∈ reqs, Proper x.1) →
      (∀ infos, L.chunkInfo ≠ .live infos) →
      (datasetWrite env reqs L σ).map Prod.fst =
        (datasetWrite env (reqs.map fun x => (withMemSpace x.1, x.2)) L σ).map Prod.fst := by
  induction reqs with
  | nil => exact fun _ _ => rfl
  | cons x reqs ih =>
    intro L σ hproper hstale
    obtain ⟨r, buf⟩ := x
    have hiter : (writeIteration env r buf L σ).map outcome =
        (writeIteration env (withMemSpace r) buf L σ).map outcome :=
      writeIteration_withMemSpace (hproper _ List.mem_cons_self) hstale buf σ
    rw [List.map_cons, datasetWrite_cons, datasetWrite_cons, ← hiter]
    cases hend : writeIteration env r buf L σ with
    | error e => rfl
    | ok s =>
      cases s with
      | returns σ' => rfl
      | next L' σ' closed =>
        -- the next iteration starts with the chunks of this one freed
        have hfreed := writeIteration_chunkInfo hend
        exact ih (fun x hx => hproper x (List.mem_cons_of_mem _ hx))
          fun infos hlive => nomatch hfreed.symm.trans hlive

end Write

/-! ## All builders -/

/-- The matching builder moves the bytes that the merge of a selection with itself moves. -/
def MatchAgrees : Prop :=
  ∀ (answers : List Batch) (typeSize totNelem : Nat) (rbuf wbuf : Bool),
    Counted answers typeSize totNelem → rbuf ≠ wbuf →
    ∃ op merged, opBytes op = opBytes merged ∧ (opBytes op).length = totNelem * typeSize ∧
      Arrays.buildIoOpMatch answers totNelem rbuf wbuf = .ok (opsOf rbuf wbuf op) ∧
      ∀ rounds, totNelem * typeSize ≤ rounds →
        Arrays.buildIoOpMerge rounds answers answers typeSize totNelem rbuf wbuf =
          .ok (opsOf rbuf wbuf merged)

/-- The contiguous builder moves, for each buffer, the bytes that the merge with a memory
selection of the first `totNelem * typeSize` bytes moves. -/
def ContigAgrees : Prop :=
  ∀ (answers memAnswers : List Batch) (typeSize totNelem : Nat) (rbuf wbuf : Bool),
    Counted answers typeSize totNelem → Delivered memAnswers →
    batchBytes memAnswers = List.range (totNelem * typeSize) → (rbuf = true ∨ wbuf = true) →
    ∃ op, (opBytes op).length = totNelem * typeSize ∧
      Arrays.buildIoOpContig answers totNelem rbuf wbuf = .ok (opsOf rbuf wbuf op) ∧
      ∀ r w, r ≠ w → ∃ merged, opBytes op = opBytes merged ∧
        ∀ rounds, totNelem * typeSize ≤ rounds →
          Arrays.buildIoOpMerge rounds memAnswers answers typeSize totNelem r w =
            .ok (opsOf r w merged)

/-- A write stores the same if no dataset takes the matching path. -/
def WriteAgrees : Prop :=
  ∀ (env : Env) (reqs : List (Request × Buffer)) (σ : Store), (∀ x ∈ reqs, Proper x.1) →
    (datasetWrite env reqs .init σ).map Prod.fst =
      (datasetWrite env (reqs.map fun x => (withMemSpace x.1, x.2)) .init σ).map Prod.fst

theorem match_agrees : MatchAgrees := by
  intro answers typeSize totNelem rbuf wbuf h hbuf
  obtain ⟨op, hbytes, hop⟩ := match_moves h hbuf
  obtain ⟨merged, hmerged, hrun⟩ := merge_moves h h.toDelivered h.length hbuf
  refine ⟨op, merged, hbytes.trans hmerged.symm, ?_, hop, hrun⟩
  rw [hbytes, List.length_zip, h.length, min_self]

theorem contig_agrees : ContigAgrees := by
  intro answers memAnswers typeSize totNelem rbuf wbuf h hmem hrange hbuf
  obtain ⟨op, hbytes, hop⟩ := contig_moves h hbuf
  refine ⟨op, ?_, hop, fun r w hrw => ?_⟩
  · rw [hbytes, List.length_zip, h.length, List.length_range, min_self]
  · have hlen : (batchBytes memAnswers).length = totNelem * typeSize := by
      rw [hrange, List.length_range]
    obtain ⟨merged, hmerged, hrun⟩ := merge_moves h hmem hlen hrw
    rw [hrange] at hmerged
    exact ⟨merged, hbytes.trans hmerged.symm, hrun⟩

/-- **The fast builders** agree with the general one, for every selection, however it is cut, and
so does the matching path of a write. -/
theorem fast_builders_agree : MatchAgrees ∧ ContigAgrees ∧ WriteAgrees :=
  ⟨match_agrees, contig_agrees, fun env _ _ hproper =>
    datasetWrite_withMemSpace env hproper nofun⟩

/-! ## Three elements -/

/-- Three elements of two bytes in three sequences and two answers. -/
def threeElements : List Batch := [⟨[⟨0, 2⟩, ⟨4, 2⟩], 2⟩, ⟨[⟨8, 2⟩], 1⟩]

theorem counted_threeElements : Counted threeElements 2 3 where
  room := by decide
  progress := by decide
  offsets := by decide
  count := by decide
  nelem := rfl
  typePos := by decide
  nelemPos := by decide
  small := by decide

/-- A buffer in one piece. -/
def onePiece : List Batch := [⟨[⟨0, 6⟩], 3⟩]

theorem delivered_onePiece : Delivered onePiece := by
  constructor <;> decide

/-- A conversion that does nothing, where memory is filled with zeros. -/
def plain : Env := ⟨elementwise, fun _ _ _ tconv _ => ⟨fun j => tconv.getD j 0, fun _ => 0⟩,
  fun _ => 0, false⟩

/-- All of a contiguous dataset of three bytes. -/
def wholeThree : Request :=
  ⟨⟨['f'], 1, [3], .contiguous, .atomic .integer 1 0⟩, .atomic .integer 1 0, none, none⟩

theorem proper_wholeThree : Proper wholeThree :=
  ⟨Dataspace.valid_all (by decide), by decide, by decide⟩

/-- The three builders and a write at these inputs. -/
theorem fast_builders_agree_three :
    (∃ op merged, opBytes op = opBytes merged ∧ (opBytes op).length = 3 * 2 ∧
      Arrays.buildIoOpMatch threeElements 3 false true = .ok (opsOf false true op) ∧
      ∀ rounds, 3 * 2 ≤ rounds →
        Arrays.buildIoOpMerge rounds threeElements threeElements 2 3 false true =
          .ok (opsOf false true merged)) ∧
    (∃ op, (opBytes op).length = 3 * 2 ∧
      Arrays.buildIoOpContig threeElements 3 true true = .ok (opsOf true true op) ∧
      ∀ r w, r ≠ w → ∃ merged, opBytes op = opBytes merged ∧
        ∀ rounds, 3 * 2 ≤ rounds →
          Arrays.buildIoOpMerge rounds onePiece threeElements 2 3 r w = .ok (opsOf r w merged)) ∧
    (datasetWrite plain [(wholeThree, fun i => UInt8.ofNat i)] .init fun _ => none).map Prod.fst =
      (datasetWrite plain [(withMemSpace wholeThree, fun i => UInt8.ofNat i)] .init
        fun _ => none).map Prod.fst :=
  ⟨fast_builders_agree.1 threeElements 2 3 false true counted_threeElements (by decide),
    fast_builders_agree.2.1 threeElements onePiece 2 3 true true counted_threeElements
      delivered_onePiece (by decide) (by decide),
    fast_builders_agree.2.2 plain [(wholeThree, fun i => UInt8.ofNat i)] (fun _ => none)
      (List.forall_mem_singleton.mpr proper_wholeThree)⟩

end DTIO.Properties.FastBuilders
