import DTIO.Properties.ChunkedStorage
import DTIO.Properties.DatasetLoop
import DTIO.Vol.Background

/-!
# Joined Writes

A call of `H5VL_dtio_dataset_write` with several datasets, and calls with one dataset each.

## Main definitions

- `WritesAsSingles`: one call is as good as several
- `Writable`: a dataset that can be written by a call of its own

## Main results

- `writesAsSingles_of_empty`, `empty_of_writesAsSingles`: this is so exactly if no dataset but the
  first one has a selection
- `writable_of_arrayWrite`, `writable_of_conversion`: requests whose single calls are defined
-/

namespace DTIO.Properties.JoinedWrites

open DTIO.Posix DTIO.Grid DTIO.Memory DTIO.Vol
open DTIO.Properties.ChunkedStorage DTIO.Properties.DatasetLoop

/-- Calls of `H5VL_dtio_dataset_write` with one dataset each. -/
def singleWrites (env : Env) : List (Request × Buffer) → Store → Except Stop Store
  | [], σ => .ok σ
  | t :: ts, σ => do
    let x ← datasetWrite env [t] .init σ
    singleWrites env ts x.1

/-- One call of `H5VL_dtio_dataset_write` does what the calls for the single datasets do,
wherever these are defined. -/
structure WritesAsSingles (rs : List Request) : Prop where
  effect : ∀ env (ts : List (Request × Buffer)) σ σ', ts.map Prod.fst = rs →
    singleWrites env ts σ = .ok σ' → ∃ x, datasetWrite env ts .init σ = .ok x ∧ x.1 = σ'
  independent : ∀ env (ts : List (Request × Buffer)) σ, ts.map Prod.fst = rs →
    Independent (writeStep env) .init σ ts
  owned : ∀ env (ts : List (Request × Buffer)) σ x, ts.map Prod.fst = rs →
    datasetWrite env ts .init σ = .ok x → ∀ o ∈ x.2, o = .connector

/-! ## Writes -/

section Write

variable {env : Env} {r : Request} {buf : Buffer} {L : WriteLocals} {σ : Store}

/-- An empty selection ends the call. -/
theorem returning_write {t : Request × Buffer} (h : t.1.realFileSpace.npoints = 0) (env : Env) :
    Returning (writeStep env) t := fun _ _ => if_pos h

/-- A chunk cannot be named after an iteration that has freed the name. -/
theorem writeIteration_freed (hne : r.realFileSpace.npoints ≠ 0) (hfreed : L.chunkOid = .freed)
    {s : Step WriteLocals Store} : writeIteration env r buf L σ ≠ .ok s := by
  intro h
  unfold writeIteration at h
  rw [if_neg hne] at h
  obtain ⟨_, _, _, _, _, _, -, -, -, hlive, -⟩ := writeDataset_ok h
  exact hlive hfreed

/-- The dataspaces that are closed are those of a chunked dataset. -/
theorem closedSpaces_init {file mem : Dataspace} {chunkInfo : Ptr (List ChunkInfo)}
    {infos : Ptr (List ChunkInfo)} {closeSpaces : Bool}
    (h : selectChunks r file mem chunkInfo false = .ok (infos, closeSpaces))
    (l : List ChunkInfo) : ∀ o ∈ closedSpaces r closeSpaces l, o = .connector := by
  unfold selectChunks at h
  unfold closedSpaces
  -- only a chunked layout makes spaces of its own
  cases hlayout : r.dset.layout with
  | chunked dims =>
    intro o ho
    split at ho
    · exact connector_of_mem l o ho
    · cases ho
  | compact =>
    rw [hlayout] at h
    cases h
    simp
  | contiguous =>
    rw [hlayout] at h
    cases h
    simp
  | other =>
    rw [hlayout] at h
    cases h
    simp

/-- The first iteration with a selection. -/
theorem writeIteration_first (hne : r.realFileSpace.npoints ≠ 0) {s : Step WriteLocals Store}
    (h : writeIteration env r buf .init σ = .ok s) :
    ∃ L' σ' closed, s = .next L' σ' closed ∧ L'.chunkOid = .freed ∧
      ∀ o ∈ closed, o = .connector := by
  unfold writeIteration at h
  rw [if_neg hne] at h
  obtain ⟨_, selected, first, rest, done, L', -, hselect, -, -, hfreed, -, rfl⟩ :=
    writeDataset_ok h
  exact ⟨L', done.2, _, rfl, hfreed, closedSpaces_init hselect _⟩

/-- The first iteration closes what the connector has opened. -/
theorem writeIteration_owned {s : Step WriteLocals Store}
    (h : writeIteration env r buf .init σ = .ok s) : ∀ o ∈ (result s).2, o = .connector := by
  by_cases hne : r.realFileSpace.npoints = 0
  · obtain rfl := Except.ok.inj ((if_pos hne).symm.trans h)
    exact nofun
  · obtain ⟨_, _, _, rfl, -, hclosed⟩ := writeIteration_first hne h
    exact hclosed

/-- Calls for datasets without a selection change nothing. -/
theorem singleWrites_empty {ts : List (Request × Buffer)} {σ σ' : Store}
    (hempty : ∀ t ∈ ts, t.1.realFileSpace.npoints = 0)
    (h : singleWrites env ts σ = .ok σ') : σ' = σ := by
  induction ts with
  | nil =>
    cases h
    rfl
  | cons t ts ih =>
    have hreturns := returning_write (hempty t List.mem_cons_self) env
    have hone : datasetWrite env [t] .init σ = .ok (σ, []) := by
      rw [datasetWrite_eq_run, run_single, hreturns]
      rfl
    rw [singleWrites, hone, ok_bind] at h
    exact ih (fun t' ht' => hempty t' (List.mem_cons_of_mem _ ht')) h

/-- One call is enough if only the first dataset has a selection. -/
theorem writesAsSingles_of_empty {rs : List Request}
    (hempty : ∀ r ∈ rs.tail, r.realFileSpace.npoints = 0) : WritesAsSingles rs := by
  have htail : ∀ ts : List (Request × Buffer), ts.map Prod.fst = rs →
      ∀ t ∈ ts.tail, t.1.realFileSpace.npoints = 0 := by
    rintro ts rfl t ht
    rw [← List.map_tail] at hempty
    exact hempty _ (List.mem_map_of_mem ht)
  have hone : ∀ env (ts : List (Request × Buffer)), ts.map Prod.fst = rs →
      OneOfTwo (writeStep env) ts := by
    rintro env ts hts t₁ t₂ rest rfl
    exact Or.inr (returning_write (htail _ hts t₂ List.mem_cons_self) env)
  constructor
  · intro env ts σ σ' hts hsingle
    cases ts with
    | nil =>
      cases hsingle
      exact ⟨_, rfl, rfl⟩
    | cons t ts =>
      obtain ⟨x, hx, hsingle⟩ := bind_eq_ok.mp hsingle
      have hlater : σ' = x.1 := singleWrites_empty (htail _ hts) hsingle
      rw [datasetWrite_eq_run, run_single] at hx
      -- the call ends in its first or second iteration, the later single calls do nothing
      refine ⟨x, ?_, hlater.symm⟩
      rw [datasetWrite_eq_run, run_of_oneOfTwo (hone env _ hts)]
      exact hx
  · intro env ts σ hts
    exact independent_of_oneOfTwo (hone env ts hts) σ
  · intro env ts σ x hts hx
    cases ts with
    | nil =>
      cases hx
      exact nofun
    | cons t ts =>
      rw [datasetWrite_eq_run, run_of_oneOfTwo (hone env _ hts)] at hx
      obtain ⟨s, hiter, rfl⟩ := map_eq_ok.mp hx
      exact writeIteration_owned hiter

end Write

/-! ## Writes of one byte value -/

section Paint

variable {c : Byte} {σ σ' : Store}

/-- Bytes are left alone or become `c`. -/
def Painted (c : Byte) (σ σ' : Store) : Prop :=
  ∀ loc, byteOf σ' loc = c ∨ byteOf σ' loc = byteOf σ loc

/-- Some byte is `c`. -/
def Shows (c : Byte) (σ : Store) : Prop := ∃ loc, byteOf σ loc = c

theorem Painted.trans {σ'' : Store} (h : Painted c σ σ') (h' : Painted c σ' σ'') :
    Painted c σ σ'' := by
  intro loc
  rcases h' loc with hc | hsame
  · exact .inl hc
  · rw [hsame]
    exact h loc

theorem Painted.shows (h : Painted c σ σ') (hs : Shows c σ) : Shows c σ' := by
  obtain ⟨loc, hloc⟩ := hs
  refine ⟨loc, ?_⟩
  rcases h loc with hc | hsame
  · exact hc
  · rw [hsame, hloc]

/-- A buffer that holds nothing but `c`. -/
def Plain (c : Byte) (data : Nat → Nat → Option (List Byte)) : Prop :=
  ∀ off len bytes, data off len = some bytes → bytes = List.replicate len c

theorem plain_userData (c : Byte) : Plain c (userData fun _ => c) := by
  intro off len bytes h
  obtain rfl := Option.some.inj h
  simp

theorem plain_load {mem : List Byte} (h : ∀ b ∈ mem, b = c) : Plain c (load mem) := by
  intro off len bytes hload
  unfold load at hload
  split at hload
  next hfit =>
    obtain rfl := Option.some.inj hload
    rw [List.eq_replicate_iff]
    refine ⟨?_, fun b hb => h b (List.mem_of_mem_drop (List.mem_of_mem_take hb))⟩
    rw [ByteFile.length_readAt]
    omega
  · cases hload

variable {data : Nat → Nat → Option (List Byte)}

theorem foldlM_writeEntry_plain (hdata : Plain c data) {op : List Vol.Entry} :
    ∀ {obj obj' : List Byte}, op.foldlM (writeEntry data) obj = some obj' →
      (∀ i, obj'.getD i 0 = c ∨ obj'.getD i 0 = obj.getD i 0) ∧
        ((∃ e ∈ op, 0 < e.len) → ∃ i, obj'.getD i 0 = c) := by
  induction op with
  | nil =>
    intro obj obj' h
    cases h
    exact ⟨fun _ => .inr rfl, fun ⟨_, he, _⟩ => by cases he⟩
  | cons e op ih =>
    intro obj obj' h
    obtain ⟨obj₁, hobj₁, h⟩ := Option.bind_eq_some_iff.mp h
    obtain ⟨bytes, hbytes, rfl⟩ := Option.map_eq_some_iff.mp hobj₁
    obtain rfl := hdata _ _ _ hbytes
    obtain ⟨hrest, hshows⟩ := ih h
    -- the first triple
    have hentry : ∀ i, (ByteFile.writeAt 0 obj e.objOff (List.replicate e.len c)).getD i 0 =
        if e.objOff ≤ i ∧ i < e.objOff + e.len then c else obj.getD i 0 := by
      intro i
      rw [ByteFile.getD_writeAt, List.length_replicate]
      by_cases hin : e.objOff ≤ i ∧ i < e.objOff + e.len
      · have hidx : i - e.objOff < (List.replicate e.len c).length := by
          rw [List.length_replicate]
          omega
        rw [if_pos hin, if_pos hin, List.getD_eq_getElem _ _ hidx, List.getElem_replicate]
      · rw [if_neg hin, if_neg hin]
    refine ⟨fun i => ?_, ?_⟩
    · rcases hrest i with hc | hsame
      · exact .inl hc
      · rw [hsame, hentry]
        split
        · exact .inl rfl
        · exact .inr rfl
    · rintro ⟨e', he', hpos⟩
      rcases List.mem_cons.mp he' with rfl | he'
      · refine ⟨e'.objOff, ?_⟩
        rcases hrest e'.objOff with hc | hsame
        · exact hc
        · rw [hsame, hentry, if_pos ⟨le_rfl, Nat.lt_add_of_pos_right hpos⟩]
      · exact hshows ⟨e', he', hpos⟩

/-- A write operation from such a buffer, with a triple that is not empty. -/
theorem writeOpOperate_plain (hdata : Plain c data) {op : List Vol.Entry} {key : Key}
    (hpos : ∃ e ∈ op, 0 < e.len) (h : writeOpOperate data op key σ = .ok σ') :
    Painted c σ σ' ∧ Shows c σ' := by
  obtain ⟨obj, hobj, h⟩ := bind_eq_ok.mp h
  cases h
  obtain ⟨hpainted, hshows⟩ := foldlM_writeEntry_plain hdata (orFault_eq_ok.mp hobj)
  -- the store after it: the object of the key is new, the others stay
  have hobject : ∀ key', Store.object (Function.update σ key (some obj)) key' =
      if key' = key then obj else σ.object key' := by
    intro key'
    unfold Store.object
    by_cases hkey : key' = key
    · subst hkey
      rw [Function.update_self, if_pos rfl]
      rfl
    · rw [Function.update_of_ne hkey, if_neg hkey]
  -- each place is painted or as before
  refine ⟨fun loc => ?_, ?_⟩
  · unfold byteOf
    rw [hobject]
    by_cases hkey : loc.1 = key
    · rw [if_pos hkey, hkey]
      exact hpainted loc.2
    · rw [if_neg hkey]
      exact .inr rfl
  -- the entry that moves a byte shows in the object of its key
  · obtain ⟨i, hi⟩ := hshows hpos
    refine ⟨(key, i), ?_⟩
    unfold byteOf
    rw [hobject, if_pos rfl]
    exact hi

/-! ### Operations that write something -/

/-- Answers that make progress. -/
def Progress (bs : List Batch) : Prop := ∀ b ∈ bs, b.runs ≠ [] ∧ ∀ r ∈ b.runs, 0 < r.len

/-- One element at a time is progress, whatever the selection. -/
theorem progress_elementwise (s : Dataspace) {size : Nat} (hsize : 0 < size) (maxseq : Nat) :
    Progress (elementwise.batches s size maxseq) := by
  intro b hb
  obtain ⟨p, -, rfl⟩ := List.mem_map.mp hb
  simpa using hsize

theorem sequences_pos {bs : List Batch} {n : Nat} {runs : List Run} (hbs : Progress bs)
    (h : sequences bs n = .ok runs) : ∃ r ∈ runs, 0 < r.len := by
  cases bs with
  | nil => cases h
  | cons b bs =>
    obtain ⟨hne, hpos⟩ := hbs b List.mem_cons_self
    obtain ⟨r, hr⟩ := List.exists_mem_of_ne_nil _ hne
    suffices hmem : r ∈ runs from ⟨r, hmem, hpos r hr⟩
    unfold sequences at h
    split at h
    · simp only at h
      split at h
      · obtain ⟨later, -, rfl⟩ := map_eq_ok.mp h
        exact List.mem_append_left _ hr
      · cases h
        exact hr
    · cases h

theorem contiguous_pos {runs : List Run} (h : ∃ r ∈ runs, 0 < r.len) (off : Nat) :
    ∃ e ∈ contiguous runs off, 0 < e.len := by
  induction runs generalizing off with
  | nil =>
    obtain ⟨_, hr, -⟩ := h
    cases hr
  | cons r' runs ih =>
    obtain ⟨r, hr, hpos⟩ := h
    rcases List.mem_cons.mp hr with rfl | hr
    · exact ⟨_, List.mem_cons_self, hpos⟩
    · obtain ⟨e, he, hpos⟩ := ih ⟨r, hr, hpos⟩ (off + r'.len)
      exact ⟨e, List.mem_cons_of_mem _ he, hpos⟩

theorem fetch_pos {bs : List Batch} (hbs : Progress bs) {s : Side}
    (h : Side.fetch ⟨[], bs, 0⟩ = .ok s) : ∀ r ∈ s.runs, 0 < r.len := by
  cases bs with
  | nil =>
    cases h
    exact nofun
  | cons b bs =>
    unfold Side.fetch at h
    rw [if_pos rfl] at h
    simp only at h
    split at h
    · cases h
      exact (hbs b List.mem_cons_self).2
    · cases h

theorem mergeLoop_pos {rounds n : Nat} {bs bs' : List Batch} {op : List Vol.Entry}
    (hbs : Progress bs) (hbs' : Progress bs')
    (h : mergeLoop rounds ⟨[], bs, 0⟩ ⟨[], bs', 0⟩ n = .ok op) : ∃ e ∈ op, 0 < e.len := by
  cases rounds with
  | zero => cases h
  | succ rounds =>
    unfold mergeLoop at h
    split at h
    next mem file hmem hfile =>
      split at h
      -- the first entry is the shorter of the two first sequences
      next m ms f fs hm hf =>
        have hpos : 0 < (if m.len ≤ f.len then m.len else f.len) := by
          have hmpos := fetch_pos hbs hmem m (hm ▸ List.mem_cons_self)
          have hfpos := fetch_pos hbs' hfile f (hf ▸ List.mem_cons_self)
          split
          · exact hmpos
          · exact hfpos
        simp only at h
        generalize (if m.len ≤ f.len then m.len else f.len) = ioLen at h hpos
        -- both lists have positive lengths, so its length is positive
        split at h
        · obtain ⟨later, -, rfl⟩ := map_eq_ok.mp h
          exact ⟨_, List.mem_cons_self, hpos⟩
        · cases h
          exact ⟨_, List.mem_singleton_self _, hpos⟩
      · cases h
    · cases h

/-- One element at a time, and conversions that keep a buffer of one byte value. -/
def painting : Env :=
  ⟨elementwise, fun _ _ _ tconv _ => ⟨fun _ => tconv.headD 0, fun _ => 0⟩, fun _ => 0, true⟩

variable {r : Request}

theorem buildEqual_pos {single : Bool} {size : Nat} {info : ChunkInfo} {op : List Vol.Entry}
    (hsize : 0 < size) (h : buildEqual painting r single size info = .ok op) :
    ∃ e ∈ op, 0 < e.len := by
  have hbs := fun s => progress_elementwise s hsize seqListLen
  unfold buildEqual at h
  simp only at h
  split at h
  · unfold buildIoOpMatch at h
    split at h
    · obtain ⟨runs, hruns, rfl⟩ := map_eq_ok.mp h
      obtain ⟨run, hrun, hpos⟩ := sequences_pos (hbs info.fspace) hruns
      exact ⟨_, List.mem_map_of_mem hrun, hpos⟩
    · cases h
  · unfold buildIoOpMerge at h
    split at h
    · exact mergeLoop_pos (hbs info.mspace) (hbs info.fspace) h
    · cases h

theorem buildIoOpContig_pos {file : Dataspace} {size n : Nat} {op : List Vol.Entry}
    (hsize : 0 < size) (h : buildIoOpContig painting.iter file size n = .ok op) :
    0 < n ∧ ∃ e ∈ op, 0 < e.len := by
  unfold buildIoOpContig at h
  split at h
  next hn =>
    obtain ⟨runs, hruns, rfl⟩ := map_eq_ok.mp h
    exact ⟨hn, contiguous_pos (sequences_pos (progress_elementwise _ hsize _) hruns) 0⟩
  · cases h

/-- Gathered bytes stand at the beginning. -/
theorem headD_gather {space : Dataspace} {size : Nat} {dst g : List Byte}
    (hn : 0 < space.npoints) (hsize : 0 < size)
    (h : gather space (fun _ => c) size dst = .ok g) : g.headD 0 = c := by
  have hstore := orFault_eq_ok.mp h
  have hlen : (space.bytes size).length = space.npoints * size := length_bytes ..
  unfold store at hstore
  split at hstore
  · obtain rfl := Option.some.inj hstore
    cases hb : space.bytes size with
    | nil =>
      rw [hb] at hlen
      exact absurd hlen.symm (Nat.mul_pos hn hsize).ne'
    | cons b bs => rfl
  · cases hstore

theorem hConvert_painting {src dst : Datatype} {n : Nat} {tconv : List Byte}
    {bkg : Option (List Byte)} {done : List Byte × Option (List Byte)}
    (hhead : tconv.headD 0 = c) (h : hConvert painting src dst n tconv bkg = .ok done) :
    ∀ b ∈ done.1, b = c := by
  unfold hConvert at h
  split at h
  · cases h
    intro b hb
    obtain ⟨_, -, rfl⟩ := List.mem_map.mp hb
    exact hhead
  · cases h

/-- A chunk without conversion. -/
theorem writeEqual_paint {single : Bool} {size : Nat} {info : ChunkInfo} {key : Key}
    (hsize : 0 < size)
    (h : writeEqual painting r (fun _ => c) single size info key σ = .ok σ') :
    Painted c σ σ' ∧ Shows c σ' := by
  obtain ⟨op, hop, h⟩ := bind_eq_ok.mp h
  exact writeOpOperate_plain (plain_userData c) (buildEqual_pos hsize hop) h

/-- A chunk with conversion. -/
theorem writeConverted_paint {t : Tconv} {info : ChunkInfo} {key : Key}
    {tconvBuf bkgBuf : Ptr (List Byte)} {done : List Byte × Option (List Byte) × Store}
    (hsrc : 0 < t.srcTypeSize) (hdst : 0 < t.dstTypeSize)
    (h : writeConverted painting r (fun _ => c) t info key tconvBuf bkgBuf σ = .ok done) :
    Painted c σ done.2.2 ∧ Shows c done.2.2 := by
  unfold writeConverted at h
  obtain ⟨op, hop, h⟩ := bind_eq_ok.mp h
  obtain ⟨bkg, -, h⟩ := bind_eq_ok.mp h
  obtain ⟨old, -, h⟩ := bind_eq_ok.mp h
  obtain ⟨tconv, hgather, h⟩ := bind_eq_ok.mp h
  obtain ⟨converted, hconvert, h⟩ := bind_eq_ok.mp h
  obtain ⟨σ₁, hwrite, h⟩ := bind_eq_ok.mp h
  cases h
  obtain ⟨hn, hpos⟩ := buildIoOpContig_pos hsrc hop
  -- gathered elements fill the front of the buffer, the conversion the rest
  have hplain := hConvert_painting (headD_gather hn hdst hgather) hconvert
  exact writeOpOperate_plain (plain_load hplain) hpos hwrite

theorem writeChunk_paint {single : Bool} {s s' : WriteLocals × Store} {info : ChunkInfo}
    (hsrc : 0 < s.1.tconv.srcTypeSize)
    (hdst : s.1.tconv.typesEqual = false → 0 < s.1.tconv.dstTypeSize)
    (h : writeChunk painting r (fun _ => c) single s info = .ok s') :
    Painted c s.2 s'.2 ∧ Shows c s'.2 := by
  unfold writeChunk at h
  obtain ⟨oid, -, h⟩ := bind_eq_ok.mp h
  obtain ⟨key, -, h⟩ := bind_eq_ok.mp h
  split at h
  · obtain ⟨σ₁, hwrite, h⟩ := bind_eq_ok.mp h
    cases h
    exact writeEqual_paint hsrc hwrite
  next hequal =>
    obtain ⟨done, hwrite, h⟩ := bind_eq_ok.mp h
    cases h
    exact writeConverted_paint hsrc (hdst (by simpa using hequal)) hwrite

/-- The loop over the chunks. -/
theorem writeChunks_paint {single : Bool} {infos : List ChunkInfo} :
    ∀ {s s' : WriteLocals × Store}, 0 < s.1.tconv.srcTypeSize →
      (s.1.tconv.typesEqual = false → 0 < s.1.tconv.dstTypeSize) →
      infos.foldlM (writeChunk painting r (fun _ => c) single) s = .ok s' →
      Painted c s.2 s'.2 ∧ (infos ≠ [] → Shows c s'.2) := by
  induction infos with
  | nil =>
    intro s s' _ _ h
    cases h
    exact ⟨fun _ => .inr rfl, fun hne => absurd rfl hne⟩
  | cons info infos ih =>
    intro s s' hsrc hdst h
    obtain ⟨s₁, hs₁, h⟩ := bind_eq_ok.mp h
    obtain ⟨hpainted, hshows⟩ := writeChunk_paint hsrc hdst hs₁
    obtain ⟨-, -, hsame⟩ := writeChunk_ok hs₁
    obtain ⟨hrest, -⟩ := ih (hsame ▸ hsrc) (hsame ▸ hdst) h
    exact ⟨hpainted.trans hrest, fun _ => hrest.shows hshows⟩

/-- A write of one byte value from the start of a call. -/
theorem writeIteration_paint (hsize : 0 < r.dset.type.size) (hmem : 0 < r.memType.size)
    {s : Step WriteLocals Store}
    (h : writeIteration painting r (fun _ => c) .init σ = .ok s) :
    Painted c σ (result s).1 ∧ (r.realFileSpace.npoints ≠ 0 → Shows c (result s).1) := by
  by_cases hne : r.realFileSpace.npoints = 0
  · obtain rfl := Except.ok.inj ((if_pos hne).symm.trans h)
    exact ⟨fun _ => .inr rfl, fun h => absurd hne h⟩
  · unfold writeIteration at h
    rw [if_neg hne] at h
    obtain ⟨t, _, first, rest, done, _, ht, -, hdone, -, -, -, rfl⟩ := writeDataset_ok h
    obtain ⟨hsrc, hdst⟩ := tconvInit_sizes ht
    -- there is at least one chunk
    obtain ⟨hpainted, hshows⟩ := writeChunks_paint (s := (allocate painting t first .init, σ))
      (hsrc ▸ hsize) (fun hequal => hdst hequal ▸ hmem) hdone
    exact ⟨hpainted, fun _ => hshows (List.cons_ne_nil _ _)⟩

end Paint

/-! ## Which writes can be joined -/

/-- A dataset whose write is defined as a call of its own, whatever is stored and written; no type
is empty. -/
structure Writable (r : Request) : Prop where
  type_pos : 0 < r.dset.type.size
  memType_pos : 0 < r.memType.size
  defined : ∀ env buf σ, ∃ x, datasetWrite env [(r, buf)] .init σ = .ok x

section Joined

variable {env : Env} {σ : Store}

theorem singleWrites_ok {ts : List (Request × Buffer)} (h : ∀ t ∈ ts, Writable t.1) (env : Env)
    (σ : Store) : ∃ σ', singleWrites env ts σ = .ok σ' := by
  induction ts generalizing σ with
  | nil => exact ⟨σ, rfl⟩
  | cons t ts ih =>
    obtain ⟨x, hx⟩ := (h t List.mem_cons_self).defined env t.2 σ
    obtain ⟨σ', hσ'⟩ := ih (fun t' ht' => h t' (List.mem_cons_of_mem _ ht')) x.1
    refine ⟨σ', ?_⟩
    rw [singleWrites, hx]
    exact hσ'

/-- One call for one dataset, with one byte value. -/
theorem datasetWrite_paint {c : Byte} {r : Request} (hr : Writable r) {x : Store × List Owner}
    (h : datasetWrite painting [(r, fun _ => c)] .init σ = .ok x) :
    Painted c σ x.1 ∧ (r.realFileSpace.npoints ≠ 0 → Shows c x.1) := by
  rw [datasetWrite_eq_run, run_single] at h
  obtain ⟨s, hiter, rfl⟩ := map_eq_ok.mp h
  exact writeIteration_paint hr.type_pos hr.memType_pos hiter

theorem singleWrites_paint {c : Byte} {rs : List Request} (hw : ∀ r ∈ rs, Writable r) :
    ∀ {σ σ' : Store}, singleWrites painting (rs.map fun r => (r, fun _ => c)) σ = .ok σ' →
      Painted c σ σ' ∧ ((∃ r ∈ rs, r.realFileSpace.npoints ≠ 0) → Shows c σ') := by
  induction rs with
  | nil =>
    intro σ σ' h
    cases h
    exact ⟨fun _ => .inr rfl, fun ⟨_, hr, _⟩ => by cases hr⟩
  | cons r rs ih =>
    intro σ σ' h
    obtain ⟨x, hx, h⟩ := bind_eq_ok.mp h
    obtain ⟨hpainted, hshows⟩ := datasetWrite_paint (hw r List.mem_cons_self) hx
    obtain ⟨hrest, hshows'⟩ := ih (fun r' hr' => hw r' (List.mem_cons_of_mem _ hr')) h
    refine ⟨hpainted.trans hrest, ?_⟩
    rintro ⟨r', hr', hne⟩
    rcases List.mem_cons.mp hr' with rfl | hr'
    · exact hrest.shows (hshows hne)
    · exact hshows' ⟨r', hr', hne⟩

theorem oneOfTwo_of_write {ts : List (Request × Buffer)} {x : Store × List Owner}
    (h : datasetWrite env ts .init σ = .ok x) : OneOfTwo (writeStep env) ts := by
  rw [datasetWrite_eq_run] at h
  refine oneOfTwo_of_ok (fun L => L.chunkOid = .freed) ?_ ?_ h
  · intro t σ s hreturns hs
    obtain ⟨L', σ', closed, rfl, hfreed, -⟩ :=
      writeIteration_first (fun hempty => hreturns (returning_write hempty env)) hs
    exact ⟨L', σ', closed, rfl, hfreed⟩
  · intro t L σ s hreturns hfreed
    exact writeIteration_freed (fun hempty => hreturns (returning_write hempty env)) hfreed

/-- One call is enough only if no dataset but the first one has a selection. -/
theorem empty_of_writesAsSingles {rs : List Request} (hw : ∀ r ∈ rs, Writable r)
    (h : WritesAsSingles rs) : ∀ r ∈ rs.tail, r.realFileSpace.npoints = 0 := by
  cases rs with
  | nil => exact nofun
  | cons r₁ rest =>
    intro r hr
    by_contra hne
    -- ones for the first dataset, twos for the others
    have hrest : ∀ r ∈ rest, Writable r := fun r hr => hw r (List.mem_cons_of_mem _ hr)
    let ts : List (Request × Buffer) := (r₁, fun _ => 1) :: rest.map fun r => (r, fun _ => 2)
    have hts : ts.map Prod.fst = r₁ :: rest := by simp [ts, Function.comp_def]
    have hwritable : ∀ t ∈ ts, Writable t.1 := fun t ht => hw _ (hts ▸ List.mem_map_of_mem ht)
    obtain ⟨σ', hsingle⟩ := singleWrites_ok hwritable painting fun _ => none
    obtain ⟨x, hx, rfl⟩ := h.effect painting ts _ _ hts hsingle
    have htwo : Shows 2 x.1 := by
      obtain ⟨x₁, -, hlater⟩ := bind_eq_ok.mp hsingle
      exact (singleWrites_paint hrest hlater).2 ⟨r, hr, hne⟩
    have hone : Painted 1 (fun _ => none) x.1 := by
      have honly := oneOfTwo_of_write hx
      rw [datasetWrite_eq_run, run_of_oneOfTwo honly, ← run_single, ← datasetWrite_eq_run] at hx
      exact (datasetWrite_paint (hw r₁ List.mem_cons_self) hx).1
    -- the single calls leave a two somewhere, the call for all only zeros and ones
    obtain ⟨loc, hloc⟩ := htwo
    rcases hone loc with h1 | h0
    · rw [hloc] at h1
      cases h1
    · rw [hloc] at h0
      cases h0

end Joined

/-- A write of equal types that HDF5 admits is defined as a call of its own. -/
theorem writable_of_arrayWrite {d : ArrayDataset} (w : ArrayWrite d) : Writable w.req := by
  refine ⟨d.type_pos, d.type_pos, fun env buf σ => ?_⟩
  obtain ⟨σ', hrun, -⟩ := run_spec { w with buf := buf } env σ
  obtain ⟨x, hx, -⟩ := map_eq_ok.mp hrun
  exact ⟨x, hx⟩

section Converted

variable {r : Request} {t : Tconv}

/-- A chunk with a conversion that needs no background: the buffer has room for the elements of
both types. -/
theorem writeConverted_ok (env : Env) (buf : Buffer) {info : ChunkInfo} {key : Key}
    {tconv : List Byte} {bkgBuf : Ptr (List Byte)} {σ : Store} (hvalid : info.fspace.Valid)
    (hsrc : 0 < t.srcTypeSize) (hpos : 0 < info.fspace.npoints)
    (hcount : info.mspace.npoints = info.fspace.npoints)
    (hbkg : t.needBkg = false) (hfill : t.fillBkg = false)
    (hsizes : t.srcTypeSize = r.dset.type.size ∧ t.dstTypeSize = r.memType.size)
    (hroom : info.fspace.npoints * max t.srcTypeSize t.dstTypeSize ≤ tconv.length) :
    ∃ done, writeConverted env r buf t info key (.live tconv) bkgBuf σ = .ok done := by
  obtain ⟨runs, hop, hbytes⟩ := buildIoOpContig_spec env.iter hvalid hsrc hpos
  rw [← hcount] at hop
  have hback : background t (contiguous runs 0) key σ bkgBuf = .ok none := by
    unfold background
    simp [hbkg, hfill]
  obtain ⟨g, σ', -, hdone, -⟩ :=
    writeConverted_of_background env r buf hop hbytes hcount hsizes hback nofun hroom
  exact ⟨_, hdone⟩

/-- A write of a dataset that is not chunked, with a conversion that needs no background, is
defined as a call of its own. -/
theorem writable_of_conversion
    (hlayout : r.dset.layout = .compact ∨ r.dset.layout = .contiguous)
    (hrank : r.dset.extent.length ≤ 99) (htype : 0 < r.dset.type.size)
    (hmemType : 0 < r.memType.size) (hne : r.dset.type ≠ r.memType)
    (hbkg : needBkg r.dset.type r.memType = .returns false false)
    (hvalid : r.realFileSpace.Valid)
    (hcount : r.realMemSpace.npoints = r.realFileSpace.npoints)
    (hroom : r.realFileSpace.npoints ≤ r.realFileSpace.extentNpoints)
    (hsmall : r.realFileSpace.extentNpoints * max r.dset.type.size r.memType.size <
      18446744073709551616) : Writable r := by
  refine ⟨htype, hmemType, fun env buf σ => ?_⟩
  rw [datasetWrite_eq_run, run_single]
  by_cases hempty : r.realFileSpace.npoints = 0
  · exact ⟨_, congrArg (Except.map _) (if_pos hempty)⟩
  · obtain ⟨t, ht, hsrc, hdst, hequal, hneed, hfill⟩ := tconvInit_returns env.dstAbove hne hbkg
    let info : ChunkInfo := ⟨List.replicate maxRank 0, r.realMemSpace, r.realFileSpace⟩
    have hselect : selectChunks r r.realFileSpace r.realMemSpace .null false =
        .ok (.live [info], false) := selectChunks_whole hlayout ..
    let size := r.realFileSpace.extentNpoints * max t.srcTypeSize t.dstTypeSize
    -- the buffer is allocated for as many elements as the extent has, without a wrap
    have hlen : (mallocSize env size).length = size := by
      unfold mallocSize
      rw [length_malloc, MachineInt.toUnsigned64]
      have hlt : size < 18446744073709551616 := by
        simp only [size, hsrc, hdst]
        exact hsmall
      omega
    have hfit : info.fspace.npoints * max t.srcTypeSize t.dstTypeSize ≤
        (mallocSize env size).length := by
      rw [hlen]
      exact Nat.mul_le_mul_right _ hroom
    let key := chunkName r.dset.fileName r.dset.binOid r.dset.extent.length info.chunkCoords
    obtain ⟨done, hdone⟩ : ∃ done, writeConverted env r buf t info key
        (.live (mallocSize env size)) .null σ = .ok done :=
      writeConverted_ok env buf hvalid (hsrc ▸ htype) (Nat.pos_of_ne_zero hempty) hcount hneed
        hfill ⟨hsrc, hdst⟩ hfit
    have hoid : oidCreateChunk r.dset.fileName r.dset.binOid r.dset.extent.length
        info.chunkCoords .null = .ok (.live key) := if_pos hrank
    -- there is one chunk, and each step before and after it succeeds
    have hstep : ∃ s, writeIteration env r buf .init σ = .ok s := by
      unfold writeIteration
      rw [if_neg hempty]
      unfold writeDataset WriteLocals.init
      simp only [ht, hselect, orFault_some, ok_bind, Ptr.deref, List.head?_cons,
        List.foldlM_cons, List.foldlM_nil]
      unfold writeChunk
      simp only [allocate, hoid, hequal, hneed, ok_bind, Ptr.deref, Bool.false_eq_true, if_false]
      have hdone' : writeConverted env r buf t info key (.live (mallocSize env
          (info.fspace.extentNpoints * max t.srcTypeSize t.dstTypeSize))) .null σ = .ok done :=
        hdone
      rw [hdone']
      obtain ⟨tconv, bkg, σ'⟩ := done
      cases bkg with
      | none => exact ⟨_, rfl⟩
      | some b => exact ⟨_, rfl⟩
    obtain ⟨s, hs⟩ := hstep
    exact ⟨_, congrArg (Except.map _) hs⟩

end Converted

end DTIO.Properties.JoinedWrites
