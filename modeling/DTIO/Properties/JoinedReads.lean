import DTIO.Properties.DatasetReads
import DTIO.Properties.JoinedWrites

/-!
# Joined Reads

A call of `H5VL_dtio_dataset_read` with several datasets, and calls with one dataset each.  What
is read lands in the array `buf`, from its start on, and not in the buffers that it points to.

## Main definitions

- `ReadsAsSingles`: one call is as good as several
- `Moves`: a read that asks for elements
- `Readable`: a dataset that can be read by a call of its own

## Main results

- `readIteration_buffers`: what is read does not get into the buffers
- `readIteration_append`: what is behind the memory of an iteration is not touched
- `readsAsSingles_of_idle`, `idle_of_readsAsSingles`: one call is as good as several exactly if the
  first or the second dataset ends it and none but the first one is asked for anything
- `readable_of_arrayRead`: requests whose single calls are defined
-/

namespace DTIO.Properties.JoinedReads

open DTIO.Posix DTIO.Grid DTIO.Memory DTIO.Vol
open DTIO.Properties.ChunkedStorage DTIO.Properties.DatasetReads
open DTIO.Properties.DatasetLoop DTIO.Properties.JoinedWrites

/-- An element of the array `buf`: the bytes of a pointer, and the buffer that it points to. -/
structure BufEntry where
  pointer : List Byte
  length_pointer : pointer.length = 8
  buffer : Buffer

/-- The array `buf`. -/
def target (es : List BufEntry) : ReadTarget :=
  ⟨es.flatMap BufEntry.pointer, es.map BufEntry.buffer⟩

/-- The memory of a call, and behind it that of others. -/
def append (w w' : ReadTarget) : ReadTarget := ⟨w.array ++ w'.array, w.buffers ++ w'.buffers⟩

theorem append_target (e : BufEntry) (es : List BufEntry) :
    append (target [e]) (target es) = target (e :: es) := by
  simp [append, target]

/-- Calls of `H5VL_dtio_dataset_read` with one dataset each: the array and the buffers
afterwards. -/
def singleReads (env : Env) (σ : Store) : List (Request × BufEntry) → Except Stop ReadTarget
  | [] => .ok (target [])
  | t :: ts => do
    let x ← datasetRead env σ [t.1] .init (target [t.2])
    let later ← singleReads env σ ts
    return append x.1 later

/-- One call of `H5VL_dtio_dataset_read` does what the calls for the single datasets do,
wherever these are defined. -/
structure ReadsAsSingles (rs : List Request) : Prop where
  effect : ∀ env σ (ts : List (Request × BufEntry)) w, ts.map Prod.fst = rs →
    singleReads env σ ts = .ok w →
    ∃ x, datasetRead env σ rs .init (target (ts.map Prod.snd)) = .ok x ∧ x.1 = w
  independent : ∀ env σ w, Independent (readIteration env σ) .init w rs
  owned : ∀ env σ w x, datasetRead env σ rs .init w = .ok x → ∀ o ∈ x.2, o = .connector

/-! ## Reads -/

section Read

variable {env : Env} {r : Request} {L : ReadLocals} {σ : Store} {w : ReadTarget}

/-- An empty selection ends the call, and nothing else does. -/
theorem returning_read_iff :
    Returning (readIteration env σ) r ↔ selectNpoints r.fileSpace = 0 := by
  refine ⟨fun hreturns => ?_, fun hempty _ _ => if_pos hempty⟩
  by_contra hne
  have h := hreturns .init ⟨[], []⟩
  unfold readIteration at h
  rw [if_neg hne] at h
  obtain ⟨_, _, _, _, _, _, -, -, -, -, -, -, hs⟩ := readDataset_ok h
  cases hs

theorem readIteration_freed (hne : selectNpoints r.fileSpace ≠ 0) (hfreed : L.chunkOid = .freed)
    {s : Step ReadLocals ReadTarget} : readIteration env σ r L w ≠ .ok s := by
  intro h
  unfold readIteration at h
  rw [if_neg hne] at h
  obtain ⟨_, _, _, _, _, _, -, -, -, hlive, -⟩ := readDataset_ok h
  exact hlive hfreed

theorem closedReadSpaces_init {chunkInfo infos : Ptr (List ReadChunk)} {closeSpaces : Bool}
    (h : selectReadChunks r chunkInfo false = .ok (infos, closeSpaces)) (l : List ReadChunk) :
    ∀ o ∈ closedReadSpaces r closeSpaces l, o = .connector := by
  unfold selectReadChunks at h
  unfold closedReadSpaces
  -- only a chunked layout makes spaces of its own
  cases hlayout : r.dset.layout with
  | chunked dims =>
    intro o ho
    split at ho
    · exact connector_of_mem l o ho
    · cases ho
  | compact =>
    rw [hlayout] at h
    cases h
    simp
  | contiguous =>
    rw [hlayout] at h
    cases h
    simp
  | other =>
    rw [hlayout] at h
    cases h
    simp

/-- The first iteration with a selection. -/
theorem readIteration_first (hne : selectNpoints r.fileSpace ≠ 0) {s : Step ReadLocals ReadTarget}
    (h : readIteration env σ r .init w = .ok s) :
    ∃ L' w' closed, s = .next L' w' closed ∧ L'.chunkOid = .freed ∧
      ∀ o ∈ closed, o = .connector := by
  unfold readIteration at h
  rw [if_neg hne] at h
  obtain ⟨_, selected, first, rest, done, L', -, hselect, -, -, hfreed, -, rfl⟩ :=
    readDataset_ok h
  exact ⟨L', done.2, _, rfl, hfreed, closedReadSpaces_init hselect _⟩

theorem readIteration_owned {s : Step ReadLocals ReadTarget}
    (h : readIteration env σ r .init w = .ok s) : ∀ o ∈ (result s).2, o = .connector := by
  by_cases hne : selectNpoints r.fileSpace = 0
  · obtain rfl := Except.ok.inj ((if_pos hne).symm.trans h)
    exact nofun
  · obtain ⟨_, _, _, rfl, -, hclosed⟩ := readIteration_first hne h
    exact hclosed

/-! ### The buffers -/

theorem readChunks_buffers {infos : List ReadChunk} :
    ∀ {s s' : ReadLocals × ReadTarget}, infos.foldlM (readChunk env r σ) s = .ok s' →
      s'.2.buffers = s.2.buffers := by
  induction infos with
  | nil =>
    intro s s' h
    cases h
    rfl
  | cons info infos ih =>
    intro s s' h
    obtain ⟨s₁, hs₁, h⟩ := bind_eq_ok.mp h
    rw [ih h, (readChunk_ok hs₁).2.2]

/-- What is read does not get into the buffers. -/
theorem readIteration_buffers {s : Step ReadLocals ReadTarget}
    (h : readIteration env σ r L w = .ok s) : (result s).1.buffers = w.buffers := by
  unfold readIteration at h
  split at h
  · cases h
    rfl
  · obtain ⟨_, _, _, _, _, _, -, -, hdone, -, -, -, rfl⟩ := readDataset_ok h
    exact readChunks_buffers hdone

/-! ### More memory behind the array -/

theorem readOp_append {obj : List Byte} {op : List Vol.Entry} (post : List Byte) :
    ∀ {a a' : List Byte}, op.foldlM (readEntry obj) a = some a' →
      op.foldlM (readEntry obj) (a ++ post) = some (a' ++ post) := by
  induction op with
  | nil =>
    intro a a' h
    cases h
    rfl
  | cons e op ih =>
    intro a a' h
    obtain ⟨a₁, ha₁, h⟩ := Option.bind_eq_some_iff.mp h
    have hentry : readEntry obj (a ++ post) e = some (a₁ ++ post) := store_append_right ha₁ post
    rw [List.foldlM_cons, hentry]
    exact ih h

theorem readChunk_append {info : ReadChunk} {s s' : ReadLocals × ReadTarget} (w : ReadTarget)
    (h : readChunk env r σ s info = .ok s') :
    readChunk env r σ (s.1, append s.2 w) info = .ok (s'.1, append s'.2 w) := by
  unfold readChunk at h
  obtain ⟨oid, hoid, h⟩ := bind_eq_ok.mp h
  obtain ⟨key, hkey, h⟩ := bind_eq_ok.mp h
  obtain ⟨op, hop, h⟩ := bind_eq_ok.mp h
  obtain ⟨a, ha, h⟩ := bind_eq_ok.mp h
  cases h
  have hread : readOpOperate op key σ (append s.2 w).array = .ok (a ++ w.array) :=
    orFault_eq_ok.mpr (readOp_append w.array (orFault_eq_ok.mp ha))
  unfold readChunk
  simp only [hoid, hkey, hop, hread, ok_bind]
  rfl

theorem readChunks_append {infos : List ReadChunk} (w : ReadTarget) :
    ∀ {s s' : ReadLocals × ReadTarget}, infos.foldlM (readChunk env r σ) s = .ok s' →
      infos.foldlM (readChunk env r σ) (s.1, append s.2 w) = .ok (s'.1, append s'.2 w) := by
  induction infos with
  | nil =>
    intro s s' h
    cases h
    rfl
  | cons info infos ih =>
    intro s s' h
    obtain ⟨s₁, hs₁, h⟩ := bind_eq_ok.mp h
    rw [List.foldlM_cons, readChunk_append w hs₁]
    exact ih h

/-- An iteration does not touch what is behind the memory that is enough for it. -/
theorem readIteration_append {s : Step ReadLocals ReadTarget} (w' : ReadTarget)
    (h : readIteration env σ r L w = .ok s) :
    ∃ s', readIteration env σ r L (append w w') = .ok s' ∧
      (result s').1 = append (result s).1 w' := by
  unfold readIteration at h ⊢
  split at h
  next hempty =>
    cases h
    exact ⟨_, if_pos hempty, rfl⟩
  next hne =>
    rw [if_neg hne]
    unfold readDataset at h ⊢
    obtain ⟨t, ht, h⟩ := bind_eq_ok.mp h
    obtain ⟨selected, hselected, h⟩ := bind_eq_ok.mp h
    obtain ⟨infos, hinfos, h⟩ := bind_eq_ok.mp h
    obtain ⟨first, hfirst, h⟩ := bind_eq_ok.mp h
    obtain ⟨done, hdone, h⟩ := bind_eq_ok.mp h
    obtain ⟨oid, hoid, h⟩ := bind_eq_ok.mp h
    cases h
    simp only [ht, hselected, hinfos, hfirst, readChunks_append w' hdone, hoid, ok_bind]
    exact ⟨_, rfl, rfl⟩

/-! ### Which reads can be joined -/

/-- The first dataset or the second one has an empty selection. -/
def FirstOrSecondEmpty (rs : List Request) : Prop :=
  ∀ r₁ r₂ rest, rs = r₁ :: r₂ :: rest →
    selectNpoints r₁.fileSpace = 0 ∨ selectNpoints r₂.fileSpace = 0

theorem oneOfTwo_read_iff {rs : List Request} :
    OneOfTwo (readIteration env σ) rs ↔ FirstOrSecondEmpty rs := by
  unfold OneOfTwo FirstOrSecondEmpty
  simp only [returning_read_iff]

theorem oneOfTwo_of_read {rs : List Request} {x : ReadTarget × List Owner}
    (h : datasetRead env σ rs .init w = .ok x) : FirstOrSecondEmpty rs := by
  rw [datasetRead_eq_run] at h
  refine oneOfTwo_read_iff.mp (oneOfTwo_of_ok (fun L => L.chunkOid = .freed) ?_ ?_ h)
  · intro r w s hreturns hs
    obtain ⟨L', w', closed, rfl, hfreed, -⟩ :=
      readIteration_first (fun hempty => hreturns (returning_read_iff.mpr hempty)) hs
    exact ⟨L', w', closed, rfl, hfreed⟩
  · intro r L w s hreturns hfreed
    exact readIteration_freed (fun hempty => hreturns (returning_read_iff.mpr hempty)) hfreed

/-! ### Which reads transfer something -/

/-- A read that asks for elements.  With `H5S_ALL` for one of the dataspaces the operation stays
empty. -/
def Moves (r : Request) : Prop :=
  selectNpoints r.fileSpace ≠ 0 ∧ r.fileSpace.isSome ∧ r.memSpace.isSome

instance (r : Request) : Decidable (Moves r) :=
  inferInstanceAs (Decidable (selectNpoints r.fileSpace ≠ 0 ∧ r.fileSpace.isSome ∧
    r.memSpace.isSome))

/-- An operation without a dataspace is empty. -/
theorem buildRead_all {size : Nat} {info : ReadChunk} {op : List Vol.Entry}
    (hall : info.mspace = none ∨ info.fspace = none)
    (h : buildRead env size info = .ok op) : op = [] := by
  unfold buildRead at h
  split at h
  next hmem hfile =>
    rw [hmem, hfile] at hall
    rcases hall with hall | hall <;> cases hall
  next =>
    split at h
    · cases h
      rfl
    · cases h
  next =>
    cases h
    rfl

theorem readChunk_all {info : ReadChunk} {s s' : ReadLocals × ReadTarget}
    (hall : info.mspace = none ∨ info.fspace = none) (h : readChunk env r σ s info = .ok s') :
    s'.2 = s.2 := by
  unfold readChunk at h
  obtain ⟨oid, -, h⟩ := bind_eq_ok.mp h
  obtain ⟨key, -, h⟩ := bind_eq_ok.mp h
  obtain ⟨op, hop, h⟩ := bind_eq_ok.mp h
  obtain ⟨a, ha, h⟩ := bind_eq_ok.mp h
  cases h
  obtain rfl := buildRead_all hall hop
  obtain rfl := Option.some.inj (orFault_eq_ok.mp ha)
  rfl

/-- With `H5S_ALL` there are chunks only for a dataset that is not chunked. -/
theorem selectReadChunks_all {first : ReadChunk} {rest : List ReadChunk} {closeSpaces : Bool}
    (hall : r.fileSpace = none ∨ r.memSpace = none)
    (h : selectReadChunks r .null false = .ok (.live (first :: rest), closeSpaces)) :
    rest = [] ∧ (first.mspace = none ∨ first.fspace = none) := by
  unfold selectReadChunks at h
  split at h
  · cases h
    exact ⟨rfl, hall.symm⟩
  · cases h
    exact ⟨rfl, hall.symm⟩
  · split at h
    next hfile hmem =>
      rw [hfile, hmem] at hall
      rcases hall with hall | hall <;> cases hall
    next => cases h
  · cases h

/-- A call that asks for nothing leaves the array as it is. -/
theorem datasetRead_idle (hidle : ¬ Moves r) {x : ReadTarget × List Owner}
    (h : datasetRead env σ [r] .init w = .ok x) : x.1 = w := by
  rw [datasetRead_eq_run, run_single] at h
  obtain ⟨s, hiter, rfl⟩ := map_eq_ok.mp h
  unfold readIteration at hiter
  split at hiter
  · cases hiter
    rfl
  next hne =>
    have hall : r.fileSpace = none ∨ r.memSpace = none := by
      by_contra hboth
      rw [not_or] at hboth
      exact hidle ⟨hne, Option.isSome_iff_ne_none.mpr hboth.1,
        Option.isSome_iff_ne_none.mpr hboth.2⟩
    obtain ⟨t, closeSpaces, first, rest, done, L', -, hselect, hdone, -, -, -, rfl⟩ :=
      readDataset_ok hiter
    obtain ⟨rfl, hfirst⟩ := selectReadChunks_all hall hselect
    obtain ⟨s₁, hs₁, hrest⟩ := bind_eq_ok.mp hdone
    cases hrest
    exact readChunk_all hfirst hs₁

theorem singleReads_idle {ts : List (Request × BufEntry)} (hidle : ∀ t ∈ ts, ¬ Moves t.1) :
    ∀ {w : ReadTarget}, singleReads env σ ts = .ok w → w = target (ts.map Prod.snd) := by
  induction ts with
  | nil =>
    intro w h
    cases h
    rfl
  | cons t ts ih =>
    intro w h
    obtain ⟨x, hx, h⟩ := bind_eq_ok.mp h
    obtain ⟨later, hlater, h⟩ := bind_eq_ok.mp h
    cases h
    rw [datasetRead_idle (hidle t List.mem_cons_self) hx,
      ih (fun t' ht' => hidle t' (List.mem_cons_of_mem _ ht')) hlater]
    exact append_target t.2 _

/-- One call is enough if the first or the second dataset ends it and none but the first is asked
for anything. -/
theorem readsAsSingles_of_idle {rs : List Request} (h : FirstOrSecondEmpty rs)
    (hidle : ∀ r ∈ rs.tail, ¬ Moves r) : ReadsAsSingles rs := by
  constructor
  · intro env σ ts w hts hsingle
    cases ts with
    | nil =>
      obtain rfl : [] = rs := hts
      cases hsingle
      exact ⟨_, rfl, rfl⟩
    | cons t ts =>
      obtain rfl : t.1 :: ts.map Prod.fst = rs := hts
      obtain ⟨x, hx, hsingle⟩ := bind_eq_ok.mp hsingle
      obtain ⟨later, hlater, hsingle⟩ := bind_eq_ok.mp hsingle
      cases hsingle
      rw [datasetRead_eq_run, run_single] at hx
      obtain ⟨s, hiter, rfl⟩ := map_eq_ok.mp hx
      -- the later calls do nothing, and the first one does the same in the whole array
      obtain rfl := singleReads_idle (fun t ht => hidle t.1 (List.mem_map_of_mem ht)) hlater
      obtain ⟨s', hs', hresult⟩ := readIteration_append (target (ts.map Prod.snd)) hiter
      refine ⟨result s', ?_, hresult⟩
      rw [datasetRead_eq_run, run_of_oneOfTwo (oneOfTwo_read_iff.mpr h), List.map_cons,
        ← append_target, hs']
      rfl
  · intro env σ w
    exact independent_of_oneOfTwo (oneOfTwo_read_iff.mpr h) w
  · intro env σ w x hx
    cases rs with
    | nil =>
      cases hx
      exact nofun
    | cons r rs =>
      rw [datasetRead_eq_run, run_of_oneOfTwo (oneOfTwo_read_iff.mpr h)] at hx
      obtain ⟨s, hiter, rfl⟩ := map_eq_ok.mp hx
      exact readIteration_owned hiter

end Read

/-! ## Reads of one byte value -/

section Ones

variable {r : Request} {n : Nat} {w : ReadTarget}

/-- Every object has `n` ones. -/
def ones (n : Nat) : Store := fun _ => some (List.replicate n 1)

theorem mem_store_ones {mem mem' : List Byte} {off k : Nat}
    (h : store mem off (List.replicate k 1) = some mem') (hone : 1 ∈ mem ∨ 0 < k) :
    (1 : Byte) ∈ mem' := by
  have hplace := getElem?_store h
  rw [List.length_replicate] at hplace
  by_cases hk : 0 < k
  · refine List.mem_of_getElem? (i := off) ?_
    rw [hplace, if_pos ⟨le_rfl, Nat.lt_add_of_pos_right hk⟩, List.getElem?_replicate,
      if_pos (by omega)]
  · obtain ⟨i, hi⟩ := List.getElem?_of_mem (hone.resolve_right hk)
    refine List.mem_of_getElem? (i := i) ?_
    rw [hplace, if_neg (by omega), hi]

/-- Ones stay in the array, and a triple that is not empty brings some. -/
theorem foldlM_readEntry_ones {op : List Vol.Entry} :
    ∀ {a a' : List Byte}, op.foldlM (readEntry (List.replicate n 1)) a = some a' →
      (1 ∈ a ∨ ∃ e ∈ op, 0 < e.len ∧ e.objOff < n) → 1 ∈ a' := by
  induction op with
  | nil =>
    intro a a' h hone
    cases h
    rcases hone with hone | ⟨e, he, -⟩
    · exact hone
    · cases he
  | cons e op ih =>
    intro a a' h hone
    obtain ⟨a₁, ha₁, h⟩ := Option.bind_eq_some_iff.mp h
    unfold readEntry ByteFile.readAt at ha₁
    rw [List.drop_replicate, List.take_replicate] at ha₁
    refine ih h ?_
    rcases hone with hone | ⟨e', he', hlen, hoff⟩
    · exact .inl (mem_store_ones ha₁ (.inl hone))
    · rcases List.mem_cons.mp he' with rfl | he'
      · exact .inl (mem_store_ones ha₁ (.inr (by omega)))
      · exact .inr ⟨e', he', hlen, hoff⟩

/-- A chunk that has ones in its objects where the operation reads. -/
def Shines (n size : Nat) (info : ReadChunk) : Prop :=
  ∃ op, buildRead painting size info = .ok op ∧ ∃ e ∈ op, 0 < e.len ∧ e.objOff < n

theorem readChunk_ones {s s' : ReadLocals × ReadTarget} {info : ReadChunk}
    (h : readChunk painting r (ones n) s info = .ok s')
    (hone : 1 ∈ s.2.array ∨ Shines n s.1.tconv.srcTypeSize info) : 1 ∈ s'.2.array := by
  unfold readChunk at h
  obtain ⟨oid, -, h⟩ := bind_eq_ok.mp h
  obtain ⟨key, -, h⟩ := bind_eq_ok.mp h
  obtain ⟨op, hop, h⟩ := bind_eq_ok.mp h
  obtain ⟨a, ha, h⟩ := bind_eq_ok.mp h
  cases h
  refine foldlM_readEntry_ones (orFault_eq_ok.mp ha) ?_
  rcases hone with hone | ⟨op', hop', hentry⟩
  · exact .inl hone
  · obtain rfl := Except.ok.inj (hop.symm.trans hop')
    exact .inr hentry

theorem readChunks_ones {infos : List ReadChunk} {s s' : ReadLocals × ReadTarget}
    (h : infos.foldlM (readChunk painting r (ones n)) s = .ok s') (hone : 1 ∈ s.2.array) :
    1 ∈ s'.2.array := by
  induction infos generalizing s with
  | nil =>
    cases h
    exact hone
  | cons info infos ih =>
    obtain ⟨s₁, hs₁, h⟩ := bind_eq_ok.mp h
    exact ih h (readChunk_ones hs₁ (.inl hone))

/-- The chunks of a read that asks for elements have two dataspaces. -/
theorem selectReadChunks_moves (hmoves : Moves r) {first : ReadChunk} {rest : List ReadChunk}
    {closeSpaces : Bool}
    (h : selectReadChunks r .null false = .ok (.live (first :: rest), closeSpaces)) :
    first.mspace.isSome ∧ first.fspace.isSome := by
  unfold selectReadChunks at h
  -- one chunk: its spaces are the request's, which both select
  split at h
  · cases h
    exact ⟨hmoves.2.2, hmoves.2.1⟩
  · cases h
    exact ⟨hmoves.2.2, hmoves.2.1⟩
  -- chunked: the list's own first entry, which has both
  · split at h
    · split at h
      next infos _ =>
        cases infos with
        | nil => cases h
        | cons info infos =>
          cases h
          exact ⟨rfl, rfl⟩
      · cases h
      · cases h
    · cases h
  · cases h

theorem buildRead_shines {size : Nat} {info : ReadChunk} {op : List Vol.Entry} (hsize : 0 < size)
    (hspaces : info.mspace.isSome ∧ info.fspace.isSome)
    (h : buildRead painting size info = .ok op) : ∃ n, Shines n size info := by
  obtain ⟨mem, hmem⟩ := Option.isSome_iff_exists.mp hspaces.1
  obtain ⟨file, hfile⟩ := Option.isSome_iff_exists.mp hspaces.2
  have hbuild := h
  unfold buildRead at h
  rw [hmem, hfile] at h
  simp only at h
  unfold buildIoOpMerge at h
  have hbs := fun s => progress_elementwise s hsize seqListLen
  split at h
  · obtain ⟨e, he, hlen⟩ := mergeLoop_pos (hbs mem) (hbs file) h
    exact ⟨e.objOff + 1, op, hbuild, e, he, hlen, Nat.lt_succ_self _⟩
  · cases h

/-- A read that asks for elements gets some, if the objects are long enough. -/
theorem datasetRead_ones (hsize : 0 < r.dset.type.size) (hmoves : Moves r)
    {x₀ : ReadTarget × List Owner} {σ : Store}
    (hdefined : datasetRead painting σ [r] .init w = .ok x₀) :
    ∃ n, ∀ {w x}, datasetRead painting (ones n) [r] .init w = .ok x → 1 ∈ x.1.array := by
  rw [datasetRead_eq_run, run_single] at hdefined
  obtain ⟨s, hiter, -⟩ := map_eq_ok.mp hdefined
  unfold readIteration at hiter
  rw [if_neg hmoves.1] at hiter
  obtain ⟨t, closeSpaces, first, rest, done, -, ht, hselect, hdone, -⟩ := readDataset_ok hiter
  -- the operation for the first chunk, which does not depend on what is stored
  obtain ⟨s₁, hs₁, -⟩ := bind_eq_ok.mp hdone
  unfold readChunk at hs₁
  obtain ⟨oid, -, hs₁⟩ := bind_eq_ok.mp hs₁
  obtain ⟨key, -, hs₁⟩ := bind_eq_ok.mp hs₁
  obtain ⟨op, hop, -⟩ := bind_eq_ok.mp hs₁
  obtain ⟨n, hshines⟩ := buildRead_shines (tconvInit_src ht ▸ hsize)
    (selectReadChunks_moves hmoves hselect) hop
  refine ⟨n, fun {w x} h => ?_⟩
  rw [datasetRead_eq_run, run_single] at h
  obtain ⟨s', hiter', rfl⟩ := map_eq_ok.mp h
  unfold readIteration at hiter'
  rw [if_neg hmoves.1] at hiter'
  obtain ⟨t', closeSpaces', first', rest', done', _, ht', hselect', hdone', -, -, -, rfl⟩ :=
    readDataset_ok hiter'
  obtain rfl := Option.some.inj (ht.symm.trans ht')
  have hsame := hselect.symm.trans hselect'
  cases hsame
  obtain ⟨s₁', hs₁', hrest⟩ := bind_eq_ok.mp hdone'
  exact readChunks_ones hrest (readChunk_ones hs₁' (.inr hshines))

/-- What a single call leaves stands in the memory of all. -/
theorem mem_singleReads {env : Env} {σ : Store} {b : Byte} {ts : List (Request × BufEntry)}
    {t : Request × BufEntry} (ht : t ∈ ts) :
    ∀ {w : ReadTarget}, singleReads env σ ts = .ok w →
      ∃ x, datasetRead env σ [t.1] .init (target [t.2]) = .ok x ∧
        (b ∈ x.1.array → b ∈ w.array) := by
  induction ts with
  | nil => cases ht
  | cons t' ts ih =>
    intro w h
    obtain ⟨x, hx, h⟩ := bind_eq_ok.mp h
    obtain ⟨later, hlater, h⟩ := bind_eq_ok.mp h
    cases h
    rcases List.mem_cons.mp ht with rfl | ht
    · exact ⟨x, hx, List.mem_append_left _⟩
    · obtain ⟨x', hx', hmem⟩ := ih ht hlater
      exact ⟨x', hx', fun hb => List.mem_append_right _ (hmem hb)⟩

end Ones

/-! ## Which reads can be joined -/

/-- A dataset whose read is defined as a call of its own, with an array of one pointer, whatever is
stored; its type is not empty. -/
structure Readable (r : Request) : Prop where
  type_pos : 0 < r.dset.type.size
  defined : ∀ env σ e, ∃ x, datasetRead env σ [r] .init (target [e]) = .ok x

theorem singleReads_ok {ts : List (Request × BufEntry)} (h : ∀ t ∈ ts, Readable t.1) (env : Env)
    (σ : Store) : ∃ w, singleReads env σ ts = .ok w := by
  induction ts with
  | nil => exact ⟨_, rfl⟩
  | cons t ts ih =>
    obtain ⟨x, hx⟩ := (h t List.mem_cons_self).defined env σ t.2
    obtain ⟨w, hw⟩ := ih fun t' ht' => h t' (List.mem_cons_of_mem _ ht')
    refine ⟨append x.1 w, ?_⟩
    rw [singleReads, hx, ok_bind, hw]
    rfl

/-- A null pointer in the array `buf`. -/
def entry : BufEntry := ⟨List.replicate 8 0, rfl, fun _ => 0⟩

theorem firstOrSecondEmpty_of_readsAsSingles {rs : List Request} (hr : ∀ r ∈ rs, Readable r)
    (h : ReadsAsSingles rs) : FirstOrSecondEmpty rs := by
  let ts : List (Request × BufEntry) := rs.map fun r => (r, entry)
  have hts : ts.map Prod.fst = rs := by simp [ts, Function.comp_def]
  have hreadable : ∀ t ∈ ts, Readable t.1 := fun t ht => hr _ (hts ▸ List.mem_map_of_mem ht)
  obtain ⟨w, hsingle⟩ := singleReads_ok hreadable painting fun _ => none
  obtain ⟨x, hx, -⟩ := h.effect painting _ ts w hts hsingle
  exact oneOfTwo_of_read hx

/-- One call is enough only if no dataset but the first one is asked for something. -/
theorem idle_of_readsAsSingles {rs : List Request} (hr : ∀ r ∈ rs, Readable r)
    (h : ReadsAsSingles rs) : ∀ r ∈ rs.tail, ¬ Moves r := by
  have hends := firstOrSecondEmpty_of_readsAsSingles hr h
  cases rs with
  | nil => exact nofun
  | cons r₁ rest =>
    intro r hmem hmoves
    have hrest : r ∈ r₁ :: rest := List.mem_cons_of_mem _ hmem
    obtain ⟨x₀, hx₀⟩ := (hr r hrest).defined painting (fun _ => none) entry
    obtain ⟨n, hones⟩ := datasetRead_ones (hr r hrest).type_pos hmoves hx₀
    -- null pointers in the array, ones in the objects
    let ts : List (Request × BufEntry) := rest.map fun r => (r, entry)
    have hts : ts.map Prod.fst = rest := by simp [ts, Function.comp_def]
    have hreadable : ∀ t ∈ (r₁, entry) :: ts, Readable t.1 := fun t ht =>
      hr _ (by rw [← hts]; exact List.mem_map_of_mem (f := Prod.fst) ht)
    obtain ⟨w, hsingle⟩ := singleReads_ok hreadable painting (ones n)
    have hall : ((r₁, entry) :: ts).map Prod.fst = r₁ :: rest := congrArg (r₁ :: ·) hts
    obtain ⟨x, hx, rfl⟩ := h.effect painting (ones n) _ w hall hsingle
    obtain ⟨x₁, hx₁, hsingle⟩ := bind_eq_ok.mp hsingle
    obtain ⟨later, hlater, hsingle⟩ := bind_eq_ok.mp hsingle
    -- the single calls leave a one behind the first pointer
    have hone : 1 ∈ later.array := by
      obtain ⟨x', hx', hin⟩ := mem_singleReads (b := 1) (List.mem_map_of_mem hmem) hlater
      exact hin (hones hx')
    -- the call for all does not
    rw [datasetRead_eq_run, run_single] at hx₁
    obtain ⟨s, hiter, rfl⟩ := map_eq_ok.mp hx₁
    obtain ⟨s', hs', hresult⟩ := readIteration_append (target (ts.map Prod.snd)) hiter
    rw [datasetRead_eq_run, run_of_oneOfTwo (oneOfTwo_read_iff.mpr hends), List.map_cons,
      ← append_target, hs'] at hx
    cases hx
    have hsame : append (result s).1 later = append (result s).1 (target (ts.map Prod.snd)) :=
      (Except.ok.inj hsingle).trans hresult
    have harray : later.array = (target (ts.map Prod.snd)).array :=
      List.append_cancel_left (congrArg ReadTarget.array hsame)
    rw [harray] at hone
    obtain ⟨e, he, hbyte⟩ := List.mem_flatMap.mp hone
    obtain ⟨t, ht, rfl⟩ := List.mem_map.mp he
    obtain ⟨r', -, rfl⟩ := List.mem_map.mp ht
    cases List.eq_of_mem_replicate hbyte

/-- A read of equal shapes that HDF5 admits is defined as a call of its own if its places are within
one pointer. -/
theorem readable_of_arrayRead {d : ArrayDataset} (r : ArrayRead d)
    (hroom : r.Room (target [entry])) : Readable r.req := by
  refine ⟨d.type_pos, fun env σ e => ?_⟩
  have hlen : (target [e]).array.length = (target [entry]).array.length := by
    simp [target, e.length_pointer, entry.length_pointer]
  have hroom' : r.Room (target [e]) := fun m hm => by
    rw [hlen]
    exact hroom m hm
  obtain ⟨t', hrun, -⟩ := r.run_spec env σ hroom'
  obtain ⟨x, hx, -⟩ := map_eq_ok.mp hrun
  exact ⟨x, hx⟩

end DTIO.Properties.JoinedReads
