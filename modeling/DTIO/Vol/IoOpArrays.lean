import DTIO.Vol.IoOp

/-!
# The Loops over Sequence Lists

`H5VL_dtio_build_io_op_merge`, `_match` and `_contig` with the arrays that the iterators fill, the
indices into them, and the two operations that they record in.  Arrays hold what the last answer
put there, so that an access past it is out of bounds.

## Main definitions

- `SeqList`: an iterator with its arrays
- `Arrays.buildIoOpMerge`, `Arrays.buildIoOpMatch`, `Arrays.buildIoOpContig`: the functions

## Main results

- `mergeLoop_arrays`: the loop with arrays records what `mergeLoop` does
- `matchLoop_eq`, `contigLoop_eq`: the other two record what `sequences` finds
-/

namespace DTIO.Vol

open DTIO.MachineInt

namespace Arrays

/-! ## Recording -/

/-- The triples of a read and of a write operation. -/
structure Ops where
  readOp : List Entry
  writeOp : List Entry
  deriving DecidableEq, Repr

/-- `dtio_read_op_read` if there is a buffer to read into, `dtio_write_op_write` if there is one
to write from. -/
def Ops.record (ops : Ops) (rbuf wbuf : Bool) (e : Entry) : Ops where
  readOp := if rbuf = true then ops.readOp ++ [e] else ops.readOp
  writeOp := if wbuf = true then ops.writeOp ++ [e] else ops.writeOp

/-- Several triples. -/
def Ops.recordAll (ops : Ops) (rbuf wbuf : Bool) (es : List Entry) : Ops :=
  es.foldl (fun ops e => ops.record rbuf wbuf e) ops

@[simp] theorem recordAll_nil (ops : Ops) (rbuf wbuf : Bool) :
    ops.recordAll rbuf wbuf [] = ops := rfl

theorem recordAll_cons (ops : Ops) (rbuf wbuf : Bool) (e : Entry) (es : List Entry) :
    ops.recordAll rbuf wbuf (e :: es) = (ops.record rbuf wbuf e).recordAll rbuf wbuf es := rfl

theorem recordAll_append (ops : Ops) (rbuf wbuf : Bool) (es es' : List Entry) :
    ops.recordAll rbuf wbuf (es ++ es') =
      (ops.recordAll rbuf wbuf es).recordAll rbuf wbuf es' :=
  List.foldl_append

theorem recordAll_eq (ops : Ops) (rbuf wbuf : Bool) (es : List Entry) :
    ops.recordAll rbuf wbuf es =
      ⟨if rbuf = true then ops.readOp ++ es else ops.readOp,
        if wbuf = true then ops.writeOp ++ es else ops.writeOp⟩ := by
  induction es generalizing ops with
  | nil => cases rbuf <;> cases wbuf <;> simp
  | cons e es ih =>
    rw [recordAll_cons, ih]
    cases rbuf <;> cases wbuf <;> simp [Ops.record]

/-! ## Merging two lists -/

/-- `mem_off`, `mem_len`, `mem_i` and `mem_ei`, or those of the file, and the answers of the
iterator to come.  `mem_nseq` is the number of entries in the arrays. -/
structure SeqList where
  off : List Nat
  len : List Nat
  i : Nat
  ei : Nat
  rest : List Batch
  deriving DecidableEq, Repr

namespace SeqList

/-- Before the first answer. -/
def start (answers : List Batch) : SeqList := ⟨[], [], 0, 0, answers⟩

/-- Get the sequences of bytes if necessary.  The arrays have room for `H5VL_DTIO_SEQ_LIST_LEN`,
and an iterator at its end gives no sequence. -/
def fetch (s : SeqList) : Except Stop SeqList :=
  if s.i ≤ s.len.length then
    if s.i = s.len.length then
      match s.rest with
      | [] => .ok { s with off := [], len := [], i := 0 }
      | b :: rest =>
        if b.runs.length ≤ seqListLen then
          .ok ⟨b.runs.map Run.off, b.runs.map Run.len, 0, s.ei, rest⟩
        else .error .fault
    else .ok s
  -- the assertion
  else .error .fault

/-- Update the indices after `ioLen` bytes. -/
def update (s : SeqList) (ioLen : Nat) : Except Stop SeqList := do
  let len ← orFault s.len[s.i]?
  if ioLen = len then .ok { s with i := s.i + 1, ei := 0 }
  else if len > ioLen then
    .ok { s with len := s.len.set s.i (len - ioLen), ei := toUnsigned64 (s.ei + ioLen) }
  -- the assertion
  else .error .fault

end SeqList

/-- The loop of `H5VL_dtio_build_io_op_merge`.  Offsets are of the type `hsize_t`. -/
def mergeLoop (rbuf wbuf : Bool) : Nat → SeqList → SeqList → Nat → Ops → Except Stop Ops
  | 0, _, _, _, _ => .error .fault
  | rounds + 1, mem, file, totLen, ops => do
    let mem ← mem.fetch
    let file ← file.fetch
    let memLen ← orFault mem.len[mem.i]?
    let fileLen ← orFault file.len[file.i]?
    let ioLen := if memLen ≤ fileLen then memLen else fileLen
    let memOff ← orFault mem.off[mem.i]?
    let fileOff ← orFault file.off[file.i]?
    let e : Entry := ⟨toUnsigned64 (memOff + mem.ei), ioLen, toUnsigned64 (fileOff + file.ei)⟩
    let ops := ops.record rbuf wbuf e
    let mem ← mem.update ioLen
    let file ← file.update ioLen
    let totLen := toUnsigned64 ((totLen : Int) - ioLen)
    if totLen > 0 then mergeLoop rbuf wbuf rounds mem file totLen ops else .ok ops

/-- `H5VL_dtio_build_io_op_merge`, with at most `rounds` rounds; `rbuf` and `wbuf` tell which
buffers there are.  What matters of the dataspaces is what their iterators answer. -/
def buildIoOpMerge (rounds : Nat) (memSeqs fileSeqs : List Batch) (typeSize totNelem : Nat)
    (rbuf wbuf : Bool) : Except Stop Ops :=
  let totLen := toUnsigned64 ((totNelem * typeSize : Nat) : Int)
  if rbuf ≠ wbuf ∧ totNelem > 0 then
    mergeLoop rbuf wbuf rounds (.start memSeqs) (.start fileSeqs) totLen ⟨[], []⟩
  -- the assertions
  else .error .fault

/-! ## One list -/

/-- The loop of `H5VL_dtio_build_io_op_match`; it has no end after the last answer. -/
def matchLoop (rbuf wbuf : Bool) : List Batch → Nat → Ops → Except Stop Ops
  | [], _, _ => .error .fault
  | b :: bs, totNelem, ops =>
    if b.runs.length ≤ seqListLen then
      let totNelem := toUnsigned64 ((totNelem : Int) - b.nelem)
      let ops := b.runs.foldl (fun ops r => ops.record rbuf wbuf ⟨r.off, r.len, r.off⟩) ops
      if totNelem > 0 then matchLoop rbuf wbuf bs totNelem ops else .ok ops
    else .error .fault

/-- `H5VL_dtio_build_io_op_match`. -/
def buildIoOpMatch (fileSeqs : List Batch) (totNelem : Nat) (rbuf wbuf : Bool) : Except Stop Ops :=
  if rbuf = wbuf then .error .fail
  else if totNelem > 0 then matchLoop rbuf wbuf fileSeqs totNelem ⟨[], []⟩
  -- the assertion
  else .error .fault

/-- The `for` loop of `H5VL_dtio_build_io_op_contig`, with `mem_off`. -/
def contigRuns (rbuf wbuf : Bool) (runs : List Run) (st : Nat × Ops) : Nat × Ops :=
  runs.foldl (fun st r =>
    (toUnsigned64 (st.1 + r.len), st.2.record rbuf wbuf ⟨st.1, r.len, r.off⟩)) st

/-- The loop of `H5VL_dtio_build_io_op_contig`. -/
def contigLoop (rbuf wbuf : Bool) : List Batch → Nat → Nat × Ops → Except Stop Ops
  | [], _, _ => .error .fault
  | b :: bs, totNelem, st =>
    if b.runs.length ≤ seqListLen then
      let totNelem := toUnsigned64 ((totNelem : Int) - b.nelem)
      let st := contigRuns rbuf wbuf b.runs st
      if totNelem > 0 then contigLoop rbuf wbuf bs totNelem st else .ok st.2
    else .error .fault

/-- `H5VL_dtio_build_io_op_contig`. -/
def buildIoOpContig (fileSeqs : List Batch) (totNelem : Nat) (rbuf wbuf : Bool) : Except Stop Ops :=
  if (rbuf = true ∨ wbuf = true) ∧ totNelem > 0 then
    contigLoop rbuf wbuf fileSeqs totNelem (0, ⟨[], []⟩)
  -- the assertions
  else .error .fault

/-! ## Arrays and lists -/

end Arrays

/-- The bytes that are left have offsets of the type `hsize_t`. -/
structure Side.Addressable (s : Side) : Prop where
  fresh : s.runs = [] → s.ei = 0
  head : ∀ r runs, s.runs = r :: runs → r.off + s.ei + r.len ≤ 18446744073709551616
  tail : ∀ r ∈ s.runs.tail, r.off + r.len ≤ 18446744073709551616
  rest : ∀ b ∈ s.rest, ∀ r ∈ b.runs, r.off + r.len ≤ 18446744073709551616

/-- A round of the merge of two lists. -/
theorem mergeLoop_cases {rounds totLen : Nat} {mem file : Side} {op : List Entry}
    (h : mergeLoop (rounds + 1) mem file totLen = .ok op) :
    ∃ mem' file' m ms f fs ioLen op', mem.fetch = .ok mem' ∧ file.fetch = .ok file' ∧
      mem'.runs = m :: ms ∧ file'.runs = f :: fs ∧
      ioLen = (if m.len ≤ f.len then m.len else f.len) ∧
      op = ⟨m.off + mem'.ei, ioLen, f.off + file'.ei⟩ :: op' ∧
      if toUnsigned64 ((totLen : Int) - ioLen) > 0 then
        mergeLoop rounds (mem'.advance m ms ioLen) (file'.advance f fs ioLen)
          (toUnsigned64 ((totLen : Int) - ioLen)) = .ok op'
      else op' = [] := by
  unfold mergeLoop at h
  split at h
  next mem' file' hmem hfile =>
    split at h
    next m ms f fs hms hfs =>
      -- the length is named once, as the shorter of the two runs
      obtain ⟨ioLen, hio⟩ : ∃ n, n = if m.len ≤ f.len then m.len else f.len := ⟨_, rfl⟩
      refine ⟨mem', file', m, ms, f, fs, ioLen, op.tail, hmem, hfile, hms, hfs, hio, ?_⟩
      simp only [← hio] at h
      split at h
      -- something is left: the loop goes on with both sides moved
      next hmore =>
        obtain ⟨op', hop', rfl⟩ := map_eq_ok.mp h
        exact ⟨rfl, by rw [if_pos hmore]; exact hop'⟩
      -- nothing is left: this entry is the last
      next hdone =>
        obtain rfl := Except.ok.inj h
        exact ⟨rfl, by rw [if_neg hdone]; rfl⟩
    next => cases h
  next => cases h

/-- More rounds change nothing. -/
theorem mergeLoop_mono {rounds rounds' : Nat} :
    ∀ {mem file : Side} {totLen : Nat} {op : List Entry},
      mergeLoop rounds mem file totLen = .ok op → rounds ≤ rounds' →
      mergeLoop rounds' mem file totLen = .ok op := by
  induction rounds generalizing rounds' with
  | zero => exact fun h => nomatch h
  | succ rounds ih =>
    intro mem file totLen op h hle
    obtain ⟨rounds', rfl⟩ := Nat.exists_eq_add_of_le' (Nat.one_le_of_lt hle)
    obtain ⟨mem', file', m, ms, f, fs, ioLen, op', hmem, hfile, hms, hfs, hio, rfl, hrest⟩ :=
      mergeLoop_cases h
    simp only [mergeLoop, hmem, hfile, hms, hfs, ← hio]
    by_cases hmore : toUnsigned64 ((totLen : Int) - ioLen) > 0
    · rw [if_pos hmore] at hrest ⊢
      rw [ih hrest (Nat.le_of_succ_le_succ hle)]
      rfl
    · rw [if_neg hmore] at hrest ⊢
      rw [hrest]

namespace Arrays

namespace SeqList

variable {s : SeqList} {r : Run} {runs : List Run} {ioLen : Nat}

/-- What is left of the current answer, and the answers to come. -/
def side (s : SeqList) : Side :=
  ⟨List.zipWith Run.mk (s.off.drop s.i) (s.len.drop s.i), s.rest, s.ei⟩

/-- The index is in the arrays or behind their last entry. -/
structure Ok (s : SeqList) : Prop where
  same : s.off.length = s.len.length
  inside : s.i ≤ s.len.length

theorem side_runs_eq_nil (h : s.Ok) : s.side.runs = [] ↔ s.i = s.len.length := by
  have hlen : s.side.runs.length = s.len.length - s.i := by
    simp [side, h.same]
  rw [← List.length_eq_zero_iff, hlen]
  have := h.inside
  omega

/-- The entries at the index. -/
theorem getElem?_of_side (hs : s.side.runs = r :: runs) :
    s.off[s.i]? = some r.off ∧ s.len[s.i]? = some r.len ∧
      runs = List.zipWith Run.mk (s.off.drop (s.i + 1)) (s.len.drop (s.i + 1)) := by
  unfold side at hs
  cases hoff : s.off.drop s.i with
  | nil => simp [hoff] at hs
  | cons o off =>
    cases hlen : s.len.drop s.i with
    | nil => simp [hlen] at hs
    | cons l len =>
      simp only [hoff, hlen, List.zipWith_cons_cons, List.cons.injEq] at hs
      obtain ⟨rfl, rfl⟩ := hs
      have hoff' : s.off.drop (s.i + 1) = off := by rw [← List.tail_drop, hoff, List.tail_cons]
      have hlen' : s.len.drop (s.i + 1) = len := by rw [← List.tail_drop, hlen, List.tail_cons]
      refine ⟨?_, ?_, by rw [hoff', hlen']⟩
      · rw [← List.head?_drop, hoff, List.head?_cons]
      · rw [← List.head?_drop, hlen, List.head?_cons]

/-- An answer in the arrays. -/
theorem side_answer (b : Batch) (ei : Nat) (rest : List Batch) :
    (⟨b.runs.map Run.off, b.runs.map Run.len, 0, ei, rest⟩ : SeqList).side =
      ⟨b.runs, rest, ei⟩ := by
  have hruns : List.zipWith Run.mk (b.runs.map Run.off) (b.runs.map Run.len) = b.runs := by
    rw [List.zipWith_map, List.zipWith_self, List.map_id']
  simp [side, hruns]

theorem fetch_arrays (h : s.Ok) (haddr : s.side.Addressable) {side' : Side}
    (hfetch : s.side.fetch = .ok side') (hne : side'.runs ≠ []) :
    ∃ s', s.fetch = .ok s' ∧ s'.side = side' ∧ s'.Ok ∧ side'.Addressable := by
  unfold Side.fetch at hfetch
  -- the arrays are used up, so a new batch is asked for
  by_cases hnil : s.side.runs = []
  · have hend : s.i = s.len.length := (side_runs_eq_nil h).mp hnil
    have hrest : s.side.rest = s.rest := rfl
    rw [if_pos hnil, hrest] at hfetch
    cases hs : s.rest with
    | nil =>
      rw [hs] at hfetch
      obtain rfl := Except.ok.inj hfetch
      exact absurd hnil hne
    | cons b rest =>
      rw [hs] at hfetch
      simp only at hfetch
      split at hfetch
      next hroom =>
        obtain rfl := Except.ok.inj hfetch
        -- a side with nothing left is at the start of a sequence
        have hfresh : s.ei = 0 := haddr.fresh hnil
        have hall := haddr.rest
        rw [hrest, hs] at hall
        refine ⟨_, ?_, side_answer b s.ei rest, ⟨by simp, Nat.zero_le _⟩, ?_, ?_, ?_, ?_⟩
        · simp only [fetch, if_pos h.inside, if_pos hend, hs, if_pos hroom]
        · exact fun hb => absurd hb hne
        · intro r runs hb
          have hruns : b.runs = r :: runs := hb
          have hr := hall b List.mem_cons_self r (hruns ▸ List.mem_cons_self)
          show r.off + s.ei + r.len ≤ _
          rw [hfresh]
          exact hr
        · exact fun r hr => hall b List.mem_cons_self r (List.mem_of_mem_tail hr)
        · exact fun b' hb' => hall b' (List.mem_cons_of_mem _ hb')
      next => cases hfetch
  -- something is left in the arrays, and nothing is fetched
  · have hend : ¬ s.i = s.len.length := fun heq => hnil ((side_runs_eq_nil h).mpr heq)
    rw [if_neg hnil] at hfetch
    obtain rfl := Except.ok.inj hfetch
    exact ⟨s, by simp only [fetch, if_pos h.inside, if_neg hend], rfl, h, haddr⟩

theorem update_arrays (h : s.Ok) (haddr : s.side.Addressable) (hs : s.side.runs = r :: runs)
    (hle : ioLen ≤ r.len) :
    ∃ s', s.update ioLen = .ok s' ∧ s'.side = s.side.advance r runs ioLen ∧ s'.Ok ∧
      s'.side.Addressable := by
  obtain ⟨hoff, hlen, hruns⟩ := getElem?_of_side hs
  have hi : s.i < s.len.length := (List.getElem?_eq_some_iff.mp hlen).1
  have htail : ∀ r' ∈ runs, r'.off + r'.len ≤ 18446744073709551616 := by
    intro r' hr'
    exact haddr.tail r' (by rwa [hs])
  by_cases hall : ioLen = r.len
  · -- the next sequence
    refine ⟨{ s with i := s.i + 1, ei := 0 }, ?_, ?_, ⟨h.same, hi⟩, ?_⟩
    · simp only [update, hlen, orFault_some, ok_bind, if_pos hall]
    · simp only [Side.advance, if_pos hall, side, hruns]
    · have hside : ({ s with i := s.i + 1, ei := 0 } : SeqList).side = ⟨runs, s.rest, 0⟩ := by
        simp only [side, hruns]
      rw [hside]
      refine ⟨fun _ => rfl, ?_, ?_, haddr.rest⟩
      · rintro r' runs' rfl
        exact htail r' List.mem_cons_self
      · exact fun r' hr' => htail r' (List.mem_of_mem_tail hr')
  · have hlt : r.len > ioLen := lt_of_le_of_ne hle hall
    have hhead := haddr.head r runs hs
    have hei : toUnsigned64 (s.ei + ioLen) = s.ei + ioLen := by
      have hside : s.side.ei = s.ei := rfl
      rw [hside] at hhead
      exact toUnsigned64_eq (by omega) (by omega)
    have hside :
        (⟨s.off, s.len.set s.i (r.len - ioLen), s.i, s.ei + ioLen, s.rest⟩ : SeqList).side =
        ⟨⟨r.off, r.len - ioLen⟩ :: runs, s.rest, s.ei + ioLen⟩ := by
      obtain ⟨ho, ho'⟩ := List.getElem?_eq_some_iff.mp hoff
      have hdrop : s.off.drop s.i = r.off :: s.off.drop (s.i + 1) := by
        rw [List.drop_eq_getElem_cons ho, ho']
      have hdrop' : (s.len.set s.i (r.len - ioLen)).drop s.i =
          (r.len - ioLen) :: s.len.drop (s.i + 1) := by
        rw [List.drop_eq_getElem_cons (by simpa using hi), List.getElem_set_self,
          List.drop_set_of_lt (Nat.lt_succ_self _)]
      simp only [side, hdrop, hdrop', List.zipWith_cons_cons, hruns]
    refine ⟨_, ?_, hside.trans ?_, ⟨by simpa using h.same, by simpa using h.inside⟩, ?_⟩
    · simp only [update, hlen, orFault_some, ok_bind, if_neg hall, if_pos hlt, hei]
    · simp only [Side.advance, if_neg hall]
      rfl
    · rw [hside]
      refine ⟨nofun, ?_, htail, haddr.rest⟩
      rintro r' runs' heq
      obtain ⟨rfl, -⟩ := List.cons.inj heq
      have hei' : s.side.ei = s.ei := rfl
      simp only [hei'] at hhead ⊢
      omega

theorem start_ok (answers : List Batch) : (start answers).Ok := ⟨rfl, le_rfl⟩

end SeqList

/-- An offset of a sequence that is left. -/
theorem toUnsigned64_off {s : Side} (haddr : s.Addressable) {r : Run} {runs : List Run}
    (hs : s.runs = r :: runs) (hpos : 0 < r.len) : toUnsigned64 (r.off + s.ei) = r.off + s.ei := by
  have hhead := haddr.head r runs hs
  exact toUnsigned64_eq (by omega) (by omega)

/-- **The merge with arrays** records what the merge of two lists does. -/
theorem mergeLoop_arrays {rbuf wbuf : Bool} {rounds : Nat} :
    ∀ {mem file : SeqList} {totLen : Nat} {ops : Ops} {op : List Entry}, mem.Ok → file.Ok →
      mem.side.Addressable → file.side.Addressable →
      Vol.mergeLoop rounds mem.side file.side totLen = .ok op → (∀ e ∈ op, 0 < e.len) →
      mergeLoop rbuf wbuf rounds mem file totLen ops = .ok (ops.recordAll rbuf wbuf op) := by
  induction rounds with
  | zero => exact fun _ _ _ _ h => nomatch h
  | succ rounds ih =>
    intro mem file totLen ops op hmem hfile hmaddr hfaddr h hlens
    obtain ⟨mside, fside, m, ms, f, fs, ioLen, op', hmfetch, hffetch, hms, hfs, hio, rfl, hrest⟩ :=
      mergeLoop_cases h
    -- both sides fetch when their arrays are used up
    obtain ⟨mem', hmem', rfl, hmok, hmaddr'⟩ :=
      SeqList.fetch_arrays hmem hmaddr hmfetch (by rw [hms]; simp)
    obtain ⟨file', hfile', rfl, hfok, hfaddr'⟩ :=
      SeqList.fetch_arrays hfile hfaddr hffetch (by rw [hfs]; simp)
    have hiopos : 0 < ioLen := hlens _ List.mem_cons_self
    have hiom : ioLen ≤ m.len := by
      rw [hio]
      split <;> omega
    have hiof : ioLen ≤ f.len := by
      rw [hio]
      split <;> omega
    obtain ⟨hmoff, hmlen, -⟩ := SeqList.getElem?_of_side hms
    obtain ⟨hfoff, hflen, -⟩ := SeqList.getElem?_of_side hfs
    -- both advance by the shorter length
    obtain ⟨mem'', hmupdate, hmside, hmok', hmaddr''⟩ :=
      SeqList.update_arrays hmok hmaddr' hms hiom
    obtain ⟨file'', hfupdate, hfside, hfok', hfaddr''⟩ :=
      SeqList.update_arrays hfok hfaddr' hfs hiof
    have hmwrap : toUnsigned64 (m.off + mem'.ei) = m.off + mem'.ei :=
      toUnsigned64_off hmaddr' hms (lt_of_lt_of_le hiopos hiom)
    have hfwrap : toUnsigned64 (f.off + file'.ei) = f.off + file'.ei :=
      toUnsigned64_off hfaddr' hfs (lt_of_lt_of_le hiopos hiof)
    simp only [mergeLoop, hmem', hfile', hmlen, hflen, hmoff, hfoff, orFault_some, ok_bind, ← hio,
      hmupdate, hfupdate, hmwrap, hfwrap, recordAll_cons]
    by_cases hmore : toUnsigned64 ((totLen : Int) - ioLen) > 0
    · rw [if_pos hmore] at hrest ⊢
      rw [← hmside, ← hfside] at hrest
      exact ih hmok' hfok' hmaddr'' hfaddr'' hrest fun e he => hlens e (List.mem_cons_of_mem _ he)
    · rw [if_neg hmore] at hrest ⊢
      rw [hrest]
      rfl

/-! ## One list -/

/-- A round of the loop over one list. -/
theorem sequences_cases {b : Batch} {bs : List Batch} {totNelem : Nat} {runs : List Run}
    (h : sequences (b :: bs) totNelem = .ok runs) :
    b.runs.length ≤ seqListLen ∧ ∃ runs', runs = b.runs ++ runs' ∧
      if toUnsigned64 ((totNelem : Int) - b.nelem) > 0 then
        sequences bs (toUnsigned64 ((totNelem : Int) - b.nelem)) = .ok runs'
      else runs' = [] := by
  unfold sequences at h
  split at h
  next hroom =>
    simp only at h
    split at h
    next hmore =>
      obtain ⟨runs', hruns', rfl⟩ := map_eq_ok.mp h
      exact ⟨hroom, runs', rfl, by rwa [if_pos hmore]⟩
    next hdone =>
      obtain rfl := Except.ok.inj h
      exact ⟨hroom, [], (List.append_nil _).symm, by rw [if_neg hdone]⟩
  next => cases h

/-- The loop over one list records the sequences that it finds. -/
theorem matchLoop_eq {rbuf wbuf : Bool} {bs : List Batch} :
    ∀ {totNelem : Nat} {ops : Ops} {runs : List Run}, sequences bs totNelem = .ok runs →
      matchLoop rbuf wbuf bs totNelem ops =
        .ok (ops.recordAll rbuf wbuf (runs.map fun r => ⟨r.off, r.len, r.off⟩)) := by
  induction bs with
  | nil => exact fun h => nomatch h
  | cons b bs ih =>
    intro totNelem ops runs h
    have hanswer : b.runs.foldl (fun ops r => ops.record rbuf wbuf ⟨r.off, r.len, r.off⟩) ops =
        ops.recordAll rbuf wbuf (b.runs.map fun r => ⟨r.off, r.len, r.off⟩) := by
      rw [Ops.recordAll, List.foldl_map]
    obtain ⟨hroom, runs', rfl, hrest⟩ := sequences_cases h
    simp only [matchLoop, if_pos hroom, hanswer]
    by_cases hmore : toUnsigned64 ((totNelem : Int) - b.nelem) > 0
    · rw [if_pos hmore] at hrest ⊢
      rw [ih hrest, List.map_append, recordAll_append]
    · rw [if_neg hmore] at hrest ⊢
      rw [hrest, List.append_nil]

/-- Sequences behind each other in a buffer of a size that a `size_t` counts. -/
theorem contigRuns_eq {rbuf wbuf : Bool} {runs : List Run} :
    ∀ {memOff : Nat} {ops : Ops}, memOff + (runs.map Run.len).sum < 18446744073709551616 →
      contigRuns rbuf wbuf runs (memOff, ops) =
        (memOff + (runs.map Run.len).sum,
          ops.recordAll rbuf wbuf (contiguous runs memOff)) := by
  induction runs with
  | nil => exact fun _ => rfl
  | cons r runs ih =>
    intro memOff ops hsmall
    rw [List.map_cons, List.sum_cons] at hsmall ⊢
    have hnext : toUnsigned64 (memOff + r.len) = memOff + r.len :=
      toUnsigned64_eq (by omega) (by omega)
    have hrest := @ih (memOff + r.len) (ops.record rbuf wbuf ⟨memOff, r.len, r.off⟩) (by omega)
    simp only [contigRuns, List.foldl_cons, hnext, contiguous, recordAll_cons] at hrest ⊢
    rw [hrest, Nat.add_assoc]

theorem contiguous_append (runs runs' : List Run) (memOff : Nat) :
    contiguous (runs ++ runs') memOff =
      contiguous runs memOff ++ contiguous runs' (memOff + (runs.map Run.len).sum) := by
  induction runs generalizing memOff with
  | nil => rfl
  | cons r runs ih => simp [contiguous, ih, Nat.add_assoc]

/-- The loop of the contiguous buffer records the sequences behind each other. -/
theorem contigLoop_eq {rbuf wbuf : Bool} {bs : List Batch} :
    ∀ {totNelem memOff : Nat} {ops : Ops} {runs : List Run}, sequences bs totNelem = .ok runs →
      memOff + (runs.map Run.len).sum < 18446744073709551616 →
      contigLoop rbuf wbuf bs totNelem (memOff, ops) =
        .ok (ops.recordAll rbuf wbuf (contiguous runs memOff)) := by
  induction bs with
  | nil => exact fun h => nomatch h
  | cons b bs ih =>
    intro totNelem memOff ops runs h hsmall
    obtain ⟨hroom, runs', rfl, hrest⟩ := sequences_cases h
    rw [List.map_append, List.sum_append] at hsmall
    simp only [contigLoop, if_pos hroom]
    rw [contigRuns_eq (by omega)]
    by_cases hmore : toUnsigned64 ((totNelem : Int) - b.nelem) > 0
    · rw [if_pos hmore] at hrest ⊢
      rw [ih hrest (by omega), contiguous_append, recordAll_append]
    · rw [if_neg hmore] at hrest ⊢
      rw [hrest, List.append_nil]

end Arrays

end DTIO.Vol
