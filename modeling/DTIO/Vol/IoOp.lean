import DTIO.Foundation.Assignment
import DTIO.Foundation.MachineInt
import DTIO.Foundation.Memory
import DTIO.Posix.State
import DTIO.Vol.ChunkInfo
import DTIO.Vol.ObjectNames

/-!
# Read and Write Operations on Objects

`H5VL_dtio_build_io_op_merge`, `_match` and `_contig` (`adapter/vol/vol-old/H5VLDTIO.cc`) turn
serialised selections into operations on an object of the store.  An operation is a list of
recorded triples: an offset into a buffer, a length and an offset into the object.

## Main definitions

- `mergeLoop`, `sequences`: the loops over the sequence lists
- `writeOpOperate`, `readOpOperate`: what an operation does to an object or a buffer
- `opBytes`: an operation byte by byte

## Main results

- `buildIoOpMerge_spec`: however the two lists are cut, bytes are paired in order
- `getD_writeOp`: an object after a write operation
-/

namespace DTIO.Vol

open DTIO.Posix DTIO.MachineInt DTIO.Memory DTIO.Assignment

/-! ## Operations -/

/-- A recorded triple of `dtio_write_op_write` or `dtio_read_op_read`. -/
structure Entry where
  bufOff : Nat
  len : Nat
  objOff : Nat
  deriving DecidableEq, Repr

/-- The objects that exist. -/
abbrev Store := Key → Option (List Byte)

/-- The content of an object; one that does not exist has none. -/
def Store.object (σ : Store) (key : Key) : List Byte := (σ key).getD []

/-- One triple of a write operation; `data` is the buffer. -/
def writeEntry (data : Nat → Nat → Option (List Byte)) (obj : List Byte) (e : Entry) :
    Option (List Byte) :=
  (data e.bufOff e.len).map fun bytes => ByteFile.writeAt 0 obj e.objOff bytes

/-- `dtio_write_op_operate`: the triples in order, on an object that exists from then on. -/
def writeOpOperate (data : Nat → Nat → Option (List Byte)) (op : List Entry) (key : Key)
    (σ : Store) : Except Stop Store := do
  let obj ← orFault (op.foldlM (writeEntry data) (σ.object key))
  return Function.update σ key (some obj)

/-- A write operation concerns one object. -/
theorem writeOpOperate_frame {data : Nat → Nat → Option (List Byte)} {op : List Entry} {key : Key}
    {σ σ' : Store} (h : writeOpOperate data op key σ = .ok σ') {key' : Key} (hne : key' ≠ key) :
    σ' key' = σ key' := by
  obtain ⟨obj, -, h⟩ := bind_eq_ok.mp h
  cases h
  exact Function.update_of_ne hne ..

/-- One triple of a read operation: what the object has there. -/
def readEntry (obj : List Byte) (dst : List Byte) (e : Entry) : Option (List Byte) :=
  store dst e.bufOff (ByteFile.readAt obj e.objOff e.len)

/-- `dtio_read_op_operate` into a buffer. -/
def readOpOperate (op : List Entry) (key : Key) (σ : Store) (dst : List Byte) :
    Except Stop (List Byte) :=
  orFault (op.foldlM (readEntry (σ.object key)) dst)

/-! ## Building operations -/

/-- One of the two sequence lists of a merge: what is left of the current answer, with the first
length reduced, the answers to come, and `mem_ei` or `file_ei`. -/
structure Side where
  runs : List Run
  rest : List Batch
  ei : Nat
  deriving DecidableEq, Repr

/-- Get the next sequences if necessary; the arrays have room for `H5VL_DTIO_SEQ_LIST_LEN`. -/
def Side.fetch (s : Side) : Except Stop Side :=
  if s.runs = [] then
    match s.rest with
    | [] => .ok s
    | b :: rest => if b.runs.length ≤ seqListLen then .ok ⟨b.runs, rest, s.ei⟩ else .error .fault
  else .ok s

/-- Update the indices after `ioLen` bytes of the first sequence `r`. -/
def Side.advance (s : Side) (r : Run) (runs : List Run) (ioLen : Nat) : Side :=
  if ioLen = r.len then ⟨runs, s.rest, 0⟩
  else ⟨⟨r.off, r.len - ioLen⟩ :: runs, s.rest, s.ei + ioLen⟩

/-- The loop of `H5VL_dtio_build_io_op_merge`.  Every round takes at least one byte, so that
there are enough rounds if there is one for each byte. -/
def mergeLoop : Nat → Side → Side → Nat → Except Stop (List Entry)
  | 0, _, _, _ => .error .fault
  | rounds + 1, mem, file, totLen =>
    match mem.fetch, file.fetch with
    | .ok mem, .ok file =>
      match mem.runs, file.runs with
      | m :: ms, f :: fs =>
        let ioLen := if m.len ≤ f.len then m.len else f.len
        let entry : Entry := ⟨m.off + mem.ei, ioLen, f.off + file.ei⟩
        let totLen := toUnsigned64 ((totLen : Int) - ioLen)
        if totLen > 0 then
          (mergeLoop rounds (mem.advance m ms ioLen) (file.advance f fs ioLen) totLen).map
            (entry :: ·)
        else .ok [entry]
      -- arrays that were not filled
      | _, _ => .error .fault
    | _, _ => .error .fault

/-- `H5VL_dtio_build_io_op_merge`. -/
def buildIoOpMerge (iter : SelIter) (memSpace fileSpace : Dataspace) (typeSize totNelem : Nat) :
    Except Stop (List Entry) :=
  if totNelem > 0 then
    let totLen := toUnsigned64 ((totNelem * typeSize : Nat) : Int)
    mergeLoop (totNelem * typeSize) ⟨[], iter.batches memSpace typeSize seqListLen, 0⟩
      ⟨[], iter.batches fileSpace typeSize seqListLen, 0⟩ totLen
  else .error .fault

/-- The sequences of all answers until `totNelem` elements are found; without end if there are
not so many. -/
def sequences : List Batch → Nat → Except Stop (List Run)
  | [], _ => .error .fault
  | b :: bs, totNelem =>
    if b.runs.length ≤ seqListLen then
      let totNelem := toUnsigned64 ((totNelem : Int) - b.nelem)
      if totNelem > 0 then (sequences bs totNelem).map (b.runs ++ ·) else .ok b.runs
    else .error .fault

/-- `H5VL_dtio_build_io_op_match`: the same offsets on both sides. -/
def buildIoOpMatch (iter : SelIter) (fileSpace : Dataspace) (typeSize totNelem : Nat) :
    Except Stop (List Entry) :=
  if totNelem > 0 then
    (sequences (iter.batches fileSpace typeSize seqListLen) totNelem).map fun runs =>
      runs.map fun r => ⟨r.off, r.len, r.off⟩
  else .error .fault

/-- Triples with a contiguous buffer from `memOff` on. -/
def contiguous : List Run → Nat → List Entry
  | [], _ => []
  | r :: runs, memOff => ⟨memOff, r.len, r.off⟩ :: contiguous runs (memOff + r.len)

/-- `H5VL_dtio_build_io_op_contig`: the triples of the read and of the write operation. -/
def buildIoOpContig (iter : SelIter) (fileSpace : Dataspace) (typeSize totNelem : Nat) :
    Except Stop (List Entry) :=
  if totNelem > 0 then
    (sequences (iter.batches fileSpace typeSize seqListLen) totNelem).map fun runs =>
      contiguous runs 0
  else .error .fault

/-! ## Byte by byte -/

/-- The bytes of the object that a triple concerns, with their bytes of the buffer. -/
def Entry.bytes (e : Entry) : List (Nat × Nat) :=
  (List.range e.len).map fun j => (e.objOff + j, e.bufOff + j)

def opBytes (op : List Entry) : List (Nat × Nat) := op.flatMap Entry.bytes

@[simp] theorem opBytes_cons (e : Entry) (op : List Entry) :
    opBytes (e :: op) = e.bytes ++ opBytes op := List.flatMap_cons

/-- The bytes of a buffer of the application. -/
def userData (buf : Nat → Byte) (off len : Nat) : Option (List Byte) :=
  some ((List.range len).map fun j => buf (off + j))

/-- An object after a write operation from a buffer of the application. -/
theorem getD_writeOp (buf : Nat → Byte) (op : List Entry) (obj : List Byte) :
    ∃ obj', op.foldlM (writeEntry (userData buf)) obj = some obj' ∧
      ∀ i, obj'.getD i 0 =
        assigned ((opBytes op).map fun x => (x.1, buf x.2)) i (obj.getD i 0) := by
  induction op generalizing obj with
  | nil => exact ⟨obj, rfl, fun _ => rfl⟩
  | cons e op ih =>
    obtain ⟨obj', hop, hobj'⟩ := ih
      (ByteFile.writeAt 0 obj e.objOff ((List.range e.len).map fun j => buf (e.bufOff + j)))
    refine ⟨obj', hop, fun i => ?_⟩
    have hentry : e.bytes.map (fun x => (x.1, buf x.2)) =
        (List.range e.len).map fun j => (e.objOff + j, buf (e.bufOff + j)) := by
      simp [Entry.bytes]
    rw [hobj' i, getD_writeAt_eq_assigned, opBytes_cons, List.map_append, assigned_append, hentry]

/-- One byte of a write operation. -/
def writeByte (buf : Nat → Byte) (obj : List Byte) (x : Nat × Nat) : List Byte :=
  ByteFile.writeAt 0 obj x.1 [buf x.2]

theorem writeAt_range (buf : Nat → Byte) (obj : List Byte) (len o b : Nat) :
    ByteFile.writeAt 0 obj o ((List.range len).map fun j => buf (b + j)) =
      ((List.range len).map fun j => (o + j, b + j)).foldl (writeByte buf) obj := by
  induction len generalizing obj o b with
  | zero => simp
  | succ len ih =>
    have hnext : ∀ a j : Nat, a + Nat.succ j = a + 1 + j := fun a j => by omega
    have hdata : (List.range len).map ((fun j => buf (b + j)) ∘ Nat.succ) =
        (List.range len).map fun j => buf (b + 1 + j) :=
      List.map_congr_left fun j _ => congrArg buf (hnext b j)
    have hplaces : (List.range len).map ((fun j => (o + j, b + j)) ∘ Nat.succ) =
        (List.range len).map fun j => (o + 1 + j, b + 1 + j) :=
      List.map_congr_left fun j _ => Prod.ext (hnext o j) (hnext b j)
    rw [List.range_succ_eq_map, List.map_cons, List.map_cons, List.map_map, List.map_map,
      ByteFile.writeAt_cons, List.foldl_cons, hdata, hplaces]
    exact ih _ _ _

/-- **Byte by byte.**  What a write operation from a buffer of the application does to an object
depends on its bytes only, not on how they are grouped. -/
theorem foldlM_writeEntry (buf : Nat → Byte) (op : List Entry) (obj : List Byte) :
    op.foldlM (writeEntry (userData buf)) obj = some ((opBytes op).foldl (writeByte buf) obj) := by
  induction op generalizing obj with
  | nil => rfl
  | cons e op ih =>
    have hentry : writeEntry (userData buf) obj e = some (e.bytes.foldl (writeByte buf) obj) := by
      rw [Entry.bytes, ← writeAt_range]
      rfl
    rw [List.foldlM_cons, hentry, opBytes_cons, List.foldl_append]
    exact ih _

/-- Operations with the same bytes leave the same store. -/
theorem writeOpOperate_congr {buf : Nat → Byte} {op op' : List Entry} (h : opBytes op = opBytes op')
    (key : Key) (σ : Store) :
    writeOpOperate (userData buf) op key σ = writeOpOperate (userData buf) op' key σ := by
  unfold writeOpOperate
  rw [foldlM_writeEntry, foldlM_writeEntry, h]

/-! ### What a write operation leaves -/

theorem length_writeByte (buf : Nat → Byte) (obj : List Byte) (x : Nat × Nat) :
    (writeByte buf obj x).length = max obj.length (x.1 + 1) := by
  unfold writeByte
  rw [ByteFile.length_writeAt _ _ _ (List.cons_ne_nil _ _), List.length_singleton]

/-- No object becomes shorter, and all that was written is in it. -/
theorem length_writeBytes (buf : Nat → Byte) (xs : List (Nat × Nat)) (obj : List Byte) :
    obj.length ≤ (xs.foldl (writeByte buf) obj).length ∧
      ∀ x ∈ xs, x.1 < (xs.foldl (writeByte buf) obj).length := by
  induction xs generalizing obj with
  | nil => exact ⟨le_rfl, nofun⟩
  | cons x xs ih =>
    obtain ⟨hle, hmem⟩ := ih (writeByte buf obj x)
    rw [length_writeByte] at hle
    rw [List.foldl_cons]
    refine ⟨by omega, fun y hy => ?_⟩
    rcases List.mem_cons.mp hy with rfl | hy
    · omega
    · exact hmem y hy

/-! ### Reading -/

/-- What a read operation assigns to its buffer: the bytes that the object has. -/
def readBytes (obj : List Byte) (op : List Entry) : List (Nat × Byte) :=
  ((opBytes op).filter fun x => decide (x.1 < obj.length)).map fun x => (x.2, obj.getD x.1 0)

theorem readBytes_cons (obj : List Byte) (e : Entry) (op : List Entry) :
    readBytes obj (e :: op) = readBytes obj [e] ++ readBytes obj op := by
  simp [readBytes, opBytes]

/-- The positions below an end are the first ones. -/
theorem filter_range_lt (n o L : Nat) :
    ((List.range n).filter fun j => decide (o + j < L)) = List.range (min n (L - o)) := by
  induction n with
  | zero => rw [Nat.zero_min]; rfl
  | succ n ih =>
    rw [List.range_succ, List.filter_append, ih]
    by_cases h : o + n < L
    · rw [List.filter_singleton, decide_eq_true h, min_eq_left (by omega), min_eq_left (by omega),
        List.range_succ]
      rfl
    · rw [List.filter_singleton, decide_eq_false h, min_eq_right (show L - o ≤ n + 1 by omega),
        min_eq_right (by omega)]
      exact List.append_nil _

/-- The bytes of one triple, from the object. -/
theorem readBytes_singleton (obj : List Byte) (e : Entry) :
    readBytes obj [e] = (List.range (min e.len (obj.length - e.objOff))).map fun j =>
      (e.bufOff + j, obj.getD (e.objOff + j) 0) := by
  have hone : opBytes [e] = e.bytes := List.append_nil _
  unfold readBytes
  rw [hone, Entry.bytes, List.filter_map, List.map_map, ← filter_range_lt]
  rfl

/-- One triple, with room in the buffer. -/
theorem readEntry_spec (obj : List Byte) {dst : List Byte} {e : Entry}
    (hroom : e.bufOff + e.len ≤ dst.length) :
    ∃ dst', readEntry obj dst e = some dst' ∧ dst'.length = dst.length ∧
      ∀ k, dst'.getD k 0 = assigned (readBytes obj [e]) k (dst.getD k 0) := by
  have hlen := ByteFile.length_readAt obj e.objOff e.len
  have hfit : e.bufOff + (ByteFile.readAt obj e.objOff e.len).length ≤ dst.length := by omega
  have hstore : readEntry obj dst e = some _ := if_pos hfit
  refine ⟨_, hstore, length_store hstore, fun k => ?_⟩
  rw [readBytes_singleton, assigned_range, List.getD_eq_getElem?_getD, getElem?_store hstore, hlen]
  by_cases hin : e.bufOff ≤ k ∧ k < e.bufOff + min e.len (obj.length - e.objOff)
  · rw [if_pos hin, if_pos hin, ← List.getD_eq_getElem?_getD, ByteFile.getD_readAt _ _ _ (by omega)]
  · rw [if_neg hin, if_neg hin, List.getD_eq_getElem?_getD]

/-- **A read operation** assigns what the object has to its places in the buffer. -/
theorem readOp_spec (obj : List Byte) {op : List Entry} {dst : List Byte}
    (hroom : ∀ e ∈ op, e.bufOff + e.len ≤ dst.length) :
    ∃ dst', op.foldlM (readEntry obj) dst = some dst' ∧ dst'.length = dst.length ∧
      ∀ k, dst'.getD k 0 = assigned (readBytes obj op) k (dst.getD k 0) := by
  induction op generalizing dst with
  | nil => exact ⟨dst, rfl, rfl, fun _ => rfl⟩
  | cons e op ih =>
    obtain ⟨dst₁, hread, hlen, hfirst⟩ := readEntry_spec obj (hroom e List.mem_cons_self)
    have hroom₁ : ∀ e' ∈ op, e'.bufOff + e'.len ≤ dst₁.length := fun e' he' => by
      rw [hlen]
      exact hroom e' (List.mem_cons_of_mem _ he')
    obtain ⟨dst', hop, hlen', hrest⟩ := ih hroom₁
    refine ⟨dst', ?_, hlen'.trans hlen, fun k => ?_⟩
    · rw [List.foldlM_cons, hread]
      exact hop
    · rw [hrest, hfirst, readBytes_cons obj e op, assigned_append]

/-! ## The merge -/

namespace Side

/-- The bytes that are left. -/
def bytes (s : Side) : List Nat :=
  match s.runs with
  | [] => batchBytes s.rest
  | r :: runs => Run.bytes ⟨r.off + s.ei, r.len⟩ ++ (runs.flatMap Run.bytes ++ batchBytes s.rest)

/-- What the iterator promises of the answers to come, and what the loop keeps. -/
structure Good (s : Side) : Prop where
  ei : s.runs = [] → s.ei = 0
  pos : ∀ r ∈ s.runs, 0 < r.len
  room : ∀ b ∈ s.rest, b.runs.length ≤ seqListLen
  progress : ∀ b ∈ s.rest, b.runs ≠ [] ∧ ∀ r ∈ b.runs, 0 < r.len

theorem fetch_spec {s : Side} (h : s.Good) (hne : s.bytes ≠ []) :
    ∃ s', s.fetch = .ok s' ∧ s'.Good ∧ s'.bytes = s.bytes ∧ s'.runs ≠ [] := by
  obtain ⟨runs, rest, ei⟩ := s
  cases runs with
  | cons r runs => exact ⟨_, if_neg (by simp), h, rfl, by simp⟩
  | nil =>
    cases rest with
    | nil => exact absurd rfl hne
    | cons b rest =>
      obtain ⟨hruns, hpos⟩ := h.progress b List.mem_cons_self
      have hei : ei = 0 := h.ei rfl
      subst hei
      have hfetch : Side.fetch ⟨[], b :: rest, 0⟩ = .ok ⟨b.runs, rest, 0⟩ := by
        unfold fetch
        exact if_pos (h.room b List.mem_cons_self)
      refine ⟨_, hfetch, ⟨fun _ => rfl, hpos, fun b' hb' => h.room b' (List.mem_cons_of_mem _ hb'),
        fun b' hb' => h.progress b' (List.mem_cons_of_mem _ hb')⟩, ?_, hruns⟩
      obtain ⟨r, runs, hb⟩ := List.exists_cons_of_ne_nil hruns
      simp [bytes, batchBytes, hb]

theorem advance_spec {s : Side} (h : s.Good) {r : Run} {runs : List Run} (hs : s.runs = r :: runs)
    {ioLen : Nat} (hle : ioLen ≤ r.len) :
    (s.advance r runs ioLen).Good ∧
      s.bytes = Run.bytes ⟨r.off + s.ei, ioLen⟩ ++ (s.advance r runs ioLen).bytes := by
  have hpos : ∀ r' ∈ runs, 0 < r'.len :=
    fun r' hr' => h.pos r' (hs ▸ List.mem_cons_of_mem _ hr')
  unfold advance
  by_cases hall : ioLen = r.len
  -- the whole run is used: the next one starts at its own offset
  · rw [if_pos hall]
    refine ⟨⟨fun _ => rfl, hpos, h.room, h.progress⟩, ?_⟩
    subst hall
    unfold bytes
    rw [hs]
    cases runs <;> simp
  -- part of it is used: `ei` remembers how much
  · rw [if_neg hall]
    refine ⟨⟨nofun, ?_, h.room, h.progress⟩, ?_⟩
    · intro r' hr'
      rcases List.mem_cons.mp hr' with rfl | hr'
      · exact Nat.sub_pos_of_lt (lt_of_le_of_ne hle hall)
      · exact hpos r' hr'
    -- the run is the part used and the part left
    · have hcut : Run.bytes ⟨r.off + s.ei, r.len⟩ = Run.bytes ⟨r.off + s.ei, ioLen⟩ ++
          Run.bytes ⟨r.off + (s.ei + ioLen), r.len - ioLen⟩ := by
        obtain ⟨k, hk⟩ := Nat.exists_eq_add_of_le hle
        simp [Run.bytes, hk, List.range_add, Nat.add_assoc]
      unfold bytes
      rw [hs]
      simp only [hcut, List.append_assoc]

end Side

/-- The merge pairs the bytes of the two lists in order, in triples that are not empty. -/
theorem mergeLoop_spec {rounds : Nat} :
    ∀ {mem file : Side} {totLen : Nat}, mem.Good → file.Good → mem.bytes.length = totLen →
      file.bytes.length = totLen → 0 < totLen → totLen < 18446744073709551616 → totLen ≤ rounds →
      ∃ op, mergeLoop rounds mem file totLen = .ok op ∧ opBytes op = file.bytes.zip mem.bytes ∧
        ∀ e ∈ op, 0 < e.len := by
  induction rounds with
  | zero => omega
  | succ rounds ih =>
    intro mem file totLen hmem hfile hmlen hflen hpos hsmall hrounds
    have hmne : mem.bytes ≠ [] := List.length_pos_iff.mp (hmlen ▸ hpos)
    have hfne : file.bytes ≠ [] := List.length_pos_iff.mp (hflen ▸ hpos)
    obtain ⟨mem', hmfetch, hmem', hmbytes, hmruns⟩ := Side.fetch_spec hmem hmne
    obtain ⟨file', hffetch, hfile', hfbytes, hfruns⟩ := Side.fetch_spec hfile hfne
    obtain ⟨m, ms, hms⟩ := List.exists_cons_of_ne_nil hmruns
    obtain ⟨f, fs, hfs⟩ := List.exists_cons_of_ne_nil hfruns
    have hmpos : 0 < m.len := hmem'.pos m (hms ▸ List.mem_cons_self)
    have hfpos : 0 < f.len := hfile'.pos f (hfs ▸ List.mem_cons_self)
    set ioLen := if m.len ≤ f.len then m.len else f.len with hio
    have hiom : ioLen ≤ m.len := by
      rw [hio]
      split <;> omega
    have hiof : ioLen ≤ f.len := by
      rw [hio]
      split <;> omega
    have hiopos : 0 < ioLen := by
      rw [hio]
      split <;> omega
    obtain ⟨hmgood, hmcut⟩ := Side.advance_spec hmem' hms hiom
    obtain ⟨hfgood, hfcut⟩ := Side.advance_spec hfile' hfs hiof
    rw [hmbytes] at hmcut
    rw [hfbytes] at hfcut
    have hrange : ∀ off, (Run.bytes ⟨off, ioLen⟩).length = ioLen := fun off => by
      simp [Run.bytes]
    have hmlen' := hmlen
    have hflen' := hflen
    rw [hmcut, List.length_append, hrange] at hmlen'
    rw [hfcut, List.length_append, hrange] at hflen'
    have hless : toUnsigned64 ((totLen : Int) - ioLen) = totLen - ioLen :=
      toUnsigned64_eq (by omega) (by omega)
    -- this round pairs the first bytes
    have hentry : (⟨m.off + mem'.ei, ioLen, f.off + file'.ei⟩ : Entry).bytes =
        (Run.bytes ⟨f.off + file'.ei, ioLen⟩).zip (Run.bytes ⟨m.off + mem'.ei, ioLen⟩) := by
      simp [Entry.bytes, Run.bytes, List.zip_map', Nat.add_assoc]
    have hzip : file.bytes.zip mem.bytes =
        (⟨m.off + mem'.ei, ioLen, f.off + file'.ei⟩ : Entry).bytes ++
          (file'.advance f fs ioLen).bytes.zip (mem'.advance m ms ioLen).bytes := by
      rw [hmcut, hfcut, List.zip_append (by rw [hrange, hrange]), hentry]
    unfold mergeLoop
    simp only [hmfetch, hffetch, hms, hfs, ← hio, hless]
    by_cases hmore : totLen - ioLen > 0
    · have hmrest : (mem'.advance m ms ioLen).bytes.length = totLen - ioLen := by omega
      obtain ⟨op, hop, hbytes, hlens⟩ :=
        ih hmgood hfgood hmrest (by omega) hmore (by omega) (by omega)
      refine ⟨_, by rw [if_pos hmore, hop]; rfl, ?_, List.forall_mem_cons.mpr ⟨hiopos, hlens⟩⟩
      rw [opBytes_cons, hbytes, hzip]
    · refine ⟨_, if_neg hmore, ?_, by simpa using hiopos⟩
      have hnil : (mem'.advance m ms ioLen).bytes = [] :=
        List.length_eq_zero_iff.mp (by omega)
      rw [hzip, hnil, List.zip_nil_right]
      simp [opBytes]

/-! ## What is built -/

section Build

variable {iter : SelIter} {file mem : Dataspace} {size : Nat}

/-- The bytes of two selections in pairs, element by element. -/
theorem zip_bytes {s t : Dataspace} (size : Nat) (hlen : s.points.length = t.points.length) :
    (s.bytes size).zip (t.bytes size) = (s.points.zip t.points).flatMap fun x =>
      (List.range size).map fun j =>
        (Grid.rowMajor s.extent x.1 * size + j, Grid.rowMajor t.extent x.2 * size + j) := by
  obtain ⟨sext, spts⟩ := s
  obtain ⟨text, tpts⟩ := t
  simp only [Dataspace.bytes]
  induction spts generalizing tpts with
  | nil => rfl
  | cons p spts ih =>
    cases tpts with
    | nil => cases hlen
    | cons q tpts =>
      rw [List.flatMap_cons, List.flatMap_cons, List.zip_append (by simp), List.zip_map',
        ih tpts (Nat.succ.inj hlen), List.zip_cons_cons, List.flatMap_cons]

theorem length_bytes (s : Dataspace) (size : Nat) : (s.bytes size).length = s.npoints * size := by
  simp [Dataspace.bytes, Dataspace.npoints, List.length_flatMap]

theorem length_flatMap_bytes (runs : List Run) :
    (runs.flatMap Run.bytes).length = (runs.map Run.len).sum := by
  rw [List.length_flatMap]
  congr 1
  apply List.map_congr_left
  intro r _
  simp [Run.bytes]

/-- The sequence list of a selection, before the first answer. -/
theorem good_start (iter : SelIter) {s : Dataspace} (hs : s.Valid) (hsize : 0 < size) :
    (⟨[], iter.batches s size seqListLen, 0⟩ : Side).Good :=
  ⟨fun _ => rfl, nofun, iter.room hs hsize (by decide), iter.progress hs hsize (by decide)⟩

/-- The triples of a merge: the bytes of the two selections in pairs, and no triple is empty. -/
theorem buildIoOpMerge_entries (iter : SelIter) (hmem : mem.Valid) (hfile : file.Valid)
    (hsize : 0 < size) (hcount : mem.npoints = file.npoints) (hpos : 0 < file.npoints)
    (hsmall : file.npoints * size < 18446744073709551616) :
    ∃ op, buildIoOpMerge iter mem file size file.npoints = .ok op ∧
      opBytes op = (file.bytes size).zip (mem.bytes size) ∧ ∀ e ∈ op, 0 < e.len := by
  have htot : toUnsigned64 ((file.npoints * size : Nat) : Int) = file.npoints * size :=
    toUnsigned64_of_lt hsmall
  have hmlen : (batchBytes (iter.batches mem size seqListLen)).length = file.npoints * size := by
    rw [iter.order hmem hsize (by decide), length_bytes, hcount]
  have hflen : (batchBytes (iter.batches file size seqListLen)).length = file.npoints * size := by
    rw [iter.order hfile hsize (by decide), length_bytes]
  obtain ⟨op, hop, hbytes, hlens⟩ := mergeLoop_spec (good_start iter hmem hsize)
    (good_start iter hfile hsize) hmlen hflen (Nat.mul_pos hpos hsize) hsmall le_rfl
  refine ⟨op, ?_, ?_, hlens⟩
  · unfold buildIoOpMerge
    rw [if_pos hpos, htot]
    exact hop
  · rw [hbytes]
    show (batchBytes _).zip (batchBytes _) = _
    rw [iter.order hfile hsize (by decide), iter.order hmem hsize (by decide)]

/-- **The merge**: the bytes of the two selections are paired in order, however they are cut. -/
theorem buildIoOpMerge_spec (iter : SelIter) (hmem : mem.Valid) (hfile : file.Valid)
    (hsize : 0 < size) (hcount : mem.npoints = file.npoints) (hpos : 0 < file.npoints)
    (hsmall : file.npoints * size < 18446744073709551616) :
    ∃ op, buildIoOpMerge iter mem file size file.npoints = .ok op ∧
      opBytes op = (file.bytes size).zip (mem.bytes size) := by
  obtain ⟨op, hop, hbytes, -⟩ :=
    buildIoOpMerge_entries iter hmem hfile hsize hcount hpos hsmall
  exact ⟨op, hop, hbytes⟩

/-- The loop over one list takes all answers. -/
theorem sequences_eq {bs : List Batch} :
    ∀ {n : Nat}, (∀ b ∈ bs, b.runs.length ≤ seqListLen) →
      (∀ b ∈ bs, b.runs ≠ [] ∧ ∀ r ∈ b.runs, 0 < r.len) →
      (∀ b ∈ bs, (b.runs.map Run.len).sum = b.nelem * size) → 0 < size →
      (bs.map Batch.nelem).sum = n → 0 < n → n < 18446744073709551616 →
      sequences bs n = .ok (bs.flatMap Batch.runs) := by
  induction bs with
  | nil =>
    intro n _ _ _ _ hsum hpos
    simp at hsum
    omega
  | cons b bs ih =>
    intro n hroom hprogress hcount hsize hsum hpos hsmall
    rw [List.map_cons, List.sum_cons] at hsum
    have hless : toUnsigned64 ((n : Int) - b.nelem) = (bs.map Batch.nelem).sum :=
      toUnsigned64_eq (by omega) (by omega)
    rw [sequences, if_pos (hroom b List.mem_cons_self)]
    simp only [hless]
    by_cases hmore : (bs.map Batch.nelem).sum > 0
    · rw [if_pos hmore, ih (fun b' hb' => hroom b' (List.mem_cons_of_mem _ hb'))
        (fun b' hb' => hprogress b' (List.mem_cons_of_mem _ hb'))
        (fun b' hb' => hcount b' (List.mem_cons_of_mem _ hb')) hsize rfl hmore (by omega)]
      rfl
    · -- an answer that counts no element would have no byte
      have hlast : bs = [] := by
        rw [List.eq_nil_iff_forall_not_mem]
        intro b' hb'
        have hzero := List.sum_eq_zero_iff_forall_eq_nat.mp (Nat.eq_zero_of_not_pos hmore)
          b'.nelem (List.mem_map_of_mem hb')
        have hsum' := hcount b' (List.mem_cons_of_mem _ hb')
        rw [hzero, Nat.zero_mul] at hsum'
        obtain ⟨hne, hpos'⟩ := hprogress b' (List.mem_cons_of_mem _ hb')
        obtain ⟨r, hr⟩ := List.exists_mem_of_ne_nil _ hne
        have hr0 := List.sum_eq_zero_iff_forall_eq_nat.mp hsum' r.len (List.mem_map_of_mem hr)
        have := hpos' r hr
        omega
      rw [if_neg hmore, hlast]
      simp

/-- Answers that count whole elements have the bytes of their elements. -/
theorem length_batchBytes {bs : List Batch}
    (h : ∀ b ∈ bs, (b.runs.map Run.len).sum = b.nelem * size) :
    (batchBytes bs).length = (bs.map Batch.nelem).sum * size := by
  induction bs with
  | nil => simp [batchBytes]
  | cons b bs ih =>
    have hb : (b.runs.flatMap Run.bytes).length = b.nelem * size := by
      rw [← h b List.mem_cons_self, length_flatMap_bytes]
    have htail := ih fun b' hb' => h b' (List.mem_cons_of_mem _ hb')
    rw [batchBytes, List.flatMap_cons, List.length_append, hb, List.map_cons, List.sum_cons,
      Nat.add_mul]
    exact congrArg _ htail

theorem sum_nelem (iter : SelIter) {s : Dataspace} (hs : s.Valid) (hsize : 0 < size) :
    ((iter.batches s size seqListLen).map Batch.nelem).sum = s.npoints := by
  have hcount := iter.count hs hsize (show 0 < seqListLen by decide)
  have horder := congrArg List.length (iter.order hs hsize (show 0 < seqListLen by decide))
  rw [length_batchBytes hcount, length_bytes] at horder
  exact Nat.eq_of_mul_eq_mul_right hsize horder

/-- All sequences of a selection. -/
theorem sequences_spec (iter : SelIter) {s : Dataspace} (hs : s.Valid) (hsize : 0 < size)
    (hpos : 0 < s.npoints) :
    ∃ runs, sequences (iter.batches s size seqListLen) s.npoints = .ok runs ∧
      runs.flatMap Run.bytes = s.bytes size := by
  have hsmall : s.npoints < 18446744073709551616 := by
    have := hs.selected
    unfold Dataspace.npoints
    omega
  refine ⟨_, sequences_eq (iter.room hs hsize (by decide)) (iter.progress hs hsize (by decide))
    (iter.count hs hsize (by decide)) hsize (sum_nelem iter hs hsize) hpos hsmall, ?_⟩
  rw [List.flatMap_assoc]
  exact iter.order hs hsize (by decide)

/-- A loop that ends has found as many elements as were asked for, up to the wrap of the counter. -/
theorem sequences_len {bs : List Batch}
    (hcount : ∀ b ∈ bs, (b.runs.map Run.len).sum = b.nelem * size) :
    ∀ {n : Nat} {runs : List Run}, n < 18446744073709551616 → sequences bs n = .ok runs →
      ∃ m, (runs.map Run.len).sum = m * size ∧ m ≤ (bs.map Batch.nelem).sum ∧
        m % 18446744073709551616 = n := by
  induction bs with
  | nil => exact fun _ h => nomatch h
  | cons b bs ih =>
    intro n runs hn h
    have hb := hcount b List.mem_cons_self
    -- the count left is an unsigned difference, which may wrap
    have hleft : ((n : Int) - b.nelem) % 18446744073709551616 =
        toUnsigned64 ((n : Int) - b.nelem) := by
      unfold toUnsigned64
      omega
    rw [List.map_cons, List.sum_cons]
    unfold sequences at h
    split at h
    -- more to come: the later batches give the rest
    · by_cases hmore : toUnsigned64 ((n : Int) - b.nelem) > 0
      · simp only [if_pos hmore] at h
        obtain ⟨rest, hrest, rfl⟩ := map_eq_ok.mp h
        have hlt : toUnsigned64 ((n : Int) - b.nelem) < 18446744073709551616 := by omega
        obtain ⟨m, hm, hle, hmod⟩ := ih (fun b' hb' => hcount b' (List.mem_cons_of_mem _ hb'))
          hlt hrest
        refine ⟨b.nelem + m, ?_, Nat.add_le_add_left hle _, by omega⟩
        rw [List.map_append, List.sum_append, hb, hm, Nat.add_mul]
      -- nothing left: this batch was the last
      · simp only [if_neg hmore] at h
        cases h
        exact ⟨b.nelem, hb, Nat.le_add_right .., by omega⟩
    · cases h

theorem opBytes_match (runs : List Run) :
    opBytes (runs.map fun r => ⟨r.off, r.len, r.off⟩) =
      (runs.flatMap Run.bytes).map fun b => (b, b) := by
  simp [opBytes, Entry.bytes, Run.bytes, List.flatMap_map, List.map_flatMap, Function.comp_def]

/-- The same offsets on both sides. -/
theorem buildIoOpMatch_spec (iter : SelIter) {s : Dataspace} (hs : s.Valid) (hsize : 0 < size)
    (hpos : 0 < s.npoints) :
    ∃ op, buildIoOpMatch iter s size s.npoints = .ok op ∧
      opBytes op = (s.bytes size).zip (s.bytes size) := by
  obtain ⟨runs, hruns, hbytes⟩ := sequences_spec iter hs hsize hpos
  refine ⟨_, by rw [buildIoOpMatch, if_pos hpos, hruns]; rfl, ?_⟩
  rw [opBytes_match, hbytes, List.zip_eq_zipWith, List.zipWith_self]

end Build

end DTIO.Vol
