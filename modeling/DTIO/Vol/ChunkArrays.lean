import DTIO.Vol.ChunkInfo

/-!
# The Arrays of the Chunk Walk

`H5VL_dtio_get_selected_chunk_info` with its arrays: the corners of the current chunk, which are
updated dimension by dimension, and the buffer of the chunks found, which grows.

## Main definitions

- `Arrays.nextLocation`: the odometer, with the dimension that it increments
- `Arrays.growBuf`: re-allocation of the buffer
- `Arrays.getSelectedChunkInfo`: the function

## Main results

- `nextLocation_eq`: the odometer goes where `nextChunk` does, and fails where that ends
- `chunkLoop_arrays`: where the walk finds its chunks, so does the one with arrays
-/

namespace DTIO.Vol

open DTIO.Grid DTIO.MachineInt

namespace Arrays

/-- `H5VL_DTIO_DEFAULT_NUM_SEL_CHUNKS`. -/
def defaultNumSelChunks : Nat := 64

/-- `sizeof(H5VL_dtio_select_chunk_info_t)`: 32 coordinates and two identifiers. -/
def chunkInfoSize : Nat := 272

/-! ## The corners of a chunk -/

/-- `start_coords` and `end_coords`. -/
structure Corners where
  startCoords : Coord
  endCoords : Coord
  deriving DecidableEq, Repr

namespace Corners

/-- `end_coords[d] = (start_coords[d] + chunk_dims[d]) - 1`, after `start_coords[d] = s`. -/
def place (w : Corners) (chunkDims : Coord) (d s : Nat) : Except Stop Corners := do
  let n ← orFault chunkDims[d]?
  .ok ⟨w.startCoords.set d s,
    w.endCoords.set d (toUnsigned64 ((toUnsigned64 (s + n) : Int) - 1))⟩

/-- `start_coords[d] += chunk_dims[d]`, and `end_coords[d]` from it. -/
def increment (w : Corners) (chunkDims : Coord) (d : Nat) : Except Stop Corners := do
  let s ← orFault w.startCoords[d]?
  let n ← orFault chunkDims[d]?
  w.place chunkDims d (toUnsigned64 (s + n))

/-- `start_coords[d] += chunk_dims[d]` and `end_coords[d] += chunk_dims[d]`. -/
def advance (w : Corners) (chunkDims : Coord) (d : Nat) : Except Stop Corners := do
  let s ← orFault w.startCoords[d]?
  let e ← orFault w.endCoords[d]?
  let n ← orFault chunkDims[d]?
  .ok ⟨w.startCoords.set d (toUnsigned64 (s + n)), w.endCoords.set d (toUnsigned64 (e + n))⟩

/-- `start_coords[d] = selection_start_coords[d]`, and `end_coords[d]` from it. -/
def reset (w : Corners) (chunkDims selectionStart : Coord) (d : Nat) : Except Stop Corners := do
  let s ← orFault selectionStart[d]?
  w.place chunkDims d s

/-- `start_coords[d] > file_sel_end[d]`. -/
def isPast (w : Corners) (fileSelEnd : Coord) (d : Nat) : Except Stop Bool := do
  let s ← orFault w.startCoords[d]?
  let h ← orFault fileSelEnd[d]?
  .ok (decide (s > h))

end Corners

/-- The `do` loop that brings the location back into bounds, where `increment_dim` is `d`.  There
is no dimension below 0. -/
def backIntoBounds (chunkDims selectionStart fileSelEnd : Coord) :
    Nat → Corners → Except Stop Corners
  | 0, _ => .error .fault
  | d + 1, w => do
    let w ← w.reset chunkDims selectionStart (d + 1)
    let w ← w.increment chunkDims d
    let past ← w.isPast fileSelEnd d
    if past then backIntoBounds chunkDims selectionStart fileSelEnd d w else .ok w

/-- The next location: the fastest changing dimension is `fspace_ndims - 1`. -/
def nextLocation (chunkDims selectionStart fileSelEnd : Coord) (fspaceNdims : Nat) (w : Corners) :
    Except Stop Corners :=
  match fspaceNdims with
  | 0 => .error .fault
  | d + 1 => do
    let w ← w.advance chunkDims d
    let past ← w.isPast fileSelEnd d
    if past then backIntoBounds chunkDims selectionStart fileSelEnd d w else .ok w

/-! ## The buffer -/

/-- The loop that re-allocates the buffer of `alloced` bytes until it has room for entry `i`.
`realloc` provides up to `limit` bytes. -/
def growBuf (limit i : Nat) : Nat → Nat → Except Stop Nat
  | 0, _ => .error .fault
  | rounds + 1, alloced =>
    if i > toUnsigned64 ((alloced / chunkInfoSize : Nat) - 1) then
      if toUnsigned64 (2 * alloced) > limit then .error .fail
      else growBuf limit i rounds (toUnsigned64 (alloced * 2))
    else .ok alloced

/-- Differences of signed 64-bit integers, entry by entry; an overflow is undefined. -/
def subSigned64 (as bs : List Int) : Except Stop (List Int) :=
  let ds := List.zipWith (· - ·) as bs
  if ∀ d ∈ ds, toSigned64 d = d then .ok ds else .error .fault

/-! ## The loop -/

/-- The variables of the loop; `infos` are the entries of the buffer below `i`. -/
structure Walk where
  corners : Corners
  numSelPoints : Nat
  infoBufAlloced : Nat
  infos : List ChunkInfo

/-- One entry for the chunk at `start_coords`, at the end of `infos`. -/
def addChunk (limit : Nat) (file mem : Dataspace) (chunkDims : Coord) (adjust : List Int)
    (sameShape : Bool) (st : Walk) : Except Stop Walk := do
  let start := st.corners.startCoords
  -- a size doubles less than 64 times before it is over the limit
  let alloced ← growBuf limit st.infos.length 64 st.infoBufAlloced
  if alloced / chunkInfoSize ≤ st.infos.length then .error .fault
  else if sameShape = true then do
    let fspace := ((file.selectAnd start chunkDims).setExtent chunkDims).selectAdjust start
    let chunkMemSpaceAdjust ← subSigned64 adjust (start.map fun s => toSigned64 (s : Nat))
    let info : ChunkInfo := ⟨start, (mem.selectCopy fspace).hyperAdjust chunkMemSpaceAdjust, fspace⟩
    let numSelPoints := toUnsigned64 ((st.numSelPoints : Int) - fspace.npoints)
    .ok ⟨st.corners, numSelPoints, alloced, st.infos ++ [info]⟩
  else .error .fail

/-- The loop of the function. -/
def infoLoop (limit : Nat) (file mem : Dataspace) (chunkDims selectionStart fileSelEnd : Coord)
    (adjust : List Int) (sameShape : Bool) : Nat → Walk → Except Stop (List ChunkInfo)
  | 0, _ => .error .fault
  | rounds + 1, st =>
    if st.numSelPoints = 0 then .ok st.infos
    else if file.intersectBlock st.corners.startCoords st.corners.endCoords = true then do
      let st ← addChunk limit file mem chunkDims adjust sameShape st
      if st.numSelPoints = 0 then .ok st.infos
      else do
        let w ← nextLocation chunkDims selectionStart fileSelEnd file.extent.length st.corners
        infoLoop limit file mem chunkDims selectionStart fileSelEnd adjust sameShape rounds
          { st with corners := w }
    else do
      let w ← nextLocation chunkDims selectionStart fileSelEnd file.extent.length st.corners
      infoLoop limit file mem chunkDims selectionStart fileSelEnd adjust sameShape rounds
        { st with corners := w }

/-- `H5VL_dtio_get_selected_chunk_info`, with at most `rounds` rounds of its loop.  `malloc` and
`realloc` provide up to `limit` bytes; the arrays have room for `H5S_MAX_RANK` dimensions. -/
def getSelectedChunkInfo (limit rounds : Nat) (chunkDims : Coord) (file mem : Dataspace) :
    Except Stop (List ChunkInfo) :=
  if maxRank < file.extent.length ∨ mem.extent.length ≠ file.extent.length ∨
      chunkDims.length ≠ file.extent.length then
    .error .fault
  -- an empty selection has no bounds
  else if file.points = [] ∨ mem.points = [] then .error .fail
  else do
    let fileSelStart := file.selStart
    let adjust ← subSigned64 (fileSelStart.map fun f => toSigned64 (f : Nat))
      (mem.selStart.map fun m => toSigned64 (m : Nat))
    if limit < defaultNumSelChunks * chunkInfoSize then .error .fail
    else
      let start := blockStart chunkDims fileSelStart
      infoLoop limit file mem chunkDims start file.selEnd adjust (file.shapeSame mem) rounds
        ⟨⟨start, endCoords start chunkDims⟩, file.npoints, defaultNumSelChunks * chunkInfoSize, []⟩

/-! ## The odometer -/

/-- The corners of the chunk at `start`. -/
def cornersAt (chunkDims start : Coord) : Corners := ⟨start, endCoords start chunkDims⟩

theorem endCoords_set {dims s : Coord} {d n : Nat} (hn : dims[d]? = some n) (x : Nat) :
    endCoords (s.set d x) dims = (endCoords s dims).set d (toUnsigned64 ((x : Int) + n - 1)) := by
  induction s generalizing dims d with
  | nil => rfl
  | cons a s ih =>
    cases dims with
    | nil => cases hn
    | cons m dims =>
      cases d with
      | zero =>
        obtain rfl : m = n := Option.some.inj hn
        rfl
      | succ d => exact congrArg (_ :: ·) (ih hn)

theorem endCoords_getElem? {dims s : Coord} {d n a : Nat} (hn : dims[d]? = some n)
    (ha : s[d]? = some a) :
    (endCoords s dims)[d]? = some (toUnsigned64 ((a : Int) + n - 1)) := by
  induction s generalizing dims d with
  | nil => cases ha
  | cons b s ih =>
    cases dims with
    | nil => cases hn
    | cons m dims =>
      cases d with
      | zero =>
        obtain rfl : m = n := Option.some.inj hn
        obtain rfl : b = a := Option.some.inj ha
        rfl
      | succ d => exact ih hn ha

section Odometer

variable {dims s lo : Coord} {d n a l : Nat}

theorem place_cornersAt (hn : dims[d]? = some n) (x : Nat) :
    (cornersAt dims s).place dims d x = .ok (cornersAt dims (s.set d x)) := by
  have hlast : toUnsigned64 ((toUnsigned64 (x + n) : Int) - 1) =
      toUnsigned64 ((x : Int) + n - 1) := by
    unfold toUnsigned64
    omega
  simp only [Corners.place, cornersAt, hn, orFault_some, ok_bind, hlast, endCoords_set hn]

theorem increment_cornersAt (hn : dims[d]? = some n) (ha : s[d]? = some a) :
    (cornersAt dims s).increment dims d =
      .ok (cornersAt dims (s.set d (toUnsigned64 (a + n)))) := by
  have hstart : (cornersAt dims s).startCoords[d]? = some a := ha
  simp only [Corners.increment, hstart, hn, orFault_some, ok_bind]
  exact place_cornersAt hn _

theorem advance_cornersAt (hn : dims[d]? = some n) (ha : s[d]? = some a) :
    (cornersAt dims s).advance dims d = .ok (cornersAt dims (s.set d (toUnsigned64 (a + n)))) := by
  have hstart : (cornersAt dims s).startCoords[d]? = some a := ha
  have hend : (cornersAt dims s).endCoords[d]? = some (toUnsigned64 ((a : Int) + n - 1)) :=
    endCoords_getElem? hn ha
  have hlast : toUnsigned64 ((toUnsigned64 ((a : Int) + n - 1) : Int) + n) =
      toUnsigned64 ((toUnsigned64 (a + n) : Int) + n - 1) := by
    unfold toUnsigned64
    omega
  simp only [Corners.advance, hstart, hend, hn, orFault_some, ok_bind, hlast]
  simp only [cornersAt, endCoords_set hn]

theorem reset_cornersAt (hn : dims[d]? = some n) (hl : lo[d]? = some l) :
    (cornersAt dims s).reset dims lo d = .ok (cornersAt dims (s.set d l)) := by
  simp only [Corners.reset, hl, orFault_some, ok_bind]
  exact place_cornersAt hn _

theorem isPast_cornersAt {hi : Coord} {h : Nat} (ha : s[d]? = some a) (hh : hi[d]? = some h) :
    (cornersAt dims s).isPast hi d = .ok (decide (a > h)) := by
  have hstart : (cornersAt dims s).startCoords[d]? = some a := ha
  simp only [Corners.isPast, hstart, hh, orFault_some, ok_bind]

end Odometer

theorem exists_append_singleton {α : Type} {l : List α} {d : Nat} (h : l.length = d + 1) :
    ∃ l' a, l = l' ++ [a] ∧ l'.length = d := by
  have hne : l ≠ [] := List.ne_nil_of_length_eq_add_one h
  refine ⟨l.dropLast, l.getLast hne, (List.dropLast_append_getLast hne).symm, ?_⟩
  rw [List.length_dropLast, h, Nat.add_sub_cancel]

/-- `nextChunk` from its fastest changing dimension. -/
theorem nextChunk_append {c lo hi s : Coord} {n l h a : Nat} (hlo : lo.length = c.length)
    (hhi : hi.length = c.length) (hs : s.length = c.length) :
    nextChunk (c ++ [n]) (lo ++ [l]) (hi ++ [h]) (s ++ [a]) =
      if toUnsigned64 (a + n) > h then (nextChunk c lo hi s).map (· ++ [l])
      else some (s ++ [toUnsigned64 (a + n)]) := by
  induction c generalizing lo hi s with
  | nil =>
    obtain rfl := List.length_eq_zero_iff.mp hlo
    obtain rfl := List.length_eq_zero_iff.mp hhi
    obtain rfl := List.length_eq_zero_iff.mp hs
    simp [nextChunk]
  | cons n' c ih =>
    obtain ⟨l', lo, rfl⟩ := List.exists_cons_of_length_eq_add_one hlo
    obtain ⟨h', hi, rfl⟩ := List.exists_cons_of_length_eq_add_one hhi
    obtain ⟨a', s, rfl⟩ := List.exists_cons_of_length_eq_add_one hs
    have hrest := ih (Nat.succ.inj hlo) (Nat.succ.inj hhi) (Nat.succ.inj hs)
    -- whether the last dimension is past its end decides about the ones before
    simp only [List.cons_append, nextChunk, hrest]
    by_cases hpast : toUnsigned64 (a + n) > h
    · simp only [if_pos hpast]
      cases nextChunk c lo hi s with
      | some s' => rfl
      | none =>
        simp only [Option.map_none]
        split <;> rfl
    · simp only [if_neg hpast]

theorem length_nextChunk {c lo hi s s' : Coord} (hlo : lo.length = c.length)
    (hs : s.length = c.length) (h : nextChunk c lo hi s = some s') : s'.length = c.length := by
  induction c generalizing lo hi s s' with
  | nil => cases h
  | cons n c ih =>
    obtain ⟨l, lo, rfl⟩ := List.exists_cons_of_length_eq_add_one hlo
    obtain ⟨a, s, rfl⟩ := List.exists_cons_of_length_eq_add_one hs
    cases hi with
    | nil => cases h
    | cons b hi =>
      simp only [nextChunk] at h
      cases hnext : nextChunk c lo hi s with
      -- an inner axis moved on
      | some rest =>
        rw [hnext] at h
        obtain rfl := Option.some.inj h
        exact congrArg (· + 1) (ih (Nat.succ.inj hlo) (Nat.succ.inj hs) hnext)
      -- it wrapped: this axis moves on, or it was the last chunk
      | none =>
        rw [hnext] at h
        simp only at h
        split at h
        · cases h
        · obtain rfl := Option.some.inj h
          exact hlo

/-- Where the odometer goes, if it goes anywhere. -/
def located (c : Coord) : Option Coord → Except Stop Corners
  | some s => .ok (cornersAt c s)
  | none => .error .fault

/-- All dimensions above `d` have started again, and dimension `d` is past the selection. -/
theorem backIntoBounds_eq {d : Nat} {c lo hi s : Coord} (hc : c.length = d)
    (hlo : lo.length = d) (hhi : hi.length = d) (hs : s.length = d) (n l h a : Nat)
    (cs ls hsuf : Coord) :
    backIntoBounds (c ++ n :: cs) (lo ++ l :: ls) (hi ++ h :: hsuf) d
        (cornersAt (c ++ n :: cs) (s ++ a :: ls)) =
      located (c ++ n :: cs) ((nextChunk c lo hi s).map (· ++ l :: ls)) := by
  induction d generalizing c lo hi s n l h a cs ls hsuf with
  | zero =>
    obtain rfl := List.length_eq_zero_iff.mp hc
    rfl
  | succ d ih =>
    obtain ⟨c, n', rfl, rfl⟩ := exists_append_singleton hc
    obtain ⟨lo, l', rfl, hlo'⟩ := exists_append_singleton hlo
    obtain ⟨hi, h', rfl, hhi'⟩ := exists_append_singleton hhi
    obtain ⟨s, a', rfl, hs'⟩ := exists_append_singleton hs
    rw [nextChunk_append hlo' hhi' hs']
    simp only [List.append_assoc, List.singleton_append]
    -- the last dimension goes back to its start, and the one before goes on by a chunk
    have hreset : (cornersAt (c ++ n' :: n :: cs) (s ++ a' :: a :: ls)).reset (c ++ n' :: n :: cs)
        (lo ++ l' :: l :: ls) (c.length + 1) =
        .ok (cornersAt (c ++ n' :: n :: cs) (s ++ a' :: l :: ls)) := by
      rw [reset_cornersAt (n := n) (l := l) (by simp) (by simp [← hlo'])]
      simp [← hs']
    have hincrement : (cornersAt (c ++ n' :: n :: cs) (s ++ a' :: l :: ls)).increment
        (c ++ n' :: n :: cs) c.length =
        .ok (cornersAt (c ++ n' :: n :: cs) (s ++ toUnsigned64 (a' + n') :: l :: ls)) := by
      rw [increment_cornersAt (n := n') (a := a') (by simp) (by simp [← hs'])]
      simp [← hs']
    have hpast : (cornersAt (c ++ n' :: n :: cs) (s ++ toUnsigned64 (a' + n') :: l :: ls)).isPast
        (hi ++ h' :: h :: hsuf) c.length = .ok (decide (toUnsigned64 (a' + n') > h')) :=
      isPast_cornersAt (by simp [← hs']) (by simp [← hhi'])
    simp only [backIntoBounds, hreset, hincrement, hpast, ok_bind, decide_eq_true_eq]
    -- if that is past the end too, the loop goes on with the dimension before it
    by_cases hgt : toUnsigned64 (a' + n') > h'
    · rw [if_pos hgt, if_pos hgt, ih rfl hlo' hhi' hs', Option.map_map]
      simp [Function.comp_def]
    · rw [if_neg hgt, if_neg hgt]
      simp [located]

/-- **The odometer** goes where `nextChunk` goes, and below dimension 0 where that ends. -/
theorem nextLocation_eq {c lo hi s : Coord} (hlo : lo.length = c.length)
    (hhi : hi.length = c.length) (hs : s.length = c.length) :
    nextLocation c lo hi c.length (cornersAt c s) = located c (nextChunk c lo hi s) := by
  cases hd : c.length with
  | zero =>
    obtain rfl := List.length_eq_zero_iff.mp hd
    rfl
  | succ d =>
    obtain ⟨c, n, rfl, rfl⟩ := exists_append_singleton hd
    obtain ⟨lo, l, rfl, hlo'⟩ := exists_append_singleton (hlo.trans hd)
    obtain ⟨hi, h, rfl, hhi'⟩ := exists_append_singleton (hhi.trans hd)
    obtain ⟨s, a, rfl, hs'⟩ := exists_append_singleton (hs.trans hd)
    rw [nextChunk_append hlo' hhi' hs']
    -- the last dimension goes on by a chunk
    have hadvance : (cornersAt (c ++ [n]) (s ++ [a])).advance (c ++ [n]) c.length =
        .ok (cornersAt (c ++ [n]) (s ++ [toUnsigned64 (a + n)])) := by
      rw [advance_cornersAt (n := n) (a := a) (by simp) (by simp [← hs'])]
      simp [← hs']
    have hpast : (cornersAt (c ++ [n]) (s ++ [toUnsigned64 (a + n)])).isPast (hi ++ [h])
        c.length = .ok (decide (toUnsigned64 (a + n) > h)) :=
      isPast_cornersAt (by simp [← hs']) (by simp [← hhi'])
    simp only [nextLocation, hadvance, hpast, ok_bind, decide_eq_true_eq]
    -- past its end, the loop goes back through the dimensions
    by_cases hgt : toUnsigned64 (a + n) > h
    · rw [if_pos hgt, if_pos hgt]
      exact backIntoBounds_eq rfl hlo' hhi' hs' n l h _ [] [] []
    · rw [if_neg hgt, if_neg hgt]
      rfl

/-! ## The buffer grows in time -/

/-- The bytes that suffice for a buffer of `i` entries. -/
def bufferBound (i : Nat) : Nat := 2 * chunkInfoSize * max 32 i

theorem bufferBound_mono {i j : Nat} (h : i ≤ j) : bufferBound i ≤ bufferBound j := by
  unfold bufferBound chunkInfoSize
  omega

/-- A buffer of `alloced` bytes for `i` entries. -/
structure Grown (limit alloced i : Nat) : Prop where
  whole : chunkInfoSize ∣ alloced
  default : defaultNumSelChunks * chunkInfoSize ≤ alloced
  room : i * chunkInfoSize ≤ alloced
  small : alloced ≤ limit
  bounded : alloced ≤ bufferBound i

theorem Grown.init {limit : Nat} (h : ¬ limit < defaultNumSelChunks * chunkInfoSize) :
    Grown limit (defaultNumSelChunks * chunkInfoSize) 0 where
  whole := Nat.dvd_mul_left ..
  default := le_rfl
  room := by simp
  small := not_lt.mp h
  bounded := by decide

theorem toUnsigned64_double {n : Nat} (h : n < 9223372036854775808) :
    toUnsigned64 (2 * n) = 2 * n :=
  toUnsigned64_eq (by omega) (by omega)

/-- The last entry of a buffer that has one. -/
theorem toUnsigned64_last {n : Nat} (hpos : chunkInfoSize ≤ n) (h : n < 18446744073709551616) :
    toUnsigned64 ((n / chunkInfoSize : Nat) - 1) = n / chunkInfoSize - 1 := by
  unfold chunkInfoSize at *
  exact toUnsigned64_eq (by omega) (by omega)

theorem growBuf_of_le {limit i alloced rounds : Nat} (hpos : chunkInfoSize ≤ alloced)
    (hsmall : alloced < 18446744073709551616) (hi : i < alloced / chunkInfoSize) :
    growBuf limit i (rounds + 1) alloced = .ok alloced := by
  have hfree : ¬ i > alloced / chunkInfoSize - 1 := by omega
  simp only [growBuf, toUnsigned64_last hpos hsmall, if_neg hfree]

theorem growBuf_of_full {limit i alloced rounds : Nat} (hpos : chunkInfoSize ≤ alloced)
    (hsmall : alloced < 9223372036854775808) (hi : alloced / chunkInfoSize ≤ i) :
    growBuf limit i (rounds + 1) alloced =
      if 2 * alloced > limit then .error .fail else growBuf limit i rounds (2 * alloced) := by
  have hfull : i > alloced / chunkInfoSize - 1 := by
    unfold chunkInfoSize at *
    omega
  have htwice := toUnsigned64_double hsmall
  have hdouble : toUnsigned64 (alloced * 2) = 2 * alloced := by rw [mul_comm, htwice]
  simp only [growBuf, toUnsigned64_last hpos (hsmall.trans (by decide)), if_pos hfull, htwice,
    hdouble]

/-- One more entry: the buffer is doubled at most once, unless there is no memory for it. -/
theorem growBuf_eq {limit alloced i : Nat} (hlimit : limit < 9223372036854775808)
    (h : Grown limit alloced i) (rounds : Nat) :
    (∃ alloced', growBuf limit i (rounds + 2) alloced = .ok alloced' ∧
      Grown limit alloced' (i + 1)) ∨
    (growBuf limit i (rounds + 2) alloced = .error .fail ∧ limit < bufferBound (i + 1)) := by
  have hpos : chunkInfoSize ≤ alloced := le_trans (by decide) h.default
  have hsmall : alloced < 9223372036854775808 := lt_of_le_of_lt h.small hlimit
  by_cases hi : i < alloced / chunkInfoSize
  · refine Or.inl ⟨alloced, growBuf_of_le hpos (hsmall.trans (by decide)) hi, h.whole, h.default,
      ?_, h.small, h.bounded.trans (bufferBound_mono (Nat.le_succ i))⟩
    exact (Nat.le_div_iff_mul_le (by decide)).mp hi
  · -- the entries fill the buffer
    have hfull : alloced / chunkInfoSize ≤ i := not_lt.mp hi
    have halloced : i * chunkInfoSize = alloced :=
      le_antisymm h.room ((Nat.div_le_iff_le_mul_of_dvd (by decide) h.whole).mp hfull)
    have hmany : defaultNumSelChunks ≤ i :=
      Nat.le_of_mul_le_mul_right (h.default.trans halloced.ge) (by decide)
    have hbound : 2 * alloced ≤ bufferBound (i + 1) := by
      unfold bufferBound
      rw [← halloced]
      unfold chunkInfoSize
      omega
    rw [growBuf_of_full hpos hsmall hfull]
    by_cases hover : 2 * alloced > limit
    · exact Or.inr ⟨if_pos hover, lt_of_lt_of_le hover hbound⟩
    · have hroom : (i + 1) * chunkInfoSize ≤ 2 * alloced := by
        rw [← halloced]
        unfold chunkInfoSize defaultNumSelChunks at *
        omega
      rw [if_neg hover]
      refine Or.inl ⟨2 * alloced, growBuf_of_le (by omega) (by omega) ?_, h.whole.mul_left 2,
        h.default.trans (by omega), hroom, not_lt.mp hover, hbound⟩
      exact (Nat.le_div_iff_mul_le (by decide)).mpr hroom

/-! ## The loop -/

/-- The adjustment of the memory selection does not overflow. -/
def Adjustable (adjust : List Int) (start : Coord) : Prop :=
  ∀ d ∈ List.zipWith (fun a s => a - toSigned64 (s : Nat)) adjust start, toSigned64 d = d

theorem subSigned64_eq {adjust : List Int} {start : Coord} (h : Adjustable adjust start) :
    subSigned64 adjust (start.map fun s => toSigned64 (s : Nat)) =
      .ok (List.zipWith (fun a s => a - toSigned64 (s : Nat)) adjust start) := by
  unfold subSigned64
  rw [List.zipWith_map_right]
  exact if_pos h

theorem toSigned64_sub {x y : Nat} (hx : x < 9223372036854775808) (hy : y < 9223372036854775808) :
    toSigned64 ((x : Int) - y) = (x : Int) - y := by
  unfold toSigned64
  refine Int.bmod_eq_of_le_mul_two ?_ ?_
  · omega
  · omega

/-- A position with a partner in memory: the adjustment for its chunk stays above the partner's
negative. -/
theorem adjustable_blockStart {c p m lo lo' : Coord} (hlo : List.Forall₂ (· ≤ ·) lo p)
    (hlo' : List.Forall₂ (· ≤ ·) lo' m) (heq : relative p lo = relative m lo')
    (hp : ∀ a ∈ p, a < 9223372036854775808) (hm : ∀ a ∈ m, a < 9223372036854775808) :
    Adjustable (List.zipWith (fun f m => toSigned64 (f : Nat) - toSigned64 (m : Nat)) lo lo')
      (blockStart c p) := by
  induction hlo generalizing c m lo' with
  | nil => exact fun d hd => by simp at hd
  | @cons l a lo p hla _ ih =>
    cases hlo' with
    | nil => cases heq
    | @cons l' b lo' m hlb hlo' =>
      cases c with
      | nil => exact fun d hd => by simp [blockStart] at hd
      | cons n c =>
        simp only [relative, List.zipWith_cons_cons, List.cons.injEq] at heq
        have ha : a < 9223372036854775808 := hp a List.mem_cons_self
        have hb : b < 9223372036854775808 := hm b List.mem_cons_self
        intro d hd
        simp only [blockStart, List.zipWith_cons_cons, List.mem_cons] at hd
        -- the first dimension, and by induction the others
        rcases hd with hd | hd
        · rw [adjust_head n hla hlb heq.1 ha hb] at hd
          rw [hd]
          exact toSigned64_sub (lt_of_le_of_lt (Nat.sub_le ..) ha) hb
        · exact ih hlo' heq.2 (fun x hx => hp x (List.mem_cons_of_mem _ hx))
            (fun x hx => hm x (List.mem_cons_of_mem _ hx)) d hd

section Loop

variable {limit : Nat} {file mem : Dataspace} {c lo hi : Coord} {adjust : List Int}

theorem addChunk_eq (hlimit : limit < 9223372036854775808) {start : Coord} {remaining alloced : Nat}
    {infos : List ChunkInfo} (hgrown : Grown limit alloced infos.length)
    (hadjust : Adjustable adjust start) :
    (∃ alloced', Grown limit alloced' (infos.length + 1) ∧
      addChunk limit file mem c adjust true ⟨cornersAt c start, remaining, alloced, infos⟩ =
        .ok ⟨cornersAt c start,
          toUnsigned64 ((remaining : Int) - (chunkInfo file mem c adjust start).fspace.npoints),
          alloced', infos ++ [chunkInfo file mem c adjust start]⟩) ∨
    (addChunk limit file mem c adjust true ⟨cornersAt c start, remaining, alloced, infos⟩ =
      .error .fail ∧ limit < bufferBound (infos.length + 1)) := by
  rcases growBuf_eq hlimit hgrown 62 with ⟨alloced', hgrow, hgrown'⟩ | ⟨hgrow, hlack⟩
  · have hroom : ¬ alloced' / chunkInfoSize ≤ infos.length := by
      have := hgrown'.room
      unfold chunkInfoSize at this ⊢
      omega
    refine Or.inl ⟨alloced', hgrown', ?_⟩
    simp only [addChunk, cornersAt, hgrow, ok_bind, if_neg hroom, if_true, subSigned64_eq hadjust]
    rfl
  · refine Or.inr ⟨?_, hlack⟩
    simp only [addChunk, hgrow, error_bind]

/-- A round of the walk at a chunk that is touched. -/
theorem chunkLoop_touched {rounds remaining : Nat} {start : Coord} {found : List ChunkInfo}
    (hzero : remaining ≠ 0) (htouched : file.intersectBlock start (endCoords start c) = true)
    (hok : chunkLoop file mem c lo hi adjust true (rounds + 1) start remaining = .ok found) :
    ∃ rest, found = chunkInfo file mem c adjust start :: rest ∧
      ∀ remaining', toUnsigned64 ((remaining : Int) -
          (chunkInfo file mem c adjust start).fspace.npoints) = remaining' →
        (remaining' = 0 ∧ rest = []) ∨ (remaining' ≠ 0 ∧ ∃ start',
          nextChunk c lo hi start = some start' ∧
          chunkLoop file mem c lo hi adjust true rounds start' remaining' = .ok rest) := by
  simp only [chunkLoop, if_neg hzero, htouched, if_true] at hok
  split at hok
  -- all elements are found
  next hdone =>
    obtain rfl := Except.ok.inj hok
    refine ⟨[], rfl, ?_⟩
    rintro _ rfl
    exact Or.inl ⟨hdone, rfl⟩
  -- elements are left, so there is a next chunk
  next hmore =>
    cases hnext : nextChunk c lo hi start with
    | none =>
      rw [hnext] at hok
      cases hok
    | some start' =>
      rw [hnext] at hok
      obtain ⟨rest, hrest, rfl⟩ := map_eq_ok.mp hok
      refine ⟨rest, rfl, ?_⟩
      rintro _ rfl
      exact Or.inr ⟨hmore, start', rfl, hrest⟩

/-- **Arrays and walk.**  Where the walk finds `found`, the loop with arrays does, unless there is
no memory for the buffer. -/
theorem chunkLoop_arrays (hlimit : limit < 9223372036854775808)
    (hrank : file.extent.length = c.length) (hlo : lo.length = c.length)
    (hhi : hi.length = c.length) {rounds : Nat} :
    ∀ {start : Coord} {remaining alloced : Nat} {infos found : List ChunkInfo},
      start.length = c.length →
      chunkLoop file mem c lo hi adjust true rounds start remaining = .ok found →
      (∀ info ∈ found, Adjustable adjust info.chunkCoords) →
      Grown limit alloced infos.length →
      infoLoop limit file mem c lo hi adjust true rounds
          ⟨cornersAt c start, remaining, alloced, infos⟩ = .ok (infos ++ found) ∨
        (infoLoop limit file mem c lo hi adjust true rounds
          ⟨cornersAt c start, remaining, alloced, infos⟩ = .error .fail ∧
          limit < bufferBound (infos.length + found.length)) := by
  induction rounds with
  | zero => exact fun _ hok => nomatch hok
  | succ rounds ih =>
    intro start remaining alloced infos found hstart hok hadjust hgrown
    by_cases hzero : remaining = 0
    · rw [chunkLoop, if_pos hzero] at hok
      obtain rfl := Except.ok.inj hok
      exact Or.inl (by simp [infoLoop, hzero])
    -- both test the block at `start`, and go on to the same next one
    have hcorners : file.intersectBlock (cornersAt c start).startCoords
        (cornersAt c start).endCoords = file.intersectBlock start (endCoords start c) := rfl
    have hlocation := nextLocation_eq hlo hhi hstart
    by_cases htouched : file.intersectBlock start (endCoords start c) = true
    · obtain ⟨rest, rfl, hrest⟩ := chunkLoop_touched hzero htouched hok
      have hfits : Adjustable adjust start := hadjust _ List.mem_cons_self
      simp only [infoLoop, hrank, if_neg hzero, hcorners, htouched, if_true]
      rcases @addChunk_eq limit file mem c adjust hlimit start remaining alloced infos hgrown
        hfits with ⟨alloced', hgrown', hadd⟩ | ⟨hadd, hlack⟩
      · simp only [hadd, ok_bind]
        rcases hrest _ rfl with ⟨hdone, rfl⟩ | ⟨hmore, start', hnext, hok'⟩
        · exact Or.inl (if_pos hdone)
        · simp only [if_neg hmore, hlocation, hnext, located, ok_bind]
          have hrun := @ih start' _ alloced' (infos ++ [chunkInfo file mem c adjust start]) rest
            (length_nextChunk hlo hstart hnext) hok'
            (fun info hinfo => hadjust info (List.mem_cons_of_mem _ hinfo)) (by simpa using hgrown')
          simpa [Nat.add_assoc, Nat.add_comm 1] using hrun
      -- the buffer could not grow for this chunk, so it could not for all that follow
      · refine Or.inr ⟨by simp only [hadd, error_bind], hlack.trans_le (bufferBound_mono ?_)⟩
        rw [List.length_cons]
        omega
    · simp only [chunkLoop, if_neg hzero, if_neg htouched] at hok
      simp only [infoLoop, hrank, if_neg hzero, hcorners, if_neg htouched, hlocation]
      cases hnext : nextChunk c lo hi start with
      | none =>
        rw [hnext] at hok
        cases hok
      | some start' =>
        rw [hnext] at hok
        simp only [located, ok_bind]
        exact ih (length_nextChunk hlo hstart hnext) hok hadjust hgrown

end Loop

/-! ## The function -/

/-- The adjustments of the whole selections do not overflow. -/
theorem subSigned64_start {lo lo' : Coord} (hlo : ∀ a ∈ lo, a < 9223372036854775808)
    (hlo' : ∀ a ∈ lo', a < 9223372036854775808) :
    subSigned64 (lo.map fun f => toSigned64 (f : Nat)) (lo'.map fun m => toSigned64 (m : Nat)) =
      .ok (List.zipWith (fun f m => toSigned64 (f : Nat) - toSigned64 (m : Nat)) lo lo') := by
  have hall : ∀ d ∈ List.zipWith (fun f m => toSigned64 (f : Nat) - toSigned64 (m : Nat)) lo lo',
      toSigned64 d = d := by
    intro d hd
    rw [← List.map_uncurry_zip_eq_zipWith] at hd
    obtain ⟨⟨f, m⟩, hfm, rfl⟩ := List.mem_map.mp hd
    have hf := hlo f (List.of_mem_zip hfm).1
    have hm := hlo' m (List.of_mem_zip hfm).2
    rw [Function.uncurry, toSigned64_of_lt hf, toSigned64_of_lt hm]
    exact toSigned64_sub hf hm
  simp only [subSigned64, List.zipWith_map, if_pos hall]

section Function

variable {file mem : Dataspace} {c : Coord}

theorem selStart_lt (h : Enumerable c file mem) : ∀ a ∈ file.selStart, a < 9223372036854775808 := by
  obtain ⟨p, hp⟩ := List.exists_mem_of_ne_nil _ h.nonempty
  exact lt_of_forall₂_le (h.selStart_le p hp) (h.coord_lt hp)

theorem memSelStart_lt (h : Enumerable c file mem) :
    ∀ a ∈ mem.selStart, a < 9223372036854775808 := by
  obtain ⟨m, hm⟩ := List.exists_mem_of_ne_nil _ h.mem_nonempty
  exact lt_of_forall₂_le (Dataspace.selStart_le h.memLength m hm) (h.memCoord_lt hm)

/-- Nothing overflows at a chunk that is touched. -/
theorem adjustable_of_touched (h : Enumerable c file mem) {p : Coord} (hp : p ∈ file.points) :
    Adjustable h.adjust (blockStart c p) := by
  obtain ⟨hcount, hpairs⟩ := forall_zip_of_map_eq (of_decide_eq_true h.sameShape)
  obtain ⟨i, hi, rfl⟩ := List.getElem_of_mem hp
  have him : i < mem.points.length := hcount ▸ hi
  have hpm : (file.points[i], mem.points[i]) ∈ file.points.zip mem.points := by
    rw [← List.getElem_zip]
    exact List.getElem_mem (by simpa using ⟨hi, him⟩)
  have hm : mem.points[i] ∈ mem.points := List.getElem_mem him
  exact adjustable_blockStart (h.selStart_le _ hp) (Dataspace.selStart_le h.memLength _ hm)
    (hpairs _ hpm) (h.coord_lt hp) (h.memCoord_lt hm)

/-- **The function with its arrays** returns the chunks of the walk, unless there is no memory for
the buffer.  One round for each chunk between the bounds is enough. -/
theorem getSelectedChunkInfo_arrays (h : Enumerable c file mem) (hrank : c.length ≤ maxRank)
    {limit rounds : Nat} (hlimit : limit < 9223372036854775808)
    (hrounds : h.chunks.length ≤ rounds) {infos : List ChunkInfo}
    (hok : Vol.getSelectedChunkInfo c file mem = .ok infos) :
    getSelectedChunkInfo limit rounds c file mem = .ok infos ∨
      (getSelectedChunkInfo limit rounds c file mem = .error .fail ∧
        limit < bufferBound infos.length) := by
  rw [h.getSelectedChunkInfo_eq] at hok
  obtain rfl := Except.ok.inj hok
  -- neither the ranks nor the selections make the function fail
  have hranks : ¬ (maxRank < file.extent.length ∨ mem.extent.length ≠ file.extent.length ∨
      c.length ≠ file.extent.length) := by
    simpa [h.memRank, h.chunkRank] using h.chunkRank ▸ hrank
  have hne : ¬ (file.points = [] ∨ mem.points = []) := by
    simp [h.nonempty, h.mem_nonempty]
  have hstart : subSigned64 (file.selStart.map fun f => toSigned64 (f : Nat))
      (mem.selStart.map fun m => toSigned64 (m : Nat)) = .ok h.adjust :=
    subSigned64_start (selStart_lt h) (memSelStart_lt h)
  simp only [getSelectedChunkInfo, if_neg hranks, if_neg hne, hstart, ok_bind, h.sameShape]
  -- the buffer for the first 64 chunks may be too large already
  by_cases hfirst : limit < defaultNumSelChunks * chunkInfoSize
  · refine Or.inr ⟨if_pos hfirst, hfirst.trans_le ?_⟩
    exact le_trans (by decide) (bufferBound_mono (Nat.zero_le _))
  · rw [if_neg hfirst]
    -- each chunk that is touched can be adjusted for
    have hadjust : ∀ info ∈ ((h.chunks.filter fun s => file.intersectBlock s (endCoords s c)).map
        (chunkInfo file mem c h.adjust)), Adjustable h.adjust info.chunkCoords := by
      intro info hinfo
      obtain ⟨s, hs, rfl⟩ := List.mem_map.mp hinfo
      obtain ⟨hs, htouched⟩ := List.mem_filter.mp hs
      obtain ⟨p, hp, hps⟩ := (h.intersectBlock_iff hs).mp htouched
      exact hps ▸ adjustable_of_touched h hp
    have hgrown : Grown limit (defaultNumSelChunks * chunkInfoSize) ([] : List ChunkInfo).length :=
      Grown.init hfirst
    have hrun := chunkLoop_arrays hlimit h.chunkRank.symm h.length_start
      h.selEnd_small.length_eq h.length_start (h.chunkLoop_eq hrounds) hadjust hgrown
    simpa [cornersAt] using hrun

end Function

end Arrays

end DTIO.Vol
