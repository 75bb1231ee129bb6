import DTIO.Foundation.Grid

/-!
# Dataspaces

The selection functions of HDF5 by their documented meaning.  A selection is the list of its
coordinates in the order in which HDF5 iterates over them: row-major for a hyperslab or the whole
extent, the order of the list for points.

## Main definitions

- `Dataspace`: an extent and a selection
- `SelIter`: how HDF5 serialises a selection; it may join and split sequences as it likes
-/

namespace DTIO.Vol

open DTIO.Grid

/-- `H5S_MAX_RANK`. -/
def maxRank : Nat := 32

/-- A dataspace: its extent, and the selected coordinates in the order of the iteration. -/
structure Dataspace where
  extent : Coord
  points : List Coord
  deriving DecidableEq, Repr

namespace Dataspace

/-- `H5Sget_select_npoints`. -/
def npoints (s : Dataspace) : Nat := s.points.length

/-- `H5Sget_simple_extent_npoints`. -/
def extentNpoints (s : Dataspace) : Nat := s.extent.prod

/-- `H5Sget_select_bounds`, the lower corner. -/
def selStart (s : Dataspace) : Coord :=
  match s.points with
  | [] => []
  | p :: ps => ps.foldl (List.zipWith min) p

/-- `H5Sget_select_bounds`, the upper corner. -/
def selEnd (s : Dataspace) : Coord :=
  match s.points with
  | [] => []
  | p :: ps => ps.foldl (List.zipWith max) p

/-- `H5Shyper_intersect_block`, from `first` to `last`. -/
def intersectBlock (s : Dataspace) (first last : Coord) : Bool :=
  s.points.any (within first last)

/-- `H5Sselect_hyperslab` with `H5S_SELECT_AND`, `start` and `count`. -/
def selectAnd (s : Dataspace) (start count : Coord) : Dataspace :=
  { s with points := s.points.filter (within start (blockEnd start count)) }

/-- `H5Sset_extent_real`. -/
def setExtent (s : Dataspace) (dims : Coord) : Dataspace := { s with extent := dims }

/-- `H5Sselect_adjust_u`. -/
def selectAdjust (s : Dataspace) (off : Coord) : Dataspace :=
  { s with points := s.points.map fun p => relative p off }

/-- `H5Sselect_copy`: the selection of `src` in place of the one of `dst`. -/
def selectCopy (dst src : Dataspace) : Dataspace := { dst with points := src.points }

/-- `H5Shyper_adjust_s`, with signed offsets. -/
def hyperAdjust (s : Dataspace) (off : List Int) : Dataspace :=
  { s with points := s.points.map fun p =>
      List.zipWith (fun (x : Nat) (o : Int) => ((x : Int) - o).toNat) p off }

/-- `H5Sselect_shape_same`: the same places, each seen from the lower corner of its selection. -/
def shapeSame (s t : Dataspace) : Bool :=
  decide ((s.points.map fun p => relative p s.selStart) =
    t.points.map fun p => relative p t.selStart)

/-- A selection within its extent.  HDF5 counts elements in an `hssize_t`. -/
structure Valid (s : Dataspace) : Prop where
  inside : ∀ p ∈ s.points, Inside p s.extent
  count : s.extent.prod < 9223372036854775808
  selected : s.points.length < 9223372036854775808

/-- `H5Sselect_all`. -/
def all (extent : Coord) : Dataspace := ⟨extent, allPositions extent⟩

theorem valid_all {extent : Coord} (h : extent.prod < 9223372036854775808) :
    (all extent).Valid :=
  ⟨fun _ => inside_of_mem_allPositions, h, by
    show (allPositions extent).length < _
    rwa [length_allPositions]⟩

/-- The bytes of the selected elements, in the order of the iteration. -/
def bytes (s : Dataspace) (size : Nat) : List Nat :=
  s.points.flatMap fun p => (List.range size).map fun j => rowMajor s.extent p * size + j

end Dataspace

/-! ## Sequence lists -/

/-- A sequence of bytes. -/
structure Run where
  off : Nat
  len : Nat
  deriving DecidableEq, Repr

def Run.bytes (r : Run) : List Nat := (List.range r.len).map fun j => r.off + j

/-- An answer of `H5Ssel_iter_get_seq_list`: sequences, and the number of their elements. -/
structure Batch where
  runs : List Run
  nelem : Nat
  deriving DecidableEq, Repr

/-- The bytes of all sequences of all answers. -/
def batchBytes (bs : List Batch) : List Nat := bs.flatMap fun b => b.runs.flatMap Run.bytes

/-- `H5VL_DTIO_SEQ_LIST_LEN`. -/
def seqListLen : Nat := 128

/-- The iterator of HDF5: the answers of successive calls of `H5Ssel_iter_get_seq_list` on a
selection of elements of a size, with room for `maxseq` sequences each, until the selection is
exhausted.  Its documentation promises the bytes and their order, nothing about the cuts. -/
structure SelIter where
  batches : Dataspace → Nat → Nat → List Batch
  /-- The answers fit, make progress, count whole elements and give the bytes in order. -/
  room : ∀ {s : Dataspace} {size maxseq : Nat}, s.Valid → 0 < size → 0 < maxseq →
    ∀ b ∈ batches s size maxseq, b.runs.length ≤ maxseq
  progress : ∀ {s : Dataspace} {size maxseq : Nat}, s.Valid → 0 < size → 0 < maxseq →
    ∀ b ∈ batches s size maxseq, b.runs ≠ [] ∧ ∀ r ∈ b.runs, 0 < r.len
  count : ∀ {s : Dataspace} {size maxseq : Nat}, s.Valid → 0 < size → 0 < maxseq →
    ∀ b ∈ batches s size maxseq, (b.runs.map Run.len).sum = b.nelem * size
  order : ∀ {s : Dataspace} {size maxseq : Nat}, s.Valid → 0 < size → 0 < maxseq →
    batchBytes (batches s size maxseq) = s.bytes size

/-- The iterator that gives one element at a time. -/
def elementwise : SelIter where
  batches s size _ := s.points.map fun p => ⟨[⟨rowMajor s.extent p * size, size⟩], 1⟩
  room := by
    intro s size maxseq _ _ hmax b hb
    obtain ⟨p, -, rfl⟩ := List.mem_map.mp hb
    exact hmax
  progress := by
    intro s size maxseq _ hsize _ b hb
    obtain ⟨p, -, rfl⟩ := List.mem_map.mp hb
    simpa using hsize
  count := by
    intro s size maxseq _ _ _ b hb
    obtain ⟨p, -, rfl⟩ := List.mem_map.mp hb
    simp
  order := by
    intro s size maxseq _ _ _
    simp [batchBytes, Dataspace.bytes, Run.bytes, List.flatMap_map]

/-! ## Bounds of a selection -/

theorem foldl_zipWith_le {op : Nat → Nat → Nat} {r : Nat → Nat → Prop}
    (hrefl : ∀ a, r a a) (htrans : ∀ {a b c}, r a b → r b c → r a c)
    (hleft : ∀ a b, r (op a b) a) (hright : ∀ a b, r (op a b) b) {n : Nat} {ps : List Coord} :
    ∀ {p : Coord}, p.length = n → (∀ q ∈ ps, q.length = n) →
      ∀ q ∈ p :: ps, List.Forall₂ r (ps.foldl (List.zipWith op) p) q := by
  -- one step is below both of its arguments
  have hzip : ∀ {a b : Coord}, a.length = b.length →
      List.Forall₂ r (List.zipWith op a b) a ∧ List.Forall₂ r (List.zipWith op a b) b := by
    intro a
    induction a with
    | nil =>
      intro b hlen
      cases b with
      | nil => exact ⟨.nil, .nil⟩
      | cons y b => cases hlen
    | cons x a ih =>
      intro b hlen
      cases b with
      | nil => cases hlen
      | cons y b =>
        obtain ⟨h1, h2⟩ := ih (Nat.succ.inj hlen)
        exact ⟨.cons (hleft x y) h1, .cons (hright x y) h2⟩
  induction ps with
  | nil =>
    intro p _ _ q hq
    rw [List.mem_singleton] at hq
    subst hq
    exact List.forall₂_same.mpr fun x _ => hrefl x
  | cons p' ps ih =>
    intro p hp hps q hq
    have hp' : p'.length = n := hps p' List.mem_cons_self
    obtain ⟨h1, h2⟩ := hzip (hp.trans hp'.symm)
    have hlen : (List.zipWith op p p').length = n := by simp [hp, hp']
    have hfold := ih hlen fun q' hq' => hps q' (List.mem_cons_of_mem _ hq')
    rcases List.mem_cons.mp hq with rfl | hq
    · exact forall₂_trans (r := r) (fun _ _ _ => htrans) (hfold _ List.mem_cons_self) h1
    · rcases List.mem_cons.mp hq with rfl | hq
      · exact forall₂_trans (r := r) (fun _ _ _ => htrans) (hfold _ List.mem_cons_self) h2
      · exact hfold q (List.mem_cons_of_mem _ hq)

namespace Dataspace

variable {s : Dataspace} {n : Nat}

theorem selStart_le (h : ∀ p ∈ s.points, p.length = n) :
    ∀ p ∈ s.points, List.Forall₂ (· ≤ ·) s.selStart p := by
  intro p hp
  unfold selStart
  cases hs : s.points with
  | nil =>
    rw [hs] at hp
    cases hp
  | cons q ps =>
    rw [hs] at h hp
    exact foldl_zipWith_le (fun _ => le_refl _) le_trans min_le_left min_le_right
      (h q List.mem_cons_self) (fun q' hq' => h q' (List.mem_cons_of_mem _ hq')) p hp

theorem le_selEnd (h : ∀ p ∈ s.points, p.length = n) :
    ∀ p ∈ s.points, List.Forall₂ (· ≤ ·) p s.selEnd := by
  intro p hp
  unfold selEnd
  cases hs : s.points with
  | nil =>
    rw [hs] at hp
    cases hp
  | cons q ps =>
    rw [hs] at h hp
    refine List.Forall₂.flip ?_
    exact foldl_zipWith_le (r := fun a b => b ≤ a) (fun _ => le_refl _)
      (fun h1 h2 => le_trans h2 h1) le_max_left le_max_right (h q List.mem_cons_self)
      (fun q' hq' => h q' (List.mem_cons_of_mem _ hq')) p hp

/-- The upper corner is a position of the extent too. -/
theorem Valid.inside_selEnd (h : s.Valid) (hne : s.points ≠ []) : Inside s.selEnd s.extent := by
  -- the greater of two coordinates of the grid is in the grid
  have hmax : ∀ {x y d : Coord}, Inside x d → Inside y d → Inside (List.zipWith max x y) d := by
    intro x y d hx
    induction hx generalizing y with
    | nil => exact fun hy => by cases hy; exact .nil
    | cons hab _ ih =>
      intro hy
      cases hy with
      | cons hab' hy => exact .cons (max_lt hab hab') (ih hy)
  -- so is the greatest of any number of them
  have hfold : ∀ {ps : List Coord} {p d : Coord}, Inside p d → (∀ q ∈ ps, Inside q d) →
      Inside (ps.foldl (List.zipWith max) p) d := by
    intro ps
    induction ps with
    | nil => exact fun hp _ => hp
    | cons q ps ih =>
      intro p d hp hps
      exact ih (hmax hp (hps q List.mem_cons_self)) fun q' hq' =>
        hps q' (List.mem_cons_of_mem _ hq')
  have hinside := h.inside
  unfold selEnd
  cases hs : s.points with
  | nil => exact absurd hs hne
  | cons p ps =>
    rw [hs] at hinside
    exact hfold (hinside p List.mem_cons_self) fun q hq => hinside q (List.mem_cons_of_mem _ hq)

theorem Valid.length_eq (h : s.Valid) : ∀ p ∈ s.points, p.length = s.extent.length :=
  fun p hp => (h.inside p hp).length

/-- Coordinates of valid selections are small. -/
theorem Valid.coord_lt (h : s.Valid) {x : Coord} (hx : Inside x s.extent) :
    ∀ a ∈ x, a < 9223372036854775808 := by
  have hcount := h.count
  intro a ha
  obtain ⟨i, hi, rfl⟩ := List.getElem_of_mem ha
  have hid : i < s.extent.length := hx.length ▸ hi
  have hlt : x[i] < s.extent[i] := List.Forall₂.get hx hi hid
  have hle := hx.positive.le_prod (List.getElem_mem hid)
  omega

end Dataspace

end DTIO.Vol
