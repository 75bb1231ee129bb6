import DTIO.Foundation.MachineInt
import DTIO.Vol.Dataspace

/-!
# The Selected Chunks

`H5VL_dtio_get_selected_chunk_info` (`adapter/vol/vol-old/H5VLDTIO.cc`).  It walks through the
chunks between the bounds of the file selection in row-major order, and for each one that the
selection touches sets up a file dataspace and a memory dataspace, until it has seen all selected
points.

## Main definitions

- `nextChunk`: the next position of the walk
- `getSelectedChunkInfo`: the chunks with their dataspaces

## Main results

- `visits_positions`: the walk visits every chunk between the bounds
- `getSelectedChunkInfo_spec`: each touched chunk once, with its part of the two selections
-/

namespace DTIO.Vol

open DTIO.Grid DTIO.MachineInt

/-- Why a function does not go on: it returns `FAIL`, or what it does is undefined: a failed
assertion, an access out of bounds, a loop without end. -/
inductive Stop where
  | fail
  | fault
  deriving DecidableEq, Repr

@[simp] theorem ok_bind {ε α β : Type} (a : α) (f : α → Except ε β) :
    (Except.ok a >>= f) = f a := rfl

@[simp] theorem error_bind {ε α β : Type} (e : ε) (f : α → Except ε β) :
    ((Except.error e : Except ε α) >>= f) = .error e := rfl

/-- Where a computation does not go on if there is nothing. -/
def orFault {α : Type} : Option α → Except Stop α
  | some a => .ok a
  | none => .error .fault

@[simp] theorem orFault_some {α : Type} (a : α) : orFault (some a) = .ok a := rfl

@[simp] theorem orFault_none {α : Type} : orFault (none : Option α) = .error .fault := rfl

/-- A sequence of two computations succeeds if both do. -/
theorem bind_eq_ok {ε α β : Type} {x : Except ε α} {f : α → Except ε β} {b : β} :
    (x >>= f) = .ok b ↔ ∃ a, x = .ok a ∧ f a = .ok b := by
  cases x with
  | ok a => simp
  | error e => simp

theorem map_eq_ok {α β : Type} {x : Except Stop α} {f : α → β} {b : β} :
    x.map f = .ok b ↔ ∃ a, x = .ok a ∧ f a = b := by
  cases x with
  | ok a =>
    show Except.ok (f a) = .ok b ↔ _
    simp
  | error e =>
    show Except.error e = .ok b ↔ _
    simp

theorem orFault_eq_ok {α : Type} {o : Option α} {a : α} : orFault o = .ok a ↔ o = some a := by
  cases o with
  | none => simp
  | some a' => simp

/-- `H5VL_dtio_select_chunk_info_t`. -/
structure ChunkInfo where
  chunkCoords : Coord
  mspace : Dataspace
  fspace : Dataspace
  deriving DecidableEq, Repr

/-- The chunk after `start`: the fastest changing dimension is incremented first; one that is
past the selection starts again, and the next slower one is incremented.  Nothing if that was
the slowest one. -/
def nextChunk : Coord → Coord → Coord → Coord → Option Coord
  | n :: chunkDims, _ :: selectionStart, h :: fileSelEnd, s :: start =>
    match nextChunk chunkDims selectionStart fileSelEnd start with
    | some start' => some (s :: start')
    | none =>
      if toUnsigned64 (s + n) > h then none else some (toUnsigned64 (s + n) :: selectionStart)
  | _, _, _, _ => none

/-- `end_coords`. -/
def endCoords (start chunkDims : Coord) : Coord :=
  List.zipWith (fun s n => toUnsigned64 ((s : Int) + n - 1)) start chunkDims

/-- The dataspaces of the chunk at `start`.  `adjust` is `chunk_file_space_adjust`. -/
def chunkInfo (file mem : Dataspace) (chunkDims : Coord) (adjust : List Int) (start : Coord) :
    ChunkInfo :=
  let fspace := ((file.selectAnd start chunkDims).setExtent chunkDims).selectAdjust start
  let chunkMemSpaceAdjust := List.zipWith (fun a s => a - toSigned64 (s : Nat)) adjust start
  { chunkCoords := start
    mspace := (mem.selectCopy fspace).hyperAdjust chunkMemSpaceAdjust
    fspace := fspace }

/-- The loop, from the chunk at `start` on with `remaining` points to go.  It has no end if the
walk is over before. -/
def chunkLoop (file mem : Dataspace) (chunkDims selectionStart fileSelEnd : Coord)
    (adjust : List Int) (sameShape : Bool) : Nat → Coord → Nat → Except Stop (List ChunkInfo)
  | 0, _, _ => .error .fault
  | rounds + 1, start, remaining =>
    if remaining = 0 then .ok []
    else if file.intersectBlock start (endCoords start chunkDims) then
      if sameShape then
        let info := chunkInfo file mem chunkDims adjust start
        let remaining := toUnsigned64 ((remaining : Int) - info.fspace.npoints)
        if remaining = 0 then .ok [info]
        else
          match nextChunk chunkDims selectionStart fileSelEnd start with
          | none => .error .fault
          | some start' =>
            (chunkLoop file mem chunkDims selectionStart fileSelEnd adjust sameShape rounds start'
              remaining).map (info :: ·)
      else .error .fail
    else
      match nextChunk chunkDims selectionStart fileSelEnd start with
      | none => .error .fault
      | some start' =>
        chunkLoop file mem chunkDims selectionStart fileSelEnd adjust sameShape rounds start'
          remaining

/-- `H5VL_dtio_get_selected_chunk_info`.  The number of rounds is the number of chunks between
the bounds. -/
def getSelectedChunkInfo (chunkDims : Coord) (file mem : Dataspace) :
    Except Stop (List ChunkInfo) :=
  if mem.extent.length ≠ file.extent.length ∨ chunkDims.length ≠ file.extent.length then
    .error .fault
  -- an empty selection has no bounds
  else if file.points = [] ∨ mem.points = [] then .error .fail
  else
    let fileSelStart := file.selStart
    let adjust := List.zipWith (fun f m => toSigned64 (f : Nat) - toSigned64 (m : Nat))
      fileSelStart mem.selStart
    let start := blockStart chunkDims fileSelStart
    chunkLoop file mem chunkDims start file.selEnd adjust (file.shapeSame mem)
      (positions start chunkDims file.selEnd).length start file.npoints

/-! ## The walk -/

section Walk

variable {n l h : Nat} {c ls hs : Coord}

/-- One row of the walk, and what comes after it. -/
theorem visits_row {rows : List Coord} (hrows : Visits (nextChunk c ls hs) rows) {s : Nat}
    {after : List Coord}
    (hafter : (s + n > h ∧ after = []) ∨
      (s + n ≤ h ∧ (∃ rest, after = ((s + n) :: ls) :: rest) ∧
        Visits (nextChunk (n :: c) (l :: ls) (h :: hs)) after))
    (hsmall : s + n < 18446744073709551616) :
    Visits (nextChunk (n :: c) (l :: ls) (h :: hs)) (rows.map (s :: ·) ++ after) := by
  have hwrap : toUnsigned64 ((s : Int) + n) = s + n := toUnsigned64_eq (by omega) hsmall
  induction rows with
  | nil => exact hrows.elim
  | cons r rows ih =>
    cases rows with
    | nil =>
      -- the end of the row
      have hlast : nextChunk c ls hs r = none := hrows
      rcases hafter with ⟨hpast, rfl⟩ | ⟨hin, ⟨rest, rfl⟩, hvisits⟩
      · show nextChunk (n :: c) (l :: ls) (h :: hs) (s :: r) = none
        simp only [nextChunk, hlast, hwrap]
        exact if_pos hpast
      · refine ⟨?_, hvisits⟩
        simp only [nextChunk, hlast, hwrap]
        exact if_neg (by omega)
    | cons r' rows =>
      obtain ⟨hnext, hrows⟩ := hrows
      refine ⟨?_, ih hrows⟩
      simp only [nextChunk, hnext]

/-- The rows from the `j`-th on. -/
theorem visits_rows {rows : List Coord} (hrows : Visits (nextChunk c ls hs) rows)
    (hhead : ∃ rest, rows = ls :: rest) (m : Nat) :
    ∀ j, l + (j + m) * n ≤ h → h < l + (j + m) * n + n → h + n < 18446744073709551616 →
      Visits (nextChunk (n :: c) (l :: ls) (h :: hs))
        (((List.range' j (m + 1)).map fun k => l + k * n).flatMap fun s => rows.map (s :: ·)) := by
  induction m with
  | zero =>
    intro j hle hlt hsmall
    -- the last row ends the walk
    have hrow := visits_row (l := l) (n := n) (h := h) hrows
      (Or.inl ⟨hlt, rfl⟩) (s := l + j * n) (by simp only [Nat.add_zero] at hle; omega)
    simpa using hrow
  | succ m ih =>
    intro j hle hlt hsmall
    have hidx : j + 1 + m = j + (m + 1) := by omega
    -- the rows behind the first one, and the step from it to them
    have hnext := ih (j + 1) (by rwa [hidx]) (by rwa [hidx]) hsmall
    have hstep : l + j * n + n = l + (j + 1) * n := by rw [Nat.add_mul]; omega
    -- there is a next row, as the last one is in bounds
    have hin : l + j * n + n ≤ h := by
      refine le_trans ?_ hle
      rw [hstep]
      exact Nat.add_le_add_left (Nat.mul_le_mul_right n (by omega)) l
    rw [List.range'_succ, List.map_cons, List.flatMap_cons]
    refine visits_row hrows (Or.inr ⟨hin, ?_, hnext⟩) (by omega)
    obtain ⟨rest, rfl⟩ := hhead
    rw [List.range'_succ, List.map_cons, List.flatMap_cons, List.map_cons, hstep]
    exact ⟨_, rfl⟩

end Walk

/-- The walk visits every chunk between the bounds, the first one first. -/
theorem visits_positions {lo c hi : Coord} (hc : Positive c) (hlen : lo.length = c.length)
    (hle : List.Forall₂ (· ≤ ·) lo hi)
    (hsmall : List.Forall₂ (fun h n => h + n < 18446744073709551616) hi c) :
    (∃ rest, positions lo c hi = lo :: rest) ∧
      Visits (nextChunk c lo hi) (positions lo c hi) := by
  induction hle generalizing c with
  | nil =>
    cases c with
    | nil => exact ⟨⟨[], rfl⟩, rfl⟩
    | cons n c => cases hlen
  | @cons l h ls hs hlh _ ih =>
    cases hsmall with
    | @cons _ n _ c hhn hsmall =>
      -- the walk in the dimensions behind this one, which each row makes
      obtain ⟨hhead, hrows⟩ := ih hc.tail (Nat.succ.inj hlen) hsmall
      have hn : 0 < n := hc n List.mem_cons_self
      have hdm := Nat.div_add_mod (h - l) n
      have hmod := Nat.mod_lt (h - l) hn
      rw [Nat.mul_comm] at hdm
      simp only [positions, axis, List.range_eq_range']
      constructor
      · obtain ⟨rest, hrest⟩ := hhead
        rw [List.range'_succ, List.map_cons, List.flatMap_cons, hrest, List.map_cons, Nat.zero_mul,
          Nat.add_zero]
        exact ⟨_, rfl⟩
      -- the rows of this dimension, from the first to the last one
      · refine visits_rows hrows hhead _ 0 ?_ ?_ hhn
        · rw [Nat.zero_add]
          omega
        · rw [Nat.zero_add]
          omega

/-! ## The loop -/

section Loop

variable {file mem : Dataspace} {c lo hi : Coord} {adjust : List Int}

/-- The loop on what is left of the walk: it ends when all points are found, and then no chunk
that is left has one. -/
theorem chunkLoop_eq {rest : List Coord} :
    ∀ {s : Coord} {rounds remaining : Nat}, Visits (nextChunk c lo hi) (s :: rest) →
      (∀ b ∈ s :: rest, file.intersectBlock b (endCoords b c) = true ↔
        0 < (chunkInfo file mem c adjust b).fspace.npoints) →
      remaining = ((s :: rest).map fun b => (chunkInfo file mem c adjust b).fspace.npoints).sum →
      0 < remaining → remaining < 18446744073709551616 → (s :: rest).length ≤ rounds →
      chunkLoop file mem c lo hi adjust true rounds s remaining =
        .ok (((s :: rest).filter fun b => file.intersectBlock b (endCoords b c)).map
          (chunkInfo file mem c adjust)) := by
  induction rest with
  | nil =>
    intro s rounds remaining _ htouched hsum hpos hsmall hrounds
    obtain ⟨rounds, rfl⟩ := Nat.exists_eq_add_of_le' (show 1 ≤ rounds from hrounds)
    have hall : remaining = (chunkInfo file mem c adjust s).fspace.npoints := by simpa using hsum
    have hs : file.intersectBlock s (endCoords s c) = true :=
      (htouched s List.mem_cons_self).mpr (by omega)
    have hzero : toUnsigned64 ((remaining : Int) -
        (chunkInfo file mem c adjust s).fspace.npoints) = 0 := by
      rw [hall, Int.sub_self]
      rfl
    simp only [chunkLoop, hs, hzero, if_neg hpos.ne', if_true, List.filter_cons_of_pos,
      List.filter_nil, List.map_cons, List.map_nil]
  | cons s' rest ih =>
    intro s rounds remaining hvisits htouched hsum hpos hsmall hrounds
    obtain ⟨rounds, rfl⟩ := Nat.exists_eq_add_of_le' (show 1 ≤ rounds by simp at hrounds; omega)
    obtain ⟨hnext, hvisits⟩ := hvisits
    have hrounds' : (s' :: rest).length ≤ rounds := Nat.le_of_succ_le_succ hrounds
    have htouched' := fun b hb => htouched b (List.mem_cons_of_mem _ hb)
    rw [List.map_cons, List.sum_cons] at hsum
    set npoints := (chunkInfo file mem c adjust s).fspace.npoints with hnpoints
    cases hs : file.intersectBlock s (endCoords s c) with
    | false =>
      have hnone : npoints = 0 := by
        have h := htouched s List.mem_cons_self
        rw [hs] at h
        simp only [Bool.false_eq_true, false_iff] at h
        omega
      have hdrop : ((s :: s' :: rest).filter fun b => file.intersectBlock b (endCoords b c)) =
          (s' :: rest).filter fun b => file.intersectBlock b (endCoords b c) :=
        List.filter_cons_of_neg (by simp [hs])
      simp only [chunkLoop, hs, if_neg hpos.ne', Bool.false_eq_true, if_false, hnext]
      rw [hdrop, ih hvisits htouched' (by omega) hpos hsmall hrounds']
    | true =>
      have hless : toUnsigned64 ((remaining : Int) - npoints) =
          ((s' :: rest).map fun b => (chunkInfo file mem c adjust b).fspace.npoints).sum :=
        toUnsigned64_eq (by omega) (by omega)
      rw [List.filter_cons_of_pos (by simp [hs]), List.map_cons]
      simp only [chunkLoop, hs, if_neg hpos.ne', if_true, hnext, ← hnpoints, hless]
      by_cases hdone :
          ((s' :: rest).map fun b => (chunkInfo file mem c adjust b).fspace.npoints).sum = 0
      · -- the chunks that are left have no point
        have hempty : ((s' :: rest).filter fun b =>
            file.intersectBlock b (endCoords b c)) = [] := by
          rw [List.filter_eq_nil_iff]
          intro b hb htrue
          have hb0 := List.sum_eq_zero_iff_forall_eq_nat.mp hdone _ (List.mem_map_of_mem hb)
          have := (htouched' b hb).mp htrue
          omega
        rw [if_pos hdone, hempty, List.map_nil]
      · rw [if_neg hdone, ih hvisits htouched' rfl (Nat.pos_of_ne_zero hdone) (by omega) hrounds']
        rfl

end Loop

/-- Selections of different shapes have no chunks: the loop ends at the first one. -/
theorem chunkLoop_sameShape {file mem : Dataspace} {c lo hi : Coord} {adjust : List Int}
    {sameShape : Bool} {infos : List ChunkInfo} {rounds : Nat} :
    ∀ {start : Coord} {remaining : Nat}, remaining ≠ 0 →
      chunkLoop file mem c lo hi adjust sameShape rounds start remaining = .ok infos →
      sameShape = true := by
  induction rounds with
  | zero => exact fun _ hok => nomatch hok
  | succ rounds ih =>
    intro start remaining hne hok
    unfold chunkLoop at hok
    rw [if_neg hne] at hok
    split at hok
    · split at hok
      next hsame => exact hsame
      · cases hok
    · split at hok
      · cases hok
      · exact ih hne hok

/-- What is found are chunks. -/
theorem chunkLoop_extent {file mem : Dataspace} {c lo hi : Coord} {adjust : List Int}
    {sameShape : Bool} {rounds : Nat} :
    ∀ {start : Coord} {remaining : Nat} {infos : List ChunkInfo},
      chunkLoop file mem c lo hi adjust sameShape rounds start remaining = .ok infos →
      ∀ info ∈ infos, info.fspace.extent = c := by
  induction rounds with
  | zero => exact fun hok => nomatch hok
  | succ rounds ih =>
    intro start remaining infos hok info hinfo
    unfold chunkLoop at hok
    split at hok
    -- no elements are left
    · cases hok
      cases hinfo
    split at hok
    -- a chunk that is touched is found, and has these dimensions
    · split at hok
      · simp only at hok
        split at hok
        · cases hok
          rw [List.mem_singleton.mp hinfo]
          rfl
        split at hok
        · cases hok
        · obtain ⟨infos', hok', rfl⟩ := map_eq_ok.mp hok
          rcases List.mem_cons.mp hinfo with rfl | hinfo
          · rfl
          · exact ih hok' info hinfo
      · cases hok
    -- one that is not touched is skipped
    · split at hok
      · cases hok
      · exact ih hok info hinfo

theorem getSelectedChunkInfo_extent {c : Coord} {file mem : Dataspace} {infos : List ChunkInfo}
    (hok : getSelectedChunkInfo c file mem = .ok infos) :
    ∀ info ∈ infos, info.fspace.extent = c := by
  unfold getSelectedChunkInfo at hok
  split at hok
  · cases hok
  split at hok
  · cases hok
  · exact chunkLoop_extent hok

/-- What is required of selections whose chunks are found. -/
theorem getSelectedChunkInfo_ok {c : Coord} {file mem : Dataspace} {infos : List ChunkInfo}
    (hne : file.npoints ≠ 0) (hok : getSelectedChunkInfo c file mem = .ok infos) :
    mem.extent.length = file.extent.length ∧ c.length = file.extent.length ∧
      file.shapeSame mem = true := by
  unfold getSelectedChunkInfo at hok
  split at hok
  · cases hok
  next hrank =>
    obtain ⟨hmem, hchunk⟩ := not_or.mp hrank
    split at hok
    · cases hok
    · exact ⟨not_not.mp hmem, not_not.mp hchunk, chunkLoop_sameShape hne hok⟩

/-! ## The dataspaces of a chunk -/

/-- Lists with the same images are paired accordingly. -/
theorem forall_zip_of_map_eq {α β γ : Type*} {f : α → γ} {g : β → γ} {l : List α} {m : List β}
    (h : l.map f = m.map g) : l.length = m.length ∧ ∀ x ∈ l.zip m, f x.1 = g x.2 := by
  induction l generalizing m with
  | nil =>
    cases m with
    | nil => simp
    | cons b m => cases h
  | cons a l ih =>
    cases m with
    | nil => cases h
    | cons b m =>
      simp only [List.map_cons, List.cons.injEq] at h
      obtain ⟨hlen, hzip⟩ := ih h.2
      refine ⟨congrArg (· + 1) hlen, ?_⟩
      intro x hx
      rcases List.mem_cons.mp hx with rfl | hx
      · exact h.1
      · exact hzip x hx

/-- The partners of a part of a list. -/
theorem map_filter_eq_zip {α β : Type*} {g : α → β} {p : α → Bool} {l : List α} {m : List β}
    (hlen : l.length = m.length) (h : ∀ x ∈ l.zip m, p x.1 = true → g x.1 = x.2) :
    (l.filter p).map g = ((l.zip m).filter fun x => p x.1).map Prod.snd := by
  induction l generalizing m with
  | nil => rfl
  | cons a l ih =>
    cases m with
    | nil => cases hlen
    | cons b m =>
      have hhead : p a = true → g a = b := h (a, b) List.mem_cons_self
      have htail := ih (Nat.succ.inj hlen) fun x hx => h x (List.mem_cons_of_mem _ hx)
      rw [List.zip_cons_cons]
      cases hp : p a with
      | false => simp [hp, htail]
      | true => simp [hp, hhead hp, htail]

/-- What both adjustments come to in one dimension, for a position `a` with the partner `b`: the
position seen from its chunk, less the partner. -/
theorem adjust_head {a b l l' : Nat} (n : Nat) (hla : l ≤ a) (hlb : l' ≤ b)
    (heq : a - l = b - l') (ha : a < 9223372036854775808) (hb : b < 9223372036854775808) :
    toSigned64 (l : Nat) - toSigned64 (l' : Nat) - toSigned64 ((a / n * n : Nat) : Int) =
      ((a - a / n * n : Nat) : Int) - b := by
  have hmul : a / n * n ≤ a := Nat.div_mul_le_self a n
  rw [toSigned64_of_lt (lt_of_le_of_lt hla ha), toSigned64_of_lt (lt_of_le_of_lt hlb hb),
    toSigned64_of_lt (lt_of_le_of_lt hmul ha)]
  omega

/-- Where the two adjustments take a selected position: to its partner in memory. -/
theorem adjust_eq {c p m lo lo' : Coord} (hlen : p.length = c.length)
    (hlo : List.Forall₂ (· ≤ ·) lo p) (hlo' : List.Forall₂ (· ≤ ·) lo' m)
    (heq : relative p lo = relative m lo')
    (hp : ∀ a ∈ p, a < 9223372036854775808) (hm : ∀ a ∈ m, a < 9223372036854775808) :
    List.zipWith (fun (x : Nat) (o : Int) => ((x : Int) - o).toNat) (relative p (blockStart c p))
      (List.zipWith (fun a s => a - toSigned64 (s : Nat))
        (List.zipWith (fun f m => toSigned64 (f : Nat) - toSigned64 (m : Nat)) lo lo')
        (blockStart c p)) = m := by
  induction hlo generalizing c m lo' with
  | nil =>
    cases hlo' with
    | nil => rfl
    | cons _ _ => cases heq
  | @cons l a lo p hla _ ih =>
    cases hlo' with
    | nil => cases heq
    | @cons l' b lo' m hlb hlo' =>
      cases c with
      | nil => cases hlen
      | cons n c =>
        simp only [relative, List.zipWith_cons_cons, List.cons.injEq] at heq
        have ha : a < 9223372036854775808 := hp a List.mem_cons_self
        have hb : b < 9223372036854775808 := hm b List.mem_cons_self
        -- in this dimension the adjusted place is that in memory
        have hhead : (((a - a / n * n : Nat) : Int) - (toSigned64 (l : Nat) -
            toSigned64 (l' : Nat) - toSigned64 ((a / n * n : Nat) : Int))).toNat = b := by
          rw [adjust_head n hla hlb heq.1 ha hb]
          omega
        have htail := ih (Nat.succ.inj hlen) hlo' heq.2
          (fun x hx => hp x (List.mem_cons_of_mem _ hx))
          fun x hx => hm x (List.mem_cons_of_mem _ hx)
        exact congrArg₂ List.cons hhead htail

/-- What is set up for a chunk: the selected positions in it, seen from its start, and their
partners in memory. -/
structure ChunkOf (chunkDims : Coord) (file mem : Dataspace) (info : ChunkInfo) : Prop where
  fspace : info.fspace = ⟨chunkDims, (file.points.filter fun p =>
    decide (blockStart chunkDims p = info.chunkCoords)).map fun p => relative p info.chunkCoords⟩
  mspace : info.mspace = ⟨mem.extent, ((file.points.zip mem.points).filter fun x =>
    decide (blockStart chunkDims x.1 = info.chunkCoords)).map Prod.snd⟩

/-- What the walk relies on: non-empty selections of one rank and shape, with fewer than `2^63`
elements, and coordinates below `2^63`, which stay below `2^64` when a chunk dimension is added. -/
structure Enumerable (chunkDims : Coord) (file mem : Dataspace) : Prop where
  pos : Positive chunkDims
  chunkRank : chunkDims.length = file.extent.length
  memRank : mem.extent.length = file.extent.length
  length : ∀ p ∈ file.points, p.length = chunkDims.length
  memLength : ∀ p ∈ mem.points, p.length = chunkDims.length
  sameShape : file.shapeSame mem = true
  nonempty : file.points ≠ []
  selected : file.npoints < 9223372036854775808
  selEnd_lt : ∀ a ∈ file.selEnd, a < 9223372036854775808
  selEnd_small : List.Forall₂ (fun h n => h + n < 18446744073709551616) file.selEnd chunkDims
  memEnd_lt : ∀ a ∈ mem.selEnd, a < 9223372036854775808

namespace Enumerable

variable {file mem : Dataspace} {c : Coord}

theorem mem_nonempty (h : Enumerable c file mem) : mem.points ≠ [] := by
  obtain ⟨hcount, -⟩ := forall_zip_of_map_eq (of_decide_eq_true h.sameShape)
  intro hnil
  rw [hnil, List.length_nil, List.length_eq_zero_iff] at hcount
  exact h.nonempty hcount

theorem selStart_le (h : Enumerable c file mem) :
    ∀ p ∈ file.points, List.Forall₂ (· ≤ ·) file.selStart p :=
  Dataspace.selStart_le h.length

theorem le_selEnd (h : Enumerable c file mem) :
    ∀ p ∈ file.points, List.Forall₂ (· ≤ ·) p file.selEnd :=
  Dataspace.le_selEnd h.length

theorem length_selStart (h : Enumerable c file mem) : file.selStart.length = c.length := by
  obtain ⟨p, hp⟩ := List.exists_mem_of_ne_nil _ h.nonempty
  exact (h.selStart_le p hp).length_eq.trans (h.length p hp)

theorem length_start (h : Enumerable c file mem) :
    (blockStart c file.selStart).length = c.length :=
  length_blockStart h.length_selStart

theorem start_le_selEnd (h : Enumerable c file mem) :
    List.Forall₂ (· ≤ ·) (blockStart c file.selStart) file.selEnd := by
  obtain ⟨p, hp⟩ := List.exists_mem_of_ne_nil _ h.nonempty
  have hstart := blockStart_le h.length_selStart
  have hbounds := forall₂_trans (r := (· ≤ ·)) (fun _ _ _ => le_trans) (h.selStart_le p hp)
    (h.le_selEnd p hp)
  exact forall₂_trans (r := (· ≤ ·)) (fun _ _ _ => le_trans) hstart hbounds

theorem coord_lt (h : Enumerable c file mem) {p : Coord} (hp : p ∈ file.points) :
    ∀ a ∈ p, a < 9223372036854775808 :=
  lt_of_forall₂_le (h.le_selEnd p hp) h.selEnd_lt

theorem memCoord_lt (h : Enumerable c file mem) {m : Coord} (hm : m ∈ mem.points) :
    ∀ a ∈ m, a < 9223372036854775808 :=
  lt_of_forall₂_le (Dataspace.le_selEnd h.memLength m hm) h.memEnd_lt

/-- The chunks between the bounds. -/
abbrev chunks (_ : Enumerable c file mem) : List Coord :=
  positions (blockStart c file.selStart) c file.selEnd

/-- The adjustment of all chunks. -/
abbrev adjust (_ : Enumerable c file mem) : List Int :=
  List.zipWith (fun f m => toSigned64 (f : Nat) - toSigned64 (m : Nat)) file.selStart mem.selStart

theorem aligned (h : Enumerable c file mem) {s : Coord} (hs : s ∈ h.chunks) :
    blockStart c s = s ∧ s.length = c.length :=
  blockStart_of_mem_positions h.pos (blockStart_blockStart h.pos _) h.length_start
    (h.start_le_selEnd.length_eq.symm.trans h.length_start) hs

theorem endCoords_eq (h : Enumerable c file mem) {s : Coord} (hs : s ∈ h.chunks) :
    endCoords s c = blockEnd s c := by
  have hle := le_of_mem_positions h.length_start h.start_le_selEnd hs
  have hsmall := h.selEnd_small
  have hpos := h.pos
  generalize file.selEnd = hi at hle hsmall
  clear hs h
  induction hle generalizing c with
  | nil => rfl
  | @cons a b s hi hab _ ih =>
    cases hsmall with
    | @cons _ n _ c hbn hsmall =>
      have hn : 0 < n := hpos n List.mem_cons_self
      have hhead : toUnsigned64 ((a : Int) + n - 1) = a + n - 1 :=
        toUnsigned64_eq (by omega) (by omega)
      exact congrArg₂ List.cons hhead (ih hpos.tail hsmall)

theorem filter_within (h : Enumerable c file mem) {s : Coord} (hs : s ∈ h.chunks) :
    file.points.filter (within s (blockEnd s c)) =
      file.points.filter fun p => decide (blockStart c p = s) := by
  obtain ⟨hstart, hlen⟩ := h.aligned hs
  apply List.filter_congr
  intro p hp
  rw [Bool.eq_iff_iff, decide_eq_true_eq]
  exact within_block_iff h.pos hstart hlen (h.length p hp)

/-- A chunk is touched if and only if it is the chunk of a selected point. -/
theorem intersectBlock_iff (h : Enumerable c file mem) {s : Coord} (hs : s ∈ h.chunks) :
    file.intersectBlock s (endCoords s c) = true ↔ ∃ p ∈ file.points, blockStart c p = s := by
  obtain ⟨hstart, hlen⟩ := h.aligned hs
  rw [h.endCoords_eq hs, Dataspace.intersectBlock, List.any_eq_true]
  refine exists_congr fun p => and_congr_right fun hp => ?_
  exact within_block_iff h.pos hstart hlen (h.length p hp)

theorem chunkOf (h : Enumerable c file mem) {s : Coord} (hs : s ∈ h.chunks) :
    ChunkOf c file mem (chunkInfo file mem c h.adjust s) := by
  obtain ⟨hcount, hpairs⟩ := forall_zip_of_map_eq (of_decide_eq_true h.sameShape)
  have hfilter := h.filter_within hs
  constructor
  · simp only [chunkInfo, Dataspace.selectAnd, Dataspace.setExtent, Dataspace.selectAdjust, hfilter]
  · simp only [chunkInfo, Dataspace.selectAnd, Dataspace.setExtent, Dataspace.selectAdjust,
      Dataspace.selectCopy, Dataspace.hyperAdjust, hfilter, List.map_map, Dataspace.mk.injEq,
      true_and]
    refine map_filter_eq_zip hcount ?_
    rintro ⟨p, m⟩ hpm hstart
    have hp : p ∈ file.points := (List.of_mem_zip hpm).1
    have hm : m ∈ mem.points := (List.of_mem_zip hpm).2
    obtain rfl := of_decide_eq_true hstart
    exact adjust_eq (h.length p hp) (h.selStart_le p hp)
      (Dataspace.selStart_le h.memLength m hm) (hpairs (p, m) hpm) (h.coord_lt hp)
      (h.memCoord_lt hm)

theorem npoints_chunk (h : Enumerable c file mem) {s : Coord} (hs : s ∈ h.chunks) :
    (chunkInfo file mem c h.adjust s).fspace.npoints =
      (file.points.filter fun p => decide (blockStart c p = s)).length := by
  rw [Dataspace.npoints, (h.chunkOf hs).fspace, List.length_map]
  rfl

/-- The chunks have all selected points. -/
theorem npoints_eq_sum (h : Enumerable c file mem) :
    file.npoints =
      (h.chunks.map fun s => (chunkInfo file mem c h.adjust s).fspace.npoints).sum := by
  rw [List.map_congr_left fun s hs => h.npoints_chunk hs]
  refine (sum_length_filter (nodup_positions _ h.pos) ?_).symm
  intro p hp
  exact blockStart_mem_positions h.pos h.length_selStart (h.selStart_le p hp) (h.le_selEnd p hp)

/-- The loop finds every chunk that is touched, if it may take one round for each chunk. -/
theorem chunkLoop_eq (h : Enumerable c file mem) {rounds : Nat}
    (hrounds : h.chunks.length ≤ rounds) :
    chunkLoop file mem c (blockStart c file.selStart) file.selEnd h.adjust true rounds
        (blockStart c file.selStart) file.npoints =
      .ok ((h.chunks.filter fun s => file.intersectBlock s (endCoords s c)).map
        (chunkInfo file mem c h.adjust)) := by
  obtain ⟨⟨rest, hrest⟩, hvisits⟩ := visits_positions h.pos h.length_start h.start_le_selEnd
    h.selEnd_small
  have hsum := h.npoints_eq_sum
  have hpos : 0 < file.npoints := List.length_pos_iff.mpr h.nonempty
  have hsmall : file.npoints < 18446744073709551616 := h.selected.trans (by decide)
  have htouched : ∀ s ∈ h.chunks, file.intersectBlock s (endCoords s c) = true ↔
      0 < (chunkInfo file mem c h.adjust s).fspace.npoints := by
    intro s hs
    rw [h.intersectBlock_iff hs, h.npoints_chunk hs, List.length_filter_pos_iff]
    simp
  unfold chunks at htouched hsum hrounds ⊢
  rw [hrest] at hvisits htouched hsum hrounds ⊢
  exact Vol.chunkLoop_eq hvisits htouched hsum hpos hsmall hrounds

theorem getSelectedChunkInfo_eq (h : Enumerable c file mem) :
    getSelectedChunkInfo c file mem =
      .ok ((h.chunks.filter fun s => file.intersectBlock s (endCoords s c)).map
        (chunkInfo file mem c h.adjust)) := by
  have hranks : ¬ (mem.extent.length ≠ file.extent.length ∨ c.length ≠ file.extent.length) := by
    simp [h.memRank, h.chunkRank]
  have hne : ¬ (file.points = [] ∨ mem.points = []) := by
    simp [h.nonempty, h.mem_nonempty]
  unfold getSelectedChunkInfo
  simp only [if_neg hranks, if_neg hne, h.sameShape]
  exact h.chunkLoop_eq le_rfl

/-- **The selected chunks**: each chunk that the file selection touches once, with its part of
both selections. -/
theorem getSelectedChunkInfo_spec (h : Enumerable c file mem) :
    ∃ infos, getSelectedChunkInfo c file mem = .ok infos ∧
      (infos.map ChunkInfo.chunkCoords).Nodup ∧
      (∀ p ∈ file.points, blockStart c p ∈ infos.map ChunkInfo.chunkCoords) ∧
      ∀ info ∈ infos, ChunkOf c file mem info ∧
        ∃ p ∈ file.points, blockStart c p = info.chunkCoords := by
  refine ⟨_, h.getSelectedChunkInfo_eq, ?_, ?_, ?_⟩
  · rw [List.map_map]
    refine List.Nodup.map (fun _ _ heq => heq) ?_
    exact (nodup_positions _ h.pos).filter _
  · intro p hp
    have hmem : blockStart c p ∈ h.chunks :=
      blockStart_mem_positions h.pos h.length_selStart (h.selStart_le p hp) (h.le_selEnd p hp)
    rw [List.map_map]
    refine List.mem_map.mpr ⟨blockStart c p, List.mem_filter.mpr ⟨hmem, ?_⟩, rfl⟩
    exact (h.intersectBlock_iff hmem).mpr ⟨p, hp, rfl⟩
  · intro info hinfo
    obtain ⟨s, hs, rfl⟩ := List.mem_map.mp hinfo
    obtain ⟨hs, htouched⟩ := List.mem_filter.mp hs
    exact ⟨h.chunkOf hs, (h.intersectBlock_iff hs).mp htouched⟩

end Enumerable

/-- What the other functions rely on: selections of one shape on valid dataspaces of the rank of
the chunks, whose elements HDF5 counts in 32 bits. -/
structure Compatible (chunkDims : Coord) (file mem : Dataspace) : Prop where
  fileValid : file.Valid
  memValid : mem.Valid
  pos : Positive chunkDims
  small : chunkDims.prod < 4294967296
  chunkRank : chunkDims.length = file.extent.length
  memRank : mem.extent.length = file.extent.length
  sameShape : file.shapeSame mem = true
  nonempty : file.points ≠ []

namespace Compatible

variable {file mem : Dataspace} {c : Coord}

theorem length (h : Compatible c file mem) : ∀ p ∈ file.points, p.length = c.length :=
  fun p hp => (h.fileValid.length_eq p hp).trans h.chunkRank.symm

theorem mem_nonempty (h : Compatible c file mem) : mem.points ≠ [] := by
  obtain ⟨hcount, -⟩ := forall_zip_of_map_eq (of_decide_eq_true h.sameShape)
  intro hnil
  rw [hnil, List.length_nil, List.length_eq_zero_iff] at hcount
  exact h.nonempty hcount

theorem selEnd_lt (h : Compatible c file mem) : ∀ a ∈ file.selEnd, a < 9223372036854775808 :=
  h.fileValid.coord_lt (h.fileValid.inside_selEnd h.nonempty)

/-- The last coordinates are small, and so are the chunk dimensions. -/
theorem selEnd_small (h : Compatible c file mem) :
    List.Forall₂ (fun a n => a + n < 18446744073709551616) file.selEnd c := by
  have hlen := (h.fileValid.inside_selEnd h.nonempty).length.trans h.chunkRank.symm
  refine List.forall₂_iff_zip.mpr ⟨hlen, ?_⟩
  intro a n han
  have h1 := h.selEnd_lt a (List.of_mem_zip han).1
  have h2 : n ≤ c.prod := h.pos.le_prod (List.of_mem_zip han).2
  have h3 := h.small
  omega

theorem enumerable (h : Compatible c file mem) : Enumerable c file mem where
  pos := h.pos
  chunkRank := h.chunkRank
  memRank := h.memRank
  length := h.length
  memLength := fun p hp => (h.memValid.length_eq p hp).trans (h.memRank.trans h.chunkRank.symm)
  sameShape := h.sameShape
  nonempty := h.nonempty
  selected := h.fileValid.selected
  selEnd_lt := h.selEnd_lt
  selEnd_small := h.selEnd_small
  memEnd_lt := h.memValid.coord_lt (h.memValid.inside_selEnd h.mem_nonempty)

end Compatible

namespace ChunkOf

variable {file mem : Dataspace} {c : Coord} {info : ChunkInfo}

theorem npoints_fspace (hi : ChunkOf c file mem info) : info.fspace.npoints =
    (file.points.filter fun p => decide (blockStart c p = info.chunkCoords)).length := by
  rw [hi.fspace, Dataspace.npoints, List.length_map]

theorem npoints_le (hi : ChunkOf c file mem info) : info.fspace.npoints ≤ file.npoints := by
  rw [hi.npoints_fspace]
  exact List.length_filter_le ..

theorem npoints_pos (hi : ChunkOf c file mem info)
    (hp : ∃ p ∈ file.points, blockStart c p = info.chunkCoords) : 0 < info.fspace.npoints := by
  rw [hi.npoints_fspace, List.length_filter_pos_iff]
  simpa using hp

/-- The selected coordinates of the chunk, as pairs. -/
theorem points_eq_map (h : file.shapeSame mem = true) :
    (file.points.filter fun p => decide (blockStart c p = info.chunkCoords)) =
      ((file.points.zip mem.points).filter fun x =>
        decide (blockStart c x.1 = info.chunkCoords)).map Prod.fst := by
  obtain ⟨hcount, -⟩ := forall_zip_of_map_eq (of_decide_eq_true h)
  have hfst : (file.points.zip mem.points).map Prod.fst = file.points :=
    List.map_fst_zip hcount.le
  conv_lhs => rw [← hfst]
  rw [List.filter_map]
  rfl

theorem zip_eq (h : Compatible c file mem) (hi : ChunkOf c file mem info) :
    info.fspace.points.zip info.mspace.points =
      ((file.points.zip mem.points).filter fun x =>
        decide (blockStart c x.1 = info.chunkCoords)).map
          fun x => (relative x.1 info.chunkCoords, x.2) := by
  rw [hi.fspace, hi.mspace, points_eq_map h.sameShape, List.map_map, List.zip_map']
  rfl

theorem npoints_mspace (h : Compatible c file mem) (hi : ChunkOf c file mem info) :
    info.mspace.npoints = info.fspace.npoints := by
  rw [hi.npoints_fspace, points_eq_map h.sameShape, hi.mspace, Dataspace.npoints, List.length_map,
    List.length_map]

theorem fspace_valid (h : Enumerable c file mem) (hsmall : c.prod < 9223372036854775808)
    (hi : ChunkOf c file mem info) : info.fspace.Valid := by
  have hle : info.fspace.points.length ≤ file.points.length := hi.npoints_le
  refine ⟨?_, ?_, lt_of_le_of_lt hle h.selected⟩
  · rw [hi.fspace]
    intro q hq
    obtain ⟨p, hp, rfl⟩ := List.mem_map.mp hq
    obtain ⟨hp, hstart⟩ := List.mem_filter.mp hp
    rw [← of_decide_eq_true hstart]
    exact inside_relative h.pos (h.length p hp)
  · rw [hi.fspace]
    exact hsmall

theorem mspace_valid (h : Compatible c file mem) (hi : ChunkOf c file mem info) :
    info.mspace.Valid := by
  have hle : info.mspace.points.length ≤ file.points.length := by
    have := hi.npoints_mspace h
    unfold Dataspace.npoints at this
    rw [this]
    exact hi.npoints_le
  refine ⟨?_, ?_, lt_of_le_of_lt hle h.fileValid.selected⟩
  · rw [hi.mspace]
    intro q hq
    obtain ⟨x, hx, rfl⟩ := List.mem_map.mp hq
    exact h.memValid.inside x.2 (List.of_mem_zip (List.mem_of_mem_filter hx)).2
  · rw [hi.mspace]
    exact h.memValid.count

/-- If memory is laid out as the file and a chunk as the whole file, both dataspaces of the chunk
are the same. -/
theorem mspace_eq_fspace (h : file.Valid) (hi : ChunkOf c file mem info) (hmem : mem = file)
    (hext : file.extent = info.fspace.extent) : info.mspace = info.fspace := by
  subst hmem
  have hc : mem.extent = c := by rw [hext, hi.fspace]
  have hself : ∀ x ∈ mem.points.zip mem.points, x.1 = x.2 := by
    intro x hx
    rw [List.zip_eq_zipWith, List.zipWith_self, List.mem_map] at hx
    obtain ⟨a, -, rfl⟩ := hx
    rfl
  have hsnd := map_filter_eq_zip (g := fun p => p)
    (p := fun p => decide (blockStart c p = info.chunkCoords)) rfl fun x hx _ => hself x hx
  rw [hi.mspace, hi.fspace, ← hsnd, hc]
  congr 1
  refine (List.map_congr_left ?_).symm
  intro p hp
  obtain ⟨hp, hstart⟩ := List.mem_filter.mp hp
  rw [← of_decide_eq_true hstart]
  have hinside := h.inside p hp
  rw [hc] at hinside
  exact relative_of_inside hinside

end ChunkOf

end DTIO.Vol
