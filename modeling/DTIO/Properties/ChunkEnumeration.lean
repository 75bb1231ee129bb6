import Mathlib.Data.List.Perm.Basic
import DTIO.Vol.ChunkArrays

/-!
# Enumeration of Chunks

`H5VL_dtio_get_selected_chunk_info` finds every chunk that a selection touches, once, and divides
both selections among them.

## Main definitions

- `Contains`: a chunk, and a position in it
- `Exact`: the chunks with their parts of the two selections

## Main results

- `enumeration_exact`: of every rank, for every selection
-/

namespace DTIO.Properties.ChunkEnumeration

open DTIO.Grid DTIO.MachineInt DTIO.Vol

/-! ## What the function is for -/

/-- The chunk at `s` contains `p`: `s` is a multiple of the chunk dimensions, and `p` lies between
the corners of the chunk. -/
def Contains (chunkDims s p : Coord) : Prop :=
  List.Forall₂ (· ∣ ·) chunkDims s ∧ within s (blockEnd s chunkDims) p = true

/-- `p` moved by `o`. -/
def translate (o p : Coord) : Coord := List.zipWith (fun (x y : Nat) => x + y) p o

/-- `p` moved by an offset that may be negative. -/
def shift (o : List Int) (p : Coord) : List Int :=
  List.zipWith (fun (x : Nat) d => (x : Int) + d) p o

/-- The start of the memory selection as seen from the one of the file selection. -/
def startOffset (file mem : Dataspace) : List Int :=
  List.zipWith (fun (m f : Nat) => (m : Int) - f) mem.selStart file.selStart

/-- The chunks that the file selection touches, each of them once, with their parts of it as seen
from their starts, and the parts of the memory selection. -/
structure Exact (chunkDims : Coord) (file mem : Dataspace) (infos : List ChunkInfo) : Prop where
  nodup : (infos.map ChunkInfo.chunkCoords).Nodup
  chunks : ∀ s, s ∈ infos.map ChunkInfo.chunkCoords ↔ ∃ p ∈ file.points, Contains chunkDims s p
  inside : ∀ info ∈ infos, info.fspace.extent = chunkDims ∧
    ∀ q ∈ info.fspace.points, Inside q chunkDims
  partition : (infos.flatMap fun info =>
    info.fspace.points.map (translate info.chunkCoords)).Perm file.points
  image : ∀ info ∈ infos, info.mspace.extent = mem.extent ∧
    info.mspace.points.map (fun m => m.map fun (x : Nat) => (x : Int)) =
      info.fspace.points.map fun q => shift (startOffset file mem) (translate info.chunkCoords q)

/-! ## Chunks -/

/-- A multiple of the chunk dimensions is the start of its chunk. -/
theorem blockStart_eq_iff {c s : Coord} (hc : Positive c) :
    blockStart c s = s ∧ s.length = c.length ↔ List.Forall₂ (· ∣ ·) c s := by
  induction c generalizing s with
  | nil => cases s <;> simp [blockStart]
  | cons n c ih =>
    cases s with
    | nil => simp
    | cons a s =>
      have hn : 0 < n := hc n List.mem_cons_self
      have hhead : a / n * n = a ↔ n ∣ a := ⟨Dvd.intro_left _, Nat.div_mul_cancel⟩
      simp only [blockStart, List.zipWith_cons_cons, List.cons.injEq, List.length_cons,
        List.forall₂_cons, Nat.add_right_cancel_iff, hhead, ← ih hc.tail]
      tauto

theorem contains_iff {c s p : Coord} (hc : Positive c) (hlen : p.length = c.length) :
    Contains c s p ↔ blockStart c p = s := by
  unfold Contains
  rw [← blockStart_eq_iff hc]
  constructor
  · rintro ⟨⟨hs, hslen⟩, hwithin⟩
    exact (within_block_iff hc hs hslen hlen).mp hwithin
  · rintro rfl
    have hs := blockStart_blockStart hc p
    have hslen := length_blockStart hlen
    exact ⟨⟨hs, hslen⟩, (within_block_iff hc hs hslen hlen).mpr rfl⟩

/-- A position seen from `s` and moved back. -/
theorem translate_relative {s p : Coord} (h : List.Forall₂ (· ≤ ·) s p) :
    translate s (relative p s) = p := by
  induction h with
  | nil => rfl
  | cons hle _ ih => exact congrArg₂ List.cons (Nat.sub_add_cancel hle) ih

/-- Where two positions are the same place as seen from `lo` and `lo'`, the offset takes one to
the other. -/
theorem shift_of_relative_eq {lo lo' p m : Coord} (hlo : List.Forall₂ (· ≤ ·) lo p)
    (hlo' : List.Forall₂ (· ≤ ·) lo' m) (h : relative p lo = relative m lo') :
    shift (List.zipWith (fun (m f : Nat) => (m : Int) - f) lo' lo) p =
      m.map fun (x : Nat) => (x : Int) := by
  induction hlo generalizing lo' m with
  | nil =>
    cases hlo' with
    | nil => rfl
    | cons _ _ => cases h
  | @cons l a _ _ hle _ ih =>
    cases hlo' with
    | nil => cases h
    | @cons l' b _ _ hle' hlo' =>
      simp only [relative, List.zipWith_cons_cons, List.cons.injEq] at h
      have hhead : (a : Int) + ((l' : Int) - l) = b := by
        have := h.1
        omega
      exact congrArg₂ List.cons hhead (ih hlo' h.2)

/-- A list falls apart into the parts that `f` sends to the members of `bs`. -/
theorem flatMap_filter_perm {α β : Type*} [DecidableEq β] {f : α → β} {bs : List β}
    (hbs : bs.Nodup) {l : List α} (h : ∀ x ∈ l, f x ∈ bs) :
    (bs.flatMap fun b => l.filter fun x => decide (f x = b)).Perm l := by
  induction bs generalizing l with
  | nil =>
    rw [List.eq_nil_iff_forall_not_mem.mpr fun x hx => List.not_mem_nil (h x hx)]
    exact .refl _
  | cons b bs ih =>
    obtain ⟨hb, hbs⟩ := List.nodup_cons.mp hbs
    -- the members of `bs` take apart what is not sent to `b`
    have hrest := ih hbs (l := l.filter fun x => !decide (f x = b)) ?_
    · have hsame : (bs.flatMap fun b' =>
          (l.filter fun x => !decide (f x = b)).filter fun x => decide (f x = b')) =
          bs.flatMap fun b' => l.filter fun x => decide (f x = b') := by
        refine List.flatMap_congr fun b' hb' => ?_
        rw [List.filter_filter]
        refine List.filter_congr fun x _ => ?_
        have hne : b' ≠ b := fun heq => hb (heq ▸ hb')
        grind
      rw [hsame] at hrest
      rw [List.flatMap_cons]
      exact (hrest.append_left _).trans (List.filter_append_perm _ l)
    · intro x hx
      obtain ⟨hx, hne⟩ := List.mem_filter.mp hx
      rcases List.mem_cons.mp (h x hx) with heq | hmem
      · simp [heq] at hne
      · exact hmem

/-! ## The chunks found -/

section Exact

variable {file mem : Dataspace} {c : Coord} {info : ChunkInfo}

/-- The part of the file selection, moved back. -/
theorem translate_fspace (h : Enumerable c file mem) (hi : ChunkOf c file mem info) :
    info.fspace.points.map (translate info.chunkCoords) =
      file.points.filter fun p => decide (blockStart c p = info.chunkCoords) := by
  rw [hi.fspace, List.map_map]
  refine (List.map_congr_left ?_).trans (List.map_id _)
  intro p hp
  obtain ⟨hp, hstart⟩ := List.mem_filter.mp hp
  have hle := blockStart_le (h.length p hp)
  rw [of_decide_eq_true hstart] at hle
  exact translate_relative hle

/-- The part of the memory selection is the image of the one of the file selection. -/
theorem image_mspace (h : Enumerable c file mem) (hi : ChunkOf c file mem info) :
    info.mspace.points.map (fun m => m.map fun (x : Nat) => (x : Int)) =
      info.fspace.points.map fun q =>
        shift (startOffset file mem) (translate info.chunkCoords q) := by
  obtain ⟨-, hpairs⟩ := forall_zip_of_map_eq (of_decide_eq_true h.sameShape)
  have hback : (info.fspace.points.map fun q =>
      shift (startOffset file mem) (translate info.chunkCoords q)) =
      (info.fspace.points.map (translate info.chunkCoords)).map (shift (startOffset file mem)) := by
    rw [List.map_map]
    rfl
  -- both parts are the two sides of one list of pairs
  rw [hback, translate_fspace h hi, ChunkOf.points_eq_map h.sameShape, hi.mspace, List.map_map,
    List.map_map]
  refine List.map_congr_left fun x hx => ?_
  have hx := List.mem_of_mem_filter hx
  have hp : x.1 ∈ file.points := (List.of_mem_zip hx).1
  have hm : x.2 ∈ mem.points := (List.of_mem_zip hx).2
  exact (shift_of_relative_eq (h.selStart_le _ hp) (Dataspace.selStart_le h.memLength _ hm)
    (hpairs x hx)).symm

/-- The chunks of the walk, with their parts, are exact. -/
theorem exact_of_chunks (h : Enumerable c file mem) {infos : List ChunkInfo}
    (hnodup : (infos.map ChunkInfo.chunkCoords).Nodup)
    (hcovers : ∀ p ∈ file.points, blockStart c p ∈ infos.map ChunkInfo.chunkCoords)
    (hinfos : ∀ info ∈ infos, ChunkOf c file mem info ∧
      ∃ p ∈ file.points, blockStart c p = info.chunkCoords) :
    Exact c file mem infos where
  nodup := hnodup
  chunks := by
    intro s
    constructor
    -- a listed chunk holds a point, and the chunk of a point is listed
    · intro hs
      obtain ⟨info, hinfo, rfl⟩ := List.mem_map.mp hs
      obtain ⟨-, p, hp, hstart⟩ := hinfos info hinfo
      exact ⟨p, hp, (contains_iff h.pos (h.length p hp)).mpr hstart⟩
    · rintro ⟨p, hp, hcontains⟩
      rw [← (contains_iff h.pos (h.length p hp)).mp hcontains]
      exact hcovers p hp
  inside := by
    intro info hinfo
    rw [(hinfos info hinfo).1.fspace]
    refine ⟨rfl, fun q hq => ?_⟩
    obtain ⟨p, hp, rfl⟩ := List.mem_map.mp hq
    obtain ⟨hp, hstart⟩ := List.mem_filter.mp hp
    rw [← of_decide_eq_true hstart]
    exact inside_relative h.pos (h.length p hp)
  partition := by
    -- the chunks' own selections are the points filtered by chunk
    have hparts : (infos.flatMap fun info => info.fspace.points.map (translate info.chunkCoords)) =
        (infos.map ChunkInfo.chunkCoords).flatMap fun s =>
          file.points.filter fun p => decide (blockStart c p = s) := by
      rw [List.flatMap_map]
      exact List.flatMap_congr fun info hinfo => translate_fspace h (hinfos info hinfo).1
    rw [hparts]
    exact flatMap_filter_perm hnodup hcovers
  image := by
    intro info hinfo
    exact ⟨by rw [(hinfos info hinfo).1.mspace], image_mspace h (hinfos info hinfo).1⟩

/-- **Enumeration of chunks.**  For every rank up to 32 and every pair of selections, there is a
list of chunks that is exact, and the function returns it, after at most one round for each chunk
between the bounds; or `malloc` or `realloc` fails, as it may where the buffer needs more than
`limit` bytes. -/
theorem enumeration_exact (h : Enumerable c file mem) (hrank : c.length ≤ 32) :
    ∃ infos, Exact c file mem infos ∧
      ∀ limit rounds, limit < 9223372036854775808 →
        (positions (blockStart c file.selStart) c file.selEnd).length ≤ rounds →
        Arrays.getSelectedChunkInfo limit rounds c file mem = .ok infos ∨
          (Arrays.getSelectedChunkInfo limit rounds c file mem = .error .fail ∧
            limit < 2 * Arrays.chunkInfoSize * max 32 infos.length) := by
  obtain ⟨infos, hok, hnodup, hcovers, hinfos⟩ := h.getSelectedChunkInfo_spec
  refine ⟨infos, exact_of_chunks h hnodup hcovers hinfos, ?_⟩
  intro limit rounds hlimit hrounds
  exact Arrays.getSelectedChunkInfo_arrays h hrank hlimit hrounds hok

end Exact

/-! ## A sparse selection -/

/-- Three elements in three of the four chunks of a 4 by 4 dataset. -/
def sparseFile : Dataspace := ⟨[4, 4], [[1, 1], [1, 2], [3, 3]]⟩

/-- The same shape in memory, one row and one column before. -/
def sparseMem : Dataspace := ⟨[3, 3], [[0, 0], [0, 1], [2, 2]]⟩

theorem enumerable_sparse : Enumerable [2, 2] sparseFile sparseMem where
  pos := by simp [Positive]
  chunkRank := rfl
  memRank := rfl
  length := by decide
  memLength := by decide
  sameShape := by decide
  nonempty := by decide
  selected := by decide
  selEnd_lt := by decide
  selEnd_small := .cons (by decide) (.cons (by decide) .nil)
  memEnd_lt := by decide

/-- The three chunks of the sparse selection. -/
theorem enumeration_exact_sparse : ∃ infos, Exact [2, 2] sparseFile sparseMem infos ∧
    (Arrays.getSelectedChunkInfo 20000 4 [2, 2] sparseFile sparseMem = .ok infos ∨
      (Arrays.getSelectedChunkInfo 20000 4 [2, 2] sparseFile sparseMem = .error .fail ∧
        20000 < 2 * Arrays.chunkInfoSize * max 32 infos.length)) ∧
    (Arrays.getSelectedChunkInfo 20000 4 [2, 2] sparseFile sparseMem).map
      (List.map ChunkInfo.chunkCoords) = .ok [[0, 0], [0, 2], [2, 2]] := by
  obtain ⟨infos, hexact, hrun⟩ := enumeration_exact enumerable_sparse (by decide)
  exact ⟨infos, hexact, hrun 20000 4 (by decide) (by decide), by decide⟩

end DTIO.Properties.ChunkEnumeration
