import Mathlib.Data.List.GetD
import Mathlib.Data.Set.Insert
import Mathlib.Order.Interval.Set.Basic

/-!
# File Contents as Byte Sequences

The content of a regular file is a finite sequence of elements with a default element `z`
that fills holes.  This module defines positional reads and writes on such sequences and the
overlay of a family of pieces, independently of any program.

## Main definitions

- `readAt c o n`: the at most `n` elements of `c` from position `o` on
- `writeAt z c o d`: `c` with `d` placed at position `o`, a gap filled with `z`
- `Overlaid z init S c`: `c` is `init` overlaid with the pieces of the family `S`

## Main results

- `getD_writeAt`: a positional write, element by element
- `Overlaid.write`: overlaying one more piece that is disjoint from the others
- `Overlaid.unique`: the overlay is determined by the pieces, not by their order
-/

namespace DTIO.ByteFile

variable {α : Type*}

/-! ## Positional reads and writes -/

/-- The at most `n` elements from position `o` on. -/
def readAt (c : List α) (o n : Nat) : List α :=
  (c.drop o).take n

/-- Place `d` at position `o`.  A gap before `o` is filled with `z`; an empty `d` changes
nothing, also past the end. -/
def writeAt (z : α) (c : List α) (o : Nat) (d : List α) : List α :=
  if d.isEmpty then c
  else (c ++ List.replicate (o - c.length) z).take o ++ d ++ c.drop (o + d.length)

/-- Copy `src` over the beginning of `dst`. -/
def copyTo (dst src : List α) : List α :=
  src ++ dst.drop src.length

@[simp] theorem length_readAt (c : List α) (o n : Nat) :
    (readAt c o n).length = min n (c.length - o) := by
  simp [readAt]

@[simp] theorem readAt_zero (c : List α) (o : Nat) : readAt c o 0 = [] := by
  simp [readAt]

@[simp] theorem writeAt_nil (z : α) (c : List α) (o : Nat) : writeAt z c o [] = c := by
  simp [writeAt]

theorem length_writeAt (z : α) (c : List α) (o : Nat) {d : List α} (hd : d ≠ []) :
    (writeAt z c o d).length = max c.length (o + d.length) := by
  have hne : d.isEmpty = false := by simpa using hd
  simp only [writeAt, hne, Bool.false_eq_true, if_false, List.length_append, List.length_take,
    List.length_replicate, List.length_drop]
  omega

theorem le_length_writeAt (z : α) (c : List α) (o : Nat) (d : List α) :
    c.length ≤ (writeAt z c o d).length := by
  by_cases hd : d = []
  · subst hd
    rw [writeAt_nil]
  · rw [length_writeAt z c o hd]
    exact le_max_left _ _

/-- A positional write, element by element: the written range holds `d`, every other position
keeps its element, and positions past the end read as `z`. -/
theorem getD_writeAt (z : α) (c : List α) (o : Nat) (d : List α) (i : Nat) :
    (writeAt z c o d).getD i z =
      if o ≤ i ∧ i < o + d.length then d.getD (i - o) z else c.getD i z := by
  by_cases hd : d = []
  · subst hd
    have : ¬ (o ≤ i ∧ i < o + ([] : List α).length) := by simp
    rw [writeAt_nil, if_neg this]
  · have hne : d.isEmpty = false := by simpa using hd
    have htake : ((c ++ List.replicate (o - c.length) z).take o).length = o := by
      simp
      omega
    simp only [writeAt, hne, Bool.false_eq_true, if_false, List.append_assoc]
    rcases lt_or_ge i o with hlt | hge
    · -- before the written range: old elements, then the filled gap
      have hout : ¬ (o ≤ i ∧ i < o + d.length) := by omega
      rw [if_neg hout, List.getD_append _ _ _ _ (by omega)]
      simp only [List.getD_eq_getElem?_getD, List.getElem?_take, hlt, if_true]
      rcases lt_or_ge i c.length with hic | hic
      · rw [List.getElem?_append_left hic]
      · rw [List.getElem?_append_right hic, List.getElem?_eq_none hic]
        simp [List.getElem?_replicate]
        split <;> rfl
    · -- from `o` on: first the data, then what followed it before
      rw [List.getD_append_right _ _ _ _ (by omega), htake]
      rcases lt_or_ge i (o + d.length) with hin | hin
      · rw [if_pos ⟨hge, hin⟩, List.getD_append _ _ _ _ (by omega)]
      · have hout : ¬ (o ≤ i ∧ i < o + d.length) := by omega
        rw [if_neg hout, List.getD_append_right _ _ _ _ (by omega)]
        have hidx : o + d.length + (i - o - d.length) = i := by omega
        simp [List.getD_eq_getElem?_getD, List.getElem?_drop, hidx]

/-- The same where positions past the end are told apart from `z`. -/
theorem getElem?_writeAt (z : α) (old : List α) (o : Nat) {d : List α} (hd : d ≠ []) (i : Nat) :
    (writeAt z old o d)[i]? =
      if i < o then (if i < old.length then old[i]? else some z)
      else if i < o + d.length then d[i - o]? else old[i]? := by
  have hne : d.isEmpty = false := by simpa using hd
  have htake : ((old ++ List.replicate (o - old.length) z).take o).length = o := by
    simp
    omega
  simp only [writeAt, hne, Bool.false_eq_true, if_false, List.append_assoc]
  rcases lt_or_ge i o with hlt | hge
  · rw [List.getElem?_append_left (by omega), if_pos hlt, List.getElem?_take_of_lt hlt]
    -- old elements, then the filled gap
    rcases lt_or_ge i old.length with hic | hic
    · rw [if_pos hic, List.getElem?_append_left hic]
    · rw [if_neg (not_lt.mpr hic), List.getElem?_append_right hic, List.getElem?_replicate,
        if_pos (by omega)]
  · rw [List.getElem?_append_right (by omega), htake, if_neg (not_lt.mpr hge)]
    rcases lt_or_ge i (o + d.length) with hin | hin
    · rw [if_pos hin, List.getElem?_append_left (by omega)]
    · rw [if_neg (not_lt.mpr hin), List.getElem?_append_right (by omega), List.getElem?_drop]
      congr 1
      omega

/-- Two contents of one length that agree at every position are equal. -/
theorem ext_getD (z : α) {c c' : List α} (hlen : c.length = c'.length)
    (h : ∀ i, i < c.length → c.getD i z = c'.getD i z) : c = c' := by
  apply List.ext_getElem hlen
  intro i h1 h2
  have hi := h i h1
  rwa [List.getD_eq_getElem _ _ h1, List.getD_eq_getElem _ _ h2] at hi

/-- A write element by element. -/
theorem writeAt_cons (z : α) (c : List α) (o : Nat) (x : α) (d : List α) :
    writeAt z c o (x :: d) = writeAt z (writeAt z c o [x]) (o + 1) d := by
  by_cases hd : d = []
  · subst hd
    rw [writeAt_nil]
  · apply ext_getD z
    · rw [length_writeAt z c o (List.cons_ne_nil x d), length_writeAt z _ (o + 1) hd,
        length_writeAt z c o (List.cons_ne_nil x []), List.length_cons, List.length_singleton]
      omega
    · intro i _
      rw [getD_writeAt, getD_writeAt, getD_writeAt, List.length_cons, List.length_singleton]
      by_cases hi : i = o
      · subst hi
        rw [if_pos (by omega), if_neg (by omega), if_pos (by omega), Nat.sub_self]
        rfl
      · by_cases hin : o + 1 ≤ i ∧ i < o + 1 + d.length
        · have hsucc : i - o = i - (o + 1) + 1 := by omega
          rw [if_pos (by omega), if_pos hin, hsucc, List.getD_cons_succ]
        · rw [if_neg (by omega), if_neg hin, if_neg (by omega)]

/-- Data written in two parts, one behind the other. -/
theorem writeAt_append (z : α) (c : List α) (o : Nat) (d d' : List α) :
    writeAt z c o (d ++ d') = writeAt z (writeAt z c o d) (o + d.length) d' := by
  induction d generalizing c o with
  | nil => rw [List.nil_append, writeAt_nil, List.length_nil, Nat.add_zero]
  | cons x d ih =>
    rw [List.cons_append, writeAt_cons, ih, ← writeAt_cons, List.length_cons, Nat.add_assoc,
      Nat.add_comm 1]

theorem getD_readAt (z : α) (c : List α) (o : Nat) {n i : Nat} (h : i < n) :
    (readAt c o n).getD i z = c.getD (o + i) z := by
  simp [readAt, List.getD_eq_getElem?_getD, h]

/-- A part of `d` written to the same place leaves the same content if and only if the content
held the rest already. -/
theorem writeAt_take_eq_iff (z : α) (c : List α) (o : Nat) (d : List α) (k : Nat) :
    writeAt z c o (d.take k) = writeAt z c o d ↔
      readAt c (o + k) (d.drop k).length = d.drop k := by
  rcases le_or_gt d.length k with hk | hk
  · simp [List.take_of_length_le hk, List.drop_of_length_le hk]
  have hlen : (d.take k).length = k := by
    rw [List.length_take]
    omega
  have hd : d ≠ [] := List.length_pos_iff.mp (by omega)
  -- either way the content reaches to the end of `d`
  have hend : (writeAt z c o (d.take k)).length = (writeAt z c o d).length ↔
      o + d.length ≤ c.length := by
    rw [length_writeAt z c o hd]
    by_cases hk0 : d.take k = []
    · rw [hk0, writeAt_nil]
      omega
    · rw [length_writeAt z c o hk0, hlen]
      omega
  have hrest : (readAt c (o + k) (d.drop k).length).length = (d.drop k).length ↔
      o + d.length ≤ c.length := by
    rw [length_readAt, List.length_drop]
    omega
  constructor
  · intro heq
    have hle := hend.mp (congrArg List.length heq)
    apply ext_getD z (hrest.mpr hle)
    intro i hi
    rw [hrest.mpr hle] at hi
    have hget := congrArg (fun l => l.getD (o + k + i) z) heq
    simp only [getD_writeAt] at hget
    rw [List.length_drop] at hi
    rw [if_neg (by omega), if_pos (by omega)] at hget
    rw [getD_readAt z c _ (by rw [List.length_drop]; omega), hget,
      show o + k + i - o = k + i by omega]
    simp [List.getD_eq_getElem?_getD]
  · intro heq
    have hle := hrest.mp (congrArg List.length heq)
    apply ext_getD z (hend.mpr hle)
    intro i _
    rw [getD_writeAt, getD_writeAt, hlen]
    rcases lt_or_ge i o with hlow | hlow
    · rw [if_neg (by omega), if_neg (by omega)]
    rcases lt_or_ge i (o + k) with hin | hin
    · rw [if_pos ⟨hlow, hin⟩, if_pos (by omega)]
      simp [List.getD_eq_getElem?_getD, show i - o < k by omega]
    rcases lt_or_ge i (o + d.length) with hin' | hout
    · -- from here on the content held `d`
      rw [if_neg (by omega), if_pos (by omega)]
      have hget := congrArg (fun l => l.getD (i - (o + k)) z) heq
      rw [getD_readAt z c _ (by rw [List.length_drop]; omega),
        show o + k + (i - (o + k)) = i by omega] at hget
      rw [hget]
      simp [List.getD_eq_getElem?_getD, show k + (i - (o + k)) = i - o by omega]
    · rw [if_neg (by omega), if_neg (by omega)]

/-- A write at the end appends. -/
theorem writeAt_length (z : α) (c d : List α) : writeAt z c c.length d = c ++ d := by
  by_cases hd : d = []
  · simp [hd]
  · have hne : d.isEmpty = false := by simpa using hd
    simp [writeAt, hne]

@[simp] theorem copyTo_nil (dst : List α) : copyTo dst [] = dst := by
  simp [copyTo]

theorem copyTo_of_length_le {dst src : List α} (h : dst.length ≤ src.length) :
    copyTo dst src = src := by
  simp [copyTo, List.drop_eq_nil_of_le h]

theorem take_copyTo (dst src : List α) : (copyTo dst src).take src.length = src := by
  simp [copyTo]

theorem take_copyTo_of_le (dst : List α) {src : List α} {n : Nat} (h : n ≤ src.length) :
    (copyTo dst src).take n = src.take n := by
  simp [copyTo, List.take_append_of_le_length h]

theorem length_copyTo_of_le {dst src : List α} (h : src.length ≤ dst.length) :
    (copyTo dst src).length = dst.length := by
  simp [copyTo]
  omega

theorem drop_copyTo (dst src : List α) :
    (copyTo dst src).drop src.length = dst.drop src.length := by
  simp [copyTo]

/-- Copying what the destination already holds changes nothing, and only that. -/
theorem copyTo_eq_self_iff (dst src : List α) :
    copyTo dst src = dst ↔ dst.take src.length = src := by
  constructor
  · intro h
    rw [← h]
    exact take_copyTo dst src
  · intro h
    calc copyTo dst src = dst.take src.length ++ dst.drop src.length := by rw [copyTo, h]
      _ = dst := List.take_append_drop _ _

/-! ## Overlays of disjoint pieces

A family of pieces `d i` at positions `o i`.  `Overlaid z init o d S c` says that `c` is `init`
overlaid with the pieces of `S`; it fixes the length and every element, so it does not depend
on the order in which the pieces were written. -/

section Overlay

variable {ι : Type*} {z : α} {init c : List α} {o : ι → Nat} {d : ι → List α} {S : Set ι}

/-- Position `p` lies in the range of piece `i`. -/
def Covers (o : ι → Nat) (d : ι → List α) (i : ι) (p : Nat) : Prop :=
  o i ≤ p ∧ p < o i + (d i).length

/-- No position lies in the ranges of both pieces. -/
def Disjoint (o : ι → Nat) (d : ι → List α) (i j : ι) : Prop :=
  ∀ p, ¬ (Covers o d i p ∧ Covers o d j p)

theorem getD_writeAt_covered (c : List α) {i : ι} {p : Nat} (h : Covers o d i p) :
    (writeAt z c (o i) (d i)).getD p z = (d i).getD (p - o i) z := by
  rw [getD_writeAt]
  exact if_pos h

theorem getD_writeAt_uncovered (c : List α) {i : ι} {p : Nat} (h : ¬ Covers o d i p) :
    (writeAt z c (o i) (d i)).getD p z = c.getD p z := by
  rw [getD_writeAt]
  exact if_neg h

/-- `c` is `init` overlaid with the pieces of `S`, gaps filled with `z`. -/
structure Overlaid (z : α) (init : List α) (o : ι → Nat) (d : ι → List α) (S : Set ι)
    (c : List α) : Prop where
  /-- The initial content is not shortened. -/
  init_le : init.length ≤ c.length
  /-- Every non-empty piece fits. -/
  piece_le : ∀ i ∈ S, d i ≠ [] → o i + (d i).length ≤ c.length
  /-- The length is the initial one or the end of some piece. -/
  length_eq : c.length = init.length ∨ ∃ i ∈ S, d i ≠ [] ∧ c.length = o i + (d i).length
  /-- A covered position holds the element of its piece. -/
  covered : ∀ i ∈ S, ∀ p, Covers o d i p → c.getD p z = (d i).getD (p - o i) z
  /-- Every other position holds the initial element, `z` past its end. -/
  uncovered : ∀ p, (∀ i ∈ S, ¬ Covers o d i p) → c.getD p z = init.getD p z

theorem Overlaid.empty (z : α) (init : List α) (o : ι → Nat) (d : ι → List α) :
    Overlaid z init o d ∅ init where
  init_le := le_rfl
  piece_le := fun i hi => absurd hi (Set.notMem_empty i)
  length_eq := Or.inl rfl
  covered := fun i hi => absurd hi (Set.notMem_empty i)
  uncovered := fun _ _ => rfl

/-- Writing one more piece, disjoint from those already written. -/
theorem Overlaid.write (h : Overlaid z init o d S c) {i : ι}
    (hdisj : ∀ j ∈ S, Disjoint o d j i) :
    Overlaid z init o d (insert i S) (writeAt z c (o i) (d i)) where
  init_le := h.init_le.trans (le_length_writeAt z c (o i) (d i))
  piece_le := by
    intro j hj hne
    rcases Set.mem_insert_iff.mp hj with rfl | hj
    · rw [length_writeAt z c (o j) hne]
      exact le_max_right _ _
    · exact (h.piece_le j hj hne).trans (le_length_writeAt z c (o i) (d i))
  length_eq := by
    -- an empty piece changes nothing; another one ends the content or lies inside it
    by_cases hd : d i = []
    · rw [hd, writeAt_nil]
      rcases h.length_eq with hlen | ⟨j, hj, hne, hlen⟩
      · exact Or.inl hlen
      · exact Or.inr ⟨j, Set.mem_insert_of_mem _ hj, hne, hlen⟩
    · rw [length_writeAt z c (o i) hd]
      rcases le_total c.length (o i + (d i).length) with hle | hle
      · exact Or.inr ⟨i, Set.mem_insert _ _, hd, max_eq_right hle⟩
      · rw [max_eq_left hle]
        rcases h.length_eq with hlen | ⟨j, hj, hne, hlen⟩
        · exact Or.inl hlen
        · exact Or.inr ⟨j, Set.mem_insert_of_mem _ hj, hne, hlen⟩
  covered := by
    intro j hj p hp
    -- the new piece covers no position of an earlier one
    rcases Set.mem_insert_iff.mp hj with rfl | hj
    · exact getD_writeAt_covered c hp
    · rw [getD_writeAt_uncovered c fun hi => hdisj j hj p ⟨hp, hi⟩]
      exact h.covered j hj p hp
  uncovered := by
    intro p hp
    rw [getD_writeAt_uncovered c (hp i (Set.mem_insert _ _))]
    exact h.uncovered p fun j hj => hp j (Set.mem_insert_of_mem _ hj)

private theorem Overlaid.length_le {c' : List α} (h : Overlaid z init o d S c)
    (h' : Overlaid z init o d S c') : c.length ≤ c'.length := by
  rcases h.length_eq with hlen | ⟨i, hi, hne, hlen⟩
  · exact hlen ▸ h'.init_le
  · exact hlen ▸ h'.piece_le i hi hne

/-- The overlay is determined by the initial content and the pieces. -/
theorem Overlaid.unique {c' : List α} (h : Overlaid z init o d S c)
    (h' : Overlaid z init o d S c') : c = c' := by
  apply ext_getD z (le_antisymm (h.length_le h') (h'.length_le h))
  intro p _
  -- a position has the element of the piece that covers it, or the initial one
  by_cases hp : ∃ i ∈ S, Covers o d i p
  · obtain ⟨i, hi, hcov⟩ := hp
    rw [h.covered i hi p hcov, h'.covered i hi p hcov]
  · have hun : ∀ i ∈ S, ¬ Covers o d i p := fun i hi hcov => hp ⟨i, hi, hcov⟩
    rw [h.uncovered p hun, h'.uncovered p hun]

end Overlay

end DTIO.ByteFile
