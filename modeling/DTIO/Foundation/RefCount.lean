import Mathlib.Algebra.Group.Pi.Lemmas
import Mathlib.Algebra.Order.Ring.Int

/-!
# Reference Counts

Cells with a count of their references.  A cell is freed when the last reference is released, and
not accessed any more.  What a run takes and gives back adds up to the net change of the counts.

## Main definitions

- `Heap`: cells, and which of them were freed
- `Nets`: the change of the counts between two heaps
- `Balanced`: nothing is left of what happened

## Main results

- `nets_retain`, `nets_release`, `nets_alloc`, `Nets.trans`: the changes of the operations, and of
  one after another
- `Nets.balanced_iff`: balance is a net change of zero
-/

namespace DTIO.RefCount

universe u

variable {α : Type u}

/-! ## Heaps -/

/-- A cell, which is freed if there are no references. -/
@[ext] structure Cell (α : Type u) where
  content : α
  count : Nat

/-- Cells in the order in which they were allocated, and the list of what was freed. -/
structure Heap (α : Type u) where
  cells : List (Cell α)
  frees : List Nat
  /-- Only cells without references were freed, once each. -/
  count_frees : ∀ h, frees.count h = cells[h]?.elim 0 fun cell => if cell.count = 0 then 1 else 0

namespace Heap

/-- The number of references to a cell. -/
def count (heap : Heap α) (h : Nat) : Nat := heap.cells[h]?.elim 0 Cell.count

/-- A cell that is not freed. -/
abbrev Live (heap : Heap α) (h : Nat) :=
  { cell : Cell α // heap.cells[h]? = some cell ∧ 0 < cell.count }

/-- The cell, if it is not freed. -/
def live (heap : Heap α) (h : Nat) : Option (heap.Live h) :=
  match hcell : heap.cells[h]? with
  | none => none
  | some cell => if hcount : 0 < cell.count then some ⟨cell, hcell, hcount⟩ else none

theorem getElem?_set_live {heap : Heap α} {h : Nat} (cell : heap.Live h) (cell' : Cell α)
    (k : Nat) :
    (heap.cells.set h cell')[k]? = if h = k then some cell' else heap.cells[k]? := by
  have hlt : h < heap.cells.length := (List.getElem?_eq_some_iff.mp cell.2.1).1
  rw [List.getElem?_set]
  by_cases hk : h = k
  · rw [if_pos hk, if_pos hk, if_pos (hk ▸ hlt)]
  · rw [if_neg hk, if_neg hk]

/-- Another number of references to a cell; it is freed if there are none. -/
def setCount (heap : Heap α) {h : Nat} (cell : heap.Live h) (n : Nat) : Heap α where
  cells := heap.cells.set h ⟨cell.1.content, n⟩
  frees := if n = 0 then h :: heap.frees else heap.frees
  count_frees k := by
    have hold := heap.count_frees k
    rw [getElem?_set_live cell]
    by_cases hk : h = k
    · subst hk
      rw [cell.2.1, Option.elim_some, if_neg cell.2.2.ne'] at hold
      by_cases hn : n = 0 <;> simp [hn, hold]
    · by_cases hn : n = 0 <;> simp [hn, hk, hold]

/-- What is in a cell. -/
def read (heap : Heap α) (h : Nat) : Option α := (heap.live h).map fun cell => cell.1.content

/-- One more reference, of at most `max`. -/
def retain (max : Nat) (heap : Heap α) (h : Nat) : Option (Heap α) :=
  (heap.live h).bind fun cell =>
    if cell.1.count < max then some (heap.setCount cell (cell.1.count + 1)) else none

/-- One reference less. -/
def release (heap : Heap α) (h : Nat) : Option (Heap α) :=
  (heap.live h).map fun cell => heap.setCount cell (cell.1.count - 1)

/-- A new cell with one reference; it is the one behind all others. -/
def alloc (heap : Heap α) (a : α) : Heap α where
  cells := heap.cells ++ [⟨a, 1⟩]
  frees := heap.frees
  count_frees k := by
    rw [heap.count_frees k]
    rcases lt_trichotomy k heap.cells.length with hlt | rfl | hgt
    · rw [List.getElem?_append_left hlt]
    · simp
    · have hlong : heap.cells.length + 1 ≤ k := hgt
      rw [List.getElem?_eq_none hgt.le, List.getElem?_eq_none (by simpa using hlong)]

variable {heap heap' : Heap α} {h : Nat}

theorem live_isSome (hcount : 0 < heap.count h) : ∃ cell, heap.live h = some cell := by
  unfold count at hcount
  cases hcell : heap.cells[h]? with
  | none => simp [hcell] at hcount
  | some cell =>
    rw [hcell] at hcount
    refine ⟨⟨cell, hcell, hcount⟩, ?_⟩
    unfold live
    split
    next hnone => cases hcell.symm.trans hnone
    next cell' hcell' =>
      obtain rfl := Option.some.inj (hcell.symm.trans hcell')
      rw [dif_pos (show 0 < cell.count from hcount)]

theorem read_eq_some {a : α} :
    heap.read h = some a ↔ ∃ n, heap.cells[h]? = some ⟨a, n⟩ ∧ 0 < n := by
  constructor
  · intro hread
    obtain ⟨⟨⟨a', n⟩, hcell, hpos⟩, -, rfl⟩ := Option.map_eq_some_iff.mp hread
    exact ⟨n, hcell, hpos⟩
  · rintro ⟨n, hcell, hpos⟩
    have hcount : 0 < heap.count h := by
      rwa [count, hcell]
    obtain ⟨cell, hlive⟩ := live_isSome hcount
    obtain ⟨⟨a', n'⟩, hcell', hpos'⟩ := cell
    cases hcell.symm.trans hcell'
    rw [read, hlive, Option.map_some]

theorem count_pos_of_read {a : α} (hread : heap.read h = some a) : 0 < heap.count h := by
  obtain ⟨n, hcell, hpos⟩ := read_eq_some.mp hread
  rwa [count, hcell]

theorem read_alloc (heap : Heap α) (a : α) : (heap.alloc a).read heap.cells.length = some a :=
  read_eq_some.mpr ⟨1, by simp [alloc], Nat.one_pos⟩

/-- There can be one more reference. -/
theorem exists_retain {max : Nat} (hpos : 0 < heap.count h) (hmax : heap.count h < max) :
    ∃ heap', heap.retain max h = some heap' := by
  obtain ⟨cell, hlive⟩ := live_isSome hpos
  have hcount : cell.1.count < max := by
    rwa [count, cell.2.1] at hmax
  refine ⟨heap.setCount cell (cell.1.count + 1), ?_⟩
  rw [retain, hlive, Option.bind_some, if_pos hcount]

/-- Memory that is referred to can be released. -/
theorem exists_release (hcount : 0 < heap.count h) : ∃ heap', heap.release h = some heap' := by
  obtain ⟨cell, hlive⟩ := live_isSome hcount
  exact ⟨heap.setCount cell (cell.1.count - 1), by rw [release, hlive, Option.map_some]⟩

end Heap

/-! ## Net changes -/

/-- Cells stay as they are, except for their counts, which change by `d`. -/
structure Nets (before after : Heap α) (d : Nat → Int) : Prop where
  contents : before.cells.map Cell.content <+: after.cells.map Cell.content
  counts : ∀ h, (after.count h : Int) = before.count h + d h

section Nets

variable {heap heap' heap'' : Heap α} {d d' : Nat → Int} {h : Nat}

theorem Nets.refl (heap : Heap α) : Nets heap heap 0 := ⟨List.prefix_rfl, by simp⟩

/-- Changes add up. -/
theorem Nets.trans (hd : Nets heap heap' d) (hd' : Nets heap' heap'' d') :
    Nets heap heap'' (d + d') := by
  refine ⟨hd.contents.trans hd'.contents, fun h => ?_⟩
  have hfirst := hd.counts h
  have hsecond := hd'.counts h
  rw [Pi.add_apply]
  omega

/-- What is in a cell stays there, while there are references. -/
theorem Nets.read_eq {a : α} (hd : Nets heap heap' d) (hread : heap.read h = some a)
    (hpos : 0 < heap'.count h) : heap'.read h = some a := by
  obtain ⟨n, hcell, -⟩ := Heap.read_eq_some.mp hread
  obtain ⟨cell', hlive⟩ := Heap.live_isSome hpos
  obtain ⟨⟨a', n'⟩, hcell', hpos'⟩ := cell'
  obtain ⟨t, ht⟩ := hd.contents
  -- the contents of the cells before are the first of those afterwards
  have hcontent : some a = some a' := by
    have hmap : (heap'.cells.map Cell.content)[h]? = some a' := by
      rw [List.getElem?_map, hcell', Option.map_some]
    have hlt : h < (heap.cells.map Cell.content).length := by
      rw [List.length_map]
      exact (List.getElem?_eq_some_iff.mp hcell).1
    rw [← hmap, ← ht, List.getElem?_append_left hlt, List.getElem?_map, hcell, Option.map_some]
  cases hcontent
  exact Heap.read_eq_some.mpr ⟨n', hcell', hpos'⟩

theorem nets_setCount (cell : heap.Live h) (n : Nat) :
    Nets heap (heap.setCount cell n) (Pi.single h ((n : Int) - cell.1.count)) := by
  have hcontents : (heap.setCount cell n).cells.map Cell.content =
      heap.cells.map Cell.content := by
    apply List.ext_getElem?
    intro k
    simp only [List.getElem?_map, Heap.setCount, Heap.getElem?_set_live cell]
    by_cases hk : h = k
    · subst hk
      simp [cell.2.1]
    · rw [if_neg hk]
  refine ⟨hcontents ▸ List.prefix_rfl, fun k => ?_⟩
  simp only [Heap.count, Heap.setCount, Heap.getElem?_set_live cell]
  by_cases hk : h = k
  · subst hk
    simp [cell.2.1]
  · simp [hk]

theorem nets_retain {max : Nat} (hretain : heap.retain max h = some heap') :
    Nets heap heap' (Pi.single h 1) := by
  obtain ⟨cell, -, hcell⟩ := Option.bind_eq_some_iff.mp hretain
  split at hcell
  · obtain rfl := Option.some.inj hcell
    simpa using nets_setCount cell (cell.1.count + 1)
  · cases hcell

theorem nets_release (hrelease : heap.release h = some heap') :
    Nets heap heap' (Pi.single h (-1)) := by
  obtain ⟨cell, -, rfl⟩ := Option.map_eq_some_iff.mp hrelease
  have hpos := cell.2.2
  have hone : ((cell.1.count - 1 : Nat) : Int) - cell.1.count = -1 := by omega
  exact hone ▸ nets_setCount cell (cell.1.count - 1)

theorem nets_alloc (heap : Heap α) (a : α) :
    Nets heap (heap.alloc a) (Pi.single heap.cells.length 1) := by
  refine ⟨⟨[a], by simp [Heap.alloc]⟩, fun k => ?_⟩
  simp only [Heap.count, Heap.alloc]
  rcases lt_trichotomy k heap.cells.length with hlt | rfl | hgt
  · rw [List.getElem?_append_left hlt, Pi.single_eq_of_ne hlt.ne, add_zero]
  · simp
  · have hlong : heap.cells.length + 1 ≤ k := hgt
    rw [List.getElem?_eq_none hgt.le, List.getElem?_eq_none (by simpa using hlong),
      Pi.single_eq_of_ne hgt.ne']
    simp

end Nets

/-! ## Balance -/

/-- All cells are as they were, and the ones that were allocated have been freed, once each. -/
structure Balanced (before after : Heap α) : Prop where
  old : ∀ h < before.cells.length, after.cells[h]? = before.cells[h]?
  new : ∀ h, before.cells.length ≤ h → h < after.cells.length → after.frees.count h = 1

variable {before after : Heap α} {d : Nat → Int}

theorem Nets.length_le (hd : Nets before after d) : before.cells.length ≤ after.cells.length := by
  simpa using hd.contents.length_le

theorem Nets.balanced (hd : Nets before after 0) : Balanced before after where
  old h hlt := by
    have hlt' : h < after.cells.length := hlt.trans_le hd.length_le
    have hcontent : before.cells[h].content = after.cells[h].content := by
      have hmap := hd.contents.getElem (show h < (before.cells.map Cell.content).length by
        simpa using hlt)
      simpa using hmap
    have hcount : before.cells[h].count = after.cells[h].count := by
      have hcounts := hd.counts h
      simp only [Heap.count, List.getElem?_eq_getElem hlt, List.getElem?_eq_getElem hlt',
        Option.elim_some, Pi.zero_apply] at hcounts
      omega
    rw [List.getElem?_eq_getElem hlt, List.getElem?_eq_getElem hlt']
    exact congrArg some (Cell.ext hcontent.symm hcount.symm)
  new h hle hlt := by
    have hcounts := hd.counts h
    simp only [Heap.count, List.getElem?_eq_none hle, List.getElem?_eq_getElem hlt,
      Option.elim_some, Option.elim_none, Pi.zero_apply] at hcounts
    rw [after.count_frees, List.getElem?_eq_getElem hlt, Option.elim_some, if_pos (by omega)]

/-- **Balance.**  Nothing is left if and only if the net change is zero. -/
theorem Nets.balanced_iff (hd : Nets before after d) : Balanced before after ↔ d = 0 := by
  constructor
  -- balanced: an old handle has its cell again, a new one is freed, so both count the same
  · intro hbalanced
    funext h
    have hcounts := hd.counts h
    have hsame : after.count h = before.count h := by
      unfold Heap.count
      rcases lt_or_ge h before.cells.length with hlt | hge
      · rw [hbalanced.old h hlt]
      -- a handle that was not there: its count was zero
      · rw [List.getElem?_eq_none hge]
        cases hcell : after.cells[h]? with
        | none => rfl
        | some cell =>
          have hlt := (List.getElem?_eq_some_iff.mp hcell).1
          have hfreed := hbalanced.new h hge hlt
          rw [after.count_frees, hcell, Option.elim_some] at hfreed
          have hzero : cell.count = 0 := by
            by_contra hne
            rw [if_neg hne] at hfreed
            cases hfreed
          exact hzero
    rw [Pi.zero_apply]
    omega
  · rintro rfl
    exact hd.balanced

end DTIO.RefCount
