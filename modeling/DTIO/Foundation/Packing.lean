import Mathlib.Algebra.Order.Ring.Nat
import Mathlib.Order.Interval.Finset.Nat

/-!
# Packing of Intervals

Intervals that do not overlap, in a window of `n` places: their lengths sum up to at most `n`, and
to `n` if and only if they leave no place out.  An interval is given by its start and its length.

## Main results

- `sum_le`: intervals in a window
- `sum_eq_iff`: intervals that fill the window
-/

namespace DTIO.Packing

variable {α : Type*} {off len : α → Nat} {l : List α} {n : Nat}

/-- Two intervals do not overlap. -/
def Apart (off len : α → Nat) (a b : α) : Prop :=
  off a + len a ≤ off b ∨ off b + len b ≤ off a

/-- The places of an interval. -/
def places (off len : α → Nat) (a : α) : Finset Nat := Finset.Ico (off a) (off a + len a)

/-- The places of all intervals. -/
def allPlaces (off len : α → Nat) (l : List α) : Finset Nat :=
  l.foldr (fun a s => places off len a ∪ s) ∅

@[simp] theorem mem_places {a : α} {x : Nat} :
    x ∈ places off len a ↔ off a ≤ x ∧ x < off a + len a := by
  simp [places]

@[simp] theorem mem_allPlaces {x : Nat} :
    x ∈ allPlaces off len l ↔ ∃ a ∈ l, x ∈ places off len a := by
  induction l with
  | nil => simp [allPlaces]
  | cons a l ih =>
    have hcons : allPlaces off len (a :: l) = places off len a ∪ allPlaces off len l := rfl
    rw [hcons, Finset.mem_union, ih]
    simp

/-- What one interval has, the other does not. -/
theorem Apart.notMem {a b : α} (h : Apart off len a b) {x : Nat} (hx : x ∈ places off len a) :
    x ∉ places off len b := by
  unfold Apart at h
  simp only [mem_places] at hx ⊢
  omega

/-- No place is counted twice. -/
theorem card_allPlaces (h : l.Pairwise (Apart off len)) :
    (allPlaces off len l).card = (l.map len).sum := by
  induction l with
  | nil => rfl
  | cons a l ih =>
    obtain ⟨ha, hl⟩ := List.pairwise_cons.mp h
    -- the first interval has no place in common with the rest
    have hdisjoint : Disjoint (places off len a) (allPlaces off len l) := by
      refine Finset.disjoint_left.mpr fun x hx hrest => ?_
      obtain ⟨b, hb, hxb⟩ := mem_allPlaces.mp hrest
      exact (ha b hb).notMem hx hxb
    have hcons : allPlaces off len (a :: l) = places off len a ∪ allPlaces off len l := rfl
    have hlen : (places off len a).card = len a := by simp [places]
    rw [hcons, Finset.card_union_of_disjoint hdisjoint, ih hl, hlen, List.map_cons,
      List.sum_cons]

theorem allPlaces_subset (hin : ∀ a ∈ l, off a + len a ≤ n) :
    allPlaces off len l ⊆ Finset.range n := by
  intro x hx
  obtain ⟨a, ha, hx⟩ := mem_allPlaces.mp hx
  rw [mem_places] at hx
  rw [Finset.mem_range]
  exact hx.2.trans_le (hin a ha)

/-- **Packing.**  Intervals that do not overlap are not longer than their window. -/
theorem sum_le (h : l.Pairwise (Apart off len)) (hin : ∀ a ∈ l, off a + len a ≤ n) :
    (l.map len).sum ≤ n := by
  have hcard := Finset.card_le_card (allPlaces_subset hin)
  rwa [card_allPlaces h, Finset.card_range] at hcard

/-- **Filling.**  They are as long as the window if every place belongs to one of them. -/
theorem sum_eq_iff (h : l.Pairwise (Apart off len)) (hin : ∀ a ∈ l, off a + len a ≤ n) :
    (l.map len).sum = n ↔ ∀ x < n, ∃ a ∈ l, off a ≤ x ∧ x < off a + len a := by
  constructor
  · intro hsum x hx
    -- as many places as the window has are all of them
    have hall : allPlaces off len l = Finset.range n := by
      apply Finset.eq_of_subset_of_card_le (allPlaces_subset hin)
      rw [card_allPlaces h, hsum, Finset.card_range]
    have hmem : x ∈ allPlaces off len l := by rwa [hall, Finset.mem_range]
    simpa using hmem
  · intro hall
    -- no place is left out, so there are at least as many
    have hsubset : Finset.range n ⊆ allPlaces off len l := by
      intro x hx
      rw [mem_allPlaces]
      simpa using hall x (Finset.mem_range.mp hx)
    have hcard := Finset.card_le_card hsubset
    rw [card_allPlaces h, Finset.card_range] at hcard
    exact le_antisymm (sum_le h hin) hcard

end DTIO.Packing
