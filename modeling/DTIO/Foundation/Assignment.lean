import DTIO.Foundation.ByteFile
import Mathlib.Data.List.Nodup

/-!
# Sequences of Assignments

A list of assignments to keys, performed in order, and the value that one key has afterwards.
Two such lists may name their keys differently, leave out what does not concern a key, or perform
an assignment in many small ones.

## Main definitions

- `assigned ws k old`: the value of `k` after `ws`, if it was `old` before

## Main results

- `assigned_of_eq`: assignments of one value
- `assigned_filter`: assignments to other keys do not matter
- `assigned_partition`: assignments sorted into classes
- `assigned_flatMap`: an assignment performed in several steps
- `getD_writeAt_eq_assigned`: a positional write as assignments to positions
-/

namespace DTIO.Assignment

variable {κ κ' β ι : Type*} [DecidableEq κ] [DecidableEq κ']

/-- The value of `k` after the assignments `ws`, if it was `old` before. -/
def assigned (ws : List (κ × β)) (k : κ) (old : β) : β :=
  ws.foldl (fun v w => if w.1 = k then w.2 else v) old

@[simp] theorem assigned_nil (k : κ) (old : β) : assigned [] k old = old := rfl

@[simp] theorem assigned_cons (w : κ × β) (ws : List (κ × β)) (k : κ) (old : β) :
    assigned (w :: ws) k old = assigned ws k (if w.1 = k then w.2 else old) := rfl

theorem assigned_append (ws ws' : List (κ × β)) (k : κ) (old : β) :
    assigned (ws ++ ws') k old = assigned ws' k (assigned ws k old) :=
  List.foldl_append ..

theorem assigned_of_ne {ws : List (κ × β)} {k : κ} (h : ∀ w ∈ ws, w.1 ≠ k) (old : β) :
    assigned ws k old = old := by
  induction ws generalizing old with
  | nil => rfl
  | cons w ws ih =>
    have hw : w.1 ≠ k := h w List.mem_cons_self
    rw [assigned_cons, if_neg hw]
    exact ih (fun w' hw' => h w' (List.mem_cons_of_mem _ hw')) old

/-- Assignments of one value. -/
theorem assigned_of_eq {ws : List (κ × β)} {k : κ} {v : β} (h : ∀ w ∈ ws, w.1 = k → w.2 = v)
    (hmem : ∃ w ∈ ws, w.1 = k) (old : β) : assigned ws k old = v := by
  -- once the value is there, it stays
  have hkeep : ∀ {us : List (κ × β)}, (∀ w ∈ us, w.1 = k → w.2 = v) → assigned us k v = v := by
    intro us hus
    induction us with
    | nil => rfl
    | cons w us ih =>
      have htail := ih fun w' hw' => hus w' (List.mem_cons_of_mem _ hw')
      by_cases hk : w.1 = k
      · rw [assigned_cons, if_pos hk, hus w List.mem_cons_self hk]
        exact htail
      · rw [assigned_cons, if_neg hk]
        exact htail
  obtain ⟨w, hw, hk⟩ := hmem
  obtain ⟨pre, post, rfl⟩ := List.append_of_mem hw
  rw [assigned_append, assigned_cons, if_pos hk, h w hw hk]
  apply hkeep
  intro w' hw'
  exact h w' (List.mem_append_right _ (List.mem_cons_of_mem _ hw'))

/-- What was there before does not matter to a key that is assigned. -/
theorem assigned_of_mem {ws : List (κ × β)} {k : κ} (hmem : ∃ w ∈ ws, w.1 = k) (old old' : β) :
    assigned ws k old = assigned ws k old' := by
  obtain ⟨w, hw, hk⟩ := hmem
  obtain ⟨pre, post, rfl⟩ := List.append_of_mem hw
  rw [assigned_append, assigned_append, assigned_cons, assigned_cons, if_pos hk, if_pos hk]

/-- The values in another form. -/
theorem assigned_map_values {γ : Type*} (g : β → γ) (ws : List (κ × β)) (k : κ) (old : β) :
    assigned (ws.map fun w => (w.1, g w.2)) k (g old) = g (assigned ws k old) := by
  induction ws generalizing old with
  | nil => rfl
  | cons w ws ih =>
    rw [List.map_cons, assigned_cons, assigned_cons, ← ih]
    congr 1
    split
    · rfl
    · rfl

/-- Updates of a function are assignments. -/
theorem foldl_update (ws : List (κ × β)) (f : κ → β) (k : κ) :
    ws.foldl (fun f w => Function.update f w.1 w.2) f k = assigned ws k (f k) := by
  induction ws generalizing f with
  | nil => rfl
  | cons w ws ih =>
    rw [List.foldl_cons, ih, assigned_cons]
    by_cases hk : w.1 = k
    · rw [if_pos hk, ← hk, Function.update_self]
    · rw [if_neg hk, Function.update_of_ne (Ne.symm hk)]

section Families

variable {l : List ι} {key : ι → κ} {value : ι → β} {k : κ}

/-- Assignments to other keys do not matter. -/
theorem assigned_filter {p : ι → Bool} (h : ∀ i ∈ l, key i = k → p i = true) (old : β) :
    assigned ((l.filter p).map fun i => (key i, value i)) k old =
      assigned (l.map fun i => (key i, value i)) k old := by
  induction l generalizing old with
  | nil => rfl
  | cons i l ih =>
    have htail := ih fun j hj => h j (List.mem_cons_of_mem _ hj)
    cases hp : p i with
    | true =>
      rw [List.filter_cons_of_pos hp, List.map_cons, List.map_cons, assigned_cons, assigned_cons]
      exact htail _
    | false =>
      have hne : key i ≠ k := fun hk => by
        rw [h i List.mem_cons_self hk] at hp
        cases hp
      rw [List.filter_cons_of_neg (by simp [hp]), List.map_cons, assigned_cons, if_neg hne]
      exact htail old

/-- Assignments sorted into classes, if those to one key are in one class. -/
theorem assigned_partition {γ : Type*} [DecidableEq γ] {classes : List γ}
    (hnodup : classes.Nodup) {f : ι → γ} (hmem : ∀ i ∈ l, f i ∈ classes) {s : γ}
    (hkey : ∀ i ∈ l, key i = k → f i = s) (old : β) :
    assigned ((classes.flatMap fun t => l.filter fun i => decide (f i = t)).map
        fun i => (key i, value i)) k old =
      assigned (l.map fun i => (key i, value i)) k old := by
  -- a class that is not the one of `k` has no assignment to it
  have hother : ∀ ts : List γ, s ∉ ts → ∀ old,
      assigned ((ts.flatMap fun t => l.filter fun i => decide (f i = t)).map
        fun i => (key i, value i)) k old = old := by
    intro ts hs
    refine assigned_of_ne ?_
    simp only [List.mem_map, List.mem_flatMap, List.mem_filter, decide_eq_true_eq]
    rintro _ ⟨i, ⟨t, ht, hi, rfl⟩, rfl⟩ heq
    exact hs (hkey i hi heq ▸ ht)
  by_cases hs : s ∈ classes
  · obtain ⟨pre, post, rfl⟩ := List.append_of_mem hs
    rw [List.nodup_middle, List.nodup_cons, List.mem_append, not_or] at hnodup
    obtain ⟨⟨hpre, hpost⟩, -⟩ := hnodup
    rw [List.flatMap_append, List.flatMap_cons, List.map_append, List.map_append, assigned_append,
      assigned_append, hother pre hpre, hother post hpost]
    exact assigned_filter (fun i hi heq => decide_eq_true (hkey i hi heq)) old
  · rw [hother classes hs, assigned_of_ne]
    simp only [List.mem_map]
    rintro _ ⟨i, hi, rfl⟩ heq
    exact hs (hkey i hi heq ▸ hmem i hi)

/-- Assignments of vectors, entry by entry. -/
theorem assigned_vector (n : Nat) (entry : ι → Nat → β) (old : Nat → β) :
    assigned (l.map fun i => (key i, (List.range n).map (entry i))) k ((List.range n).map old) =
      (List.range n).map fun j => assigned (l.map fun i => (key i, entry i j)) k (old j) := by
  induction l generalizing old with
  | nil => rfl
  | cons i l ih =>
    simp only [List.map_cons, assigned_cons]
    by_cases hk : key i = k
    · simp only [if_pos hk]
      exact ih (entry i)
    · simp only [if_neg hk]
      exact ih old

end Families

/-- An assignment performed in several steps, to keys named differently. -/
theorem assigned_flatMap {l : List ι} {steps : ι → List (κ × β)} {key : ι → κ'} {value : ι → β}
    {k : κ} {k' : κ'}
    (h : ∀ i ∈ l, ∀ v, assigned (steps i) k v = if key i = k' then value i else v) (old : β) :
    assigned (l.flatMap steps) k old = assigned (l.map fun i => (key i, value i)) k' old := by
  induction l generalizing old with
  | nil => rfl
  | cons i l ih =>
    rw [List.flatMap_cons, assigned_append, h i List.mem_cons_self, List.map_cons, assigned_cons]
    exact ih (fun j hj => h j (List.mem_cons_of_mem _ hj)) _

/-- Keys named differently. -/
theorem assigned_map {l : List ι} {key : ι → κ} {key' : ι → κ'} {value : ι → β} {k : κ} {k' : κ'}
    (h : ∀ i ∈ l, key i = k ↔ key' i = k') (old : β) :
    assigned (l.map fun i => (key i, value i)) k old =
      assigned (l.map fun i => (key' i, value i)) k' old := by
  have hsteps : assigned (l.flatMap fun i => [(key i, value i)]) k old =
      assigned (l.map fun i => (key' i, value i)) k' old := by
    apply assigned_flatMap
    intro i hi v
    simp only [assigned_cons, assigned_nil, h i hi]
  rwa [← List.map_eq_flatMap] at hsteps

/-! ## Ranges -/

/-- Consecutive keys. -/
theorem assigned_range (n o : Nat) (value : Nat → β) (i : Nat) (old : β) :
    assigned ((List.range n).map fun j => (o + j, value j)) i old =
      if o ≤ i ∧ i < o + n then value (i - o) else old := by
  induction n with
  | zero =>
    rw [if_neg (by omega)]
    rfl
  | succ n ih =>
    rw [List.range_succ, List.map_append, assigned_append, ih, List.map_singleton, assigned_cons,
      assigned_nil]
    by_cases hlast : o + n = i
    · subst hlast
      rw [if_pos rfl, if_pos (by omega), Nat.add_sub_cancel_left]
    · rw [if_neg hlast]
      by_cases hin : o ≤ i ∧ i < o + n
      · rw [if_pos hin, if_pos (by omega)]
      · rw [if_neg hin, if_neg (by omega)]

/-- A positional write assigns to consecutive positions. -/
theorem getD_writeAt_eq_assigned (z : β) (c : List β) (o n : Nat) (value : Nat → β) (i : Nat) :
    (ByteFile.writeAt z c o ((List.range n).map value)).getD i z =
      assigned ((List.range n).map fun j => (o + j, value j)) i (c.getD i z) := by
  rw [ByteFile.getD_writeAt, assigned_range, List.length_map, List.length_range]
  by_cases hin : o ≤ i ∧ i < o + n
  · have hidx : i - o < ((List.range n).map value).length := by
      rw [List.length_map, List.length_range]
      omega
    rw [if_pos hin, if_pos hin, List.getD_eq_getElem _ _ hidx, List.getElem_map,
      List.getElem_range]
  · rw [if_neg hin, if_neg hin]

end DTIO.Assignment
