import Mathlib.Data.List.Basic
import Mathlib.Order.Nat

/-!
# Longest Matches

A table of entries, each with a key; an input is looked up by the entries whose key it begins
with.  Of these the ones with the longest key count, and they all have the same key.

## Main definitions

- `Longest key entries p e`: `e` is an entry with a longest key among those `p` begins with
- `Sorts r l l'`: `l'` is a result of sorting `l` by the comparator `r`

## Main results

- `Longest.key_eq`: the longest key is unique
- `longest_of_find?`: the first match in a table sorted by descending length is a longest one
- `exists_longest`: an input that begins with some key has a longest match
- `exists_sorts`: a comparator that comes from a total preorder sorts every list
-/

namespace DTIO.LongestMatch

variable {α β : Type*}

/-! ## The longest match -/

/-- `p` begins with the key of `e`, and with no longer key of an entry. -/
structure Longest (key : β → List α) (entries : List β) (p : List α) (e : β) : Prop where
  mem : e ∈ entries
  begins : key e <+: p
  longest : ∀ e' ∈ entries, key e' <+: p → (key e').length ≤ (key e).length

variable {key : β → List α} {entries entries' : List β} {p : List α} {e e' : β}

/-- Two beginnings of one input that have the same length are the same. -/
theorem Longest.key_eq (h : Longest key entries p e) (h' : Longest key entries p e') :
    key e = key e' := by
  have hle : (key e).length ≤ (key e').length := h'.longest e h.mem h.begins
  have hge : (key e').length ≤ (key e).length := h.longest e' h'.mem h'.begins
  exact (List.prefix_of_prefix_length_le h.begins h'.begins hle).eq_of_length_le hge

theorem Longest.perm (h : Longest key entries p e) (hperm : entries.Perm entries') :
    Longest key entries' p e where
  mem := hperm.mem_iff.mp h.mem
  begins := h.begins
  longest e' he' := h.longest e' (hperm.mem_iff.mpr he')

/-- In a table where no key is longer than one before it, the first match is a longest one. -/
theorem longest_of_find? [BEq α] [LawfulBEq α]
    (hsorted : entries.Pairwise fun a b => (key b).length ≤ (key a).length)
    (h : (entries.find? fun e => (key e).isPrefixOf p) = some e) :
    Longest key entries p e := by
  obtain ⟨hbegins, before, after, rfl, hbefore⟩ := List.find?_eq_some_iff_append.mp h
  obtain ⟨-, hafter, -⟩ := List.pairwise_append.mp hsorted
  refine ⟨by simp, List.isPrefixOf_iff_prefix.mp hbegins, fun e' he' hp => ?_⟩
  -- what stands before `e` is no match, what stands behind it is no longer
  rcases List.mem_append.mp he' with he' | he'
  · have hno := hbefore e' he'
    rw [List.isPrefixOf_iff_prefix.mpr hp] at hno
    simp at hno
  · rcases List.mem_cons.mp he' with rfl | he'
    · exact le_rfl
    · exact (List.pairwise_cons.mp hafter).1 e' he'

theorem exists_longest (h : ∃ e ∈ entries, key e <+: p) : ∃ e, Longest key entries p e := by
  induction entries with
  | nil => simp at h
  | cons a entries ih =>
    by_cases hrest : ∃ e ∈ entries, key e <+: p
    · obtain ⟨e, he⟩ := ih hrest
      -- the new entry replaces the longest match of the rest only if it is a longer match
      by_cases ha : key a <+: p ∧ (key e).length < (key a).length
      · refine ⟨a, List.mem_cons_self, ha.1, fun e' he' hp => ?_⟩
        rcases List.mem_cons.mp he' with rfl | he'
        · exact le_rfl
        · exact (he.longest e' he' hp).trans ha.2.le
      · refine ⟨e, List.mem_cons_of_mem _ he.mem, he.begins, fun e' he' hp => ?_⟩
        rcases List.mem_cons.mp he' with rfl | he'
        · exact not_lt.mp fun hlt => ha ⟨hp, hlt⟩
        · exact he.longest e' he' hp
    · obtain ⟨e, he, hp⟩ := h
      rcases List.mem_cons.mp he with rfl | he
      · refine ⟨e, List.mem_cons_self, hp, fun e' he' hp' => ?_⟩
        rcases List.mem_cons.mp he' with rfl | he'
        · exact le_rfl
        · exact absurd ⟨e', he', hp'⟩ hrest
      · exact absurd ⟨e, he, hp⟩ hrest

/-! ## Sorting -/

/-- What an unstable sort may leave: the same elements, none of them in front of one that the
comparator puts before it. -/
structure Sorts (r : β → β → Bool) (l l' : List β) : Prop where
  perm : l'.Perm l
  ordered : l'.Pairwise fun a b => r b a = false

/-- Where `le` refines the comparator, sorting by `le` is a result of the sort. -/
theorem exists_sorts {r : β → β → Bool} (le : β → β → Bool)
    (htrans : ∀ a b c, le a b → le b c → le a c) (htotal : ∀ a b, le a b || le b a)
    (hrefines : ∀ a b, le a b → r b a = false) (l : List β) :
    ∃ l', Sorts r l l' ∧ l'.Pairwise fun a b => le a b := by
  have hsorted := List.pairwise_mergeSort htrans htotal l
  exact ⟨l.mergeSort le, ⟨List.mergeSort_perm l le, hsorted.imp fun h => hrefines _ _ h⟩,
    hsorted⟩

end DTIO.LongestMatch
