import Mathlib.Algebra.BigOperators.Group.List.Lemmas
import Mathlib.Algebra.Order.BigOperators.GroupWithZero.List
import Mathlib.Algebra.Order.Ring.Nat
import Mathlib.Data.List.Forall2
import Mathlib.Data.List.Nodup

/-!
# Arrays of any Rank

Coordinates of an array, the row-major offset of an element, and the partition of an array into
blocks of one shape.  Coordinates have one entry for each dimension, the slowest one first.

## Main definitions

- `Inside x d`: `x` is a position of an array of extent `d`
- `rowMajor d x`: the number of elements before `x`
- `blockStart c x`: the first position of the block of shape `c` that `x` lies in
- `positions lo c hi`: the starts of blocks from `lo` on, not past `hi`, in row-major order

## Main results

- `rowMajor_lt`, `rowMajor_inj`: row-major offsets number the positions of an array
- `blockStart_mem_positions`, `nodup_positions`: every block is listed once
-/

namespace DTIO.Grid

/-- One entry for each dimension. -/
abbrev Coord := List Nat

/-! ## Positions and their offsets -/

/-- A position of an array of extent `d`. -/
def Inside (x d : Coord) : Prop := List.Forall₂ (· < ·) x d

/-- The row-major offset of `x` in an array of extent `d`. -/
def rowMajor : Coord → Coord → Nat
  | _ :: ds, x :: xs => x * ds.prod + rowMajor ds xs
  | _, _ => 0

theorem rowMajor_lt {x d : Coord} (h : Inside x d) : rowMajor d x < d.prod := by
  induction h with
  | nil => exact Nat.one_pos
  | @cons a b xs ds hab _ ih =>
    have hrow : (a + 1) * ds.prod ≤ b * ds.prod := Nat.mul_le_mul_right _ hab
    rw [Nat.add_mul, Nat.one_mul] at hrow
    rw [List.prod_cons]
    exact lt_of_lt_of_le (Nat.add_lt_add_left ih _) hrow

/-- Quotient and remainder. -/
theorem mul_add_inj {a b i j n : Nat} (hi : i < n) (hj : j < n) :
    a * n + i = b * n + j ↔ a = b ∧ i = j := by
  constructor
  · intro h
    have hdiv : ∀ q r, r < n → (q * n + r) / n = q := by
      intro q r hr
      rw [Nat.mul_comm, Nat.mul_add_div (by omega), Nat.div_eq_of_lt hr, Nat.add_zero]
    have hab : a = b := by
      rw [← hdiv a i hi, ← hdiv b j hj, h]
    subst hab
    exact ⟨rfl, Nat.add_left_cancel h⟩
  · rintro ⟨rfl, rfl⟩
    rfl

/-- Positions have different offsets. -/
theorem rowMajor_inj {x y d : Coord} (hx : Inside x d) (hy : Inside y d)
    (h : rowMajor d x = rowMajor d y) : x = y := by
  induction hx generalizing y with
  | nil =>
    cases hy
    rfl
  | @cons a b xs ds _ htail ih =>
    cases hy with
    | @cons a' _ ys _ _ htail' =>
      obtain ⟨rfl, hrow⟩ := (mul_add_inj (rowMajor_lt htail) (rowMajor_lt htail')).mp h
      rw [ih htail' hrow]

theorem Inside.length {x d : Coord} (h : Inside x d) : x.length = d.length :=
  List.Forall₂.length_eq h

/-- All dimensions are positive. -/
def Positive (c : Coord) : Prop := ∀ n ∈ c, 0 < n

theorem Positive.tail {n : Nat} {c : Coord} (h : Positive (n :: c)) : Positive c :=
  fun m hm => h m (List.mem_cons_of_mem _ hm)

theorem Positive.le_prod {c : Coord} (h : Positive c) {n : Nat} (hn : n ∈ c) : n ≤ c.prod :=
  Nat.le_of_dvd (List.prod_pos h) (List.dvd_prod hn)

/-- An array that has a position has positive dimensions. -/
theorem Inside.positive {x d : Coord} (h : Inside x d) : Positive d := by
  induction h with
  | nil => exact fun n hn => by cases hn
  | cons hab _ ih =>
    intro n hn
    rcases List.mem_cons.mp hn with rfl | hn
    · exact Nat.zero_lt_of_lt hab
    · exact ih n hn

theorem forall₂_trans {r : Nat → Nat → Prop} (htrans : ∀ a b c, r a b → r b c → r a c)
    {x y z : Coord} (hxy : List.Forall₂ r x y) (hyz : List.Forall₂ r y z) : List.Forall₂ r x z := by
  induction hxy generalizing z with
  | nil => exact hyz
  | cons h _ ih =>
    cases hyz with
    | cons h' hyz => exact .cons (htrans _ _ _ h h') (ih hyz)

/-- What is below small coordinates is small. -/
theorem lt_of_forall₂_le {x y : Coord} (h : List.Forall₂ (· ≤ ·) x y) {n : Nat}
    (hy : ∀ b ∈ y, b < n) : ∀ a ∈ x, a < n := by
  induction h with
  | nil => exact fun a ha => by cases ha
  | cons hab _ ih =>
    intro a ha
    rcases List.mem_cons.mp ha with rfl | ha
    · exact lt_of_le_of_lt hab (hy _ List.mem_cons_self)
    · exact ih (fun b hb => hy b (List.mem_cons_of_mem _ hb)) a ha

/-- All positions of an array, in row-major order. -/
def allPositions : Coord → List Coord
  | [] => [[]]
  | n :: d => (List.range n).flatMap fun x => (allPositions d).map fun xs => x :: xs

theorem inside_of_mem_allPositions {d x : Coord} (h : x ∈ allPositions d) : Inside x d := by
  induction d generalizing x with
  | nil =>
    have hnil : x = [] := by simpa [allPositions] using h
    subst hnil
    exact .nil
  | cons n d ih =>
    simp only [allPositions, List.mem_flatMap, List.mem_map, List.mem_range] at h
    obtain ⟨a, ha, xs, hxs, rfl⟩ := h
    exact .cons ha (ih hxs)

theorem length_allPositions (d : Coord) : (allPositions d).length = d.prod := by
  induction d with
  | nil => rfl
  | cons n d ih => simp [allPositions, List.length_flatMap, ih]

/-! ## Blocks -/

/-- The start of the block of shape `c` that `x` lies in. -/
def blockStart (c x : Coord) : Coord := List.zipWith (fun x c => x / c * c) x c

/-- `x` seen from `s`. -/
def relative (x s : Coord) : Coord := List.zipWith (· - ·) x s

/-- The last position of the block of shape `c` at `s`. -/
def blockEnd (s c : Coord) : Coord := List.zipWith (fun s c => s + c - 1) s c

/-- `lo ≤ x ≤ hi` in every dimension. -/
def within : Coord → Coord → Coord → Bool
  | l :: ls, h :: hs, x :: xs => decide (l ≤ x) && decide (x ≤ h) && within ls hs xs
  | _, _, _ => true

theorem length_blockStart {c x : Coord} (h : x.length = c.length) :
    (blockStart c x).length = c.length := by
  simp [blockStart, h]

theorem blockStart_le {c x : Coord} (hlen : x.length = c.length) :
    List.Forall₂ (· ≤ ·) (blockStart c x) x := by
  induction c generalizing x with
  | nil =>
    rw [List.length_nil, List.length_eq_zero_iff] at hlen
    subst hlen
    exact .nil
  | cons n c ih =>
    cases x with
    | nil => cases hlen
    | cons a x => exact .cons (Nat.div_mul_le_self a n) (ih (Nat.succ.inj hlen))

theorem blockStart_blockStart {c : Coord} (hc : Positive c) (x : Coord) :
    blockStart c (blockStart c x) = blockStart c x := by
  induction c generalizing x with
  | nil => cases x <;> rfl
  | cons n c ih =>
    cases x with
    | nil => rfl
    | cons a x =>
      have hhead : a / n * n / n * n = a / n * n := by
        rw [Nat.mul_div_cancel _ (hc n List.mem_cons_self)]
      exact congrArg₂ List.cons hhead (ih hc.tail x)

/-- A position is inside its block. -/
theorem inside_relative {c x : Coord} (hc : Positive c) (hlen : x.length = c.length) :
    Inside (relative x (blockStart c x)) c := by
  induction c generalizing x with
  | nil =>
    rw [List.length_nil, List.length_eq_zero_iff] at hlen
    subst hlen
    exact List.Forall₂.nil
  | cons n c ih =>
    cases x with
    | nil => cases hlen
    | cons a x =>
      have hn : 0 < n := hc n List.mem_cons_self
      have hmod : a - a / n * n < n := by
        have hdm := Nat.div_add_mod a n
        have hlt := Nat.mod_lt a hn
        rw [Nat.mul_comm] at hdm
        omega
      exact List.Forall₂.cons hmod (ih hc.tail (Nat.succ.inj hlen))

/-- A position of the first block is its own place there. -/
theorem relative_of_inside {c x : Coord} (h : Inside x c) : relative x (blockStart c x) = x := by
  induction h with
  | nil => rfl
  | @cons a n _ _ han _ ih =>
    have hhead : a - a / n * n = a := by
      rw [Nat.div_eq_of_lt han, Nat.zero_mul, Nat.sub_zero]
    exact congrArg₂ List.cons hhead ih

/-- A position is determined by its block and its place there. -/
theorem eq_of_relative_eq {c x y : Coord} (hx : x.length = c.length) (hy : y.length = c.length)
    (hstart : blockStart c x = blockStart c y)
    (h : relative x (blockStart c x) = relative y (blockStart c y)) : x = y := by
  induction c generalizing x y with
  | nil =>
    rw [List.length_nil, List.length_eq_zero_iff] at hx hy
    rw [hx, hy]
  | cons n c ih =>
    cases x with
    | nil => cases hx
    | cons a x =>
      cases y with
      | nil => cases hy
      | cons b y =>
        simp only [blockStart, relative, List.zipWith_cons_cons, List.cons.injEq] at hstart h
        have hle : a / n * n ≤ a := Nat.div_mul_le_self a n
        have hle' : b / n * n ≤ b := Nat.div_mul_le_self b n
        -- the quotients agree and so do the remainders
        have hab : a = b := by
          obtain ⟨h1, -⟩ := hstart
          obtain ⟨h2, -⟩ := h
          omega
        rw [hab, ih (Nat.succ.inj hx) (Nat.succ.inj hy) hstart.2 h.2]

/-- The start of an aligned block, and the positions in it. -/
theorem within_block_iff {c s x : Coord} (hc : Positive c) (hs : blockStart c s = s)
    (hslen : s.length = c.length) (hxlen : x.length = c.length) :
    within s (blockEnd s c) x = true ↔ blockStart c x = s := by
  induction c generalizing s x with
  | nil =>
    rw [List.length_nil, List.length_eq_zero_iff] at hslen hxlen
    subst hslen
    subst hxlen
    simp [within, blockStart]
  | cons n c ih =>
    cases s with
    | nil => cases hslen
    | cons b s =>
      cases x with
      | nil => cases hxlen
      | cons a x =>
        have hn : 0 < n := hc n List.mem_cons_self
        simp only [blockStart, List.zipWith_cons_cons, List.cons.injEq] at hs
        obtain ⟨hb, hs⟩ := hs
        -- in this dimension, `b` is the multiple of `n` below `a`
        have hhead : (b ≤ a ∧ a ≤ b + n - 1) ↔ a / n * n = b := by
          obtain ⟨k, rfl⟩ : ∃ k, b = k * n := ⟨b / n, hb.symm⟩
          have hdiv : a / n * n = k * n ↔ a / n = k :=
            ⟨fun h => Nat.eq_of_mul_eq_mul_right hn h, fun h => by rw [h]⟩
          rw [hdiv, Nat.div_eq_iff hn, Nat.mul_comm]
        have htail := ih hc.tail hs (Nat.succ.inj hslen) (Nat.succ.inj hxlen)
        simp only [within, blockStart, blockEnd, List.zipWith_cons_cons, List.cons.injEq,
          Bool.and_eq_true, decide_eq_true_eq, hhead]
        exact and_congr_right fun _ => htail

/-! ## The list of blocks -/

/-- What an iteration visits, until there is no next element. -/
def Visits {α : Type*} (next : α → Option α) : List α → Prop
  | [] => False
  | [s] => next s = none
  | s :: s' :: l => next s = some s' ∧ Visits next (s' :: l)

/-- The multiples of `n` from `l` on, not past `h`, if `l` is one. -/
def axis (l n h : Nat) : List Nat := (List.range ((h - l) / n + 1)).map fun k => l + k * n

/-- The starts of blocks of shape `c` from `lo` on, not past `hi`. -/
def positions : Coord → Coord → Coord → List Coord
  | l :: ls, n :: c, h :: hs =>
    (axis l n h).flatMap fun s => (positions ls c hs).map fun rest => s :: rest
  | _, _, _ => [[]]

/-- A list falls apart into the parts that `f` sends to the members of `bs`. -/
theorem sum_length_filter {α β : Type*} [DecidableEq β] {f : α → β} {bs : List β}
    (hbs : bs.Nodup) {l : List α} (h : ∀ x ∈ l, f x ∈ bs) :
    (bs.map fun b => (l.filter fun x => decide (f x = b)).length).sum = l.length := by
  -- one element is counted once, in its own class
  have hone : ∀ {bs : List β}, bs.Nodup → ∀ y,
      (bs.map fun b => if y = b then 1 else 0).sum = if y ∈ bs then 1 else 0 := by
    intro bs hbs y
    induction bs with
    | nil => rfl
    | cons b bs ih =>
      obtain ⟨hb, hbs⟩ := List.nodup_cons.mp hbs
      rw [List.map_cons, List.sum_cons, ih hbs]
      by_cases hy : y = b
      · subst hy
        simp [hb]
      · simp [hy]
  induction l with
  | nil => simp
  | cons x l ih =>
    -- the first element adds one to the class that it is in
    have hcons : ∀ b, ((x :: l).filter fun x => decide (f x = b)).length =
        (if f x = b then 1 else 0) + (l.filter fun x => decide (f x = b)).length := by
      intro b
      by_cases hb : f x = b
      · simp [hb, Nat.add_comm]
      · simp [hb]
    simp only [hcons, List.sum_map_add, List.length_cons]
    rw [ih fun y hy => h y (List.mem_cons_of_mem _ hy), hone hbs, if_pos (h x List.mem_cons_self),
      Nat.add_comm]

theorem nodup_positions {lo c : Coord} (hi : Coord) (hc : Positive c) :
    (positions lo c hi).Nodup := by
  induction c generalizing lo hi with
  | nil =>
    cases lo <;> simp [positions]
  | cons n c ih =>
    cases lo with
    | nil => simp [positions]
    | cons l ls =>
      cases hi with
      | nil => simp [positions]
      | cons h hs =>
        have hn : 0 < n := hc n List.mem_cons_self
        -- the starts in this dimension are different
        have haxis : (axis l n h).Nodup := by
          refine List.Nodup.map ?_ List.nodup_range
          intro k k' hk
          exact Nat.eq_of_mul_eq_mul_right hn (Nat.add_left_cancel hk)
        simp only [positions]
        refine List.nodup_flatMap.mpr ⟨?_, ?_⟩
        · intro s _
          exact (ih hs hc.tail).map fun _ _ h => (List.cons.inj h).2
        -- positions behind different starts differ in their first coordinate
        · refine haxis.imp ?_
          intro s s' hne
          simp only [Function.onFun, List.disjoint_left, List.mem_map]
          rintro _ ⟨rest, -, rfl⟩ ⟨rest', -, heq⟩
          exact hne (List.cons.inj heq).1.symm

/-- Every listed start is the start of its block. -/
theorem blockStart_of_mem_positions {lo c hi s : Coord} (hc : Positive c)
    (hlo : blockStart c lo = lo) (hlen : lo.length = c.length) (hhi : hi.length = c.length)
    (hs : s ∈ positions lo c hi) : blockStart c s = s ∧ s.length = c.length := by
  induction c generalizing lo hi s with
  -- no axis: the one position is the empty one
  | nil =>
    rw [List.length_nil, List.length_eq_zero_iff] at hlen
    subst hlen
    have hnil : s = [] := by simpa [positions] using hs
    subst hnil
    exact ⟨rfl, rfl⟩
  | cons n c ih =>
    obtain ⟨l, ls, rfl⟩ := List.exists_cons_of_length_eq_add_one hlen
    obtain ⟨h, hs', rfl⟩ := List.exists_cons_of_length_eq_add_one hhi
    have hn : 0 < n := hc n List.mem_cons_self
    simp only [blockStart, List.zipWith_cons_cons, List.cons.injEq] at hlo
    simp only [positions, axis, List.mem_flatMap, List.mem_map] at hs
    obtain ⟨a, ⟨k, -, rfl⟩, rest, hrest, rfl⟩ := hs
    obtain ⟨hstart, hlen'⟩ := ih hc.tail hlo.2 (Nat.succ.inj hlen) (Nat.succ.inj hhi) hrest
    refine ⟨?_, by rw [List.length_cons, hlen', List.length_cons]⟩
    -- a multiple of the block length is a block start
    have hhead : (l + k * n) / n * n = l + k * n := by
      rw [Nat.add_mul_div_right _ _ hn, Nat.add_mul, hlo.1]
    show (l + k * n) / n * n :: blockStart c rest = _
    rw [hhead, hstart]

/-- No listed start is past `hi`. -/
theorem le_of_mem_positions {lo c hi s : Coord} (hlen : lo.length = c.length)
    (hle : List.Forall₂ (· ≤ ·) lo hi) (hs : s ∈ positions lo c hi) :
    List.Forall₂ (· ≤ ·) s hi := by
  induction hle generalizing c s with
  | nil =>
    have hnil : s = [] := by simpa [positions] using hs
    subst hnil
    exact .nil
  | @cons l h ls hs' hlh _ ih =>
    cases c with
    | nil => cases hlen
    | cons n c =>
      simp only [positions, axis, List.mem_flatMap, List.mem_map, List.mem_range] at hs
      obtain ⟨_, ⟨k, hk, rfl⟩, rest, hrest, rfl⟩ := hs
      have hmul : k * n ≤ h - l :=
        (Nat.mul_le_mul_right n (Nat.le_of_lt_succ hk)).trans (Nat.div_mul_le_self _ n)
      exact .cons (by omega) (ih (Nat.succ.inj hlen) hrest)

/-- The block of every position between `lo` and `hi` is listed. -/
theorem blockStart_mem_positions {lo c hi x : Coord} (hc : Positive c)
    (hlen : lo.length = c.length) (hlo : List.Forall₂ (· ≤ ·) lo x)
    (hhi : List.Forall₂ (· ≤ ·) x hi) :
    blockStart c x ∈ positions (blockStart c lo) c hi := by
  induction hlo generalizing c hi with
  | nil =>
    cases hhi
    cases c with
    | nil => simp [positions, blockStart]
    | cons n c => cases hlen
  | @cons l a ls xs hle _ ih =>
    cases hhi with
    | @cons _ h _ hs hle' htail =>
      cases c with
      | nil => cases hlen
      | cons n c =>
        have hn : 0 < n := hc n List.mem_cons_self
        have hdiv : l / n ≤ a / n := Nat.div_le_div_right hle
        -- the block of `a` is so many blocks behind that of `l`, and not behind that of `h`
        have hstep : l / n * n + (a / n - l / n) * n = a / n * n := by
          rw [← Nat.add_mul]
          congr 1
          omega
        have hbound : a / n - l / n ≤ (h - l / n * n) / n := by
          rw [Nat.le_div_iff_mul_le hn]
          have hmul := Nat.div_mul_le_self a n
          omega
        simp only [blockStart, List.zipWith_cons_cons, positions, axis, List.mem_flatMap,
          List.mem_map, List.mem_range]
        refine ⟨a / n * n, ⟨a / n - l / n, by omega, hstep⟩, blockStart c xs, ?_, rfl⟩
        exact ih hc.tail (Nat.succ.inj hlen) htail

end DTIO.Grid
