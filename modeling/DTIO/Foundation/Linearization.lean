import DTIO.Foundation.Interleaving
import DTIO.Foundation.Mealy

/-!
# Operations of Threads in Several Steps

Threads carry out operations in several atomic steps each, between which other threads take
theirs.  If every operation has one step at which it takes effect as on a sequential machine, then
each thread gets what that machine returns when the operations are carried out one by one, in the
order in which they take effect.

## Main definitions

- `Operations`: where operations take effect, and what they return
- `points`, `answers`: what takes effect, and what is returned, in a schedule
- `Linearizes`: a relation to the states of a sequential machine

## Main results

- `Linearizes.run`: every thread gets what the sequential machine returns
-/

namespace DTIO.Linearization

open DTIO.Interleaving

variable {Tid Pc Sh ι op ρ σ τ α : Type*} [DecidableEq Tid]

/-- Threads with operations. -/
structure Operations (ι Pc Sh op ρ : Type*) where
  act : ι → Pc → Sh → Sh × Pc
  /-- The operation that takes effect at a step. -/
  point : ι → Pc → Option op
  /-- What the operation that ends at a step returns. -/
  answer : ι → Pc → Sh → Option ρ
  /-- What an operation under way is going to return, once it has taken effect. -/
  pending : Pc → Option ρ

namespace Operations

variable (O : Operations ι Pc Sh op ρ)

/-- The operations of a schedule, in the order in which they take effect. -/
def points : Config Tid Pc Sh → List (Tid × ι) → List (Tid × op)
  | _, [] => []
  | c, ti :: rest =>
    (O.point ti.2 (c.pc ti.1)).toList.map (ti.1, ·) ++ points (c.act O.act ti) rest

/-- What the operations return, in the order in which they do. -/
def answers : Config Tid Pc Sh → List (Tid × ι) → List (Tid × ρ)
  | _, [] => []
  | c, ti :: rest =>
    (O.answer ti.2 (c.pc ti.1) c.shared).toList.map (ti.1, ·) ++ answers (c.act O.act ti) rest

end Operations

/-- What is of one thread. -/
def ofThread (t : Tid) (xs : List (Tid × α)) : List α :=
  (xs.filter fun x => x.1 = t).map Prod.snd

theorem ofThread_append (t : Tid) (xs ys : List (Tid × α)) :
    ofThread t (xs ++ ys) = ofThread t xs ++ ofThread t ys := by
  rw [ofThread, List.filter_append, List.map_append]
  rfl

theorem ofThread_self (t : Tid) (xs : List α) : ofThread t (xs.map (t, ·)) = xs := by
  have hall : ∀ x ∈ xs.map (t, ·), decide (x.1 = t) = true := by simp
  rw [ofThread, List.filter_eq_self.mpr hall, List.map_map]
  exact List.map_id xs

theorem ofThread_of_ne {t u : Tid} (h : u ≠ t) (xs : List α) :
    ofThread t (xs.map (u, ·)) = [] := by
  have hnone : ∀ x ∈ xs.map (u, ·), ¬ decide (x.1 = t) = true := by simp [h]
  rw [ofThread, List.filter_eq_nil_iff.mpr hnone]
  rfl

/-- What a sequential machine returns to the threads. -/
def serial (seq : σ → op → ρ × σ) : σ → List (Tid × op) → List (Tid × ρ)
  | _, [] => []
  | s, x :: rest => (x.1, (seq s x.2).1) :: serial seq (seq s x.2).2 rest

/-- The state that it reaches. -/
def outcome (seq : σ → op → ρ × σ) (s : σ) (xs : List (Tid × op)) : σ :=
  Mealy.final seq s (xs.map Prod.snd)

/-! ## Steps -/

/-- The relation is kept by the steps at which nothing takes effect, and by the others together
with the operation that does.  What a thread was going to get and what takes effect is what it gets
and what it is going to get then. -/
structure Linearizes (O : Operations ι Pc Sh op ρ) (seq : σ → op → ρ × σ)
    (Allowed : Config Tid Pc Sh → Tid → ι → Prop) (R : Config Tid Pc Sh → σ → Prop) : Prop where
  silent : ∀ {c s t i}, R c s → Allowed c t i → O.point i (c.pc t) = none →
    R (c.act O.act (t, i)) s ∧
      (O.pending (c.pc t)).toList = (O.answer i (c.pc t) c.shared).toList ++
        (O.pending ((c.act O.act (t, i)).pc t)).toList
  effect : ∀ {c s t i o}, R c s → Allowed c t i → O.point i (c.pc t) = some o →
    R (c.act O.act (t, i)) (seq s o).2 ∧
      (O.pending (c.pc t)).toList ++ [(seq s o).1] = (O.answer i (c.pc t) c.shared).toList ++
        (O.pending ((c.act O.act (t, i)).pc t)).toList

section Runs

variable {O : Operations ι Pc Sh op ρ} {seq : σ → op → ρ × σ}
  {Allowed : Config Tid Pc Sh → Tid → ι → Prop} {R : Config Tid Pc Sh → σ → Prop}

/-- One step, for the thread that takes it and for the others. -/
theorem Linearizes.step (h : Linearizes O seq Allowed R) {c : Config Tid Pc Sh} {s : σ} {t : Tid}
    {i : ι} (hR : R c s) (hi : Allowed c t i) :
    R (c.act O.act (t, i)) (outcome seq s ((O.point i (c.pc t)).toList.map (t, ·))) ∧
      ∀ u, (O.pending (c.pc u)).toList ++
          ofThread u (serial seq s ((O.point i (c.pc t)).toList.map (t, ·))) =
        ofThread u ((O.answer i (c.pc t) c.shared).toList.map (t, ·)) ++
          (O.pending ((c.act O.act (t, i)).pc u)).toList := by
  have hothers : ∀ u, u ≠ t → (c.act O.act (t, i)).pc u = c.pc u :=
    fun u hu => Config.move_pc_of_ne _ _ _ hu
  cases hpoint : O.point i (c.pc t) with
  -- no effect: nothing to run, and the thread's pending answer moves on
  | none =>
    obtain ⟨hR', hown⟩ := h.silent hR hi hpoint
    refine ⟨hR', fun u => ?_⟩
    rcases eq_or_ne u t with rfl | hu
    · rw [ofThread_self, ← hown]
      exact List.append_nil _
    · rw [ofThread_of_ne hu.symm, hothers u hu]
      exact List.append_nil _
  -- an effect: the sequential answer is the one the thread is left with
  | some o =>
    obtain ⟨hR', hown⟩ := h.effect hR hi hpoint
    refine ⟨hR', fun u => ?_⟩
    rcases eq_or_ne u t with rfl | hu
    · rw [ofThread_self, ← hown]
      exact congrArg _ (ofThread_self u [(seq s o).1])
    · rw [ofThread_of_ne hu.symm, hothers u hu]
      exact (congrArg _ (ofThread_of_ne hu.symm [(seq s o).1])).trans (List.append_nil _)

/-! ## Schedules -/

omit [DecidableEq Tid] in
theorem serial_append (s : σ) (xs ys : List (Tid × op)) :
    serial seq s (xs ++ ys) = serial seq s xs ++ serial seq (outcome seq s xs) ys := by
  induction xs generalizing s with
  | nil => rfl
  | cons x xs ih => exact congrArg (_ :: ·) (ih _)

omit [DecidableEq Tid] in
theorem outcome_append (s : σ) (xs ys : List (Tid × op)) :
    outcome seq s (xs ++ ys) = outcome seq (outcome seq s xs) ys := by
  induction xs generalizing s with
  | nil => rfl
  | cons x xs ih => exact ih _

/-- **Linearization.**  After every schedule each thread has got, and is still going to get, what
the sequential machine returns to it, and the machine is in a related state.  By induction on the
schedule. -/
theorem Linearizes.run (h : Linearizes O seq Allowed R) {schedule : List (Tid × ι)} :
    ∀ {c : Config Tid Pc Sh} {s : σ}, R c s → Permitted O.act Allowed c schedule →
      R (play O.act c schedule) (outcome seq s (O.points c schedule)) ∧
        ∀ u, (O.pending (c.pc u)).toList ++ ofThread u (serial seq s (O.points c schedule)) =
          ofThread u (O.answers c schedule) ++
            (O.pending ((play O.act c schedule).pc u)).toList := by
  induction schedule with
  | nil => exact fun hR _ => ⟨hR, fun u => List.append_nil _⟩
  | cons ti rest ih =>
    intro c s hR hperm
    obtain ⟨hR', hstep⟩ := h.step hR hperm.1
    obtain ⟨hlast, hrest⟩ := ih hR' hperm.2
    unfold Operations.points Operations.answers
    rw [outcome_append, serial_append]
    refine ⟨hlast, fun u => ?_⟩
    rw [ofThread_append, ofThread_append, ← List.append_assoc, hstep u, List.append_assoc,
      List.append_assoc]
    exact congrArg _ (hrest u)

/-- A sequential machine that returns the same as another one, as long as the operations are of a
kind, may take its place. -/
theorem Linearizes.trans {seq' : τ → op → ρ × τ} {Q : σ → τ → Prop} {G : σ → op → Prop}
    {Allowed' : Config Tid Pc Sh → Tid → ι → Prop} (h : Linearizes O seq Allowed R)
    (hseq : ∀ s s' o, Q s s' → G s o →
      (seq s o).1 = (seq' s' o).1 ∧ Q (seq s o).2 (seq' s' o).2)
    (hallowed : ∀ {c t i}, Allowed' c t i → Allowed c t i)
    (hkind : ∀ {c s t i o}, R c s → Allowed' c t i → O.point i (c.pc t) = some o → G s o) :
    Linearizes O seq' Allowed' fun c s' => ∃ s, R c s ∧ Q s s' where
  silent := by
    rintro c s' t i ⟨s, hR, hQ⟩ hi hpoint
    obtain ⟨hR', hown⟩ := h.silent hR (hallowed hi) hpoint
    exact ⟨⟨s, hR', hQ⟩, hown⟩
  effect := by
    rintro c s' t i o ⟨s, hR, hQ⟩ hi hpoint
    obtain ⟨hR', hown⟩ := h.effect hR (hallowed hi) hpoint
    obtain ⟨hsame, hQ'⟩ := hseq s s' o hQ (hkind hR hi hpoint)
    exact ⟨⟨_, hR', hQ'⟩, by rw [← hsame, hown]⟩

end Runs

end DTIO.Linearization
