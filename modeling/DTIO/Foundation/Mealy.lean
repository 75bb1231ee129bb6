import Mathlib.Logic.Function.Basic

/-!
# Runs of Deterministic Machines

A deterministic machine is a function `step : σ → ι → ο × σ` from a state and an input to an
output and a next state.  This module defines its runs on finite input sequences, the
properties that hold at every step of a run, and simulation between two machines driven by
the same inputs.

## Main results

- `Along.invariant`: what every step of a run preserves holds in its last state
- `along_iff`: two step properties that agree under an invariant agree along runs
- `prefix_appends_iff_along`: a log that grows by what each input carries
- `trace_eq_of_simulation`: a simulation gives equal traces
-/

namespace DTIO.Mealy

variable {σ τ ι ο υ : Type*}

/-- The state after a finite input sequence. -/
def final (step : σ → ι → ο × σ) : σ → List ι → σ
  | s, [] => s
  | s, i :: is => final step (step s i).2 is

/-- The outputs of a run together with what `view` shows of the state after each step. -/
def trace (step : σ → ι → ο × σ) (view : σ → υ) : σ → List ι → List (ο × υ)
  | _, [] => []
  | s, i :: is => ((step s i).1, view (step s i).2) :: trace step view (step s i).2 is

/-- `P` holds at every step of the run, of the state before the step and its input. -/
def Along (step : σ → ι → ο × σ) (P : σ → ι → Prop) : σ → List ι → Prop
  | _, [] => True
  | s, i :: is => P s i ∧ Along step P (step s i).2 is

@[simp] theorem final_nil (step : σ → ι → ο × σ) (s : σ) : final step s [] = s := rfl

@[simp] theorem final_cons (step : σ → ι → ο × σ) (s : σ) (i : ι) (is : List ι) :
    final step s (i :: is) = final step (step s i).2 is := rfl

@[simp] theorem along_nil (step : σ → ι → ο × σ) (P : σ → ι → Prop) (s : σ) :
    Along step P s [] := trivial

@[simp] theorem along_cons (step : σ → ι → ο × σ) (P : σ → ι → Prop) (s : σ) (i : ι)
    (is : List ι) :
    Along step P s (i :: is) ↔ P s i ∧ Along step P (step s i).2 is := Iff.rfl

instance instDecidableAlong (step : σ → ι → ο × σ) (P : σ → ι → Prop)
    [∀ s i, Decidable (P s i)] (s : σ) (is : List ι) : Decidable (Along step P s is) :=
  match is with
  | [] => .isTrue trivial
  | i :: is => @instDecidableAnd _ _ (inferInstance) (instDecidableAlong step P (step s i).2 is)

section Runs

variable {step : σ → ι → ο × σ} {P Q : σ → ι → Prop} {I : σ → Prop}

/-- A property that every step of the run preserves holds in its last state. -/
theorem Along.invariant (hstep : ∀ s i, I s → P s i → I (step s i).2) :
    ∀ {is : List ι} {s : σ}, I s → Along step P s is → I (final step s is) := by
  intro is
  induction is with
  | nil => exact fun hs _ => hs
  | cons i is ih =>
    intro s hs hP
    exact ih (hstep s i hs hP.1) hP.2

/-- What holds at every step under an invariant of the steps with `P` holds along every run
whose steps have `P`. -/
theorem Along.mono (hinv : ∀ s i, I s → P s i → I (step s i).2)
    (himp : ∀ s i, I s → P s i → Q s i) :
    ∀ {is : List ι} {s : σ}, I s → Along step P s is → Along step Q s is := by
  intro is
  induction is with
  | nil => exact fun _ _ => trivial
  | cons i is ih =>
    intro s hs hP
    exact ⟨himp s i hs hP.1, ih (hinv s i hs hP.1) hP.2⟩

/-- Two step properties that agree in every state of an invariant hold along the same runs,
when steps with the property preserve the invariant. -/
theorem along_iff (hinv : ∀ s i, I s → P s i → I (step s i).2)
    (hiff : ∀ s i, I s → (P s i ↔ Q s i)) {is : List ι} {s : σ} (hs : I s) :
    Along step P s is ↔ Along step Q s is := by
  constructor
  · exact Along.mono hinv (fun s i hs => (hiff s i hs).mp) hs
  · exact Along.mono (fun s i hs hQ => hinv s i hs ((hiff s i hs).mpr hQ))
      (fun s i hs => (hiff s i hs).mpr) hs

end Runs

/-- Two properties hold along a run if and only if each of them does. -/
theorem along_and {step : σ → ι → ο × σ} {P Q : σ → ι → Prop} {is : List ι} {s : σ} :
    Along step (fun s i => P s i ∧ Q s i) s is ↔ Along step P s is ∧ Along step Q s is := by
  induction is generalizing s with
  | nil => exact ⟨fun _ => ⟨trivial, trivial⟩, fun _ => trivial⟩
  | cons i is ih =>
    rw [along_cons, along_cons, along_cons, ih]
    exact and_and_and_comm

/-- Every run of every prefix appends what its inputs carry, if and only if every step
appends what its input carries. -/
theorem prefix_appends_iff_along {β : Type*} {step : σ → ι → ο × σ} {view : σ → List β}
    {carried : ι → List β} {is : List ι} {s : σ} :
    (∀ pre, pre <+: is → view (final step s pre) = view s ++ pre.flatMap carried) ↔
      Along step (fun s i => view (step s i).2 = view s ++ carried i) s is := by
  induction is generalizing s with
  | nil => simp
  | cons i is ih =>
    rw [along_cons, ← ih]
    constructor
    · -- the prefix of one input gives the first step, the longer ones the rest
      intro h
      have hfirst : view (step s i).2 = view s ++ carried i := by
        simpa using h [i] (by simp)
      refine ⟨hfirst, fun pre hpre => ?_⟩
      have hrest := h (i :: pre) (by simpa using hpre)
      rw [hfirst]
      simpa using hrest
    · -- a prefix that is not empty begins with the first input
      rintro ⟨hfirst, hrest⟩ pre hpre
      cases pre with
      | nil => simp
      | cons j pre =>
        obtain ⟨rfl, htail⟩ := List.cons_prefix_cons.mp hpre
        have hlater := hrest pre htail
        rw [hfirst] at hlater
        simpa using hlater

/-! ## Simulation -/

section Simulation

variable {step₁ : σ → ι → ο × σ} {step₂ : τ → ι → ο × τ}

/-- A relation that every guarded step preserves with equal outputs and equal views gives
equal traces on every guarded run. -/
theorem trace_eq_of_simulation {view₁ : σ → υ} {view₂ : τ → υ} {R : σ → τ → Prop}
    {G : σ → ι → Prop}
    (hstep : ∀ s t i, R s t → G s i →
      (step₁ s i).1 = (step₂ t i).1 ∧ R (step₁ s i).2 (step₂ t i).2)
    (hview : ∀ s t, R s t → view₁ s = view₂ t) :
    ∀ {is : List ι} {s : σ} {t : τ}, R s t → Along step₁ G s is →
      trace step₁ view₁ s is = trace step₂ view₂ t is := by
  intro is
  induction is with
  | nil => exact fun _ _ => rfl
  | cons i is ih =>
    intro s t hR hG
    -- the outputs and the views agree now, the rest of the traces by induction
    obtain ⟨hout, hR'⟩ := hstep s t i hR hG.1
    simp only [trace, hout, hview _ _ hR', ih hR' hG.2]

end Simulation

end DTIO.Mealy
