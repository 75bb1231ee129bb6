import DTIO.Vol.Transfer

/-!
# The Loop over the Datasets of a Call

`H5VL_dtio_dataset_write` and `H5VL_dtio_dataset_read` go through their datasets in one loop, with
variables that an iteration leaves to the next one.  The loop returns at the first empty
selection, and what an iteration frees cannot be used by the one behind it.

## Main definitions

- `Arrives`: the variables with which an iteration starts
- `Independent`: no iteration depends on them

## Main results

- `run_of_oneOfTwo`, `oneOfTwo_of_ok`: a call that ends well has at most one iteration that does
  something
- `datasetWrite_eq_run`, `datasetRead_eq_run`: both calls are such loops
-/

namespace DTIO.Properties.DatasetLoop

open DTIO.Vol

/-! ## One call and several -/

section Loop

variable {R L W : Type} (iter : R → L → W → Except Stop (Step L W)) (init : L)

/-- The loop over the datasets of a call. -/
def run : List R → L → W → Except Stop (W × List Owner)
  | [], _, w => .ok (w, [])
  | r :: rest, l, w =>
    match iter r l w with
    | .error e => .error e
    | .ok (.returns w) => .ok (w, [])
    | .ok (.next l w closed) => (run rest l w).map fun x => (x.1, closed ++ x.2)

/-- After iterations for all of a list, the loop goes on with variables and a state. -/
inductive Arrives (w₀ : W) : List R → L → W → Prop where
  | start : Arrives w₀ [] init w₀
  | next {before : List R} {r : R} {l l' : L} {w w' : W} {closed : List Owner} :
      Arrives w₀ before l w → iter r l w = .ok (.next l' w' closed) →
      Arrives w₀ (before ++ [r]) l' w'

/-- The state after an iteration, and the dataspaces that it closes. -/
def result : Step L W → W × List Owner
  | .returns w => (w, [])
  | .next _ w closed => (w, closed)

/-- Whether an iteration returns. -/
def ends : Step L W → Bool
  | .returns _ => true
  | .next .. => false

/-- No iteration depends on the variables that the ones before have left: from those that a call
starts with, it fails or does the same. -/
def Independent (w₀ : W) (rs : List R) : Prop :=
  ∀ before r after l w, rs = before ++ r :: after → Arrives iter init w₀ before l w →
    (iter r l w).map (fun s => (ends s, result s)) =
      (iter r init w).map fun s => (ends s, result s)

/-- An iteration that returns, whatever the variables are. -/
def Returning (r : R) : Prop := ∀ l w, iter r l w = .ok (.returns w)

/-- The first dataset or the second one ends the call. -/
def OneOfTwo (rs : List R) : Prop :=
  ∀ r₁ r₂ rest, rs = r₁ :: r₂ :: rest → Returning iter r₁ ∨ Returning iter r₂

variable {iter init} {r : R} {rs : List R} {l : L} {w : W}

theorem run_single (r : R) (l : L) (w : W) : run iter [r] l w = (iter r l w).map result := by
  unfold run
  split
  next h =>
    rw [h]
    rfl
  next h =>
    rw [h]
    rfl
  next l' w' closed h =>
    rw [h]
    show Except.ok (w', closed ++ []) = Except.ok (w', closed)
    rw [List.append_nil]

/-- Then there is at most one iteration that does something. -/
theorem run_of_oneOfTwo (h : OneOfTwo iter (r :: rs)) (l : L) (w : W) :
    run iter (r :: rs) l w = (iter r l w).map result := by
  -- the first iteration fails or returns: the rest is not looked at
  cases hiter : iter r l w with
  | error e =>
    rw [run, hiter]
    rfl
  | ok s =>
    cases s with
    | returns w' =>
      rw [run, hiter]
      rfl
    | next l' w' closed =>
      -- it goes on: then there is no second dataset, or the second one returns at once
      have hrest : run iter rs l' w' = .ok (w', []) := by
        cases rs with
        | nil => rfl
        | cons r₂ rest =>
          rcases h r r₂ rest rfl with hr | hr
          · rw [hr l w] at hiter
            cases hiter
          · rw [run, hr l' w']
      rw [run, hiter]
      show (run iter rs l' w').map _ = _
      rw [hrest]
      show Except.ok (w', closed ++ []) = Except.ok (w', closed)
      rw [List.append_nil]

/-- An iteration that does something leaves variables with which no other one can. -/
theorem oneOfTwo_of_ok (stale : L → Prop) {x : W × List Owner}
    (hfirst : ∀ {r w s}, ¬ Returning iter r → iter r init w = .ok s →
      ∃ l' w' closed, s = .next l' w' closed ∧ stale l')
    (hstale : ∀ {r l w s}, ¬ Returning iter r → stale l → iter r l w ≠ .ok s)
    (h : run iter rs init w = .ok x) : OneOfTwo iter rs := by
  rintro r₁ r₂ rest rfl
  by_contra hneither
  rw [not_or] at hneither
  obtain ⟨h₁, h₂⟩ := hneither
  -- the first iteration goes on to the second one
  unfold run at h
  cases hiter : iter r₁ init w with
  | error e =>
    rw [hiter] at h
    cases h
  | ok s =>
    obtain ⟨l', w', closed, rfl, hl'⟩ := hfirst h₁ hiter
    rw [hiter] at h
    simp only at h
    cases hiter₂ : iter r₂ l' w' with
    | error e =>
      rw [run, hiter₂] at h
      cases h
    | ok s => exact hstale h₂ hl' hiter₂

/-- The loop does not go on after an iteration that returns. -/
theorem Arrives.not_returning {w₀ : W} (h : Arrives iter init w₀ rs l w) :
    ∀ r ∈ rs, ¬ Returning iter r := by
  induction h with
  | start => exact fun r hr => by cases hr
  | @next before r l l' w w' closed _ hiter ih =>
    intro r' hr' hreturns
    rcases List.mem_append.mp hr' with hr' | hr'
    · exact ih r' hr' hreturns
    · rw [List.mem_singleton] at hr'
      subst hr'
      rw [hreturns l w] at hiter
      cases hiter

theorem independent_of_oneOfTwo (h : OneOfTwo iter rs) (w₀ : W) :
    Independent iter init w₀ rs := by
  intro before r after l w hsplit harrives
  have hgoes := harrives.not_returning
  cases before with
  | nil =>
    generalize hnil : ([] : List _) = none' at harrives
    cases harrives with
    | start => rfl
    | next => simp at hnil
  | cons r₁ before =>
    have hfirst : ¬ Returning iter r₁ := hgoes r₁ List.mem_cons_self
    cases before with
    | nil =>
      -- the second dataset, which returns
      have hsecond : Returning iter r := (h r₁ r after hsplit).resolve_left hfirst
      rw [hsecond, hsecond]
    | cons r₂ before =>
      -- behind it the loop does not arrive
      have hsecond := (h r₁ r₂ (before ++ r :: after) hsplit).resolve_left hfirst
      exact absurd hsecond (hgoes r₂ (List.mem_cons_of_mem _ List.mem_cons_self))

end Loop

/-- One iteration of a write, with its buffer. -/
def writeStep (env : Env) (t : Request × Buffer) (L : WriteLocals) (σ : Store) :
    Except Stop (Step WriteLocals Store) := writeIteration env t.1 t.2 L σ

theorem datasetWrite_eq_run (env : Env) (ts : List (Request × Buffer)) (L : WriteLocals)
    (σ : Store) : datasetWrite env ts L σ = run (writeStep env) ts L σ := by
  induction ts generalizing L σ with
  | nil => rfl
  | cons t ts ih =>
    unfold datasetWrite run writeStep
    cases writeIteration env t.1 t.2 L σ with
    | error e => rfl
    | ok s =>
      cases s with
      | returns σ => rfl
      | next L' σ' closed => exact congrArg (Except.map _) (ih L' σ')

theorem datasetRead_eq_run (env : Env) (σ : Store) (rs : List Request) (L : ReadLocals)
    (w : ReadTarget) : datasetRead env σ rs L w = run (readIteration env σ) rs L w := by
  induction rs generalizing L w with
  | nil => rfl
  | cons r rs ih =>
    unfold datasetRead run
    cases readIteration env σ r L w with
    | error e => rfl
    | ok s =>
      cases s with
      | returns w => rfl
      | next L' w' closed => exact congrArg (Except.map _) (ih L' w')

/-- The two dataspaces of each chunk are the connector's. -/
theorem connector_of_mem {α : Type} (l : List α) :
    ∀ o ∈ l.flatMap fun _ => [Owner.connector, .connector], o = .connector := by
  intro o ho
  obtain ⟨_, -, ho⟩ := List.mem_flatMap.mp ho
  simpa using ho

end DTIO.Properties.DatasetLoop
