import Mathlib.Data.Set.Basic
import Mathlib.Logic.Function.Basic
import Mathlib.Logic.Relation

/-!
# Threads That Repeat Each Other's Writes

Threads perform the same operations on shared cells, each in its own time: one may be many
operations ahead of another.  An operation reads some cells, at different moments, then writes
some.  If an operation reads only cells that have their final values when it is its turn, and all
threads write the same values, then each thread computes what it would in lockstep, and the cells
end as in lockstep.

## Main definitions

- `Program`, `Config`, `Next`: threads in their own time
- `Lockstep`: what happens when all threads go in step
- `Lawful`: no operation reads what a later one writes

## Main results

- `invariant`: what holds in every configuration
- `InStep.computes`: an operation computes what it does in lockstep, whatever it has seen
- `Good.final`: the cells after the last operation
-/

namespace DTIO.WriteOnce

variable {Tid K V L : Type*}

/-- The operations of some threads.  Operation `i` takes the state of a thread and what it reads of
the cells to writes and the next state, unless it fails. -/
structure Program (Tid K V L : Type*) where
  n : Nat
  op : Nat → Tid → L → (K → V) → Option (List (K × V) × L)

/-! ## Threads in their own time -/

/-- A thread: how many operations it has computed, its state, the writes that are left of the last
operation, and the contents of the cells since its last write. -/
structure Thread (K V L : Type*) where
  count : Nat
  state : L
  pending : List (K × V)
  seen : List (K → V)

/-- The cells and the threads. -/
structure Config (Tid K V L : Type*) where
  cells : K → V
  thread : Tid → Thread K V L

/-- Nothing was done yet. -/
def start (cells : K → V) (state : Tid → L) : Config Tid K V L where
  cells := cells
  thread t := ⟨0, state t, [], [cells]⟩

/-- A thread reads each cell at some moment since its last write. -/
def Thread.Sees (l : Thread K V L) (view : K → V) : Prop :=
  ∀ k, ∃ cells ∈ l.seen, view k = cells k

/-- A thread has computed an operation. -/
def Thread.compute (l : Thread K V L) (out : List (K × V)) (next : L) : Thread K V L :=
  { l with count := l.count + 1, state := next, pending := out }

/-- A thread has performed a write. -/
def Thread.wrote (l : Thread K V L) (rest : List (K × V)) (cells : K → V) : Thread K V L :=
  { l with pending := rest, seen := [cells] }

/-- Another thread has. -/
def Thread.notes (l : Thread K V L) (cells : K → V) : Thread K V L :=
  { l with seen := cells :: l.seen }

section Steps

variable [DecidableEq Tid] [DecidableEq K]

/-- A write of a thread. -/
def Config.write (c : Config Tid K V L) (t : Tid) (x : K × V) (rest : List (K × V)) :
    Config Tid K V L :=
  let cells := Function.update c.cells x.1 x.2
  ⟨cells, fun u => if u = t then (c.thread u).wrote rest cells else (c.thread u).notes cells⟩

/-- An operation of a thread. -/
def Config.compute (c : Config Tid K V L) (t : Tid) (out : List (K × V)) (next : L) :
    Config Tid K V L :=
  ⟨c.cells, Function.update c.thread t ((c.thread t).compute out next)⟩

/-- One step of some thread: it performs a write of its operation, or computes the next one when all
writes of the last one are done. -/
inductive Next (p : Program Tid K V L) : Config Tid K V L → Config Tid K V L → Prop
  | write {c t x rest} : (c.thread t).pending = x :: rest → Next p c (c.write t x rest)
  | compute {c t view out next} : (c.thread t).pending = [] → (c.thread t).count < p.n →
      (c.thread t).Sees view →
      p.op (c.thread t).count t (c.thread t).state view = some (out, next) →
      Next p c (c.compute t out next)

/-- Finitely many steps, of any threads in any order. -/
abbrev Reach (p : Program Tid K V L) : Config Tid K V L → Config Tid K V L → Prop :=
  Relation.ReflTransGen (Next p)

end Steps

/-! ## Threads in step -/

/-- What happens when all threads go in step: the cells before operation `i`, those of them that are
settled by then, and the states and the writes of the threads. -/
structure Lockstep (Tid K V L : Type*) where
  stage : Nat → K → V
  settled : Nat → Set K
  state : Tid → Nat → L
  out : Tid → Nat → List (K × V)

/-- Cells have the values of a stage, as far as they are settled there. -/
def Lockstep.Agrees (q : Lockstep Tid K V L) (i : Nat) (view : K → V) : Prop :=
  ∀ k ∈ q.settled i, view k = q.stage i k

/-- Settled cells stay, every thread writes all cells that become settled, nothing else is written,
and an operation reads only settled cells. -/
structure Lawful (p : Program Tid K V L) (q : Lockstep Tid K V L) : Prop where
  grows : ∀ i < p.n, q.settled i ⊆ q.settled (i + 1)
  keeps : ∀ i < p.n, ∀ k ∈ q.settled i, q.stage (i + 1) k = q.stage i k
  writes : ∀ i < p.n, ∀ t, ∀ x ∈ q.out t i, x.1 ∈ q.settled (i + 1) ∧ q.stage (i + 1) x.1 = x.2
  complete : ∀ i < p.n, ∀ t, ∀ k ∈ q.settled (i + 1), k ∉ q.settled i →
    (k, q.stage (i + 1) k) ∈ q.out t i
  others : ∀ i < p.n, ∀ k ∉ q.settled (i + 1), q.stage (i + 1) k = q.stage i k
  reads : ∀ i < p.n, ∀ t view, q.Agrees i view →
    p.op i t (q.state t i) view = some (q.out t i, q.state t (i + 1))

variable {p : Program Tid K V L} {q : Lockstep Tid K V L}

namespace Lawful

variable (hp : Lawful p q)
include hp

/-- What is settled once keeps its value. -/
theorem settled_le {i j : Nat} (hij : i ≤ j) (hj : j ≤ p.n) {k : K} (hk : k ∈ q.settled i) :
    k ∈ q.settled j ∧ q.stage j k = q.stage i k := by
  induction j, hij using Nat.le_induction with
  | base => exact ⟨hk, rfl⟩
  | succ j _ ih =>
    obtain ⟨hmem, hval⟩ := ih (by omega)
    exact ⟨hp.grows j hj hmem, (hp.keeps j hj k hmem).trans hval⟩

/-- What is never settled is never written. -/
theorem stage_other {k : K} (hk : k ∉ q.settled p.n) {i : Nat} (hi : i ≤ p.n) :
    q.stage i k = q.stage 0 k := by
  induction i with
  | zero => rfl
  | succ i ih =>
    rw [hp.others i hi k fun hmem => hk (hp.settled_le hi le_rfl hmem).1]
    exact ih (by omega)

end Lawful

/-! ## What holds in every configuration -/

/-- A thread is where it was in lockstep after as many operations, except for the writes that it has
not done yet. -/
structure InStep (p : Program Tid K V L) (q : Lockstep Tid K V L) (t : Tid) (cells : K → V)
    (l : Thread K V L) : Prop where
  le : l.count ≤ p.n
  state : l.state = q.state t l.count
  pending : ∀ x ∈ l.pending, x.1 ∈ q.settled l.count ∧ q.stage l.count x.1 = x.2
  current : cells ∈ l.seen
  seen : ∀ cells ∈ l.seen, ∀ k ∈ q.settled l.count,
    cells k = q.stage l.count k ∨ (k, q.stage l.count k) ∈ l.pending

namespace InStep

variable {t : Tid} {cells : K → V} {l : Thread K V L} (h : InStep p q t cells l)
include h

/-- What a thread reads when its writes are done. -/
theorem agrees (hdone : l.pending = []) {view : K → V} (hview : l.Sees view) :
    q.Agrees l.count view := by
  intro k hk
  obtain ⟨cells, hcells, hval⟩ := hview k
  rw [hval]
  refine (h.seen cells hcells k hk).resolve_right ?_
  rw [hdone]
  exact List.not_mem_nil

/-- **An operation computes what it does in lockstep**, whatever the other threads have done. -/
theorem computes (hp : Lawful p q) (hdone : l.pending = []) (hmore : l.count < p.n) {view : K → V}
    (hview : l.Sees view) :
    p.op l.count t l.state view = some (q.out t l.count, q.state t (l.count + 1)) := by
  rw [h.state]
  exact hp.reads _ hmore t view (h.agrees hdone hview)

/-- After the operation all its writes are left. -/
theorem compute (hp : Lawful p q) (hdone : l.pending = []) (hmore : l.count < p.n) :
    InStep p q t cells (l.compute (q.out t l.count) (q.state t (l.count + 1))) where
  le := hmore
  state := rfl
  pending := hp.writes _ hmore t
  current := h.current
  seen := by
    intro cells hcells k hk
    by_cases hold : k ∈ q.settled l.count
    · refine Or.inl ?_
      have hval := (h.seen cells hcells k hold).resolve_right fun hmem => by
        rw [hdone] at hmem
        cases hmem
      exact hval.trans (hp.keeps _ hmore k hold).symm
    · exact Or.inr (hp.complete _ hmore t k hk hold)

variable [DecidableEq K]

/-- A write of the thread itself. -/
theorem wrote {x : K × V} {rest : List (K × V)} (hpending : l.pending = x :: rest) :
    InStep p q t (Function.update cells x.1 x.2)
      (l.wrote rest (Function.update cells x.1 x.2)) where
  le := h.le
  state := h.state
  pending y hy := h.pending y (hpending ▸ List.mem_cons_of_mem _ hy)
  current := List.mem_singleton.mpr rfl
  seen := by
    intro cells' hcells k hk
    rw [List.mem_singleton.mp hcells]
    by_cases hkx : k = x.1
    · subst hkx
      rw [Function.update_self]
      exact Or.inl (h.pending x (hpending ▸ List.mem_cons_self)).2.symm
    · rw [Function.update_of_ne hkx]
      refine (h.seen _ h.current k hk).imp_right fun hmem => ?_
      rw [hpending] at hmem
      exact (List.mem_cons.mp hmem).resolve_left fun heq => hkx (congrArg Prod.fst heq)

/-- A write of another thread, of a value that the cell keeps. -/
theorem notes (hp : Lawful p q) {x : K × V} (hx : q.stage p.n x.1 = x.2) :
    InStep p q t (Function.update cells x.1 x.2)
      (l.notes (Function.update cells x.1 x.2)) where
  le := h.le
  state := h.state
  pending := h.pending
  current := List.mem_cons_self
  seen := by
    intro cells' hcells k hk
    rcases List.mem_cons.mp hcells with rfl | hcells
    · by_cases hkx : k = x.1
      · subst hkx
        rw [Function.update_self, ← hx]
        exact Or.inl (hp.settled_le h.le le_rfl hk).2
      · rw [Function.update_of_ne hkx]
        exact h.seen _ h.current k hk
    · exact h.seen cells' hcells k hk

end InStep

/-- All threads are in step, and other cells were not written. -/
structure Good (p : Program Tid K V L) (q : Lockstep Tid K V L)
    (c : Config Tid K V L) : Prop where
  inStep : ∀ t, InStep p q t c.cells (c.thread t)
  other : ∀ k ∉ q.settled p.n, c.cells k = q.stage 0 k

theorem good_initial : Good p q (start (q.stage 0) (q.state · 0)) where
  inStep t := {
    le := Nat.zero_le _
    state := rfl
    pending := fun _ hx => absurd hx List.not_mem_nil
    current := List.mem_singleton.mpr rfl
    seen := fun cells hcells k _ => by
      rw [List.mem_singleton.mp hcells]
      exact Or.inl rfl }
  other _ _ := rfl

variable {c c' : Config Tid K V L} {t : Tid}

/-- **The end.**  When a thread has done all its operations, the cells are as in lockstep. -/
theorem Good.final (hp : Lawful p q) (h : Good p q c) (hall : (c.thread t).count = p.n)
    (hdone : (c.thread t).pending = []) : c.cells = q.stage p.n := by
  funext k
  by_cases hk : k ∈ q.settled p.n
  · have hsees : (c.thread t).Sees c.cells := fun k => ⟨c.cells, (h.inStep t).current, rfl⟩
    have hagrees := (h.inStep t).agrees hdone hsees
    rw [hall] at hagrees
    exact hagrees k hk
  · rw [h.other k hk, hp.stage_other hk le_rfl]

section Invariant

variable [DecidableEq Tid] (hp : Lawful p q)
include hp

theorem Good.write [DecidableEq K] (h : Good p q c) {x : K × V} {rest : List (K × V)}
    (hpending : (c.thread t).pending = x :: rest) : Good p q (c.write t x rest) := by
  obtain ⟨hx, hval⟩ := (h.inStep t).pending x (hpending ▸ List.mem_cons_self)
  obtain ⟨hfinal, hfinalVal⟩ := hp.settled_le (h.inStep t).le le_rfl hx
  constructor
  · intro u
    unfold Config.write
    by_cases hu : u = t
    · subst hu
      simp only [if_true]
      exact (h.inStep u).wrote hpending
    · simp only [if_neg hu]
      exact (h.inStep u).notes hp (hfinalVal.trans hval)
  · intro k hk
    have hkx : k ≠ x.1 := fun heq => hk (by rw [heq]; exact hfinal)
    exact (Function.update_of_ne hkx ..).trans (h.other k hk)

theorem Good.compute (h : Good p q c) (hdone : (c.thread t).pending = [])
    (hmore : (c.thread t).count < p.n) :
    Good p q (c.compute t (q.out t (c.thread t).count)
      (q.state t ((c.thread t).count + 1))) := by
  refine ⟨fun u => ?_, h.other⟩
  by_cases hu : u = t
  · subst hu
    simp only [Config.compute, Function.update_self]
    exact (h.inStep u).compute hp hdone hmore
  · simp only [Config.compute, Function.update_of_ne hu]
    exact h.inStep u

/-- **Every configuration** that the threads reach. -/
theorem invariant [DecidableEq K] (h : Reach p (start (q.stage 0) (q.state · 0)) c) :
    Good p q c := by
  induction h with
  | refl => exact good_initial
  | tail _ hnext ih =>
    cases hnext with
    | write hpending => exact ih.write hp hpending
    | compute hdone hmore hview hop =>
      rw [(ih.inStep _).computes hp hdone hmore hview] at hop
      cases hop
      exact ih.compute hp hdone hmore

end Invariant

end DTIO.WriteOnce
