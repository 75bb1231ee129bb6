import Mathlib.Logic.Function.Basic
import Mathlib.Logic.Relation

/-!
# Interleavings of Threads over Shared State

Any number of threads, each at a control point of its own, take atomic steps on a shared
state in any order.  A step of one thread changes the shared state and the control point of
that thread only.

## Main results

- `invariant`: what every step preserves holds in every reachable configuration
- `Annotated.move`: the rule for assertions attached to control points, with the two
  obligations of local correctness and interference freedom
-/

namespace DTIO.Interleaving

variable {Tid Pc Sh : Type*} [DecidableEq Tid]

/-- A shared state and the control point of every thread. -/
structure Config (Tid Pc Sh : Type*) where
  /-- The state all threads act on. -/
  shared : Sh
  /-- Where each thread stands. -/
  pc : Tid → Pc

/-- The configuration after thread `t` moved to `p` and left the shared state `sh`. -/
def Config.move (c : Config Tid Pc Sh) (t : Tid) (sh : Sh) (p : Pc) : Config Tid Pc Sh :=
  ⟨sh, Function.update c.pc t p⟩

@[simp] theorem Config.move_shared (c : Config Tid Pc Sh) (t : Tid) (sh : Sh) (p : Pc) :
    (c.move t sh p).shared = sh := rfl

@[simp] theorem Config.move_pc_self (c : Config Tid Pc Sh) (t : Tid) (sh : Sh) (p : Pc) :
    (c.move t sh p).pc t = p := Function.update_self ..

theorem Config.move_pc_of_ne (c : Config Tid Pc Sh) {t u : Tid} (sh : Sh) (p : Pc)
    (h : u ≠ t) : (c.move t sh p).pc u = c.pc u := Function.update_of_ne h ..

/-- The atomic steps of a system: thread `t` of a configuration may leave the shared state
and reach the control point given last. -/
abbrev Steps (Tid Pc Sh : Type*) := Config Tid Pc Sh → Tid → Sh → Pc → Prop

/-- One atomic step of some thread. -/
def Next (R : Steps Tid Pc Sh) (c c' : Config Tid Pc Sh) : Prop :=
  ∃ t sh p, R c t sh p ∧ c' = c.move t sh p

/-- Finitely many atomic steps, of any threads in any order. -/
abbrev Reach (R : Steps Tid Pc Sh) : Config Tid Pc Sh → Config Tid Pc Sh → Prop :=
  Relation.ReflTransGen (Next R)

/-- What every step preserves holds in every reachable configuration. -/
theorem invariant {R : Steps Tid Pc Sh} {I : Config Tid Pc Sh → Prop}
    (hstep : ∀ c t sh p, I c → R c t sh p → I (c.move t sh p))
    {c c' : Config Tid Pc Sh} (hc : I c) (h : Reach R c c') : I c' := by
  induction h with
  | refl => exact hc
  | tail _ hnext ih =>
    obtain ⟨t, sh, p, hR, rfl⟩ := hnext
    exact hstep _ t sh p ih hR

/-! ## Annotated control points -/

/-- `G` holds of the shared state, `A` of the shared state at the control point of every
thread, and any two threads stand at compatible control points. -/
structure Annotated (G : Sh → Prop) (A : Sh → Pc → Prop) (C : Pc → Pc → Prop)
    (c : Config Tid Pc Sh) : Prop where
  /-- The global invariant. -/
  global : G c.shared
  /-- The assertion at each thread's control point. -/
  local_ : ∀ t, A c.shared (c.pc t)
  /-- Two threads never stand at incompatible control points. -/
  compatible : ∀ t u, t ≠ u → C (c.pc t) (c.pc u)

/-- A step keeps the annotation when it is locally correct, does not interfere with the
assertion of any other thread, and reaches a control point compatible with the others. -/
theorem Annotated.move {G : Sh → Prop} {A : Sh → Pc → Prop} {C : Pc → Pc → Prop}
    (hsymm : ∀ p q, C p q → C q p) {c : Config Tid Pc Sh} (hc : Annotated G A C c)
    {t : Tid} {sh : Sh} {p : Pc} (hG : G sh) (hA : A sh p)
    (hothers : ∀ u, u ≠ t → A sh (c.pc u) ∧ C p (c.pc u)) :
    Annotated G A C (c.move t sh p) where
  global := hG
  local_ := by
    intro u
    -- local correctness for the thread that moved, interference freedom for the others
    rcases eq_or_ne u t with rfl | hu
    · rw [Config.move_pc_self]
      exact hA
    · rw [Config.move_pc_of_ne _ _ _ hu]
      exact (hothers u hu).1
  compatible := by
    intro u v huv
    -- at most one of the two threads has moved
    rcases eq_or_ne u t with rfl | hu
    · rw [Config.move_pc_self, Config.move_pc_of_ne _ _ _ huv.symm]
      exact (hothers v huv.symm).2
    · rcases eq_or_ne v t with rfl | hv
      · rw [Config.move_pc_self, Config.move_pc_of_ne _ _ _ hu]
        exact hsymm _ _ (hothers u hu).2
      · rw [Config.move_pc_of_ne _ _ _ hu, Config.move_pc_of_ne _ _ _ hv]
        exact hc.compatible u v huv

/-! ## Deterministic threads

Threads whose atomic steps are a function of an input, of their control point and of the
shared state; `Allowed` says which inputs a thread may take in a configuration. -/

section Inputs

variable {ι : Type*}

/-- The steps of such threads. -/
def stepsOf (act : ι → Pc → Sh → Sh × Pc) (Allowed : Config Tid Pc Sh → Tid → ι → Prop) :
    Steps Tid Pc Sh :=
  fun c t sh p => ∃ i, Allowed c t i ∧ (sh, p) = act i (c.pc t) c.shared

/-- One input of one thread. -/
def Config.act (act : ι → Pc → Sh → Sh × Pc) (c : Config Tid Pc Sh) (ti : Tid × ι) :
    Config Tid Pc Sh :=
  c.move ti.1 (act ti.2 (c.pc ti.1) c.shared).1 (act ti.2 (c.pc ti.1) c.shared).2

/-- The configuration after a schedule. -/
def play (act : ι → Pc → Sh → Sh × Pc) : Config Tid Pc Sh → List (Tid × ι) → Config Tid Pc Sh
  | c, [] => c
  | c, ti :: rest => play act (c.act act ti) rest

/-- Every input of the schedule is allowed when its turn comes. -/
def Permitted (act : ι → Pc → Sh → Sh × Pc) (Allowed : Config Tid Pc Sh → Tid → ι → Prop) :
    Config Tid Pc Sh → List (Tid × ι) → Prop
  | _, [] => True
  | c, ti :: rest => Allowed c ti.1 ti.2 ∧ Permitted act Allowed (c.act act ti) rest

instance Permitted.decidable {act : ι → Pc → Sh → Sh × Pc}
    {Allowed : Config Tid Pc Sh → Tid → ι → Prop} [∀ c t i, Decidable (Allowed c t i)] :
    ∀ c schedule, Decidable (Permitted act Allowed c schedule)
  | _, [] => isTrue trivial
  | c, ti :: rest =>
    have : Decidable (Permitted act Allowed (c.act act ti) rest) := Permitted.decidable _ rest
    inferInstanceAs (Decidable (Allowed c ti.1 ti.2 ∧ _))

theorem reach_play {act : ι → Pc → Sh → Sh × Pc}
    {Allowed : Config Tid Pc Sh → Tid → ι → Prop} {schedule : List (Tid × ι)} :
    ∀ {c : Config Tid Pc Sh}, Permitted act Allowed c schedule →
      Reach (stepsOf act Allowed) c (play act c schedule) := by
  induction schedule with
  | nil => exact fun _ => .refl
  | cons ti rest ih =>
    intro c h
    exact .head ⟨ti.1, _, _, ⟨ti.2, h.1, rfl⟩, rfl⟩ (ih h.2)

end Inputs

end DTIO.Interleaving
