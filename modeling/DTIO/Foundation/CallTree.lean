import Mathlib.Data.Fintype.Card
import Mathlib.Data.Set.Finite.Basic
import Mathlib.Logic.Relation
import Mathlib.Order.WellFounded

/-!
# Recursion on a Stack

A recursive function whose calls depend on what earlier calls return.  With room for a number of
its calls on the stack at once, an evaluation returns or runs out of stack.

## Main definitions

- `Prog`: the body of a function, a tree of calls
- `eval`: the function, with a bound for the calls on the stack
- `CallsTo`: one call makes another

## Main results

- `returns_iff_acc`: a call returns if and only if no chain of calls from it goes on forever
- `acc_iff_no_cycle`: if finitely many arguments make calls, only cycles go on forever
-/

namespace DTIO.CallTree

universe u w

/-- The body of a recursive function: it returns, or calls the function and goes on with the
result. -/
inductive Prog (V : Type u) (R : Type w) where
  | ret (r : R)
  | call (v : V) (k : R → Prog V R)

variable {V : Type u} {R : Type w}

namespace Prog

/-- A body where `f` stands for the function; there is no result if a call has none. -/
def run (f : V → Option R) : Prog V R → Option R
  | ret r => some r
  | call v k => (f v).bind fun r => (k r).run f

theorem run_mono {f g : V → Option R} (hfg : ∀ v r, f v = some r → g v = some r) {p : Prog V R}
    {r : R} (h : p.run f = some r) : p.run g = some r := by
  induction p with
  | ret r' => exact h
  | call v k ih =>
    obtain ⟨r', hf, hk⟩ := Option.bind_eq_some_iff.mp h
    exact Option.bind_eq_some_iff.mpr ⟨r', hfg v r' hf, ih r' hk⟩

theorem run_call_ret (f : V → Option R) (v : V) : (call v ret).run f = f v := by
  cases h : f v with
  | none => simp [run, h]
  | some r => simp [run, h]

/-- The calls of a body, where `returns` tells what calls return. -/
inductive Calls (returns : V → R → Prop) : Prog V R → V → Prop
  | here {v : V} {k : R → Prog V R} : Calls returns (call v k) v
  | later {v v' : V} {r : R} {k : R → Prog V R} :
      returns v r → Calls returns (k r) v' → Calls returns (call v k) v'

theorem Calls.mono {returns returns' : V → R → Prop} (hle : ∀ v r, returns v r → returns' v r)
    {p : Prog V R} {v : V} (h : p.Calls returns v) : p.Calls returns' v := by
  induction h with
  | here => exact .here
  | later hreturns _ ih => exact .later (hle _ _ hreturns) ih

end Prog

/-- The function with the body `body`; at most `depth` of its calls fit on the stack. -/
def eval (body : V → Prog V R) : Nat → V → Option R
  | 0, _ => none
  | depth + 1, v => (body v).run (eval body depth)

section Eval

variable {body : V → Prog V R} {v v' : V} {r r' : R} {d d' : Nat}

theorem eval_succ (h : eval body d v = some r) : eval body (d + 1) v = some r := by
  induction d generalizing v r with
  | zero => cases h
  | succ d ih => exact Prog.run_mono (fun _ _ => ih) h

theorem eval_mono (hle : d ≤ d') (h : eval body d v = some r) : eval body d' v = some r := by
  induction hle with
  | refl => exact h
  | step _ ih => exact eval_succ ih

/-- A call returns `r`, with enough stack. -/
def Returns (body : V → Prog V R) (v : V) (r : R) : Prop := ∃ depth, eval body depth v = some r

theorem Returns.unique (h : Returns body v r) (h' : Returns body v r') : r = r' := by
  obtain ⟨d, h⟩ := h
  obtain ⟨d', h'⟩ := h'
  have hmax := eval_mono (le_max_left d d') h
  rw [eval_mono (le_max_right d d') h'] at hmax
  exact (Option.some.inj hmax).symm

/-- The call with `v` makes a call with `v'`. -/
def CallsTo (body : V → Prog V R) (v v' : V) : Prop := (body v).Calls (Returns body) v'

/-- A body ends with `r`, with enough stack. -/
def Ends (body : V → Prog V R) (p : Prog V R) (r : R) : Prop :=
  ∃ depth, p.run (eval body depth) = some r

theorem run_mono_depth {p : Prog V R} (hle : d ≤ d') (h : p.run (eval body d) = some r) :
    p.run (eval body d') = some r :=
  Prog.run_mono (fun _ _ => eval_mono hle) h

theorem Ends.unique {p : Prog V R} (h : Ends body p r) (h' : Ends body p r') : r = r' := by
  obtain ⟨d, h⟩ := h
  obtain ⟨d', h'⟩ := h'
  have hmax := run_mono_depth (le_max_left d d') h
  rw [run_mono_depth (le_max_right d d') h'] at hmax
  exact (Option.some.inj hmax).symm

/-- A body that returns has results of all its calls. -/
theorem calls_eval {p : Prog V R} (h : p.run (eval body d) = some r)
    (hcalls : p.Calls (Returns body) v') : ∃ r', eval body d v' = some r' := by
  induction hcalls with
  | here =>
    obtain ⟨r', hf, -⟩ := Option.bind_eq_some_iff.mp h
    exact ⟨r', hf⟩
  | later hreturns _ ih =>
    obtain ⟨r', hf, hk⟩ := Option.bind_eq_some_iff.mp h
    obtain rfl := hreturns.unique ⟨d, hf⟩
    exact ih hk

/-- A body whose calls all return does, with enough stack. -/
theorem exists_ends {p : Prog V R}
    (h : ∀ v', p.Calls (Returns body) v' → ∃ r', Returns body v' r') : ∃ r, Ends body p r := by
  induction p with
  | ret r => exact ⟨r, 0, rfl⟩
  | call v k ih =>
    obtain ⟨r, d, hd⟩ := h v .here
    obtain ⟨r', d', hd'⟩ := ih r fun v' hv' => h v' (.later ⟨d, hd⟩ hv')
    refine ⟨r', max d d', Option.bind_eq_some_iff.mpr ⟨r, eval_mono (le_max_left ..) hd, ?_⟩⟩
    exact run_mono_depth (le_max_right ..) hd'

/-- **Termination.**  A call returns if and only if every chain of calls from it ends. -/
theorem returns_iff_acc :
    (∃ r, Returns body v r) ↔ Acc (fun v' v => CallsTo body v v') v := by
  constructor
  · rintro ⟨r, d, h⟩
    induction d generalizing v r with
    | zero => cases h
    | succ d ih =>
      refine Acc.intro v fun v' hcalls => ?_
      obtain ⟨r', h'⟩ := calls_eval h hcalls
      exact ih r' h'
  · intro hacc
    induction hacc with
    | intro v _ ih =>
      obtain ⟨r, d, h⟩ := exists_ends ih
      exact ⟨r, d + 1, h⟩

end Eval

/-! ## Cycles -/

/-- Nothing accessible is below itself. -/
theorem not_self_of_acc {α : Type u} {r : α → α → Prop} {a : α} (h : Acc r a) : ¬ r a a := by
  induction h with
  | intro a _ ih => exact fun haa => ih a haa haa

/-- Where finitely many elements have successors and none of them is below itself, all are
accessible. -/
theorem wellFounded_of_no_cycle {α : Type u} {r : α → α → Prop} {T : Set α} (hfin : T.Finite)
    (hacyclic : ∀ b ∈ T, ¬ Relation.TransGen r b b) :
    WellFounded fun b a : T => Relation.TransGen r (a : α) b := by
  have : Finite T := hfin
  have : IsTrans T fun b a : T => Relation.TransGen r (a : α) b :=
    ⟨fun _ _ _ hba hcb => hcb.trans hba⟩
  have : Std.Irrefl fun b a : T => Relation.TransGen r (a : α) b :=
    ⟨fun b hb => hacyclic b b.2 hb⟩
  exact Finite.wellFounded_of_trans_of_irrefl _

/-- If finitely many elements have successors, exactly the elements that reach no cycle are
accessible. -/
theorem acc_iff_no_cycle {α : Type u} {r : α → α → Prop} {S : Set α} (hfin : S.Finite)
    (hS : ∀ a b, r a b → a ∈ S) {a : α} :
    Acc (fun b a => r a b) a ↔
      ∀ b, Relation.ReflTransGen r a b → ¬ Relation.TransGen r b b := by
  constructor
  · intro hacc b hreach hcycle
    have hb : Acc (fun b a => r a b) b := by
      clear hcycle
      induction hreach with
      | refl => exact hacc
      | tail _ hstep ih => exact ih.inv hstep
    exact not_self_of_acc hb.transGen (Relation.transGen_swap.mpr hcycle)
  · intro hacyclic
    -- the elements that are reached and have successors
    have hwf := wellFounded_of_no_cycle (hfin.subset (Set.sep_subset S fun b =>
      Relation.ReflTransGen r a b)) (fun b hb => hacyclic b hb.2)
    have hreached : ∀ b : {b ∈ S | Relation.ReflTransGen r a b}, Acc (fun b a => r a b) b.1 := by
      intro b
      induction b using hwf.induction with
      | _ b ih =>
        refine Acc.intro _ fun b' hstep => ?_
        have hreach' : Relation.ReflTransGen r a b' := b.2.2.tail hstep
        by_cases hb' : b' ∈ S
        · exact ih ⟨b', hb', hreach'⟩ (.single hstep)
        · exact Acc.intro _ fun b'' hstep' => absurd (hS _ _ hstep') hb'
    by_cases ha : a ∈ S
    · exact hreached ⟨a, ha, .refl⟩
    · exact Acc.intro _ fun b hstep => absurd (hS _ _ hstep) ha

end DTIO.CallTree
