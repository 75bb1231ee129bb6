import Mathlib.Logic.Function.Basic
import Mathlib.Order.Nat

/-!
# Namespaces

Objects with links by name.  A path is resolved link by link.  Where all links lead upwards in an
order of the objects, a path that leads to an object does not meet the links of this object, so
binding one of them leaves the path as it is.

## Main definitions

- `Links`, `resolve`, `Links.put`: links, paths, and a new link
- `Meets`: a path meets a link
- `Ascending`: links lead upwards

## Main results

- `resolve_put_of_not_meets`: a path that does not meet a link does not depend on it
- `Ascending.resolve_put_last`: a new link at the end of a path is found there
- `Ascending.length_le`: how long a path can be
-/

namespace DTIO.Namespace

variable {α ν κ : Type*}

/-! ## Paths -/

/-- The links of each object. -/
abbrev Links (α ν : Type*) := α → ν → Option α

/-- From an object along the names of a path. -/
def resolve (l : Links α ν) : α → List ν → Option α
  | a, [] => some a
  | a, n :: ns => (l a n).bind fun b => resolve l b ns

@[simp] theorem resolve_nil (l : Links α ν) (a : α) : resolve l a [] = some a := rfl

theorem resolve_cons_some {l : Links α ν} {a b : α} {n : ν} (h : l a n = some b) (ns : List ν) :
    resolve l a (n :: ns) = resolve l b ns := by
  rw [resolve, h, Option.bind_some]

theorem resolve_append (l : Links α ν) (a : α) (ns ms : List ν) :
    resolve l a (ns ++ ms) = (resolve l a ns).bind fun b => resolve l b ms := by
  induction ns generalizing a with
  | nil => rfl
  | cons n ns ih =>
    rw [List.cons_append, resolve, resolve, Option.bind_assoc]
    exact congrArg _ (funext ih)

/-! ## New links -/

section Put

variable [DecidableEq α] [DecidableEq ν]

/-- Another target for one link. -/
def Links.put (l : Links α ν) (x : α) (m : ν) (b : α) : Links α ν :=
  Function.update l x (Function.update (l x) m (some b))

theorem Links.put_apply (l : Links α ν) (x : α) (m : ν) (b a : α) (n : ν) :
    l.put x m b a n = if a = x ∧ n = m then some b else l a n := by
  unfold Links.put
  by_cases ha : a = x
  · subst ha
    by_cases hn : n = m
    · simp [hn]
    · simp [hn]
  · simp [ha]

@[simp] theorem Links.put_self (l : Links α ν) (x : α) (m : ν) (b : α) :
    l.put x m b x m = some b := by
  simp [Links.put]

theorem Links.put_of_ne (l : Links α ν) {x a : α} {m n : ν} (b : α) (h : ¬ (a = x ∧ n = m)) :
    l.put x m b a n = l a n := by
  rw [Links.put_apply, if_neg h]

end Put

/-- The path meets the link `m` of `x`. -/
inductive Meets (l : Links α ν) (x : α) (m : ν) : α → List ν → Prop
  | here (ns : List ν) : Meets l x m x (m :: ns)
  | later {a b : α} {n : ν} {ns : List ν} : l a n = some b → Meets l x m b ns →
    Meets l x m a (n :: ns)

/-- A path that meets a link has its name. -/
theorem Meets.mem {l : Links α ν} {x a : α} {m : ν} {ns : List ν} (h : Meets l x m a ns) :
    m ∈ ns := by
  induction h with
  | here ns => exact List.mem_cons_self
  | later _ _ ih => exact List.mem_cons_of_mem _ ih

section Frame

variable [DecidableEq α] [DecidableEq ν] {l : Links α ν} {x a b c : α} {m n : ν} {ns : List ν}

/-- **Frame.**  A path depends on the links that it meets. -/
theorem resolve_put_of_not_meets (h : ¬ Meets l x m a ns) (b : α) :
    resolve (l.put x m b) a ns = resolve l a ns := by
  induction ns generalizing a with
  | nil => rfl
  | cons n ns ih =>
    have hne : ¬ (a = x ∧ n = m) := by
      rintro ⟨rfl, rfl⟩
      exact h (.here ns)
    rw [resolve, resolve, Links.put_of_ne l b hne]
    cases hlink : l a n with
    | none => rfl
    | some c => exact ih fun hmeets => h (.later hlink hmeets)

end Frame

/-! ## Links that lead upwards -/

/-- Every link leads to a higher object. -/
def Ascending [LT κ] (rank : α → κ) (l : Links α ν) : Prop :=
  ∀ a n b, l a n = some b → rank a < rank b

namespace Ascending

section Preorder

variable [Preorder κ] {rank : α → κ} {l : Links α ν} (h : Ascending rank l)
include h

/-- A path leads upwards. -/
theorem le_of_resolve {ns : List ν} : ∀ {a b : α}, resolve l a ns = some b → rank a ≤ rank b := by
  induction ns with
  | nil =>
    intro a b hr
    exact (congrArg rank (Option.some.inj hr)).le
  | cons n ns ih =>
    intro a b hr
    obtain ⟨c, hc, hrest⟩ := Option.bind_eq_some_iff.mp hr
    exact (h a n c hc).le.trans (ih hrest)

/-- A path with a name does not lead to where it begins. -/
theorem lt_of_resolve {a b : α} {n : ν} {ns : List ν} (hr : resolve l a (n :: ns) = some b) :
    rank a < rank b := by
  obtain ⟨c, hc, hrest⟩ := Option.bind_eq_some_iff.mp hr
  exact (h a n c hc).trans_le (h.le_of_resolve hrest)

/-- A path meets no link of the object that it leads to. -/
theorem not_meets {ns : List ν} {a b : α} (hr : resolve l a ns = some b) (m : ν) :
    ¬ Meets l b m a ns := by
  intro hmeets
  induction hmeets with
  | here ns => exact lt_irrefl _ (h.lt_of_resolve hr)
  | later hlink _ ih => exact ih ((resolve_cons_some hlink _).symm.trans hr)

variable [DecidableEq α] [DecidableEq ν]

/-- A new link that leads upwards. -/
theorem put {a b : α} (n : ν) (hlt : rank a < rank b) : Ascending rank (l.put a n b) := by
  intro x m c hput
  rw [Links.put_apply] at hput
  split at hput
  · next heq =>
    obtain ⟨rfl, rfl⟩ := heq
    exact Option.some.inj hput ▸ hlt
  · exact h x m c hput

/-- The path to an object stays when a link of the object is bound. -/
theorem resolve_put {ns : List ν} {a p : α} (hr : resolve l a ns = some p) (m : ν) (b : α) :
    resolve (l.put p m b) a ns = some p :=
  (resolve_put_of_not_meets (h.not_meets hr m) b).trans hr

/-- **A new link is found** at the end of the path to its object. -/
theorem resolve_put_last {ns : List ν} {a p : α} (hr : resolve l a ns = some p) (m : ν) (b : α) :
    resolve (l.put p m b) a (ns ++ [m]) = some b := by
  rw [resolve_append, h.resolve_put hr, Option.bind_some, resolve, Links.put_self,
    Option.bind_some, resolve_nil]

end Preorder

/-- A path has at most as many names as there are steps between the ranks of its ends. -/
theorem length_le {rank : α → Nat} {l : Links α ν} (h : Ascending rank l) {ns : List ν} :
    ∀ {a b : α}, resolve l a ns = some b → rank a + ns.length ≤ rank b := by
  induction ns with
  | nil =>
    intro a b hr
    exact (congrArg rank (Option.some.inj hr)).le
  | cons n ns ih =>
    intro a b hr
    obtain ⟨c, hc, hrest⟩ := Option.bind_eq_some_iff.mp hr
    have hstep := h a n c hc
    have hlen := ih hrest
    rw [List.length_cons]
    omega

end Ascending

end DTIO.Namespace
