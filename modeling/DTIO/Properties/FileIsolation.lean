import DTIO.Properties.SharedStore
import DTIO.Properties.TreeRuns

/-!
# Files Do Not Interfere

All files and all datasets are in one store, but what comes of the calls on one file and on its
datasets does not depend on the calls on others: without these, the same calls succeed, and get what
the same contents permit.

## Main definitions

- `concerns`, `own`: the calls on a file and on its datasets
- `Same`: contents that agree on a file

## Main results

- `step_own`, `step_other`: one call
- `files_isolated`: runs
-/

namespace DTIO.Properties.FileIsolation

open DTIO.Posix DTIO.Vol
open DTIO.Properties.TreeTraversal DTIO.Properties.TreeRefinement DTIO.Properties.TreeRuns
open DTIO.Properties.ChunkedStorage DTIO.Properties.DatasetReads DTIO.Properties.SharedStore

variable {P ι : Type} {ds : Datasets ι} {w : Process P} {name : FileName}

/-! ## The calls on one file -/

/-- A call on a file, or on a dataset of it. -/
def concerns (name : FileName) : Event P ds → Bool
  | .file name' _ => name' = name
  | .write _ i _ => (ds.dataset i).fileName = name.name
  | .read _ i _ _ => (ds.dataset i).fileName = name.name

def own (name : FileName) (es : List (Event P ds)) : List (Event P ds) :=
  es.filter (concerns name)

/-- What comes of these calls among all. -/
def ownOf {α : Type} (name : FileName) : List (Event P ds) → List α → List α
  | e :: es, x :: xs => if concerns name e then x :: ownOf name es xs else ownOf name es xs
  | _, _ => []

/-! ## Trees -/

section Trees

variable {forest forest' : Forest P} {op : FileOp P}

/-- A call depends on the tree of its file. -/
theorem forest_step_own (hsame : forest' name = forest name) {r : PathReply P × Forest P}
    (h : forest.step (name, op) = .ok r) :
    ∃ next, forest'.step (name, op) = .ok (r.1, next) ∧ next name = r.2 name := by
  cases op with
  | create flags collective fcpl numProcs sched =>
    obtain rfl := Except.ok.inj h
    refine ⟨_, rfl, ?_⟩
    show Function.update forest' name _ name = Function.update forest name _ name
    rw [Function.update_self, Function.update_self]
  | call op =>
    obtain ⟨f, f', hf, hstep, hr⟩ := call_ok h
    refine ⟨Function.update forest' name (some f'), ?_, ?_⟩
    · show forest'.call name op = _
      rw [Forest.call_eq (hsame.trans hf), hstep]
      rfl
    · rw [hr, Function.update_self, Function.update_self]

/-- It leaves the other trees. -/
theorem forest_step_other {name' : FileName} (hne : name ≠ name') {r : PathReply P × Forest P}
    (h : forest.step (name', op) = .ok r) : r.2 name = forest name := by
  cases op with
  | create flags collective fcpl numProcs sched =>
    obtain rfl := Except.ok.inj h
    exact Function.update_of_ne hne ..
  | call op =>
    obtain ⟨f, f', -, -, hr⟩ := call_ok h
    rw [hr]
    exact Function.update_of_ne hne ..

theorem specified_own (hsame : forest' name = forest name)
    (h : forest.Specified w (name, op)) : forest'.Specified w (name, op) := by
  cases op with
  | create flags collective fcpl numProcs sched => exact ⟨hsame.trans h.1, h.2⟩
  | call op => exact fun t ht => h t (hsame.symm.trans ht)

end Trees

/-! ## Contents -/

variable (ds) in
/-- Contents with the same tree of a file and the same arrays of its datasets. -/
structure Same (name : FileName) (c c' : Contents P ι) : Prop where
  tree : c'.forest name = c.forest name
  arrays : ∀ i, (ds.dataset i).fileName = name.name → c'.arrays i = c.arrays i

section Step

variable [DecidableEq ι] {c c' : Contents P ι} {e : Event P ds}
  {r : (Reply P → Prop) × Contents P ι}

/-- A call on the file permits the same replies. -/
theorem step_own (h : Same ds name c c') (hown : concerns name e = true)
    (hstep : c.step e = .ok r) :
    ∃ next, c'.step e = .ok (r.1, next) ∧ Same ds name r.2 next := by
  cases e with
  -- a call on the file: both forests have the same tree for it
  | file name' op =>
    obtain rfl : name' = name := of_decide_eq_true hown
    obtain ⟨x, hx, rfl⟩ := map_eq_ok.mp hstep
    obtain ⟨next, hnext, hsame⟩ := forest_step_own h.tree hx
    refine ⟨{ c' with forest := next }, ?_, hsame, h.arrays⟩
    rw [Contents.step, hnext]
    rfl
  -- a write to one of its datasets: both arrays change alike
  | write env i a =>
    have hi : (ds.dataset i).fileName = name.name := of_decide_eq_true hown
    obtain rfl := Except.ok.inj hstep
    refine ⟨_, rfl, h.tree, fun j hj => ?_⟩
    by_cases hij : j = i
    · subst hij
      simp only [Function.update_self, h.arrays j hj]
    · simp only [Function.update_of_ne hij, h.arrays j hj]
  -- a read changes no content
  | read env i a target =>
    have hi : (ds.dataset i).fileName = name.name := of_decide_eq_true hown
    obtain rfl := Except.ok.inj hstep
    refine ⟨c', ?_, h⟩
    simp only [Contents.step, h.arrays i hi]

/-- A call on another file leaves this one. -/
theorem step_other (h : Same ds name c c') (hother : concerns name e = false)
    (hstep : c.step e = .ok r) : Same ds name r.2 c' := by
  cases e with
  | file name' op =>
    have hne : name ≠ name' := fun heq => of_decide_eq_false hother heq.symm
    obtain ⟨x, hx, rfl⟩ := map_eq_ok.mp hstep
    exact ⟨h.tree.trans (forest_step_other hne hx).symm, h.arrays⟩
  | write env i a =>
    have hi : ¬ (ds.dataset i).fileName = name.name := of_decide_eq_false hother
    obtain rfl := Except.ok.inj hstep
    refine ⟨h.tree, fun j hj => ?_⟩
    have hij : j ≠ i := by
      rintro rfl
      exact hi hj
    exact (h.arrays j hj).trans (Function.update_of_ne hij ..).symm
  | read env i a target =>
    obtain rfl := Except.ok.inj hstep
    exact h

end Step

/-! ## Runs -/

/-- By induction on all calls. -/
theorem run_own [DecidableEq ι] {es : List (Event P ds)} :
    ∀ {c c' : Contents P ι} {r : List (Reply P → Prop) × Contents P ι}, Same ds name c c' →
      c.forest.Admits w (fileOps es) → (∀ e ∈ es, e.Room) → c.run es = .ok r →
      c'.forest.Admits w (fileOps (own name es)) ∧
        ∃ next, c'.run (own name es) = .ok (ownOf name es r.1, next) := by
  induction es with
  | nil => exact fun _ _ _ hrun => ⟨trivial, _, by cases hrun; rfl⟩
  | cons e es ih =>
    intro c c' r h hadmits hroom hrun
    obtain ⟨x, hstep, hrun⟩ := bind_eq_ok.mp hrun
    obtain ⟨rest, hrest, hr⟩ := bind_eq_ok.mp hrun
    obtain rfl := Except.ok.inj hr
    obtain ⟨-, hnext⟩ := admits_step hadmits (hroom e List.mem_cons_self)
    have hroom' : ∀ e ∈ es, e.Room := fun e' he' => hroom e' (List.mem_cons_of_mem _ he')
    by_cases hown : concerns name e = true
    · -- the call is made in both runs and leaves contents that agree
      obtain ⟨next, hnext', hsame⟩ := step_own h hown hstep
      obtain ⟨hadmits', last, hlast⟩ := ih hsame (hnext x hstep) hroom' hrest
      have hfilter : own name (e :: es) = e :: own name es := List.filter_cons_of_pos hown
      refine ⟨?_, last, ?_⟩
      · rw [hfilter]
        cases e with
        | file name' op =>
          obtain rfl : name' = name := of_decide_eq_true hown
          refine ⟨specified_own h.tree hadmits.1, fun r' hr' => ?_⟩
          obtain ⟨y, hy, hy'⟩ := map_eq_ok.mp hnext'
          obtain rfl := Except.ok.inj (hy.symm.trans hr')
          rw [← (Prod.mk.inj hy').2] at hadmits'
          exact hadmits'
        | write env i a =>
          rw [← (Prod.mk.inj (Except.ok.inj hnext')).2] at hadmits'
          exact hadmits'
        | read env i a target =>
          rw [← (Prod.mk.inj (Except.ok.inj hnext')).2] at hadmits'
          exact hadmits'
      · rw [hfilter, Contents.run, hnext', ok_bind, hlast, ownOf, if_pos hown]
        rfl
    · -- the call is left out, and the contents agree without it
      have hother : concerns name e = false := eq_false_of_ne_true hown
      obtain ⟨hadmits', last, hlast⟩ :=
        ih (step_other h hother hstep) (hnext x hstep) hroom' hrest
      have hfilter : own name (e :: es) = own name es := List.filter_cons_of_neg hown
      rw [hfilter, ownOf, if_neg hown]
      exact ⟨hadmits', last, hlast⟩

/-- The replies to the calls on the file. -/
theorem forall₂_ownOf {oks : List (Reply P → Prop)} {replies : List (Reply P)}
    (h : List.Forall₂ (fun ok reply => ok reply) oks replies) (es : List (Event P ds)) :
    List.Forall₂ (fun ok reply => ok reply) (ownOf name es oks) (ownOf name es replies) := by
  induction h generalizing es with
  | nil =>
    cases es with
    | nil => exact .nil
    | cons e es => exact .nil
  | cons hreply _ ih =>
    cases es with
    | nil => exact .nil
    | cons e es =>
      unfold ownOf
      by_cases hown : concerns name e = true
      · rw [if_pos hown, if_pos hown]
        exact .cons hreply (ih es)
      · rw [if_neg hown, if_neg hown]
        exact ih es

/-- **Files do not interfere.**  In any run of calls on any number of files that trees specify, and
of writes and reads of their datasets, take the calls that concern one file.  Without all the others
they succeed too, and what is permitted as replies to them then, which is one reply only for each
call on the file, is what they get in the whole run. -/
theorem files_isolated [DecidableEq ι] (hdepth : 0 < w.depth) {store : MdStore}
    (hlinks : ∀ key n, store.links key n = []) {es : List (Event P ds)}
    (hadmits : Forest.Admits w (fun _ => none) (fileOps es)) (hroom : ∀ e ∈ es, e.Room)
    {replies : List (Reply P)} {v : Volume P}
    (hrun : run w ⟨store, fun _ => none⟩ es = .ok (replies, v)) (name : FileName) :
    ∃ oks c replies' v', Contents.empty.run (own name es) = .ok (oks, c) ∧
      run w ⟨store, fun _ => none⟩ (own name es) = .ok (replies', v') ∧
      List.Forall₂ (fun ok reply => ok reply) oks replies' ∧
      List.Forall₂ (fun ok reply => ok reply) oks (ownOf name es replies) := by
  obtain ⟨r, hr, hreplies, -⟩ :=
    (run_spec hdepth (has_empty w ds hlinks) hadmits hroom).of_ok hrun
  have hsame : Same ds name (Contents.empty : Contents P ι) Contents.empty := ⟨rfl, fun _ _ => rfl⟩
  obtain ⟨hadmits', c, hown⟩ := run_own hsame hadmits hroom hr
  -- the calls that concern the file, on their own
  have hroom' : ∀ e ∈ own name es, e.Room := fun e he => hroom e (List.mem_filter.mp he).1
  have hspec := run_spec hdepth (has_empty w ds hlinks) hadmits' hroom'
  rw [hown] at hspec
  obtain ⟨x, hx, hreplies', -⟩ := hspec
  exact ⟨_, c, x.1, x.2, hown, hx, hreplies', forall₂_ownOf hreplies es⟩

/-! ## A dataset of another file -/

/-- The same dataset in another file. -/
def foreign : ArrayDataset := { nine with fileName := ['g'] }

def twoFiles : Datasets Bool where
  dataset i := if i then foreign else nine
  distinct := by
    intro i j hij
    cases i with
    | true =>
      cases j with
      | true => exact absurd rfl hij
      | false => exact Or.inl (by decide)
    | false =>
      cases j with
      | true => exact Or.inl (by decide)
      | false => exact absurd rfl hij

/-- All elements of the dataset of the other file. -/
def foreignWrite : ArrayWrite foreign where
  fileSpace := none
  memSpace := none
  buf := fun _ => 7
  file_valid := Dataspace.valid_all nine.count
  file_extent := rfl
  mem_valid := Dataspace.valid_all nine.count
  mem_rank := rfl
  same_shape := of_decide_eq_true rfl
  bytes_lt := of_decide_eq_true rfl

/-- Around each call on the file, a dataset of it and that of the other file are written, and the
first is read. -/
def mixedEvents : List (Event Byte twoFiles) :=
  demoOps.flatMap fun x => [.write plain true foreignWrite, .file x.1 x.2,
    .write plain false wholeWrite, .read plain false rowRead ⟨List.replicate 16 9, []⟩]

theorem fileOps_mixedEvents : fileOps mixedEvents = demoOps := rfl

theorem room_mixedEvents : ∀ e ∈ mixedEvents, e.Room := by
  intro e he
  obtain ⟨x, -, he⟩ := List.mem_flatMap.mp he
  simp only [List.mem_cons, List.not_mem_nil, or_false] at he
  rcases he with rfl | rfl | rfl | rfl
  · exact trivial
  · exact trivial
  · exact trivial
  · show ∀ m ∈ rowRead.mem.points, _
    decide

theorem files_isolated_demo : ∃ replies v,
    run demo ⟨ObjectIds.emptyStore, fun _ => none⟩ mixedEvents = .ok (replies, v) ∧
    ∃ oks c replies' v',
      Contents.empty.run (own ObjectIds.nameF mixedEvents) = .ok (oks, c) ∧
      run demo ⟨ObjectIds.emptyStore, fun _ => none⟩ (own ObjectIds.nameF mixedEvents) =
        .ok (replies', v') ∧
      List.Forall₂ (fun ok reply => ok reply) oks replies' ∧
      List.Forall₂ (fun ok reply => ok reply) oks (ownOf ObjectIds.nameF mixedEvents replies) := by
  have hdepth : 0 < demo.depth := by decide
  have hlinks : ∀ key n, ObjectIds.emptyStore.links key n = [] := fun _ _ => rfl
  have hadmits : Forest.Admits demo (fun _ => none) (fileOps mixedEvents) := by
    rw [fileOps_mixedEvents]
    exact admits_demo
  obtain ⟨r, hr⟩ : ∃ r, Contents.empty.run mixedEvents = .ok r := ⟨_, rfl⟩
  have hspec := run_spec hdepth (has_empty demo twoFiles hlinks) hadmits room_mixedEvents
  rw [hr] at hspec
  obtain ⟨x, hrun, -⟩ := hspec
  exact ⟨x.1, x.2, hrun, files_isolated hdepth hlinks hadmits room_mixedEvents hrun
    ObjectIds.nameF⟩

end DTIO.Properties.FileIsolation
