import DTIO.Properties.OwnCalls

/-!
# Ranks That Do Not Wait for Each Other

Without collective metadata operations, all ranks of a file create the same objects and write the
same links, each when it gets there.  A rank that is behind reads a store that others have gone on
with; a rank that is ahead reads only what it has written itself.  If no name is bound twice and all
paths lead somewhere, no rank can tell how far the others are.

## Main definitions

- `Trace`: a sequence of calls in lockstep
- `Undisturbed`: what the ranks have and leave

## Main results

- `lawful`: no call reads what a later call writes, and all ranks write the same
- `own_time`: what every execution leaves
-/

namespace DTIO.Properties.IndependentRanks

open DTIO.Posix DTIO.Broadcast DTIO.Namespace DTIO.WriteOnce DTIO.Vol DTIO.Vol.LinkGraph
open DTIO.Properties.TreeTraversal DTIO.Properties.TreeRefinement DTIO.Properties.TreeRuns
open DTIO.Properties.OwnCalls

variable {P : Type} {w : Process P} {name : FileName}

/-! ## Sequences of calls -/

/-- The moments between the calls of a sequence. -/
structure Trace {n : Nat} (w : Process P) (name : FileName) (sched : Schedule)
    (ops : List (RankOp P)) (m : Nat → Moment P n) (reply : Nat → PathReply P)
    (steps : Nat → Fin n → RankStep P) (ws : Nat → List MdWrite) : Prop where
  ready : ∀ i ≤ ops.length, (m i).Ready w name
  advances : ∀ i (hi : i < ops.length),
    Advances w name sched ops[i] (m i) (m (i + 1)) (reply i) (steps i) (ws i)

/-- By induction on the calls. -/
theorem exists_trace {n : Nat} (hn : 0 < n) (hdepth : 0 < w.depth) {sched : Schedule}
    {ops : List (RankOp P)} {m₀ : Moment P n} (hm : m₀.Ready w name)
    (hapart : AllApart w sched m₀.tree ops) :
    ∃ m reply steps ws, m 0 = m₀ ∧ Trace w name sched ops m reply steps ws ∧
      m₀.file.run w (ops.map (·.together sched)) =
        .ok ((List.range ops.length).map reply, (m ops.length).file) := by
  obtain ⟨d, hd⟩ : ∃ d, w.depth = d + 1 := ⟨w.depth - 1, by omega⟩
  induction ops generalizing m₀ with
  | nil =>
    refine ⟨fun _ => m₀, fun _ => .done, fun _ t => ⟨.created 0, [], m₀.rank t⟩, fun _ => [], rfl,
      ⟨fun _ _ => hm, fun i hi => absurd hi (Nat.not_lt_zero i)⟩, rfl⟩
  | cons op ops ih =>
    -- one moment more in front of the ones that the later operations go through
    obtain ⟨m₁, r, k, out, hm₁, hadvances⟩ := @advance P w name n m₀ hm sched op d hd hn hapart.1
    obtain ⟨m, reply, steps, ws, hzero, htrace, hrun⟩ := ih hm₁ (hapart.2 _ hadvances.tree)
    refine ⟨fun i => i.casesOn m₀ m, fun i => i.casesOn r reply, fun i => i.casesOn k steps,
      fun i => i.casesOn out ws, rfl, ⟨?_, ?_⟩, ?_⟩
    · intro i hi
      cases i with
      | zero => exact hm
      | succ i => exact htrace.ready i (Nat.le_of_succ_le_succ hi)
    -- the first step is the new one, the others are those of the shorter run
    · intro i hi
      cases i with
      | zero =>
        rw [← hzero] at hadvances
        exact hadvances
      | succ i => exact htrace.advances i (Nat.lt_of_succ_lt_succ hi)
    · rw [List.map_cons, PathFile.run, hadvances.together, ok_bind, hrun, List.length_cons,
        List.range_succ_eq_map, List.map_cons, List.map_map]
      rfl

/-- The calls in lockstep. -/
def lockstepOf {n : Nat} (w : Process P) (name : FileName) (m : Nat → Moment P n)
    (steps : Nat → Fin n → RankStep P) (ws : Nat → List MdWrite) :
    Lockstep (Fin n) Cell (Option (List Byte)) (RankState P) where
  stage i := (m i).file.file.store.cell
  settled i := {k | ∃ v, Settled w name (m i).tree.tree k v}
  state t i := ⟨(m i).rank t, (List.range i).map fun j => (steps j t).reply⟩
  out _ i := (ws i).map MdWrite.cell

section Others

variable {n : Nat} {sched : Schedule} {op : RankOp P} {m m' : Moment P n} {reply : PathReply P}
  {steps : Fin n → RankStep P} {ws : List MdWrite} (hm : m.Ready w name) (hm' : m'.Ready w name)
  (h : Advances w name sched op m m' reply steps ws)
include hm hm' h

/-- What the tree does not have is left alone. -/
theorem cell_other {k : Cell} (hk : ∀ v, ¬ Settled w name m'.tree.tree k v) :
    m'.file.file.store.cell k = m.file.file.store.cell k := by
  cases k with
  | inl key =>
    refine h.others key fun data hmem => hk (some data) ?_
    exact h.adds.settles (List.mem_map_of_mem hmem)
  | inr x =>
    obtain ⟨key, n⟩ := x
    refine congrArg some ?_
    by_cases hkey : ∃ oid, key = keyOf name oid
    · -- no link before, and none after
      obtain ⟨oid, rfl⟩ := hkey
      have hnew : m'.tree.tree.links oid n = none := by
        by_contra hsome
        obtain ⟨b, hb⟩ := Option.ne_none_iff_exists'.mp hsome
        exact hk _ (.link hb)
      have hold : m.tree.tree.links oid n = none := by
        by_contra hsome
        obtain ⟨b, hb⟩ := Option.ne_none_iff_exists'.mp hsome
        exact hk _ (h.adds.grows (.link hb))
      rw [hm.represents.links, hm'.represents.links, hnew, hold]
    · have hsame := (h.elsewhere key fun oid heq => hkey ⟨oid, heq⟩).2
      exact congrFun hsame n

end Others

/-- **Threads that repeat each other's writes.**  No call reads what a later call writes, and all
ranks write the same. -/
theorem lawful {n : Nat} {sched : Schedule} {ops : List (RankOp P)} {m : Nat → Moment P n}
    {reply : Nat → PathReply P} {steps : Nat → Fin n → RankStep P} {ws : Nat → List MdWrite}
    (h : Trace w name sched ops m reply steps ws) :
    Lawful (ownProgram w n ops) (lockstepOf w name m steps ws) where
  grows i hi k := fun ⟨v, hv⟩ => ⟨v, (h.advances i hi).adds.grows hv⟩
  keeps i hi k := by
    rintro ⟨v, hv⟩
    -- what is settled has one value, before and after the call
    have hbefore := cell_settled (h.ready i hi.le).represents hv
    have hafter := cell_settled (h.ready (i + 1) hi).represents ((h.advances i hi).adds.grows hv)
    exact hafter.trans hbefore.symm
  writes i hi t x hx := by
    have hsettled := (h.advances i hi).adds.settles hx
    exact ⟨⟨x.2, hsettled⟩, cell_settled (h.ready (i + 1) hi).represents hsettled⟩
  complete i hi t k := by
    rintro ⟨v, hv⟩ hnew
    have hval := cell_settled (h.ready (i + 1) hi).represents hv
    -- what is new in the cell was written by the call
    show (k, (m (i + 1)).file.file.store.cell k) ∈ _
    rw [hval]
    exact ((h.advances i hi).adds.writes hv).resolve_left fun hold => hnew ⟨v, hold⟩
  others i hi k hk := cell_other (h.ready i hi.le) (h.ready (i + 1) hi) (h.advances i hi)
    fun v hv => hk ⟨v, hv⟩
  reads i hi t view hview := by
    -- a view that is right where the calls so far have settled is enough for the step
    have hstep := (h.advances i hi).alone t view fun k v hv =>
      (hview k ⟨v, hv⟩).trans (cell_settled (h.ready i hi.le).represents hv)
    have hop : ops[i]? = some ops[i] := List.getElem?_eq_getElem hi
    simp only [ownProgram, lockstepOf, hop, hstep, Except.toOption, Option.bind_eq_bind,
      Option.bind_some, (h.advances i hi).writes t, (h.advances i hi).rank t, List.range_succ,
      List.map_append, List.map_cons, List.map_nil]
    rfl

/-! ## All executions -/

/-- What the ranks have and leave at some point: no call that a rank comes to fails, whatever it
reads of the store; each rank has got what it gets in lockstep; and once some rank has finished, the
store is as after the calls in lockstep, and so are the handles of this rank. -/
structure Undisturbed {n : Nat} (w : Process P) (ops : List (RankOp P))
    (replies : List (PathReply P)) (s : PathFile P)
    (c : Config (Fin n) Cell (Option (List Byte)) (RankState P)) : Prop where
  total : ∀ t view op, (c.thread t).pending = [] → (c.thread t).Sees view →
    ops[(c.thread t).count]? = some op →
    ∃ k, (c.thread t).state.rank.step w n (.ofCells view) op = .ok k
  replies : ∀ t, (c.thread t).state.replies.map some =
    (replies.take (c.thread t).count).map (PathReply.of t.1)
  final : ∀ t, (c.thread t).count = ops.length → (c.thread t).pending = [] →
    MdStore.ofCells c.cells = s.file.store ∧ s.rank t = some (c.thread t).state.rank

section Executions

variable {n : Nat} {sched : Schedule} {ops : List (RankOp P)} {m : Nat → Moment P n}
  {reply : Nat → PathReply P} {steps : Nat → Fin n → RankStep P} {ws : Nat → List MdWrite}
  {c : Config (Fin n) Cell (Option (List Byte)) (RankState P)}

theorem undisturbed_of_trace (h : Trace w name sched ops m reply steps ws)
    (hreach : Reach (ownProgram w n ops) (start (m 0).file.file.store.cell fun t =>
      ⟨(m 0).rank t, []⟩) c) :
    Undisturbed w ops ((List.range ops.length).map reply) (m ops.length).file c := by
  have hgood : Good (ownProgram w n ops) (lockstepOf w name m steps ws) c :=
    invariant (lawful h) hreach
  constructor
  -- what a rank has read is what the lockstep run settles before its operation
  · intro t view op hdone hview hop
    obtain ⟨hlt, rfl⟩ := List.getElem?_eq_some_iff.mp hop
    have hagrees := (hgood.inStep t).agrees hdone hview
    rw [(hgood.inStep t).state]
    refine ⟨_, (h.advances _ hlt).alone t view fun k v hv => ?_⟩
    exact (hagrees k ⟨v, hv⟩).trans (cell_settled (h.ready _ hlt.le).represents hv)
  -- its replies are the first ones of the lockstep run
  · intro t
    have hle : (c.thread t).count ≤ ops.length := (hgood.inStep t).le
    rw [(hgood.inStep t).state, ← List.map_take, List.take_range, Nat.min_eq_left hle]
    simp only [lockstepOf, List.map_map]
    refine List.map_congr_left fun i hi => ?_
    have hi' : i < ops.length := lt_of_lt_of_le (List.mem_range.mp hi) hle
    exact ((h.advances i hi').reply t).symm
  -- when all ranks are through, nothing is left to be written
  · intro t hall hdone
    have hcells := hgood.final (lawful h) hall hdone
    have hstate := (hgood.inStep t).state
    rw [hall] at hstate
    rw [hcells, hstate]
    exact ⟨rfl, (h.ready _ le_rfl).rank t⟩

end Executions

/-- **In their own time.**  After any run on the files of a store, the ranks of a file that is open
without collective metadata operations make the same calls, none of which waits for another rank: a
rank may create any number of groups and datasets while another has not begun, and it may read each
cell before or after any write of the others since its own last one.  If the paths lead somewhere
and no name is bound twice, then in every such execution no call fails, all ranks get the ids and
the metadata that they get in lockstep, and the first rank that has finished leaves the store that
the calls leave in lockstep. -/
theorem own_time (hdepth : 0 < w.depth) {store : MdStore}
    (hlinks : ∀ key n, store.links key n = []) {before : List (FileName × FileOp P)}
    (hadmits : Forest.Admits w (fun _ => none) before) {replies₀ : List (PathReply P)}
    {v : Volume P} {forest : Forest P}
    (hbefore : Volume.run w ⟨store, fun _ => none⟩ before = .ok (replies₀, v))
    (hforest : Forest.run (fun _ => none) before = .ok (replies₀, forest)) {f : TreeFile P}
    {s : PathFile P} (hf : forest name = some f) (hs : v.files name = some s)
    (hopen : 0 < f.numProcs) (hown : f.collective = false) {sched : Schedule}
    {ops : List (RankOp P)} (hapart : AllApart w sched f ops)
    {ranks : Fin f.numProcs → RankFile P} (hranks : ∀ t, s.rank t.1 = some (ranks t)) :
    ∃ replies s', (s.withStore v.store).run w (ops.map (·.together sched)) = .ok (replies, s') ∧
      ∀ c, Reach (ownProgram w f.numProcs ops) (start v.store.cell fun t => ⟨ranks t, []⟩) c →
        Undisturbed w ops replies s' c := by
  -- the forest of the specification is the one that the volume has reached
  obtain ⟨forest', hforest', hholds⟩ := volume_replies hdepth hlinks hadmits hbefore
  obtain rfl : forest' = forest := by
    rw [hforest] at hforest'
    exact (Prod.mk.inj (Except.ok.inj hforest')).2.symm
  obtain ⟨s₀, hs₀, hrep⟩ := hholds.file name f hf
  obtain rfl : s₀ = s := Option.some.inj (hs₀.symm.trans hs)
  have hready : Moment.Ready w name (⟨f, s₀.withStore v.store, ranks⟩ : Moment P f.numProcs) :=
    ⟨hrep, rfl, hown, hranks⟩
  -- the calls in lockstep, from this moment on
  obtain ⟨m, reply, steps, ws, hzero, htrace, hrun⟩ := exists_trace hopen hdepth hready hapart
  refine ⟨_, _, hrun, fun c hreach => undisturbed_of_trace htrace ?_⟩
  rw [hzero]
  exact hreach

/-! ## Two ranks -/

/-- Two ranks create a group `a` in a new file and open it, each when it gets there. -/
def demoCalls : List (RankOp Byte) :=
  [.createGroup .file pathA 6, .openGroup .file pathA fun _ => ⟨fun _ => 0, fun _ => 0⟩]

theorem apart_demo : AllApart demo ObjectIds.inOrder (TreeFile.new 5 2 false) demoCalls := by
  have hfits : (Object.group (6 : Byte)).Fits demo := ⟨by decide, by decide⟩
  have hnames : pathGroups pathA.bytes = [] := by decide
  refine ⟨⟨⟨by decide, by decide⟩, hfits, (_, TreeFile.lastName pathA), rfl, rfl⟩, fun r hr => ?_⟩
  obtain rfl := Except.ok.inj (create_demo.symm.trans hr)
  have hobj : demoTree.tree.objects (nthOid 2 .group) = some (.group 6) :=
    ObjTree.add_objects_self ..
  have hlink : demoTree.tree.follow demoTree.tree.rootObj (TreeFile.lastName pathA) =
      some ⟨nthOid 2 .group, by rw [hobj]; exact Option.some_ne_none _⟩ :=
    follow_eq_some.mpr (Links.put_self (TreeFile.new (5 : Byte) 2 false).tree.links rootOid
      (TreeFile.lastName pathA) (nthOid 2 .group))
  refine ⟨⟨some demoTree.tree.rootObj, _, 6, rfl, ObjTree.linked_eq_ok.mpr hlink, hobj,
    fun b _ => ?_⟩, fun _ _ => trivial⟩
  rw [hnames]
  trivial

theorem own_time_demo : ∃ (v : Volume Byte) (s : PathFile Byte) (ranks : Fin 2 → RankFile Byte),
    v.files ObjectIds.nameF = some s ∧ (∀ t, s.rank t.1 = some (ranks t)) ∧
    ∃ replies s', (s.withStore v.store).run demo
        (demoCalls.map (·.together ObjectIds.inOrder)) = .ok (replies, s') ∧
      ∀ c, Reach (ownProgram demo 2 demoCalls) (start v.store.cell fun t => ⟨ranks t, []⟩) c →
        Undisturbed demo demoCalls replies s' c := by
  -- the file is created, and nothing else has happened
  have hadmits : Forest.Admits demo (fun _ => none) (demoOps.take 1) :=
    ⟨admits_demo.1, fun _ _ => trivial⟩
  have hdepth : 0 < demo.depth := by decide
  have hlinks : ∀ key n, ObjectIds.emptyStore.links key n = [] := fun _ _ => rfl
  have hspec := volume_run_spec hdepth (holds_empty hlinks) hadmits
  have hforest : Forest.run (fun _ => none) (demoOps.take 1) = .ok ([.done],
      Function.update (fun _ => none) ObjectIds.nameF (some (.new 5 2 false))) := rfl
  rw [hforest] at hspec
  obtain ⟨⟨replies, v⟩, hrun, rfl, hholds⟩ := hspec
  have hfile : Function.update (fun _ => none) ObjectIds.nameF
      (some (TreeFile.new (5 : Byte) 2 false)) ObjectIds.nameF = some (.new 5 2 false) :=
    Function.update_self ..
  obtain ⟨s, hs, hrep⟩ := hholds.file ObjectIds.nameF _ hfile
  -- both ranks have a handle
  have hranks : ∀ t : Fin 2, ∃ r, s.rank t.1 = some r := fun t =>
    (rank_eq hrep t.2).elim fun _ h => ⟨_, h.2.2⟩
  choose ranks hranks using hranks
  exact ⟨v, s, ranks, hs, hranks, own_time hdepth hlinks hadmits hrun hforest hfile hs
    (by decide) rfl apart_demo hranks⟩

end DTIO.Properties.IndependentRanks
