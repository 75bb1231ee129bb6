import DTIO.Foundation.CallTree
import DTIO.Vol.Groups
import Mathlib.Data.List.Basic

/-!
# Link Graphs

The links of the groups of a file are a graph.  A path in it is resolved name by name, where the
name of a soft link leads to where the path in the link does.  Resolutions differ in how they read
the names that have a slash behind them: the reference skips an empty name and a dot, while
`H5VL_dtio_group_traverse` asserts that no name is empty and looks a dot up.

## Main definitions

- `Graph`: the links of the groups
- `Reading`, `resolve`: a resolution, as a body of calls that follow links
- `reference`, `connector`, `plain`: three readings

## Main results

- `Covers.call`: where a reading only changes how resolutions stop, they lead to the same objects
- `covers_connector`, `covers_reference`: both readings against the plain one
- `exists_ends_plain`: with finitely many soft links and no cycle, every resolution ends
-/

namespace DTIO.Vol.LinkGraph

open DTIO.Posix DTIO.Vol DTIO.CallTree

/-! ## Resolutions -/

/-- The links of each group. -/
abbrev Graph := UInt64 → CString → Option LinkVal

/-- A link, by its group and its name. -/
abbrev Link := UInt64 × CString

/-- Why a resolution does not lead anywhere: there is no such link, an assertion failed, or it is
not continued at a dot. -/
inductive Halt where
  | fails
  | aborts
  | dots
  deriving DecidableEq, Repr

/-- What a resolution ends with. -/
inductive Answer where
  | leads (oid : UInt64)
  | halts (why : Halt)
  deriving DecidableEq, Repr

/-- What is done at a name. -/
inductive AtName where
  | stay
  | follow
  | halt (why : Halt)

/-- What is done at the names that have a slash behind them. -/
abbrev Reading := List Byte → AtName

/-- Repeated slashes count as one, and a dot is the group itself. -/
def reference : Reading := fun name => if standsForGroup name then .stay else .follow

/-- `H5VL_dtio_group_traverse`: no name is empty, and a dot is a name. -/
def connector : Reading := fun name => if name = [] then .halt .aborts else .follow

/-- The connector's reading up to the first dot. -/
def plain : Reading := fun name =>
  if name = [] then .halt .aborts else if name = [dot] then .halt .dots else .follow

/-- The names of a path, without the slash for the root group. -/
def pathNames (path : List Byte) : List (List Byte) := (afterRoot path).splitOn slash

/-- The names that have a slash behind them. -/
def pathGroups (path : List Byte) : List (List Byte) := (pathNames path).dropLast

/-- The last name. -/
def pathLast (path : List Byte) : List Byte := (pathNames path).getLastD []

/-- The group that a path begins at. -/
def pathStart (root cur : UInt64) (path : List Byte) : UInt64 :=
  if path.head? = some slash then root else cur

/-- A resolution goes on where a link leads. -/
def onLeads (k : UInt64 → Prog Link Answer) : Answer → Prog Link Answer
  | .leads oid => k oid
  | .halts why => .ret (.halts why)

/-- From a group along names that have a slash behind them. -/
def walk (rd : Reading) (k : UInt64 → Prog Link Answer) :
    UInt64 → List (List Byte) → Prog Link Answer
  | cur, [] => k cur
  | cur, name :: names =>
    match rd name with
    | .stay => walk rd k cur names
    | .halt why => .ret (.halts why)
    | .follow => .call (cur, CString.ofBuffer name) (onLeads fun oid => walk rd k oid names)

/-- The last name of a path. -/
def lastStep (name : List Byte) (cur : UInt64) : Prog Link Answer :=
  if standsForGroup name then .ret (.leads cur) else .call (cur, CString.ofBuffer name) .ret

/-- The resolution of all but the last name of a path. -/
def resolveGroup (rd : Reading) (root cur : UInt64) (path : List Byte) : Prog Link Answer :=
  walk rd (fun oid => .ret (.leads oid)) (pathStart root cur path) (pathGroups path)

/-- The resolution of a path. -/
def resolve (rd : Reading) (root cur : UInt64) (path : List Byte) : Prog Link Answer :=
  walk rd (lastStep (pathLast path)) (pathStart root cur path) (pathGroups path)

/-- Where the value of a link leads. -/
def resolveVal (rd : Reading) (root cur : UInt64) : Option LinkVal → Prog Link Answer
  | some (.hard oid) => .ret (.leads oid)
  -- relative to the group that has the link
  | some (.soft target) => resolve rd root cur target.bytes
  | some (.unsupported ..) => .ret (.halts .fails)
  | none => .ret (.halts .fails)

/-- A link is followed. -/
def followBody (rd : Reading) (g : Graph) (root : UInt64) (link : Link) : Prog Link Answer :=
  resolveVal rd root link.1 (g link.1 link.2)

section Resolutions

variable {rd rd' : Reading} {g : Graph} {root cur oid : UInt64} {name : List Byte}
  {k k' : UInt64 → Prog Link Answer}

theorem walk_stay (h : rd name = .stay) (names : List (List Byte)) :
    walk rd k cur (name :: names) = walk rd k cur names := by
  simp only [walk, h]

theorem walk_halt {why : Halt} (h : rd name = .halt why) (names : List (List Byte)) :
    walk rd k cur (name :: names) = .ret (.halts why) := by
  simp only [walk, h]

theorem walk_follow (h : rd name = .follow) (names : List (List Byte)) :
    walk rd k cur (name :: names) =
      .call (cur, CString.ofBuffer name) (onLeads fun oid => walk rd k oid names) := by
  simp only [walk, h]

/-- What comes behind the names of a walk. -/
theorem run_walk (f : Link → Option Answer) (names : List (List Byte)) :
    (walk rd k cur names).run f =
      ((walk rd (fun oid => .ret (.leads oid)) cur names).run f).bind
        fun a => (onLeads k a).run f := by
  induction names generalizing cur with
  | nil => rfl
  | cons name names ih =>
    cases hstep : rd name with
    | stay =>
      rw [walk_stay hstep, walk_stay hstep]
      exact ih
    | halt why =>
      rw [walk_halt hstep, walk_halt hstep]
      rfl
    | follow =>
      rw [walk_follow hstep, walk_follow hstep]
      -- both make the same call, and go on only where it leads
      simp only [Prog.run, Option.bind_assoc]
      congr 1
      funext a
      cases a with
      | leads oid => exact ih
      | halts why => rfl

/-- The calls for the names of a walk are made whatever comes behind them. -/
theorem calls_walk_group {returns : Link → Answer → Prop} {link : Link} {names : List (List Byte)}
    (h : (walk rd (fun oid => .ret (.leads oid)) cur names).Calls returns link) :
    (walk rd k cur names).Calls returns link := by
  induction names generalizing cur with
  | nil => cases h
  | cons name names ih =>
    cases hstep : rd name with
    | stay =>
      rw [walk_stay hstep] at h ⊢
      exact ih h
    -- the walk stopped here, so it called nothing
    | halt why =>
      rw [walk_halt hstep] at h
      cases h
    | follow =>
      rw [walk_follow hstep] at h ⊢
      cases h with
      | here => exact .here
      | @later _ _ a _ hreturns hrest =>
        refine .later hreturns ?_
        cases a with
        | leads oid => exact ih hrest
        | halts why => cases hrest

/-- Behind the names of a walk, the calls are made where it leads. -/
theorem calls_walk_last {returns : Link → Answer → Prop} {f : Link → Option Answer}
    (hf : ∀ link a, f link = some a → returns link a) {link : Link} {names : List (List Byte)}
    (hrun : (walk rd (fun oid => .ret (.leads oid)) cur names).run f = some (.leads oid))
    (h : (k oid).Calls returns link) : (walk rd k cur names).Calls returns link := by
  induction names generalizing cur with
  | nil =>
    obtain rfl : cur = oid := Answer.leads.inj (Option.some.inj hrun)
    exact h
  | cons name names ih =>
    cases hstep : rd name with
    | stay =>
      rw [walk_stay hstep] at hrun ⊢
      exact ih hrun
    | halt why =>
      rw [walk_halt hstep] at hrun
      cases hrun
    | follow =>
      rw [walk_follow hstep] at hrun ⊢
      -- the link led somewhere, or the run would not have reached `oid`
      obtain ⟨a, ha, hrest⟩ := Option.bind_eq_some_iff.mp hrun
      refine .later (hf _ _ ha) ?_
      cases a with
      | leads oid' => exact ih hrest
      | halts why => cases hrest

/-- A path is resolved with its last name behind the others. -/
theorem run_resolve (f : Link → Option Answer) (path : List Byte) :
    (resolve rd root cur path).run f =
      ((resolveGroup rd root cur path).run f).bind
        fun a => (onLeads (lastStep (pathLast path)) a).run f :=
  run_walk f _

/-- A path is resolved from its group. -/
theorem ends_resolve_of_leads {path : List Byte} {a : Answer}
    (h : Ends (followBody rd g root) (resolveGroup rd root cur path) (.leads oid)) :
    Ends (followBody rd g root) (lastStep (pathLast path) oid) a ↔
      Ends (followBody rd g root) (resolve rd root cur path) a := by
  obtain ⟨d, hd⟩ := h
  constructor
  · rintro ⟨d', hd'⟩
    -- enough stack for the group and for what is in it
    refine ⟨max d d', ?_⟩
    rw [run_resolve, run_mono_depth (le_max_left ..) hd, Option.bind_some]
    exact run_mono_depth (le_max_right ..) hd'
  · rintro ⟨d', hd'⟩
    refine ⟨max d d', ?_⟩
    have hmax := run_mono_depth (le_max_right d d') hd'
    rwa [run_resolve, run_mono_depth (le_max_left ..) hd, Option.bind_some] at hmax

/-- Without a group there is no object. -/
theorem ends_resolve_of_halts {path : List Byte} {why : Halt}
    (h : Ends (followBody rd g root) (resolveGroup rd root cur path) (.halts why)) :
    Ends (followBody rd g root) (resolve rd root cur path) (.halts why) := by
  obtain ⟨d, hd⟩ := h
  refine ⟨d, ?_⟩
  rw [run_resolve, hd]
  rfl

theorem exists_group_of_object {path : List Byte} {target : UInt64}
    (h : Ends (followBody rd g root) (resolve rd root cur path) (.leads target)) :
    ∃ oid, Ends (followBody rd g root) (resolveGroup rd root cur path) (.leads oid) := by
  obtain ⟨d, hd⟩ := h
  rw [run_resolve] at hd
  obtain ⟨a, ha, hrest⟩ := Option.bind_eq_some_iff.mp hd
  cases a with
  | leads oid => exact ⟨oid, d, ha⟩
  | halts why => cases hrest

end Resolutions

/-! ## Two readings -/

/-- The second reading only changes how resolutions halt, for the halts in `good`.  Where it goes
on, there is no link. -/
structure Covers (g : Graph) (rd rd' : Reading) (good : Halt → Prop) (ends : Halt → Halt) :
    Prop where
  fails : ends .fails = .fails
  stay : ∀ name, rd name = .stay → rd' name = .stay
  follow : ∀ name, rd name = .follow → rd' name = .follow
  halt : ∀ name why, good why → rd name = .halt why → rd' name = .halt (ends why) ∨
    rd' name = .follow ∧ ends why = .fails ∧ ∀ oid, g oid (CString.ofBuffer name) = none

section Covers

variable {g : Graph} {rd rd' : Reading} {good : Halt → Prop} {ends : Halt → Halt}
  {root cur : UInt64} {d : Nat}

/-- An answer that the second reading has too. -/
def Good (good : Halt → Prop) : Answer → Prop
  | .leads _ => True
  | .halts why => good why

/-- What the second reading has instead. -/
def ending (ends : Halt → Halt) : Answer → Answer
  | .leads oid => .leads oid
  | .halts why => .halts (ends why)

/-- A link that is not there. -/
theorem eval_no_link {oid : UInt64} {name : CString} (h : g oid name = none) (d : Nat) :
    eval (followBody rd g root) (d + 1) (oid, name) = some (.halts .fails) := by
  simp only [eval, followBody, h, resolveVal, Prog.run]

/-- Two bodies, where one call may be nested deeper in the second. -/
def Covered (g : Graph) (rd rd' : Reading) (good : Halt → Prop) (ends : Halt → Halt)
    (root : UInt64) (d : Nat) (p p' : Prog Link Answer) : Prop :=
  ∀ a, Good good a → p.run (eval (followBody rd g root) d) = some a →
    p'.run (eval (followBody rd' g root) (d + 1)) = some (ending ends a)

/-- One call. -/
def CoveredCall (g : Graph) (rd rd' : Reading) (good : Halt → Prop) (ends : Halt → Halt)
    (root : UInt64) (d : Nat) : Prop :=
  ∀ link a, Good good a → eval (followBody rd g root) d link = some a →
    eval (followBody rd' g root) (d + 1) link = some (ending ends a)

theorem Covers.walk (h : Covers g rd rd' good ends)
    (hcall : CoveredCall g rd rd' good ends root d) {k k' : UInt64 → Prog Link Answer}
    (hk : ∀ cur, Covered g rd rd' good ends root d (k cur) (k' cur)) (names : List (List Byte)) :
    Covered g rd rd' good ends root d (walk rd k cur names) (walk rd' k' cur names) := by
  induction names generalizing cur with
  | nil => exact hk cur
  | cons name names ih =>
    intro a ha hrun
    cases hstep : rd name with
    | stay =>
      rw [walk_stay hstep] at hrun
      rw [walk_stay (h.stay name hstep)]
      exact ih a ha hrun
    | halt why =>
      rw [walk_halt hstep] at hrun
      obtain rfl : Answer.halts why = a := Option.some.inj hrun
      rcases h.halt name why ha hstep with hhalt | ⟨hfollow, hends, hnone⟩
      · rw [walk_halt hhalt]
        rfl
      · -- the link is looked up, and is not there
        rw [walk_follow hfollow]
        simp only [Prog.run, eval_no_link (hnone cur) d, Option.bind_some, onLeads, ending, hends]
    | follow =>
      rw [walk_follow hstep] at hrun
      rw [walk_follow (h.follow name hstep)]
      obtain ⟨b, hb, hrest⟩ := Option.bind_eq_some_iff.mp hrun
      -- the same call of the second reading, one level deeper
      cases b with
      | leads oid =>
        have hcalled := hcall _ (.leads oid) trivial hb
        simp only [Prog.run, hcalled, Option.bind_some, ending, onLeads]
        exact ih a ha hrest
      | halts why =>
        obtain rfl : Answer.halts why = a := Option.some.inj hrest
        simp only [Prog.run, hcall _ _ ha hb, Option.bind_some, ending, onLeads]

theorem CoveredCall.lastStep (hcall : CoveredCall g rd rd' good ends root d) (name : List Byte)
    (cur : UInt64) : Covered g rd rd' good ends root d (lastStep name cur) (lastStep name cur) := by
  intro a ha hrun
  by_cases hstands : standsForGroup name
  · rw [LinkGraph.lastStep, if_pos hstands] at hrun ⊢
    obtain rfl : Answer.leads cur = a := Option.some.inj hrun
    rfl
  · rw [LinkGraph.lastStep, if_neg hstands] at hrun ⊢
    obtain ⟨b, hb, hrest⟩ := Option.bind_eq_some_iff.mp hrun
    obtain rfl : b = a := Option.some.inj hrest
    simp only [Prog.run, hcall _ _ ha hb, Option.bind_some]

theorem Covers.resolve (h : Covers g rd rd' good ends)
    (hcall : CoveredCall g rd rd' good ends root d) (cur : UInt64) (path : List Byte) :
    Covered g rd rd' good ends root d (resolve rd root cur path) (resolve rd' root cur path) :=
  h.walk hcall (hcall.lastStep _) _

theorem Covers.resolveGroup (h : Covers g rd rd' good ends)
    (hcall : CoveredCall g rd rd' good ends root d) (cur : UInt64) (path : List Byte) :
    Covered g rd rd' good ends root d (resolveGroup rd root cur path)
      (resolveGroup rd' root cur path) := by
  refine h.walk hcall ?_ _
  rintro oid a - hrun
  obtain rfl : Answer.leads oid = a := Option.some.inj hrun
  rfl

/-- Links lead to the same objects, by induction on the nesting of calls. -/
theorem Covers.call (h : Covers g rd rd' good ends) (d : Nat) :
    CoveredCall g rd rd' good ends root d := by
  induction d with
  | zero => exact nofun
  | succ d ih =>
    intro link a ha hrun
    simp only [eval, followBody] at hrun
    rw [eval, followBody]
    cases hval : g link.1 link.2 with
    -- no link, or one of another kind: both fail
    | none =>
      rw [hval] at hrun
      obtain rfl : Answer.halts .fails = a := Option.some.inj hrun
      simp only [resolveVal, Prog.run, ending, h.fails]
    | some val =>
      rw [hval] at hrun
      cases val with
      | hard oid =>
        obtain rfl : Answer.leads oid = a := Option.some.inj hrun
        rfl
      -- a soft link: its target is resolved with one call less to spare
      | soft target => exact h.resolve ih link.1 target.bytes a ha hrun
      | unsupported =>
        obtain rfl : Answer.halts .fails = a := Option.some.inj hrun
        simp only [resolveVal, Prog.run, ending, h.fails]

/-- A resolution of the first reading ends the second one too. -/
theorem Covered.endsWith {p p' : Prog Link Answer} (h : ∀ d, Covered g rd rd' good ends root d p p')
    {a : Answer} (hends : Ends (followBody rd g root) p a) (ha : Good good a) :
    Ends (followBody rd' g root) p' (ending ends a) := by
  obtain ⟨d, hd⟩ := hends
  exact ⟨d + 1, h d a ha hd⟩

theorem Covers.ends_resolve (h : Covers g rd rd' good ends) {path : List Byte} {a : Answer}
    (hends : Ends (followBody rd g root) (LinkGraph.resolve rd root cur path) a)
    (ha : Good good a) :
    Ends (followBody rd' g root) (LinkGraph.resolve rd' root cur path) (ending ends a) :=
  Covered.endsWith (fun d => h.resolve (h.call d) cur path) hends ha

theorem Covers.ends_resolveGroup (h : Covers g rd rd' good ends) {path : List Byte} {a : Answer}
    (hends : Ends (followBody rd g root) (LinkGraph.resolveGroup rd root cur path) a)
    (ha : Good good a) :
    Ends (followBody rd' g root) (LinkGraph.resolveGroup rd' root cur path) (ending ends a) :=
  Covered.endsWith (fun d => h.resolveGroup (h.call d) cur path) hends ha

theorem Covers.ends_lastStep (h : Covers g rd rd' good ends) {name : List Byte} {a : Answer}
    (hends : Ends (followBody rd g root) (LinkGraph.lastStep name cur) a) (ha : Good good a) :
    Ends (followBody rd' g root) (LinkGraph.lastStep name cur) (ending ends a) :=
  Covered.endsWith (fun d => (h.call d).lastStep name cur) hends ha

end Covers

/-! ## The three readings -/

/-- No link is called by a dot. -/
def NoDots (g : Graph) : Prop := ∀ oid, g oid (CString.ofBuffer [dot]) = none

/-- The connector finds no link at a dot. -/
def undotted : Halt → Halt
  | .dots => .fails
  | why => why

section Readings

variable {g : Graph}

/-- Up to the first dot, and at it if no link is called so, the connector does what the plain
reading says. -/
theorem covers_connector :
    Covers g plain connector (fun why => why = .dots → NoDots g) undotted where
  fails := rfl
  stay name h := by
    unfold plain at h
    split_ifs at h
  follow name h := by
    unfold plain at h
    split_ifs at h with hempty hdot
    exact if_neg hempty
  halt name why hgood h := by
    unfold plain at h
    split_ifs at h with hempty hdot
    · obtain rfl : Halt.aborts = why := AtName.halt.inj h
      exact Or.inl (if_pos hempty)
    · obtain rfl : Halt.dots = why := AtName.halt.inj h
      obtain rfl := hdot
      exact Or.inr ⟨if_neg hempty, rfl, hgood rfl⟩

/-- Where it halts nowhere, the plain reading is the reference. -/
theorem covers_reference : Covers g plain reference (fun why => why = .fails) id where
  fails := rfl
  stay name h := by
    unfold plain at h
    split_ifs at h
  follow name h := by
    unfold plain at h
    split_ifs at h with hempty hdot
    exact if_neg (by simp [standsForGroup, hempty, hdot])
  halt name why hgood h := by
    unfold plain at h
    split_ifs at h
    · exact absurd (AtName.halt.inj h) (by simp [hgood])
    · exact absurd (AtName.halt.inj h) (by simp [hgood])

end Readings

/-! ## Chains of links -/

/-- Following a link means to follow another one. -/
abbrev LeadsOver (rd : Reading) (g : Graph) (root : UInt64) : Link → Link → Prop :=
  CallsTo (followBody rd g root)

section Chains

variable {g : Graph} {root cur : UInt64} {link : Link}

/-- The links that the plain reading follows, the reference follows too. -/
theorem calls_walk {k k' : UInt64 → Prog Link Answer}
    (hk : ∀ oid, (k oid).Calls (Returns (followBody plain g root)) link →
      (k' oid).Calls (Returns (followBody reference g root)) link)
    {names : List (List Byte)}
    (h : (walk plain k cur names).Calls (Returns (followBody plain g root)) link) :
    (walk reference k' cur names).Calls (Returns (followBody reference g root)) link := by
  induction names generalizing cur with
  | nil => exact hk cur h
  | cons name names ih =>
    cases hstep : plain name with
    | stay =>
      -- the name stays at the group in both
      rw [walk_stay hstep] at h
      rw [walk_stay (covers_reference (g := g).stay name hstep)]
      exact ih h
    | halt why =>
      rw [walk_halt hstep] at h
      -- the plain walk stopped here, so it called nothing
      cases h
    | follow =>
      rw [walk_follow hstep] at h
      rw [walk_follow (covers_reference (g := g).follow name hstep)]
      cases h with
      | here => exact .here
      -- the call came back with an object: the reference gets the same one
      | @later _ _ b _ hreturns hrest =>
        cases b with
        | leads oid =>
          obtain ⟨d, hd⟩ := hreturns
          exact .later ⟨d + 1, covers_reference.call d _ (.leads oid) trivial hd⟩ (ih hrest)
        | halts why => cases hrest

theorem calls_lastStep {rd rd' : Reading} {name : List Byte}
    (h : (lastStep name cur).Calls (Returns (followBody rd g root)) link) :
    (lastStep name cur).Calls (Returns (followBody rd' g root)) link := by
  by_cases hstands : standsForGroup name
  · rw [lastStep, if_pos hstands] at h
    cases h
  · rw [lastStep, if_neg hstands] at h ⊢
    cases h with
    | here => exact .here
    | later _ hrest => cases hrest

/-- Only soft links lead over others. -/
theorem LeadsOver.soft {rd : Reading} {link' : Link} (h : LeadsOver rd g root link link') :
    ∃ target, g link.1 link.2 = some (.soft target) := by
  unfold LeadsOver CallsTo followBody at h
  cases hval : g link.1 link.2 with
  | none =>
    rw [hval] at h
    cases h
  | some val =>
    rw [hval] at h
    cases val with
    | hard oid => cases h
    | soft target => exact ⟨target, rfl⟩
    | unsupported => cases h

/-- A link that the plain reading follows for another one, the reference follows for it. -/
theorem leadsOver_plain {link' : Link} (h : LeadsOver plain g root link link') :
    LeadsOver reference g root link link' := by
  obtain ⟨target, hsoft⟩ := h.soft
  unfold LeadsOver CallsTo followBody at h ⊢
  rw [hsoft] at h ⊢
  exact calls_walk (fun _ => calls_lastStep) h

/-- The soft links of a graph. -/
def softLinks (g : Graph) : Set Link := {link | ∃ target, g link.1 link.2 = some (.soft target)}

/-- Where no link is met again while it is followed, every resolution has an answer. -/
theorem exists_ends_plain (hfin : (softLinks g).Finite)
    (hacyclic : ∀ link, ¬ Relation.TransGen (LeadsOver reference g root) link link)
    (p : Prog Link Answer) : ∃ a, Ends (followBody plain g root) p a := by
  have hacc : ∀ link, Acc (fun b a => LeadsOver plain g root a b) link := by
    intro link
    -- a chain without an end would come back to one of the soft links
    have hreference : Acc (fun b a => LeadsOver reference g root a b) link :=
      (acc_iff_no_cycle hfin fun _ _ => LeadsOver.soft).mpr fun b _ => hacyclic b
    exact Subrelation.accessible leadsOver_plain hreference
  exact exists_ends fun link _ => returns_iff_acc.mpr (hacc link)

end Chains

end DTIO.Vol.LinkGraph
