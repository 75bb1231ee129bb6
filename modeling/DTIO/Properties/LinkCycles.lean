import DTIO.Properties.PathResolution

/-!
# Cycles of Links

`H5VL_dtio_link_follow` has no bound for soft links.  It calls `H5VL_dtio_group_traverse`, which
calls it again for the names of the target, and a soft link that is met again while it is followed
is followed forever.

## Main definitions

- `Finishes`: `H5VL_dtio_link_follow` returns an oid or an error
- `MeetsEmpty`: the target of a link is followed up to an empty name

## Main results

- `link_following_iff`: it finishes if and only if no link is met again while it is followed, and
  no empty name is met
-/

namespace DTIO.Properties.LinkCycles

open DTIO.Posix DTIO.Vol DTIO.Vol.LinkGraph DTIO.CallTree DTIO.Properties.PathResolution
open DTIO.Properties.LinkValues (listOmap)

variable {σ P : Type} {c : Context σ P} {g : Graph} {root cur : UInt64} {link link' : Link}

/-- `H5VL_dtio_link_follow` makes finitely many calls, as many as there is room for, and returns an
oid or an error. -/
def Finishes (c : Context σ P) (grp : OpenGroup P) (name : List Byte) (calls : Nat) : Prop :=
  ∃ depth, (∃ target, linkFollow c depth grp name calls = .ok target) ∨
    linkFollow c depth grp name calls = .error .fail

/-- The links that are followed for a link. -/
abbrev Meets (g : Graph) (root : UInt64) : Link → Link → Prop :=
  Relation.ReflTransGen (LeadsOver connector g root)

/-- All of them. -/
def Met (g : Graph) (root : UInt64) (link : Link) : Set Link := {link' | Meets g root link link'}

theorem met_closed (g : Graph) (root : UInt64) (link : Link) : Closed g root (Met g root link) :=
  fun _ hmeets _ hover => Relation.ReflTransGen.tail hmeets hover

/-- A link that is met again while it is followed. -/
def Cyclic (g : Graph) (root : UInt64) (link : Link) : Prop :=
  Relation.TransGen (LeadsOver connector g root) link link

/-- A soft link whose target is followed up to an empty name in front of a slash. -/
def MeetsEmpty (g : Graph) (root : UInt64) (link : Link) : Prop :=
  ∃ target front rest oid, g link.1 link.2 = some (.soft target) ∧
    pathGroups target.bytes = front ++ [] :: rest ∧
    Ends (followBody connector g root)
      (walk connector (fun oid => .ret (.leads oid)) (pathStart root link.1 target.bytes) front)
      (.leads oid)

/-! ## Walks that halt -/

/-- A walk goes on from where its first part leads. -/
theorem run_walk_append {k : UInt64 → Prog Link Answer} (f : Link → Option Answer)
    (front rest : List (List Byte)) {oid : UInt64}
    (h : (walk connector (fun oid => .ret (.leads oid)) cur front).run f = some (.leads oid)) :
    (walk connector k cur (front ++ rest)).run f = (walk connector k oid rest).run f := by
  induction front generalizing cur with
  | nil =>
    obtain rfl : cur = oid := Answer.leads.inj (Option.some.inj h)
    rfl
  | cons name front ih =>
    by_cases hname : name = []
    · rw [walk_halt (if_pos hname)] at h
      cases h
    · rw [walk_follow (if_neg hname)] at h
      obtain ⟨a, ha, hrest⟩ := Option.bind_eq_some_iff.mp h
      cases a with
      | leads oid' =>
        rw [List.cons_append, walk_follow (if_neg hname)]
        simp only [Prog.run, ha, Option.bind_some, onLeads]
        exact ih hrest
      | halts why => cases hrest

/-- An empty name is an assertion that fails. -/
theorem MeetsEmpty.returns (h : MeetsEmpty g root link) :
    Returns (followBody connector g root) link (.halts .aborts) := by
  obtain ⟨target, front, rest, oid, hval, hsplit, d, hfront⟩ := h
  refine ⟨d + 1, ?_⟩
  simp only [eval, followBody, hval, resolveVal, resolve]
  rw [hsplit, run_walk_append _ front _ hfront, walk_halt (if_pos rfl)]
  rfl

/-- A walk halts where one of its calls does. -/
theorem ends_walk_of_call {why : Halt} {last : List Byte} {names : List (List Byte)}
    (hcalls : (walk connector (lastStep last) cur names).Calls
      (Returns (followBody connector g root)) link)
    (h : Returns (followBody connector g root) link (.halts why)) :
    Ends (followBody connector g root) (walk connector (lastStep last) cur names)
      (.halts why) := by
  obtain ⟨d, hd⟩ := h
  induction names generalizing cur with
  | nil =>
    -- the last name, which is followed unless it stands for the group
    by_cases hstands : standsForGroup last
    · rw [LinkGraph.walk, lastStep, if_pos hstands] at hcalls
      cases hcalls
    · rw [LinkGraph.walk, lastStep, if_neg hstands] at hcalls ⊢
      cases hcalls with
      | here => exact ⟨d, by rw [Prog.run_call_ret, hd]⟩
      | later _ hrest => cases hrest
  | cons name names ih =>
    by_cases hname : name = []
    · rw [walk_halt (if_pos hname)] at hcalls
      cases hcalls
    · rw [walk_follow (if_neg hname)] at hcalls ⊢
      -- the call is the first one that is made, or one behind it
      cases hcalls with
      | here => exact ⟨d, Option.bind_eq_some_iff.mpr ⟨_, hd, rfl⟩⟩
      | @later _ _ a _ hreturns hrest =>
        cases a with
        | leads oid =>
          obtain ⟨d', hd'⟩ := hreturns
          obtain ⟨d'', hd''⟩ := ih hrest
          -- one depth is enough for both
          exact ⟨max d' d'', Option.bind_eq_some_iff.mpr
            ⟨_, eval_mono (le_max_left ..) hd', run_mono_depth (le_max_right ..) hd''⟩⟩
        | halts why' => cases hrest

/-- A link halts where one that is followed for it does. -/
theorem returns_of_leadsOver {why : Halt} (hover : LeadsOver connector g root link link')
    (h : Returns (followBody connector g root) link' (.halts why)) :
    Returns (followBody connector g root) link (.halts why) := by
  obtain ⟨target, htarget⟩ := hover.soft
  unfold LeadsOver CallsTo followBody at hover
  rw [htarget] at hover
  obtain ⟨d, hd⟩ := ends_walk_of_call hover h
  refine ⟨d + 1, ?_⟩
  simp only [eval, followBody, htarget]
  exact hd

theorem returns_of_meets {why : Halt} (hmeets : Meets g root link link')
    (h : Returns (followBody connector g root) link' (.halts why)) :
    Returns (followBody connector g root) link (.halts why) := by
  induction hmeets using Relation.ReflTransGen.head_induction_on with
  | refl => exact h
  | head hover _ ih => exact returns_of_leadsOver hover ih

/-! ## Why a link halts -/

/-- A walk halts at an empty name, or where one of its calls does. -/
theorem walk_halts {why : Halt} {last : List Byte} {names : List (List Byte)} {d : Nat}
    (h : (walk connector (lastStep last) cur names).run (eval (followBody connector g root) d) =
      some (.halts why)) :
    (∃ link, (walk connector (lastStep last) cur names).Calls
      (Returns (followBody connector g root)) link ∧
        eval (followBody connector g root) d link = some (.halts why)) ∨
    ∃ front rest oid, names = front ++ [] :: rest ∧
      (walk connector (fun oid => .ret (.leads oid)) cur front).run
        (eval (followBody connector g root) d) = some (.leads oid) := by
  induction names generalizing cur with
  | nil =>
    -- the last name cannot stand for the group, as that would lead on
    by_cases hstands : standsForGroup last
    · rw [LinkGraph.walk, lastStep, if_pos hstands] at h
      cases h
    · rw [LinkGraph.walk, lastStep, if_neg hstands] at h ⊢
      rw [Prog.run_call_ret] at h
      exact Or.inl ⟨_, .here, h⟩
  | cons name names ih =>
    -- an empty name halts the walk here
    by_cases hname : name = []
    · exact Or.inr ⟨[], names, cur, by rw [hname]; rfl, rfl⟩
    · rw [walk_follow (if_neg hname)] at h ⊢
      obtain ⟨a, ha, hrest⟩ := Option.bind_eq_some_iff.mp h
      cases a with
      | leads oid =>
        rcases ih hrest with ⟨link, hcalls, hlink⟩ | ⟨front, rest, oid', rfl, hfront⟩
        · exact Or.inl ⟨link, .later ⟨d, ha⟩ hcalls, hlink⟩
        -- the front of names that are followed gets one name longer
        · refine Or.inr ⟨name :: front, rest, oid', rfl, ?_⟩
          rw [walk_follow (if_neg hname)]
          simp only [Prog.run, ha, Option.bind_some, onLeads]
          exact hfront
      | halts why' =>
        obtain rfl : why' = why := Answer.halts.inj (Option.some.inj hrest)
        exact Or.inl ⟨_, .here, ha⟩

/-- A link that halts fails, or meets an empty name; by induction on the nesting of calls. -/
theorem eval_halts {why : Halt} {d : Nat}
    (h : eval (followBody connector g root) d link = some (.halts why)) :
    why = .fails ∨ ∃ link', Meets g root link link' ∧ MeetsEmpty g root link' := by
  induction d generalizing link with
  | zero => cases h
  | succ d ih =>
    simp only [eval, followBody] at h
    cases hval : g link.1 link.2 with
    | none =>
      rw [hval] at h
      exact Or.inl (Answer.halts.inj (Option.some.inj h)).symm
    | some val =>
      rw [hval] at h
      cases val with
      | hard oid => cases h
      | unsupported => exact Or.inl (Answer.halts.inj (Option.some.inj h)).symm
      | soft target =>
        -- a link of the target halts, or the target has an empty name
        rcases walk_halts h with ⟨link', hcalls, hlink'⟩ | ⟨front, rest, oid, hsplit, hfront⟩
        · have hover : LeadsOver connector g root link link' := by
            unfold LeadsOver CallsTo followBody
            rw [hval]
            exact hcalls
          refine (ih hlink').imp_right ?_
          rintro ⟨link'', hmeets, hempty⟩
          exact ⟨link'', hmeets.head hover, hempty⟩
        · exact Or.inr ⟨link, .refl, target, front, rest, oid, hval, hsplit, d, hfront⟩

/-! ## Links that finish -/

/-- `H5VL_dtio_link_follow` finishes if its resolution leads to an object or fails. -/
theorem finishes_iff_returns {grp : OpenGroup P} (hgrp : Named c grp) (name : List Byte)
    (hg : Reads c g (Met g c.file.rootGrp.binOid (grp.binOid, CString.ofBuffer name)))
    (calls : Nat) :
    Finishes c grp name calls ↔ ∃ a, Returns (followBody connector g c.file.rootGrp.binOid)
      (grp.binOid, CString.ofBuffer name) a ∧ ∀ why, a = .halts why → why = .fails := by
  constructor
  · rintro ⟨depth, hdone⟩
    have hmatches := linkFollow_matches hg (met_closed _ _ _) depth grp name calls hgrp .refl
    cases hans : eval (followBody connector g c.file.rootGrp.binOid) depth
        (grp.binOid, CString.ofBuffer name) with
    -- not deep enough, so there would be no result
    | none =>
      rw [hans] at hmatches
      rcases hdone with ⟨target, hok⟩ | hfail
      · cases hok.symm.trans hmatches
      · cases hfail.symm.trans hmatches
    | some a =>
      refine ⟨a, ⟨depth, hans⟩, ?_⟩
      rintro why rfl
      rw [hans] at hmatches
      -- the answer tells why it halts, and a fault is no result
      obtain ⟨e, he, hwhy⟩ := hmatches.halts
      rcases hdone with ⟨target, hok⟩ | hfail
      · cases hok.symm.trans he
      · exact hwhy.mp (Except.error.inj (he.symm.trans hfail))
  -- conversely, an answer without a fault is what the function returns
  · rintro ⟨a, ⟨depth, hans⟩, hfails⟩
    have hmatches := linkFollow_matches hg (met_closed _ _ _) depth grp name calls hgrp .refl
    rw [hans] at hmatches
    cases a with
    | leads oid =>
      obtain ⟨target, hok, -⟩ := hmatches
      exact ⟨depth, Or.inl ⟨target, hok⟩⟩
    | halts why =>
      obtain rfl := hfails why rfl
      exact ⟨depth, Or.inr hmatches⟩

/-- A link has an answer if no link is met again while it is followed. -/
theorem returns_iff (hfin : (softLinks g).Finite) :
    (∃ a, Returns (followBody connector g root) link a) ↔
      ∀ link', Meets g root link link' → ¬ Cyclic g root link' := by
  rw [returns_iff_acc]
  exact acc_iff_no_cycle hfin fun _ _ => LeadsOver.soft

/-- The two ways not to finish. -/
theorem finishes_iff (hfin : (softLinks g).Finite) {grp : OpenGroup P} (hgrp : Named c grp)
    (name : List Byte)
    (hg : Reads c g (Met g c.file.rootGrp.binOid (grp.binOid, CString.ofBuffer name)))
    (calls : Nat) :
    Finishes c grp name calls ↔ ∀ link,
      Meets g c.file.rootGrp.binOid (grp.binOid, CString.ofBuffer name) link →
        ¬ Cyclic g c.file.rootGrp.binOid link ∧ ¬ MeetsEmpty g c.file.rootGrp.binOid link := by
  rw [finishes_iff_returns hgrp name hg]
  constructor
  · rintro ⟨a, hreturns, hfails⟩ link hmeets
    refine ⟨(returns_iff hfin).mp ⟨a, hreturns⟩ link hmeets, fun hempty => ?_⟩
    -- the failed assertion would be the answer
    obtain rfl := hreturns.unique (returns_of_meets hmeets hempty.returns)
    cases hfails _ rfl
  · intro hnever
    obtain ⟨a, d, hd⟩ := (returns_iff hfin).mpr fun link hmeets => (hnever link hmeets).1
    refine ⟨a, ⟨d, hd⟩, ?_⟩
    rintro why rfl
    rcases eval_halts hd with hfails | ⟨link, hmeets, hempty⟩
    · exact hfails
    · exact absurd hempty (hnever link hmeets).2

/-- **Following links.**  For any link graph with finitely many soft links, any group and any name
for which the links that are met are read as the graph has them, `H5VL_dtio_link_follow` and
`H5VL_dtio_group_traverse` make finitely many calls and return if and only if no link is met again
while it is followed and no empty name is met. -/
theorem link_following_iff (hfin : (softLinks g).Finite) {grp : OpenGroup P} (hgrp : Named c grp)
    (name : CString)
    (hg : Reads c g (Met g c.file.rootGrp.binOid (grp.binOid, CString.ofBuffer name.bytes)))
    (calls : Nat) :
    Finishes c grp name.bytes calls ↔ ∀ link,
      Meets g c.file.rootGrp.binOid (grp.binOid, CString.ofBuffer name.bytes) link →
        ¬ Cyclic g c.file.rootGrp.binOid link ∧ ¬ MeetsEmpty g c.file.rootGrp.binOid link :=
  finishes_iff hfin hgrp name.bytes hg calls

/-! ## A link to itself -/

/-- The soft link `s` of the root group has the target `s`. -/
def selfLink : List (Link × LinkVal) := [((1, nameS), .soft nameS)]

/-- Memory holds `s`, where the target is copied from. -/
theorem reads_selfLink (met : Set Link) :
    Reads (linkFile selfLink [115]) (listGraph selfLink) met := by
  apply reads_linkFile
  · simp [selfLink, LinkVal.Supported]
  · simp [selfLink, nameS]

/-- It is followed for itself. -/
theorem selfLink_leadsOver :
    LeadsOver connector (listGraph selfLink) 1 (1, nameS) (1, nameS) := by
  have hval : listGraph selfLink 1 nameS = some (.soft nameS) := by decide
  have hbody : resolve connector 1 1 nameS.bytes = .call (1, nameS) .ret := rfl
  unfold LeadsOver CallsTo followBody
  rw [hval, resolveVal, hbody]
  exact .here

/-- `H5VL_dtio_link_write` writes it, and there is never enough room on the stack to follow it,
where memory holds `s`. -/
theorem self_link_overflows :
    linkWrite listOmap [] ⟨stringName ['f'] 1, accRdwr⟩ nameS (.soft nameS) (fun _ => 0)
      (some fun _ => 0) = .ok (linkFile selfLink [115]).state ∧
    ¬ Finishes (linkFile selfLink [115]) (linkFile selfLink [115]).file.rootGrp nameS.bytes 0 := by
  refine ⟨by decide +kernel, ?_⟩
  rw [finishes_iff (softLinks_finite _) (reads_selfLink Set.univ).root _ (reads_selfLink _)]
  intro hnever
  exact (hnever (1, nameS) .refl).1 (.single selfLink_leadsOver)

/-- The soft link `s` with the target `a` is followed to its end, and the one with the target `s`
is not. -/
theorem link_following_iff_soft :
    Finishes (linkFile softNested [97]) (linkFile softNested [97]).file.rootGrp nameS.bytes 0 ∧
    (Finishes (linkFile selfLink [115]) (linkFile selfLink [115]).file.rootGrp nameS.bytes 0 ↔
      ∀ link, Meets (listGraph selfLink) 1 (1, CString.ofBuffer nameS.bytes) link →
        ¬ Cyclic (listGraph selfLink) 1 link ∧ ¬ MeetsEmpty (listGraph selfLink) 1 link) := by
  refine ⟨?_, link_following_iff (softLinks_finite _) (reads_selfLink Set.univ).root nameS
    (reads_selfLink _) 0⟩
  refine (link_following_iff (softLinks_finite _) (reads_softNested Set.univ).root nameS
    (reads_softNested _) 0).mpr fun link _ => ⟨softNested_acyclic connector link, ?_⟩
  rintro ⟨target, front, rest, oid, htarget, hsplit, -⟩
  obtain rfl := (softNested_soft htarget).2
  have hnames : pathGroups [97] = [] := by decide
  simp [hnames] at hsplit

end DTIO.Properties.LinkCycles
