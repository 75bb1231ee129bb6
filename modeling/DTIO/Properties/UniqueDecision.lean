import DTIO.Properties.Interception

/-!
# Conflicting Entries

A path that is included and excluded gives two entries of one length.  The comparator of
`ParseYAML` does not tell them apart, and `ShouldIntercept` takes the one that `std::sort` happens
to leave in front.

## Main definitions

- `Decided`: the order of the lists and the arrangement of the sort do not matter

## Main results

- `decided_iff`: the decision is determined by the lists if and only if it is not contested
- `both_decisions`: one path in both lists, and two results of the sort
-/

namespace DTIO.Properties.UniqueDecision

open DTIO.Posix DTIO.Client DTIO.LongestMatch
open DTIO.Properties.Interception (Contested LongestIncluded rootEnv
  shouldIntercept_of_uncontested)

/-! ## One decision -/

/-- The same lists in other orders. -/
structure Rearranged (yaml yaml' : YamlConf) : Prop where
  includes : (parseVector yaml'.includeNode).Perm (parseVector yaml.includeNode)
  excludes : (parseVector yaml'.excludeNode).Perm (parseVector yaml.excludeNode)

theorem Rearranged.refl (yaml : YamlConf) : Rearranged yaml yaml := ⟨.refl _, .refl _⟩

/-- Whatever the order of the two lists, the arrangement that the sort leaves, and what was loaded
before: the decision for `p` is the same. -/
def Decided (env : LoadEnv) (yaml : YamlConf) (p : PathStr) : Prop :=
  ∀ yaml₁ yaml₂ before₁ before₂ conf₁ conf₂, Rearranged yaml yaml₁ → Rearranged yaml yaml₂ →
    Reload before₁ (.parseYAML env yaml₁) conf₁ → Reload before₂ (.parseYAML env yaml₂) conf₂ →
    conf₁.shouldIntercept p = conf₂.shouldIntercept p

variable {conf : ConfigurationManager} {load : Load} {p : PathStr}

/-! ## Two arrangements -/

/-- A contested decision is that of the list whose entries stand first. -/
theorem shouldIntercept_of_contested (hboth : Contested load.includes load.excludes p)
    {first : Bool} (h : Sorts longer load.entries conf.pathEntries)
    (hfirst : conf.pathEntries.Pairwise fun a b => favours first a b = true) :
    conf.shouldIntercept p = first := by
  obtain ⟨q, hinclude, hexclude, hq⟩ := hboth
  -- the entry of the favoured list is there, and no match is longer
  have hentry : (⟨q, first⟩ : PathEntry) ∈ load.entries := by
    refine Load.mem_entries.mpr ?_
    cases first with
    | true => exact Or.inl ⟨rfl, hinclude⟩
    | false => exact Or.inr ⟨rfl, hexclude⟩
  have hlongest : Longest PathEntry.path load.entries p ⟨q, first⟩ := by
    refine ⟨hentry, hq.begins, fun e he hp => hq.longest e.path ?_ hp⟩
    rcases Load.mem_entries.mp he with ⟨-, hmem⟩ | ⟨-, hmem⟩
    · exact List.mem_append_left _ hmem
    · exact List.mem_append_right _ hmem
  exact ConfigurationManager.shouldIntercept_of_favoured h hlongest hfirst

/-! ## The configured lists -/

theorem Rearranged.mem_includes {env : LoadEnv} {yaml yaml' : YamlConf} (h : Rearranged yaml yaml')
    (q : PathStr) :
    q ∈ (Load.parseYAML env yaml').includes ↔ q ∈ (Load.parseYAML env yaml).includes :=
  (h.includes.map env.absPath).mem_iff

theorem Rearranged.mem_excludes {env : LoadEnv} {yaml yaml' : YamlConf} (h : Rearranged yaml yaml')
    (q : PathStr) :
    q ∈ (Load.parseYAML env yaml').excludes ↔ q ∈ (Load.parseYAML env yaml).excludes :=
  (h.excludes.map env.absPath).mem_iff

section Sets

variable {includes excludes includes' excludes' : List PathStr}
variable (hincludes : ∀ q, q ∈ includes' ↔ q ∈ includes)
variable (hexcludes : ∀ q, q ∈ excludes' ↔ q ∈ excludes)
include hincludes hexcludes

theorem longest_congr (q : PathStr) :
    Longest id (includes' ++ excludes') p q ↔ Longest id (includes ++ excludes) p q := by
  have hmem : ∀ s, s ∈ includes' ++ excludes' ↔ s ∈ includes ++ excludes := by
    intro s
    rw [List.mem_append, List.mem_append, hincludes, hexcludes]
  constructor
  · exact fun h => ⟨(hmem q).mp h.mem, h.begins, fun s hs => h.longest s ((hmem s).mpr hs)⟩
  · exact fun h => ⟨(hmem q).mpr h.mem, h.begins, fun s hs => h.longest s ((hmem s).mp hs)⟩

/-- What is included depends on the sets of paths. -/
theorem longestIncluded_congr :
    LongestIncluded includes' excludes' p ↔ LongestIncluded includes excludes p := by
  unfold LongestIncluded
  simp only [hincludes, longest_congr hincludes hexcludes]

theorem contested_congr : Contested includes' excludes' p ↔ Contested includes excludes p := by
  unfold Contested
  simp only [hincludes, hexcludes, longest_congr hincludes hexcludes]

end Sets

/-- **The decision is a function of the configured lists** for a path, whatever the order of the
lists and the arrangement of the sort, if and only if the longest path that it begins with is not
in both of them. -/
theorem decided_iff (env : LoadEnv) (yaml : YamlConf) (p : PathStr) :
    Decided env yaml p ↔
      ¬ Contested (Load.parseYAML env yaml).includes (Load.parseYAML env yaml).excludes p := by
  constructor
  · intro hdecided hboth
    obtain ⟨l₁, hsort₁, hfirst₁⟩ := exists_favouring true (Load.parseYAML env yaml).entries
    obtain ⟨l₂, hsort₂, hfirst₂⟩ := exists_favouring false (Load.parseYAML env yaml).entries
    have hyes : (ConfigurationManager.mk l₁).shouldIntercept p = true :=
      shouldIntercept_of_contested hboth hsort₁ hfirst₁
    have hno : (ConfigurationManager.mk l₂).shouldIntercept p = false :=
      shouldIntercept_of_contested hboth hsort₂ hfirst₂
    have hsame := hdecided yaml yaml ⟨[]⟩ ⟨[]⟩ _ _ (.refl yaml) (.refl yaml)
      (Reload.of_sorts ⟨[]⟩ hsort₁) (Reload.of_sorts ⟨[]⟩ hsort₂)
    rw [hyes, hno] at hsame
    cases hsame
  · intro hone yaml₁ yaml₂ before₁ before₂ conf₁ conf₂ hre₁ hre₂ hload₁ hload₂
    -- each of the two decisions is the one by the lists as they were given
    have hlists : ∀ {yaml' : YamlConf} {before conf : ConfigurationManager},
        Rearranged yaml yaml' → Reload before (.parseYAML env yaml') conf →
        (conf.shouldIntercept p = true ↔ LongestIncluded (Load.parseYAML env yaml).includes
          (Load.parseYAML env yaml).excludes p) := by
      intro yaml' before conf hre hload
      have hone' : ¬ Contested (Load.parseYAML env yaml').includes
          (Load.parseYAML env yaml').excludes p :=
        fun h => hone ((contested_congr hre.mem_includes hre.mem_excludes).mp h)
      exact (shouldIntercept_of_uncontested hload.sorts hone').trans
        (longestIncluded_congr hre.mem_includes hre.mem_excludes)
    rw [Bool.eq_iff_iff, hlists hre₁ hload₁, hlists hre₂ hload₂]

/-! A file that includes `/a` and excludes it too. -/

def contestedYaml : YamlConf := ⟨some [['/', 'a']], some [['/', 'a']]⟩

/-- The sort may leave either entry in front. -/
theorem both_decisions :
    Reload ⟨[]⟩ (.parseYAML rootEnv contestedYaml) ⟨[⟨['/', 'a'], true⟩, ⟨['/', 'a'], false⟩]⟩ ∧
    Reload ⟨[]⟩ (.parseYAML rootEnv contestedYaml) ⟨[⟨['/', 'a'], false⟩, ⟨['/', 'a'], true⟩]⟩ ∧
    ¬ Decided rootEnv contestedYaml ['/', 'a'] := by
  have hkept : Reload ⟨[]⟩ (.parseYAML rootEnv contestedYaml)
      ⟨[⟨['/', 'a'], true⟩, ⟨['/', 'a'], false⟩]⟩ :=
    Reload.of_sorts _ ⟨List.Perm.refl _, by decide⟩
  have hswapped : Reload ⟨[]⟩ (.parseYAML rootEnv contestedYaml)
      ⟨[⟨['/', 'a'], false⟩, ⟨['/', 'a'], true⟩]⟩ :=
    Reload.of_sorts _ ⟨List.Perm.swap .., by decide⟩
  refine ⟨hkept, hswapped, fun hdecided => ?_⟩
  have hsame := hdecided _ _ _ _ _ _ (.refl _) (.refl _) hkept hswapped
  exact absurd hsame (by decide)

end DTIO.Properties.UniqueDecision
