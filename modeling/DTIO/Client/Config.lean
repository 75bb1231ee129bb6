import DTIO.Foundation.LongestMatch
import DTIO.Posix.State

/-!
# Configuration Manager

The interception list of `ConfigurationManager` (`include/dtio/config_manager.h`): path
entries sorted by descending length, each including or excluding what starts with it.

The list is loaded from a configuration file or set to a default, any number of times.
`std::sort` does not say how it arranges entries of one length, so loading is a relation.
-/

namespace DTIO.Client

open DTIO.Posix DTIO.LongestMatch

/-- `struct PathEntry`. -/
structure PathEntry where
  path : PathStr
  doInclude : Bool
  deriving DecidableEq, Repr

structure ConfigurationManager where
  pathEntries : List PathEntry
  deriving DecidableEq, Repr

namespace ConfigurationManager

/-- The first entry the path starts with decides; without one nothing is intercepted. -/
def shouldIntercept (conf : ConfigurationManager) (absolutePath : PathStr) : Bool :=
  match conf.pathEntries.find? fun entry => entry.path.isPrefixOf absolutePath with
  | some entry => entry.doInclude
  | none => false

/-- Default: intercept everything under `/tmp`. -/
def loadDefault : ConfigurationManager :=
  ⟨[⟨['/', 't', 'm', 'p'], true⟩, ⟨['/'], false⟩]⟩

end ConfigurationManager

/-! ## Loading a configuration -/

/-- `hshm::ConfigParse::ExpandPath`, which replaces each `${NAME}` by the value of the
environment variable, and so keeps a path without a `$`. -/
structure ExpandPath where
  expand : PathStr → PathStr
  keeps : ∀ path, '$' ∉ path → expand path = path

/-- The process at the time of loading: its environment variables and working directory. -/
structure LoadEnv where
  expandPath : ExpandPath
  cwd : AbsPath

/-- `std::filesystem::absolute(ExpandPath(path)).string()`. -/
def LoadEnv.absPath (env : LoadEnv) (path : PathStr) : PathStr :=
  absolute env.cwd (env.expandPath.expand path)

/-- The parts of the YAML document that are read; a missing node is `none`. -/
structure YamlConf where
  includeNode : Option (List PathStr)
  excludeNode : Option (List PathStr)

/-- `BaseConfig::ParseVector` on a list that is empty before, called if the node exists. -/
def parseVector (node : Option (List PathStr)) : List PathStr := node.getD []

namespace ConfigurationManager

/-- `path_entries_.emplace_back(abs_path, include)`. -/
def emplaceBack (conf : ConfigurationManager) (absPath : PathStr) (doInclude : Bool) :
    ConfigurationManager :=
  ⟨conf.pathEntries ++ [⟨absPath, doInclude⟩]⟩

/-- One of the two loops of `ParseYAML`. -/
def emplaceAll (env : LoadEnv) (doInclude : Bool) (paths : List PathStr)
    (conf : ConfigurationManager) : ConfigurationManager :=
  paths.foldl (fun conf path => conf.emplaceBack (env.absPath path) doInclude) conf

/-- `path_entries_.clear()`. -/
def clear (_conf : ConfigurationManager) : ConfigurationManager := ⟨[]⟩

/-- `ParseYAML` up to the call of `std::sort`. -/
def combine (env : LoadEnv) (yaml : YamlConf) (conf : ConfigurationManager) :
    ConfigurationManager :=
  emplaceAll env false (parseVector yaml.excludeNode)
    (emplaceAll env true (parseVector yaml.includeNode) conf.clear)

theorem emplaceAll_pathEntries (env : LoadEnv) (doInclude : Bool) (paths : List PathStr)
    (conf : ConfigurationManager) :
    (emplaceAll env doInclude paths conf).pathEntries =
      conf.pathEntries ++ paths.map fun path => ⟨env.absPath path, doInclude⟩ := by
  induction paths generalizing conf with
  | nil => simp [emplaceAll]
  | cons path paths ih =>
    have hstep := ih (conf.emplaceBack (env.absPath path) doInclude)
    simp only [emplaceAll, List.foldl_cons] at hstep ⊢
    rw [hstep]
    simp [emplaceBack]

end ConfigurationManager

/-- The comparator: `a.path.length() > b.path.length()`. -/
def longer (a b : PathEntry) : Bool := decide (a.path.length > b.path.length)

/-- The two functions that set the list. -/
inductive Load where
  | parseYAML (env : LoadEnv) (yaml : YamlConf)
  | loadDefault

namespace Load

/-- The paths that are included, as they are matched. -/
def includes : Load → List PathStr
  | parseYAML env yaml => (parseVector yaml.includeNode).map env.absPath
  | loadDefault => [['/', 't', 'm', 'p']]

/-- The paths that are excluded, as they are matched. -/
def excludes : Load → List PathStr
  | parseYAML env yaml => (parseVector yaml.excludeNode).map env.absPath
  | loadDefault => [['/']]

/-- The entries before they are sorted. -/
def entries (load : Load) : List PathEntry :=
  load.includes.map (⟨·, true⟩) ++ load.excludes.map (⟨·, false⟩)

@[simp] theorem mem_entries {load : Load} {e : PathEntry} :
    e ∈ load.entries ↔
      e.doInclude = true ∧ e.path ∈ load.includes ∨
        e.doInclude = false ∧ e.path ∈ load.excludes := by
  obtain ⟨path, doInclude⟩ := e
  cases doInclude <;> simp [entries]

end Load

/-- One load takes the manager from `conf` to `conf'`. -/
inductive Reload (conf : ConfigurationManager) : Load → ConfigurationManager → Prop
  -- `std::sort` is not stable: entries of one length may end up in any order
  | parseYAML {env yaml entries} : Sorts longer (conf.combine env yaml).pathEntries entries →
      Reload conf (.parseYAML env yaml) ⟨entries⟩
  | loadDefault : Reload conf .loadDefault ConfigurationManager.loadDefault

/-- Any number of loads, one after the other. -/
inductive Reloads (conf₀ : ConfigurationManager) : List Load → ConfigurationManager → Prop
  | nil : Reloads conf₀ [] conf₀
  | snoc {loads load conf conf'} : Reloads conf₀ loads conf → Reload conf load conf' →
      Reloads conf₀ (loads ++ [load]) conf'

/-- Whatever the list was before, a load sorts the entries of this load. -/
theorem Reload.sorts {conf conf' : ConfigurationManager} {load : Load}
    (h : Reload conf load conf') : Sorts longer load.entries conf'.pathEntries := by
  cases h with
  | @parseYAML env yaml entries h =>
    have hcombine : (conf.combine env yaml).pathEntries = (Load.parseYAML env yaml).entries := by
      rw [ConfigurationManager.combine, ConfigurationManager.emplaceAll_pathEntries,
        ConfigurationManager.emplaceAll_pathEntries]
      simp [ConfigurationManager.clear, Load.entries, Load.includes, Load.excludes,
        Function.comp_def]
    exact hcombine ▸ h
  | loadDefault => exact ⟨.refl _, by simp [ConfigurationManager.loadDefault, longer]⟩

/-- Conversely, every arrangement of the entries that a YAML load may leave is reached. -/
theorem Reload.of_sorts (conf : ConfigurationManager) {env : LoadEnv} {yaml : YamlConf}
    {entries : List PathEntry} (h : Sorts longer (Load.parseYAML env yaml).entries entries) :
    Reload conf (.parseYAML env yaml) ⟨entries⟩ := by
  refine .parseYAML ?_
  rw [ConfigurationManager.combine, ConfigurationManager.emplaceAll_pathEntries,
    ConfigurationManager.emplaceAll_pathEntries]
  simpa [ConfigurationManager.clear, Load.entries, Load.includes, Load.excludes,
    Function.comp_def] using h

/-- Only the last load counts. -/
theorem Reloads.sorts {conf₀ conf : ConfigurationManager} {loads : List Load} {load : Load}
    (h : Reloads conf₀ (loads ++ [load]) conf) : Sorts longer load.entries conf.pathEntries := by
  generalize hlist : loads ++ [load] = list at h
  cases h with
  | nil => simp at hlist
  | snoc hloads hload =>
    obtain ⟨-, hlast⟩ := List.append_inj' hlist rfl
    obtain rfl := List.singleton_inj.mp hlast
    exact hload.sorts

/-! ## The decision -/

namespace ConfigurationManager

variable {conf : ConfigurationManager} {load : Load} {p : PathStr}

/-- No entry is behind a shorter one. -/
theorem pairwise_of_sorts {l l' : List PathEntry} (h : Sorts longer l l') :
    l'.Pairwise fun a b => b.path.length ≤ a.path.length :=
  h.ordered.imp fun hab => not_lt.mp (of_decide_eq_false hab)

/-- The decision is made by a longest matching entry of the last load, if there is a match. -/
theorem shouldIntercept_cases (h : Sorts longer load.entries conf.pathEntries) (p : PathStr) :
    (∃ e, Longest PathEntry.path load.entries p e ∧ conf.shouldIntercept p = e.doInclude) ∨
      (∀ e ∈ load.entries, ¬ e.path <+: p) ∧ conf.shouldIntercept p = false := by
  rw [shouldIntercept]
  cases hfind : conf.pathEntries.find? fun entry => entry.path.isPrefixOf p with
  | some e =>
    have hlongest := longest_of_find? (pairwise_of_sorts h) hfind
    exact .inl ⟨e, hlongest.perm h.perm, rfl⟩
  | none =>
    refine .inr ⟨fun e he hp => ?_, rfl⟩
    have hno := List.find?_eq_none.mp hfind e (h.perm.mem_iff.mpr he)
    exact hno (List.isPrefixOf_iff_prefix.mpr hp)

end ConfigurationManager

/-! ### Two arrangements -/

/-- The comparator, with the entries of one kind first among those of one length. -/
def favours (first : Bool) (a b : PathEntry) : Bool :=
  decide (b.path.length < a.path.length) ||
    (decide (a.path.length = b.path.length) && (a.doInclude == first || b.doInclude != first))

theorem favours_iff {first : Bool} {a b : PathEntry} :
    favours first a b = true ↔ b.path.length < a.path.length ∨
      (a.path.length = b.path.length ∧ (a.doInclude = first ∨ b.doInclude ≠ first)) := by
  simp [favours]

/-- A sort may put either kind first. -/
theorem exists_favouring (first : Bool) (entries : List PathEntry) :
    ∃ l, Sorts longer entries l ∧ l.Pairwise fun a b => favours first a b = true := by
  refine exists_sorts (favours first) ?_ ?_ ?_ entries
  -- transitive: by length, then by the bit
  · intro a b c hab hbc
    rw [favours_iff] at hab hbc ⊢
    rcases hab with hab | ⟨hab, hfirst⟩
    · rcases hbc with hbc | ⟨hbc, -⟩
      · exact Or.inl (hbc.trans hab)
      · exact Or.inl (hbc ▸ hab)
    · rcases hbc with hbc | ⟨hbc, hfirst'⟩
      · exact Or.inl (hab ▸ hbc)
      · refine Or.inr ⟨hab.trans hbc, ?_⟩
        rcases hfirst with hfirst | hfirst
        · exact Or.inl hfirst
        · exact Or.inr (hfirst'.resolve_left hfirst)
  -- any two entries are ordered one way or the other
  · intro a b
    rw [Bool.or_eq_true, favours_iff, favours_iff]
    rcases lt_trichotomy a.path.length b.path.length with hlt | heq | hgt
    · exact Or.inr (Or.inl hlt)
    · by_cases hfirst : a.doInclude = first
      · exact Or.inl (Or.inr ⟨heq, Or.inl hfirst⟩)
      · exact Or.inr (Or.inr ⟨heq.symm, Or.inr hfirst⟩)
    · exact Or.inl (Or.inl hgt)
  -- and it refines the order by length
  · intro a b hab
    rw [favours_iff] at hab
    unfold longer
    rw [decide_eq_false_iff_not]
    omega

/-- A longest match of the kind that stands first decides. -/
theorem ConfigurationManager.shouldIntercept_of_favoured {conf : ConfigurationManager}
    {entries : List PathEntry} {p : PathStr} {e : PathEntry}
    (h : Sorts longer entries conf.pathEntries) (he : Longest PathEntry.path entries p e)
    (hfirst : conf.pathEntries.Pairwise fun a b => favours e.doInclude a b = true) :
    conf.shouldIntercept p = e.doInclude := by
  have hmem : e ∈ conf.pathEntries := h.perm.mem_iff.mpr he.mem
  have hmatch : e.path.isPrefixOf p = true := List.isPrefixOf_iff_prefix.mpr he.begins
  rw [shouldIntercept]
  cases hfind : conf.pathEntries.find? fun entry => entry.path.isPrefixOf p with
  | none => exact absurd hmatch (List.find?_eq_none.mp hfind e hmem)
  | some found =>
    have hlongest := (longest_of_find? (pairwise_of_sorts h) hfind).perm h.perm
    obtain ⟨-, before, after, hsplit, hbefore⟩ := List.find?_eq_some_iff_append.mp hfind
    rw [hsplit] at hmem hfirst
    rcases List.mem_append.mp hmem with hin | hin
    · have hno := hbefore e hin
      rw [hmatch] at hno
      cases hno
    · rcases List.mem_cons.mp hin with rfl | hin
      · rfl
      · -- it stands behind the entry that was found, which is as long
        have hle := (List.pairwise_cons.mp (List.pairwise_append.mp hfirst).2.1).1 e hin
        have hpath : found.path = e.path := hlongest.key_eq he
        rcases favours_iff.mp hle with hlt | ⟨-, hkind | hother⟩
        · rw [hpath] at hlt
          exact absurd hlt (lt_irrefl _)
        · exact hkind
        · exact absurd rfl hother

end DTIO.Client
