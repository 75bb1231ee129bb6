import DTIO.Client.Config
import DTIO.Posix.PathNames

/-!
# Which Paths are Intercepted

The interception list is matched by characters: the longest entry that a path begins with
decides, however `std::sort` arranges entries of one length and however often the list was
loaded before.

A configuration means directories: the deepest entry that is the path or a directory above it
should decide.  The two differ where the longest entry ends inside a name of the path.

## Main results

- `longest_prefix_decides`: the decision by characters, after any sequence of loads
- `containment_iff`: exactly when the decision is the one by directories
- `sibling_intercepted`: the default configuration intercepts `/tmpfoo`
-/

namespace DTIO.Properties.Interception

open DTIO.Posix DTIO.Client DTIO.LongestMatch

/-! ## The decision by characters -/

/-- `p` begins with a path of the lists, and the longest such path is an included one. -/
def LongestIncluded (includes excludes : List PathStr) (p : PathStr) : Prop :=
  ∃ q ∈ includes, Longest id (includes ++ excludes) p q

variable {conf₀ conf : ConfigurationManager} {loads : List Load} {load : Load}

/-- An entry with a longest path has a path that is longest in the two lists. -/
theorem longest_path {p : PathStr} {e : PathEntry}
    (h : Longest PathEntry.path load.entries p e) :
    Longest id (load.includes ++ load.excludes) p e.path := by
  refine ⟨?_, h.begins, fun q hq hp => ?_⟩
  · rcases Load.mem_entries.mp h.mem with ⟨-, he⟩ | ⟨-, he⟩
    · exact List.mem_append_left _ he
    · exact List.mem_append_right _ he
  · rcases List.mem_append.mp hq with hq | hq
    · exact h.longest ⟨q, true⟩ (Load.mem_entries.mpr (.inl ⟨rfl, hq⟩)) hp
    · exact h.longest ⟨q, false⟩ (Load.mem_entries.mpr (.inr ⟨rfl, hq⟩)) hp

/-- The longest path that `p` begins with is in both lists. -/
def Contested (includes excludes : List PathStr) (p : PathStr) : Prop :=
  ∃ q ∈ includes, q ∈ excludes ∧ Longest id (includes ++ excludes) p q

/-- The decision made from any arrangement of the entries of one load, where the longest match is
in one of the lists only. -/
theorem shouldIntercept_of_uncontested {p : PathStr}
    (h : Sorts longer load.entries conf.pathEntries)
    (hone : ¬ Contested load.includes load.excludes p) :
    conf.shouldIntercept p = true ↔ LongestIncluded load.includes load.excludes p := by
  rcases ConfigurationManager.shouldIntercept_cases h p with ⟨e, he, hdecision⟩ | ⟨hno, hfalse⟩
  · have hlongest := longest_path he
    rw [hdecision]
    constructor
    · intro hinclude
      rcases Load.mem_entries.mp he.mem with ⟨-, hmem⟩ | ⟨hexclude, -⟩
      · exact ⟨e.path, hmem, hlongest⟩
      · simp [hinclude] at hexclude
    · rintro ⟨q, hq, hq'⟩
      -- all longest paths are one string
      have hpath : q = e.path := hq'.key_eq hlongest
      rcases Load.mem_entries.mp he.mem with ⟨hinclude, -⟩ | ⟨-, hmem⟩
      · exact hinclude
      · exact absurd ⟨q, hq, hpath ▸ hmem, hq'⟩ hone
  · simp only [hfalse, Bool.false_eq_true, false_iff]
    rintro ⟨q, hq, hq'⟩
    exact hno ⟨q, true⟩ (Load.mem_entries.mpr (.inl ⟨rfl, hq⟩)) hq'.begins

/-- Nothing is contested if the lists have no path in common. -/
theorem shouldIntercept_iff (h : Sorts longer load.entries conf.pathEntries)
    (hdisj : ∀ q ∈ load.includes, q ∉ load.excludes) (p : PathStr) :
    conf.shouldIntercept p = true ↔ LongestIncluded load.includes load.excludes p := by
  refine shouldIntercept_of_uncontested h ?_
  rintro ⟨q, hinclude, hexclude, -⟩
  exact hdisj q hinclude hexclude

/-- The longest entry that a path begins with decides: after any sequence of loads, by the lists
of the last one and whatever arrangement the sort left. -/
theorem longest_prefix_decides (hrun : Reloads conf₀ (loads ++ [load]) conf)
    (hdisj : ∀ q ∈ load.includes, q ∉ load.excludes) (p : AbsPath) :
    conf.shouldIntercept p.1 = true ↔ LongestIncluded load.includes load.excludes p.1 :=
  shouldIntercept_iff hrun.sorts hdisj p.1

/-! A file that includes `/a` and excludes `/a/b`, loaded in place of the default. -/

theorem id_keeps (path : PathStr) (_ : '$' ∉ path) : id path = path := rfl

theorem head_slash : (['/'] : PathStr).head? = some '/' := rfl

/-- A process in `/` whose configuration mentions no variable. -/
def rootEnv : LoadEnv := ⟨⟨id, id_keeps⟩, ⟨['/'], head_slash⟩⟩

def nestedYaml : YamlConf := ⟨some [['/', 'a']], some [['/', 'a', '/', 'b']]⟩

def nestedConf : ConfigurationManager :=
  ⟨[⟨['/', 'a', '/', 'b'], false⟩, ⟨['/', 'a'], true⟩]⟩

theorem nestedConf_reload (conf : ConfigurationManager) :
    Reload conf (.parseYAML rootEnv nestedYaml) nestedConf :=
  Reload.of_sorts conf ⟨List.Perm.swap .., by decide⟩

theorem longest_prefix_decides_nested :
    Reloads ⟨[]⟩ ([.loadDefault] ++ [.parseYAML rootEnv nestedYaml]) nestedConf ∧
      (nestedConf.shouldIntercept ['/', 'a', '/', 'c'] = true ↔
        LongestIncluded [['/', 'a']] [['/', 'a', '/', 'b']] ['/', 'a', '/', 'c']) := by
  have hrun : Reloads ⟨[]⟩ ([.loadDefault] ++ [.parseYAML rootEnv nestedYaml]) nestedConf :=
    .snoc (.snoc .nil .loadDefault) (nestedConf_reload _)
  exact ⟨hrun, longest_prefix_decides hrun (by decide) ⟨['/', 'a', '/', 'c'], rfl⟩⟩

/-! ## The decision by directories -/

/-- Of the paths that contain `p` the deepest is an included one. -/
def DeepestIncluded (includes excludes : List NormalPath) (p : NormalPath) : Prop :=
  ∃ q ∈ includes, Longest NormalPath.names (includes ++ excludes) p.names q

/-- `q` ends inside a name of `p`, is deeper than every entry that contains `p`, and is the
longest of those that end inside a name of `p`. -/
structure Overrides (entries : List NormalPath) (p q : NormalPath) : Prop where
  mem : q ∈ entries
  stray : q.Stray p
  deeper : ∀ d ∈ entries, d.Contains p → d.names.length < q.names.length
  longest : ∀ q' ∈ entries, q'.Stray p → q'.toStr.length ≤ q.toStr.length

variable {entries : List NormalPath} {p q : NormalPath}

/-- A longest match by characters that contains the path is the deepest one that does. -/
theorem deepest_of_longest (h : Longest NormalPath.toStr entries p.toStr q)
    (hq : q.Contains p) : Longest NormalPath.names entries p.names q := by
  refine ⟨h.mem, hq, fun d hd hdp => not_lt.mp fun hlt => ?_⟩
  have hlonger : q.toStr.length < d.toStr.length := hq.length_lt hdp hlt
  have hbegins : d.toStr <+: p.toStr := (NormalPath.toStr_prefix_iff d p).mpr (.inl hdp)
  exact absurd (h.longest d hd hbegins) (not_le.mpr hlonger)

/-- A longest match by characters that does not contain the path overrides those that do. -/
theorem overrides_of_longest (h : Longest NormalPath.toStr entries p.toStr q)
    (hq : q.Stray p) : Overrides entries p q where
  mem := h.mem
  stray := hq
  deeper d hd hdp := by
    by_contra hdeep
    have hlonger : q.toStr.length < d.toStr.length := hq.length_lt hdp (not_lt.mp hdeep)
    have hbegins : d.toStr <+: p.toStr := (NormalPath.toStr_prefix_iff d p).mpr (.inl hdp)
    exact absurd (h.longest d hd hbegins) (not_le.mpr hlonger)
  longest q' hq' hstray := h.longest q' hq' ((NormalPath.toStr_prefix_iff q' p).mpr (.inr hstray))

/-- What overrides is the longest match by characters. -/
theorem Overrides.toLongest (h : Overrides entries p q) :
    Longest NormalPath.toStr entries p.toStr q := by
  refine ⟨h.mem, (NormalPath.toStr_prefix_iff q p).mpr (.inr h.stray), fun q' hq' hbegins => ?_⟩
  rcases (NormalPath.toStr_prefix_iff q' p).mp hbegins with hcontains | hstray
  · exact (hcontains.length_lt_stray h.stray (h.deeper q' hq' hcontains)).le
  · exact h.longest q' hq' hstray

/-- Two longest matches by characters are one path. -/
theorem longest_unique {q' : NormalPath} (h : Longest NormalPath.toStr entries p.toStr q)
    (h' : Longest NormalPath.toStr entries p.toStr q') : q = q' :=
  NormalPath.toStr_inj (h.key_eq h')

variable {includes excludes : List NormalPath}

/-- The lists of paths and the lists of their strings have the same longest matches. -/
theorem longestIncluded_map :
    LongestIncluded (includes.map NormalPath.toStr) (excludes.map NormalPath.toStr) p.toStr ↔
      ∃ q ∈ includes, Longest NormalPath.toStr (includes ++ excludes) p.toStr q := by
  -- longest among the strings is longest among the paths they are of
  have hlongest : ∀ q ∈ includes,
      Longest id (includes.map NormalPath.toStr ++ excludes.map NormalPath.toStr) p.toStr q.toStr ↔
        Longest NormalPath.toStr (includes ++ excludes) p.toStr q := by
    intro q hq
    rw [← List.map_append]
    constructor
    · intro h
      exact ⟨List.mem_append_left _ hq, h.begins,
        fun q' hq' hp => h.longest q'.toStr (List.mem_map_of_mem hq') hp⟩
    · intro h
      refine ⟨List.mem_map_of_mem h.mem, h.begins, fun s hs hp => ?_⟩
      obtain ⟨q', hq', rfl⟩ := List.mem_map.mp hs
      exact h.longest q' hq' hp
  constructor
  · rintro ⟨s, hs, h⟩
    obtain ⟨q, hq, rfl⟩ := List.mem_map.mp hs
    exact ⟨q, hq, (hlongest q hq).mp h⟩
  · rintro ⟨q, hq, h⟩
    exact ⟨q.toStr, List.mem_map_of_mem hq, (hlongest q hq).mpr h⟩

/-- Where nothing overrides, the longest match by characters is the deepest directory. -/
theorem longest_iff_deepest (hno : ∀ q, ¬ Overrides (includes ++ excludes) p q) :
    (∃ q ∈ includes, Longest NormalPath.toStr (includes ++ excludes) p.toStr q) ↔
      DeepestIncluded includes excludes p := by
  have hcontains : ∀ q, Longest NormalPath.toStr (includes ++ excludes) p.toStr q →
      q.Contains p := by
    intro q hq
    rcases (NormalPath.toStr_prefix_iff q p).mp hq.begins with hcontains | hstray
    · exact hcontains
    · exact absurd (overrides_of_longest hq hstray) (hno q)
  constructor
  · rintro ⟨q, hq, hlongest⟩
    exact ⟨q, hq, deepest_of_longest hlongest (hcontains q hlongest)⟩
  · rintro ⟨q, hq, hdeepest⟩
    have hmatch : q.toStr <+: p.toStr :=
      (NormalPath.toStr_prefix_iff q p).mpr (.inl hdeepest.begins)
    obtain ⟨q', hq'⟩ := exists_longest ⟨q, hdeepest.mem, hmatch⟩
    have hdeepest' := deepest_of_longest hq' (hcontains q' hq')
    have heq : q' = q := NormalPath.ext_names (hdeepest'.key_eq hdeepest)
    exact ⟨q, hq, heq ▸ hq'⟩

/-- The decision for `p` is that of the deepest configured directory that contains it if and
only if an entry that overrides these is in the same list as the deepest one. -/
theorem containment_iff (hrun : Reloads conf₀ (loads ++ [load]) conf)
    (hincludes : load.includes = includes.map NormalPath.toStr)
    (hexcludes : load.excludes = excludes.map NormalPath.toStr)
    (hdisj : ∀ q ∈ includes, q ∉ excludes) (p : NormalPath) :
    (conf.shouldIntercept p.toStr = true ↔ DeepestIncluded includes excludes p) ↔
      ∀ q, Overrides (includes ++ excludes) p q →
        (q ∈ includes ↔ DeepestIncluded includes excludes p) := by
  have hdisjStr : ∀ s ∈ load.includes, s ∉ load.excludes := by
    rw [hincludes, hexcludes]
    intro s hs hs'
    obtain ⟨q, hq, rfl⟩ := List.mem_map.mp hs
    obtain ⟨q', hq', heq⟩ := List.mem_map.mp hs'
    exact hdisj q hq (NormalPath.toStr_inj heq ▸ hq')
  rw [shouldIntercept_iff hrun.sorts hdisjStr p.toStr, hincludes, hexcludes, longestIncluded_map]
  by_cases hoverride : ∃ q, Overrides (includes ++ excludes) p q
  · obtain ⟨q, hq⟩ := hoverride
    -- it is the only longest match, so it decides
    have hdecides :
        (∃ q ∈ includes, Longest NormalPath.toStr (includes ++ excludes) p.toStr q) ↔
          q ∈ includes := by
      constructor
      · rintro ⟨q', hq', hlongest⟩
        exact longest_unique hlongest hq.toLongest ▸ hq'
      · intro hmem
        exact ⟨q, hmem, hq.toLongest⟩
    rw [hdecides]
    constructor
    · intro h q' hq'
      exact longest_unique hq.toLongest hq'.toLongest ▸ h
    · intro h
      exact h q hq
  · have hno : ∀ q, ¬ Overrides (includes ++ excludes) p q := not_exists.mp hoverride
    rw [longest_iff_deepest hno]
    simp [hno]

/-! The entries of the default configuration, a path in `/tmp` and one beside it. -/

def rootDir : NormalPath := ⟨[], by simp⟩

def tmpDir : NormalPath := ⟨[['t', 'm', 'p']], by decide⟩

def tmpFile : NormalPath := ⟨[['t', 'm', 'p'], ['f']], by decide⟩

def tmpSibling : NormalPath := ⟨[['t', 'm', 'p', 'f']], by decide⟩

theorem default_reloads : Reloads ⟨[]⟩ ([] ++ [.loadDefault]) ConfigurationManager.loadDefault :=
  .snoc .nil .loadDefault

theorem containment_iff_tmp :
    Reloads ⟨[]⟩ ([] ++ [.loadDefault]) ConfigurationManager.loadDefault ∧
      ((ConfigurationManager.loadDefault.shouldIntercept tmpFile.toStr = true ↔
          DeepestIncluded [tmpDir] [rootDir] tmpFile) ↔
        ∀ q, Overrides ([tmpDir] ++ [rootDir]) tmpFile q →
          (q ∈ [tmpDir] ↔ DeepestIncluded [tmpDir] [rootDir] tmpFile)) :=
  ⟨default_reloads, containment_iff default_reloads rfl rfl (by decide) tmpFile⟩

/-- By default everything under `/tmp` is to be intercepted.  `/tmpf` is not under `/tmp`, and
intercepted. -/
theorem sibling_intercepted :
    Reloads ⟨[]⟩ ([] ++ [.loadDefault]) ConfigurationManager.loadDefault ∧
      Load.loadDefault.includes = [tmpDir].map NormalPath.toStr ∧
      Load.loadDefault.excludes = [rootDir].map NormalPath.toStr ∧
      ¬ (ConfigurationManager.loadDefault.shouldIntercept tmpSibling.toStr = true ↔
        DeepestIncluded [tmpDir] [rootDir] tmpSibling) := by
  refine ⟨default_reloads, rfl, rfl, fun h => ?_⟩
  obtain ⟨q, hq, hdeepest⟩ := h.mp (by decide)
  -- the only included entry is not above `/tmpf`
  obtain rfl := List.mem_singleton.mp hq
  exact absurd hdeepest.begins (by decide)

end DTIO.Properties.Interception
