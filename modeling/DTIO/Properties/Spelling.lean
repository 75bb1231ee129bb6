import DTIO.Adapter.Stdio
import DTIO.Posix.PathNames
import Mathlib.Data.List.Find

/-!
# Spellings of a Path

One file has many names: `/tmp/f`, `//tmp/f`, `/./tmp/f`, or `f` in the directory `/tmp`.  The
adapters put the working directory in front of a relative name and match the outcome as it is,
and so does the configuration with its entries.

A name can begin with any number of components `.`, so that no entry but one that consists of
these matches it.  A decision that does not depend on the spelling is therefore one and the same
for all files.

## Main definitions

- `decision call path p`: whether a call that opens `path` intercepts it
- `SpellingIndependent`: two spellings of a path are decided alike
- `RespellingSafe`: another spelling of an entry changes no decision below that directory
- `Uniform`: nothing is included, or nothing excluded and every path matched

## Main results

- `spelling_iff`: spellings do not matter if and only if the configuration is uniform
- `spelling_matters`: `/./tmp/f` with the default configuration
-/

namespace DTIO.Properties.Spelling

open DTIO.Posix DTIO.Chimod DTIO.Client DTIO.Adapter DTIO.LongestMatch

/-! ## Decisions -/

/-- The calls that open a file by its name. -/
inductive Opening where
  | open64 (flags mode : Nat)
  | creat64 (mode : Nat)
  | fopen (mode : List Char) (fp : FilePtr)

/-- The program with a configuration, and with nothing registered yet. -/
def configured (p : Program) (conf : ConfigurationManager) : Program :=
  p.withSys { p.sys with clientMeta := .empty, config := conf }

/-- The working directory of the application. -/
def cwd (p : Program) : AbsPath := p.sys.kernel.host.cwd appPid

/-- Whether the descriptor that a call returned is registered. -/
def registered (o : Outcome) : Option Bool :=
  if o.result.value < 0 then none
  else some (o.system.clientMeta.isPosixFdRegistered o.result.value)

/-- Whether a call intercepts the file it opens; `none` if it opens nothing. -/
def decision (conf : ConfigurationManager) (call : Opening) (path : PathStr) (p : Program) :
    Option Bool :=
  match call with
  | .open64 flags mode => registered (Posix.open64 path flags mode (configured p conf).sys)
  | .creat64 mode => registered (Posix.creat64 path mode (configured p conf).sys)
  | .fopen mode fp =>
    let r := Stdio.fopen path mode fp (configured p conf)
    if r.1 = 0 then none else some (r.2.sys.clientMeta.isStdioFpRegistered r.1)

/-- What `open` and `creat` register when the real call has returned. -/
theorem registered_afterOpen {conf : ConfigurationManager} {path : PathStr} {p : Program}
    {flags : Nat} {r : Int × Kernel} :
    registered (Posix.afterOpen path flags r (configured p conf).sys) =
      if r.1 < 0 then none else some (conf.shouldIntercept (absolute (cwd p) path)) := by
  by_cases hfd : r.1 < 0
  · simp [registered, Posix.afterOpen, hfd]
  · have hconf : (configured p conf).sys.config = conf := rfl
    have hcwd : (configured p conf).sys.kernel.host.cwd appPid = cwd p := rfl
    have hempty : (configured p conf).sys.clientMeta.posixFiles r.1 = none := rfl
    cases hdecision : conf.shouldIntercept (absolute (cwd p) path) with
    | true =>
      simp [registered, Posix.afterOpen, hfd, hconf, hcwd, hdecision,
        ClientMetadataManager.registerPosixFd, ClientMetadataManager.isPosixFdRegistered,
        FileTable.isRegistered]
    | false =>
      simp [registered, Posix.afterOpen, hfd, hconf, hcwd, hdecision, System.withKernel, hempty,
        ClientMetadataManager.isPosixFdRegistered, FileTable.isRegistered]

/-- The three calls decide by the absolute path alone. -/
theorem decision_eq {conf : ConfigurationManager} {call : Opening} {path : PathStr}
    {p : Program} {d : Bool} (h : decision conf call path p = some d) :
    d = conf.shouldIntercept (absolute (cwd p) path) := by
  -- `open64` and `creat64` register the descriptor if the path is intercepted
  have of_registered : ∀ {flags r},
      registered (Posix.afterOpen path flags r (configured p conf).sys) = some d →
        d = conf.shouldIntercept (absolute (cwd p) path) := by
    intro flags r h
    rw [registered_afterOpen] at h
    split at h
    · cases h
    · exact (Option.some.inj h).symm
  cases call with
  | open64 flags mode => exact of_registered h
  | creat64 mode => exact of_registered h
  -- `fopen` registers the stream, unless it is null
  | fopen mode fp =>
    obtain ⟨hconf, hmeta⟩ := StdioApi.fopen_sys path mode fp (configured p conf)
    have hconf' : (configured p conf).sys.config = conf := rfl
    have hmeta' : (configured p conf).sys.clientMeta = .empty := rfl
    have hcwd : (configured p conf).sys.kernel.host.cwd appPid = cwd p := rfl
    by_cases hnull : (StdioApi.fopen path mode fp (configured p conf)).1 = 0
    · simp [decision, Stdio.fopen, hnull] at h
    · cases hdecision : conf.shouldIntercept (absolute (cwd p) path) with
      | true =>
        simpa [decision, Stdio.fopen, hnull, hconf, hconf', hcwd, hdecision, Program.withSys,
          ClientMetadataManager.registerStdioFp, ClientMetadataManager.isStdioFpRegistered,
          FileTable.isRegistered] using h.symm
      | false =>
        simpa [decision, Stdio.fopen, hnull, hconf, hconf', hcwd, hdecision, hmeta, hmeta',
          ClientMetadataManager.empty, ClientMetadataManager.isStdioFpRegistered,
          FileTable.isRegistered] using h.symm

/-! ## Spellings -/

/-- From the working directory both paths are resolved to the same names. -/
def SameFile (plain : List Name → Bool) (cwd : AbsPath) (path path' : PathStr) : Prop :=
  ∃ names, lexical plain (absolute cwd path) = some names ∧
    lexical plain (absolute cwd path') = some names

/-- Calls on two spellings of a path make the same decision, whatever the plain directories
are. -/
def SpellingIndependent (conf : ConfigurationManager) : Prop :=
  ∀ plain p path path', SameFile plain (cwd p) path path' → ∀ call call' d d',
    decision conf call path p = some d → decision conf call' path' p = some d' → d = d'

/-- The lists of two loads differ in the spelling of one entry, which names `dir`. -/
inductive Respelled (plain : List Name → Bool) : Load → Load → List Name → Prop
  | included {env yaml before q q' after dir} :
      yaml.includeNode = some (before ++ q :: after) → env.absPath q ≠ env.absPath q' →
      lexical plain (env.absPath q) = some dir → lexical plain (env.absPath q') = some dir →
      Respelled plain (.parseYAML env yaml)
        (.parseYAML env { yaml with includeNode := some (before ++ q' :: after) }) dir
  | excluded {env yaml before q q' after dir} :
      yaml.excludeNode = some (before ++ q :: after) → env.absPath q ≠ env.absPath q' →
      lexical plain (env.absPath q) = some dir → lexical plain (env.absPath q') = some dir →
      Respelled plain (.parseYAML env yaml)
        (.parseYAML env { yaml with excludeNode := some (before ++ q' :: after) }) dir

/-- After a load with another spelling of one entry, every file below that directory is decided
as before. -/
def RespellingSafe (load : Load) (conf : ConfigurationManager) : Prop :=
  ∀ plain load' dir conf', Respelled plain load load' dir → Reload conf load' conf' →
    ∀ p path names, lexical plain (absolute (cwd p) path) = some names → dir <+: names →
      dir ≠ names → ∀ call d d', decision conf call path p = some d →
        decision conf' call path p = some d' → d = d'

/-- Spellings do not matter, neither those of paths nor those of entries. -/
def SpellingsIgnored (load : Load) : Prop :=
  ∀ conf₀ conf, Reload conf₀ load conf → SpellingIndependent conf ∧ RespellingSafe load conf

/-- Every name an absolute path is resolved to if all directories are plain. -/
def resolved (path : PathStr) : Option (List Name) := lexical (fun _ => true) path

/-- Nothing is included; or nothing is excluded, the root is included, and each time it is
listed the other entries match every path below the root as well. -/
def Uniform (load : Load) : Prop :=
  load.includes = [] ∨
    load.excludes = [] ∧ ['/'] ∈ load.includes ∧
      ∀ before after, load.includes = before ++ ['/'] :: after →
        ∀ path : AbsPath, resolved path.1 ≠ some [] → ∃ q ∈ before ++ after, q <+: path.1

/-! ## Uniform configurations ignore spellings -/

variable {conf conf' : ConfigurationManager} {load load' : Load}

/-- Without included entries no path is intercepted. -/
theorem shouldIntercept_of_no_includes (h : Sorts longer load.entries conf.pathEntries)
    (hnone : load.includes = []) (path : PathStr) : conf.shouldIntercept path = false := by
  rcases ConfigurationManager.shouldIntercept_cases h path with ⟨e, he, hdecision⟩ | ⟨-, hfalse⟩
  · rcases Load.mem_entries.mp he.mem with ⟨-, hmem⟩ | ⟨hexclude, -⟩
    · simp [hnone] at hmem
    · exact hdecision.trans hexclude
  · exact hfalse

/-- Without excluded entries every path is intercepted that begins with an entry. -/
theorem shouldIntercept_of_no_excludes (h : Sorts longer load.entries conf.pathEntries)
    (hnone : load.excludes = []) {path : PathStr} (hmatch : ∃ q ∈ load.includes, q <+: path) :
    conf.shouldIntercept path = true := by
  rcases ConfigurationManager.shouldIntercept_cases h path with ⟨e, he, hdecision⟩ | ⟨hno, -⟩
  · rcases Load.mem_entries.mp he.mem with ⟨hinclude, -⟩ | ⟨-, hmem⟩
    · exact hdecision.trans hinclude
    · simp [hnone] at hmem
  · obtain ⟨q, hq, hbegins⟩ := hmatch
    exact absurd hbegins (hno ⟨q, true⟩ (Load.mem_entries.mpr (.inl ⟨rfl, hq⟩)))

theorem begins_root {path : PathStr} (h : path.head? = some '/') : ['/'] <+: path := by
  cases path with
  | nil => simp at h
  | cons c rest => simpa using h.symm

theorem head_absPath (env : LoadEnv) (path : PathStr) : (env.absPath path).head? = some '/' :=
  head_absolute env.cwd (env.expandPath.expand path)

/-- Where nothing is included, nothing is included after an entry has been spelled otherwise. -/
theorem Respelled.includes_eq_nil {plain : List Name → Bool} {dir : List Name}
    (h : Respelled plain load load' dir) (hnone : load.includes = []) : load'.includes = [] := by
  cases h with
  | included hnode => simp [Load.includes, parseVector, hnode] at hnone
  | excluded => exact hnone

/-- Where nothing is excluded and every path below the root is matched whichever entry is left
out, every file below a directory is matched after its entry has been spelled otherwise. -/
theorem Respelled.matched {plain : List Name → Bool} {dir names : List Name} {path : PathStr}
    (h : Respelled plain load load' dir) (hnone : load.excludes = [])
    (hroot : ['/'] ∈ load.includes)
    (hothers : ∀ before after, load.includes = before ++ ['/'] :: after →
      ∀ path : AbsPath, resolved path.1 ≠ some [] → ∃ q ∈ before ++ after, q <+: path.1)
    (habs : path.head? = some '/') (hnames : lexical plain path = some names)
    (hbelow : dir <+: names) (hne : dir ≠ names) :
    load'.excludes = [] ∧ ∃ q ∈ load'.includes, q <+: path := by
  cases h with
  | excluded hnode => simp [Load.excludes, parseVector, hnode] at hnone
  | @included env yaml before q q' after _ hnode =>
    refine ⟨hnone, ?_⟩
    have hlist : (Load.parseYAML env yaml).includes =
        before.map env.absPath ++ env.absPath q :: after.map env.absPath := by
      simp [Load.includes, parseVector, hnode]
    -- the entries that were not touched
    have hkeep : ∀ s ∈ before.map env.absPath ++ after.map env.absPath,
        s ∈ (Load.parseYAML env
          { yaml with includeNode := some (before ++ q' :: after) }).includes := by
      intro s hs
      simp only [Load.includes, parseVector, Option.getD_some, List.map_append, List.map_cons]
      rcases List.mem_append.mp hs with hs | hs
      · exact List.mem_append_left _ hs
      · exact List.mem_append_right _ (List.mem_cons_of_mem _ hs)
    have hcases : ['/'] ∈ before.map env.absPath ++ after.map env.absPath ∨
        env.absPath q = ['/'] := by
      rw [hlist] at hroot
      simp only [List.mem_append, List.mem_cons] at hroot ⊢
      tauto
    rcases hcases with hmem | hq
    · exact ⟨['/'], hkeep _ hmem, begins_root habs⟩
    · have hresolved : resolved path ≠ some [] := by
        have hall : resolved path = some names := walk_mono (fun _ _ => rfl) hnames
        rw [hall]
        rintro ⟨rfl⟩
        exact hne (List.prefix_nil.mp hbelow)
      obtain ⟨s, hs, hbegins⟩ := hothers _ _ (hq ▸ hlist) ⟨path, habs⟩ hresolved
      exact ⟨s, hkeep s hs, hbegins⟩

theorem ignored_of_uniform (h : Uniform load) : SpellingsIgnored load := by
  intro conf₀ conf hload
  -- no includes: nothing is intercepted, however it is spelled
  rcases h with hnone | ⟨hnone, hroot, hothers⟩
  · constructor
    · intro plain p path path' _ call call' d d' hd hd'
      rw [decision_eq hd, decision_eq hd', shouldIntercept_of_no_includes hload.sorts hnone,
        shouldIntercept_of_no_includes hload.sorts hnone]
    · intro plain load' dir conf' hrespelled hload' p path names _ _ _ call d d' hd hd'
      have hnone' := hrespelled.includes_eq_nil hnone
      rw [decision_eq hd, decision_eq hd', shouldIntercept_of_no_includes hload.sorts hnone,
        shouldIntercept_of_no_includes hload'.sorts hnone']
  -- no excludes and the root included: everything is
  · have hall : ∀ (cwd : AbsPath) path, conf.shouldIntercept (absolute cwd path) = true := by
      intro cwd path
      exact shouldIntercept_of_no_excludes hload.sorts hnone
        ⟨['/'], hroot, begins_root (head_absolute cwd path)⟩
    constructor
    · intro plain p path path' _ call call' d d' hd hd'
      rw [decision_eq hd, decision_eq hd', hall, hall]
    · intro plain load' dir conf' hrespelled hload' p path names hnames hbelow hne call d d' hd hd'
      obtain ⟨hnone', hmatch⟩ := hrespelled.matched hnone hroot hothers
        (head_absolute (cwd p) path) hnames hbelow hne
      rw [decision_eq hd, decision_eq hd', hall,
        shouldIntercept_of_no_excludes hload'.sorts hnone' hmatch]

/-! ## What ignores spellings is uniform -/

/-- A program in `/`, where all directories are plain and one file exists. -/
def oneFile (names : List Name) : Program where
  sys :=
    let s := deployment threeBytes openToAll
    let host := { s.world.kernel.host with
      walk := fun path => if resolved path = some names then 0 else 1 }
    { s with world := { s.world with kernel := { s.world.kernel with host := host } } }
  files := fun _ => none

/-- There every spelling of the file can be opened. -/
theorem decision_oneFile (conf : ConfigurationManager) {path : PathStr} {names : List Name}
    (habs : path.head? = some '/') (hpath : resolved path = some names) :
    decision conf (.open64 oRdonly 0) path (oneFile names) = some (conf.shouldIntercept path) := by
  have hcwd : absolute (cwd (oneFile names)) path = path := absolute_of_head habs
  have hempty : path.isEmpty = false := by
    cases path with
    | nil => simp at habs
    | cons c rest => rfl
  have hkernel : (configured (oneFile names) conf).sys.kernel = (oneFile names).sys.kernel := rfl
  have hcwd' : (oneFile names).sys.kernel.host.cwd appPid = cwd (oneFile names) := rfl
  have hwalk : (oneFile names).sys.kernel.host.walk path = 0 := by
    change (if resolved path = some names then 0 else 1) = 0
    rw [if_pos hpath]
  have hfree : (oneFile names).sys.kernel.lowestFree appPid = some 0 := rfl
  have hopened : ((oneFile names).sys.kernel.open64 appPid path oRdonly 0).1 = 0 := by
    simp only [Kernel.open64, hempty, hcwd', hcwd, hwalk, hfree]
    rfl
  rw [decision, Posix.open64, registered_afterOpen, hkernel, hopened, hcwd]
  rfl

theorem resolved_dotted {path : PathStr} (h : path.head? = some '/') (n : Nat) :
    resolved (dotted n path) = resolved path :=
  lexical_dotted _ h n

theorem exists_resolved (path : PathStr) : ∃ names, resolved path = some names :=
  exists_walk [] (pathNames path)

/-- Two absolute spellings of a file are decided alike. -/
theorem SpellingIndependent.eq (h : SpellingIndependent conf) {path path' : PathStr}
    (habs : path.head? = some '/') (habs' : path'.head? = some '/')
    (hsame : resolved path = resolved path') :
    conf.shouldIntercept path = conf.shouldIntercept path' := by
  obtain ⟨names, hnames⟩ := exists_resolved path
  have hnames' : resolved path' = some names := hsame ▸ hnames
  refine h (fun _ => true) (oneFile names) path path' ⟨names, ?_, ?_⟩ _ _ _ _
    (decision_oneFile conf habs hnames) (decision_oneFile conf habs' hnames')
  · rwa [absolute_of_head habs]
  · rwa [absolute_of_head habs']

/-- A file below the directory of an entry that has been spelled otherwise. -/
theorem RespellingSafe.eq (h : RespellingSafe load conf) {dir : List Name} {path : PathStr}
    (hrespelled : Respelled (fun _ => true) load load' dir) (hload' : Reload conf load' conf')
    (habs : path.head? = some '/') (hbelow : ∃ n rest, resolved path = some (dir ++ n :: rest)) :
    conf.shouldIntercept path = conf'.shouldIntercept path := by
  obtain ⟨n, rest, hnames⟩ := hbelow
  have hlexical : lexical (fun _ => true) (absolute (cwd (oneFile (dir ++ n :: rest))) path) =
      some (dir ++ n :: rest) := by
    rwa [absolute_of_head habs]
  have hne : dir ≠ dir ++ n :: rest := by simp
  exact h (fun _ => true) load' dir conf' hrespelled hload' (oneFile (dir ++ n :: rest)) path _
    hlexical (List.prefix_append ..) hne (.open64 oRdonly 0) _ _
    (decision_oneFile conf habs hnames) (decision_oneFile conf' habs hnames)

/-- Behind enough components `.` all paths look alike to the entries. -/
theorem dotted_prefix_iff {q : PathStr} {n : Nat} (h : q.length ≤ 2 * n) (path path' : PathStr) :
    q <+: dotted n path ↔ q <+: dotted n path' := by
  have hlen : q.length ≤ (List.replicate n ['/', '.']).flatten.length := by
    simpa [Nat.mul_comm] using h
  have hdots : ∀ path, q <+: dotted n path ↔ q <+: (List.replicate n ['/', '.']).flatten := by
    intro path
    constructor
    · intro hq
      exact List.prefix_of_prefix_length_le hq (List.prefix_append ..) hlen
    · intro hq
      exact hq.trans (List.prefix_append ..)
  exact (hdots path).trans (hdots path').symm

theorem exists_bound (entries : List PathEntry) : ∃ n, ∀ e ∈ entries, e.path.length ≤ 2 * n := by
  induction entries with
  | nil => exact ⟨0, by simp⟩
  | cons e entries ih =>
    obtain ⟨n, hn⟩ := ih
    refine ⟨n + e.path.length, fun e' he' => ?_⟩
    rcases List.mem_cons.mp he' with rfl | he'
    · omega
    · exact (hn e' he').trans (by omega)

/-- What does not depend on the spelling is decided alike for all files. -/
theorem SpellingIndependent.constant (h : SpellingIndependent conf) {path path' : PathStr}
    (habs : path.head? = some '/') (habs' : path'.head? = some '/') :
    conf.shouldIntercept path = conf.shouldIntercept path' := by
  obtain ⟨n, hn⟩ := exists_bound conf.pathEntries
  have hlike : conf.shouldIntercept (dotted n path) = conf.shouldIntercept (dotted n path') := by
    have hfind : (conf.pathEntries.find? fun entry => entry.path.isPrefixOf (dotted n path)) =
        conf.pathEntries.find? fun entry => entry.path.isPrefixOf (dotted n path') := by
      refine List.find?_congr fun e he => ?_
      rw [Bool.eq_iff_iff, List.isPrefixOf_iff_prefix, List.isPrefixOf_iff_prefix]
      exact dotted_prefix_iff (hn e he) path path'
    rw [ConfigurationManager.shouldIntercept, hfind, ConfigurationManager.shouldIntercept]
  calc conf.shouldIntercept path
      = conf.shouldIntercept (dotted n path) :=
        h.eq habs (head_dotted habs n) (resolved_dotted habs n).symm
    _ = conf.shouldIntercept (dotted n path') := hlike
    _ = conf.shouldIntercept path' :=
        h.eq (head_dotted habs' n) habs' (resolved_dotted habs' n)

/-- Where the entries of a favoured kind come first, one of that kind decides for its own path. -/
theorem shouldIntercept_favoured {e : PathEntry} {entries l : List PathEntry}
    (h : Sorts longer entries l) (hfavour : l.Pairwise fun a b => favours e.doInclude a b = true)
    (he : e ∈ entries) : (ConfigurationManager.mk l).shouldIntercept e.path = e.doInclude := by
  -- no match is longer than the path
  have hlongest : Longest PathEntry.path entries e.path e :=
    ⟨he, List.prefix_refl _, fun _ _ hp => hp.length_le⟩
  exact ConfigurationManager.shouldIntercept_of_favoured h hlongest hfavour

/-- An entry that a path begins with decides if no other kind of entry is as long. -/
theorem shouldIntercept_of_longest {flag : Bool} {e : PathEntry} {path : PathStr}
    (h : Sorts longer load.entries conf.pathEntries) (he : e ∈ load.entries)
    (hbegins : e.path <+: path)
    (hflag : ∀ e' ∈ load.entries, e.path.length ≤ e'.path.length → e'.doInclude = flag) :
    conf.shouldIntercept path = flag := by
  rcases ConfigurationManager.shouldIntercept_cases h path with ⟨e', he', hdecision⟩ | ⟨hno, -⟩
  · rw [hdecision]
    exact hflag e' he'.mem (he'.longest e he hbegins)
  · exact absurd hbegins (hno e he)

/-- The root as an entry can be spelled with any number of components `.`. -/
theorem exists_respelled_root {env : LoadEnv} {yaml : YamlConf} {before after : List PathStr}
    (hlist : (Load.parseYAML env yaml).includes = before ++ ['/'] :: after) {n : Nat}
    (hn : 0 < n) :
    ∃ yaml', Respelled (fun _ => true) (.parseYAML env yaml) (.parseYAML env yaml') [] ∧
      (Load.parseYAML env yaml').includes = before ++ dotted n ['/'] :: after ∧
      (Load.parseYAML env yaml').excludes = (Load.parseYAML env yaml).excludes := by
  cases hnode : yaml.includeNode with
  | none => simp [Load.includes, parseVector, hnode] at hlist
  | some paths =>
    simp only [Load.includes, parseVector, hnode, Option.getD_some] at hlist
    obtain ⟨before', rest, rfl, rfl, hrest⟩ := List.map_eq_append_iff.mp hlist
    obtain ⟨q, after', rfl, hq, rfl⟩ := List.map_eq_cons_iff.mp hrest
    -- nothing of the new name is expanded, and it is absolute already
    have hdots : '$' ∉ dotted n ['/'] := by
      intro hmem
      simp [dotted] at hmem
    have habs : env.absPath (dotted n ['/']) = dotted n ['/'] := by
      rw [LoadEnv.absPath, env.expandPath.keeps _ hdots, absolute_of_head (head_dotted rfl n)]
    -- the new name is longer than `/`, so it is another string
    have hother : env.absPath q ≠ env.absPath (dotted n ['/']) := by
      rw [hq, habs]
      intro heq
      have hlen := congrArg List.length heq
      simp only [length_dotted, List.length_singleton] at hlen
      omega
    refine ⟨_, .included hnode hother ?_ ?_, ?_, rfl⟩
    · rw [hq]
      rfl
    · rw [habs]
      exact (lexical_dotted _ rfl n).trans rfl
    · simp [Load.includes, parseVector, habs]

variable {env : LoadEnv} {yaml : YamlConf}

/-- What matches the root path is an entry for it. -/
theorem root_included (h : Sorts longer (Load.parseYAML env yaml).entries conf.pathEntries)
    (htrue : conf.shouldIntercept ['/'] = true) : ['/'] ∈ (Load.parseYAML env yaml).includes := by
  rcases ConfigurationManager.shouldIntercept_cases h ['/'] with ⟨e, he, hdecision⟩ | ⟨-, hfalse⟩
  · rcases Load.mem_entries.mp he.mem with ⟨-, hmem⟩ | ⟨hexclude, -⟩
    · obtain ⟨path, -, hpath⟩ := List.mem_map.mp hmem
      have hroot : ['/'] <+: e.path := begins_root (hpath ▸ head_absPath env path)
      exact hroot.eq_of_length_le he.begins.length_le ▸ hmem
    · rw [htrue, hexclude] at hdecision
      cases hdecision
  · rw [htrue] at hfalse
    cases hfalse

/-- A root among the included entries rules out that anything is excluded: spelled with many
components `.` it decides for some file, which an excluded entry decided before. -/
theorem excludes_eq_nil (h : SpellingsIgnored (.parseYAML env yaml))
    (hroot : ['/'] ∈ (Load.parseYAML env yaml).includes) :
    (Load.parseYAML env yaml).excludes = [] := by
  by_contra hnone
  obtain ⟨s, hs⟩ := List.exists_mem_of_ne_nil _ hnone
  have habs : s.head? = some '/' := by
    obtain ⟨path, -, rfl⟩ := List.mem_map.mp hs
    exact head_absPath env path
  -- with the excluded entries first, nothing is intercepted, as `s` is not
  obtain ⟨l, hsorts, hfavour⟩ := exists_favouring false (Load.parseYAML env yaml).entries
  obtain ⟨hind, hsafe⟩ := h ⟨[]⟩ ⟨l⟩ (Reload.of_sorts _ hsorts)
  have hfalse : ∀ path : PathStr, path.head? = some '/' →
      (ConfigurationManager.mk l).shouldIntercept path = false := by
    intro path hpath
    rw [hind.constant hpath habs]
    exact shouldIntercept_favoured (e := ⟨s, false⟩) hsorts hfavour
      (Load.mem_entries.mpr (.inr ⟨rfl, hs⟩))
  obtain ⟨before, after, hlist⟩ := List.append_of_mem hroot
  obtain ⟨n, hn⟩ := exists_bound (Load.parseYAML env yaml).entries
  obtain ⟨yaml', hrespelled, hincludes, hexcludes⟩ :=
    exists_respelled_root hlist (Nat.succ_pos n)
  obtain ⟨l', hsorts', -⟩ := exists_favouring true (Load.parseYAML env yaml').entries
  have hdecides : (ConfigurationManager.mk l').shouldIntercept (dotted (n + 1) ['/', 'x']) =
      true := by
    refine shouldIntercept_of_longest (e := ⟨dotted (n + 1) ['/'], true⟩) hsorts'
      (Load.mem_entries.mpr (.inl ⟨rfl, by simp [hincludes]⟩)) ?_ ?_
    · exact (List.prefix_append_right_inj _).mpr (begins_root rfl)
    · -- an excluded entry is one of before, so it is shorter
      intro e he hlen
      rcases Load.mem_entries.mp he with ⟨hinclude, -⟩ | ⟨hexclude, hmem⟩
      · exact hinclude
      · have hshort := hn e (Load.mem_entries.mpr (.inr ⟨hexclude, hexcludes ▸ hmem⟩))
        simp only [length_dotted, List.length_singleton] at hlen
        omega
  have hbelow : resolved (dotted (n + 1) ['/', 'x']) = some ([] ++ [['x']]) :=
    (resolved_dotted rfl _).trans rfl
  have hsame := hsafe.eq hrespelled (Reload.of_sorts _ hsorts') (head_dotted rfl _)
    ⟨['x'], [], hbelow⟩
  rw [hfalse _ (head_dotted rfl _), hdecides] at hsame
  cases hsame

/-- If the root is spelled with so many components `.` that it does not match a file, another
entry has to. -/
theorem others_match (hsafe : RespellingSafe (.parseYAML env yaml) conf)
    (hnone : (Load.parseYAML env yaml).excludes = []) {before after : List PathStr}
    (hlist : (Load.parseYAML env yaml).includes = before ++ ['/'] :: after) {path : AbsPath}
    (htrue : conf.shouldIntercept path.1 = true) (hpath : resolved path.1 ≠ some []) :
    ∃ q ∈ before ++ after, q <+: path.1 := by
  -- only the respelled root could match, and it is longer than the path
  by_contra hno
  obtain ⟨yaml', hrespelled, hincludes, hexcludes⟩ :=
    exists_respelled_root hlist (Nat.succ_pos path.1.length)
  obtain ⟨l', hsorts', -⟩ := exists_favouring true (Load.parseYAML env yaml').entries
  have hunmatched : (ConfigurationManager.mk l').shouldIntercept path.1 = false := by
    rcases ConfigurationManager.shouldIntercept_cases hsorts' path.1 with
      ⟨e, he, -⟩ | ⟨-, hfalse⟩
    · exfalso
      rcases Load.mem_entries.mp he.mem with ⟨-, hmem⟩ | ⟨-, hmem⟩
      · rw [hincludes] at hmem
        rcases List.mem_append.mp hmem with hmem | hmem
        · exact hno ⟨_, List.mem_append_left _ hmem, he.begins⟩
        · rcases List.mem_cons.mp hmem with hdots | hmem
          · have hlen := he.begins.length_le
            simp only [hdots, length_dotted, List.length_singleton] at hlen
            omega
          · exact hno ⟨_, List.mem_append_right _ hmem, he.begins⟩
      · simp [hexcludes, hnone] at hmem
    · exact hfalse
  -- the path is below the root
  have hbelow : ∃ n rest, resolved path.1 = some ([] ++ n :: rest) := by
    obtain ⟨names, hnames⟩ := exists_resolved path.1
    cases names with
    | nil => exact absurd hnames hpath
    | cons n rest => exact ⟨n, rest, hnames⟩
  have hsame := hsafe.eq hrespelled (Reload.of_sorts _ hsorts') path.2 hbelow
  rw [htrue, hunmatched] at hsame
  cases hsame

theorem uniform_of_ignored (h : SpellingsIgnored load) : Uniform load := by
  cases load with
  | loadDefault =>
    -- `/tmp` and `/` are decided differently
    have hind := (h ⟨[]⟩ _ .loadDefault).1
    have heq : ConfigurationManager.loadDefault.shouldIntercept ['/', 't', 'm', 'p'] =
        ConfigurationManager.loadDefault.shouldIntercept ['/'] := hind.constant rfl rfl
    exact absurd heq (by decide)
  | parseYAML env yaml =>
    by_cases hnone : (Load.parseYAML env yaml).includes = []
    · exact .inl hnone
    obtain ⟨s, hs⟩ := List.exists_mem_of_ne_nil _ hnone
    have habs : s.head? = some '/' := by
      obtain ⟨path, -, rfl⟩ := List.mem_map.mp hs
      exact head_absPath env path
    -- with the included entries first, everything is intercepted as `s` is
    obtain ⟨l, hsorts, hfavour⟩ := exists_favouring true (Load.parseYAML env yaml).entries
    obtain ⟨hind, hsafe⟩ := h ⟨[]⟩ ⟨l⟩ (Reload.of_sorts _ hsorts)
    have htrue : ∀ path : PathStr, path.head? = some '/' →
        (ConfigurationManager.mk l).shouldIntercept path = true := by
      intro path hpath
      rw [hind.constant hpath habs]
      exact shouldIntercept_favoured (e := ⟨s, true⟩) hsorts hfavour
        (Load.mem_entries.mpr (.inl ⟨rfl, hs⟩))
    have hroot := root_included hsorts (htrue ['/'] rfl)
    have hexcludes := excludes_eq_nil h hroot
    exact .inr ⟨hexcludes, hroot, fun before after hlist path hpath =>
      others_match hsafe hexcludes hlist (htrue path.1 path.2) hpath⟩

/-- Neither the spelling of a path nor that of an entry matters if and only if the configuration
is uniform. -/
theorem spelling_iff (load : Load) : SpellingsIgnored load ↔ Uniform load :=
  ⟨uniform_of_ignored, ignored_of_uniform⟩

/-- By default everything under `/tmp` is to be intercepted, and `/./tmp/f` is not.  The path
names the file that `/tmp/f` names. -/
theorem spelling_matters :
    SameFile (fun _ => true) (cwd (oneFile [['t', 'm', 'p'], ['f']]))
        ['/', 't', 'm', 'p', '/', 'f'] ['/', '.', '/', 't', 'm', 'p', '/', 'f'] ∧
      decision .loadDefault (.open64 oRdonly 0) ['/', 't', 'm', 'p', '/', 'f']
        (oneFile [['t', 'm', 'p'], ['f']]) = some true ∧
      decision .loadDefault (.open64 oRdonly 0) ['/', '.', '/', 't', 'm', 'p', '/', 'f']
        (oneFile [['t', 'm', 'p'], ['f']]) = some false ∧
      ¬ SpellingsIgnored .loadDefault := by
  have hsame : SameFile (fun _ => true) (cwd (oneFile [['t', 'm', 'p'], ['f']]))
      ['/', 't', 'm', 'p', '/', 'f'] ['/', '.', '/', 't', 'm', 'p', '/', 'f'] :=
    ⟨[['t', 'm', 'p'], ['f']], by decide, by decide⟩
  have htrue : decision .loadDefault (.open64 oRdonly 0) ['/', 't', 'm', 'p', '/', 'f']
      (oneFile [['t', 'm', 'p'], ['f']]) = some true :=
    (decision_oneFile _ rfl (by decide)).trans (by decide)
  have hfalse : decision .loadDefault (.open64 oRdonly 0)
      ['/', '.', '/', 't', 'm', 'p', '/', 'f'] (oneFile [['t', 'm', 'p'], ['f']]) = some false :=
    (decision_oneFile _ rfl (by decide)).trans (by decide)
  refine ⟨hsame, htrue, hfalse, fun h => ?_⟩
  exact absurd ((h ⟨[]⟩ _ .loadDefault).1 _ _ _ _ hsame _ _ _ _ htrue hfalse) (by decide)

end DTIO.Properties.Spelling
