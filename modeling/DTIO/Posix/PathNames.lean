import DTIO.Posix.State

/-!
# Paths as Lists of Names

What a path means below the root: the names between its slashes.  A normalised absolute path is
such a list written down without `.`, `..` and repeated slashes.

Strings and lists of names do not begin alike: the string of one path can begin with the string
of another although the other names no directory above it, if the last name of the other is only
the beginning of a name.

## Main definitions

- `NormalPath`, `NormalPath.toStr`: a normalised absolute path and its string
- `Stray q p`: the last name of `q` is a proper beginning of the name that `p` has there
- `lexical`: the names an absolute path is resolved to

## Main results

- `toStr_prefix_iff`: the string of `p` begins with that of `q` if `q` is `p` or a directory
  above it, or strays
- `lexical_dotted`: components `.` in front of a path do not change what it names
-/

namespace DTIO.Posix

/-- A directory or file name. -/
abbrev Name := List Char

/-- Names that stand for an entry of their own: not empty, not `.` or `..`, without a slash. -/
def ProperName (n : Name) : Prop := n ≠ [] ∧ n ≠ ['.'] ∧ n ≠ ['.', '.'] ∧ '/' ∉ n

instance decidableProperName (n : Name) : Decidable (ProperName n) :=
  inferInstanceAs (Decidable (n ≠ [] ∧ n ≠ ['.'] ∧ n ≠ ['.', '.'] ∧ '/' ∉ n))

/-- Each name behind a slash. -/
def joined (names : List Name) : PathStr := names.flatMap fun n => '/' :: n

@[simp] theorem joined_nil : joined [] = [] := rfl

@[simp] theorem joined_cons (n : Name) (names : List Name) :
    joined (n :: names) = '/' :: n ++ joined names := List.flatMap_cons ..

theorem joined_append (names names' : List Name) :
    joined (names ++ names') = joined names ++ joined names' := List.flatMap_append ..

/-- A normalised absolute path. -/
structure NormalPath where
  names : List Name
  proper : ∀ n ∈ names, ProperName n
  deriving DecidableEq

namespace NormalPath

/-- The string of the path; the root is a single slash. -/
def toStr (p : NormalPath) : PathStr := if p.names = [] then ['/'] else joined p.names

/-- `q` is `p` or a directory above it. -/
def Contains (q p : NormalPath) : Prop := q.names <+: p.names

/-- `q` is neither `p` nor a directory above it, but lies in one, and the name that `p` has
there goes on behind the last name of `q`. -/
def Stray (q p : NormalPath) : Prop :=
  ∃ dir n n' rest, q.names = dir ++ [n] ∧ p.names = dir ++ n' :: rest ∧ n <+: n' ∧ n ≠ n'

end NormalPath

/-! ## Strings that begin with a path -/

/-- One name: it ends where the slash or the end of the string stands, so the strings begin
alike if the names are equal and what follows begins alike, or if nothing follows the first. -/
theorem name_append_begins {n n' : Name} (hn : '/' ∉ n) (hn' : '/' ∉ n') (qs ps : List Name) :
    n ++ joined qs <+: n' ++ joined ps ↔
      n = n' ∧ joined qs <+: joined ps ∨ qs = [] ∧ n <+: n' ∧ n ≠ n' := by
  induction n generalizing n' with
  | nil =>
    cases n' with
    | nil => simp
    | cons c n' =>
      have hc : '/' ≠ c := fun h => hn' (h ▸ List.mem_cons_self)
      cases qs with
      | nil => simp
      | cons q qs => simp [hc]
  | cons a n ih =>
    have ha : a ≠ '/' := fun h => hn (h ▸ List.mem_cons_self)
    cases n' with
    | nil => cases ps <;> simp [ha]
    | cons c n' =>
      have htails := @ih n' (fun h => hn (List.mem_cons_of_mem _ h))
        fun h => hn' (List.mem_cons_of_mem _ h)
      simp only [List.cons_append, List.cons_prefix_cons, htails, List.cons.injEq, ne_eq]
      tauto

/-- A string of names begins with another if the lists do, or if they differ in the last name of
the shorter one and that is the beginning of the other's name. -/
theorem joined_prefix_iff {qs ps : List Name} (hqs : ∀ n ∈ qs, '/' ∉ n)
    (hps : ∀ n ∈ ps, '/' ∉ n) :
    joined qs <+: joined ps ↔ qs <+: ps ∨
      ∃ dir n n' rest, qs = dir ++ [n] ∧ ps = dir ++ n' :: rest ∧ n <+: n' ∧ n ≠ n' := by
  -- along the components: equal heads go on, unequal ones end the prefix
  induction qs generalizing ps with
  | nil => simp
  | cons q qs ih =>
    cases ps with
    | nil => simp
    | cons p ps =>
      have hq := hqs q List.mem_cons_self
      have hp := hps p List.mem_cons_self
      have hrest := ih (fun n hn => hqs n (List.mem_cons_of_mem _ hn))
        fun n hn => hps n (List.mem_cons_of_mem _ hn)
      rw [joined_cons, joined_cons, List.cons_append, List.cons_append, List.cons_prefix_cons,
        name_append_begins hq hp, hrest, List.cons_prefix_cons]
      constructor
      -- a prefix: the rest is one, or the last name of `qs` is cut short
      · rintro ⟨-, ⟨rfl, hqs | ⟨dir, n, n', rest, rfl, rfl, hn⟩⟩ | ⟨rfl, hn⟩⟩
        · exact .inl ⟨rfl, hqs⟩
        · exact .inr ⟨q :: dir, n, n', rest, rfl, rfl, hn⟩
        · exact .inr ⟨[], q, p, ps, rfl, rfl, hn⟩
      · rintro (⟨rfl, hqs⟩ | ⟨dir, n, n', rest, hdir, hdir', hn⟩)
        · exact ⟨rfl, .inl ⟨rfl, .inl hqs⟩⟩
        -- back: the shared part is empty or begins with the common head
        · cases dir with
          | nil =>
            obtain ⟨rfl, rfl⟩ := List.cons.inj hdir
            obtain ⟨rfl, rfl⟩ := List.cons.inj hdir'
            exact ⟨rfl, .inr ⟨rfl, hn⟩⟩
          | cons d dir =>
            obtain ⟨rfl, rfl⟩ := List.cons.inj hdir
            obtain ⟨rfl, rfl⟩ := List.cons.inj hdir'
            exact ⟨rfl, .inl ⟨rfl, .inr ⟨dir, n, n', rest, rfl, rfl, hn⟩⟩⟩

namespace NormalPath

variable {q q' p : NormalPath}

theorem ext_names (h : q.names = p.names) : q = p := by
  obtain ⟨qs, hqs⟩ := q
  obtain ⟨ps, hps⟩ := p
  subst h
  rfl

theorem no_slash (p : NormalPath) {n : Name} (hn : n ∈ p.names) : '/' ∉ n :=
  (p.proper n hn).2.2.2

theorem toStr_of_names {n : Name} {names : List Name} (h : p.names = n :: names) :
    p.toStr = joined p.names := by simp [toStr, h]

/-- The string of `p` begins with the string of `q` exactly if `q` contains `p` or strays. -/
theorem toStr_prefix_iff (q p : NormalPath) :
    q.toStr <+: p.toStr ↔ q.Contains p ∨ q.Stray p := by
  have hjoined := joined_prefix_iff (fun n hn => q.no_slash hn) fun n hn => p.no_slash hn
  cases hq : q.names with
  | nil =>
    -- every absolute path begins with the slash that is the root
    have hroot : q.toStr <+: p.toStr := by
      cases hp : p.names <;> simp [toStr, hq, hp]
    simp [hroot, Contains, hq]
  | cons n qs =>
    cases hp : p.names with
    | nil =>
      have hn : n ≠ [] := (q.proper n (by simp [hq])).1
      simp [toStr, Contains, Stray, hq, hp, hn]
    | cons n' ps =>
      rw [toStr_of_names hq, toStr_of_names hp]
      exact hjoined

theorem Stray.depth_le (h : q.Stray p) : q.names.length ≤ p.names.length := by
  obtain ⟨dir, n, n', rest, hq, hp, -⟩ := h
  simp [hq, hp]

/-- Of two paths that contain `p` the deeper one has the longer string. -/
theorem Contains.length_lt (h : q.Contains p) (h' : q'.Contains p)
    (hlt : q.names.length < q'.names.length) : q.toStr.length < q'.toStr.length := by
  obtain ⟨rest, hrest⟩ := List.prefix_of_prefix_length_le h h' hlt.le
  have hne : rest ≠ [] := by
    rintro rfl
    simp [← hrest] at hlt
  obtain ⟨n, names, rfl⟩ := List.exists_cons_of_ne_nil hne
  have hn : n ≠ [] := (q'.proper n (by simp [← hrest])).1
  have hpos : 0 < n.length := List.length_pos_iff.mpr hn
  cases hq : q.names with
  | nil =>
    simp [toStr, hq, ← hrest]
    omega
  | cons m ms => simp [toStr, hq, ← hrest, joined_append]

/-- A path that strays is longer than those that contain `p` and are not deeper. -/
theorem Contains.length_lt_stray (h : q.Contains p) (h' : q'.Stray p)
    (hlt : q.names.length < q'.names.length) : q.toStr.length < q'.toStr.length := by
  obtain ⟨dir, n, n', rest, hq', hp, -⟩ := h'
  have hdir : q.names <+: dir := by
    refine List.prefix_of_prefix_length_le h (hp ▸ List.prefix_append ..) ?_
    simp only [hq', List.length_append, List.length_singleton] at hlt
    omega
  obtain ⟨more, rfl⟩ := hdir
  have hn : n ≠ [] := (q'.proper n (by simp [hq'])).1
  have hpos : 0 < n.length := List.length_pos_iff.mpr hn
  cases hq : q.names with
  | nil =>
    simp [toStr, hq, hq', joined_append]
    omega
  | cons m ms => simp [toStr, hq, hq', joined_append]

/-- A path that strays is shorter than those that contain `p` and are at least as deep. -/
theorem Stray.length_lt (h : q.Stray p) (h' : q'.Contains p)
    (hle : q.names.length ≤ q'.names.length) : q.toStr.length < q'.toStr.length := by
  obtain ⟨dir, n, n', rest, hq, hp, hn, hne⟩ := h
  have hdir : dir ++ [n'] <+: q'.names := by
    have hbegins : dir ++ [n'] <+: p.names := by simp [hp]
    exact List.prefix_of_prefix_length_le hbegins h' (by simpa [hq] using hle)
  obtain ⟨more, hmore⟩ := hdir
  have hlt : n.length < n'.length := by
    refine lt_of_le_of_ne hn.length_le fun heq => hne ?_
    exact hn.eq_of_length heq
  simp [toStr, hq, ← hmore, joined_append]
  omega

/-- The string determines the path. -/
theorem toStr_inj (h : q.toStr = p.toStr) : q = p := by
  have hno : ∀ {a b : NormalPath}, a.toStr = b.toStr → ¬ a.Stray b := by
    -- one that strays has fewer characters
    intro a b hab hstray
    have hlt := hstray.length_lt (List.prefix_refl b.names) hstray.depth_le
    exact hlt.ne (congrArg List.length hab)
  have hqp : q.names <+: p.names :=
    ((toStr_prefix_iff q p).mp (h ▸ List.prefix_refl _)).resolve_right (hno h)
  have hpq : p.names <+: q.names :=
    ((toStr_prefix_iff p q).mp (h ▸ List.prefix_refl _)).resolve_right (hno h.symm)
  exact ext_names (hqp.eq_of_length_le hpq.length_le)

end NormalPath

/-! ## Lexical resolution -/

/-- The names between the slashes that mean something. -/
def pathNames (path : PathStr) : List Name :=
  (path.splitOn '/').filter fun n => n ≠ [] ∧ n ≠ ['.']

/-- The directory `dir` with further names.  `..` leaves a directory that exists as a plain one;
behind a symbolic link it may lead elsewhere.  At the root it stays. -/
def walk (plain : List Name → Bool) (dir : List Name) : List Name → Option (List Name)
  | [] => some dir
  | n :: rest =>
    if n = ['.', '.'] then
      if dir = [] then walk plain [] rest
      else if plain dir then walk plain dir.dropLast rest
      else none
    else walk plain (dir ++ [n]) rest

/-- The names from the root that an absolute path is resolved to. -/
def lexical (plain : List Name → Bool) (path : PathStr) : Option (List Name) :=
  walk plain [] (pathNames path)

/-- With more plain directories a path is still resolved to the same names. -/
theorem walk_mono {plain plain' : List Name → Bool} (hplain : ∀ dir, plain dir → plain' dir)
    {dir names rest : List Name} (h : walk plain dir rest = some names) :
    walk plain' dir rest = some names := by
  induction rest generalizing dir with
  | nil => exact h
  | cons n rest ih =>
    rw [walk] at h ⊢
    split at h <;> rename_i hn
    · rw [if_pos hn]
      split at h <;> rename_i hdir
      · rw [if_pos hdir]
        exact ih h
      · rw [if_neg hdir]
        split at h <;> rename_i hp
        · rw [if_pos (hplain dir hp)]
          exact ih h
        · cases h
    · rw [if_neg hn]
      exact ih h

/-- Where every directory is plain, every path is resolved. -/
theorem exists_walk (dir rest : List Name) :
    ∃ names, walk (fun _ => true) dir rest = some names := by
  induction rest generalizing dir with
  | nil => exact ⟨dir, rfl⟩
  | cons n rest ih =>
    rw [walk]
    split
    · split
      · exact ih []
      · exact ih dir.dropLast
    · exact ih (dir ++ [n])

/-- `n` components `.` in front of an absolute path. -/
def dotted (n : Nat) (path : PathStr) : PathStr :=
  (List.replicate n ['/', '.']).flatten ++ path

@[simp] theorem dotted_zero (path : PathStr) : dotted 0 path = path := rfl

theorem dotted_succ (n : Nat) (path : PathStr) :
    dotted (n + 1) path = '/' :: '.' :: dotted n path := rfl

theorem head_dotted {path : PathStr} (h : path.head? = some '/') (n : Nat) :
    (dotted n path).head? = some '/' := by
  cases n with
  | zero => exact h
  | succ n => rfl

theorem length_dotted (n : Nat) (path : PathStr) :
    (dotted n path).length = 2 * n + path.length := by
  simp [dotted, Nat.mul_comm]

theorem pathNames_dotted {path : PathStr} (h : path.head? = some '/') (n : Nat) :
    pathNames (dotted n path) = pathNames path := by
  induction n with
  | zero => rfl
  | succ n ih =>
    rw [← ih, dotted_succ]
    obtain ⟨rest, hrest⟩ : ∃ rest, dotted n path = '/' :: rest := by
      have hhead := head_dotted h n
      cases hd : dotted n path with
      | nil => simp [hd] at hhead
      | cons c rest => exact ⟨rest, by simpa [hd] using hhead⟩
    simp [pathNames, hrest, List.splitOn, List.splitOnP_cons_eq_if_modifyHead]

theorem lexical_dotted (plain : List Name → Bool) {path : PathStr}
    (h : path.head? = some '/') (n : Nat) :
    lexical plain (dotted n path) = lexical plain path := by
  rw [lexical, pathNames_dotted h, lexical]

end DTIO.Posix
