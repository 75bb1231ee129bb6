import DTIO.Adapter.System
import DTIO.Chimod.WriteSteps
import DTIO.Foundation.Interleaving

/-!
# Independent Writes Commute

Any number of `Write` tasks run at the same time on containers that share one filesystem, and
their system calls are interleaved in any order.  If no two of them write to the same byte of
the same file, each file ends up as its initial content overlaid with their ranges.

Each task writes through a descriptor of its own, so the seek of one task does not move the
write of another.  A file that a task creates is a new one, so it is no other task's file
unless both name the same entry.

## Main definitions

- `fileOf`: the file an entry is going to denote, whether it exists or not
- `Overlaying`: what the filesystem holds while some of the tasks have written
- `Overlays`: what it holds in the end

## Main results

- `Overlaying.create`, `Overlaying.write`: what the calls preserve
- `annotated_step`: a step of one task keeps the assertions of all
- `writes_commute`: the final content, for every interleaving and every assignment
-/

namespace DTIO.Properties.Commutation

open DTIO.Posix DTIO.Chimod DTIO.ByteFile DTIO.MachineInt DTIO.Interleaving

/-! ## Files named before they exist -/

/-- An existing file, or the one that will be created at an entry. -/
abbrev FileKey := Ino ⊕ Entry

/-- The file of an entry in the filesystem before the tasks. -/
def fileOf (fs₀ : FileSystem) (e : Entry) : FileKey :=
  match fs₀.dir e with
  | some ino => .inl ino
  | none => .inr e

/-- What the file holds before the tasks. -/
def initContent (fs₀ : FileSystem) : FileKey → List Byte
  | .inl ino => (fs₀.inodes ino).content.1
  | .inr _ => []

/-- The file `f` is stored as `ino` now. -/
def Denotes (fs₀ fs : FileSystem) : FileKey → Ino → Prop
  | .inl i, ino => i = ino ∧ ino < fs₀.nextIno
  | .inr e, ino => fs₀.dir e = none ∧ fs.dir e = some ino

theorem fileOf_of_some {fs₀ : FileSystem} {e : Entry} {ino : Ino} (h : fs₀.dir e = some ino) :
    fileOf fs₀ e = .inl ino := by
  simp [fileOf, h]

theorem fileOf_of_none {fs₀ : FileSystem} {e : Entry} (h : fs₀.dir e = none) :
    fileOf fs₀ e = .inr e := by
  simp [fileOf, h]

theorem eq_of_fileOf_inr {fs₀ : FileSystem} {e e' : Entry} (h : fileOf fs₀ e = .inr e') :
    e = e' := by
  cases h₀ : fs₀.dir e with
  | none =>
    rw [fileOf_of_none h₀] at h
    exact Sum.inr.inj h
  | some ino =>
    rw [fileOf_of_some h₀] at h
    cases h

section Overlay

variable {ι : Type} {name : ι → Entry} {off : ι → Nat} {data : ι → List Byte}
  {fs₀ fs : FileSystem} {written : List ι}

/-- The tasks of `written` whose file is `f`. -/
def writersOf (fs₀ : FileSystem) (name : ι → Entry) (written : List ι) (f : FileKey) : Set ι :=
  {t | t ∈ written ∧ fileOf fs₀ (name t) = f}

theorem mem_writersOf {f : FileKey} {t : ι} :
    t ∈ writersOf fs₀ name written f ↔ t ∈ written ∧ fileOf fs₀ (name t) = f := Iff.rfl

theorem writersOf_cons_self {f : FileKey} {t : ι} (h : fileOf fs₀ (name t) = f) :
    writersOf fs₀ name (t :: written) f = insert t (writersOf fs₀ name written f) := by
  ext u
  simp only [mem_writersOf, List.mem_cons, Set.mem_insert_iff]
  constructor
  · rintro ⟨rfl | hu, hfile⟩
    · exact Or.inl rfl
    · exact Or.inr ⟨hu, hfile⟩
  · rintro (rfl | ⟨hu, hfile⟩)
    · exact ⟨Or.inl rfl, h⟩
    · exact ⟨Or.inr hu, hfile⟩

theorem writersOf_cons_other {f : FileKey} {t : ι} (h : fileOf fs₀ (name t) ≠ f) :
    writersOf fs₀ name (t :: written) f = writersOf fs₀ name written f := by
  ext u
  simp only [mem_writersOf, List.mem_cons]
  constructor
  · rintro ⟨rfl | hu, hfile⟩
    · exact absurd hfile h
    · exact ⟨hu, hfile⟩
  · rintro ⟨hu, hfile⟩
    exact ⟨Or.inr hu, hfile⟩

/-- The tasks of `written` have written. -/
structure Overlaying (fs₀ : FileSystem) (name : ι → Entry) (off : ι → Nat)
    (data : ι → List Byte) (fs : FileSystem) (written : List ι) : Prop where
  /-- Every entry keeps its file. -/
  bound : ∀ e ino, fs₀.dir e = some ino → fs.dir e = some ino
  /-- A created file is none of the old ones. -/
  fresh : ∀ e ino, fs₀.dir e = none → fs.dir e = some ino → fs₀.nextIno ≤ ino
  next : fs₀.nextIno ≤ fs.nextIno
  /-- Two created files are different. -/
  inj : ∀ e e' ino, fs₀.dir e = none → fs₀.dir e' = none → fs.dir e = some ino →
    fs.dir e' = some ino → e = e'
  /-- Only named entries are created. -/
  named : ∀ e, fs₀.dir e = none → fs.dir e ≠ none → ∃ t, name t = e
  /-- A task that has written found its file. -/
  opened : ∀ t ∈ written, fs.dir (name t) ≠ none
  holds : ∀ f ino, Denotes fs₀ fs f ino → Overlaid 0 (initContent fs₀ f) off data
    (writersOf fs₀ name written f) (fs.inodes ino).content.1

theorem Overlaying.init (fs₀ : FileSystem) (name : ι → Entry) (off : ι → Nat)
    (data : ι → List Byte) : Overlaying fs₀ name off data fs₀ [] where
  bound := fun _ _ h => h
  fresh := by simp_all
  next := le_rfl
  inj := by simp_all
  named := by simp_all
  opened := by simp
  holds := by
    rintro (i | e) ino hden
    · obtain ⟨rfl, -⟩ := hden
      simpa [initContent, writersOf] using Overlaid.empty 0 (fs₀.inodes i).content.1 off data
    · obtain ⟨hnone, hsome⟩ := hden
      rw [hnone] at hsome
      cases hsome

/-- The file of an entry is stored where the entry leads. -/
theorem Overlaying.denotes (h : Overlaying fs₀ name off data fs written) {e : Entry} {ino : Ino}
    (he : fs.dir e = some ino) : Denotes fs₀ fs (fileOf fs₀ e) ino := by
  cases h₀ : fs₀.dir e with
  | none =>
    rw [fileOf_of_none h₀]
    exact ⟨h₀, he⟩
  | some i =>
    have hi := h.bound e i h₀
    rw [he] at hi
    obtain rfl := Option.some.inj hi
    rw [fileOf_of_some h₀]
    exact ⟨rfl, fs₀.bound e ino h₀⟩

/-- Two files are never stored in the same place. -/
theorem Overlaying.denotes_inj (h : Overlaying fs₀ name off data fs written) {f f' : FileKey}
    {ino : Ino} (hf : Denotes fs₀ fs f ino) (hf' : Denotes fs₀ fs f' ino) : f = f' := by
  match f, f' with
  | .inl i, .inl i' => rw [hf.1, hf'.1]
  | .inl i, .inr e => exact absurd hf.2 (not_lt.mpr (h.fresh e ino hf'.1 hf'.2))
  | .inr e, .inl i => exact absurd hf'.2 (not_lt.mpr (h.fresh e ino hf.1 hf.2))
  | .inr e, .inr e' => rw [h.inj e e' ino hf.1 hf'.1 hf.2 hf'.2]

theorem denotes_unique {f : FileKey} {ino ino' : Ino} (hf : Denotes fs₀ fs f ino)
    (hf' : Denotes fs₀ fs f ino') : ino = ino' := by
  match f with
  | .inl i => exact hf.1.symm.trans hf'.1
  | .inr e => exact Option.some.inj (hf.2.symm.trans hf'.2)

theorem Overlaying.denotes_lt (h : Overlaying fs₀ name off data fs written) {f : FileKey}
    {ino : Ino} (hf : Denotes fs₀ fs f ino) : ino < fs.nextIno := by
  match f with
  | .inl i => exact hf.2.trans_le h.next
  | .inr e => exact fs.bound e ino hf.2

/-- **Creating** the file of an unbound entry. -/
theorem Overlaying.create (h : Overlaying fs₀ name off data fs written) {t : ι}
    (hnone : fs.dir (name t) = none) (perm : Uid → Perm) :
    Overlaying fs₀ name off data (fs.create (name t) perm) written := by
  have hnone₀ : fs₀.dir (name t) = none := by
    by_contra hne
    obtain ⟨ino, hino⟩ := Option.ne_none_iff_exists'.mp hne
    rw [h.bound _ _ hino] at hnone
    cases hnone
  have hself : (fs.create (name t) perm).dir (name t) = some fs.nextIno :=
    Function.update_self ..
  have hother : ∀ e, e ≠ name t → (fs.create (name t) perm).dir e = fs.dir e :=
    fun e he => Function.update_of_ne he ..
  constructor
  case bound =>
    intro e ino he
    have hne : e ≠ name t := by
      rintro rfl
      rw [hnone₀] at he
      cases he
    rw [hother e hne]
    exact h.bound e ino he
  case fresh =>
    intro e ino he₀ he
    by_cases hne : e = name t
    · subst hne
      rw [hself] at he
      exact Option.some.inj he ▸ h.next
    · rw [hother e hne] at he
      exact h.fresh e ino he₀ he
  case next => exact h.next.trans (Nat.le_succ _)
  case inj =>
    -- the new file's number is above those of all other entries
    have hnew : ∀ e, e ≠ name t → fs.dir e ≠ some fs.nextIno := by
      intro e _ he
      exact (fs.bound e _ he).false
    intro e e' ino he₀ he₀' he he'
    by_cases hne : e = name t
    · by_cases hne' : e' = name t
      · rw [hne, hne']
      · subst hne
        rw [hself] at he
        rw [hother e' hne', ← he] at he'
        exact absurd he' (hnew e' hne')
    · by_cases hne' : e' = name t
      · subst hne'
        rw [hself] at he'
        rw [hother e hne, ← he'] at he
        exact absurd he (hnew e hne)
      · rw [hother e hne] at he
        rw [hother e' hne'] at he'
        exact h.inj e e' ino he₀ he₀' he he'
  case named =>
    intro e he₀ he
    by_cases hne : e = name t
    · exact ⟨t, hne.symm⟩
    · rw [hother e hne] at he
      exact h.named e he₀ he
  case opened =>
    intro u hu
    by_cases hne : name u = name t
    · rw [hne, hself]
      simp
    · rw [hother _ hne]
      exact h.opened u hu
  case holds =>
    intro f ino hden
    by_cases hf : f = .inr (name t)
    · -- the new file is empty, and nobody has written to it
      subst hf
      obtain rfl : fs.nextIno = ino := Option.some.inj (hself.symm.trans hden.2)
      have hnobody : writersOf fs₀ name written (.inr (name t)) = ∅ := by
        apply Set.eq_empty_of_forall_notMem
        rintro u ⟨hu, hfile⟩
        apply h.opened u hu
        rw [eq_of_fileOf_inr hfile]
        exact hnone
      rw [hnobody]
      simpa [FileSystem.create, initContent] using Overlaid.empty 0 [] off data
    · have hden' : Denotes fs₀ fs f ino := by
        cases f with
        | inl i => exact hden
        | inr e =>
          have he : e ≠ name t := fun he => hf (congrArg Sum.inr he)
          exact ⟨hden.1, (hother e he).symm.trans hden.2⟩
      have hne : ino ≠ fs.nextIno := (h.denotes_lt hden').ne
      simpa [FileSystem.create, hne] using h.holds f ino hden'

/-- **Writing** the range of a task that has not written yet to its file. -/
theorem Overlaying.write (h : Overlaying fs₀ name off data fs written) {t : ι} {ino : Ino}
    (hino : fs.dir (name t) = some ino) (ht : t ∉ written)
    (hdisj : ∀ u, u ≠ t → fileOf fs₀ (name u) = fileOf fs₀ (name t) → Disjoint off data u t)
    (hroom : data t = [] ∨ off t + (data t).length ≤ maxSigned64) :
    Overlaying fs₀ name off data
      (fs.setContent ino ((fs.inodes ino).content.write (off t) (data t))) (t :: written) := by
  refine ⟨h.bound, h.fresh, h.next, h.inj, h.named, ?opened, ?holds⟩
  case opened =>
    intro u hu
    rcases List.mem_cons.mp hu with rfl | hu
    · simp [FileSystem.setContent, hino]
    · exact h.opened u hu
  case holds =>
    intro f ino' hden
    replace hden : Denotes fs₀ fs f ino' := by
      cases f with
      | inl i => exact hden
      | inr e => exact hden
    by_cases hf : f = fileOf fs₀ (name t)
    · -- the file of the task
      obtain rfl : ino = ino' := denotes_unique (h.denotes hino) (hf ▸ hden)
      have hcontent : ((fs.setContent ino ((fs.inodes ino).content.write (off t)
          (data t))).inodes ino).content.1 =
          writeAt 0 (fs.inodes ino).content.1 (off t) (data t) := by
        simp [FileSystem.setContent, Content.write_val hroom]
      rw [writersOf_cons_self hf.symm, hcontent]
      apply (h.holds f ino hden).write
      rintro u ⟨hu, hfile⟩
      apply hdisj u _ (hfile.trans hf)
      rintro rfl
      exact ht hu
    · -- any other file
      have hne : ino' ≠ ino := by
        rintro rfl
        exact hf (h.denotes_inj hden (h.denotes hino))
      rw [writersOf_cons_other (Ne.symm hf)]
      simpa [FileSystem.setContent, hne] using h.holds f ino' hden

end Overlay

/-! ## Tasks running at the same time -/

/-- The kernel all containers call, and the tasks that have written, newest first. -/
structure Shared (ι : Type) where
  kernel : Kernel
  written : List ι

/-- A task and where it stands. -/
abbrev Pc (ι : Type) := ι × WriteAt

section Tasks

variable {ι : Type} (tasks : ι → WriteTask) (assign : ι → Nat)

/-- The next system call of a task in its container. -/
def act (fault : Fault) (p : Pc ι) (sh : Shared ι) : Shared ι × Pc ι :=
  let r := Server.nextWrite (assign p.1) (tasks p.1) fault sh.kernel p.2
  let written :=
    match p.2 with
    | .sought .. => p.1 :: sh.written
    | _ => sh.written
  (⟨r.1, written⟩, (p.1, r.2))

abbrev Conf (ι : Type) := Config ι (Pc ι) (Shared ι)

/-- No task has made a call yet. -/
def start (k : Kernel) : Conf ι := ⟨⟨k, []⟩, fun t => (t, .start)⟩

/-- The system call a task makes next succeeds in full. -/
def Succeeds (c : Conf ι) (t : ι) (fault : Fault) : Prop :=
  (act tasks assign fault (c.pc t) c.shared).2.2.Succeeded
    (tasks (c.pc t).1).payload.length

/-- The entry a task's name leads to, where its first byte goes, and its bytes. -/
def name (k₀ : Kernel) (t : ι) : Entry := entryFor k₀ (assign t) (tasks t)
def off (t : ι) : Nat := (tasks t).dataOffset
def data (t : ι) : List Byte := (tasks t).payload

/-! ## Assertions -/

/-- What holds of the filesystem. -/
structure Global (k₀ : Kernel) (sh : Shared ι) : Prop where
  host : sh.kernel.host = k₀.host
  files : Overlaying k₀.fs (name tasks assign k₀) (off tasks) (data tasks) sh.kernel.fs sh.written

/-- The task holds a descriptor on its file, at the given offset if any. -/
def Holds (k₀ : Kernel) (sh : Shared ι) (t : ι) (fd : Int) (pos : Option Nat) : Prop :=
  t ∉ sh.written ∧ ∃ f, sh.kernel.fds (pidOf (assign t)) fd = some f ∧ f.flags = serverFlags ∧
    sh.kernel.fs.dir (name tasks assign k₀ t) = some f.ino ∧ ∀ n ∈ pos, f.offset = n

/-- What holds of a task where it stands. -/
def Assertion (k₀ : Kernel) (sh : Shared ι) : Pc ι → Prop
  | (t, .start) => t ∉ sh.written
  | (t, .opened fd) => Holds tasks assign k₀ sh t fd none
  | (t, .sought fd _) => Holds tasks assign k₀ sh t fd (some (off tasks t))
  | (t, .done _) => t ∈ sh.written

/-- Different tasks never hold the same descriptor of the same container. -/
def Private (p q : Pc ι) : Prop :=
  p.1 ≠ q.1 ∧ ∀ fd, p.2.fd? = some fd → q.2.fd? = some fd → assign p.1 ≠ assign q.1

variable {tasks assign}

theorem Private.symm {p q : Pc ι} (h : Private assign p q) : Private assign q p :=
  ⟨h.1.symm, fun fd hq hp => (h.2 fd hp hq).symm⟩

section Steps

variable {k₀ : Kernel} {sh sh' : Shared ι} {t : ι} {q : Pc ι} {fd : Int}

/-- **No interference.**  A task's assertion survives what neither takes its entry, nor its
descriptor, nor records it as written. -/
theorem Assertion.frame (h : Assertion tasks assign k₀ sh q)
    (hwritten : q.1 ∈ sh'.written ↔ q.1 ∈ sh.written)
    (hdir : ∀ e ino, sh.kernel.fs.dir e = some ino → sh'.kernel.fs.dir e = some ino)
    (hfd : ∀ fd, q.2.fd? = some fd →
      sh'.kernel.fds (pidOf (assign q.1)) fd = sh.kernel.fds (pidOf (assign q.1)) fd) :
    Assertion tasks assign k₀ sh' q := by
  have hholds : ∀ fd pos, q.2.fd? = some fd → Holds tasks assign k₀ sh q.1 fd pos →
      Holds tasks assign k₀ sh' q.1 fd pos := by
    rintro fd pos hq ⟨hnot, f, hf, hflags, hino, hpos⟩
    refine ⟨fun hin => hnot (hwritten.mp hin), f, ?_, hflags, hdir _ _ hino, hpos⟩
    rw [hfd fd hq]
    exact hf
  obtain ⟨t, a⟩ := q
  cases a with
  | start => exact fun hin => h (hwritten.mp hin)
  | opened fd => exact hholds fd _ rfl h
  | sought fd pos => exact hholds fd _ rfl h
  | done calls => exact hwritten.mpr h

/-- A task in possession of a descriptor may change it, and the files. -/
theorem Assertion.frame_setFd (fs : FileSystem) {f : Option OpenFile}
    (h : Assertion tasks assign k₀ sh q) (hne : Private assign (t, .opened fd) q)
    (hwritten : q.1 ∈ sh'.written ↔ q.1 ∈ sh.written)
    (hdir : ∀ e ino, sh.kernel.fs.dir e = some ino → fs.dir e = some ino)
    (hk : sh'.kernel = (sh.kernel.withFs fs).setFd (pidOf (assign t)) fd f) :
    Assertion tasks assign k₀ sh' q := by
  apply h.frame hwritten
  · intro e ino he
    rw [hk]
    exact hdir e ino he
  · intro fd' hq
    rw [hk]
    by_cases hpid : assign q.1 = assign t
    · rw [hpid, setFd_fds_of_ne, withFs_fds]
      rintro rfl
      exact hne.2 fd' rfl hq hpid.symm
    · rw [setFd_fds_of_pid_ne, withFs_fds]
      exact fun he => hpid (Nat.succ.inj he)

/-- A task that holds a descriptor is the only one to do so. -/
theorem Assertion.open_of_fd? (h : Assertion tasks assign k₀ sh q) (hq : q.2.fd? = some fd) :
    ∃ f, sh.kernel.fds (pidOf (assign q.1)) fd = some f := by
  obtain ⟨t, a⟩ := q
  cases a with
  | start => cases hq
  | opened fd' =>
    obtain rfl := Option.some.inj hq
    obtain ⟨-, f, hf, -⟩ := h
    exact ⟨f, hf⟩
  | sought fd' pos =>
    obtain rfl := Option.some.inj hq
    obtain ⟨-, f, hf, -⟩ := h
    exact ⟨f, hf⟩
  | done calls => cases hq

end Steps

/-! ## One step -/

variable [DecidableEq ι] {k₀ : Kernel} {c : Conf ι} {t : ι} {fault : Fault}

/-- Every thread is the task of its number, and all assertions hold. -/
structure Inv (tasks : ι → WriteTask) (assign : ι → Nat) (k₀ : Kernel) (c : Conf ι) : Prop where
  index : ∀ t, (c.pc t).1 = t
  annotated : Annotated (Global tasks assign k₀) (Assertion tasks assign k₀) (Private assign) c

omit [DecidableEq ι] in
theorem Inv.start (tasks : ι → WriteTask) (assign : ι → Nat) (k₀ : Kernel) :
    Inv tasks assign k₀ (Commutation.start k₀) where
  index := fun _ => rfl
  annotated :=
    { global := ⟨rfl, Overlaying.init ..⟩
      local_ := fun _ => List.not_mem_nil
      compatible := fun _ _ hne => ⟨hne, nofun⟩ }

section Move

variable (h : Annotated (Global tasks assign k₀) (Assertion tasks assign k₀) (Private assign) c)

include h

/-- The task opens its file: the descriptor is new in its container. -/
theorem annotated_open (hpc : c.pc t = (t, .start)) (hsucc : Succeeds tasks assign c t fault) :
    Annotated (Global tasks assign k₀) (Assertion tasks assign k₀) (Private assign)
      (c.move t (act tasks assign fault (t, .start) c.shared).1
        (act tasks assign fault (t, .start) c.shared).2) := by
  have hself := h.local_ t
  rw [Succeeds, hpc] at hsucc
  rw [hpc] at hself
  obtain ⟨fd, f, fs, hfree, hflags, hentry, hnext⟩ := Server.nextWrite_open hsucc
  simp only [act, hnext]
  rw [entryFor_congr h.global.host] at hentry
  -- the directory afterwards, and what it says of the file
  have hfiles : Overlaying k₀.fs (name tasks assign k₀) (off tasks) (data tasks) fs
        c.shared.written ∧
      fs.dir (name tasks assign k₀ t) = some f.ino ∧
      ∀ e ino, c.shared.kernel.fs.dir e = some ino → fs.dir e = some ino := by
    refine ⟨?_, ?_, fun e ino he => openEntry_dir_of_some hentry he⟩
    · rcases openEntry_serverFlags hentry with ⟨-, rfl⟩ | ⟨hnone, -, perm, rfl⟩
      · exact h.global.files
      · exact h.global.files.create hnone perm
    · rw [openEntry_dir hentry]
      exact Function.update_self ..
  obtain ⟨hover, hino, hdir⟩ := hfiles
  have hprivate : ∀ u, u ≠ t → Private assign (t, .opened fd) (c.pc u) := by
    intro u hu
    have hne := (h.compatible t u hu.symm).1
    rw [hpc] at hne
    refine ⟨hne, ?_⟩
    rintro fd' hfd hq hassign
    obtain rfl := Option.some.inj hfd
    obtain ⟨g, hg⟩ := (h.local_ u).open_of_fd? hq
    rw [← hassign, hfree] at hg
    cases hg
  apply Annotated.move (fun _ _ => Private.symm) h
  · exact ⟨h.global.host, hover⟩
  · exact ⟨hself, f, setFd_fds_self .., hflags, hino, nofun⟩
  · intro u hu
    exact ⟨(h.local_ u).frame_setFd fs (hprivate u hu) Iff.rfl hdir rfl, hprivate u hu⟩

/-- The task seeks: nobody else has its descriptor. -/
theorem annotated_seek {fd : Int} (hoff : ∀ t, (tasks t).dataOffset < 18446744073709551616)
    (hpc : c.pc t = (t, .opened fd)) (hsucc : Succeeds tasks assign c t fault) :
    Annotated (Global tasks assign k₀) (Assertion tasks assign k₀) (Private assign)
      (c.move t (act tasks assign fault (t, .opened fd) c.shared).1
        (act tasks assign fault (t, .opened fd) c.shared).2) := by
  have hself := h.local_ t
  rw [Succeeds, hpc] at hsucc
  rw [hpc] at hself
  obtain ⟨hnot, f, hf, hflags, hino, -⟩ := hself
  obtain ⟨pos, hnext⟩ := Server.nextWrite_seek hf (hoff t) hsucc
  simp only [act, hnext]
  apply Annotated.move (fun _ _ => Private.symm) h
  · exact ⟨h.global.host, h.global.files⟩
  · refine ⟨hnot, _, setFd_fds_self .., hflags, hino, ?_⟩
    rintro n hn
    exact Option.some.inj hn
  · intro u hu
    have hprivate := h.compatible t u hu.symm
    rw [hpc] at hprivate
    exact ⟨(h.local_ u).frame_setFd _ hprivate Iff.rfl (fun _ _ he => he) rfl, hprivate⟩

/-- The task writes at its own offset. -/
theorem annotated_write {fd pos : Int}
    (hdisj : ∀ u, u ≠ t → fileOf k₀.fs (name tasks assign k₀ u) =
      fileOf k₀.fs (name tasks assign k₀ t) → Disjoint (off tasks) (data tasks) u t)
    (hpc : c.pc t = (t, .sought fd pos)) (hsucc : Succeeds tasks assign c t fault) :
    Annotated (Global tasks assign k₀) (Assertion tasks assign k₀) (Private assign)
      (c.move t (act tasks assign fault (t, .sought fd pos) c.shared).1
        (act tasks assign fault (t, .sought fd pos) c.shared).2) := by
  have hself := h.local_ t
  rw [Succeeds, hpc] at hsucc
  rw [hpc] at hself
  -- the private state says where the descriptor stands
  obtain ⟨hnot, f, hf, hflags, hino, hpos⟩ := hself
  have hoffset : f.offset = off tasks t := hpos _ rfl
  -- the write goes to that place in full
  obtain ⟨hroom, f', calls, hnext⟩ := Server.nextWrite_write hf hflags hsucc
  simp only [act, hnext]
  rw [hoffset] at hroom ⊢
  apply Annotated.move (fun _ _ => Private.symm) h
  -- every file still holds an overlay of what was written to it
  · exact ⟨h.global.host, h.global.files.write hino hnot hdisj hroom⟩
  · exact List.mem_cons_self
  -- the other tasks' descriptors are of other processes
  · intro u hu
    have hprivate := h.compatible t u hu.symm
    rw [hpc] at hprivate
    have hwritten : (c.pc u).1 ∈ t :: c.shared.written ↔ (c.pc u).1 ∈ c.shared.written := by
      simp [Ne.symm hprivate.1]
    exact ⟨(h.local_ u).frame_setFd (c.shared.kernel.fs.setContent ..) hprivate hwritten
      (fun _ _ he => he) rfl, hprivate.1, nofun⟩

end Move

/-- **One step** of one task keeps the assertions of all tasks. -/
theorem inv_step (h : Inv tasks assign k₀ c)
    (hoff : ∀ t, (tasks t).dataOffset < 18446744073709551616)
    (hdisj : ∀ t u, t ≠ u → fileOf k₀.fs (name tasks assign k₀ t) =
      fileOf k₀.fs (name tasks assign k₀ u) → Disjoint (off tasks) (data tasks) t u)
    (hsucc : Succeeds tasks assign c t fault) :
    Inv tasks assign k₀ (c.move t (act tasks assign fault (c.pc t) c.shared).1
      (act tasks assign fault (c.pc t) c.shared).2) := by
  have hindex := h.index t
  refine ⟨?_, ?_⟩
  · intro u
    by_cases hu : u = t
    · rw [hu, Config.move_pc_self]
      exact hindex
    · rw [Config.move_pc_of_ne _ _ _ hu]
      exact h.index u
  · rcases hpc : c.pc t with ⟨u, a⟩
    rw [hpc] at hindex
    obtain rfl : u = t := hindex
    cases a with
    | start => exact annotated_open h.annotated hpc hsucc
    | opened fd => exact annotated_seek h.annotated hoff hpc hsucc
    | sought fd pos =>
      exact annotated_write h.annotated (fun v hv => hdisj v u hv) hpc hsucc
    | done calls =>
      -- a task that is done makes no further call
      have hlocal := h.annotated.local_ u
      rw [hpc] at hlocal
      apply Annotated.move (fun _ _ => Private.symm) h.annotated h.annotated.global hlocal
      intro v hv
      have hcompat := h.annotated.compatible u v hv.symm
      rw [hpc] at hcompat
      exact ⟨h.annotated.local_ v, hcompat⟩

end Tasks

/-! ## The final content -/

/-- Every file is its initial content overlaid with the ranges of the tasks that name it, and
only named files were created. -/
structure Overlays {ι : Type} (fs₀ : FileSystem) (name : ι → Entry) (off : ι → Nat)
    (data : ι → List Byte) (fs : FileSystem) : Prop where
  existing : ∀ ino, ino < fs₀.nextIno → Overlaid 0 (fs₀.inodes ino).content.1 off data
    {t | fs₀.dir (name t) = some ino} (fs.inodes ino).content.1
  kept : ∀ e ino, fs₀.dir e = some ino → fs.dir e = some ino
  created : ∀ e, fs₀.dir e = none → (∃ t, name t = e) → ∃ ino, fs.dir e = some ino ∧
    Overlaid 0 [] off data {t | name t = e} (fs.inodes ino).content.1
  absent : ∀ e, fs₀.dir e = none → (∀ t, name t ≠ e) → fs.dir e = none

section Final

variable {ι : Type} {name : ι → Entry} {off : ι → Nat} {data : ι → List Byte}
  {fs₀ fs fs' : FileSystem} {written : List ι}

theorem fileOf_eq_inl_iff {e : Entry} {ino : Ino} :
    fileOf fs₀ e = .inl ino ↔ fs₀.dir e = some ino := by
  cases h : fs₀.dir e with
  | none => simp [fileOf_of_none h]
  | some i => simp [fileOf_of_some h]

theorem Overlaying.finish (h : Overlaying fs₀ name off data fs written)
    (hall : ∀ t, t ∈ written) : Overlays fs₀ name off data fs where
  existing := by
    intro ino hlt
    -- the writers of an old file are those whose name it had
    have hset : writersOf fs₀ name written (.inl ino) = {t | fs₀.dir (name t) = some ino} := by
      ext t
      simp [mem_writersOf, hall t, fileOf_eq_inl_iff]
    rw [← hset]
    exact h.holds (.inl ino) ino ⟨rfl, hlt⟩
  kept := h.bound
  created := by
    rintro e hnone ⟨t, rfl⟩
    obtain ⟨ino, hino⟩ := Option.ne_none_iff_exists'.mp (h.opened t (hall t))
    refine ⟨ino, hino, ?_⟩
    -- the writers of a new file are those with its name
    have hset : writersOf fs₀ name written (.inr (name t)) = {u | name u = name t} := by
      ext u
      simp only [mem_writersOf, hall u, true_and]
      constructor
      · exact eq_of_fileOf_inr
      · intro hu
        show fileOf fs₀ (name u) = .inr (name t)
        rw [show name u = name t from hu]
        exact fileOf_of_none hnone
    rw [← hset]
    exact h.holds (.inr (name t)) ino ⟨hnone, hino⟩
  absent := by
    intro e hnone hunnamed
    by_contra hne
    obtain ⟨t, ht⟩ := h.named e hnone hne
    exact hunnamed t ht

theorem Overlays.content_eq (h : Overlays fs₀ name off data fs)
    (h' : Overlays fs₀ name off data fs') {ino : Ino} (hlt : ino < fs₀.nextIno) :
    (fs.inodes ino).content.1 = (fs'.inodes ino).content.1 :=
  (h.existing ino hlt).unique (h'.existing ino hlt)

/-- The tasks determine what every entry leads to. -/
theorem Overlays.file_eq (h : Overlays fs₀ name off data fs)
    (h' : Overlays fs₀ name off data fs') (e : Entry) : fs.file e = fs'.file e := by
  unfold FileSystem.file
  cases h₀ : fs₀.dir e with
  | some ino =>
    rw [h.kept e ino h₀, h'.kept e ino h₀]
    exact congrArg some (h.content_eq h' (fs₀.bound e ino h₀))
  | none =>
    by_cases hnamed : ∃ t, name t = e
    · obtain ⟨ino, hino, hover⟩ := h.created e h₀ hnamed
      obtain ⟨ino', hino', hover'⟩ := h'.created e h₀ hnamed
      rw [hino, hino']
      exact congrArg some (hover.unique hover')
    · have hunnamed : ∀ t, name t ≠ e := fun t ht => hnamed ⟨t, ht⟩
      rw [h.absent e h₀ hunnamed, h'.absent e h₀ hunnamed]
      rfl

end Final

section Runs

variable {ι : Type} [DecidableEq ι] {tasks : ι → WriteTask} {assign assign' : ι → Nat}
  {k₀ : Kernel} {c c' : Conf ι}

/-- Every task has made its three calls. -/
def Done (c : Conf ι) : Prop := ∀ t, ∃ calls, (c.pc t).2 = .done calls

omit [DecidableEq ι] in
/-- An absolute name leads all containers to the same entry. -/
theorem name_of_absolute {t : ι} (h : (stripScheme (tasks t).filename).head? = some '/') :
    name tasks assign k₀ t = name tasks assign' k₀ t := by
  simp [name, entryFor, absolute_of_head h]

theorem overlays_of_done (hoff : ∀ t, (tasks t).dataOffset < 18446744073709551616)
    (hdisj : ∀ t u, t ≠ u → fileOf k₀.fs (name tasks assign k₀ t) =
      fileOf k₀.fs (name tasks assign k₀ u) → Disjoint (off tasks) (data tasks) t u)
    (hreach : Reach (stepsOf (act tasks assign) (Succeeds tasks assign)) (start k₀) c)
    (hdone : Done c) :
    Overlays k₀.fs (name tasks assign k₀) (off tasks) (data tasks) c.shared.kernel.fs := by
  have hinv : Inv tasks assign k₀ c := by
    apply Interleaving.invariant _ (Inv.start tasks assign k₀) hreach
    rintro d t sh p hd ⟨fault, hsucc, hact⟩
    obtain ⟨rfl, rfl⟩ := Prod.mk.inj hact
    exact inv_step hd hoff hdisj hsucc
  apply hinv.annotated.global.files.finish
  intro t
  -- a task that is done has been recorded
  obtain ⟨calls, hcalls⟩ := hdone t
  have hlocal := hinv.annotated.local_ t
  have hpc : c.pc t = (t, .done calls) := Prod.ext (hinv.index t) hcalls
  rw [hpc] at hlocal
  exact hlocal

/-- **Independent writes commute.**  Take any tasks whose ranges are disjoint within each file,
any filesystem, any two assignments of the tasks to containers that lead each of them to its
file, and for either one any interleaving of their system calls, all of which succeed in full.
In the end every file is its initial content overlaid with all ranges, gaps filled with zeros,
and it is the same in both.

`hname` is what one filesystem, shared by the containers, means for names.  The adapters send
absolute names, for which it holds (`name_of_absolute`).  `test.cc` sends the relative name of
`dtio://test.txt`, for which it says that both containers run in the same directory. -/
theorem writes_commute (hoff : ∀ t, (tasks t).dataOffset < 18446744073709551616)
    (hname : ∀ t, name tasks assign k₀ t = name tasks assign' k₀ t)
    (hdisj : ∀ t u, t ≠ u → fileOf k₀.fs (name tasks assign k₀ t) =
      fileOf k₀.fs (name tasks assign k₀ u) → Disjoint (off tasks) (data tasks) t u)
    (hreach : Reach (stepsOf (act tasks assign) (Succeeds tasks assign)) (start k₀) c)
    (hdone : Done c)
    (hreach' : Reach (stepsOf (act tasks assign') (Succeeds tasks assign')) (start k₀) c')
    (hdone' : Done c') :
    Overlays k₀.fs (name tasks assign k₀) (off tasks) (data tasks) c.shared.kernel.fs ∧
    (∀ e, c.shared.kernel.fs.file e = c'.shared.kernel.fs.file e) ∧
    ∀ ino, ino < k₀.fs.nextIno → (c.shared.kernel.fs.inodes ino).content.1 =
      (c'.shared.kernel.fs.inodes ino).content.1 := by
  have h := overlays_of_done hoff hdisj hreach hdone
  have hsame : name tasks assign k₀ = name tasks assign' k₀ := funext hname
  rw [hsame] at hdisj h
  have h' := overlays_of_done hoff hdisj hreach' hdone'
  refine ⟨?_, h.file_eq h', fun ino hlt => h.content_eq h' hlt⟩
  rw [hsame]
  exact h

end Runs

/-! ## Two tasks in two containers -/

/-- A byte for offset 4 of `/f`, and one for offset 1. -/
def pair (t : Bool) : WriteTask :=
  ⟨[if t then 7 else 8], if t then 4 else 1, 1, ['/', 'f'], .kPosix⟩

/-- A kernel with `/f` of three bytes. -/
def pairKernel : Kernel := (Adapter.deployment Adapter.threeBytes Adapter.openToAll).kernel

/-- One container each, or both in one. -/
def apart (t : Bool) : Nat := if t then 1 else 2
def together (_ : Bool) : Nat := 5

/-- The calls alternate, or one task follows the other. -/
def alternate : List (Bool × Fault) :=
  [(true, .none), (false, .none), (true, .none), (false, .none), (true, .none), (false, .none)]
def consecutive : List (Bool × Fault) :=
  [(false, .none), (false, .none), (false, .none), (true, .none), (true, .none), (true, .none)]

instance {ι : Type} (tasks : ι → WriteTask) (assign : ι → Nat) (c : Conf ι) (t : ι)
    (fault : Fault) : Decidable (Succeeds tasks assign c t fault) :=
  inferInstanceAs (Decidable (WriteAt.Succeeded ..))

theorem writes_commute_pair :
    (∀ e, (play (act pair apart) (start pairKernel) alternate).shared.kernel.fs.file e =
      (play (act pair together) (start pairKernel) consecutive).shared.kernel.fs.file e) ∧
    (play (act pair apart) (start pairKernel) alternate).shared.kernel.fs.file 0 =
      some [1, 8, 3, 0, 7] := by
  -- the offsets are 64-bit numbers, and the names do not depend on who opens
  have hoff : ∀ t, (pair t).dataOffset < 18446744073709551616 := by decide
  have hname : ∀ t, name pair apart pairKernel t = name pair together pairKernel t :=
    fun t => name_of_absolute rfl
  -- the two tasks write different bytes
  have hdisj : ∀ t u, t ≠ u → Disjoint (off pair) (data pair) t u := by
    rintro (_ | _) (_ | _) hne p ⟨hp, hq⟩
    all_goals simp [Covers, off, data, pair, IoTask.payload] at hne hp hq
    all_goals omega
  -- both executions are over
  have hdone : Done (play (act pair apart) (start pairKernel) alternate) := by
    rintro (_ | _)
    · exact ⟨_, rfl⟩
    · exact ⟨_, rfl⟩
  have hdone' : Done (play (act pair together) (start pairKernel) consecutive) := by
    rintro (_ | _)
    · exact ⟨_, rfl⟩
    · exact ⟨_, rfl⟩
  obtain ⟨-, hfile, -⟩ := writes_commute hoff hname (fun t u hne _ => hdisj t u hne)
    (reach_play (by decide +kernel)) hdone (reach_play (by decide +kernel)) hdone'
  exact ⟨hfile, by decide +kernel⟩

end DTIO.Properties.Commutation
