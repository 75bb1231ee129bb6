import DTIO.Adapter.Registered
import DTIO.Adapter.Stdio
import DTIO.Foundation.Mealy

/-!
# Written Streams

A program that writes its files with `fopen`, `fwrite` and `fclose` runs over DTIO and over the
C library alone.  DTIO sends the bytes of every `fwrite` to the file at once, the library keeps
them in a buffer of the stream for as long as it likes, so the two differ in the files that are
open.  They agree on what the calls return and on every file that no stream has open.

In between, the file is ahead by what is in the buffer: DTIO's `current_offset` is the library's
offset and the length of the buffer, and the bytes of the buffer are in the file already.

## Main definitions

- `plainStep`: the same program on the C library alone
- `settled`: the files that no stream has open
- `Ahead`: a stream over DTIO and its counterpart
- `Mirror`: the simulation relation

## Main results

- `Mirror.of_frame`: the rule for calls on one stream
- `step_mirror`: one call
- `streams_refine`: equal results and equal closed files along every admissible run
-/

namespace DTIO.Properties.WrittenStreams

open DTIO.Posix DTIO.Chimod DTIO.Client DTIO.ByteFile DTIO.MachineInt DTIO.Adapter

/-! ## Two programs -/

/-- A call and what the environment makes of it, over DTIO and on the library alone. -/
abbrev Input := AppCall × Env × Env

def dtioStep (p : Program) (i : Input) : Result × Program := p.step (i.1, i.2.1)

/-- The program without DTIO. -/
def plainStep (q : Program) (i : Input) : Result × Program :=
  match i.1 with
  | .posix c =>
    let r := Direct.step q.sys.kernel c
    (r.1, q.withSys (q.sys.withKernel r.2))
  | .fopen filename mode fp =>
    let r := StdioApi.fopen filename mode fp q
    (⟨r.1, []⟩, r.2)
  | .fwrite ptr size count fp =>
    let r := StdioApi.fwrite ptr size count fp i.2.2 q
    (⟨r.1, []⟩, r.2)
  | .fclose fp =>
    let r := StdioApi.fclose fp q
    (⟨r.1, []⟩, r.2)

/-- The file a stream has open. -/
def opened (p : Program) (fp : FilePtr) : Option Ino :=
  (p.files fp).bind fun s => (p.sys.kernel.fds appPid s.fd).map OpenFile.ino

/-- What a fresh `open` would find in the files that no stream has open. -/
def settled (p : Program) : Set (Entry × Option (List Byte)) :=
  { x | p.sys.kernel.fs.file x.1 = x.2 ∧
    ∀ fp ino, opened p fp = some ino → p.sys.kernel.fs.dir x.1 ≠ some ino }

/-! ## Calls in scope -/

/-- No descriptor of the application is open on the file of the path. -/
def NotOpen (p : Program) (path : PathStr) : Prop :=
  ∀ n < p.sys.kernel.host.fdLimit, ∀ f ∈ p.sys.kernel.fds appPid (n : Int),
    p.sys.kernel.fs.dir (p.sys.kernel.host.walk path) ≠ some f.ino

instance {p : Program} {path : PathStr} : Decidable (NotOpen p path) :=
  inferInstanceAs (Decidable (∀ n < p.sys.kernel.host.fdLimit,
    ∀ f ∈ p.sys.kernel.fds appPid (n : Int), _ ≠ _))

/-- A stream is opened for writing, on an intercepted path whose file is not open, at memory
that is free.  A whole buffer is written and the server's calls succeed; of items without bytes,
for which the library returns 0 whatever their number, there are none. -/
def Admissible (p : Program) (i : Input) : Prop :=
  match i.1 with
  | .posix _ => False
  | .fopen filename mode fp =>
    fp ≠ 0 ∧ p.files fp = none ∧
    (∀ flags ∈ StdioApi.openFlags mode,
      isWritable flags = true ∧ hasFlag flags oAppend = false) ∧
    p.sys.config.shouldIntercept (absolute (p.sys.kernel.host.cwd appPid) filename) = true ∧
    NotOpen p (absolute (p.sys.kernel.host.cwd appPid) filename)
  | .fwrite ptr size count fp =>
    (p.files fp).isSome = true ∧ ptr.length = size * count ∧
    size * count < 18446744073709551616 ∧ (size = 0 → count = 0) ∧
    ∀ r ∈ (Stdio.fwrite ptr size count fp i.2.1 p).2.2, r.landed .kStdio ptr.length i.2.1
  | .fclose fp => (p.files fp).isSome = true

instance {p : Program} {i : Input} : Decidable (Admissible p i) :=
  match i with
  | (.posix _, _) => isFalse id
  | (.fopen .., _) => inferInstanceAs (Decidable (_ ∧ _ ∧ (∀ flags ∈ _, _ ∧ _) ∧ _ ∧ NotOpen ..))
  | (.fwrite .., _) =>
    inferInstanceAs (Decidable (_ ∧ _ ∧ _ ∧ _ ∧ ∀ r ∈ _, ServerRun.landed ..))
  | (.fclose _, _) => inferInstanceAs (Decidable (_ = true))

/-! ## File systems with the same names -/

/-- The same names, permissions and unused numbers; the contents may differ. -/
structure SameNames (fs fs' : FileSystem) : Prop where
  dir : fs'.dir = fs.dir
  nextIno : fs'.nextIno = fs.nextIno
  perm : ∀ ino, (fs'.inodes ino).perm = (fs.inodes ino).perm

section Names

variable {fs fs' : FileSystem}

theorem setContent_perm (fs : FileSystem) (ino : Ino) (c : Content) (i : Ino) :
    ((fs.setContent ino c).inodes i).perm = (fs.inodes i).perm := by
  by_cases hi : i = ino
  · subst hi
    simp [FileSystem.setContent]
  · simp [FileSystem.setContent, hi]

theorem setContent_content (fs : FileSystem) (ino : Ino) (c : Content) :
    ((fs.setContent ino c).inodes ino).content = c := by
  simp [FileSystem.setContent]

theorem setContent_content_of_ne (fs : FileSystem) {ino i : Ino} (c : Content) (hi : i ≠ ino) :
    ((fs.setContent ino c).inodes i).content = (fs.inodes i).content := by
  simp [FileSystem.setContent, hi]

theorem SameNames.setContent (h : SameNames fs fs') (ino : Ino) (c c' : Content) :
    SameNames (fs.setContent ino c) (fs'.setContent ino c') where
  dir := h.dir
  nextIno := h.nextIno
  perm := fun i => by rw [setContent_perm, setContent_perm, h.perm]

/-- An entry of which both hold the same file is opened in both, or refused in both. -/
theorem SameNames.openEntry (h : SameNames fs fs') (host : Host) (uid : Uid) {e : Entry}
    (flags mode : Nat)
    (hcontent : ∀ ino, fs.dir e = some ino →
      (fs'.inodes ino).content = (fs.inodes ino).content) :
    (fs.openEntry host uid e flags mode = none ∧ fs'.openEntry host uid e flags mode = none) ∨
    ∃ ino g g', fs.openEntry host uid e flags mode = some (ino, g) ∧
      fs'.openEntry host uid e flags mode = some (ino, g') ∧ SameNames g g' ∧
      (g'.inodes ino).content = (g.inodes ino).content := by
  unfold FileSystem.openEntry
  rw [h.dir]
  cases hdir : fs.dir e with
  | none =>
    dsimp only
    rw [h.nextIno]
    split
    · -- the new files are empty
      refine Or.inr ⟨_, _, _, rfl, rfl, ⟨?_, ?_, fun i => ?_⟩, ?_⟩
      · simp [FileSystem.create, h.dir, h.nextIno]
      · simp [FileSystem.create, h.nextIno]
      · by_cases hi : i = fs.nextIno
        · simp [FileSystem.create, h.nextIno, hi]
        · simp [FileSystem.create, h.nextIno, hi, h.perm]
      · simp [FileSystem.create, h.nextIno]
    · exact Or.inl ⟨rfl, rfl⟩
  | some ino =>
    dsimp only
    rw [h.perm]
    split
    · exact Or.inl ⟨rfl, rfl⟩
    split
    · split
      · refine Or.inr ⟨_, _, _, rfl, rfl, h.setContent .., ?_⟩
        simp [FileSystem.setContent]
      · exact Or.inr ⟨_, _, _, rfl, rfl, h, hcontent ino hdir⟩
    · exact Or.inl ⟨rfl, rfl⟩

end Names

/-! ## Streams -/

/-- A stream over DTIO and its counterpart on the library alone, which has `buf` in its buffer.
Their descriptors have one number and one file, which the recorded path names. -/
structure Ahead (p q : Program) (fp : FilePtr) (fd : Int) (info : FileInfo) (f g : OpenFile)
    (buf : List Byte) : Prop where
  stream : p.files fp = some ⟨fd, []⟩
  plainStream : q.files fp = some ⟨fd, buf⟩
  entry : p.sys.clientMeta.stdioFiles fp = some info
  file : p.sys.kernel.fds appPid fd = some f
  plainFile : q.sys.kernel.fds appPid fd = some g
  range : ∃ n : Nat, n < p.sys.kernel.host.fdLimit ∧ fd = n
  ino : f.ino = g.ino
  flags : f.flags = g.flags
  writable : isWritable g.flags = true
  not_append : hasFlag g.flags oAppend = false
  path : info.absolutePath.head? = some '/'
  bound : p.sys.kernel.fs.dir (p.sys.kernel.host.walk info.absolutePath) = some g.ino
  offset : info.currentOffset = (g.offset + buf.length : Nat)
  offset_le : g.offset + buf.length ≤ maxSigned64
  /-- The file has the bytes of the buffer already. -/
  content : (p.sys.kernel.fs.inodes g.ino).content.1 =
    writeAt 0 (q.sys.kernel.fs.inodes g.ino).content.1 g.offset buf

/-- A `FILE *` is free in both programs, or a stream in both. -/
inductive StreamRel (p q : Program) (fp : FilePtr) : Prop where
  | free : p.files fp = none → q.files fp = none → StreamRel p q fp
  | ahead {fd : Int} {info : FileInfo} {f g : OpenFile} {buf : List Byte} :
      Ahead p q fp fd info f g buf → StreamRel p q fp

/-- The programs differ in the streams and in the contents of the files these have open. -/
structure Mirror (p q : Program) : Prop where
  host : q.sys.kernel.host = p.sys.kernel.host
  names : SameNames p.sys.kernel.fs q.sys.kernel.fs
  open_iff : ∀ fd, (p.sys.kernel.fds appPid fd).isNone = (q.sys.kernel.fds appPid fd).isNone
  stream : ∀ fp, StreamRel p q fp
  /-- No two streams have one file open. -/
  own : ∀ fp fp' ino, opened p fp = some ino → opened p fp' = some ino → fp = fp'
  content : ∀ ino, (∀ fp, opened p fp ≠ some ino) →
    (q.sys.kernel.fs.inodes ino).content = (p.sys.kernel.fs.inodes ino).content

section Streams

variable {p q p' q' : Program} {fp : FilePtr} {fd : Int} {info : FileInfo} {f g : OpenFile}
  {buf : List Byte} {ino : Ino}

theorem Ahead.opened (h : Ahead p q fp fd info f g buf) : opened p fp = some g.ino := by
  simp [WrittenStreams.opened, h.stream, h.file, h.ino]

theorem Ahead.opened_plain (h : Ahead p q fp fd info f g buf) :
    WrittenStreams.opened q fp = some g.ino := by
  simp [WrittenStreams.opened, h.plainStream, h.plainFile]

theorem opened_eq (h : Mirror p q) (fp : FilePtr) : opened q fp = opened p fp := by
  cases h.stream fp with
  | free hp hq => simp [opened, hp, hq]
  | ahead ha => rw [ha.opened, ha.opened_plain]

/-- Related programs show the same closed files. -/
theorem settled_eq (h : Mirror p q) : settled p = settled q := by
  ext ⟨e, c⟩
  simp only [settled, Set.mem_ofPred_eq, opened_eq h, h.names.dir]
  apply and_congr_left
  intro hnot
  have hfile : q.sys.kernel.fs.file e = p.sys.kernel.fs.file e := by
    unfold FileSystem.file
    rw [h.names.dir]
    cases hdir : p.sys.kernel.fs.dir e with
    | none => rfl
    | some ino =>
      rw [Option.map_some, Option.map_some, h.content ino]
      exact fun fp ho => hnot fp ino ho hdir
  rw [hfile]

/-! ## Calls on one stream -/

/-- A call on the stream `fp`, with descriptor `fd` on the file `ino`, leaves the rest alone. -/
structure Frame (p p' : Program) (fp : FilePtr) (fd : Int) (ino : Ino) : Prop where
  host : p'.sys.kernel.host = p.sys.kernel.host
  files : ∀ fp', fp' ≠ fp → p'.files fp' = p.files fp'
  entry : ∀ fp', fp' ≠ fp →
    p'.sys.clientMeta.stdioFiles fp' = p.sys.clientMeta.stdioFiles fp'
  fds : ∀ fd', fd' ≠ fd → p'.sys.kernel.fds appPid fd' = p.sys.kernel.fds appPid fd'
  dir : ∀ e i, p.sys.kernel.fs.dir e = some i → p'.sys.kernel.fs.dir e = some i
  content : ∀ i, i ≠ ino →
    (p'.sys.kernel.fs.inodes i).content = (p.sys.kernel.fs.inodes i).content

/-- Another stream stays what it was. -/
theorem Ahead.frame {fp' : FilePtr} {fd' : Int} (h : Ahead p q fp' fd' info f g buf)
    (hp : Frame p p' fp fd ino) (hq : Frame q q' fp fd ino) (hfp : fp' ≠ fp) (hfd : fd' ≠ fd)
    (hino : g.ino ≠ ino) : Ahead p' q' fp' fd' info f g buf where
  -- the streams, the entry and the descriptors are other than those that changed
  stream := (hp.files fp' hfp).trans h.stream
  plainStream := (hq.files fp' hfp).trans h.plainStream
  entry := (hp.entry fp' hfp).trans h.entry
  file := (hp.fds fd' hfd).trans h.file
  plainFile := (hq.fds fd' hfd).trans h.plainFile
  range := by
    rw [hp.host]
    exact h.range
  ino := h.ino
  flags := h.flags
  writable := h.writable
  not_append := h.not_append
  path := h.path
  bound := by
    rw [hp.host]
    exact hp.dir _ _ h.bound
  offset := h.offset
  offset_le := h.offset_le
  -- so is the file
  content := by
    rw [hp.content _ hino, hq.content _ hino]
    exact h.content

/-- **The rule for calls on one stream.**  No other stream has its descriptor or its file, and
both programs are left in related states as far as the stream goes. -/
theorem Mirror.of_frame (h : Mirror p q) (hp : Frame p p' fp fd ino) (hq : Frame q q' fp fd ino)
    (hothers : ∀ fp' s, fp' ≠ fp → p.files fp' = some s → s.fd ≠ fd ∧ opened p fp' ≠ some ino)
    (hnames : SameNames p'.sys.kernel.fs q'.sys.kernel.fs)
    (hopen : (p'.sys.kernel.fds appPid fd).isNone = (q'.sys.kernel.fds appPid fd).isNone)
    (hstream : StreamRel p' q' fp)
    (hbefore : ∀ i, opened p fp = some i → i = ino)
    (hafter : ∀ i, opened p' fp = some i → i = ino)
    (hcontent : opened p' fp = none →
      (q'.sys.kernel.fs.inodes ino).content = (p'.sys.kernel.fs.inodes ino).content) :
    Mirror p' q' := by
  -- another stream has the file it had, which is not the call's
  have hsame : ∀ fp', fp' ≠ fp → opened p' fp' = opened p fp' := by
    intro fp' hfp
    unfold opened
    rw [hp.files fp' hfp]
    cases hs : p.files fp' with
    | none => rfl
    | some s =>
      rw [Option.bind_some, Option.bind_some, hp.fds _ (hothers fp' s hfp hs).1]
  have hother : ∀ fp', fp' ≠ fp → opened p fp' ≠ some ino := by
    intro fp' hfp ho
    cases hs : p.files fp' with
    | none => simp [opened, hs] at ho
    | some s => exact (hothers fp' s hfp hs).2 ho
  constructor
  case host => rw [hq.host, hp.host, h.host]
  case names => exact hnames
  case open_iff =>
    intro fd'
    by_cases hfd : fd' = fd
    · rw [hfd, hopen]
    · rw [hp.fds fd' hfd, hq.fds fd' hfd, h.open_iff]
  case stream =>
    intro fp'
    by_cases hfp : fp' = fp
    · rw [hfp]
      exact hstream
    cases h.stream fp' with
    | free hfree hfree' =>
      exact .free ((hp.files fp' hfp).trans hfree) ((hq.files fp' hfp).trans hfree')
    | ahead ha =>
      have hino := hother fp' hfp
      rw [ha.opened] at hino
      exact .ahead (ha.frame hp hq hfp (hothers fp' _ hfp ha.stream).1 fun he => hino (by rw [he]))
  case own =>
    -- the file of the call's stream is nobody else's
    intro fp₁ fp₂ i h₁ h₂
    by_cases hfp₁ : fp₁ = fp
    · by_cases hfp₂ : fp₂ = fp
      · rw [hfp₁, hfp₂]
      · rw [hfp₁] at h₁
        rw [hsame fp₂ hfp₂, hafter i h₁] at h₂
        exact absurd h₂ (hother fp₂ hfp₂)
    · rw [hsame fp₁ hfp₁] at h₁
      by_cases hfp₂ : fp₂ = fp
      · rw [hfp₂] at h₂
        rw [hafter i h₂] at h₁
        exact absurd h₁ (hother fp₁ hfp₁)
      · rw [hsame fp₂ hfp₂] at h₂
        exact h.own fp₁ fp₂ i h₁ h₂
  case content =>
    -- the call's file counts as closed if its stream is, any other if it was before
    intro i hnone
    by_cases hi : i = ino
    · subst hi
      apply hcontent
      cases ho : opened p' fp with
      | none => rfl
      | some j =>
        obtain rfl := hafter j ho
        exact absurd ho (hnone fp)
    · rw [hq.content i hi, hp.content i hi]
      apply h.content
      intro fp' ho
      by_cases hfp : fp' = fp
      · rw [hfp] at ho
        exact hi (hbefore i ho)
      · exact hnone fp' ((hsame fp' hfp).trans ho)

/-- The descriptor and the file of a stream are nobody else's. -/
theorem Mirror.others (h : Mirror p q) (ha : Ahead p q fp fd info f g buf) {fp' : FilePtr}
    {s : Stream} (hfp : fp' ≠ fp) (hs : p.files fp' = some s) :
    s.fd ≠ fd ∧ opened p fp' ≠ some g.ino := by
  have hother : opened p fp' ≠ some g.ino := fun ho => hfp (h.own fp' fp _ ho ha.opened)
  refine ⟨fun hfd => hother ?_, hother⟩
  simp [opened, hs, hfd, ha.file, ha.ino]

end Streams

/-! ## The C library on an open stream -/

section Library

variable {q : Program} {fp : FilePtr} {fd : Int} {g : OpenFile} {buf : List Byte}

/-- The program after `d` has been written at the descriptor's offset and the stream holds
`s`. -/
def written (q : Program) (fp : FilePtr) (fd : Int) (g : OpenFile) (d : List Byte)
    (f : Option OpenFile) (s : Option Stream) : Program :=
  (q.withSys (q.sys.withKernel ((q.sys.kernel.withFs (q.sys.kernel.fs.setContent g.ino
    ((q.sys.kernel.fs.inodes g.ino).content.write g.offset d))).setFd appPid fd f))).setFile fp s

section Written

variable (q : Program) (fp : FilePtr) (fd : Int) (g : OpenFile) (d : List Byte)
  (f : Option OpenFile) (s : Option Stream)

theorem written_files : (written q fp fd g d f s).files fp = s := Function.update_self ..

theorem written_fds : (written q fp fd g d f s).sys.kernel.fds appPid fd = f :=
  setFd_fds_self ..

theorem written_fs : (written q fp fd g d f s).sys.kernel.fs =
    q.sys.kernel.fs.setContent g.ino
      ((q.sys.kernel.fs.inodes g.ino).content.write g.offset d) := rfl

theorem written_content :
    ((written q fp fd g d f s).sys.kernel.fs.inodes g.ino).content =
      (q.sys.kernel.fs.inodes g.ino).content.write g.offset d := by
  rw [written_fs, setContent_content]

theorem written_frame : Frame q (written q fp fd g d f s) fp fd g.ino where
  host := rfl
  files := fun _ hfp => Function.update_of_ne hfp ..
  entry := fun _ _ => rfl
  fds := fun _ hfd => setFd_fds_of_ne _ _ _ _ hfd
  dir := fun _ _ he => he
  content := fun _ hi => setContent_content_of_ne _ _ hi

end Written

/-- An `fwrite` of a whole buffer passes on a first part of what is in the buffer then. -/
theorem fwrite_splits (hs : q.files fp = some ⟨fd, buf⟩) (hg : q.sys.kernel.fds appPid fd = some g)
    (hw : isWritable g.flags = true) (happ : hasFlag g.flags oAppend = false)
    {ptr : List Byte} {size count : Nat} (hptr : ptr.length = size * count)
    (hroom : g.offset + (buf ++ ptr).length ≤ maxSigned64) (env : Env) :
    ∃ d d', d ++ d' = buf ++ ptr ∧
      StdioApi.fwrite ptr size count fp env q =
        (if size * count = 0 then 0 else count,
          written q fp fd g d (some { g with offset := g.offset + d.length }) (some ⟨fd, d'⟩)) := by
  unfold StdioApi.fwrite
  rw [hs]
  dsimp only
  by_cases hzero : size * count = 0
  · -- nothing is passed on
    have hnil : ptr = [] := List.length_eq_zero_iff.mp (hptr.trans hzero)
    refine ⟨[], buf, by rw [hnil, List.append_nil, List.nil_append], ?_⟩
    rw [if_pos hzero, if_pos hzero]
    congr 1
    have hkernel : q.sys.kernel.setFd appPid fd (some g) = q.sys.kernel := by
      rw [← hg, setFd_self]
    have hfiles : Function.update q.files fp (some ⟨fd, buf⟩) = q.files := by
      rw [← hs, Function.update_eq_self]
    simp only [written, Content.write_nil, setContent_self, withFs_self, List.length_nil,
      Nat.add_zero, hkernel, Program.setFile, Program.withSys, System.withKernel, hfiles]
    rfl
  · -- what is passed on fits, so that all of it is written
    rw [if_neg hzero, if_neg hzero, ← hptr, List.take_length]
    generalize hall : buf ++ ptr = all at hroom ⊢
    have hle : (all.take env.flushed).length ≤ all.length := by
      rw [List.length_take]
      exact min_le_right _ _
    refine ⟨all.take env.flushed, all.drop (all.take env.flushed).length, ?_, ?_⟩
    · rw [List.length_take]
      rcases le_total env.flushed all.length with hk | hk
      · rw [min_eq_left hk, List.take_append_drop]
      · rw [min_eq_right hk, List.take_of_length_le hk, List.drop_length, List.append_nil]
    · rw [write_full_of_file hg hw happ (Or.inr (by omega)), if_pos rfl]
      rfl

/-- An `fclose` passes on what is in the buffer. -/
theorem fclose_flushes (hs : q.files fp = some ⟨fd, buf⟩)
    (hg : q.sys.kernel.fds appPid fd = some g) (hw : isWritable g.flags = true)
    (happ : hasFlag g.flags oAppend = false)
    (hroom : buf = [] ∨ g.offset + buf.length ≤ maxSigned64) :
    StdioApi.fclose fp q = (0, written q fp fd g buf none none) := by
  unfold StdioApi.fclose
  rw [hs]
  dsimp only
  rw [write_full_of_file hg hw happ hroom, close_of_file (setFd_fds_self ..), setFd_setFd,
    if_pos ⟨rfl, rfl⟩]
  rfl

end Library

/-! ## The calls -/

section Calls

variable {p q : Program} {fp : FilePtr}

theorem ahead_of_isSome (h : Mirror p q) (hs : (p.files fp).isSome = true) :
    ∃ fd info f g buf, Ahead p q fp fd info f g buf := by
  cases h.stream fp with
  | free hnone =>
    rw [hnone] at hs
    cases hs
  | ahead ha => exact ⟨_, _, _, _, _, ha⟩

/-- The file of a path on which no descriptor is open is no stream's. -/
theorem not_opened (h : Mirror p q) {path : PathStr} (hnot : NotOpen p path) {ino : Ino}
    (hdir : p.sys.kernel.fs.dir (p.sys.kernel.host.walk path) = some ino) (fp : FilePtr) :
    opened p fp ≠ some ino := by
  cases h.stream fp with
  | free hnone =>
    intro ho
    rw [opened, hnone] at ho
    cases ho
  | @ahead fd info f g buf ha =>
    obtain ⟨n, hn, rfl⟩ := ha.range
    intro ho
    rw [ha.opened] at ho
    apply hnot n hn f ha.file
    rw [hdir, ha.ino, ho]

/-- Nor is a file that does not exist yet. -/
theorem opened_lt (h : Mirror p q) {ino : Ino} (ho : opened p fp = some ino) :
    ino < p.sys.kernel.fs.nextIno := by
  cases h.stream fp with
  | free hnone =>
    rw [opened, hnone] at ho
    cases ho
  | ahead ha =>
    obtain rfl := Option.some.inj (ha.opened.symm.trans ho)
    exact p.sys.kernel.fs.bound _ _ ha.bound

/-- So the file that an `open` returns is no stream's: it was not open, or has a new number. -/
theorem not_opened_entry (h : Mirror p q) {path : PathStr} (hnot : NotOpen p path) {host : Host}
    {uid : Uid} {flags mode : Nat} {ino : Ino} {fs : FileSystem}
    (hentry : p.sys.kernel.fs.openEntry host uid (p.sys.kernel.host.walk path) flags mode =
      some (ino, fs)) (fp : FilePtr) : opened p fp ≠ some ino := by
  cases hdir : p.sys.kernel.fs.dir (p.sys.kernel.host.walk path) with
  | none =>
    obtain ⟨-, hino, -⟩ := openEntry_created hentry hdir
    intro ho
    exact absurd (opened_lt h ho) (by rw [hino]; exact lt_irrefl _)
  | some i =>
    obtain rfl := openEntry_bound hentry hdir
    exact not_opened h hnot hdir fp

/-- The real `open` gives both programs the same number, or none to either. -/
theorem open64_mirror (h : Mirror p q) {path : PathStr}
    (hnot : NotOpen p (absolute (p.sys.kernel.host.cwd appPid) path)) (flags mode : Nat) :
    (p.sys.kernel.open64 appPid path flags mode = (-1, p.sys.kernel) ∧
      q.sys.kernel.open64 appPid path flags mode = (-1, q.sys.kernel)) ∨
    ∃ fd ino fs fs', p.sys.kernel.lowestFree appPid = some fd ∧
      p.sys.kernel.fs.openEntry p.sys.kernel.host (p.sys.kernel.host.uid appPid)
        (p.sys.kernel.host.walk (absolute (p.sys.kernel.host.cwd appPid) path)) flags mode =
          some (ino, fs) ∧
      q.sys.kernel.fs.openEntry p.sys.kernel.host (p.sys.kernel.host.uid appPid)
        (p.sys.kernel.host.walk (absolute (p.sys.kernel.host.cwd appPid) path)) flags mode =
          some (ino, fs') ∧
      SameNames fs fs' ∧ (fs'.inodes ino).content = (fs.inodes ino).content ∧
      p.sys.kernel.open64 appPid path flags mode =
        (fd, (p.sys.kernel.withFs fs).setFd appPid fd
          (some ⟨ino, flags, 0, some (absolute (p.sys.kernel.host.cwd appPid) path)⟩)) ∧
      q.sys.kernel.open64 appPid path flags mode =
        (fd, (q.sys.kernel.withFs fs').setFd appPid fd
          (some ⟨ino, flags, 0, some (absolute (p.sys.kernel.host.cwd appPid) path)⟩)) := by
  -- both kernels have the same descriptors open, so the same one is free
  have hfree : q.sys.kernel.lowestFree appPid = p.sys.kernel.lowestFree appPid :=
    lowestFree_congr h.host fun fd => (h.open_iff fd).symm
  unfold Kernel.open64
  rw [h.host, hfree]
  by_cases hpath : path.isEmpty = true
  · rw [if_pos hpath, if_pos hpath]
    exact Or.inl ⟨rfl, rfl⟩
  rw [if_neg hpath, if_neg hpath]
  dsimp only
  cases hfd : p.sys.kernel.lowestFree appPid with
  | none => exact Or.inl ⟨rfl, rfl⟩
  | some fd =>
    -- the file is not open over DTIO, so it has the same bytes in both
    have hcontent : ∀ ino, p.sys.kernel.fs.dir (p.sys.kernel.host.walk
        (absolute (p.sys.kernel.host.cwd appPid) path)) = some ino →
        (q.sys.kernel.fs.inodes ino).content = (p.sys.kernel.fs.inodes ino).content :=
      fun ino hdir => h.content ino (not_opened h hnot hdir)
    rcases h.names.openEntry p.sys.kernel.host (p.sys.kernel.host.uid appPid) flags mode
      hcontent with ⟨hp, hq⟩ | ⟨ino, fs, fs', hp, hq, hnames, heq⟩
    · rw [hp, hq]
      exact Or.inl ⟨rfl, rfl⟩
    · rw [hp, hq]
      exact Or.inr ⟨fd, ino, fs, fs', rfl, rfl, rfl, hnames, heq, rfl, rfl⟩

/-- What an `fopen` does once the real `open` has returned a number. -/
theorem fopen_registers {filename : PathStr} {mode : List Char} {flags : Nat} {fd : Int}
    {k : Kernel} (hfp : fp ≠ 0)
    (haccept : p.sys.config.shouldIntercept
      (absolute (p.sys.kernel.host.cwd appPid) filename) = true)
    (hflags : StdioApi.openFlags mode = some flags)
    (ho : p.sys.kernel.open64 appPid filename flags 0o666 = (fd, k)) (hfd : ¬ fd < 0) :
    Stdio.fopen filename mode fp p =
      (fp, (p.withSys { p.sys with
        world := p.sys.world.withKernel k
        clientMeta := p.sys.clientMeta.registerStdioFp fp
          (absolute (p.sys.kernel.host.cwd appPid) filename) (Stdio.modeFlags mode) }).setFile fp
            (some ⟨fd, []⟩)) := by
  simp [Stdio.fopen, StdioApi.fopen, hflags, ho, hfd, hfp, haccept, System.withKernel,
    Program.withSys, Program.setFile]

/-- An `open` that binds a number concerns its entry's file only. -/
theorem opened_frame {p' : Program} {host : Host} {uid : Uid} {e : Entry} {flags mode : Nat}
    {ino : Ino} {fs : FileSystem} {fd : Int} {o : Option OpenFile} {s : Option Stream}
    (hentry : p.sys.kernel.fs.openEntry host uid e flags mode = some (ino, fs))
    (hkernel : p'.sys.kernel = (p.sys.kernel.withFs fs).setFd appPid fd o)
    (hfiles : p'.files = Function.update p.files fp s)
    (hmeta : ∀ fp', fp' ≠ fp →
      p'.sys.clientMeta.stdioFiles fp' = p.sys.clientMeta.stdioFiles fp') :
    Frame p p' fp fd ino where
  host := by rw [hkernel, setFd_host, withFs_host]
  files := fun fp' hfp => by rw [hfiles, Function.update_of_ne hfp]
  entry := hmeta
  fds := fun fd' hfd => by rw [hkernel, setFd_fds_of_ne _ _ _ _ hfd, withFs_fds]
  dir := fun e' i hdir => by
    rw [hkernel, setFd_fs, withFs_fs]
    exact openEntry_dir_of_some hentry hdir
  content := fun i hi => by rw [hkernel, setFd_fs, withFs_fs, openEntry_inodes_of_ne hentry hi]

/-- A stream that has been opened in both programs, on a file that was not open. -/
theorem Mirror.opened (h : Mirror p q) {p' q' : Program} {path : PathStr} {flags mode : Nat}
    {fd : Int} {ino : Ino} {fs fs' : FileSystem} {via : Option PathStr} {recorded : Nat}
    (hfree : p.files fp = none) (hpath : path.head? = some '/') (hnot : NotOpen p path)
    (hfd : p.sys.kernel.lowestFree appPid = some fd)
    (hw : isWritable flags = true) (happ : hasFlag flags oAppend = false)
    (hentry : p.sys.kernel.fs.openEntry p.sys.kernel.host (p.sys.kernel.host.uid appPid)
      (p.sys.kernel.host.walk path) flags mode = some (ino, fs))
    (hentry' : q.sys.kernel.fs.openEntry p.sys.kernel.host (p.sys.kernel.host.uid appPid)
      (p.sys.kernel.host.walk path) flags mode = some (ino, fs'))
    (hnames : SameNames fs fs') (hcontent : (fs'.inodes ino).content = (fs.inodes ino).content)
    (hp : p'.sys.kernel =
      (p.sys.kernel.withFs fs).setFd appPid fd (some ⟨ino, flags, 0, via⟩))
    (hq : q'.sys.kernel =
      (q.sys.kernel.withFs fs').setFd appPid fd (some ⟨ino, flags, 0, via⟩))
    (hpfiles : p'.files = Function.update p.files fp (some ⟨fd, []⟩))
    (hqfiles : q'.files = Function.update q.files fp (some ⟨fd, []⟩))
    (hpmeta : p'.sys.clientMeta.stdioFiles =
      p.sys.clientMeta.stdioFiles.register fp path recorded)
    (hqmeta : q'.sys.clientMeta.stdioFiles = q.sys.clientMeta.stdioFiles) : Mirror p' q' := by
  obtain ⟨n, hn, hfdn, -⟩ := lowestFree_range hfd
  have hnone := (lowestFree_spec hfd).2
  have hbound : fs.dir (p.sys.kernel.host.walk path) = some ino := by
    rw [openEntry_dir hentry, Function.update_self]
  have hahead : Ahead p' q' fp fd (FileInfo.new path recorded) ⟨ino, flags, 0, via⟩
      ⟨ino, flags, 0, via⟩ [] :=
    { stream := by rw [hpfiles, Function.update_self]
      plainStream := by rw [hqfiles, Function.update_self]
      entry := by rw [hpmeta, FileTable.register_self]
      file := by rw [hp, setFd_fds_self]
      plainFile := by rw [hq, setFd_fds_self]
      range := ⟨n, by rw [hp]; exact hn, hfdn⟩
      ino := rfl
      flags := rfl
      writable := hw
      not_append := happ
      path := hpath
      bound := by
        rw [hp]
        exact hbound
      offset := rfl
      offset_le := Nat.zero_le _
      content := by
        rw [writeAt_nil, hp, hq]
        exact congrArg Subtype.val hcontent.symm }
  apply h.of_frame
    (opened_frame hentry hp hpfiles fun fp' hne => by rw [hpmeta, FileTable.register_of_ne _ _ hne])
    (opened_frame hentry' hq hqfiles fun fp' _ => by rw [hqmeta])
  case hothers =>
    -- the descriptor was free, and that of a stream is not
    refine fun fp' s hne hs => ⟨fun hsfd => ?_, not_opened_entry h hnot hentry fp'⟩
    cases h.stream fp' with
    | free hfree' =>
      rw [hfree'] at hs
      cases hs
    | @ahead fd' info f g buf ha =>
      obtain rfl := Option.some.inj (ha.stream.symm.trans hs)
      have hfile := ha.file
      rw [show fd' = fd from hsfd, hnone] at hfile
      cases hfile
  case hnames =>
    rw [hp, hq]
    exact hnames
  case hopen => rw [hahead.file, hahead.plainFile]
  case hstream => exact .ahead hahead
  case hbefore =>
    intro i ho
    rw [WrittenStreams.opened, hfree] at ho
    cases ho
  case hafter => exact fun i ho => (Option.some.inj (ho.symm.trans hahead.opened))
  case hcontent =>
    intro ho
    rw [hahead.opened] at ho
    cases ho

/-- **`fopen`**: no stream in either program, or one in both with nothing in its buffer. -/
theorem fopen_mirror (h : Mirror p q) {filename : PathStr} {mode : List Char} {e e' : Env}
    (hi : Admissible p (.fopen filename mode fp, e, e')) :
    (Stdio.fopen filename mode fp p).1 = (StdioApi.fopen filename mode fp q).1 ∧
      Mirror (Stdio.fopen filename mode fp p).2 (StdioApi.fopen filename mode fp q).2 := by
  obtain ⟨hfp, hfree, hmode, haccept, hnot⟩ := hi
  cases hflags : StdioApi.openFlags mode with
  | none =>
    simp only [Stdio.fopen, StdioApi.fopen, hflags, if_true]
    exact ⟨trivial, h⟩
  | some flags =>
    obtain ⟨hw, happ⟩ := hmode flags hflags
    rcases open64_mirror h hnot flags 0o666 with
      ⟨hp, hq⟩ | ⟨fd, ino, fs, fs', hfd, hentry, hentry', hnames, hcontent, hp, hq⟩
    · have hneg : (-1 : Int) < 0 := by decide
      simp only [Stdio.fopen, StdioApi.fopen, hflags, hp, hq, hneg, if_true]
      exact ⟨trivial, h⟩
    · have hpos : ¬ fd < 0 := not_lt.mpr (lowestFree_spec hfd).1
      rw [fopen_registers hfp haccept hflags hp hpos]
      simp only [StdioApi.fopen, hflags, hq, if_neg hpos]
      exact ⟨trivial, h.opened hfree (head_absolute ..) hnot hfd hw happ hentry hentry' hnames
        hcontent rfl rfl rfl rfl rfl rfl⟩

section Wrote

variable {fd : Int} {info : FileInfo} {f g : OpenFile} {buf : List Byte} {p' : Program}
  {ptr d d' : List Byte} {c : Nat} {fd' : Int} {f' : Option OpenFile}
  (hp : p'.sys.kernel = (p.sys.kernel.withFs (p.sys.kernel.fs.setContent g.ino
    ((p.sys.kernel.fs.inodes g.ino).content.write (g.offset + buf.length) ptr))).setFd
      (pidOf c) fd' f')
  (hfiles : p'.files = p.files)
  (hmeta : p'.sys.clientMeta.stdioFiles = p.sys.clientMeta.stdioFiles.updateOffset fp
    (g.offset + buf.length + ptr.length : Nat))

include hp

/-- The task opened the file in the server's process. -/
theorem sent_fds : p'.sys.kernel.fds appPid = p.sys.kernel.fds appPid := by
  rw [hp, setFd_fds_of_pid_ne _ _ _ _ (appPid_ne_pidOf c), withFs_fds]

include hfiles hmeta

theorem sent_frame : Frame p p' fp fd g.ino where
  host := by rw [hp, setFd_host, withFs_host]
  files := fun fp' _ => by rw [hfiles]
  entry := fun fp' hfp => by rw [hmeta, FileTable.updateOffset_of_ne _ _ hfp]
  fds := fun fd' _ => by rw [sent_fds hp]
  dir := fun e i he => by
    rw [hp]
    exact he
  content := fun i hi => by
    rw [hp]
    exact setContent_content_of_ne _ _ hi

/-- A stream that has written: over DTIO the bytes are in the file, the library has passed on
`d` and keeps `d'`. -/
theorem Ahead.wrote (ha : Ahead p q fp fd info f g buf) (hsplit : d ++ d' = buf ++ ptr)
    (hle : g.offset + buf.length + ptr.length ≤ maxSigned64) :
    Ahead p' (written q fp fd g d (some { g with offset := g.offset + d.length }) (some ⟨fd, d'⟩))
      fp fd { info with currentOffset := (g.offset + buf.length + ptr.length : Nat) } f
      { g with offset := g.offset + d.length } d' := by
  have hlen := congrArg List.length hsplit
  rw [List.length_append, List.length_append] at hlen
  have hframe : Frame p p' fp fd g.ino := sent_frame hp hfiles hmeta
  constructor
  case stream => rw [hfiles, ha.stream]
  case plainStream => exact written_files ..
  case entry => rw [hmeta, FileTable.updateOffset_of_some _ _ ha.entry]
  case file => rw [sent_fds hp, ha.file]
  case plainFile => exact written_fds ..
  case range =>
    rw [hframe.host]
    exact ha.range
  case ino => exact ha.ino
  case flags => exact ha.flags
  case writable => exact ha.writable
  case not_append => exact ha.not_append
  case path => exact ha.path
  case bound =>
    rw [hframe.host]
    exact hframe.dir _ _ ha.bound
  case offset =>
    show ((_ : Nat) : Int) = ((_ : Nat) : Int)
    congr 1
    dsimp only
    omega
  case offset_le =>
    dsimp only
    omega
  case content =>
    -- the same bytes behind one another, cut at two places
    have hdtio : (p'.sys.kernel.fs.inodes g.ino).content.1 =
        writeAt 0 (p.sys.kernel.fs.inodes g.ino).content.1 (g.offset + buf.length) ptr := by
      rw [hp, setFd_fs, withFs_fs, setContent_content, Content.write_val (Or.inr hle)]
    calc (p'.sys.kernel.fs.inodes g.ino).content.1
        = writeAt 0 (writeAt 0 (q.sys.kernel.fs.inodes g.ino).content.1 g.offset buf)
            (g.offset + buf.length) ptr := by rw [hdtio, ha.content]
      _ = writeAt 0 (q.sys.kernel.fs.inodes g.ino).content.1 g.offset (d ++ d') := by
          rw [hsplit, writeAt_append]
      _ = _ := by
          rw [writeAt_append, written_content, Content.write_val (Or.inr (by omega))]

theorem Mirror.wrote (h : Mirror p q) (ha : Ahead p q fp fd info f g buf)
    (hsplit : d ++ d' = buf ++ ptr) (hle : g.offset + buf.length + ptr.length ≤ maxSigned64) :
    Mirror p' (written q fp fd g d (some { g with offset := g.offset + d.length })
      (some ⟨fd, d'⟩)) := by
  have hahead := ha.wrote hp hfiles hmeta hsplit hle
  apply h.of_frame (sent_frame hp hfiles hmeta) (written_frame ..)
  case hothers => exact fun fp' s hfp hs => h.others ha hfp hs
  case hnames =>
    rw [hp]
    exact h.names.setContent ..
  case hopen => rw [hahead.file, hahead.plainFile, Option.isNone_some, Option.isNone_some]
  case hstream => exact .ahead hahead
  case hbefore => exact fun i ho => Option.some.inj (ho.symm.trans ha.opened)
  case hafter => exact fun i ho => Option.some.inj (ho.symm.trans hahead.opened)
  case hcontent =>
    intro ho
    rw [hahead.opened] at ho
    cases ho

end Wrote

/-- **`fwrite`**: the file has the bytes over DTIO, the library a part of them in the file and
the rest in the buffer. -/
theorem fwrite_mirror (h : Mirror p q) {ptr : List Byte} {size count : Nat} {e e' : Env}
    (hi : Admissible p (.fwrite ptr size count fp, e, e')) :
    (Stdio.fwrite ptr size count fp e p).1 = (StdioApi.fwrite ptr size count fp e' q).1 ∧
      Mirror (Stdio.fwrite ptr size count fp e p).2.1
        (StdioApi.fwrite ptr size count fp e' q).2 := by
  obtain ⟨hs, hptr, hsize, hcount, hlanded⟩ := hi
  obtain ⟨fd, info, f, g, buf, ha⟩ := ahead_of_isSome h hs
  rw [Stdio.fwrite_of_registered ha.entry hptr hsize e] at hlanded ⊢
  -- the task places the bytes behind those of the buffer
  have hsent : Stdio.sentFwrite info ptr e p = Client.write ptr ptr.length
      (g.offset + buf.length) info.absolutePath .kStdio e p.sys.world := by
    rw [Stdio.sentFwrite, ha.offset, toUnsigned64_of_le ha.offset_le]
  rw [hsent] at hlanded ⊢
  obtain ⟨hroom, c, fd', f', hkernel⟩ :=
    clientWrite_landed ha.offset_le ha.path ha.bound (hlanded _ rfl)
  obtain ⟨hadvance, hle⟩ := advance_eq ha.offset ha.offset_le
    (hroom.imp_left fun hnil => List.length_eq_zero_iff.mpr hnil)
  have hlen : g.offset + (buf ++ ptr).length ≤ maxSigned64 := by
    rw [List.length_append]
    omega
  -- the library passes on the first of all bytes it has by now
  obtain ⟨d, d', hsplit, hlib⟩ := fwrite_splits ha.plainStream ha.plainFile ha.writable
    ha.not_append hptr hlen e'
  rw [hlib]
  constructor
  · dsimp only
    by_cases hzero : size * count = 0
    · rw [if_pos hzero]
      rcases Nat.mul_eq_zero.mp hzero with hz | hz
      · exact hcount hz
      · exact hz
    · rw [if_neg hzero]
  · refine h.wrote hkernel rfl ?_ ha hsplit hle
    rw [← hadvance]
    rfl

/-- **`fclose`**: what was in the buffer is in the file in both. -/
theorem fclose_mirror (h : Mirror p q) {e e' : Env} (hi : Admissible p (.fclose fp, e, e')) :
    (Stdio.fclose fp p).1 = (StdioApi.fclose fp q).1 ∧
      Mirror (Stdio.fclose fp p).2 (StdioApi.fclose fp q).2 := by
  obtain ⟨fd, info, f, g, buf, ha⟩ := ahead_of_isSome h hi
  -- over DTIO the stream is unregistered first, and its buffer is empty
  have hregistered : p.sys.clientMeta.isStdioFpRegistered fp = true :=
    (FileTable.isRegistered_eq_true ..).mpr ⟨info, ha.entry⟩
  unfold Stdio.fclose
  rw [if_pos hregistered]
  generalize hp : p.withSys
    { p.sys with clientMeta := p.sys.clientMeta.unregisterStdioFp fp } = p₁
  have hflags : isWritable f.flags = true ∧ hasFlag f.flags oAppend = false := by
    rw [ha.flags]
    exact ⟨ha.writable, ha.not_append⟩
  rw [fclose_flushes (by rw [← hp]; exact ha.stream) (by rw [← hp]; exact ha.file) hflags.1
    hflags.2 (Or.inl rfl), fclose_flushes ha.plainStream ha.plainFile ha.writable ha.not_append
    (Or.inr ha.offset_le)]
  refine ⟨rfl, ?_⟩
  have hframe : Frame p (written p₁ fp fd f [] none none) fp fd g.ino := by
    have hw := written_frame p₁ fp fd f [] none none
    rw [ha.ino] at hw
    subst hp
    exact ⟨hw.host, hw.files, fun fp' hfp => FileTable.unregister_of_ne _ _ hfp, hw.fds, hw.dir,
      hw.content⟩
  have hfs : (written p₁ fp fd f [] none none).sys.kernel.fs = p.sys.kernel.fs := by
    rw [written_fs, Content.write_nil, setContent_self, ← hp]
    rfl
  have hclosed : opened (written p₁ fp fd f [] none none) fp = none := by
    rw [opened, written_files]
    rfl
  apply h.of_frame hframe (written_frame ..)
  case hothers => exact fun fp' s hfp hs => h.others ha hfp hs
  case hnames =>
    rw [hfs]
    exact ⟨h.names.dir, h.names.nextIno, fun i => (setContent_perm ..).trans (h.names.perm i)⟩
  case hopen => rw [written_fds, written_fds]
  case hstream => exact .free (written_files ..) (written_files ..)
  case hbefore => exact fun i ho => Option.some.inj (ho.symm.trans ha.opened)
  case hafter =>
    intro i ho
    rw [hclosed] at ho
    cases ho
  case hcontent =>
    -- the library has written what the file over DTIO had
    intro _
    apply Subtype.ext
    rw [hfs, ha.content, written_content, Content.write_val (Or.inr ha.offset_le)]

end Calls

/-! ## Runs -/

/-- **One call** returns the same and leaves related programs. -/
theorem step_mirror {p q : Program} (h : Mirror p q) (i : Input) (hi : Admissible p i) :
    (dtioStep p i).1 = (plainStep q i).1 ∧ Mirror (dtioStep p i).2 (plainStep q i).2 := by
  obtain ⟨call, e, e'⟩ := i
  cases call with
  | posix c => exact absurd hi id
  | fopen filename mode fp =>
    obtain ⟨hresult, hnext⟩ := fopen_mirror h hi
    exact ⟨congrArg (fun r : FilePtr => (⟨r, []⟩ : Result)) hresult, hnext⟩
  | fwrite ptr size count fp =>
    obtain ⟨hresult, hnext⟩ := fwrite_mirror h hi
    exact ⟨congrArg (fun r : Nat => (⟨r, []⟩ : Result)) hresult, hnext⟩
  | fclose fp =>
    obtain ⟨hresult, hnext⟩ := fclose_mirror h hi
    exact ⟨congrArg (fun r : Int => (⟨r, []⟩ : Result)) hresult, hnext⟩

/-- Before a stream is opened the two programs are one. -/
theorem mirror_start {p : Program} (hp : ∀ fp, p.files fp = none) : Mirror p p where
  host := rfl
  names := ⟨rfl, rfl, fun _ => rfl⟩
  open_iff := fun _ => rfl
  stream := fun fp => .free (hp fp) (hp fp)
  own := by
    intro fp fp' ino ho
    rw [opened, hp] at ho
    cases ho
  content := fun _ _ => rfl

/-- **Written streams.**  Whatever the library keeps in its buffers and for how long, along every
run of a program that starts without streams each call returns over DTIO what it returns without,
and after each call the files that no stream has open are the same. -/
theorem streams_refine (p : Program) (hp : ∀ fp, p.files fp = none) (is : List Input)
    (his : Mealy.Along dtioStep Admissible p is) :
    Mealy.trace dtioStep settled p is = Mealy.trace plainStep settled p is := by
  apply Mealy.trace_eq_of_simulation (R := Mirror) (G := Admissible)
  · exact fun p q i h hi => step_mirror h i hi
  · exact fun p q h => settled_eq h
  · exact mirror_start hp
  · exact his

/-- The program of the small deployment, with no stream. -/
def start : Program := ⟨deployment threeBytes openToAll, fun _ => none⟩

/-- A call whose task passes on what it is given, while the library keeps all but `n` bytes. -/
def kept (c : AppCall) (n : Nat) : Input :=
  (c, { Env.calm with flushed := 4 }, { Env.calm with flushed := n })

/-- Two streams, one on a file that exists, are written in turns. -/
def twoStreams : List Input :=
  [kept (.fopen ['/', 'f'] ['r', '+'] 1) 0, kept (.fopen ['/', 'f', 'g'] ['w'] 2) 0,
    kept (.fwrite [7, 8] 1 2 1) 1, kept (.fwrite [4, 5, 6] 3 1 2) 0, kept (.fwrite [9] 1 1 1) 0,
    kept (.fclose 1) 0, kept (.fwrite [7, 8] 2 1 2) 4, kept (.fclose 2) 0]

theorem streams_refine_two :
    Mealy.trace dtioStep settled start twoStreams =
      Mealy.trace plainStep settled start twoStreams :=
  streams_refine start (fun _ => rfl) twoStreams (by decide +kernel)

end DTIO.Properties.WrittenStreams
