import Mathlib.Data.Sum.Basic
import DTIO.Adapter.Registered
import DTIO.Adapter.Stdio
import DTIO.Foundation.Mealy

/-!
# Append Mode

The server opens a file without `O_APPEND` and seeks to the offset it is given, and that offset
starts at 0 for every handle, whatever the mode.  So a write of an append-mode handle lands at
the number of bytes this handle has written, not at the end of the file.

Handles never run ahead of the file, so a run appends if and only if each of its writes finds
its handle's offset at the end.

## Main definitions

- `AppendCall`: opening a handle in append mode, or writing through one
- `AtEnd`: the write finds its offset at the end of the file

## Main results

- `Inv.step`: no handle's offset exceeds the length of the file
- `append_iff`: appending, over runs
- `append_overwrites`: one handle of each adapter on a file that is not empty
-/

namespace DTIO.Properties.AppendMode

open DTIO.Posix DTIO.Chimod DTIO.Client DTIO.ByteFile DTIO.MachineInt DTIO.Mealy
open DTIO.Adapter

/-! ## Handles -/

/-- A descriptor or a stream. -/
abbrev Handle := Int ⊕ FilePtr

/-- Both tables as one. -/
def entries (m : ClientMetadataManager) : Handle → Option FileInfo :=
  Sum.elim m.posixFiles m.stdioFiles

/-- What is registered for a handle. -/
def entry (p : Program) : Handle → Option FileInfo := entries p.sys.clientMeta

section Tables

variable (m : ClientMetadataManager) {info : FileInfo} (path : PathStr) (flags : Nat) (off : Int)

theorem entries_registerPosixFd (fd : Int) :
    entries (m.registerPosixFd fd path flags) =
      Function.update (entries m) (.inl fd) (some (FileInfo.new path flags)) :=
  Sum.update_elim_inl.symm

theorem entries_registerStdioFp (fp : FilePtr) :
    entries (m.registerStdioFp fp path flags) =
      Function.update (entries m) (.inr fp) (some (FileInfo.new path flags)) :=
  Sum.update_elim_inr.symm

theorem entries_updatePosixOffset {fd : Int} (h : entries m (.inl fd) = some info) :
    entries (m.updatePosixOffset fd off) =
      Function.update (entries m) (.inl fd) (some { info with currentOffset := off }) := by
  have hposix : m.posixFiles fd = some info := h
  show Sum.elim (m.posixFiles.updateOffset fd off) m.stdioFiles = _
  rw [FileTable.updateOffset, hposix, entries, Sum.update_elim_inl]
  rfl

theorem entries_updateStdioOffset {fp : FilePtr} (h : entries m (.inr fp) = some info) :
    entries (m.updateStdioOffset fp off) =
      Function.update (entries m) (.inr fp) (some { info with currentOffset := off }) := by
  have hstdio : m.stdioFiles fp = some info := h
  show Sum.elim m.posixFiles (m.stdioFiles.updateOffset fp off) = _
  rw [FileTable.updateOffset, hstdio, entries, Sum.update_elim_inr]
  rfl

end Tables

/-- The path leads to the file `ino`. -/
def Names (ino : Ino) (p : Program) (path : PathStr) : Prop :=
  p.sys.kernel.fs.dir (p.sys.kernel.host.walk path) = some ino

/-- The handle is registered on the file. -/
def OnFile (ino : Ino) (p : Program) (h : Handle) : Prop :=
  ∃ info ∈ entry p h, Names ino p info.absolutePath

/-- What the file holds. -/
def content (ino : Ino) (p : Program) : List Byte := (p.sys.kernel.fs.inodes ino).content.1

/-! ## Calls on append-mode handles -/

/-- The path is to be intercepted and leads to the file. -/
def Leads (ino : Ino) (p : Program) (path : PathStr) : Prop :=
  p.sys.config.shouldIntercept (absolute (p.sys.kernel.host.cwd appPid) path) = true ∧
    Names ino p (absolute (p.sys.kernel.host.cwd appPid) path)

/-- `open` with `O_APPEND`, `fopen` with a mode that starts with `a`, or a write of a whole
buffer through a handle on the file. -/
def AppendCall (ino : Ino) (p : Program) (i : AppCall × Env) : Prop :=
  match i.1 with
  | .posix (.open64 path flags _) => hasFlag flags oAppend = true ∧ Leads ino p path
  | .posix (.write fd _) => OnFile ino p (.inl fd)
  | .fopen filename mode fp => mode.head? = some 'a' ∧ fp ≠ 0 ∧ Leads ino p filename
  | .fwrite ptr size count fp =>
    ptr.length = size * count ∧ size * count < 18446744073709551616 ∧ OnFile ino p (.inr fp)
  | _ => False

/-- What a call writes. -/
def carried : AppCall → List Byte
  | .posix (.write _ data) => data
  | .fwrite ptr _ _ _ => ptr
  | _ => []

/-- Every byte the call sends to the server reaches the file. -/
def Complete (p : Program) (i : AppCall × Env) : Prop :=
  match i.1 with
  | .posix c => Posix.Complete p.sys (c, i.2)
  | .fwrite ptr size count fp =>
    ∀ r ∈ (Stdio.fwrite ptr size count fp i.2 p).2.2, r.landed .kStdio ptr.length i.2
  | _ => True

/-- The file grows by what the call writes, and by nothing else. -/
def Appends (ino : Ino) (p : Program) (i : AppCall × Env) : Prop :=
  content ino (p.step i).2 = content ino p ++ carried i.1

/-- A write finds the offset of its handle at the end of the file, and an open empties no file
that holds something. -/
def AtEnd (ino : Ino) (p : Program) (i : AppCall × Env) : Prop :=
  match i.1 with
  | .posix (.open64 path flags mode) =>
    hasFlag flags oTrunc = false ∨ content ino p = [] ∨
      (p.sys.kernel.open64 appPid path flags mode).1 < 0
  | .posix (.write fd data) => data = [] ∨
    ∀ info ∈ entry p (.inl fd), info.currentOffset = (content ino p).length
  | .fwrite ptr _ _ fp => ptr = [] ∨
    ∀ info ∈ entry p (.inr fp), info.currentOffset = (content ino p).length
  | _ => True

section Decidable

variable {ino : Ino} {p : Program} {i : AppCall × Env}

instance {path : PathStr} : Decidable (Names ino p path) :=
  inferInstanceAs (Decidable (_ = _))

instance {h : Handle} : Decidable (OnFile ino p h) :=
  inferInstanceAs (Decidable (∃ info ∈ entry p h, Names ino p info.absolutePath))

instance {path : PathStr} : Decidable (Leads ino p path) :=
  inferInstanceAs (Decidable (_ ∧ _))

instance : Decidable (AppendCall ino p i) :=
  match i with
  | (.posix (.open64 ..), _) => inferInstanceAs (Decidable (_ ∧ _))
  | (.posix (.write ..), _) => inferInstanceAs (Decidable (OnFile ..))
  | (.fopen .., _) => inferInstanceAs (Decidable (_ ∧ _ ∧ _))
  | (.fwrite .., _) => inferInstanceAs (Decidable (_ ∧ _ ∧ _))
  | (.posix (.creat64 ..), _) | (.posix (.read ..), _) | (.posix (.lseek64 ..), _)
  | (.posix (.close _), _) | (.fclose _, _) => isFalse id

instance : Decidable (Complete p i) :=
  match i with
  | (.posix c, env) => inferInstanceAs (Decidable (Posix.Complete p.sys (c, env)))
  | (.fwrite .., _) => inferInstanceAs (Decidable (∀ r ∈ _, ServerRun.landed ..))
  | (.fopen .., _) | (.fclose _, _) => isTrue trivial

end Decidable

/-! ## The invariant -/

/-- No handle on the file is beyond its end. -/
def Inv (ino : Ino) (p : Program) : Prop :=
  ∀ h info, entry p h = some info → Names ino p info.absolutePath →
    info.absolutePath.head? = some '/' ∧
    ∃ n : Nat, info.currentOffset = n ∧ n ≤ (content ino p).length

/-- No handle on the file is registered yet. -/
def Start (ino : Ino) (p : Program) : Prop := ∀ h, ¬ OnFile ino p h

theorem Start.inv {ino : Ino} {p : Program} (h : Start ino p) : Inv ino p := by
  intro hd info hentry hnames
  exact absurd ⟨info, hentry, hnames⟩ (h hd)

/-- The file holds `c'` now and the handle `h` is registered with `info'`; names and the other
handles are what they were. -/
structure Effect (ino : Ino) (p p' : Program) (c' : List Byte) (h : Handle) (info' : FileInfo) :
    Prop where
  host : p'.sys.kernel.host = p.sys.kernel.host
  dir : p'.sys.kernel.fs.dir = p.sys.kernel.fs.dir
  holds : content ino p' = c'
  registered : entry p' = Function.update (entry p) h (some info')

section

variable {ino : Ino} {p p' : Program} {c' : List Byte} {h : Handle} {info info' : FileInfo}

theorem Effect.names (he : Effect ino p p' c' h info') (path : PathStr) :
    Names ino p' path ↔ Names ino p path := by
  simp [Names, he.host, he.dir]

theorem Inv.effect (hinv : Inv ino p) (he : Effect ino p p' c' h info')
    (hlen : (content ino p).length ≤ c'.length)
    (hpath : info'.absolutePath.head? = some '/')
    (hoff : ∃ n : Nat, info'.currentOffset = n ∧ n ≤ c'.length) : Inv ino p' := by
  intro h' i hi hnames
  rw [he.registered] at hi
  rw [he.names] at hnames
  rw [he.holds]
  by_cases hh : h' = h
  · subst hh
    rw [Function.update_self] at hi
    obtain rfl := Option.some.inj hi
    exact ⟨hpath, hoff⟩
  · rw [Function.update_of_ne hh] at hi
    obtain ⟨hhead, n, hn, hle⟩ := hinv h' i hi hnames
    exact ⟨hhead, n, hn, hle.trans hlen⟩

/-- `d` at `n`, not beyond the end, is appended if and only if `n` is the end. -/
theorem writeAt_eq_append_iff {c d : List Byte} {n : Nat} (hn : n ≤ c.length) :
    writeAt 0 c n d = c ++ d ↔ d = [] ∨ n = c.length := by
  constructor
  · intro heq
    by_cases hd : d = []
    · exact Or.inl hd
    · have hlen := congrArg List.length heq
      rw [length_writeAt _ _ _ hd, List.length_append] at hlen
      have hpos := List.length_pos_iff.mpr hd
      right
      omega
  · rintro (rfl | rfl)
    · simp
    · exact writeAt_length 0 c d

/-! ## One call -/

/-- A complete task places the data at the handle's offset, and the handle moves behind it. -/
theorem sent_effect {n : Nat} {r : ServerRun WriteTask} {data : List Byte}
    {iface : IoClientType} {env : Env} {m : ClientMetadataManager}
    (hnames : Names ino p info.absolutePath) (hhead : info.absolutePath.head? = some '/')
    (hn : info.currentOffset = n) (hle : n ≤ (content ino p).length)
    (hr : r = Client.write data data.length (toUnsigned64 info.currentOffset) info.absolutePath
      iface env p.sys.world)
    (hlanded : r.landed iface data.length env)
    (hm : entries m = Function.update (entry p) h
      (some { info with currentOffset := Posix.advance info data.length }))
    (hp' : p'.sys = { p.sys with world := r.world, clientMeta := m }) :
    Effect ino p p' (writeAt 0 (content ino p) n data) h
      { info with currentOffset := (n + data.length : Nat) } := by
  -- a position inside the file is a signed number, so the cast leaves it
  have hmax : n ≤ maxSigned64 := hle.trans (p.sys.kernel.fs.inodes ino).content.2
  rw [hn, toUnsigned64_of_le hmax] at hr
  subst hr
  -- what the server did to the file and to its own descriptor
  obtain ⟨hroom, c, fd, f, hk⟩ := clientWrite_landed hmax hhead hnames hlanded
  obtain ⟨hadvance, -⟩ := advance_eq hn hmax (hroom.imp_left fun hd => by simp [hd])
  -- only `ino` has new content, and only the server's process a new descriptor
  have hkernel : p'.sys.kernel = (p.sys.kernel.withFs (p.sys.kernel.fs.setContent ino
      ((p.sys.kernel.fs.inodes ino).content.write n data))).setFd (pidOf c) fd f := by
    rw [hp']
    exact hk
  constructor
  case host => simp [hkernel]
  case dir => simp [hkernel, FileSystem.setContent]
  case holds =>
    simp only [content, hkernel, setFd_fs, withFs_fs, FileSystem.setContent, Function.update_self]
    exact Content.write_val hroom
  case registered =>
    rw [← hadvance, ← hm, entry, hp']

/-- **A write**: the data goes to the handle's offset, which moves behind it. -/
theorem write_effect (hinv : Inv ino p) {fd : Int} {data : List Byte} {env : Env}
    (hon : OnFile ino p (.inl fd)) (hc : Complete p (.posix (.write fd data), env)) :
    ∃ info n, entry p (.inl fd) = some info ∧ info.absolutePath.head? = some '/' ∧
      info.currentOffset = (n : Nat) ∧ n ≤ (content ino p).length ∧
      Effect ino p (p.step (.posix (.write fd data), env)).2 (writeAt 0 (content ino p) n data)
        (.inl fd) { info with currentOffset := (n + data.length : Nat) } := by
  obtain ⟨info, hentry, hnames⟩ := hon
  obtain ⟨hhead, n, hn, hle⟩ := hinv _ info hentry hnames
  refine ⟨info, n, hentry, hhead, hn, hle, ?_⟩
  have hstep : (p.step (.posix (.write fd data), env)).2.sys =
      (Posix.write fd data env p.sys).system := rfl
  have hwrite := Posix.write_of_registered (s := p.sys) hentry data env
  change (Posix.write fd data env p.sys).Complete data.length at hc
  rw [hwrite] at hstep hc
  apply sent_effect hnames hhead hn hle rfl _ _ hstep
  · exact ⟨hc _ rfl, Or.inl rfl⟩
  · exact entries_updatePosixOffset _ _ hentry

theorem fwrite_effect (hinv : Inv ino p) {ptr : List Byte} {size count : Nat} {fp : FilePtr}
    {env : Env} (hcall : AppendCall ino p (.fwrite ptr size count fp, env))
    (hc : Complete p (.fwrite ptr size count fp, env)) :
    ∃ info n, entry p (.inr fp) = some info ∧ info.absolutePath.head? = some '/' ∧
      info.currentOffset = (n : Nat) ∧ n ≤ (content ino p).length ∧
      Effect ino p (p.step (.fwrite ptr size count fp, env)).2
        (writeAt 0 (content ino p) n ptr) (.inr fp)
        { info with currentOffset := (n + ptr.length : Nat) } := by
  obtain ⟨hptr, hsize, info, hentry, hnames⟩ := hcall
  obtain ⟨hhead, n, hn, hle⟩ := hinv _ info hentry hnames
  refine ⟨info, n, hentry, hhead, hn, hle, ?_⟩
  have hstdio : p.sys.clientMeta.stdioFiles fp = some info := hentry
  have hfwrite := Stdio.fwrite_of_registered hstdio hptr hsize env
  have hstep : (p.step (.fwrite ptr size count fp, env)).2.sys =
      (Stdio.fwrite ptr size count fp env p).2.1.sys := rfl
  change ∀ r ∈ (Stdio.fwrite ptr size count fp env p).2.2, r.landed .kStdio ptr.length env at hc
  rw [hfwrite] at hstep hc
  apply sent_effect hnames hhead hn hle rfl (hc _ rfl) _ hstep
  exact entries_updateStdioOffset _ _ hentry

/-- **An open**: the file stays or is emptied, and a handle is registered at offset 0. -/
theorem opened_effect {absPath : PathStr} {flags mode : Nat} {fd : Int} {ino' : Ino}
    {fs : FileSystem} {o : Option OpenFile}
    {m : ClientMetadataManager} (hnames : Names ino p absPath)
    (hentry : p.sys.kernel.fs.openEntry p.sys.kernel.host (p.sys.kernel.host.uid appPid)
      (p.sys.kernel.host.walk absPath) flags mode = some (ino', fs))
    (hm : entries m = Function.update (entry p) h (some info))
    (hp' : p'.sys = { p.sys with
      world := p.sys.world.withKernel ((p.sys.kernel.withFs fs).setFd appPid fd o)
      clientMeta := m }) :
    Effect ino p p' (if hasFlag flags oTrunc then [] else content ino p) h info := by
  -- the only change to the kernel is the new descriptor and the opened file
  have hkernel : p'.sys.kernel = (p.sys.kernel.withFs fs).setFd appPid fd o := by
    rw [hp']
    rfl
  constructor
  case host => simp [hkernel]
  case dir =>
    simp only [hkernel, setFd_fs, withFs_fs]
    rw [openEntry_dir hentry, openEntry_bound hentry hnames, ← hnames, Function.update_eq_self]
  case holds =>
    simp only [content, hkernel, setFd_fs, withFs_fs]
    exact openEntry_content hentry hnames
  case registered =>
    rw [← hm, entry, hp']

/-- The mode `a` empties no file. -/
theorem openFlags_append {mode : List Char} {flags : Nat} (hmode : mode.head? = some 'a')
    (h : StdioApi.openFlags mode = some flags) : hasFlag flags oTrunc = false := by
  cases mode with
  | nil => cases hmode
  | cons c rest =>
    obtain rfl : c = 'a' := Option.some.inj hmode
    simp only [StdioApi.openFlags, Option.some.injEq] at h
    subst h
    split <;> split <;> decide

/-- An `open` of a path that leads to the file fails, or registers a descriptor on it. -/
theorem open_effect {path : PathStr} (hleads : Leads ino p path) (flags mode : Nat) (env : Env) :
    ((p.sys.kernel.open64 appPid path flags mode).1 < 0 ∧
      (p.step (.posix (.open64 path flags mode), env)).2 = p) ∨
    0 ≤ (p.sys.kernel.open64 appPid path flags mode).1 ∧
    ∃ fd, Effect ino p (p.step (.posix (.open64 path flags mode), env)).2
      (if hasFlag flags oTrunc then [] else content ino p) (.inl fd)
      (FileInfo.new (absolute (p.sys.kernel.host.cwd appPid) path) flags) := by
  obtain ⟨haccept, hnames⟩ := hleads
  have hstep : (p.step (.posix (.open64 path flags mode), env)).2 =
      p.withSys (Posix.open64 path flags mode p.sys).system := rfl
  rw [hstep]
  unfold Posix.open64 Posix.afterOpen
  rcases open64_cases p.sys.kernel appPid path flags mode with ho | ⟨fd, ino', fs, hfree, he, ho⟩
  -- the kernel refuses: nothing happens
  · left
    rw [ho]
    exact ⟨Int.negSucc_lt_zero 0, rfl⟩
  -- it opens the file, which is truncated or keeps its content
  · right
    obtain ⟨hfd, -⟩ := lowestFree_spec hfree
    rw [ho]
    refine ⟨hfd, fd, ?_⟩
    rw [if_neg (not_lt.mpr hfd), if_pos haccept]
    apply opened_effect hnames he _ rfl
    exact entries_registerPosixFd ..

/-- So does an `fopen` in mode `a`, and it empties nothing. -/
theorem fopen_effect {filename : PathStr} {mode : List Char} {fp : FilePtr}
    (hmode : mode.head? = some 'a') (hfp : fp ≠ 0) (hleads : Leads ino p filename) (env : Env) :
    (p.step (.fopen filename mode fp, env)).2 = p ∨
    Effect ino p (p.step (.fopen filename mode fp, env)).2 (content ino p) (.inr fp)
      (FileInfo.new (absolute (p.sys.kernel.host.cwd appPid) filename) (Stdio.modeFlags mode)) := by
  obtain ⟨haccept, hnames⟩ := hleads
  have hstep : (p.step (.fopen filename mode fp, env)).2 = (Stdio.fopen filename mode fp p).2 := rfl
  rw [hstep]
  rcases Stdio.fopen_cases haccept hfp mode with ho | ⟨flags, fd, ino', fs, hflags, -, he, ho⟩
  · left
    rw [ho]
  · right
    rw [ho]
    have hkeep : content ino p = if hasFlag flags oTrunc then [] else content ino p := by
      simp [openFlags_append hmode hflags]
    rw [hkeep]
    apply opened_effect hnames he _ rfl
    exact entries_registerStdioFp ..

/-! ## One step -/

/-- A write appends if and only if its handle's offset is at the end. -/
theorem Effect.appends_iff {c : AppCall} {env : Env} {n : Nat}
    (he : Effect ino p (p.step (c, env)).2 (writeAt 0 (content ino p) n (carried c)) h
      info')
    (hentry : entry p h = some info) (hn : info.currentOffset = n)
    (hle : n ≤ (content ino p).length) :
    Appends ino p (c, env) ↔ carried c = [] ∨
      ∀ i ∈ entry p h, i.currentOffset = (content ino p).length := by
  unfold Appends
  rw [he.holds, writeAt_eq_append_iff hle]
  apply or_congr_right
  constructor
  · rintro hend i hi
    rw [hentry] at hi
    obtain rfl := Option.mem_some.mp hi
    rw [hn, hend]
  · intro hend
    have := hend info hentry
    rw [hn] at this
    exact Int.ofNat.inj this

theorem Inv.write_effect {n : Nat} {d : List Byte} (hinv : Inv ino p)
    (he : Effect ino p p' (writeAt 0 (content ino p) n d) h
      { info with currentOffset := (n + d.length : Nat) })
    (hhead : info.absolutePath.head? = some '/')
    (hle : n ≤ (content ino p).length) : Inv ino p' := by
  apply hinv.effect he (le_length_writeAt ..) hhead
  refine ⟨n + d.length, rfl, ?_⟩
  by_cases hd : d = []
  · subst hd
    simpa using hle
  · rw [length_writeAt _ _ _ hd]
    exact le_max_right _ _

/-- **One step**: a call appends if and only if it finds its place at the end. -/
theorem appends_iff_atEnd (hinv : Inv ino p) {i : AppCall × Env} (hcall : AppendCall ino p i)
    (hc : Complete p i) : Appends ino p i ↔ AtEnd ino p i := by
  obtain ⟨c, env⟩ := i
  match c with
  | .posix (.open64 path flags mode) =>
    rcases open_effect hcall.2 flags mode env with ⟨hneg, hsame⟩ | ⟨hpos, fd, he⟩
    · -- a failed `open` changes nothing
      simp [Appends, AtEnd, carried, hsame, hneg]
    · have hnneg : ¬ (p.sys.kernel.open64 appPid path flags mode).1 < 0 := not_lt.mpr hpos
      simp only [Appends, AtEnd, carried, he.holds, List.append_nil, hnneg, or_false]
      by_cases htrunc : hasFlag flags oTrunc = true
      · simp only [htrunc, if_true, Bool.true_eq_false, false_or]
        exact eq_comm
      · simp only [htrunc, Bool.false_eq_true, if_false, true_or]
  | .posix (.write fd data) =>
    obtain ⟨info, n, hentry, -, hn, hle, he⟩ := write_effect hinv hcall hc
    exact he.appends_iff hentry hn hle
  | .fopen filename mode fp =>
    have hstays : Appends ino p (.fopen filename mode fp, env) := by
      rcases fopen_effect hcall.1 hcall.2.1 hcall.2.2 env with hsame | he
      · simp [Appends, carried, hsame]
      · simp [Appends, carried, he.holds]
    exact iff_of_true hstays trivial
  | .fwrite ptr size count fp =>
    obtain ⟨info, n, hentry, -, hn, hle, he⟩ := fwrite_effect hinv hcall hc
    exact he.appends_iff hentry hn hle

/-- **The invariant** is kept by every call that appends. -/
theorem Inv.step (hinv : Inv ino p) {i : AppCall × Env} (hcall : AppendCall ino p i)
    (hc : Complete p i) (happ : Appends ino p i) : Inv ino (p.step i).2 := by
  obtain ⟨c, env⟩ := i
  match c with
  | .posix (.open64 path flags mode) =>
    rcases open_effect hcall.2 flags mode env with ⟨-, hsame⟩ | ⟨-, fd, he⟩
    · rwa [hsame]
    · have hlen := congrArg List.length (he.holds.symm.trans happ)
      apply hinv.effect he _ (head_absolute _ _) ⟨0, rfl, Nat.zero_le _⟩
      simp [hlen, carried]
  | .posix (.write fd data) =>
    obtain ⟨info, n, -, hhead, -, hle, he⟩ := AppendMode.write_effect hinv hcall hc
    exact hinv.write_effect he hhead hle
  | .fopen filename mode fp =>
    rcases fopen_effect hcall.1 hcall.2.1 hcall.2.2 env with hsame | he
    · rwa [hsame]
    · exact hinv.effect he le_rfl (head_absolute _ _) ⟨0, rfl, Nat.zero_le _⟩
  | .fwrite ptr size count fp =>
    obtain ⟨info, n, -, hhead, -, hle, he⟩ := fwrite_effect hinv hcall hc
    exact hinv.write_effect he hhead hle

end

/-! ## Runs -/

/-- **Append mode.**  In a run that opens any number of handles on a file in append mode and
writes through them in any order, the content after every prefix of the run is the initial one
followed by what the prefix wrote, in order, if and only if every write finds its handle's
offset at the end of the file and no open empties a file that holds something. -/
theorem append_iff {ino : Ino} {p : Program} (hstart : Start ino p) {is : List (AppCall × Env)}
    (hrun : Along Program.step (fun p i => AppendCall ino p i ∧ Complete p i) p is) :
    (∀ pre, pre <+: is →
      content ino (final Program.step p pre) = content ino p ++ pre.flatMap fun i => carried i.1) ↔
      Along Program.step (AtEnd ino) p is := by
  rw [prefix_appends_iff_along]
  -- along the run both properties can be read together with what is known of its calls
  have hiff : Along Program.step
        (fun p i => (AppendCall ino p i ∧ Complete p i) ∧ Appends ino p i) p is ↔
      Along Program.step
        (fun p i => (AppendCall ino p i ∧ Complete p i) ∧ AtEnd ino p i) p is := by
    apply along_iff (I := Inv ino) _ _ hstart.inv
    · rintro q i hinv ⟨⟨hcall, hc⟩, happ⟩
      exact hinv.step hcall hc happ
    · intro q i hinv
      apply and_congr_right
      rintro ⟨hcall, hc⟩
      exact appends_iff_atEnd hinv hcall hc
  constructor
  · intro happ
    exact (along_and.mp (hiff.mp (along_and.mpr ⟨hrun, happ⟩))).2
  · intro hend
    exact (along_and.mp (hiff.mpr (along_and.mpr ⟨hrun, hend⟩))).2

/-! ## A file with content -/

/-- No content at all. -/
def noBytes : Content := ⟨[], by decide⟩

/-- A process that has opened nothing, and `/f` with the given content. -/
def fresh (bytes : Content) : Program := ⟨deployment bytes openToAll, fun _ => none⟩

/-- Open `/f` to append with both adapters and write a byte through each handle. -/
def appendTwice : List (AppCall × Env) :=
  [(.posix (.open64 ['/', 'f'] (oWronly ||| oAppend) 0), .calm),
    (.posix (.write 0 [7]), .calm),
    (.fopen ['/', 'f'] ['a'] 1, .calm),
    (.fwrite [8] 1 1 1, { Env.calm with flushed := 1 })]

theorem fresh_start (bytes : Content) : Start 0 (fresh bytes) := by
  rintro (fd | fp) ⟨info, hentry, -⟩ <;> cases hentry

/-- The first byte is overwritten twice, and the file grows by nothing. -/
theorem append_overwrites :
    Along Program.step (fun p i => AppendCall 0 p i ∧ Complete p i) (fresh threeBytes)
      appendTwice ∧
    content 0 (final Program.step (fresh threeBytes) appendTwice) = [8, 2, 3] ∧
    content 0 (fresh threeBytes) ++ (appendTwice.flatMap fun i => carried i.1) =
      [1, 2, 3, 7, 8] := by
  decide +kernel

/-- One handle on an empty file. -/
def appendOnce : List (AppCall × Env) :=
  [(.posix (.open64 ['/', 'f'] (oWronly ||| oAppend) 0), .calm),
    (.posix (.write 0 [7]), .calm), (.posix (.write 0 [8]), .calm)]

theorem append_iff_appendOnce :
    (∀ pre, pre <+: appendOnce →
      content 0 (final Program.step (fresh noBytes) pre) =
        content 0 (fresh noBytes) ++ pre.flatMap fun i => carried i.1) ↔
      Along Program.step (AtEnd 0) (fresh noBytes) appendOnce :=
  append_iff (fresh_start _) (by decide +kernel)

end DTIO.Properties.AppendMode
