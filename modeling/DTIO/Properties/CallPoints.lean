import Mathlib.Data.Fintype.Defs
import DTIO.Foundation.Linearization
import DTIO.Properties.Routing

/-!
# Where Intercepted Calls Take Effect

An intercepted call takes several atomic steps.  At one of them it takes effect as a whole call of
a sequential run would: an `open` with its first step, a task when the server is done, any other
call with the real function.  Until the call returns the table entry of its descriptor may be
behind; the relation between threads and a sequential run says how far, for each control point.

## Main definitions

- `point`: the step at which a call takes effect
- `Exclusive`: no two calls on one descriptor
- `Behind`, `Tracks`: threads and a sequential run

## Main results

- `Tracks.move`: steps that concern one descriptor
- `advances_of`: what a step returns
-/

namespace DTIO.Properties.CallPoints

open DTIO.Posix DTIO.Chimod DTIO.Client DTIO.ByteFile DTIO.MachineInt
open DTIO.Interleaving DTIO.Linearization DTIO.Adapter DTIO.Adapter.Threads

/-! ## Points -/

/-- The descriptor of the call a thread is in. -/
def subject (p : Pc) : Option Int := (Routing.role p).map Prod.snd

/-- The call that takes effect at a step: an `open` at its first one, a call that is not sent or a
`close` with the real function, a task when the server is done. -/
def point : Input → Pc → Option (Call × Env)
  | .begin (.open64 path flags mode), .idle => some (.open64 path flags mode, .calm)
  | .begin (.creat64 path mode), .idle => some (.creat64 path mode, .calm)
  | .go env, .realClose fd => some (.close fd, env)
  | .go env, .real _ c => some (c, env)
  | .go env, .submitted fd io _ _ => some (io.call fd, env)
  | .go env, .seek fd off whence => some (.lseek64 fd off whence, env)
  | _, _ => none

/-- The call that a step ends, and its result. -/
def answer (i : Input) (p : Pc) (sh : Shared) : Option (Call × Result) :=
  if sh.returned.length < (act i p sh).1.returned.length then (act i p sh).1.returned.head?
  else none

/-- The result of a call that has taken effect and has not returned. -/
def pending : Pc → Option (Call × Result)
  | .opened c fd _ _ => some (c, ⟨fd, []⟩)
  | .finish fd io r | .update fd io r _ => some (io.call fd, r)
  | .seekLookup fd off whence pos | .seekUpdate fd off whence pos =>
    some (.lseek64 fd off whence, ⟨pos, []⟩)
  | _ => none

/-- The intercepted calls of threads. -/
def calls : Operations Input Pc Shared (Call × Env) (Call × Result) where
  act := act
  point := point
  answer := answer
  pending := pending

/-- A machine whose outputs name the calls. -/
def named {σ : Type} (step : σ → Call × Env → Result × σ) (s : σ) (i : Call × Env) :
    (Call × Result) × σ :=
  ((i.1, (step s i).1), (step s i).2)

section Relation

variable {Tid : Type}

abbrev Conf (Tid : Type) := Config Tid Pc Shared

/-- A call on a descriptor begins only when it is open and no other call on it is under way. -/
def Exclusive (c : Conf Tid) (_t : Tid) : Input → Prop
  | .begin call => ∀ fd ∈ call.fd?,
      c.shared.sys.kernel.fds appPid fd ≠ none ∧ ∀ u, subject (c.pc u) ≠ some fd
  | .go _ => True

instance [Fintype Tid] (c : Conf Tid) (t : Tid) (i : Input) : Decidable (Exclusive c t i) :=
  match i with
  | .begin call => inferInstanceAs (Decidable (∀ fd ∈ call.fd?,
      c.shared.sys.kernel.fds appPid fd ≠ none ∧ ∀ u, subject (c.pc u) ≠ some fd))
  | .go _ => isTrue trivial

/-- Nothing was sent, and no thread is in a call. -/
def start (s : System) : Conf Tid := ⟨⟨s, [], []⟩, fun _ => .idle⟩

/-! ## How far the table is behind -/

/-- The entry `e` of the descriptor of a call under way, and its entry `a` in the sequential run,
where the call is done as soon as it has taken effect. -/
def Behind (config : ConfigurationManager) (e a : Option FileInfo) : Pc → Prop
  | .idle => a = e
  | .opened _ _ path flags =>
    a = if config.shouldIntercept path then some (.new path flags) else e
  | .unregister _ => a = e
  -- erased already, whatever the sequential run has
  | .realClose _ => e = none
  | .real fd c => e = none ∧ a = none ∧ c.fd? = some fd ∧ c ≠ .close fd
  | .lookup .. | .prepare .. | .seek .. => a = e ∧ e ≠ none
  | .submitted _ _ path off =>
    a = e ∧ ∃ info, e = some info ∧ info.absolutePath = path ∧ info.currentOffset = off
  | .finish _ io _ =>
    ∃ info, e = some info ∧ a = some { info with currentOffset := Posix.advance info io.size }
  | .update _ _ _ off | .seekLookup _ _ _ off | .seekUpdate _ _ _ off =>
    ∃ info, e = some info ∧ a = some { info with currentOffset := off }
  | .dangling => False

/-- The threads and a sequential run. -/
structure Tracks (c : Conf Tid) (s : System) : Prop where
  world : s.world = c.shared.sys.world
  config : s.config = c.shared.sys.config
  stdioFiles : s.clientMeta.stdioFiles = c.shared.sys.clientMeta.stdioFiles
  free : ∀ fd, (∀ t, subject (c.pc t) ≠ some fd) →
    s.clientMeta.posixFiles fd = c.shared.sys.clientMeta.posixFiles fd
  opened : ∀ t fd, subject (c.pc t) = some fd → c.shared.sys.kernel.fds appPid fd ≠ none
  behind : ∀ t fd, subject (c.pc t) = some fd →
    Behind c.shared.sys.config (c.shared.sys.clientMeta.posixFiles fd)
      (s.clientMeta.posixFiles fd) (c.pc t)
  apart : ∀ t u fd, subject (c.pc t) = some fd → subject (c.pc u) = some fd → t = u
  alive : ∀ t, c.pc t ≠ .dangling

theorem tracks_start (s : System) : Tracks (start s : Conf Tid) s where
  world := rfl
  config := rfl
  stdioFiles := rfl
  free := fun _ _ => rfl
  opened := nofun
  behind := nofun
  apart := nofun
  alive := nofun

end Relation

/-! ## What a step touches -/

theorem touches_refl (fd : Int) (s : System) : Posix.Touches fd s s :=
  ⟨rfl, rfl, fun _ _ h => h, fun _ _ => rfl, fun _ _ => rfl, id⟩

/-- An entry changes. -/
theorem touches_entry {fd : Int} {s : System} {m : ClientMetadataManager}
    (h : ∀ fd', fd' ≠ fd → m.posixFiles fd' = s.clientMeta.posixFiles fd') :
    Posix.Touches fd s { s with clientMeta := m } :=
  ⟨rfl, rfl, fun _ _ h => h, fun _ _ => rfl, h, id⟩

/-- The server works. -/
theorem touches_world (fd : Int) {s : System} {w : World} (h : Kept s.world w) :
    Posix.Touches fd s { s with world := w } :=
  ⟨h.host, rfl, h.dir, fun fd' _ => congrFun h.fds fd', fun _ _ => rfl, h.nonneg⟩

theorem touches_trans {fd : Int} {s s' s'' : System} (h : Posix.Touches fd s s')
    (h' : Posix.Touches fd s' s'') : Posix.Touches fd s s'' where
  host := h'.host.trans h.host
  config := h'.config.trans h.config
  dir := fun e ino he => h'.dir e ino (h.dir e ino he)
  fds := fun fd' he => (h'.fds fd' he).trans (h.fds fd' he)
  posixFiles := fun fd' he => (h'.posixFiles fd' he).trans (h.posixFiles fd' he)
  nonneg := h'.nonneg ∘ h.nonneg

/-- A descriptor is opened. -/
theorem touches_opened {s : System} {fd : Int} {fs : FileSystem} (hfd : 0 ≤ fd)
    (hdir : ∀ e ino, s.kernel.fs.dir e = some ino → fs.dir e = some ino) (f : OpenFile) :
    Posix.Touches fd s
      (s.withKernel ((s.kernel.withFs fs).setFd appPid fd (some f))) where
  host := rfl
  config := rfl
  dir := hdir
  fds := fun _ he => setFd_fds_of_ne _ _ _ _ he
  posixFiles := fun _ _ => rfl
  nonneg := fun h => (h.withFs fs).setFd hfd (some f)

/-! ## Whole calls -/

/-- What the server's system calls return for a task. -/
def served (io : Io) (path : PathStr) (off : Int) (env : Env) (w : World) : Calls :=
  match io with
  | .read _ count =>
    (Client.read (allocateBuffer env.stale count) count (toUnsigned64 off) path .kPosix env w).calls
  | .write data =>
    (Client.write (copyTo (allocateBuffer env.stale data.length) data) data.length
      (toUnsigned64 off) path .kPosix env w).calls

section Whole

variable {s : System} {fd : Int}

/-- A read or write on a registered descriptor. -/
theorem perform_io {info : FileInfo} (h : s.clientMeta.posixFiles fd = some info) (io : Io)
    (env : Env) :
    Posix.perform s (io.call fd) env =
      ⟨(perform io info.absolutePath info.currentOffset env s.world).1,
        { s with
          world := (perform io info.absolutePath info.currentOffset env s.world).2
          clientMeta := s.clientMeta.updatePosixOffset fd (Posix.advance info io.size) },
        some (served io info.absolutePath info.currentOffset env s.world)⟩ := by
  cases io with
  | read buf count =>
    rw [Io.call, Posix.perform, Posix.read_of_registered h]
    rfl
  | write data =>
    have hbuf : copyTo (allocateBuffer env.stale data.length) data = data :=
      copyTo_of_length_le (by simp)
    rw [Io.call, Posix.perform, Posix.write_of_registered h]
    simp only [perform, served, hbuf, Posix.sentWrite, Io.size]

/-- A call on a descriptor that is not registered. -/
theorem perform_real (h : s.clientMeta.posixFiles fd = none) {c : Call} (hc : c.fd? = some fd)
    (env : Env) : Posix.perform s c env = Posix.real s (Direct.step s.kernel c) := by
  cases c with
  | open64 path flags mode => cases hc
  | creat64 path mode => cases hc
  | read fd' buf count =>
    obtain rfl := Option.some.inj hc
    exact Posix.read_of_unregistered h buf count env
  | write fd' data =>
    obtain rfl := Option.some.inj hc
    exact Posix.write_of_unregistered h data env
  | lseek64 fd' off whence =>
    obtain rfl := Option.some.inj hc
    exact Posix.lseek64_of_unregistered h off whence
  | close fd' =>
    obtain rfl := Option.some.inj hc
    exact Posix.close_of_unregistered h

/-- A `close` leaves no entry. -/
theorem perform_close (s : System) (fd : Int) (env : Env) :
    ∃ m, Posix.perform s (.close fd) env =
        ⟨⟨(s.kernel.close appPid fd).1, []⟩,
          { s.withKernel (s.kernel.close appPid fd).2 with clientMeta := m }, none⟩ ∧
      m.posixFiles fd = none ∧ m.stdioFiles = s.clientMeta.stdioFiles := by
  cases h : s.clientMeta.posixFiles fd with
  | none => exact ⟨s.clientMeta, perform_real h rfl env, h, rfl⟩
  | some info =>
    exact ⟨s.clientMeta.unregisterPosixFd fd, Posix.close_of_registered h,
      FileTable.unregister_self .., rfl⟩

end Whole

/-! ## Steps -/

section Steps

variable {Tid : Type} [DecidableEq Tid] {c : Conf Tid} {s : System} {t : Tid}

/-- A step that concerns one descriptor, which no other thread has. -/
theorem Tracks.move (h : Tracks c s) {fd : Int} (hown : ∀ u, u ≠ t → subject (c.pc u) ≠ some fd)
    (hfrom : ∀ fd', subject (c.pc t) = some fd' → fd' = fd) {sh : Shared} {p : Pc} {s' : System}
    (hsh : Posix.Touches fd c.shared.sys sh.sys) (hs : Posix.Touches fd s s')
    (hworld : s'.world = sh.sys.world)
    (hstdio : s'.clientMeta.stdioFiles = sh.sys.clientMeta.stdioFiles)
    (hbehind : Behind sh.sys.config (sh.sys.clientMeta.posixFiles fd) (s'.clientMeta.posixFiles fd)
      p)
    (hto : p = .idle ∨ subject p = some fd ∧ sh.sys.kernel.fds appPid fd ≠ none) :
    Tracks (c.move t sh p) s' := by
  have hsubject : ∀ fd', subject p = some fd' → fd' = fd ∧ sh.sys.kernel.fds appPid fd ≠ none := by
    intro fd' hfd'
    rcases hto with rfl | ⟨hp, hopen⟩
    · cases hfd'
    · exact ⟨Option.some.inj (hfd'.symm.trans hp), hopen⟩
  have hpc : ∀ u, u ≠ t → (c.move t sh p).pc u = c.pc u :=
    fun u hu => Config.move_pc_of_ne c sh p hu
  -- another thread has another descriptor
  have hother : ∀ u fd', u ≠ t → subject (c.pc u) = some fd' → fd' ≠ fd := by
    rintro u fd' hu hfd' rfl
    exact hown u hu hfd'
  refine {
    world := hworld
    config := (hs.config.trans h.config).trans hsh.config.symm
    stdioFiles := hstdio
    free := ?_
    opened := ?_
    behind := ?_
    apart := ?_
    alive := ?_ }
  · intro fd' hfree
    by_cases hfd' : fd' = fd
    · subst hfd'
      rcases hto with rfl | ⟨hp, -⟩
      · exact hbehind
      · refine absurd hp ?_
        have hself := hfree t
        rwa [Config.move_pc_self] at hself
    · refine (hs.posixFiles fd' hfd').trans (Eq.trans (h.free fd' fun u => ?_)
        (hsh.posixFiles fd' hfd').symm)
      rcases eq_or_ne u t with rfl | hu
      · exact fun hfd => hfd' (hfrom fd' hfd)
      · have hu' := hfree u
        rwa [hpc u hu] at hu'
  · intro u fd' hfd'
    rcases eq_or_ne u t with rfl | hu
    · rw [Config.move_pc_self] at hfd'
      obtain ⟨rfl, hopen⟩ := hsubject fd' hfd'
      exact hopen
    · rw [hpc u hu] at hfd'
      rw [Config.move_shared, hsh.fds fd' (hother u fd' hu hfd')]
      exact h.opened u fd' hfd'
  · intro u fd' hfd'
    rcases eq_or_ne u t with rfl | hu
    · rw [Config.move_pc_self] at hfd' ⊢
      obtain ⟨rfl, -⟩ := hsubject fd' hfd'
      exact hbehind
    · rw [hpc u hu] at hfd' ⊢
      have hne := hother u fd' hu hfd'
      rw [Config.move_shared, hsh.config, hsh.posixFiles fd' hne, hs.posixFiles fd' hne]
      exact h.behind u fd' hfd'
  · intro u v fd' hu hv
    rcases eq_or_ne u t with rfl | hut
    · rw [Config.move_pc_self] at hu
      obtain ⟨rfl, -⟩ := hsubject fd' hu
      by_contra hne
      rw [hpc v (Ne.symm hne)] at hv
      exact hown v (Ne.symm hne) hv
    · rw [hpc u hut] at hu
      rcases eq_or_ne v t with rfl | hvt
      · rw [Config.move_pc_self] at hv
        obtain ⟨rfl, -⟩ := hsubject fd' hv
        exact absurd hu (hown u hut)
      · rw [hpc v hvt] at hv
        exact h.apart u v fd' hu hv
  · intro u
    rcases eq_or_ne u t with rfl | hu
    · rw [Config.move_pc_self]
      rintro rfl
      exact hbehind
    · rw [hpc u hu]
      exact h.alive u
omit [DecidableEq Tid] in
/-- What is known of a thread in a call on a descriptor. -/
theorem Tracks.at (h : Tracks c s) {p : Pc} (hp : c.pc t = p) (fd : Int)
    (hfd : subject p = some fd) :
    subject (c.pc t) = some fd ∧ Behind c.shared.sys.config
      (c.shared.sys.clientMeta.posixFiles fd) (s.clientMeta.posixFiles fd) p := by
  subst hp
  exact ⟨hfd, h.behind t fd hfd⟩

/-- A step of such a thread. -/
theorem Tracks.moveOn (h : Tracks c s) {fd : Int} (hfd : subject (c.pc t) = some fd) {sh : Shared}
    {p : Pc} {s' : System} (hsh : Posix.Touches fd c.shared.sys sh.sys)
    (hs : Posix.Touches fd s s') (hworld : s'.world = sh.sys.world)
    (hstdio : s'.clientMeta.stdioFiles = sh.sys.clientMeta.stdioFiles)
    (hbehind : Behind sh.sys.config (sh.sys.clientMeta.posixFiles fd) (s'.clientMeta.posixFiles fd)
      p)
    (hto : p = .idle ∨ subject p = some fd ∧ sh.sys.kernel.fds appPid fd ≠ none) :
    Tracks (c.move t sh p) s' :=
  h.move (fun u hu hu' => hu (h.apart u t fd hu' hfd))
    (fun _ hfd' => Option.some.inj (hfd'.symm.trans hfd)) hsh hs hworld hstdio hbehind hto

/-- A step that only goes on. -/
theorem Tracks.goOn (h : Tracks c s) {fd : Int} (hfd : subject (c.pc t) = some fd) {sh : Shared}
    (hsys : sh.sys = c.shared.sys) {p : Pc} (hp : subject p = some fd)
    (hbehind : Behind c.shared.sys.config (c.shared.sys.clientMeta.posixFiles fd)
      (s.clientMeta.posixFiles fd) p) : Tracks (c.move t sh p) s := by
  refine h.moveOn hfd ?_ (touches_refl fd s) ?_ ?_ ?_ (Or.inr ⟨hp, ?_⟩)
  · rw [hsys]
    exact touches_refl fd _
  · rw [hsys]
    exact h.world
  · rw [hsys]
    exact h.stdioFiles
  · rw [hsys]
    exact hbehind
  · rw [hsys]
    exact h.opened t fd hfd

/-- A step that changes at most what was returned. -/
theorem Tracks.stay (h : Tracks c s) {sh : Shared} (hsys : sh.sys = c.shared.sys) {p : Pc}
    (hp : c.pc t = p) : Tracks (c.move t sh p) s := by
  subst hp
  rw [show c.move t sh (c.pc t) = ⟨sh, c.pc⟩ from congrArg _ (Function.update_eq_self t c.pc)]
  exact ⟨hsys ▸ h.world, hsys ▸ h.config, hsys ▸ h.stdioFiles, hsys ▸ h.free, hsys ▸ h.opened,
    hsys ▸ h.behind, h.apart, h.alive⟩

/-- What a step of a thread leaves, and the results that it accounts for. -/
structure Advances (c : Conf Tid) (t : Tid) (i : Input) (s : System)
    (results : List (Call × Result)) : Prop where
  tracks : Tracks (c.act act (t, i)) s
  results : (pending (c.pc t)).toList ++ results = (answer i (c.pc t) c.shared).toList ++
    (pending ((c.act act (t, i)).pc t)).toList

/-- A step that returns at most one result. -/
theorem advances_of {i : Input} {p p' : Pc} (hp : c.pc t = p) {sh : Shared}
    (hact : act i p c.shared = (sh, p')) {s' : System} (htracks : Tracks (c.move t sh p') s')
    (a : Option (Call × Result)) (hreturned : sh.returned = a.toList ++ c.shared.returned)
    {results : List (Call × Result)}
    (hresults : (pending p).toList ++ results = a.toList ++ (pending p').toList) :
    Advances c t i s' results := by
  subst hp
  have hconf : c.act act (t, i) = c.move t sh p' := by
    unfold Config.act
    rw [hact]
  have hanswer : answer i (c.pc t) c.shared = a := by
    unfold answer
    rw [hact, hreturned]
    cases a with
    | none => simp
    | some x => simp
  refine ⟨hconf ▸ htracks, ?_⟩
  rw [hanswer, hconf, Config.move_pc_self]
  exact hresults

/-- The same inside a call. -/
theorem advances_go (env : Env) {p p' : Pc} (hp : c.pc t = p) {sh : Shared}
    (hnext : next env c.shared p = (sh, p')) {s' : System} (htracks : Tracks (c.move t sh p') s')
    (a : Option (Call × Result)) (hreturned : sh.returned = a.toList ++ c.shared.returned)
    {results : List (Call × Result)}
    (hresults : (pending p).toList ++ results = a.toList ++ (pending p').toList) :
    Advances c t (.go env) s' results :=
  advances_of (i := .go env) hp hnext htracks a hreturned hresults

end Steps

end DTIO.Properties.CallPoints
