import DTIO.Adapter.Threads

/-!
# Routing and Table Consistency

Threads open, close, read, write and seek in any interleaving.  If a descriptor is closed at
most once and not used once its close has begun, then the table of registered descriptors and
the kernel's table never disagree in a way a call could notice: a call on a descriptor goes to
DTIO exactly when the file that descriptor denotes was opened through a path to be
intercepted, also after the kernel has handed out the number again.

The argument looks at two things per descriptor number, the path it was opened through and the
path it is registered with; `Effect` says once what an atomic step does to them.

## Main definitions

- `view`: the two paths of a descriptor number
- `Disciplined`: when a call may begin
- `Effect`: everything an atomic step can do
- `Consistent`: the invariant

## Main results

- `effect_act`: `Effect` is complete
- `routing_exact`: table consistency and routing in every reachable configuration
-/

namespace DTIO.Properties.Routing

open DTIO.Posix DTIO.Chimod DTIO.Client DTIO.Interleaving
open DTIO.Adapter DTIO.Adapter.Threads

/-! ## What a thread does with a descriptor -/

/-- The part a call plays for a descriptor. -/
inductive Role where
  | opening
  | closing
  | dtio
  | real
  deriving DecidableEq, Repr

/-- The descriptor of the call a thread is in, and the part it plays. -/
def role : Pc → Option (Role × Int)
  | .idle | .dangling => none
  | .opened _ fd _ _ => some (.opening, fd)
  | .unregister fd | .realClose fd => some (.closing, fd)
  | .real fd _ => some (.real, fd)
  | .lookup fd _ | .prepare fd _ | .submitted fd _ _ _ | .finish fd _ _ | .update fd _ _ _
  | .seek fd _ _ | .seekLookup fd _ _ _ | .seekUpdate fd _ _ _ => some (.dtio, fd)

variable {Tid : Type} [DecidableEq Tid]

/-- Threads inside intercepted calls. -/
abbrev Conf (Tid : Type) := Config Tid Pc Shared

/-- When a call may begin.  No call uses a descriptor whose close has begun; a close begins on
an open descriptor whose open has returned, when no other call on it is under way. -/
def Disciplined (c : Conf Tid) (_t : Tid) (i : Input) : Prop :=
  ∀ call fd, i = .begin call → call.fd? = some fd →
    (∀ u, role (c.pc u) ≠ some (.closing, fd)) ∧
    (call = .close fd →
      c.shared.sys.kernel.fds appPid fd ≠ none ∧ ∀ u r, role (c.pc u) ≠ some (r, fd))

/-! ## What a step can do -/

/-- The path through which a number was opened, if it is open, and the path it is registered
with, if it is registered. -/
def view (sh : Shared) (fd : Int) : Option (Option PathStr) × Option PathStr :=
  ((sh.sys.kernel.fds appPid fd).map (·.via),
    (sh.sys.clientMeta.posixFiles fd).map (·.absolutePath))

/-- What an input does to a thread and to the two paths of each descriptor. -/
inductive Effect (sh : Shared) : Input → Pc → Shared → Pc → Prop where
  | stay {i p sh'} : view sh' = view sh → Effect sh i p sh' p
  | opened {c call fd path flags sh'} : (view sh fd).1 = none →
      view sh' = Function.update (view sh) fd (some (some path), (view sh fd).2) →
      Effect sh (.begin c) .idle sh' (.opened call fd path flags)
  | registered {env call fd path flags sh'} : sh.sys.config.shouldIntercept path = true →
      view sh' = Function.update (view sh) fd ((view sh fd).1, some path) →
      Effect sh (.go env) (.opened call fd path flags) sh' .idle
  | declined {env call fd path flags sh'} : sh.sys.config.shouldIntercept path = false →
      view sh' = view sh → Effect sh (.go env) (.opened call fd path flags) sh' .idle
  | routed {c fd p'} : c.fd? = some fd → (view sh fd).2 ≠ none → role p' = some (.dtio, fd) →
      Effect sh (.begin c) .idle sh p'
  | passed {c fd} : c.fd? = some fd → c ≠ .close fd → (view sh fd).2 = none →
      Effect sh (.begin c) .idle sh (.real fd c)
  | closing {fd} : (view sh fd).2 ≠ none →
      Effect sh (.begin (.close fd)) .idle sh (.unregister fd)
  | closingReal {fd} : (view sh fd).2 = none →
      Effect sh (.begin (.close fd)) .idle sh (.realClose fd)
  | unregistered {env fd sh'} :
      view sh' = Function.update (view sh) fd ((view sh fd).1, none) →
      Effect sh (.go env) (.unregister fd) sh' (.realClose fd)
  | closed {env fd sh'} : view sh' = Function.update (view sh) fd (none, (view sh fd).2) →
      Effect sh (.go env) (.realClose fd) sh' .idle
  | continued {env p sh' p'} (fd : Int) : role p = some (.dtio, fd) → role p' = some (.dtio, fd) →
      view sh' = view sh → Effect sh (.go env) p sh' p'
  | returned {env p r sh'} (fd : Int) : role p = some (r, fd) → r = .dtio ∨ r = .real →
      view sh' = view sh → Effect sh (.go env) p sh' .idle

/-- What is known of a descriptor at a control point of a call on it. -/
def Assertion (sh : Shared) : Pc → Prop
  | .idle => True
  | .opened _ fd path _ => view sh fd = (some (some path), none)
  | .unregister fd => (view sh fd).2 ≠ none
  | .realClose fd => (view sh fd).1 ≠ none ∧ (view sh fd).2 = none
  | .real fd call => call.fd? = some fd ∧ call ≠ .close fd
  | .dangling => False
  | .lookup fd _ | .prepare fd _ | .submitted fd _ _ _ | .finish fd _ _ | .update fd _ _ _
  | .seek fd _ _ | .seekLookup fd _ _ _ | .seekUpdate fd _ _ _ => (view sh fd).2 ≠ none

/-! ### Views -/

section View

variable (sh : Shared)

theorem view_withKernel (k : Kernel)
    (h : ∀ fd, (k.fds appPid fd).map (·.via) = (sh.sys.kernel.fds appPid fd).map (·.via)) :
    view (sh.withSys (sh.sys.withKernel k)) = view sh := by
  funext fd
  exact Prod.ext (h fd) rfl

theorem view_posixFiles (m : ClientMetadataManager)
    (h : ∀ fd, (m.posixFiles fd).map (·.absolutePath) =
      (sh.sys.clientMeta.posixFiles fd).map (·.absolutePath)) :
    view (sh.withSys { sh.sys with clientMeta := m }) = view sh := by
  funext fd
  exact Prod.ext rfl (h fd)

/-- Binding a descriptor shows the path of its description. -/
theorem view_setFd (fs : FileSystem) (fd : Int) (f : Option OpenFile) :
    view (sh.withSys (sh.sys.withKernel ((sh.sys.kernel.withFs fs).setFd appPid fd f))) =
      Function.update (view sh) fd (f.map (·.via), (view sh fd).2) := by
  funext fd'
  apply Prod.ext
  · show Option.map _ (((sh.sys.kernel.withFs fs).setFd appPid fd f).fds appPid fd') = _
    by_cases he : fd' = fd
    · rw [he, setFd_fds_self, Function.update_self]
    · rw [setFd_fds_of_ne _ _ _ _ he, Function.update_of_ne he]
      rfl
  · by_cases he : fd' = fd
    · rw [he, Function.update_self]
      rfl
    · rw [Function.update_of_ne he]
      rfl

/-- Changing a registration shows the path of the new entry. -/
theorem view_entry (fd : Int) (e : Option FileInfo) :
    view (sh.withSys { sh.sys with clientMeta := { sh.sys.clientMeta with
      posixFiles := Function.update sh.sys.clientMeta.posixFiles fd e } }) =
      Function.update (view sh) fd ((view sh fd).1, e.map (·.absolutePath)) := by
  funext fd'
  apply Prod.ext
  · by_cases he : fd' = fd
    · rw [he, Function.update_self]
      rfl
    · rw [Function.update_of_ne he]
      rfl
  · show Option.map _ (Function.update sh.sys.clientMeta.posixFiles fd e fd') = _
    by_cases he : fd' = fd
    · rw [he, Function.update_self, Function.update_self]
    · rw [Function.update_of_ne he, Function.update_of_ne he]
      rfl

/-- Storing an offset is not seen. -/
theorem view_updatePosixOffset (fd : Int) (off : Int) :
    view (sh.withSys { sh.sys with
      clientMeta := sh.sys.clientMeta.updatePosixOffset fd off }) = view sh := by
  apply view_posixFiles
  intro fd'
  have h := FileTable.updateOffset_map sh.sys.clientMeta.posixFiles fd off fd'
  have hfst := congrArg (Option.map Prod.fst) h
  rwa [Option.map_map, Option.map_map] at hfst

/-- Moving the offset of a description is not seen. -/
theorem via_setFd {k : Kernel} {fd : Int} {f g : OpenFile} (h : k.fds appPid fd = some f)
    (hvia : g.via = f.via) (fs : FileSystem) (fd' : Int) :
    (((k.withFs fs).setFd appPid fd (some g)).fds appPid fd').map (·.via) =
      (k.fds appPid fd').map (·.via) := by
  by_cases he : fd' = fd
  · rw [he, setFd_fds_self, h]
    exact congrArg some hvia
  · rw [setFd_fds_of_ne _ _ _ _ he]
    rfl

theorem via_lseek64 (k : Kernel) (fd off : Int) (w : Whence) (fd' : Int) :
    ((k.lseek64 appPid fd off w).2.fds appPid fd').map (·.via) =
      (k.fds appPid fd').map (·.via) := by
  rcases lseek64_cases k appPid fd off w with h | ⟨f, pos, hf, -, -, h⟩
  · rw [h]
  · rw [h]
    exact via_setFd (g := { f with offset := pos }) hf rfl k.fs fd'

/-- The real `read`, `write` and `lseek` are not seen. -/
theorem via_direct (k : Kernel) {call : Call} {fd : Int} (hfd : call.fd? = some fd)
    (hclose : call ≠ .close fd) (fd' : Int) :
    ((Direct.step k call).2.fds appPid fd').map (·.via) = (k.fds appPid fd').map (·.via) := by
  cases call with
  | open64 path flags mode => cases hfd
  | creat64 path mode => cases hfd
  | close fd'' => exact absurd (congrArg Call.close (Option.some.inj hfd)) hclose
  | lseek64 fd'' off w => exact via_lseek64 k fd'' off w fd'
  | read fd'' buf count =>
    show ((k.read appPid fd'' count .full).2.2.fds appPid fd').map (·.via) = _
    rcases read_cases k appPid fd'' count .full with h | ⟨f, n, hf, -, -, h⟩
    · rw [h]
    · rw [h]
      exact via_setFd (g := { f with offset := f.offset + n }) hf rfl k.fs fd'
  | write fd'' data =>
    show ((k.write appPid fd'' data .full).2.fds appPid fd').map (·.via) = _
    rcases write_cases k appPid fd'' data .full with h | ⟨f, n, hf, -, -, h⟩
    · rw [h]
    · rw [h]
      exact via_setFd (g := { f with offset := k.writePos f + n }) hf rfl _ fd'

/-- Nor is a task. -/
theorem view_perform (io : Io) (path : PathStr) (off : Int) (env : Env) :
    view (sh.withSys { sh.sys with world := (perform io path off env sh.sys.world).2 }) =
      view sh := by
  have hkept : Kept sh.sys.world (perform io path off env sh.sys.world).2 := by
    cases io with
    | read buf count => exact kept_clientRead ..
    | write data => exact kept_clientWrite ..
  funext fd
  exact Prod.ext (congrArg (Option.map OpenFile.via) (congrFun hkept.fds fd)) rfl

end View

/-! ### Every step has one of the effects -/

theorem view_snd_eq_none {sh : Shared} {fd : Int} :
    (view sh fd).2 = none ↔ sh.sys.clientMeta.posixFiles fd = none := by
  simp [view]

theorem view_snd_ne_none {sh : Shared} {fd : Int} :
    (view sh fd).2 ≠ none ↔ ∃ info, sh.sys.clientMeta.posixFiles fd = some info := by
  rw [Ne, view_snd_eq_none, ← Ne, Option.ne_none_iff_exists']

/-- The real `open` or `creat`. -/
theorem effect_beginOpen (sh : Shared) (c call : Call) (path : PathStr) (flags flags' mode : Nat) :
    Effect sh (.begin c) .idle
      (beginOpen call path flags (sh.sys.kernel.open64 appPid path flags' mode) sh).1
      (beginOpen call path flags (sh.sys.kernel.open64 appPid path flags' mode) sh).2 := by
  unfold beginOpen
  rcases open64_cases sh.sys.kernel appPid path flags' mode with h | ⟨fd, ino, fs, hfree, -, h⟩
  · rw [h]
    exact Effect.stay rfl
  · obtain ⟨hfd, hnone⟩ := lowestFree_spec hfree
    rw [h]
    dsimp only
    rw [if_neg (not_lt.mpr hfd)]
    apply Effect.opened
    · show Option.map _ _ = none
      rw [hnone]
      rfl
    · exact view_setFd sh fs fd _

/-- A read, write or seek on a registered descriptor goes to DTIO. -/
theorem begin_routed {sh : Shared} {fd : Int} {info : FileInfo}
    (h : sh.sys.clientMeta.posixFiles fd = some info) {c : Call} (hc : c.fd? = some fd)
    (hclose : c ≠ .close fd) :
    ∃ p, begin sh c = (sh, p) ∧ role p = some (.dtio, fd) := by
  cases c with
  | open64 => cases hc
  | creat64 => cases hc
  | close => exact absurd (congrArg Call.close (Option.some.inj hc)) hclose
  | read fd' buf count =>
    obtain rfl := Option.some.inj hc
    exact ⟨_, begin_registered h (.read buf count), rfl⟩
  | write fd' data =>
    obtain rfl := Option.some.inj hc
    exact ⟨_, begin_registered h (.write data), rfl⟩
  | lseek64 fd' off whence =>
    obtain rfl := Option.some.inj hc
    exact ⟨_, begin_lseek64_registered h off whence, rfl⟩

/-- The first step of a call. -/
theorem effect_begin (sh : Shared) (c : Call) :
    Effect sh (.begin c) .idle (begin sh c).1 (begin sh c).2 := by
  cases hc : c.fd? with
  | none =>
    -- only `open64` and `creat64` have no descriptor
    cases c with
    | open64 path flags mode => exact effect_beginOpen sh _ _ path flags flags mode
    | creat64 path mode => exact effect_beginOpen sh _ _ path _ _ mode
    | read => cases hc
    | write => cases hc
    | lseek64 => cases hc
    | close => cases hc
  | some fd =>
    -- `close` takes the entry before it calls the kernel, the others look it up
    by_cases hclose : c = .close fd
    · subst hclose
      cases h : sh.sys.clientMeta.posixFiles fd with
      | none =>
        rw [begin_close_unregistered h]
        exact Effect.closingReal (view_snd_eq_none.mpr h)
      | some info =>
        rw [begin_close_registered h]
        exact Effect.closing (view_snd_ne_none.mpr ⟨info, h⟩)
    · cases h : sh.sys.clientMeta.posixFiles fd with
      | none =>
        rw [begin_unregistered h c hc hclose]
        exact Effect.passed hc hclose (view_snd_eq_none.mpr h)
      | some info =>
        obtain ⟨p, hbegin, hrole⟩ := begin_routed h hc hclose
        rw [hbegin]
        exact Effect.routed hc (view_snd_ne_none.mpr ⟨info, h⟩) hrole

/-- The other steps. -/
theorem effect_next (env : Env) (sh : Shared) (p : Pc) (h : Assertion sh p) :
    Effect sh (.go env) p (next env sh p).1 (next env sh p).2 := by
  cases p with
  | idle => exact Effect.stay rfl
  | dangling => exact h.elim
  | opened call fd path flags =>
    unfold next
    dsimp only
    -- the open has returned a descriptor, and the filter decides what becomes of it
    by_cases haccept : sh.sys.config.shouldIntercept path = true
    · rw [if_pos haccept]
      exact Effect.registered haccept (view_entry sh fd (some (FileInfo.new path flags)))
    · rw [if_neg haccept]
      exact Effect.declined (by simpa using haccept) rfl
  | unregister fd =>
    exact Effect.unregistered (view_entry sh fd none)
  | realClose fd =>
    -- no other thread can have closed it in between
    obtain ⟨hopen, -⟩ := h
    obtain ⟨f, hf⟩ : ∃ f, sh.sys.kernel.fds appPid fd = some f := by
      rw [← Option.ne_none_iff_exists']
      intro hnone
      exact hopen (by simp [view, hnone])
    simp only [next, close_of_file hf]
    exact Effect.closed (view_setFd sh sh.sys.kernel.fs fd none)
  | real fd call =>
    exact Effect.returned fd rfl (Or.inr rfl)
      (view_withKernel sh _ (via_direct _ h.1 h.2))
  | lookup fd io =>
    -- the entry is still there, so that the lookup does not fail
    obtain ⟨info, hinfo⟩ := view_snd_ne_none.mp h
    have hnext : next env sh (.lookup fd io) = (sh, .prepare fd io) := by
      simp [next, ClientMetadataManager.getPosixFileInfo, hinfo]
    rw [hnext]
    exact Effect.continued fd rfl rfl rfl
  | prepare fd io =>
    obtain ⟨info, hinfo⟩ := view_snd_ne_none.mp h
    rw [next_prepare hinfo]
    exact Effect.continued fd rfl rfl rfl
  | submitted fd io path off =>
    exact Effect.continued fd rfl rfl (view_perform sh io path off env)
  | finish fd io r =>
    obtain ⟨info, hinfo⟩ := view_snd_ne_none.mp h
    rw [next_finish hinfo]
    exact Effect.continued fd rfl rfl rfl
  | update fd io r off =>
    exact Effect.returned fd rfl (Or.inl rfl) (view_updatePosixOffset sh fd off)
  | seek fd off whence =>
    have hview := view_withKernel sh _ (via_lseek64 sh.sys.kernel fd off whence)
    unfold next
    dsimp only
    split
    · exact Effect.returned fd rfl (Or.inl rfl) hview
    · exact Effect.continued fd rfl rfl hview
  | seekLookup fd off whence pos =>
    obtain ⟨info, hinfo⟩ := view_snd_ne_none.mp h
    have hnext : next env sh (.seekLookup fd off whence pos) =
        (sh, .seekUpdate fd off whence pos) := by
      simp [next, ClientMetadataManager.getPosixFileInfo, hinfo]
    rw [hnext]
    exact Effect.continued fd rfl rfl rfl
  | seekUpdate fd off whence pos =>
    exact Effect.returned fd rfl (Or.inl rfl) (view_updatePosixOffset sh fd pos)

/-- **Everything an atomic step can do.** -/
theorem effect_act (i : Input) (p : Pc) (sh : Shared) (h : Assertion sh p) :
    Effect sh i p (act i p sh).1 (act i p sh).2 := by
  cases i with
  | go env => exact effect_next env sh p h
  | begin c =>
    cases p with
    | idle => exact effect_begin sh c
    | _ => exact Effect.stay rfl

/-- No step changes the configuration. -/
theorem act_config (i : Input) (p : Pc) (sh : Shared) :
    (act i p sh).1.sys.config = sh.sys.config := by
  cases i with
  | begin c =>
    cases p with
    | idle =>
      cases c <;> simp only [act, begin, beginOpen] <;> split <;> rfl
    | _ => rfl
  | go env =>
    cases p with
    | opened | lookup | prepare | finish | seek | seekLookup =>
      simp only [act, next]
      split <;> rfl
    | _ => rfl

/-! ## The invariant -/

/-- A registered number is open, was opened through the recorded path, and that path is to be
intercepted. -/
def Sound (sh : Shared) : Prop :=
  ∀ fd path, (view sh fd).2 = some path →
    (view sh fd).1 = some (some path) ∧ sh.sys.config.shouldIntercept path = true

/-- Two calls on one descriptor: neither is a close, and not both are opens. -/
def Compat (p q : Pc) : Prop :=
  ∀ fd r r', role p = some (r, fd) → role q = some (r', fd) →
    r ≠ .closing ∧ r' ≠ .closing ∧ ¬ (r = .opening ∧ r' = .opening)

theorem Compat.symm {p q : Pc} (h : Compat p q) : Compat q p := by
  intro fd r r' hq hp
  obtain ⟨h1, h2, h3⟩ := h fd r' r hp hq
  exact ⟨h2, h1, fun hboth => h3 ⟨hboth.2, hboth.1⟩⟩

/-- A number open through a path to be intercepted is registered, unless its open or its close
is under way. -/
def Complete (c : Conf Tid) : Prop :=
  ∀ fd path, (view c.shared fd).1 = some (some path) →
    c.shared.sys.config.shouldIntercept path = true →
    (view c.shared fd).2 ≠ none ∨
    ∃ t r, role (c.pc t) = some (r, fd) ∧ (r = .opening ∨ r = .closing)

/-- The invariant of disciplined runs. -/
structure Consistent (c : Conf Tid) : Prop where
  annotated : Annotated Sound Assertion Compat c
  complete : Complete c

/-- An assertion is about the descriptor of its control point only. -/
theorem Assertion.congr {sh sh' : Shared} {p : Pc} (h : Assertion sh p)
    (hview : ∀ fd r, role p = some (r, fd) → view sh' fd = view sh fd) : Assertion sh' p := by
  cases p with
  | idle => trivial
  | dangling => exact h
  | real fd call => exact h
  | _ =>
    have hfd := hview _ _ rfl
    simp only [Assertion] at h ⊢
    rwa [hfd]

theorem assertion_dtio {sh : Shared} {p : Pc} {fd : Int} (h : role p = some (.dtio, fd)) :
    Assertion sh p ↔ (view sh fd).2 ≠ none := by
  cases p with
  | idle | dangling | opened | unregister | realClose | real => cases h
  | _ =>
    obtain rfl : _ = fd := congrArg Prod.snd (Option.some.inj h)
    exact Iff.rfl

theorem compat_idle (q : Pc) : Compat .idle q := by
  intro fd r r' hidle
  cases hidle

section Steps

variable {c : Conf Tid} {t : Tid} {sh' : Shared} {p' : Pc}

/-- A step that no descriptor table shows. -/
theorem Consistent.quiet (h : Consistent c)
    (hconf : sh'.sys.config = c.shared.sys.config) (hview : view sh' = view c.shared)
    (hA : Assertion sh' p') (hC : ∀ u, u ≠ t → Compat p' (c.pc u))
    (hlost : ∀ fd r, role (c.pc t) = some (r, fd) → r = .opening ∨ r = .closing →
      role p' = some (r, fd) ∨ ∀ path, (view c.shared fd).1 = some (some path) →
        c.shared.sys.config.shouldIntercept path = false) :
    Consistent (c.move t sh' p') where
  annotated := by
    refine h.annotated.move (fun p q => Compat.symm) ?_ hA ?_
    -- neither table changes, so all that is known of the descriptors stays
    · intro fd path hpath
      rw [hview] at hpath ⊢
      rw [hconf]
      exact h.annotated.global fd path hpath
    · intro u hu
      exact ⟨(h.annotated.local_ u).congr fun fd _ _ => congrFun hview fd, hC u hu⟩
  complete := by
    intro fd path hopen haccept
    simp only [Config.move_shared, hview, hconf] at hopen haccept ⊢
    rcases h.complete fd path hopen haccept with hreg | ⟨u, r, hrole, hr⟩
    · exact Or.inl hreg
    · right
      -- thread `t` keeps its descriptor, or the file was not to be intercepted
      by_cases hu : u = t
      · rw [hu] at hrole
        rcases hlost fd r hrole hr with hkeep | hreject
        · exact ⟨t, r, by rwa [Config.move_pc_self], hr⟩
        · rw [hreject path hopen] at haccept
          cases haccept
      · exact ⟨u, r, by rwa [Config.move_pc_of_ne _ _ _ hu], hr⟩

/-- A step that changes the entry of `fd` in one of the tables. -/
theorem Consistent.touched (h : Consistent c)
    (hconf : sh'.sys.config = c.shared.sys.config) {fd : Int}
    {v : Option (Option PathStr) × Option PathStr}
    (hview : view sh' = Function.update (view c.shared) fd v)
    (hsound : ∀ path, v.2 = some path →
      v.1 = some (some path) ∧ c.shared.sys.config.shouldIntercept path = true)
    (hA : Assertion sh' p')
    (hothers : ∀ u, u ≠ t → ∀ r, role (c.pc u) = some (r, fd) → Assertion sh' (c.pc u))
    (hC : ∀ u, u ≠ t → Compat p' (c.pc u))
    (hown : ∀ r fd', role (c.pc t) = some (r, fd') → fd' = fd)
    (hcomplete : ∀ path, v.1 = some (some path) →
      c.shared.sys.config.shouldIntercept path = true →
      v.2 ≠ none ∨ ∃ r, role p' = some (r, fd) ∧ (r = .opening ∨ r = .closing)) :
    Consistent (c.move t sh' p') where
  annotated := by
    refine h.annotated.move (fun p q => Compat.symm) ?_ hA ?_
    · intro fd' path hpath
      rw [hview] at hpath ⊢
      rw [hconf]
      by_cases he : fd' = fd
      · rw [he, Function.update_self] at hpath ⊢
        exact hsound path hpath
      · rw [Function.update_of_ne he] at hpath ⊢
        exact h.annotated.global fd' path hpath
    · intro u hu
      refine ⟨?_, hC u hu⟩
      by_cases hfd : ∃ r, role (c.pc u) = some (r, fd)
      · obtain ⟨r, hr⟩ := hfd
        exact hothers u hu r hr
      · -- the thread is in a call on another descriptor, or in none
        refine (h.annotated.local_ u).congr fun fd' r hr => ?_
        have he : fd' ≠ fd := fun he => hfd ⟨r, he ▸ hr⟩
        rw [hview, Function.update_of_ne he]
  complete := by
    intro fd' path hopen haccept
    simp only [Config.move_shared, hview, hconf] at hopen haccept ⊢
    by_cases he : fd' = fd
    · rw [he, Function.update_self] at hopen ⊢
      refine (hcomplete path hopen haccept).imp id ?_
      rintro ⟨r, hrole, hr⟩
      exact ⟨t, r, by rwa [Config.move_pc_self], hr⟩
    · rw [Function.update_of_ne he] at hopen ⊢
      refine (h.complete fd' path hopen haccept).imp id ?_
      rintro ⟨u, r, hrole, hr⟩
      have hu : u ≠ t := by
        rintro rfl
        exact he (hown r fd' hrole)
      exact ⟨u, r, by rwa [Config.move_pc_of_ne _ _ _ hu], hr⟩

omit [DecidableEq Tid] in
/-- A number that is not open is not registered. -/
theorem Consistent.unregistered_of_free (h : Consistent c) {fd : Int}
    (hfree : (view c.shared fd).1 = none) : (view c.shared fd).2 = none := by
  cases hreg : (view c.shared fd).2 with
  | none => rfl
  | some path =>
    have hopen := (h.annotated.global fd path hreg).1
    rw [hfree] at hopen
    cases hopen

omit [DecidableEq Tid] in
/-- A number that is not open appears in calls of the real functions only. -/
theorem Consistent.role_of_free (h : Consistent c) {fd : Int}
    (hfree : (view c.shared fd).1 = none) {u : Tid} {r : Role}
    (hr : role (c.pc u) = some (r, fd)) : r = .real := by
  have hA := h.annotated.local_ u
  have hunreg : ¬ (view c.shared fd).2 ≠ none := not_not.mpr (h.unregistered_of_free hfree)
  -- at every other control point the number is open or registered
  cases hpc : c.pc u with
  | idle | dangling =>
    rw [hpc] at hr
    cases hr
  | real fd' call =>
    rw [hpc] at hr
    exact (congrArg Prod.fst (Option.some.inj hr)).symm
  | opened call fd' path flags =>
    rw [hpc] at hr hA
    obtain rfl : fd' = fd := congrArg Prod.snd (Option.some.inj hr)
    have hopen : view c.shared fd' = (some (some path), none) := hA
    rw [hopen] at hfree
    cases hfree
  | unregister fd' =>
    rw [hpc] at hr hA
    obtain rfl : fd' = fd := congrArg Prod.snd (Option.some.inj hr)
    exact absurd hA hunreg
  | realClose fd' =>
    rw [hpc] at hr hA
    obtain rfl : fd' = fd := congrArg Prod.snd (Option.some.inj hr)
    exact absurd hfree hA.1
  | _ =>
    rw [hpc] at hr hA
    obtain rfl := congrArg Prod.snd (Option.some.inj hr)
    exact absurd hA hunreg

omit [DecidableEq Tid] in
/-- What is known of a call of a real function survives every change of the tables. -/
theorem Consistent.assertion_real (h : Consistent c) {u : Tid} {fd : Int}
    (hr : role (c.pc u) = some (.real, fd)) : Assertion sh' (c.pc u) := by
  have hA := h.annotated.local_ u
  cases hpc : c.pc u with
  | real fd' call =>
    rw [hpc] at hA
    exact hA
  | _ =>
    rw [hpc] at hr
    cases hr

omit [DecidableEq Tid] in
/-- A call that is not a close may join the others on its descriptor, as long as no close of it
is under way. -/
theorem compat_call {r : Role} {fd : Int} (hrole : role p' = some (r, fd))
    (hr : r = .dtio ∨ r = .real) (hclosing : ∀ u, role (c.pc u) ≠ some (.closing, fd)) (u : Tid) :
    Compat p' (c.pc u) := by
  intro fd' r₁ r₂ h₁ h₂
  rw [hrole] at h₁
  obtain ⟨rfl, rfl⟩ := Prod.mk.inj (Option.some.inj h₁)
  have hne : r₂ ≠ .closing := by
    rintro rfl
    exact hclosing u h₂
  rcases hr with rfl | rfl
  · exact ⟨by decide, hne, by simp⟩
  · exact ⟨by decide, hne, by simp⟩

omit [DecidableEq Tid] in
/-- A close begins when no other call on its descriptor is under way. -/
theorem compat_close {fd : Int} (hrole : role p' = some (.closing, fd))
    (halone : ∀ u r, role (c.pc u) ≠ some (r, fd)) (u : Tid) : Compat p' (c.pc u) := by
  intro fd' r₁ r₂ h₁ h₂
  rw [hrole] at h₁
  obtain ⟨rfl, rfl⟩ := Prod.mk.inj (Option.some.inj h₁)
  exact absurd h₂ (halone u r₂)

/-- A call begins and looks at the tables only. -/
theorem Consistent.begun (h : Consistent c) (hidle : c.pc t = .idle)
    (hA : Assertion c.shared p') (hC : ∀ u, Compat p' (c.pc u)) :
    Consistent (c.move t c.shared p') := by
  apply h.quiet rfl rfl hA (fun u _ => hC u)
  intro fd r hr
  rw [hidle] at hr
  cases hr

/-- The real `open` returned a number that was free. -/
theorem Consistent.opened (h : Consistent c) (hidle : c.pc t = .idle)
    (hconf : sh'.sys.config = c.shared.sys.config) {call : Call} {fd : Int} {path : PathStr}
    {flags : Nat} (hfree : (view c.shared fd).1 = none)
    (hview : view sh' =
      Function.update (view c.shared) fd (some (some path), (view c.shared fd).2)) :
    Consistent (c.move t sh' (.opened call fd path flags)) := by
  have hnone := h.unregistered_of_free hfree
  apply h.touched hconf hview
  case hsound =>
    intro path' hpath'
    rw [hnone] at hpath'
    cases hpath'
  case hA =>
    show view sh' fd = _
    rw [hview, Function.update_self, hnone]
  case hothers =>
    -- other threads may still be in a real call on the old number
    intro u _ r hr
    obtain rfl := h.role_of_free hfree hr
    exact h.assertion_real hr
  case hC =>
    intro u _ fd' r r' hr hr'
    obtain ⟨rfl, rfl⟩ := Prod.mk.inj (Option.some.inj hr)
    rw [h.role_of_free hfree hr']
    exact ⟨by decide, by decide, by decide⟩
  case hown =>
    intro r fd' hr
    rw [hidle] at hr
    cases hr
  case hcomplete =>
    -- the open is under way until the number is registered
    exact fun _ _ _ => Or.inr ⟨.opening, rfl, Or.inl rfl⟩

/-- `open` or `creat` registers the number it returns. -/
theorem Consistent.entered (h : Consistent c) {call : Call} {fd : Int} {path : PathStr}
    {flags : Nat} (hpc : c.pc t = .opened call fd path flags)
    (hconf : sh'.sys.config = c.shared.sys.config)
    (haccept : c.shared.sys.config.shouldIntercept path = true)
    (hview : view sh' = Function.update (view c.shared) fd ((view c.shared fd).1, some path)) :
    Consistent (c.move t sh' .idle) := by
  -- the thread has opened the file, and nothing is registered yet
  have hopen : view c.shared fd = (some (some path), none) := by
    have hA := h.annotated.local_ t
    rw [hpc] at hA
    exact hA
  have hrole : role (c.pc t) = some (.opening, fd) := by
    rw [hpc]
    rfl
  refine h.touched hconf hview ?hsound trivial ?hothers (fun u _ => compat_idle _) ?hown
    fun _ _ _ => Or.inl (Option.some_ne_none path)
  case hsound =>
    intro path' hpath'
    obtain rfl := Option.some.inj hpath'
    rw [hopen]
    exact ⟨rfl, haccept⟩
  case hothers =>
    intro u hu r hr
    obtain ⟨-, hclosing, hopening⟩ := h.annotated.compatible t u (Ne.symm hu) fd .opening r hrole hr
    -- another thread on this descriptor is one that DTIO has sent, or the kernel
    cases r with
    | closing => exact absurd rfl hclosing
    | opening => exact absurd ⟨rfl, rfl⟩ hopening
    | dtio =>
      rw [assertion_dtio hr, hview, Function.update_self]
      exact Option.some_ne_none path
    | real => exact h.assertion_real hr
  case hown =>
    intro r fd' hr
    rw [hrole] at hr
    exact (congrArg Prod.snd (Option.some.inj hr)).symm

/-- A close on `fd` changes the entry of `fd`: no other thread is in a call on it. -/
theorem Consistent.closing (h : Consistent c) {fd : Int}
    (hrole : role (c.pc t) = some (.closing, fd)) (hconf : sh'.sys.config = c.shared.sys.config)
    {v : Option (Option PathStr)} (hview : view sh' = Function.update (view c.shared) fd (v, none))
    (hA : Assertion sh' p') (hC : ∀ u, u ≠ t → Compat p' (c.pc u))
    (hcomplete : v ≠ none → ∃ r, role p' = some (r, fd) ∧ (r = .opening ∨ r = .closing)) :
    Consistent (c.move t sh' p') := by
  -- `fd` is being closed by `t` alone, so nobody else is concerned
  refine h.touched hconf hview ?hsound hA ?hothers hC ?hown ?hstill
  case hsound =>
    intro path hpath
    cases hpath
  case hothers =>
    intro u hu r hr
    exact absurd rfl (h.annotated.compatible t u (Ne.symm hu) fd .closing r hrole hr).1
  case hown =>
    intro r fd' hr
    rw [hrole] at hr
    exact (congrArg Prod.snd (Option.some.inj hr)).symm
  case hstill =>
    intro path hpath _
    right
    apply hcomplete
    have hv : v = some (some path) := hpath
    rw [hv]
    exact Option.some_ne_none _

/-- Every effect of a disciplined input keeps the tables consistent. -/
theorem Consistent.effect (h : Consistent c) {i : Input} {p : Pc} (hp : c.pc t = p)
    (hconf : sh'.sys.config = c.shared.sys.config) (hdisc : Disciplined c t i)
    (heff : Effect c.shared i p sh' p') : Consistent (c.move t sh' p') := by
  have hA := h.annotated.local_ t
  have hcompat : ∀ u, u ≠ t → Compat p (c.pc u) := fun u hu => by
    rw [← hp]
    exact h.annotated.compatible t u (Ne.symm hu)
  rw [hp] at hA
  cases heff with
  | stay hview =>
    refine h.quiet hconf hview (hA.congr fun fd _ _ => congrFun hview fd) hcompat ?_
    intro fd r hr _
    rw [hp] at hr
    exact Or.inl hr
  | opened hfree hview => exact h.opened hp hconf hfree hview
  | registered haccept hview => exact h.entered hp hconf haccept hview
  | @declined _ call fd path flags _ hreject hview =>
    -- the open is over, and its path is not to be intercepted
    refine h.quiet hconf hview trivial (fun u _ => compat_idle _) ?_
    intro fd' r hr _
    rw [hp] at hr
    obtain ⟨-, rfl⟩ := Prod.mk.inj (Option.some.inj hr)
    right
    intro path' hpath'
    have hopen : view c.shared fd = (some (some path), none) := hA
    rw [hopen] at hpath'
    obtain rfl := Option.some.inj (Option.some.inj hpath')
    exact hreject
  | @routed call fd _ hfd hreg hrole =>
    apply h.begun hp ((assertion_dtio hrole).mpr hreg)
    exact compat_call hrole (Or.inl rfl) (hdisc call fd rfl hfd).1
  | @passed call fd hfd hclose hunreg =>
    have hreal : Assertion c.shared (.real fd call) := ⟨hfd, hclose⟩
    apply h.begun hp hreal
    exact compat_call rfl (Or.inr rfl) (hdisc call fd rfl hfd).1
  | @closing fd hreg =>
    obtain ⟨-, halone⟩ := (hdisc _ fd rfl rfl).2 rfl
    exact h.begun hp hreg (compat_close rfl halone)
  | @closingReal fd hunreg =>
    obtain ⟨hopen, halone⟩ := (hdisc _ fd rfl rfl).2 rfl
    refine h.begun hp ⟨?_, hunreg⟩ (compat_close rfl halone)
    show Option.map _ (c.shared.sys.kernel.fds appPid fd) ≠ none
    rwa [Ne, Option.map_eq_none_iff]
  | @unregistered _ fd _ hview =>
    -- unregistered first, so the number is still open and cannot be handed out again
    have hopen : (view c.shared fd).1 ≠ none := by
      obtain ⟨path, hpath⟩ := Option.ne_none_iff_exists'.mp hA
      rw [(h.annotated.global fd path hpath).1]
      exact Option.some_ne_none _
    refine h.closing (by rw [hp]; rfl) hconf hview ?_ ?_ fun _ => ⟨.closing, rfl, Or.inr rfl⟩
    · show (view sh' fd).1 ≠ none ∧ (view sh' fd).2 = none
      rw [hview, Function.update_self]
      exact ⟨hopen, rfl⟩
    · intro u hu fd' r r' hr hr'
      obtain ⟨rfl, rfl⟩ := Prod.mk.inj (Option.some.inj hr)
      exact hcompat u hu fd .closing r' rfl hr'
  | @closed _ fd _ hview =>
    have hunreg : (view c.shared fd).2 = none := hA.2
    rw [hunreg] at hview
    exact h.closing (by rw [hp]; rfl) hconf hview trivial (fun u _ => compat_idle _)
      fun hv => absurd rfl hv
  | continued fd hrole hrole' hview =>
    refine h.quiet hconf hview ?_ ?_ ?_
    · rw [assertion_dtio hrole', hview]
      exact (assertion_dtio hrole).mp hA
    · intro u hu fd' r r' hr hr'
      rw [hrole'] at hr
      exact hcompat u hu fd' r r' (hrole.trans hr) hr'
    · intro fd' r hr hr'
      rw [hp, hrole] at hr
      obtain ⟨rfl, -⟩ := Prod.mk.inj (Option.some.inj hr)
      exact absurd hr' (by decide)
  | @returned _ _ r _ fd hrole hr hview =>
    refine h.quiet hconf hview trivial (fun u _ => compat_idle _) ?_
    intro fd' r' hr' hbad
    rw [hp, hrole] at hr'
    obtain ⟨rfl, -⟩ := Prod.mk.inj (Option.some.inj hr')
    rcases hr with rfl | rfl
    · exact absurd hbad (by decide)
    · exact absurd hbad (by decide)

end Steps

/-! ## Runs -/

/-- Before the first call: no thread is inside one, nothing is registered, and the open
descriptors are those the process inherited. -/
structure Start (c : Conf Tid) : Prop where
  idle : ∀ t, c.pc t = .idle
  empty : c.shared.sys.clientMeta = .empty
  inherited : ∀ fd f, c.shared.sys.kernel.fds appPid fd = some f → f.via = none

omit [DecidableEq Tid] in
theorem Start.consistent {c : Conf Tid} (h : Start c) : Consistent c where
  annotated :=
    { global := by
        intro fd path hpath
        have hnone : (view c.shared fd).2 = none := by
          rw [view_snd_eq_none, h.empty]
          rfl
        rw [hnone] at hpath
        cases hpath
      local_ := by
        intro t
        rw [h.idle t]
        trivial
      compatible := by
        intro t u _
        rw [h.idle t]
        exact compat_idle _ }
  complete := by
    -- what was open before the start was not opened through the adapter
    intro fd path hopen _
    obtain ⟨f, hf, hvia⟩ := Option.map_eq_some_iff.mp hopen
    rw [h.inherited fd f hf] at hvia
    cases hvia

/-- The invariant holds in every configuration a disciplined run reaches. -/
theorem Start.reach {c c' : Conf Tid} (h : Start c)
    (hreach : Reach (stepsOf act Disciplined) c c') : Consistent c' := by
  refine Interleaving.invariant (I := Consistent) ?_ h.consistent hreach
  rintro c t sh' p' hc ⟨i, hdisc, hact⟩
  obtain ⟨rfl, rfl⟩ := Prod.mk.inj hact
  exact hc.effect rfl (act_config i _ _) hdisc (effect_act i _ _ (hc.annotated.local_ t))

/-- A descriptor stays open on its path, unless the step belongs to a close of it. -/
theorem Effect.view_fst {sh sh' : Shared} {i : Input} {p p' : Pc} (heff : Effect sh i p sh' p')
    {fd : Int} {v : Option PathStr} (hv : (view sh fd).1 = some v)
    (hclosing : role p ≠ some (.closing, fd)) : (view sh' fd).1 = some v := by
  cases heff with
  -- steps that leave the tables, or only what the table of DTIO says, as they are
  | stay hsame | declined _ hsame | continued _ _ _ hsame | returned _ _ _ hsame =>
    rw [hsame]
    exact hv
  | routed | passed | closing | closingReal => exact hv
  -- the kernel returns a descriptor that was free, so it is another one
  | @opened _ _ fd' _ _ _ hfree hnew =>
    have he : fd ≠ fd' := by
      rintro rfl
      rw [hfree] at hv
      cases hv
    rwa [hnew, Function.update_of_ne he]
  | @registered _ _ fd' _ _ _ _ hnew =>
    rw [hnew]
    by_cases he : fd = fd'
    · rw [he, Function.update_self]
      rwa [he] at hv
    · rwa [Function.update_of_ne he]
  -- only the thread that closes a descriptor unregisters or closes it
  | @unregistered _ fd' _ hnew =>
    have he : fd ≠ fd' := fun he => hclosing (he ▸ rfl)
    rwa [hnew, Function.update_of_ne he]
  | @closed _ fd' _ hnew =>
    have he : fd ≠ fd' := fun he => hclosing (he ▸ rfl)
    rwa [hnew, Function.update_of_ne he]

/-- While a thread is inside a call on a descriptor, the steps of the others leave it open on
the path it was opened through. -/
theorem Consistent.stable {c c' : Conf Tid} (h : Consistent c) {t : Tid} {r : Role} {fd : Int}
    (hrole : role (c.pc t) = some (r, fd)) {v : Option PathStr}
    (hv : (view c.shared fd).1 = some v)
    (hreach : Reach (stepsOf act fun c u i => Disciplined c u i ∧ u ≠ t) c c') :
    (view c'.shared fd).1 = some v := by
  have hinv : Consistent c' ∧ c'.pc t = c.pc t ∧ (view c'.shared fd).1 = some v := by
    refine Interleaving.invariant
      (I := fun d => Consistent d ∧ d.pc t = c.pc t ∧ (view d.shared fd).1 = some v)
      ?_ ⟨h, rfl, hv⟩ hreach
    rintro d u sh' p' ⟨hd, hpc, hview⟩ ⟨i, ⟨hdisc, hu⟩, hact⟩
    have heff := effect_act i _ _ (hd.annotated.local_ u)
    have hconf := act_config i (d.pc u) d.shared
    rw [← hact] at heff hconf
    refine ⟨hd.effect rfl hconf hdisc heff, ?_, heff.view_fst hview ?_⟩
    · rw [Config.move_pc_of_ne _ _ _ (Ne.symm hu), hpc]
    · -- a close of `fd` under way is not compatible with this call
      intro hclosing
      have hcompat := hd.annotated.compatible u t hu
      rw [hpc] at hcompat
      exact absurd rfl (hcompat fd .closing r hclosing hrole).1
  exact hinv.2.2

/-- The file `fd` denotes was opened through a path to be intercepted. -/
def Accepted (s : System) (fd : Int) : Prop :=
  ∃ f path, s.kernel.fds appPid fd = some f ∧ f.via = some path ∧
    s.config.shouldIntercept path = true

section Final

variable {c : Conf Tid}

omit [DecidableEq Tid] in
/-- Registered descriptors are open, on the path recorded for them. -/
theorem Consistent.sound (h : Consistent c) {fd : Int} {info : FileInfo}
    (hinfo : c.shared.sys.clientMeta.posixFiles fd = some info) :
    ∃ f, c.shared.sys.kernel.fds appPid fd = some f ∧ f.via = some info.absolutePath ∧
      c.shared.sys.config.shouldIntercept info.absolutePath = true := by
  have hreg : (view c.shared fd).2 = some info.absolutePath := by simp [view, hinfo]
  obtain ⟨hopen, haccept⟩ := h.annotated.global fd _ hreg
  obtain ⟨f, hf, hvia⟩ := Option.map_eq_some_iff.mp hopen
  exact ⟨f, hf, hvia, haccept⟩

omit [DecidableEq Tid] in
/-- Accepted descriptors are registered, except during their open or close. -/
theorem Consistent.registered (h : Consistent c) {fd : Int} (hfd : Accepted c.shared.sys fd)
    (hopening : ∀ t, role (c.pc t) ≠ some (.opening, fd))
    (hclosing : ∀ t, role (c.pc t) ≠ some (.closing, fd)) :
    c.shared.sys.clientMeta.isPosixFdRegistered fd = true := by
  obtain ⟨f, path, hf, hvia, haccept⟩ := hfd
  have hopen : (view c.shared fd).1 = some (some path) := by simp [view, hf, hvia]
  rcases h.complete fd path hopen haccept with hreg | ⟨t, r, hrole, rfl | rfl⟩
  · obtain ⟨info, hinfo⟩ := view_snd_ne_none.mp hreg
    exact (FileTable.isRegistered_eq_true _ _).mpr ⟨info, hinfo⟩
  · exact absurd hrole (hopening t)
  · exact absurd hrole (hclosing t)

omit [DecidableEq Tid] in
theorem Consistent.accepted (h : Consistent c) {fd : Int}
    (hfd : c.shared.sys.clientMeta.isPosixFdRegistered fd = true) :
    Accepted c.shared.sys fd := by
  obtain ⟨info, hinfo⟩ := (FileTable.isRegistered_eq_true _ _).mp hfd
  obtain ⟨f, hf, hvia, haccept⟩ := h.sound hinfo
  exact ⟨f, _, hf, hvia, haccept⟩

end Final

/-- A read, write or seek goes to DTIO exactly when its descriptor is registered. -/
theorem role_begin (sh : Shared) {call : Call} {fd : Int} (hfd : call.fd? = some fd)
    (hclose : call ≠ .close fd) :
    role (begin sh call).2 = some (.dtio, fd) ↔
      sh.sys.clientMeta.isPosixFdRegistered fd = true := by
  constructor
  · intro hrole
    by_contra hreg
    have hnone : sh.sys.clientMeta.posixFiles fd = none :=
      (FileTable.isRegistered_eq_false _ _).mp (Bool.eq_false_iff.mpr hreg)
    rw [begin_unregistered hnone call hfd hclose] at hrole
    cases hrole
  · intro hreg
    obtain ⟨info, hinfo⟩ := (FileTable.isRegistered_eq_true _ _).mp hreg
    obtain ⟨p, hbegin, hrole⟩ := begin_routed hinfo hfd hclose
    rwa [hbegin]

/-- **Routing exactness and table consistency.**  In every configuration reached by a
disciplined run of any number of threads:

1. a registered descriptor is open, and its open was on the recorded path, which is to be
   intercepted;
2. a descriptor open on a path to be intercepted is registered, unless its open or its close
   is under way;
3. a read, write or seek that begins on a descriptor goes to DTIO if and only if the file the
   descriptor denotes was opened through a path to be intercepted, once the open has returned;
4. a call that went to DTIO still has such a descriptor, and never uses an erased entry;
5. whatever the other threads do during a call on an open descriptor, it stays open on the
   path it was opened through. -/
theorem routing_exact {c₀ c : Conf Tid} (hstart : Start c₀)
    (hreach : Reach (stepsOf act Disciplined) c₀ c) :
    (∀ fd info, c.shared.sys.clientMeta.posixFiles fd = some info →
      ∃ f, c.shared.sys.kernel.fds appPid fd = some f ∧ f.via = some info.absolutePath ∧
        c.shared.sys.config.shouldIntercept info.absolutePath = true) ∧
    (∀ fd, Accepted c.shared.sys fd → (∀ t, role (c.pc t) ≠ some (.opening, fd)) →
      (∀ t, role (c.pc t) ≠ some (.closing, fd)) →
      c.shared.sys.clientMeta.isPosixFdRegistered fd = true) ∧
    (∀ t call fd, Disciplined c t (.begin call) → call.fd? = some fd → call ≠ .close fd →
      (∀ u, role (c.pc u) ≠ some (.opening, fd)) →
      (role (begin c.shared call).2 = some (.dtio, fd) ↔ Accepted c.shared.sys fd)) ∧
    (∀ t, c.pc t ≠ .dangling ∧
      ∀ fd, role (c.pc t) = some (.dtio, fd) → Accepted c.shared.sys fd) ∧
    (∀ t r fd f, role (c.pc t) = some (r, fd) →
      c.shared.sys.kernel.fds appPid fd = some f →
      ∀ c', Reach (stepsOf act fun c u i => Disciplined c u i ∧ u ≠ t) c c' →
      ∃ f', c'.shared.sys.kernel.fds appPid fd = some f' ∧ f'.via = f.via) := by
  have h := hstart.reach hreach
  refine ⟨fun fd info => h.sound, fun fd => h.registered, ?_, ?_, ?_⟩
  -- a call is routed by what is registered when it begins
  · intro t call fd hdisc hfd hclose hopening
    rw [role_begin _ hfd hclose]
    have hclosing := (hdisc call fd rfl hfd).1
    exact ⟨h.accepted, fun hacc => h.registered hacc hopening hclosing⟩
  -- a thread on its way to DTIO has found the file registered
  · intro t
    have hA := h.annotated.local_ t
    refine ⟨fun hdangling => ?_, fun fd hrole => ?_⟩
    · rw [hdangling] at hA
      exact hA
    · obtain ⟨info, hinfo⟩ := view_snd_ne_none.mp ((assertion_dtio hrole).mp hA)
      exact h.accepted ((FileTable.isRegistered_eq_true _ _).mpr ⟨info, hinfo⟩)
  -- what a thread has read of a descriptor does not change before it goes on
  · intro t r fd f hrole hf c' hreach'
    have hv : (view c.shared fd).1 = some f.via := by simp [view, hf]
    exact Option.map_eq_some_iff.mp (h.stable hrole hv hreach')

/-- Two threads before their first calls. -/
def twoIdle : Conf Bool :=
  ⟨⟨deployment threeBytes openToAll, [], []⟩, fun _ => .idle⟩

/-- One thread has opened `/f`, the other begins to read from it. -/
def twoThreads : Conf Bool :=
  play act twoIdle [(false, .begin (.open64 ['/', 'f'] oRdwr 0)), (false, .go .calm),
    (true, .begin (.read 0 [0] 1))]

theorem routing_exact_twoThreads :
    twoThreads.shared.sys.clientMeta.isPosixFdRegistered 0 = true := by
  have hstart : Start twoIdle := ⟨fun _ => rfl, rfl, fun _ _ h => by cases h⟩
  have hreach : Reach (stepsOf act Disciplined) twoIdle twoThreads := by
    refine reach_play ⟨?_, ?_, ?_, trivial⟩
    · intro call fd h hfd
      obtain rfl := Input.begin.inj h
      cases hfd
    · intro call fd h
      cases h
    · intro call fd h hfd
      obtain rfl := Input.begin.inj h
      obtain rfl := Option.some.inj hfd
      exact ⟨by decide +kernel, nofun⟩
  refine (routing_exact hstart hreach).2.1 0 ?_ (by decide +kernel) (by decide +kernel)
  exact ⟨⟨0, oRdwr, 0, some ['/', 'f']⟩, ['/', 'f'], by decide +kernel, rfl, by decide +kernel⟩

end DTIO.Properties.Routing
