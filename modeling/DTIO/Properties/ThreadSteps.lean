import DTIO.Properties.CallPoints

/-!
# Steps of Threads

What each atomic step of a thread does to the sequential run: nothing, or the whole call that takes
effect there.

## Main results

- `advances_open`, `advances_begin`: first steps of calls
- `advances_submitted`, `advances_seek`, …: later steps, one by one
- `linearizes`: every step
-/

namespace DTIO.Properties.ThreadSteps

open DTIO.Posix DTIO.Chimod DTIO.Client DTIO.Interleaving DTIO.Linearization
open DTIO.Adapter DTIO.Adapter.Threads DTIO.Properties.CallPoints

variable {Tid : Type} [DecidableEq Tid] {c : Conf Tid} {s : System} {t : Tid} (h : Tracks c s)
include h

omit [DecidableEq Tid] in
theorem kernel_eq : s.kernel = c.shared.sys.kernel := congrArg World.kernel h.world

omit [DecidableEq Tid] in
/-- The real function leaves the same in both. -/
theorem withKernel_eq (k : Kernel) : (s.withKernel k).world = (c.shared.sys.withKernel k).world :=
  congrArg (fun w : World => w.withKernel k) h.world

/-! ## Calls that begin -/

section Begin

variable (hidle : c.pc t = .idle)
include hidle

omit [DecidableEq Tid] h in
/-- A thread between two calls has no descriptor. -/
theorem subject_idle (fd : Int) : subject (c.pc t) ≠ some fd := by
  rw [hidle]
  exact (Option.some_ne_none fd).symm

/-- `open` and `creat` take effect at once. -/
theorem advances_open {call : Call} {path : PathStr} {flags flags' mode : Nat}
    (hbegin : begin c.shared call =
      beginOpen call path flags (c.shared.sys.kernel.open64 appPid path flags' mode) c.shared) :
    Advances c t (.begin call)
      (Posix.afterOpen path flags (s.kernel.open64 appPid path flags' mode) s).system
      [(call,
        (Posix.afterOpen path flags (s.kernel.open64 appPid path flags' mode) s).result)] := by
  have hkernel := kernel_eq h
  have hact : act (.begin call) .idle c.shared =
    beginOpen call path flags (c.shared.sys.kernel.open64 appPid path flags' mode)
      c.shared := hbegin
  rw [hkernel]
  rcases open64_cases c.shared.sys.kernel appPid path flags' mode with
    ho | ⟨fd, ino, fs, hfree, hentry, ho⟩
  · -- a failed open returns at once
    have hsame : s.withKernel c.shared.sys.kernel = s := by
      rw [← hkernel]
      rfl
    rw [ho] at hact ⊢
    refine advances_of hidle hact ?_ (some (call, ⟨-1, []⟩)) rfl rfl
    show Tracks _ (s.withKernel c.shared.sys.kernel)
    rw [hsame]
    refine h.stay ?_ hidle
    rfl
  · obtain ⟨hfd, hnone⟩ := lowestFree_spec hfree
    have hnobody : ∀ u, subject (c.pc u) ≠ some fd := fun u hu => h.opened u fd hu hnone
    have hsame : s.clientMeta.posixFiles fd = c.shared.sys.clientMeta.posixFiles fd :=
      h.free fd hnobody
    have hdir : ∀ e i, c.shared.sys.kernel.fs.dir e = some i → fs.dir e = some i :=
      fun e i he => openEntry_dir_of_some hentry he
    set abs := absolute (c.shared.sys.kernel.host.cwd appPid) path with habs
    set k := (c.shared.sys.kernel.withFs fs).setFd appPid fd (some ⟨ino, flags', 0, some abs⟩)
      with hk
    have hopened : act (.begin call) .idle c.shared =
        (c.shared.withSys (c.shared.sys.withKernel k), .opened call fd abs flags) := by
      rw [hact, ho]
      exact if_neg (not_lt.mpr hfd)
    have hafter : Posix.afterOpen path flags (fd, k) s =
        ⟨⟨fd, []⟩, { s.withKernel k with
          clientMeta := if s.config.shouldIntercept abs then
            s.clientMeta.registerPosixFd fd abs flags else s.clientMeta }, none⟩ := by
      unfold Posix.afterOpen
      dsimp only
      rw [if_neg (not_lt.mpr hfd), hkernel, ← habs]
      split
      · rfl
      · rfl
    have hs : Posix.Touches fd s (s.withKernel k) := by
      rw [← hkernel] at hk hdir
      rw [hk]
      exact touches_opened hfd hdir _
    have hs' : Posix.Touches fd s (Posix.afterOpen path flags (fd, k) s).system := by
      rw [hafter]
      refine touches_trans hs (touches_entry fun fd' he => ?_)
      split
      · exact FileTable.register_of_ne _ _ he _ _
      · rfl
    rw [hafter] at hs'
    rw [ho, hafter]
    refine advances_of hidle hopened (h.move (fun u _ => hnobody u)
      (fun fd' hfd' => absurd hfd' (subject_idle hidle fd')) (touches_opened hfd hdir _) hs'
      (withKernel_eq h k) ?_ ?_ (Or.inr ⟨rfl, ?_⟩)) none rfl rfl
    · show (if _ then _ else _ : ClientMetadataManager).stdioFiles = _
      split
      · exact h.stdioFiles
      · exact h.stdioFiles
    · -- the entry that the thread is going to make is there
      show (if s.config.shouldIntercept abs then _ else _ : ClientMetadataManager).posixFiles fd =
        if c.shared.sys.config.shouldIntercept abs then _ else _
      rw [h.config]
      split
      · exact FileTable.register_self ..
      · exact hsame
    · show ((c.shared.sys.kernel.withFs fs).setFd appPid fd _).fds appPid fd ≠ none
      rw [setFd_fds_self]
      exact Option.some_ne_none _

/-- Calls on a descriptor do not take effect at once. -/
theorem advances_begin {call : Call} {fd : Int} (hfd : call.fd? = some fd)
    (hown : Exclusive c t (.begin call)) : Advances c t (.begin call) s [] := by
  obtain ⟨hopen, hfree⟩ := hown fd hfd
  have hsame : s.clientMeta.posixFiles fd = c.shared.sys.clientMeta.posixFiles fd := h.free fd hfree
  -- whatever the call waits for
  have hwaits : ∀ {p : Pc}, begin c.shared call = (c.shared, p) → subject p = some fd →
      pending p = none → Behind c.shared.sys.config (c.shared.sys.clientMeta.posixFiles fd)
        (s.clientMeta.posixFiles fd) p → Advances c t (.begin call) s [] := by
    intro p hbegin hp hpending hbehind
    refine advances_of (i := .begin call) hidle hbegin (h.move (fun u _ => hfree u)
      (fun fd' hfd' => absurd hfd' (subject_idle hidle fd')) (touches_refl fd _)
      (touches_refl fd s) h.world h.stdioFiles hbehind (Or.inr ⟨hp, hopen⟩)) none rfl ?_
    rw [hpending]
    rfl
  cases hmeta : c.shared.sys.clientMeta.posixFiles fd with
  | none =>
    by_cases hclose : call = .close fd
    · subst hclose
      exact hwaits (begin_close_unregistered hmeta) rfl rfl hmeta
    · exact hwaits (begin_unregistered hmeta call hfd hclose) rfl rfl
        ⟨hmeta, hsame.trans hmeta, hfd, hclose⟩
  | some info =>
    have hsome : c.shared.sys.clientMeta.posixFiles fd ≠ none := by simp [hmeta]
    cases call with
    | open64 path flags mode => cases hfd
    | creat64 path mode => cases hfd
    | read fd' buf count =>
      obtain rfl := Option.some.inj hfd
      exact hwaits (begin_registered hmeta (.read buf count)) rfl rfl ⟨hsame, hsome⟩
    | write fd' data =>
      obtain rfl := Option.some.inj hfd
      exact hwaits (begin_registered hmeta (.write data)) rfl rfl ⟨hsame, hsome⟩
    | lseek64 fd' off whence =>
      obtain rfl := Option.some.inj hfd
      exact hwaits (begin_lseek64_registered hmeta off whence) rfl rfl ⟨hsame, hsome⟩
    | close fd' =>
      obtain rfl := Option.some.inj hfd
      exact hwaits (begin_close_registered hmeta) rfl rfl hsame

end Begin

/-! ## Opens and closes -/

section Go

variable (env : Env) {fd : Int}

/-- The descriptor that `open` returns is registered. -/
theorem advances_opened {call : Call} {path : PathStr} {flags : Nat}
    (hp : c.pc t = .opened call fd path flags) : Advances c t (.go env) s [] := by
  obtain ⟨hfd, hbehind⟩ := h.at hp fd rfl
  have hbehind : s.clientMeta.posixFiles fd =
    if c.shared.sys.config.shouldIntercept path then some (.new path flags) else
      c.shared.sys.clientMeta.posixFiles fd := hbehind
  -- an accepted path is entered now; the sequential run has the entry already
  by_cases haccept : c.shared.sys.config.shouldIntercept path = true
  · have hact : next env c.shared (.opened call fd path flags) =
        (c.shared.withSys { c.shared.sys with
          clientMeta := c.shared.sys.clientMeta.registerPosixFd fd path flags }).return call
            ⟨fd, []⟩ := if_pos haccept
    rw [if_pos haccept] at hbehind
    refine advances_go env hp hact
      (h.moveOn hfd (touches_entry fun fd' he => ?_) (touches_refl fd s)
        h.world h.stdioFiles ?_ (Or.inl rfl)) (some (call, ⟨fd, []⟩)) rfl rfl
    · exact FileTable.register_of_ne _ _ he _ _
    · exact hbehind.trans (FileTable.register_self ..).symm
  -- another path is not entered at all
  · have hact : next env c.shared (.opened call fd path flags) =
        c.shared.return call ⟨fd, []⟩ := if_neg haccept
    rw [if_neg haccept] at hbehind
    exact advances_go env hp hact (h.moveOn hfd (touches_refl fd _) (touches_refl fd s) h.world
      h.stdioFiles hbehind (Or.inl rfl)) (some (call, ⟨fd, []⟩)) rfl rfl

theorem advances_unregister (hp : c.pc t = .unregister fd) : Advances c t (.go env) s [] := by
  obtain ⟨hfd, -⟩ := h.at hp fd rfl
  refine advances_go env hp rfl (h.moveOn hfd (touches_entry fun fd' he => ?_) (touches_refl fd s)
    h.world h.stdioFiles (FileTable.unregister_self ..) (Or.inr ⟨rfl, h.opened t fd hfd⟩)) none
    rfl rfl
  exact FileTable.unregister_of_ne _ _ he

/-- `close` takes effect with the real one. -/
theorem advances_realClose (hp : c.pc t = .realClose fd) :
    Advances c t (.go env) (named Posix.step s (.close fd, env)).2
      [(named Posix.step s (.close fd, env)).1] := by
  obtain ⟨hfd, hbehind⟩ := h.at hp fd rfl
  obtain ⟨m, hclose, hnone, hstdio⟩ := perform_close s fd env
  have htouches := Posix.touches_perform s (c := .close fd) env rfl
  unfold named Posix.step
  dsimp only
  rw [hclose] at htouches ⊢
  rw [kernel_eq h] at htouches ⊢
  refine advances_go env hp rfl (h.moveOn hfd (Posix.touches_real c.shared.sys (c := .close fd) rfl)
    htouches (withKernel_eq h _) (hstdio.trans h.stdioFiles) ?_ (Or.inl rfl))
    (some (.close fd, _)) rfl rfl
  exact hnone.trans (Eq.symm hbehind)

/-! ## Reads and writes -/

/-- The real function answers. -/
theorem advances_real {call : Call} (hp : c.pc t = .real fd call) :
    Advances c t (.go env) (named Posix.step s (call, env)).2
      [(named Posix.step s (call, env)).1] := by
  obtain ⟨hfd, he, ha, hcall, -⟩ := h.at hp fd rfl
  have htouches := Posix.touches_perform s env hcall
  unfold named Posix.step
  dsimp only
  rw [perform_real ha hcall env] at htouches ⊢
  rw [kernel_eq h] at htouches ⊢
  exact advances_go env hp rfl (h.moveOn hfd (Posix.touches_real c.shared.sys hcall) htouches
    (withKernel_eq h _) h.stdioFiles (ha.trans he.symm) (Or.inl rfl)) (some (call, _)) rfl rfl

/-- The entry is still there. -/
theorem advances_lookup {io : Io} (hp : c.pc t = .lookup fd io) : Advances c t (.go env) s [] := by
  obtain ⟨hfd, hsame, hne⟩ := h.at hp fd rfl
  obtain ⟨info, he⟩ := Option.ne_none_iff_exists'.mp hne
  have hact : next env c.shared (.lookup fd io) = (c.shared, .prepare fd io) := by
    simp [next, ClientMetadataManager.getPosixFileInfo, he]
  exact advances_go env hp hact (h.goOn hfd rfl rfl ⟨hsame, hne⟩) none rfl rfl

theorem advances_prepare {io : Io} (hp : c.pc t = .prepare fd io) :
    Advances c t (.go env) s [] := by
  obtain ⟨hfd, hsame, hne⟩ := h.at hp fd rfl
  obtain ⟨info, he⟩ := Option.ne_none_iff_exists'.mp hne
  have hnext := next_prepare he env io
  refine advances_go env hp hnext (h.goOn hfd ?_ rfl ⟨hsame, info, he, rfl, rfl⟩) none rfl rfl
  rfl

/-- A task takes effect when the server is done. -/
theorem advances_submitted {io : Io} {path : PathStr} {off : Int}
    (hp : c.pc t = .submitted fd io path off) :
    Advances c t (.go env) (named Posix.step s (io.call fd, env)).2
      [(named Posix.step s (io.call fd, env)).1] := by
  obtain ⟨hfd, hsame, info, he, rfl, rfl⟩ := h.at hp fd rfl
  have hcall : (io.call fd).fd? = some fd := by
    cases io with
    | read buf count => rfl
    | write data => rfl
  -- the task itself changes nothing of the application's process
  have hkept : Kept c.shared.sys.world
      (perform io info.absolutePath info.currentOffset env c.shared.sys.world).2 := by
    cases io with
    | read buf count => exact kept_clientRead ..
    | write data => exact kept_clientWrite ..
  have htouches := Posix.touches_perform s env hcall
  unfold named Posix.step
  dsimp only
  rw [perform_io (hsame.trans he) io env] at htouches ⊢
  rw [h.world] at htouches ⊢
  refine advances_go env hp rfl (h.moveOn hfd (touches_world fd hkept) htouches rfl h.stdioFiles
    ⟨info, he, ?_⟩ (Or.inr ⟨rfl, ?_⟩)) none rfl rfl
  · exact FileTable.updateOffset_of_some _ _ (hsame.trans he) _
  · exact (congrFun hkept.fds fd).trans_ne (h.opened t fd hfd)

/-- Nobody has stored another offset in the meantime. -/
theorem advances_finish {io : Io} {r : Result} (hp : c.pc t = .finish fd io r) :
    Advances c t (.go env) s [] := by
  obtain ⟨hfd, info, he, ha⟩ := h.at hp fd rfl
  exact advances_go env hp (next_finish he env io r) (h.goOn hfd rfl rfl ⟨info, he, ha⟩)
    none rfl rfl

/-- A step that stores the offset of the sequential run and returns. -/
theorem advances_store {p : Pc} (hp : c.pc t = p) (hfd : subject p = some fd) {off : Int}
    {call : Call} {r : Result}
    (hact : next env c.shared p = (c.shared.withSys { c.shared.sys with
      clientMeta := c.shared.sys.clientMeta.updatePosixOffset fd off }).return call r)
    (hpending : pending p = some (call, r))
    (hbehind : ∃ info, c.shared.sys.clientMeta.posixFiles fd = some info ∧
      s.clientMeta.posixFiles fd = some { info with currentOffset := off }) :
    Advances c t (.go env) s [] := by
  obtain ⟨hfd, -⟩ := h.at hp fd hfd
  obtain ⟨info, he, ha⟩ := hbehind
  refine advances_go env hp hact (h.moveOn hfd (touches_entry fun fd' hne => ?_) (touches_refl fd s)
    h.world h.stdioFiles ?_ (Or.inl rfl)) (some (call, r)) rfl ?_
  · exact FileTable.updateOffset_of_ne _ _ hne _
  · exact ha.trans (FileTable.updateOffset_of_some _ _ he off).symm
  · rw [hpending]
    rfl

theorem advances_update {io : Io} {r : Result} {off : Int} (hp : c.pc t = .update fd io r off) :
    Advances c t (.go env) s [] :=
  advances_store h env hp rfl rfl rfl (h.at hp fd rfl).2

/-! ## Seeks -/

/-- `lseek` takes effect with the real one. -/
theorem advances_seek {off : Int} {whence : Whence} (hp : c.pc t = .seek fd off whence) :
    Advances c t (.go env) (named Posix.step s (.lseek64 fd off whence, env)).2
      [(named Posix.step s (.lseek64 fd off whence, env)).1] := by
  obtain ⟨hfd, hsame, hne⟩ := h.at hp fd rfl
  obtain ⟨info, he⟩ := Option.ne_none_iff_exists'.mp hne
  have hreal := Posix.touches_real c.shared.sys (c := .lseek64 fd off whence) rfl
  have htouches := Posix.touches_perform s (c := .lseek64 fd off whence) env rfl
  unfold named Posix.step
  dsimp only [Posix.perform] at htouches ⊢
  rw [Posix.lseek64_of_registered (hsame.trans he)] at htouches ⊢
  rw [kernel_eq h] at htouches ⊢
  dsimp only at htouches ⊢
  by_cases hneg : (c.shared.sys.kernel.lseek64 appPid fd off whence).1 < 0
  · -- a refused seek returns at once
    have hact : next env c.shared (.seek fd off whence) =
        (c.shared.withSys (c.shared.sys.withKernel
          (c.shared.sys.kernel.lseek64 appPid fd off whence).2)).return (.lseek64 fd off whence)
            ⟨(c.shared.sys.kernel.lseek64 appPid fd off whence).1, []⟩ := if_pos hneg
    rw [if_pos hneg] at htouches ⊢
    exact advances_go env hp hact
      (h.moveOn hfd hreal htouches (withKernel_eq h _) h.stdioFiles hsame (Or.inl rfl))
      (some (.lseek64 fd off whence, _)) rfl rfl
  · have hact : next env c.shared (.seek fd off whence) =
        (c.shared.withSys (c.shared.sys.withKernel
          (c.shared.sys.kernel.lseek64 appPid fd off whence).2),
          .seekLookup fd off whence (c.shared.sys.kernel.lseek64 appPid fd off whence).1) :=
      if_neg hneg
    rw [if_neg hneg] at htouches ⊢
    refine advances_go env hp hact (h.moveOn hfd hreal htouches (withKernel_eq h _) h.stdioFiles
      ⟨info, he, ?_⟩ (Or.inr ⟨rfl, fun hnone => ?_⟩)) none rfl rfl
    · exact FileTable.updateOffset_of_some _ _ (hsame.trans he) _
    · -- it is open as before
      have hvia := Routing.via_lseek64 c.shared.sys.kernel fd off whence fd
      rw [show (c.shared.sys.kernel.lseek64 appPid fd off whence).2.fds appPid fd = none from hnone]
        at hvia
      exact h.opened t fd hfd (Option.map_eq_none_iff.mp hvia.symm)

theorem advances_seekLookup {off pos : Int} {whence : Whence}
    (hp : c.pc t = .seekLookup fd off whence pos) : Advances c t (.go env) s [] := by
  obtain ⟨hfd, info, he, ha⟩ := h.at hp fd rfl
  have hact : next env c.shared (.seekLookup fd off whence pos) =
      (c.shared, .seekUpdate fd off whence pos) := by
    simp [next, ClientMetadataManager.getPosixFileInfo, he]
  exact advances_go env hp hact (h.goOn hfd rfl rfl ⟨info, he, ha⟩) none rfl rfl

theorem advances_seekUpdate {off pos : Int} {whence : Whence}
    (hp : c.pc t = .seekUpdate fd off whence pos) : Advances c t (.go env) s [] :=
  advances_store h env hp rfl rfl rfl (h.at hp fd rfl).2

end Go

/-! ## All steps -/

omit h [DecidableEq Tid] in
/-- A call does not begin during another one of the same thread. -/
theorem act_busy {p : Pc} (hp : p ≠ .idle) (call : Call) (sh : Shared) :
    act (.begin call) p sh = (sh, p) ∧ point (.begin call) p = none := by
  cases p with
  | idle => exact absurd rfl hp
  | _ => cases call <;> exact ⟨rfl, rfl⟩

/-- The steps at which no call takes effect. -/
theorem advances_silent {i : Input} (hi : Exclusive c t i) (hpoint : point i (c.pc t) = none) :
    Advances c t i s [] := by
  -- a step that does nothing
  have hquiet : ∀ {p}, c.pc t = p → act i p c.shared = (c.shared, p) → Advances c t i s [] :=
    fun hp hact => advances_of hp hact (h.stay rfl hp) none rfl (List.append_nil _)
  cases i with
  | begin call =>
    by_cases hidle : c.pc t = .idle
    · rw [hidle] at hpoint
      cases call with
      | open64 path flags mode => cases hpoint
      | creat64 path mode => cases hpoint
      | read fd buf count => exact advances_begin h hidle rfl hi
      | write fd data => exact advances_begin h hidle rfl hi
      | lseek64 fd off whence => exact advances_begin h hidle rfl hi
      | close fd => exact advances_begin h hidle rfl hi
    · exact hquiet rfl (act_busy hidle call _).1
  | go env =>
    cases hp : c.pc t with
    | idle => exact hquiet hp rfl
    | opened call fd path flags => exact advances_opened h env hp
    | unregister fd => exact advances_unregister h env hp
    | lookup fd io => exact advances_lookup h env hp
    | prepare fd io => exact advances_prepare h env hp
    | finish fd io r => exact advances_finish h env hp
    | update fd io r off => exact advances_update h env hp
    | seekLookup fd off whence pos => exact advances_seekLookup h env hp
    | seekUpdate fd off whence pos => exact advances_seekUpdate h env hp
    | dangling => exact absurd hp (h.alive t)
    | _ =>
      rw [hp] at hpoint
      cases hpoint

omit h [DecidableEq Tid] in
/-- Where a call takes effect. -/
theorem point_eq_some {i : Input} {p : Pc} {o : Call × Env} (hpoint : point i p = some o) :
    (∃ call, i = .begin call ∧ p = .idle ∧ o = (call, .calm) ∧ call.fd? = none) ∨
    ∃ env fd, i = .go env ∧ o.2 = env ∧
      (p = .realClose fd ∧ o.1 = .close fd ∨ p = .real fd o.1 ∨
        (∃ io path off, p = .submitted fd io path off ∧ o.1 = io.call fd) ∨
        ∃ off whence, p = .seek fd off whence ∧ o.1 = .lseek64 fd off whence) := by
  cases i with
  -- at the begin of a call only an open on an idle thread is a point
  | begin call =>
    by_cases hidle : p = .idle
    · subst hidle
      cases call with
      | open64 path flags mode => exact Or.inl ⟨_, rfl, rfl, (Option.some.inj hpoint).symm, rfl⟩
      | creat64 path mode => exact Or.inl ⟨_, rfl, rfl, (Option.some.inj hpoint).symm, rfl⟩
      | _ => cases hpoint
    · rw [(act_busy hidle call ⟨deployment threeBytes openToAll, [], []⟩).2] at hpoint
      cases hpoint
  | go env =>
    -- the steps that take effect: the kernel's calls and the submitted task
    cases p with
    | realClose fd =>
      obtain rfl := Option.some.inj hpoint
      exact Or.inr ⟨env, fd, rfl, rfl, Or.inl ⟨rfl, rfl⟩⟩
    | real fd call =>
      obtain rfl := Option.some.inj hpoint
      exact Or.inr ⟨env, fd, rfl, rfl, Or.inr (Or.inl rfl)⟩
    | submitted fd io path off =>
      obtain rfl := Option.some.inj hpoint
      exact Or.inr ⟨env, fd, rfl, rfl, Or.inr (Or.inr (Or.inl ⟨io, path, off, rfl, rfl⟩))⟩
    | seek fd off whence =>
      obtain rfl := Option.some.inj hpoint
      exact Or.inr ⟨env, fd, rfl, rfl, Or.inr (Or.inr (Or.inr ⟨off, whence, rfl, rfl⟩))⟩
    | _ => cases hpoint

/-- And the others. -/
theorem advances_effect {i : Input} {o : Call × Env} (hpoint : point i (c.pc t) = some o) :
    Advances c t i (named Posix.step s o).2 [(named Posix.step s o).1] := by
  obtain ⟨call, env⟩ := o
  rcases point_eq_some hpoint with ⟨call, rfl, hp, ho, hcall⟩ | ⟨env, fd, rfl, rfl, hcases⟩
  · obtain ⟨rfl, rfl⟩ := Prod.mk.inj ho
    cases call with
    | open64 path flags mode => exact advances_open h hp rfl
    | creat64 path mode => exact advances_open h hp rfl
    | _ => cases hcall
  · rcases hcases with ⟨hp, rfl⟩ | hp | ⟨io, path, off, hp, rfl⟩ | ⟨off, whence, hp, rfl⟩
    · exact advances_realClose h _ hp
    · exact advances_real h _ hp
    · exact advances_submitted h _ hp
    · exact advances_seek h _ hp

omit h in
/-- **Every step** of a thread is one of the sequential run, or none. -/
theorem linearizes : Linearizes calls (named Posix.step) Exclusive (Tracks : Conf Tid → _) where
  silent := by
    intro c s t i h hi hpoint
    have hadvances := advances_silent h hi hpoint
    exact ⟨hadvances.tracks, (List.append_nil _).symm.trans hadvances.results⟩
  effect := by
    intro c s t i o h hi hpoint
    have hadvances := advances_effect h hpoint
    exact ⟨hadvances.tracks, hadvances.results⟩

end DTIO.Properties.ThreadSteps
