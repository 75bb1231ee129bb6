import DTIO.Properties.Refinement
import DTIO.Properties.ThreadSteps

/-!
# Threads That Do Not Share Descriptors

Two calls on one descriptor can lose each other's offset.  If no two of them are under way at the
same time, then this is all that can go wrong: whatever other threads do with other descriptors of
the same files, the threads get what they would get if the calls were made one after another, in
the order in which they take effect.

## Main results

- `calls_linearize`: any calls, with any outcome of the server's system calls
- `threads_refine_kernel`: the same on the plain kernel
-/

namespace DTIO.Properties.OwnDescriptors

open DTIO.Posix DTIO.Chimod DTIO.Client DTIO.Interleaving DTIO.Linearization
open DTIO.Adapter DTIO.Adapter.Threads DTIO.Properties.CallPoints DTIO.Properties.ThreadSteps

/-! ## Schedules -/

section Schedules

variable {Tid : Type} [DecidableEq Tid] {s : System} {schedule : List (Tid × Input)}

/-- The threads after a schedule. -/
abbrev ran (s : System) (schedule : List (Tid × Input)) : Conf Tid := play act (start s) schedule

/-- The calls in the order in which they take effect. -/
abbrev order (s : System) (schedule : List (Tid × Input)) : List (Tid × Call × Env) :=
  calls.points (start s) schedule

/-- What the threads have got. -/
abbrev got (s : System) (schedule : List (Tid × Input)) : List (Tid × Call × Result) :=
  calls.answers (start s) schedule

omit [DecidableEq Tid] in
/-- When no call is under way nothing is behind. -/
theorem system_eq {c : Conf Tid} (h : Tracks c s) (hidle : ∀ t, c.pc t = .idle) :
    s = c.shared.sys := by
  have hfiles : s.clientMeta.posixFiles = c.shared.sys.clientMeta.posixFiles :=
    funext fun fd => h.free fd fun t => subject_idle (hidle t) fd
  have hmeta : s.clientMeta = c.shared.sys.clientMeta := by
    cases hs : s.clientMeta with
    | mk posixFiles stdioFiles =>
      have hstdio := h.stdioFiles
      rw [hs] at hfiles hstdio
      exact congrArg₂ ClientMetadataManager.mk hfiles hstdio
  cases s with
  | mk world clientMeta config =>
    rw [show world = c.shared.sys.world from h.world, show clientMeta = _ from hmeta,
      show config = c.shared.sys.config from h.config]

/-- **Descriptors that are not shared.**  Any number of threads make intercepted calls, with any
flags and whatever the server's system calls return, and no two calls on one descriptor are under
way at the same time.  Each call takes effect at one of its atomic steps.  At every moment each
thread has got what it gets when the calls are made one after another in this order, except for
the result of a call that is about to return; all files are those that the calls leave then, and
so is the table when no call is under way.  No thread uses an entry that was erased. -/
theorem calls_linearize (hperm : Permitted act Exclusive (start s) schedule) :
    (∀ t, ofThread t (serial (named Posix.step) s (order s schedule)) =
      ofThread t (got s schedule) ++ (pending ((ran s schedule).pc t)).toList) ∧
    (outcome (named Posix.step) s (order s schedule)).world = (ran s schedule).shared.sys.world ∧
    ((∀ t, (ran s schedule).pc t = .idle) →
      outcome (named Posix.step) s (order s schedule) = (ran s schedule).shared.sys) ∧
    ∀ t, (ran s schedule).pc t ≠ .dangling := by
  obtain ⟨htracks, hresults⟩ := linearizes.run (tracks_start s) hperm
  exact ⟨hresults, htracks.world, system_eq htracks, htracks.alive⟩

/-- Both threads open `/f`; while one writes two bytes the other one reads three. -/
def interleaved : List (Bool × Input) :=
  [(false, .begin (.open64 ['/', 'f'] oRdwr 0)), (true, .begin (.open64 ['/', 'f'] oRdwr 0)),
    (true, .go .calm), (false, .go .calm), (false, .begin (.write 0 [9, 9])),
    (true, .begin (.read 1 [0, 0, 0] 3)), (true, .go .calm), (false, .go .calm),
    (false, .go .calm), (true, .go .calm), (false, .go .calm), (true, .go .calm),
    (true, .go .calm), (true, .go .calm), (false, .go .calm), (false, .go .calm)]

/-- The files before the first call. -/
def files : System := deployment threeBytes openToAll

theorem calls_linearize_interleaved :
    ofThread true (serial (named Posix.step) files (order files interleaved)) =
      ofThread true (got files interleaved) ++
        (pending ((ran files interleaved).pc true)).toList :=
  (calls_linearize (by decide +kernel)).1 true

/-! ## On the plain kernel -/

/-- The server's system calls for the task of a thread succeed in full. -/
def TaskDone (env : Env) (w : World) : Pc → Prop
  | .submitted _ io path off => (served io path off env w).complete io.size
  | _ => True

instance (env : Env) (w : World) (p : Pc) : Decidable (TaskDone env w p) :=
  match p with
  | .submitted _ io path off =>
    inferInstanceAs (Decidable ((served io path off env w).complete io.size))
  | .idle | .opened .. | .unregister _ | .realClose _ | .real .. | .lookup .. | .prepare ..
  | .finish .. | .update .. | .seek .. | .seekLookup .. | .seekUpdate .. | .dangling =>
    isTrue trivial

/-- A call that takes effect is one of those that are compared, and its task is done. -/
def Served (c : Conf Tid) (t : Tid) (i : Input) : Prop :=
  ∀ o ∈ point i (c.pc t),
    Refinement.inScope o.1 = true ∧ TaskDone o.2 c.shared.sys.world (c.pc t)

instance (c : Conf Tid) (t : Tid) (i : Input) : Decidable (Served c t i) :=
  inferInstanceAs (Decidable (∀ o ∈ point i (c.pc t), _ ∧ _))

omit [DecidableEq Tid] in
theorem admissible_of_served {c : Conf Tid} (h : Tracks c s) {t : Tid} {i : Input}
    (hserved : Served c t i) {o : Call × Env} (hpoint : point i (c.pc t) = some o) :
    Refinement.Admissible s o := by
  obtain ⟨hscope, hdone⟩ := hserved o hpoint
  refine ⟨?_, hscope⟩
  -- what is not sent to the server is complete
  have hnone : (Posix.perform s o.1 o.2).served = none → Posix.Complete s o := by
    intro hnone calls hcalls
    rw [hnone] at hcalls
    cases hcalls
  obtain ⟨call, env⟩ := o
  rcases point_eq_some hpoint with ⟨call, rfl, hp, ho, hcall⟩ | ⟨env, fd, rfl, rfl, hcases⟩
  · obtain ⟨rfl, rfl⟩ := Prod.mk.inj ho
    cases call with
    | open64 path flags mode => exact hnone (Posix.afterOpen_served ..)
    | creat64 path mode => exact hnone (Posix.afterOpen_served ..)
    | _ => cases hcall
  · rcases hcases with ⟨hp, rfl⟩ | hp | ⟨io, path, off, hp, rfl⟩ | ⟨off, whence, hp, rfl⟩
    · exact hnone (Posix.close_served fd s)
    · obtain ⟨-, -, ha, hcall, -⟩ := h.at hp fd rfl
      refine hnone ?_
      rw [perform_real ha hcall]
      rfl
    · obtain ⟨-, hsame, info, he, rfl, rfl⟩ := h.at hp fd rfl
      rw [hp] at hdone
      intro calls hcalls
      rw [perform_io (hsame.trans he) io, h.world] at hcalls
      obtain rfl := Option.some.inj hcalls
      have hsize : (io.call fd).size = io.size := by
        cases io with
        | read buf count => rfl
        | write data => rfl
      exact hsize ▸ hdone
    · exact hnone (Posix.lseek64_served ..)

/-- The same calls on the plain kernel. -/
theorem linearizes_direct : Linearizes calls (named Refinement.directStep)
    (fun c t i => Exclusive c t i ∧ Served c t i)
    (fun (c : Conf Tid) k => ∃ s, Tracks c s ∧ Refinement.Refines s k) := by
  refine linearizes.trans (G := Refinement.Admissible) (fun s k o hrefines hadmissible => ?_)
    (fun hi => hi.1) (fun htracks hi hpoint => admissible_of_served htracks hi.2 hpoint)
  obtain ⟨hresult, hnext⟩ := Refinement.step_refines hrefines o hadmissible
  exact ⟨Prod.ext rfl hresult, hnext⟩

/-- **Refinement of POSIX by threads.**  Any number of threads open files for reading and writing
without `O_APPEND`, seek to absolute positions, read, write and close, the server's system calls
succeed in full, and no two calls on one descriptor are under way at the same time.  Then each
thread gets what it gets on the plain kernel when the calls are made there one after another, in
the order in which they take effect, and all files are at every moment what these calls make of
them. -/
theorem threads_refine_kernel (hs : s.clientMeta = .empty)
    (hperm : Permitted act (fun c t i => Exclusive c t i ∧ Served c t i) (start s) schedule) :
    (∀ t, ofThread t (serial (named Refinement.directStep) s.kernel (order s schedule)) =
      ofThread t (got s schedule) ++ (pending ((ran s schedule).pc t)).toList) ∧
    (outcome (named Refinement.directStep) s.kernel (order s schedule)).fs =
      (ran s schedule).shared.sys.kernel.fs := by
  obtain ⟨⟨s', htracks, hrefines⟩, hresults⟩ :=
    linearizes_direct.run ⟨s, tracks_start s, Refinement.refines_start hs⟩ hperm
  refine ⟨hresults, hrefines.fs.symm.trans ?_⟩
  exact congrArg (fun w : World => w.kernel.fs) htracks.world

theorem threads_refine_kernel_interleaved :
    (outcome (named Refinement.directStep) files.kernel (order files interleaved)).fs =
      (ran files interleaved).shared.sys.kernel.fs :=
  (threads_refine_kernel rfl (by decide +kernel)).2

end Schedules

end DTIO.Properties.OwnDescriptors
