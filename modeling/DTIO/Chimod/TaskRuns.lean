import DTIO.Chimod.Effects
import DTIO.Foundation.Mealy

/-!
# Runs of Tasks

A server executes one `Write` or `Read` after another.  Which container gets a task and what
becomes of its system calls are inputs of the run.

## Main results

- `serve_kept`: what no run changes
- `serve_kernel`: a task opens one descriptor in its container, or nothing changes
-/

namespace DTIO.Chimod

open DTIO.Posix DTIO.ByteFile DTIO.MachineInt DTIO.Mealy

/-- The tasks that transfer data. -/
inductive ServerTask where
  | write (task : WriteTask)
  | read (task : ReadTask)
  deriving DecidableEq, Repr

namespace ServerTask

def io : ServerTask → IoTask
  | write task => task
  | read task => task

/-- The same task for another interface. -/
def withIface (iface : IoClientType) : ServerTask → ServerTask
  | write task => write { task with iface := iface }
  | read task => read { task with iface := iface }

/-- `Server::Write` or `Server::Read` in the container `c`. -/
def run (c : Nat) (env : Env) (w : World) : ServerTask → ServerRun IoTask
  | write task => Server.write c task env w
  | read task => Server.read c task env w

@[simp] theorem io_withIface (iface : IoClientType) (t : ServerTask) :
    (t.withIface iface).io = { t.io with iface := iface } := by
  cases t <;> rfl

end ServerTask

/-- A container, a task for it, and what becomes of its system calls. -/
structure Dispatch where
  container : Nat
  task : ServerTask
  env : Env

/-- One task of a run. -/
def serve (w : World) (i : Dispatch) : ServerRun IoTask × World :=
  (i.task.run i.container i.env w, (i.task.run i.container i.env w).world)

/-- What the task opens; `none` also for the interfaces without a case. -/
def Dispatch.opening (i : Dispatch) (w : World) : Option (Int × Ino × FileSystem) :=
  match i.task.io.iface with
  | .kPosix => Server.openingPosix i.container i.task.io i.env w
  | .kStdio => Server.openingStdio i.container i.task.io i.env w
  | _ => none

/-- The bytes a task places in the file it opened: a stream passes on what it does not keep. -/
def Dispatch.placed (i : Dispatch) : List Byte :=
  match i.task with
  | .write task =>
    match task.iface with
    | .kStdio =>
      movedBytes i.env.fault.transfer (task.pos i.env) (task.payload.take i.env.flushed)
    | _ => movedBytes i.env.fault.transfer (task.pos i.env) task.payload
  | .read _ => []

/-- The bytes a task obtains from what it opened. -/
def Dispatch.obtained (i : Dispatch) (o : Int × Ino × FileSystem) : List Byte :=
  match i.task with
  | .write _ => []
  | .read task => obtainedBytes i.env.fault.transfer o.2.2 o.2.1 (task.pos i.env) task.dataSize

/-- The descriptor's flags and the end of the transfer. -/
def Dispatch.after (i : Dispatch) (w : World) (o : Int × Ino × FileSystem) : World :=
  let io := i.task.io
  let pos := io.pos i.env
  let left := fun (flags n : Nat) => w.withKernel (opened w.kernel (pidOf i.container) io.filepath
    flags (pos + n) (written o pos i.placed))
  match io.iface, i.task with
  | .kStdio, .write task =>
    (left oRdwr i.placed.length).addStream i.container ⟨o.1, task.payload.drop i.env.flushed⟩
  | .kStdio, .read _ => (left oRdwr (i.obtained o).length).addStream i.container ⟨o.1, []⟩
  | _, .write _ => left serverFlags i.placed.length
  | _, .read _ => left serverFlags (i.obtained o).length

theorem serve_kept (w : World) (i : Dispatch) : Kept w (serve w i).2 := by
  obtain ⟨c, task, env⟩ := i
  cases task with
  | write task => exact kept_serverWrite c task env w
  | read task => exact kept_serverRead c task env w

/-- All that a transfer changes in a container is its streams. -/
theorem serve_container (w : World) (i : Dispatch) (c : Nat) :
    ∃ streams, (serve w i).2.containers c = { w.containers c with streams := streams } := by
  -- adding a stream changes the streams of its own container only
  have hstream : ∀ (w' : World) (c' : Nat) (s : Stream), w'.containers c = w.containers c →
      ∃ streams, (w'.addStream c' s).containers c =
        { w.containers c with streams := streams } := by
    intro w' c' s hw
    by_cases hc : c = c'
    · subst hc
      exact ⟨_, by simp only [World.addStream, World.setContainer, Function.update_self, hw]; rfl⟩
    · exact ⟨_, by simp only [World.addStream, World.setContainer, ne_eq, hc,
        not_false_eq_true, Function.update_of_ne, hw]; rfl⟩
  obtain ⟨c', task, env⟩ := i
  cases task with
  | write task =>
    obtain ⟨data, off, size, filename, iface⟩ := task
    cases iface with
    -- the stdio paths add one when `fopen` succeeded
    | kStdio =>
      show ∃ streams, (Server.writeStdio c' _ env w).world.containers c = _
      unfold Server.writeStdio
      dsimp only
      split
      · exact ⟨_, rfl⟩
      · exact hstream _ _ _ rfl
    -- the others only use descriptors
    | kPosix | kHdf5 | kUring | kMulti => exact ⟨_, rfl⟩
  | read task =>
    obtain ⟨data, off, size, filename, iface⟩ := task
    cases iface with
    -- the same for reads
    | kStdio =>
      show ∃ streams, (Server.readStdio c' _ env w).world.containers c = _
      unfold Server.readStdio
      dsimp only
      split
      · exact ⟨_, rfl⟩
      · exact hstream _ _ _ rfl
    | kPosix | kHdf5 | kUring | kMulti => exact ⟨_, rfl⟩

theorem serve_scheduleNum (w : World) (i : Dispatch) (c : Nat) :
    ((serve w i).2.containers c).scheduleNum = (w.containers c).scheduleNum := by
  obtain ⟨streams, hc⟩ := serve_container w i c
  rw [hc]

theorem serve_metamap (w : World) (i : Dispatch) (c : Nat) :
    ((serve w i).2.containers c).metamap = (w.containers c).metamap := by
  obtain ⟨streams, hc⟩ := serve_container w i c
  rw [hc]

theorem Server.writeStdio_task (c : Nat) (task : WriteTask) (env : Env) (w : World) :
    (Server.writeStdio c task env w).task = task := by
  unfold Server.writeStdio
  dsimp only
  split <;> rfl

/-- **One task.**  It opens its file and transfers, or nothing happens; then a stream that was
not opened is used. -/
theorem serve_eq {w : World} (hneg : w.kernel.NonnegFds) (i : Dispatch) :
    ((serve w i).1.undefined, (serve w i).1.task, (serve w i).2) =
      match i.opening w with
      | none => (decide (i.task.io.iface = .kStdio), i.task.io, w)
      | some o =>
        (false, { i.task.io with data := copyTo i.task.io.data (i.obtained o) }, i.after w o) := by
  obtain ⟨c, task, env⟩ := i
  -- the interfaces without a case do nothing; in the others the opening decides
  cases task with
  | write task =>
    obtain ⟨data, off, size, filename, iface⟩ := task
    cases iface with
    | kPosix =>
      have heq := Server.writePosix_eq hneg c ⟨data, off, size, filename, .kPosix⟩ env
      refine (congrArg (fun r : Int × World =>
        (false, (⟨data, off, size, filename, .kPosix⟩ : IoTask), r.2)) heq).trans ?_
      show _ = match Server.openingPosix c ⟨data, off, size, filename, .kPosix⟩ env w with
        | none => _
        | some o => _
      cases Server.openingPosix c ⟨data, off, size, filename, .kPosix⟩ env w <;> rfl
    | kStdio =>
      have heq := Server.writeStdio_eq hneg c ⟨data, off, size, filename, .kStdio⟩ env
      refine (congrArg₂ (fun (t : IoTask) (r : Bool × World) => (r.1, t, r.2))
        (Server.writeStdio_task ..) heq).trans ?_
      show _ = match Server.openingStdio c ⟨data, off, size, filename, .kStdio⟩ env w with
        | none => _
        | some o => _
      cases Server.openingStdio c ⟨data, off, size, filename, .kStdio⟩ env w <;> rfl
    | kHdf5 | kUring | kMulti => rfl
  | read task =>
    obtain ⟨data, off, size, filename, iface⟩ := task
    cases iface with
    | kPosix =>
      have heq := Server.readPosix_eq hneg c ⟨data, off, size, filename, .kPosix⟩ env
      refine (congrArg (fun r : Int × IoTask × World => (false, r.2.1, r.2.2)) heq).trans ?_
      show _ = match Server.openingPosix c ⟨data, off, size, filename, .kPosix⟩ env w with
        | none => _
        | some o => _
      cases Server.openingPosix c ⟨data, off, size, filename, .kPosix⟩ env w with
      | none => simp [ServerTask.io]
      | some o =>
        simp [ServerTask.io, Dispatch.obtained, Dispatch.after, Dispatch.placed, written_nil,
          IoTask.filepath]
    | kStdio =>
      have heq := Server.readStdio_eq hneg c ⟨data, off, size, filename, .kStdio⟩ env
      refine heq.trans ?_
      show _ = match Server.openingStdio c ⟨data, off, size, filename, .kStdio⟩ env w with
        | none => _
        | some o => _
      cases Server.openingStdio c ⟨data, off, size, filename, .kStdio⟩ env w with
      | none => simp [ServerTask.io]
      | some o =>
        simp [ServerTask.io, Dispatch.obtained, Dispatch.after, Dispatch.placed, written_nil,
          IoTask.filepath]
    | kHdf5 | kUring | kMulti => rfl

section

variable {w : World} (hneg : w.kernel.NonnegFds) {i : Dispatch}

include hneg

theorem serve_of_none (h : i.opening w = none) :
    (serve w i).1.undefined = decide (i.task.io.iface = .kStdio) ∧
      (serve w i).1.task = i.task.io ∧ (serve w i).2 = w := by
  simpa [h] using serve_eq hneg i

theorem serve_of_some {o : Int × Ino × FileSystem} (h : i.opening w = some o) :
    (serve w i).1.undefined = false ∧
      (serve w i).1.task = { i.task.io with data := copyTo i.task.io.data (i.obtained o) } ∧
      (serve w i).2 = i.after w o := by
  simpa [h] using serve_eq hneg i

end

/-- A task that opens something has a case for its interface. -/
theorem Dispatch.opening_some {i : Dispatch} {w : World} {o : Int × Ino × FileSystem}
    (h : i.opening w = some o) :
    i.task.io.iface = .kPosix ∧ Server.openingPosix i.container i.task.io i.env w = some o ∨
    i.task.io.iface = .kStdio ∧ Server.openingStdio i.container i.task.io i.env w = some o := by
  unfold Dispatch.opening at h
  cases hiface : i.task.io.iface with
  | kPosix =>
    rw [hiface] at h
    exact Or.inl ⟨rfl, h⟩
  | kStdio =>
    rw [hiface] at h
    exact Or.inr ⟨rfl, h⟩
  | kHdf5 | kUring | kMulti =>
    rw [hiface] at h
    cases h

/-- The number it opened was free in its container. -/
theorem Dispatch.opening_fd {i : Dispatch} {w : World} {o : Int × Ino × FileSystem}
    (h : i.opening w = some o) :
    0 ≤ o.1 ∧ w.kernel.lowestFree (pidOf i.container) = some o.1 := by
  rcases i.opening_some h with ⟨-, ho⟩ | ⟨-, ho⟩
  · exact ⟨(Chimod.opening_fd ho).1, (Chimod.opening_some ho).2.2.1⟩
  · exact ⟨(Chimod.opening_fd ho).1, (Chimod.opening_some ho).2.2.1⟩

/-- The kernel after a task that opened `o`. -/
theorem Dispatch.after_kernel (i : Dispatch) (w : World) (o : Int × Ino × FileSystem) :
    ∃ flags pos', (i.after w o).kernel = opened w.kernel (pidOf i.container) i.task.io.filepath
      flags pos' (written o (i.task.io.pos i.env) i.placed) := by
  obtain ⟨c, task, env⟩ := i
  cases task with
  | write task =>
    obtain ⟨data, off, size, filename, iface⟩ := task
    cases iface <;> exact ⟨_, _, rfl⟩
  | read task =>
    obtain ⟨data, off, size, filename, iface⟩ := task
    cases iface <;> exact ⟨_, _, rfl⟩

end DTIO.Chimod
