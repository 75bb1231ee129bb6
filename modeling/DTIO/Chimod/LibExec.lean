import DTIO.Chimod.Server

/-!
# Method Dispatch and Remote Execution

The tables of `dtiomod_lib_exec.h`: `Run` calls the server method of a task, `SaveStart`,
`LoadStart`, `SaveEnd` and `LoadEnd` instantiate its serializers.  A task sent to a container
of another node is saved, loaded into an empty task there, run, saved again, and loaded into
the original task.
-/

namespace DTIO.Chimod

open DTIO.Posix DTIO.ByteFile

/-- A task with its method. -/
inductive AnyTask where
  | write (t : WriteTask)
  | read (t : ReadTask)
  | metaPut (t : MetaPutTask)
  | metaGet (t : MetaGetTask)
  | schedule (t : ScheduleTask)
  deriving DecidableEq, Repr

/-- What running a task leaves: the task, the state, and whether a null `FILE *` was used. -/
structure AnyRun where
  task : AnyTask
  world : World
  undefined : Bool

/-- `Run(method, task, rctx)` on container `c`. -/
def run (c : Nat) (env : Env) (w : World) : AnyTask → AnyRun
  | .write t => let r := Server.write c t env w; ⟨.write r.task, r.world, r.undefined⟩
  | .read t => let r := Server.read c t env w; ⟨.read r.task, r.world, r.undefined⟩
  | .metaPut t => let r := Server.metaPut c t w; ⟨.metaPut r.1, r.2, false⟩
  | .metaGet t => let r := Server.metaGet c t w; ⟨.metaGet r.1, r.2, false⟩
  | .schedule t => let r := Server.schedule c t w; ⟨.schedule r.1, r.2, false⟩

def saveStart : AnyTask → List Item
  | .write t => save WriteTask.serializeStart t
  | .read t => save ReadTask.serializeStart t
  | .metaPut t => save MetaPutTask.serializeStart t
  | .metaGet t => save MetaGetTask.serializeStart t
  | .schedule t => save ScheduleTask.serializeStart t

/-- `LoadStart(method, ar)` into the task that `NewEmptyTask` made. -/
def loadStart (ar : List Item) : AnyTask → AnyTask
  | .write t => .write (load WriteTask.serializeStart ar t)
  | .read t => .read (load ReadTask.serializeStart ar t)
  | .metaPut t => .metaPut (load MetaPutTask.serializeStart ar t)
  | .metaGet t => .metaGet (load MetaGetTask.serializeStart ar t)
  | .schedule t => .schedule (load ScheduleTask.serializeStart ar t)

def saveEnd : AnyTask → List Item
  | .write t => save WriteTask.serializeEnd t
  | .read t => save ReadTask.serializeEnd t
  | .metaPut t => save MetaPutTask.serializeEnd t
  | .metaGet t => save MetaGetTask.serializeEnd t
  | .schedule t => save ScheduleTask.serializeEnd t

def loadEnd (ar : List Item) : AnyTask → AnyTask
  | .write t => .write (load WriteTask.serializeEnd ar t)
  | .read t => .read (load ReadTask.serializeEnd ar t)
  | .metaPut t => .metaPut (load MetaPutTask.serializeEnd ar t)
  | .metaGet t => .metaGet (load MetaGetTask.serializeEnd ar t)
  | .schedule t => .schedule (load ScheduleTask.serializeEnd ar t)

/-- `empty` is what `NewEmptyTask` makes for the method of a task: the SHM default constructor
initialises the strings and leaves the other members as they are. -/
inductive NewEmpty : AnyTask → AnyTask → Prop where
  | write {t e : WriteTask} : e.filename = [] → NewEmpty (.write t) (.write e)
  | read {t e : ReadTask} : e.filename = [] → NewEmpty (.read t) (.read e)
  | metaPut {t : MetaPutTask} : NewEmpty (.metaPut t) (.metaPut ⟨[], []⟩)
  | metaGet {t : MetaGetTask} (presence : Bool) :
    NewEmpty (.metaGet t) (.metaGet ⟨[], [], presence⟩)
  | schedule {t e : ScheduleTask} : NewEmpty (.schedule t) (.schedule e)

/-- A task sent to container `c` on another node and back. -/
def runRemotely (c : Nat) (env : Env) (w : World) (empty t : AnyTask) : AnyRun :=
  -- the original task waits on its node and is assigned to on return
  let r := run c env w (loadStart (saveStart t) empty)
  { r with task := loadEnd (saveEnd r.task) t }

/-! ## What arrives -/

/-- The remote `Write` or `Read` task has all fields of the original, and its buffer holds the
first `data_size_` bytes. -/
theorem loadStart_io (t e : IoTask) :
    load WriteTask.serializeStart (save WriteTask.serializeStart t) e =
      { t with data := t.data.take t.dataSize } := rfl

theorem loadStart_metaPut (t e : MetaPutTask) :
    load MetaPutTask.serializeStart (save MetaPutTask.serializeStart t) e = t := rfl

theorem loadStart_metaGet (t e : MetaGetTask) :
    load MetaGetTask.serializeStart (save MetaGetTask.serializeStart t) e =
      { e with key := t.key } := rfl

/-- The bytes the system calls of a `Read` obtain. -/
def obtained (c : Nat) (t : ReadTask) (env : Env) (w : World) : List Byte :=
  match t.iface with
  | .kPosix =>
    let o := openAndSeek w.kernel (pidOf c) (stripScheme t.filename) (oRdwr ||| oCreat) 0o664
      t.dataOffset env.fault
    (o.kernel.read (pidOf c) o.fd t.dataSize env.fault.transfer).2.1
  | .kStdio =>
    let o := openAndSeek w.kernel (pidOf c) (stripScheme t.filename) oRdwr 0 t.dataOffset env.fault
    if o.fd < 0 then []
    else (o.kernel.read (pidOf c) o.fd t.dataSize env.fault.transfer).2.1
  | _ => []

/-- `Server::Read` puts them at the beginning of the buffer and changes nothing else in the
task. -/
theorem serverRead_task (c : Nat) (t : ReadTask) (env : Env) (w : World) :
    (Server.read c t env w).task = { t with data := copyTo t.data (obtained c t env w) } := by
  obtain ⟨data, dataOffset, dataSize, filename, iface⟩ := t
  cases iface with
  | kPosix => rfl
  | kStdio =>
    -- a null `FILE *` obtains nothing
    simp only [Server.read, Server.readStdio, obtained]
    split
    · rw [copyTo_nil]
    · rfl
  | _ => simp only [Server.read, obtained, copyTo_nil]

/-- The state a `Read` leaves does not depend on what was in the buffer. -/
theorem serverRead_data (c : Nat) (t : ReadTask) (data : List Byte) (env : Env) (w : World) :
    (Server.read c { t with data := data } env w).world = (Server.read c t env w).world ∧
    (Server.read c { t with data := data } env w).undefined =
      (Server.read c t env w).undefined := by
  unfold Server.read
  cases t.iface with
  | kPosix => exact ⟨rfl, rfl⟩
  | kStdio =>
    simp only [Server.readStdio]
    split <;> exact ⟨rfl, rfl⟩
  | _ => exact ⟨rfl, rfl⟩

/-- A `Write` looks at the first `data_size_` bytes of the buffer. -/
theorem serverWrite_take (c : Nat) (t : WriteTask) (env : Env) (w : World) :
    (Server.write c { t with data := t.data.take t.dataSize } env w).world =
      (Server.write c t env w).world ∧
    (Server.write c { t with data := t.data.take t.dataSize } env w).undefined =
      (Server.write c t env w).undefined := by
  unfold Server.write
  cases t.iface with
  | kPosix => simp [Server.writePosix, List.take_take]
  | kStdio =>
    simp only [Server.writeStdio, List.take_take, min_self]
    split <;> exact ⟨rfl, rfl⟩
  | _ => exact ⟨rfl, rfl⟩

theorem serverWrite_task (c : Nat) (t : WriteTask) (env : Env) (w : World) :
    (Server.write c t env w).task = t := by
  unfold Server.write
  split
  · rfl
  · unfold Server.writeStdio
    dsimp only
    split <;> rfl
  · rfl

end DTIO.Chimod
