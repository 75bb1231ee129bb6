import DTIO.Chimod.LibExec
import DTIO.Chimod.TaskRuns

/-!
# Monitors and the Runtime

The runtime calls `Monitor` on a task in several phases of its life; the monitors of the two
metadata tasks rewrite where the task goes.  The runtime itself is not part of the sources:
what a query is and which container it names are parameters.

## Main definitions

- `monitor`: the dispatch to the monitors of the methods
- `Runtime`, `step`: tasks that are submitted, placed and executed in any order

## Main results

- `execute_metaPut`, `execute_metaGet`, `execute_metamap`: what executing a task does to the
  metadata, on this node or on another one
-/

namespace DTIO.Chimod

open DTIO.Posix

/-! ## Monitors -/

/-- `MonitorModeId`; `other` stands for the modes without a case. -/
inductive MonitorMode where
  | kSchedule
  | kReplicaAgg
  | other (id : Nat)
  deriving DecidableEq, Repr

/-- The routing fields of a `Task`: its query and the two flags. -/
structure Routing (Q : Type) where
  domQuery : Q
  direct : Bool
  routed : Bool
  deriving DecidableEq, Repr

/-- The queries of the runtime: `GetDirectHash(kGlobalContainers, hash)`, and the container that
a query names. -/
structure Queries (Q : Type) where
  getDirectHash : Nat → Q
  container : Q → Nat

section Monitor

variable {Q : Type} (qs : Queries Q)

/-- `IoRoute`: `SetDirect`, `UnsetRouted`. -/
def ioRoute (_r : Routing Q) : Routing Q := ⟨qs.getDirectHash 0, true, false⟩

/-- The monitor of a metadata task. -/
def monitorMeta (mode : MonitorMode) (r : Routing Q) : Routing Q :=
  match mode with
  -- the case of `kReplicaAgg` has no `break`
  | .kReplicaAgg | .kSchedule => ioRoute qs r
  | .other _ => r

def monitorMetaPut : MonitorMode → Routing Q → Routing Q := monitorMeta qs

def monitorMetaGet : MonitorMode → Routing Q → Routing Q := monitorMeta qs

/-- The other monitors look at the replicas and do nothing. -/
def monitorIdle (_mode : MonitorMode) (r : Routing Q) : Routing Q := r

def monitorWrite : MonitorMode → Routing Q → Routing Q := monitorIdle

def monitorRead : MonitorMode → Routing Q → Routing Q := monitorIdle

def monitorSchedule : MonitorMode → Routing Q → Routing Q := monitorIdle

/-- `Monitor(mode, method, task, rctx)`. -/
def monitor (mode : MonitorMode) : AnyTask → Routing Q → Routing Q
  | .write _ => monitorWrite mode
  | .read _ => monitorRead mode
  | .metaPut _ => monitorMetaPut qs mode
  | .metaGet _ => monitorMetaGet qs mode
  | .schedule _ => monitorSchedule mode

end Monitor

/-! ## Executing a task -/

/-- What the members of a new task hold that its constructor does not initialise. -/
structure Garbage where
  io : IoTask
  presence : Bool
  scheduleNum : Nat

/-- `NewEmptyTask(method)`. -/
def newEmptyTask (g : Garbage) : AnyTask → AnyTask
  | .write _ => .write { g.io with filename := [] }
  | .read _ => .read { g.io with filename := [] }
  | .metaPut _ => .metaPut ⟨[], []⟩
  | .metaGet _ => .metaGet ⟨[], [], g.presence⟩
  | .schedule _ => .schedule ⟨g.scheduleNum⟩

theorem newEmpty_newEmptyTask (g : Garbage) (t : AnyTask) : NewEmpty t (newEmptyTask g t) := by
  cases t with
  | write t => exact .write rfl
  | read t => exact .read rfl
  | metaPut t => exact .metaPut
  | metaGet t => exact .metaGet _
  | schedule t => exact .schedule

/-- A task on container `c`, of this node or of another one. -/
def execute (remote : Option Garbage) (c : Nat) (env : Env) (w : World) (t : AnyTask) : AnyRun :=
  match remote with
  | none => run c env w t
  | some g => runRemotely c env w (newEmptyTask g t) t

section Execute

variable (remote : Option Garbage) (c : Nat) (env : Env) (w : World)

theorem execute_metaPut (t : MetaPutTask) :
    execute remote c env w (.metaPut t) = ⟨.metaPut t, (Server.metaPut c t w).2, false⟩ := by
  cases remote with
  | none => rfl
  | some g => rfl

/-- The answer is what the container has for the key. -/
theorem execute_metaGet (t : MetaGetTask) :
    ∃ val, execute remote c env w (.metaGet t) =
        ⟨.metaGet ⟨t.key, val, ((w.containers c).metamap t.key).isSome⟩, w, false⟩ ∧
      ∀ v, (w.containers c).metamap t.key = some v → val = v := by
  have hget : ∀ t' : MetaGetTask, t'.key = t.key → ∃ val, Server.metaGet c t' w =
      (⟨t.key, val, ((w.containers c).metamap t.key).isSome⟩, w) ∧
      ∀ v, (w.containers c).metamap t.key = some v → val = v := by
    rintro ⟨key, val, presence⟩ hkey
    obtain rfl : key = t.key := hkey
    unfold Server.metaGet
    cases hmap : (w.containers c).metamap t.key with
    | none => exact ⟨val, by simp, by simp⟩
    | some v => exact ⟨v, by simp, by simp⟩
  cases remote with
  | none =>
    obtain ⟨val, heq, hval⟩ := hget t rfl
    refine ⟨val, ?_, hval⟩
    show (⟨.metaGet (Server.metaGet c t w).1, (Server.metaGet c t w).2, false⟩ : AnyRun) = _
    rw [heq]
  | some g =>
    -- the task there has the key; its answer comes back
    obtain ⟨val, heq, hval⟩ := hget ⟨t.key, [], g.presence⟩ rfl
    refine ⟨val, ?_, hval⟩
    show (⟨.metaGet (load MetaGetTask.serializeEnd (save MetaGetTask.serializeEnd
        (Server.metaGet c ⟨t.key, [], g.presence⟩ w).1) t),
        (Server.metaGet c ⟨t.key, [], g.presence⟩ w).2, false⟩ : AnyRun) = _
    rw [heq]
    rfl

/-- The methods of the metadata store. -/
def AnyTask.isMeta : AnyTask → Bool
  | .metaPut _ | .metaGet _ => true
  | _ => false

/-- The other methods leave every `metamap` alone. -/
theorem execute_transfer {t : AnyTask} (h : t.isMeta = false) :
    (execute remote c env w t).task.isMeta = false ∧
    ∀ c', ((execute remote c env w t).world.containers c').metamap =
      (w.containers c').metamap := by
  -- scheduling only changes the counter of its own container
  have hschedule : ∀ t' c', ((Server.schedule c t' w).2.containers c').metamap =
      (w.containers c').metamap := by
    intro t' c'
    by_cases hc : c' = c
    · subst hc
      simp [Server.schedule, World.setContainer]
    · simp [Server.schedule, World.setContainer, hc]
  -- a transfer only changes the kernel and the streams, sent on or not
  cases t with
  | write t =>
    cases remote with
    | none => exact ⟨rfl, fun c' => serve_metamap w ⟨c, .write t, env⟩ c'⟩
    | some g => exact ⟨rfl, fun c' => serve_metamap w ⟨c, .write _, env⟩ c'⟩
  | read t =>
    cases remote with
    | none => exact ⟨rfl, fun c' => serve_metamap w ⟨c, .read t, env⟩ c'⟩
    | some g => exact ⟨rfl, fun c' => serve_metamap w ⟨c, .read _, env⟩ c'⟩
  | schedule t =>
    cases remote with
    | none => exact ⟨rfl, hschedule t⟩
    | some g => exact ⟨rfl, hschedule ⟨g.scheduleNum⟩⟩
  -- the metadata tasks are the ones excluded
  | metaPut t => cases h
  | metaGet t => cases h

end Execute

/-! ## The runtime -/

/-- A submitted task with its routing fields, and the container it was placed on. -/
structure Submitted (Q : Type) where
  task : AnyTask
  routing : Routing Q
  placed : Option Nat

/-- The system, the tasks that were submitted and not executed yet, and the executed ones as
they returned, the last one first. -/
structure Runtime (Q : Type) where
  world : World
  tasks : Nat → Option (Submitted Q)
  log : List AnyTask

namespace Runtime

/-- What can happen next, to the task with a number. -/
inductive Event (Q : Type) where
  | submit (id : Nat) (task : AnyTask) (query : Q)
  | monitor (id : Nat) (mode : MonitorMode)
  | place (id : Nat)
  | execute (id : Nat) (remote : Option Garbage) (env : Env)

section

variable {Q : Type} (qs : Queries Q)

def setTask (s : Runtime Q) (id : Nat) (t : Option (Submitted Q)) : Runtime Q :=
  { s with tasks := Function.update s.tasks id t }

/-- One event; one that cannot happen has no effect. -/
def step (s : Runtime Q) : Event Q → Unit × Runtime Q
  | .submit id task query =>
    match s.tasks id with
    | some _ => ((), s)
    -- with the client's query, neither direct nor routed
    | none => ((), s.setTask id (some ⟨task, ⟨query, false, false⟩, none⟩))
  | .monitor id mode =>
    match s.tasks id with
    | none => ((), s)
    | some t => ((), s.setTask id (some { t with routing := monitor qs mode t.task t.routing }))
  | .place id =>
    match s.tasks id with
    | none => ((), s)
    | some t =>
      -- the task is scheduled and sent where its query names
      let r := monitor qs .kSchedule t.task t.routing
      ((), s.setTask id (some ⟨t.task, { r with routed := true }, some (qs.container r.domQuery)⟩))
  | .execute id remote env =>
    match s.tasks id with
    | none => ((), s)
    | some t =>
      match t.placed with
      | none => ((), s)
      | some c =>
        let r := Chimod.execute remote c env s.world t.task
        ((), ⟨r.world, (s.setTask id none).tasks, r.task :: s.log⟩)

/-- Everything one event can do. -/
theorem step_cases (s : Runtime Q) (e : Event Q) :
    (step qs s e).2 = s ∨
    (∃ id task query, s.tasks id = none ∧
      (step qs s e).2 = s.setTask id (some ⟨task, ⟨query, false, false⟩, none⟩)) ∨
    (∃ id t mode, s.tasks id = some t ∧
      (step qs s e).2 =
        s.setTask id (some { t with routing := monitor qs mode t.task t.routing })) ∨
    (∃ id t, s.tasks id = some t ∧
      (step qs s e).2 = s.setTask id (some ⟨t.task,
        { monitor qs .kSchedule t.task t.routing with routed := true },
        some (qs.container (monitor qs .kSchedule t.task t.routing).domQuery)⟩)) ∨
    (∃ id t c remote env, s.tasks id = some t ∧ t.placed = some c ∧
      (step qs s e).2 = ⟨(execute remote c env s.world t.task).world,
        (s.setTask id none).tasks, (execute remote c env s.world t.task).task :: s.log⟩) := by
  cases e with
  -- a submission of a known id is dropped, a new one is tracked
  | submit id task query =>
    cases h : s.tasks id with
    | some t => exact Or.inl (by simp [step, h])
    | none => exact Or.inr (Or.inl ⟨id, task, query, h, by simp [step, h]⟩)
  -- monitor and place do nothing without a task
  | monitor id mode =>
    cases h : s.tasks id with
    | none => exact Or.inl (by simp [step, h])
    | some t => exact Or.inr (Or.inr (Or.inl ⟨id, t, mode, h, by simp [step, h]⟩))
  | place id =>
    cases h : s.tasks id with
    | none => exact Or.inl (by simp [step, h])
    | some t => exact Or.inr (Or.inr (Or.inr (Or.inl ⟨id, t, h, by simp [step, h]⟩)))
  -- execute needs a task that has been placed
  | execute id remote env =>
    cases h : s.tasks id with
    | none => exact Or.inl (by simp [step, h])
    | some t =>
      cases hc : t.placed with
      | none => exact Or.inl (by simp [step, h, hc])
      | some c =>
        exact Or.inr (Or.inr (Or.inr (Or.inr
          ⟨id, t, c, remote, env, h, hc, by simp [step, h, hc]⟩)))

end

end Runtime

end DTIO.Chimod
