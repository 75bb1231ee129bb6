import DTIO.Chimod.Monitor
import DTIO.Foundation.Mealy

/-!
# Monitors of Executed Tasks

A task is routed, executed and aggregated.  The runtime calls `Monitor` on it with the mode
`kSchedule` before it is executed, and with other modes at any time; a task that is marked as
unrouted is sent to the container that its query names.  In the monitors of the two metadata
tasks the case of `kReplicaAgg` runs on into that of `kSchedule`, which marks the task as unrouted.

## Main definitions

- `step`: what the runtime does with the tasks
- `Lawful`: a callback in another mode changes nothing, and an executed task is not sent again
- `Spares`: `kReplicaAgg` meets no metadata task that a new routing would change

## Main results

- `lawful_iff`: along every run
- `executed_sent_again`: one replica, and a task that is sent twice
-/

namespace DTIO.Properties.RoutedOnce

open DTIO.Posix DTIO.Chimod DTIO.Mealy

/-! ## The life of a task -/

/-- How far a task is.  One that is waiting is routed or not by its flag. -/
inductive Progress where
  | waiting
  | executed
  | aggregated
  deriving DecidableEq, Repr

/-- A task with its routing fields, and the containers that it was sent to, the last one first. -/
structure Tracked (Q : Type) where
  task : AnyTask
  routing : Routing Q
  progress : Progress
  sent : List Nat
  deriving DecidableEq

/-- The tasks by their numbers. -/
abbrev Tasks (Q : Type) := Nat → Option (Tracked Q)

/-- What can happen next, to the task with a number.  `replicas` are those of the context of a
callback. -/
inductive Event (Q : Type) where
  | submit (id : Nat) (task : AnyTask) (query : Q)
  | monitor (id : Nat) (mode : MonitorMode) (replicas : List AnyTask)
  | route (id : Nat)
  | execute (id : Nat)
  | aggregate (id : Nat)

/-- A callback is possible: in the mode `kSchedule` before the execution, otherwise always. -/
def Callable (mode : MonitorMode) (p : Progress) : Prop := mode = .kSchedule → p = .waiting

instance instDecidableCallable (mode : MonitorMode) (p : Progress) : Decidable (Callable mode p) :=
  inferInstanceAs (Decidable (_ → _))

section Step

variable {Q : Type} (qs : Queries Q)

/-- What becomes of the task that an event is about; nothing changes if it cannot happen. -/
def advance (t : Tracked Q) : Event Q → Tracked Q
  | .submit .. => t
  | .monitor _ mode _ =>
    -- the monitors look at the replicas and do nothing with them
    if Callable mode t.progress then { t with routing := monitor qs mode t.task t.routing } else t
  | .route _ =>
    if t.routing.routed then t
    else { t with
      routing := { t.routing with routed := true }
      sent := qs.container t.routing.domQuery :: t.sent }
  | .execute _ =>
    if t.progress = .waiting ∧ t.routing.routed = true then { t with progress := .executed } else t
  | .aggregate _ => if t.progress = .executed then { t with progress := .aggregated } else t

/-- The task that an event is about. -/
def Event.id : Event Q → Nat
  | .submit id .. => id
  | .monitor id .. => id
  | .route id => id
  | .execute id => id
  | .aggregate id => id

/-- The new task of a submission, with the client's query, neither direct nor routed. -/
def submitted : Event Q → Option (Tracked Q)
  | .submit _ task query => some ⟨task, ⟨query, false, false⟩, .waiting, []⟩
  | _ => none

/-- One event. -/
def step (s : Tasks Q) (e : Event Q) : Unit × Tasks Q :=
  match s e.id with
  | none => ((), Function.update s e.id (submitted e))
  | some t => ((), Function.update s e.id (some (advance qs t e)))

theorem step_of_some {s : Tasks Q} {e : Event Q} {t : Tracked Q} (h : s e.id = some t) :
    (step qs s e).2 = Function.update s e.id (some (advance qs t e)) := by
  simp [step, h]

theorem step_of_none {s : Tasks Q} {e : Event Q} (h : s e.id = none) :
    (step qs s e).2 = Function.update s e.id (submitted e) := by
  simp [step, h]

/-- A task that is there stays, and is advanced if the event is about it. -/
theorem step_tracked {s : Tasks Q} {id : Nat} {t : Tracked Q} (h : s id = some t) (e : Event Q) :
    (step qs s e).2 id = some (if e.id = id then advance qs t e else t) := by
  by_cases hid : e.id = id
  · subst hid
    rw [step_of_some qs h, Function.update_self, if_pos rfl]
  · rw [if_neg hid]
    have hne : id ≠ e.id := fun heq => hid heq.symm
    cases hs : s e.id with
    | none => rw [step_of_none qs hs, Function.update_of_ne hne, h]
    | some t' => rw [step_of_some qs hs, Function.update_of_ne hne, h]

/-- Where a task comes from. -/
theorem step_cases {s : Tasks Q} {e : Event Q} {id : Nat} {t' : Tracked Q}
    (h : (step qs s e).2 id = some t') :
    (∃ t, s id = some t ∧ t' = if e.id = id then advance qs t e else t) ∨
      (s id = none ∧ t'.progress = .waiting) := by
  cases hs : s id with
  | some t =>
    rw [step_tracked qs hs e] at h
    exact Or.inl ⟨t, rfl, (Option.some.inj h).symm⟩
  -- a task that was not there: only its own submission makes it
  | none =>
    refine Or.inr ⟨rfl, ?_⟩
    by_cases hid : e.id = id
    · subst hid
      rw [step_of_none qs hs, Function.update_self] at h
      cases e with
      | submit id task query =>
        obtain rfl := Option.some.inj h
        rfl
      | monitor | route | execute | aggregate => cases h
    -- another id: the step leaves it untracked
    · have hne : id ≠ e.id := fun heq => hid heq.symm
      cases hs' : s e.id with
      | none =>
        rw [step_of_none qs hs', Function.update_of_ne hne, hs] at h
        cases h
      | some t =>
        rw [step_of_some qs hs', Function.update_of_ne hne, hs] at h
        cases h

/-! ## The law -/

/-- Every task that was executed is marked as routed. -/
def Settled (s : Tasks Q) : Prop :=
  ∀ id t, s id = some t → t.progress ≠ .waiting → t.routing.routed = true

/-- Callbacks in other modes than `kSchedule` change no routing field, executed tasks are marked
as routed afterwards, and those that were executed before are not sent. -/
structure Lawful (s : Tasks Q) (e : Event Q) : Prop where
  callbacks : ∀ id mode replicas t, e = .monitor id mode replicas → mode ≠ .kSchedule →
    s id = some t → ∃ t', (step qs s e).2 id = some t' ∧ t'.routing = t.routing
  settled : Settled (step qs s e).2
  notSent : ∀ id t, s id = some t → t.progress ≠ .waiting →
    ∃ t', (step qs s e).2 id = some t' ∧ t'.sent = t.sent

/-- No callback with `kReplicaAgg` is about a metadata task whose fields are other than those that
`IoRoute` sets: in particular about none that was routed. -/
def Spares (s : Tasks Q) (e : Event Q) : Prop :=
  ∀ id replicas t, e = .monitor id .kReplicaAgg replicas → s id = some t → t.task.isMeta = true →
    t.routing = ioRoute qs t.routing

/-- In a mode other than `kSchedule` a spared task keeps its fields. -/
theorem monitor_of_spares {mode : MonitorMode} (hmode : mode ≠ .kSchedule) {task : AnyTask}
    {r : Routing Q} (h : mode = .kReplicaAgg → task.isMeta = true → r = ioRoute qs r) :
    monitor qs mode task r = r := by
  cases mode with
  | kSchedule => exact absurd rfl hmode
  | other id =>
    cases task with
    | write | read | metaPut | metaGet | schedule => rfl
  | kReplicaAgg =>
    cases task with
    | write | read | schedule => rfl
    | metaPut | metaGet => exact (h rfl rfl).symm

/-- `kReplicaAgg` on a metadata task sets the fields as `kSchedule` does. -/
theorem monitor_replicaAgg {task : AnyTask} (hmeta : task.isMeta = true) (r : Routing Q) :
    monitor qs .kReplicaAgg task r = ioRoute qs r := by
  cases task with
  | write | read | schedule => cases hmeta
  | metaPut | metaGet => rfl

variable {s : Tasks Q} {e : Event Q}

/-- An event that spares the tasks leaves an executed one routed, and does not send it. -/
theorem advance_executed {t : Tracked Q} (hsettled : t.routing.routed = true)
    (hspares : ∀ replicas, e = .monitor e.id .kReplicaAgg replicas → t.task.isMeta = true →
      t.routing = ioRoute qs t.routing) (hdone : t.progress ≠ .waiting) :
    (advance qs t e).routing = t.routing ∧ (advance qs t e).sent = t.sent := by
  cases e with
  | submit id task query => exact ⟨rfl, rfl⟩
  | monitor id mode replicas =>
    -- `kSchedule` is only called on tasks that wait, and this one does not
    by_cases hcall : Callable mode t.progress
    · have hmode : mode ≠ .kSchedule := fun heq => hdone (hcall heq)
      have hkept : monitor qs mode t.task t.routing = t.routing := by
        refine monitor_of_spares qs hmode fun heq hmeta => ?_
        subst heq
        exact hspares replicas rfl hmeta
      simp only [advance, if_pos hcall, hkept]
      exact ⟨trivial, trivial⟩
    · simp only [advance, if_neg hcall]
      exact ⟨trivial, trivial⟩
  | route id =>
    simp only [advance, if_pos hsettled]
    exact ⟨trivial, trivial⟩
  | execute id =>
    have hno : ¬ (t.progress = .waiting ∧ t.routing.routed = true) := fun h => hdone h.1
    simp only [advance, if_neg hno]
    exact ⟨trivial, trivial⟩
  | aggregate id =>
    simp only [advance]
    split
    · exact ⟨rfl, rfl⟩
    · exact ⟨rfl, rfl⟩

/-- A task is executed only when it is marked as routed. -/
theorem advance_progress {t : Tracked Q} (hwaiting : t.progress = .waiting)
    (hdone : (advance qs t e).progress ≠ .waiting) : (advance qs t e).routing.routed = true := by
  cases e with
  -- a submission changes no task that is there
  | submit id task query => exact absurd hwaiting hdone
  -- monitoring and routing leave the progress
  | monitor id mode replicas =>
    refine absurd ?_ hdone
    simp only [advance]
    split
    · exact hwaiting
    · exact hwaiting
  | route id =>
    refine absurd ?_ hdone
    simp only [advance]
    split
    · exact hwaiting
    · exact hwaiting
  | execute id =>
    -- executing moves a waiting task only when it is routed
    by_cases hrouted : t.progress = .waiting ∧ t.routing.routed = true
    · simp only [advance, if_pos hrouted]
      exact hrouted.2
    · simp only [advance, if_neg hrouted] at hdone
      exact absurd hwaiting hdone
  | aggregate id =>
    -- aggregating asks for an executed task
    have hno : ¬ t.progress = .executed := by simp [hwaiting]
    simp only [advance, if_neg hno] at hdone
    exact absurd hwaiting hdone

/-- One event on tasks of which the executed ones are marked as routed. -/
theorem lawful_iff_spares (hs : Settled s) : Lawful qs s e ↔ Spares qs s e := by
  constructor
  · rintro h id replicas t rfl ht hmeta
    obtain ⟨t', ht', hrouting⟩ := h.callbacks id .kReplicaAgg replicas t rfl (by simp) ht
    -- the callback sets the fields of a new routing, and the law says that it sets nothing
    have hcall : Callable .kReplicaAgg t.progress := nofun
    have hstep := step_tracked qs ht (.monitor id .kReplicaAgg replicas)
    simp only [Event.id, if_true, advance, if_pos hcall, monitor_replicaAgg qs hmeta] at hstep
    obtain rfl := Option.some.inj (hstep.symm.trans ht')
    exact hrouting.symm
  · intro hspares
    have hexecuted : ∀ id t, s id = some t → t.progress ≠ .waiting → e.id = id →
        (advance qs t e).routing = t.routing ∧ (advance qs t e).sent = t.sent := by
      rintro id t ht hdone rfl
      exact advance_executed qs (hs _ t ht hdone)
        (fun replicas heq hmeta => hspares _ replicas t heq ht hmeta) hdone
    constructor
    · rintro id mode replicas t rfl hmode ht
      refine ⟨_, step_tracked qs ht _, ?_⟩
      have hcall : Callable mode t.progress := fun heq => absurd heq hmode
      have hkept : monitor qs mode t.task t.routing = t.routing := by
        refine monitor_of_spares qs hmode fun heq hmeta => ?_
        subst heq
        exact hspares id replicas t rfl ht hmeta
      simp only [Event.id, if_true, advance, if_pos hcall, hkept]
    · intro id t' ht' hdone
      rcases step_cases qs ht' with ⟨t, ht, rfl⟩ | ⟨-, hwaiting⟩
      · by_cases hid : e.id = id
        · rw [if_pos hid] at hdone ⊢
          by_cases hwaiting : t.progress = .waiting
          · exact advance_progress qs hwaiting hdone
          · rw [(hexecuted id t ht hwaiting hid).1]
            exact hs id t ht hwaiting
        · rw [if_neg hid] at hdone ⊢
          exact hs id t ht hdone
      · exact absurd hwaiting hdone
    · intro id t ht hdone
      refine ⟨_, step_tracked qs ht e, ?_⟩
      by_cases hid : e.id = id
      · rw [if_pos hid]
        exact (hexecuted id t ht hdone hid).2
      · rw [if_neg hid]

end Step

/-! ## Runs -/

/-- No tasks. -/
def noTasks {Q : Type} : Tasks Q := fun _ => none

/-- **Monitoring and routing.**  Along every run of submissions, callbacks, routings, executions
and aggregations, in any order and for any number of tasks: only callbacks with `kSchedule` change
the routing fields, and executed tasks stay routed and are not sent again, if and only if no
callback with `kReplicaAgg` meets a metadata task whose fields are other than those of a new
routing. -/
theorem lawful_iff {Q : Type} (qs : Queries Q) (es : List (Event Q)) :
    Along (step qs) (Lawful qs) noTasks es ↔ Along (step qs) (Spares qs) noTasks es := by
  have hstart : Settled (noTasks : Tasks Q) := by
    intro id t ht
    cases ht
  refine along_iff (I := Settled) ?_ ?_ hstart
  · intro s e _ h
    exact h.settled
  · intro s e hs
    exact lawful_iff_spares qs hs

/-! ## One replica -/

/-- Queries are numbers, and name the container with their number. -/
def numbered : Queries Nat := ⟨id, id⟩

/-- A `MetaPut` that is scheduled, sent and executed, and then aggregated over its replica. -/
def aggregatedPut : List (Event Nat) :=
  [.submit 0 (.metaPut ⟨['k'], ['v']⟩) 3, .monitor 0 .kSchedule [], .route 0, .execute 0,
    .monitor 0 .kReplicaAgg [.metaPut ⟨['k'], ['v']⟩]]

/-- The callback marks the executed task as unrouted, and it is sent a second time. -/
theorem executed_sent_again :
    (∃ t, final (step numbered) noTasks aggregatedPut 0 = some t ∧ t.progress = .executed ∧
      t.routing.routed = false) ∧
    (∃ t, final (step numbered) noTasks (aggregatedPut ++ [.route 0]) 0 = some t ∧
      t.progress = .executed ∧ t.sent = [0, 0]) ∧
    ¬ Along (step numbered) (Lawful numbered) noTasks aggregatedPut := by
  refine ⟨⟨_, rfl, rfl, rfl⟩, ⟨_, rfl, rfl, rfl⟩, ?_⟩
  rintro ⟨-, -, -, -, hlast, -⟩
  have hrouted := hlast.settled 0 _ rfl nofun
  cases hrouted

end DTIO.Properties.RoutedOnce
