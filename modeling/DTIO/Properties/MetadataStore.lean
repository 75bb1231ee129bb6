import DTIO.Adapter.System
import DTIO.Chimod.Monitor

/-!
# The Metadata Store

Every container has a `metamap` of its own.  The monitors send both metadata tasks to the
container of hash 0, whatever query the client gave, so that all of them meet in one map and a
`MetaGet` answers with the last `MetaPut` of its key.

## Main definitions

- `LastPut`: the last value that was put for a key
- `Inv`: placed metadata tasks are on one container, whose map is the history of puts

## Main results

- `metadata_consistent`: every answer of every run
-/

namespace DTIO.Properties.MetadataStore

open DTIO.Posix DTIO.Chimod DTIO.Mealy DTIO.Adapter

/-! ## Histories

A history lists the executed tasks, the last one first. -/

/-- `v` was put for `key`, and nothing was put for it later. -/
def LastPut (log : List AnyTask) (key v : List Char) : Prop :=
  ∃ newer older, log = newer ++ .metaPut ⟨key, v⟩ :: older ∧ ∀ v', .metaPut ⟨key, v'⟩ ∉ newer

/-- The value that was put last. -/
def lastVal (key : List Char) : List AnyTask → Option (List Char)
  | [] => none
  | .metaPut t :: older => if t.key = key then some t.val else lastVal key older
  | _ :: older => lastVal key older

/-- Every `MetaGet` of the history answered with the value that was put last. -/
def Answered : List AnyTask → Prop
  | [] => True
  | .metaGet t :: older =>
    (t.presence = (lastVal t.key older).isSome ∧ ∀ v, lastVal t.key older = some v → t.val = v) ∧
      Answered older
  | _ :: older => Answered older

theorem lastVal_cons_of_not_put {key : List Char} {t : AnyTask} {older : List AnyTask}
    (h : ∀ v, t ≠ .metaPut ⟨key, v⟩) : lastVal key (t :: older) = lastVal key older := by
  cases t with
  | metaPut t =>
    have hne : t.key ≠ key := by
      rintro rfl
      exact h t.val rfl
    exact if_neg hne
  | write t | read t | metaGet t | schedule t => rfl

theorem lastVal_eq_none_iff {key : List Char} {log : List AnyTask} :
    lastVal key log = none ↔ ∀ v, .metaPut ⟨key, v⟩ ∉ log := by
  induction log with
  | nil => simp [lastVal]
  | cons t older ih =>
    by_cases h : ∃ v, t = .metaPut ⟨key, v⟩
    · obtain ⟨v, rfl⟩ := h
      simp only [lastVal, if_true, reduceCtorEq, List.mem_cons, not_or, false_iff, not_forall]
      exact ⟨v, fun hv => hv.1 rfl⟩
    · rw [not_exists] at h
      rw [lastVal_cons_of_not_put h, ih]
      simp [Ne.symm (h _)]

theorem lastVal_eq_some_iff {key v : List Char} {log : List AnyTask} :
    lastVal key log = some v ↔ LastPut log key v := by
  induction log with
  | nil => simp [lastVal, LastPut]
  | cons t older ih =>
    by_cases h : ∃ v', t = .metaPut ⟨key, v'⟩
    · obtain ⟨v', rfl⟩ := h
      simp only [lastVal, if_true, Option.some.injEq]
      constructor
      · rintro rfl
        exact ⟨[], older, rfl, by simp⟩
      · rintro ⟨newer, older', heq, hnewer⟩
        cases newer with
        | nil =>
          simp only [List.nil_append, List.cons.injEq, AnyTask.metaPut.injEq,
            MetaPutTask.mk.injEq, true_and] at heq
          exact heq.1
        | cons t' newer =>
          -- a later put for the key would be newer
          obtain ⟨rfl, -⟩ := List.cons.inj heq
          exact absurd (List.mem_cons_self ..) (hnewer v')
    · rw [not_exists] at h
      rw [lastVal_cons_of_not_put h, ih]
      constructor
      · rintro ⟨newer, older', rfl, hnewer⟩
        refine ⟨t :: newer, older', rfl, fun v' hv' => ?_⟩
        rcases List.mem_cons.mp hv' with heq | hmem
        · exact h v' heq.symm
        · exact hnewer v' hmem
      · rintro ⟨newer, older', heq, hnewer⟩
        cases newer with
        | nil => exact absurd (List.cons.inj heq).1 (h v)
        | cons t' newer =>
          obtain ⟨-, rfl⟩ := List.cons.inj heq
          exact ⟨newer, older', rfl, fun v' hv' => hnewer v' (List.mem_cons_of_mem _ hv')⟩

/-- Every answer in the middle of an answered history. -/
theorem Answered.at {newer older : List AnyTask} {t : MetaGetTask}
    (h : Answered (newer ++ .metaGet t :: older)) :
    t.presence = (lastVal t.key older).isSome ∧ ∀ v, lastVal t.key older = some v → t.val = v := by
  induction newer with
  | nil => exact h.1
  | cons t' newer ih =>
    cases t' with
    | metaGet t' => exact ih h.2
    | write t' | read t' | metaPut t' | schedule t' => exact ih h

/-! ## Runs -/

section Runs

variable {Q : Type} {qs : Queries Q}

/-- The container of hash 0. -/
def home (qs : Queries Q) : Nat := qs.container (qs.getDirectHash 0)

/-- Placed metadata tasks are on the container of hash 0, whose map holds the last values that
were put; and all answers so far were right. -/
structure Inv (qs : Queries Q) (s : Runtime Q) : Prop where
  placed : ∀ id t c, s.tasks id = some t → t.placed = some c → t.task.isMeta = true → c = home qs
  stored : ∀ key, (s.world.containers (home qs)).metamap key = lastVal key s.log
  answered : Answered s.log

/-- No task was submitted, and every map is empty. -/
structure Initial (s : Runtime Q) : Prop where
  tasks : ∀ id, s.tasks id = none
  metamap : ∀ c key, (s.world.containers c).metamap key = none
  log : s.log = []

theorem Inv.initial {s : Runtime Q} (h : Initial s) : Inv qs s where
  placed := by
    intro id t c ht
    rw [h.tasks] at ht
    cases ht
  stored := by
    intro key
    rw [h.metamap, h.log]
    rfl
  answered := by
    rw [h.log]
    trivial

/-- Submitting, monitoring and placing change one task. -/
theorem Inv.setTask {s : Runtime Q} (h : Inv qs s) (id : Nat) {new : Submitted Q}
    (hnew : ∀ c, new.placed = some c → new.task.isMeta = true → c = home qs) :
    Inv qs (s.setTask id (some new)) where
  placed := by
    intro id' t c ht
    by_cases hid : id' = id
    · subst hid
      obtain rfl : new = t := by simpa [Runtime.setTask] using ht
      exact hnew c
    · exact h.placed id' t c (by simpa [Runtime.setTask, hid] using ht)
  stored := h.stored
  answered := h.answered

/-- The monitors send every metadata task to the same container. -/
theorem monitor_kSchedule {t : AnyTask} (h : t.isMeta = true) (r : Routing Q) :
    monitor qs .kSchedule t r = ioRoute qs r := by
  cases t with
  | metaPut t => rfl
  | metaGet t => rfl
  | write t | read t | schedule t => cases h

/-- **Execution** of a placed task keeps the map and the history together. -/
theorem Inv.execute {s : Runtime Q} (h : Inv qs s) {id : Nat} {t : Submitted Q} {c : Nat}
    (ht : s.tasks id = some t) (hc : t.placed = some c) (remote : Option Garbage) (env : Env) :
    Inv qs ⟨(execute remote c env s.world t.task).world, (s.setTask id none).tasks,
      (execute remote c env s.world t.task).task :: s.log⟩ := by
  have hplaced : ∀ id' t' c', (s.setTask id none).tasks id' = some t' → t'.placed = some c' →
      t'.task.isMeta = true → c' = home qs := by
    intro id' t' c' ht'
    by_cases hid : id' = id
    · subst hid
      simp [Runtime.setTask] at ht'
    · exact h.placed id' t' c' (by simpa [Runtime.setTask, hid] using ht')
  cases hmeta : t.task.isMeta with
  | false =>
    -- a task that is not about metadata leaves the map, and answers nothing
    obtain ⟨htask, hmap⟩ := execute_transfer remote c env s.world hmeta
    refine ⟨hplaced, fun key => ?_, ?_⟩
    · rw [lastVal_cons_of_not_put, hmap]
      · exact h.stored key
      · intro v hv
        rw [hv] at htask
        cases htask
    · cases hr : (Chimod.execute remote c env s.world t.task).task with
      | metaPut p =>
        rw [hr] at htask
        cases htask
      | metaGet g =>
        rw [hr] at htask
        cases htask
      | write t' | read t' | schedule t' => exact h.answered
  | true =>
    -- tasks about metadata are all executed in one container
    have hhome := h.placed id t c ht hc hmeta
    subst hhome
    cases htask : t.task with
    | metaPut p =>
      rw [execute_metaPut]
      refine ⟨hplaced, fun key => ?_, h.answered⟩
      have hstored := h.stored key
      simp only [Server.metaPut, World.setContainer, Function.update_self, lastVal]
      by_cases hkey : p.key = key
      · rw [if_pos hkey, ← hkey, Function.update_self]
      · rw [if_neg hkey, Function.update_of_ne (Ne.symm hkey)]
        exact hstored
    | metaGet g =>
      obtain ⟨val, heq, hval⟩ := execute_metaGet remote (home qs) env s.world g
      rw [heq]
      refine ⟨hplaced, h.stored, ⟨?_, ?_⟩, h.answered⟩
      · rw [h.stored]
      · intro v hv
        exact hval v ((h.stored g.key).trans hv)
    | write t' | read t' | schedule t' =>
      rw [htask] at hmeta
      cases hmeta

/-- **One event** keeps the invariant. -/
theorem Inv.step {s : Runtime Q} (h : Inv qs s) (e : Runtime.Event Q) :
    Inv qs (Runtime.step qs s e).2 := by
  rcases Runtime.step_cases qs s e with heq | ⟨id, task, query, -, heq⟩ |
    ⟨id, t, mode, ht, heq⟩ | ⟨id, t, ht, heq⟩ | ⟨id, t, c, remote, env, ht, hc, heq⟩
  · rw [heq]
    exact h
  · -- a new task is not placed
    rw [heq]
    apply h.setTask
    intro c hc
    cases hc
  · -- a monitor leaves a placed task where it is
    rw [heq]
    apply h.setTask
    intro c hc hmeta
    exact h.placed id t c ht hc hmeta
  · rw [heq]
    apply h.setTask
    intro c hc hmeta
    rw [monitor_kSchedule hmeta] at hc
    exact (Option.some.inj hc).symm
  · rw [heq]
    exact h.execute ht hc remote env

theorem run_inv (es : List (Runtime.Event Q)) :
    ∀ {s : Runtime Q}, Inv qs s → Inv qs (final (Runtime.step qs) s es) := by
  induction es with
  | nil => exact fun h => h
  | cons e es ih => exact fun h => ih (h.step e)

/-- **The metadata store.**  In every run, with any queries and any number of containers, a
`MetaGet` that was executed found `v` if and only if `v` was put last for its key before, and
found nothing if and only if nothing was put for its key before. -/
theorem metadata_consistent {s : Runtime Q} (h : Initial s) (es : List (Runtime.Event Q))
    {newer older : List AnyTask} {t : MetaGetTask}
    (hlog : (final (Runtime.step qs) s es).log = newer ++ .metaGet t :: older) :
    (∀ v, (t.presence = true ∧ t.val = v) ↔ LastPut older t.key v) ∧
    (t.presence = false ↔ ∀ v, .metaPut ⟨t.key, v⟩ ∉ older) := by
  have hanswered := (run_inv es (Inv.initial h : Inv qs s)).answered
  rw [hlog] at hanswered
  obtain ⟨hpresence, hval⟩ := hanswered.at
  constructor
  · intro v
    rw [← lastVal_eq_some_iff, hpresence, Option.isSome_iff_exists]
    constructor
    · rintro ⟨⟨v', hv'⟩, rfl⟩
      rw [hv', hval v' hv']
    · intro hv
      exact ⟨⟨v, hv⟩, hval v hv⟩
  · rw [← lastVal_eq_none_iff, hpresence, Option.isSome_eq_false_iff, Option.isNone_iff_eq_none]

end Runs

/-! ## Two clients with different queries -/

/-- Queries are numbers and name the container with that number. -/
def numbered : Queries Nat := ⟨id, id⟩

/-- The deployment with nothing submitted. -/
def idle : Runtime Nat := ⟨(deployment threeBytes openToAll).world, fun _ => none, []⟩

/-- Two puts of one key and a get, for three different containers; the second put is executed
first. -/
def threeTasks : List (Runtime.Event Nat) :=
  [.submit 0 (.metaPut ⟨['k'], ['a']⟩) 3, .submit 1 (.metaPut ⟨['k'], ['b']⟩) 5,
    .submit 2 (.metaGet ⟨['k'], [], false⟩) 7, .place 1, .place 0, .place 2,
    .execute 1 none .calm, .execute 0 none .calm, .execute 2 none .calm]

theorem metadata_consistent_threeTasks :
    (∀ v, (true = true ∧ ['a'] = v) ↔
      LastPut [.metaPut ⟨['k'], ['a']⟩, .metaPut ⟨['k'], ['b']⟩] ['k'] v) ∧
    (true = false ↔ ∀ v, AnyTask.metaPut ⟨['k'], v⟩ ∉
      [.metaPut ⟨['k'], ['a']⟩, .metaPut ⟨['k'], ['b']⟩]) :=
  metadata_consistent ⟨fun _ => rfl, fun _ _ => rfl, rfl⟩ threeTasks
    (show (final (Runtime.step numbered) idle threeTasks).log =
      [] ++ .metaGet ⟨['k'], ['a'], true⟩ :: [.metaPut ⟨['k'], ['a']⟩, .metaPut ⟨['k'], ['b']⟩]
      from rfl)

end DTIO.Properties.MetadataStore
