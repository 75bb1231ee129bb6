import DTIO.Adapter.System
import DTIO.Chimod.LibExec

/-!
# Location Transparency of Tasks

Running a task on a container of another node should leave the caller what running it locally
leaves.  `Write`, `MetaPut` and `Schedule` do.  `ReadTask::SerializeEnd` transfers nothing, so
the bytes a remote `Read` obtained are lost; and a remote `MetaGet` that finds nothing
overwrites `val_` with the empty string of the remote task, which the local one leaves alone.

## Main results

- `transparent_iff`: exactly when remote and local execution agree
-/

namespace DTIO.Properties.LocationTransparency

open DTIO.Posix DTIO.Chimod DTIO.ByteFile DTIO.Adapter

/-- Nothing is lost on the way back: a `Read` obtains what the buffer already holds, and a
`MetaGet` finds its key or has an empty `val_`. -/
def NothingToReturn (c : Nat) (env : Env) (w : World) : AnyTask → Prop
  | .write _ | .metaPut _ | .schedule _ => True
  | .read t => t.data.take (obtained c t env w).length = obtained c t env w
  | .metaGet t => (w.containers c).metamap t.key ≠ none ∨ t.val = []

section

variable (c : Nat) (env : Env) (w : World)

theorem write_transparent (t e : WriteTask) :
    runRemotely c env w (.write e) (.write t) = run c env w (.write t) := by
  obtain ⟨hworld, hundef⟩ := serverWrite_take c t env w
  simp only [runRemotely, run, saveStart, loadStart, saveEnd, loadEnd, loadStart_io, hworld,
    hundef, serverWrite_task]
  rfl

theorem metaPut_transparent (t e : MetaPutTask) :
    runRemotely c env w (.metaPut e) (.metaPut t) = run c env w (.metaPut t) := by
  simp only [runRemotely, run, saveStart, loadStart, saveEnd, loadEnd, loadStart_metaPut]
  rfl

theorem schedule_transparent (t e : ScheduleTask) :
    runRemotely c env w (.schedule e) (.schedule t) = run c env w (.schedule t) := rfl

/-- The remote `Read` leaves the caller's buffer as it was. -/
theorem read_transparent_iff (t e : ReadTask) :
    runRemotely c env w (.read e) (.read t) = run c env w (.read t) ↔
      t.data.take (obtained c t env w).length = obtained c t env w := by
  obtain ⟨hworld, hundef⟩ := serverRead_data c t (t.data.take t.dataSize) env w
  have hremote : runRemotely c env w (.read e) (.read t) =
      ⟨.read t, (Server.read c t env w).world, (Server.read c t env w).undefined⟩ := by
    rw [← hworld, ← hundef]
    rfl
  rw [hremote, ← copyTo_eq_self_iff]
  simp only [run, serverRead_task, AnyRun.mk.injEq, AnyTask.read.injEq, and_true]
  constructor
  · intro h
    exact (congrArg IoTask.data h).symm
  · intro h
    rw [h]

theorem metaGet_transparent_iff (t : MetaGetTask) (presence : Bool) :
    runRemotely c env w (.metaGet ⟨[], [], presence⟩) (.metaGet t) = run c env w (.metaGet t) ↔
      (w.containers c).metamap t.key ≠ none ∨ t.val = [] := by
  have harrived : loadStart (saveStart (.metaGet t)) (.metaGet ⟨[], [], presence⟩) =
      .metaGet ⟨t.key, [], presence⟩ := congrArg AnyTask.metaGet (loadStart_metaGet t _)
  unfold runRemotely
  rw [harrived]
  cases hkey : (w.containers c).metamap t.key with
  | none =>
    simp only [run, Server.metaGet, hkey, ne_eq, not_true_eq_false, false_or]
    constructor
    · intro h
      have htask := AnyTask.metaGet.inj (congrArg AnyRun.task h)
      exact (congrArg MetaGetTask.val htask).symm
    · intro h
      rw [← h]
      rfl
  | some val =>
    simp only [run, Server.metaGet, hkey, ne_eq, reduceCtorEq, not_false_eq_true, true_or, iff_true]
    rfl

/-- **Location transparency.**  For every method, every value of the task's fields, every
state and every outcome of the system calls: remote and local execution leave the same task,
buffer and state if and only if nothing has to be returned that the way back does not carry. -/
theorem transparent_iff (t empty : AnyTask) (hempty : NewEmpty t empty) :
    runRemotely c env w empty t = run c env w t ↔ NothingToReturn c env w t := by
  cases hempty with
  | write => exact iff_of_true (write_transparent c env w _ _) trivial
  | read => exact read_transparent_iff c env w _ _
  | metaPut => exact iff_of_true (metaPut_transparent c env w _ _) trivial
  | metaGet presence => exact metaGet_transparent_iff c env w _ presence
  | schedule => exact iff_of_true (schedule_transparent c env w _ _) trivial

end

/-! ## A remote read -/

/-- Two bytes from the beginning of `/f`. -/
def readTask : ReadTask := ⟨[9, 9], 0, 2, ['/', 'f'], .kPosix⟩

/-- The world of the small deployment, `/f` holding three bytes. -/
def world : World := (deployment threeBytes openToAll).world

/-- Locally the buffer receives the bytes, remotely it keeps what it held. -/
theorem remote_read_returns_nothing :
    (run 0 .calm world (.read readTask)).task = .read { readTask with data := [1, 2] } ∧
    (runRemotely 0 .calm world (.read ⟨[], 0, 0, [], .kStdio⟩) (.read readTask)).task =
      .read readTask ∧
    runRemotely 0 .calm world (.read ⟨[], 0, 0, [], .kStdio⟩) (.read readTask) ≠
      run 0 .calm world (.read readTask) := by
  refine ⟨by decide +kernel, by decide +kernel, fun h => ?_⟩
  exact absurd (congrArg AnyRun.task h) (by decide +kernel)

theorem transparent_iff_readTask :
    runRemotely 0 .calm world (.read ⟨[], 0, 0, [], .kStdio⟩) (.read readTask) =
        run 0 .calm world (.read readTask) ↔
      NothingToReturn 0 .calm world (.read readTask) :=
  transparent_iff 0 .calm world (.read readTask) (.read ⟨[], 0, 0, [], .kStdio⟩) (.read rfl)

end DTIO.Properties.LocationTransparency
