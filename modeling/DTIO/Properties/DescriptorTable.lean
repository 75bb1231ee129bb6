import DTIO.Adapter.System
import DTIO.Chimod.TaskRuns
import Mathlib.Data.Finset.Card

/-!
# The Server's Descriptor Table

Neither `Write` nor `Read` closes what it opened, so a container holds one descriptor more
after every task that opened its file, and one stream more if the interface is `kStdio`.  The
table stays as it is only while nothing can be opened.

## Main definitions

- `KeepsTables`: the open descriptors and streams of every container stay the same
- `OpensNothing`: the server can open no file for the task
- `freeSlots`: how many descriptors a container has left

## Main results

- `tables_iff`: along a run the tables stay the same if and only if no task opens anything
- `freeSlots_final`: every task that opens its file costs one slot for good
- `table_exhausted`: nine writes to one file in a container with eight descriptors
-/

namespace DTIO.Properties.DescriptorTable

open DTIO.Posix DTIO.Chimod DTIO.ByteFile DTIO.MachineInt DTIO.Mealy DTIO.Adapter

/-! ## Definitions -/

/-- The descriptors a container holds open. -/
def openFds (w : World) (c : Nat) : Set Int := {fd | w.kernel.fds (pidOf c) fd ≠ none}

/-- Every container holds the same descriptors and the same streams. -/
structure SameTables (w w' : World) : Prop where
  fds : ∀ c, openFds w' c = openFds w c
  streams : ∀ c, (w'.containers c).streams = (w.containers c).streams

/-- The task is executed without using a null `FILE *`, and the tables stay the same. -/
def KeepsTables (w : World) (i : Dispatch) : Prop :=
  (serve w i).1.undefined = false ∧ SameTables w (serve w i).2

/-- The server can open no file for the task and does not count on it. -/
def OpensNothing (w : World) (i : Dispatch) : Prop :=
  match i.task.io.iface with
  | .kPosix => Server.openingPosix i.container i.task.io i.env w = none
  | .kStdio => False
  | _ => True

/-- The numbers below the limit that are not open in the container. -/
def freeSlots (w : World) (c : Nat) : Nat :=
  ((Finset.range w.kernel.host.fdLimit).filter fun n : Nat => w.kernel.fds (pidOf c) n = none).card

/-- The container of the task can open one more file. -/
def HasSlot (w : World) (i : Dispatch) : Prop := 0 < freeSlots w i.container

/-! ## One task -/

/-- What was opened is a new member of the table. -/
theorem not_sameTables {w : World} {i : Dispatch} {o : Int × Ino × FileSystem}
    (h : i.opening w = some o) : ¬ SameTables w (i.after w o) := by
  intro hsame
  obtain ⟨flags, pos, hk⟩ := i.after_kernel w o
  obtain ⟨-, hfree⟩ := i.opening_fd h
  have hbefore : o.1 ∉ openFds w i.container := by
    simp [openFds, (lowestFree_spec hfree).2]
  apply hbefore
  rw [← hsame.fds i.container]
  show (i.after w o).kernel.fds (pidOf i.container) o.1 ≠ none
  rw [hk]
  simp [opened, written]

/-- **One task** keeps the tables if and only if it opens nothing. -/
theorem keepsTables_iff {w : World} (hneg : w.kernel.NonnegFds) (i : Dispatch) :
    KeepsTables w i ↔ OpensNothing w i := by
  unfold KeepsTables OpensNothing
  cases ho : i.opening w with
  | none =>
    obtain ⟨hundefined, -, hworld⟩ := serve_of_none hneg ho
    have hsame : SameTables w w := ⟨fun _ => rfl, fun _ => rfl⟩
    rw [hundefined, hworld]
    unfold Dispatch.opening at ho
    -- a stream that was not opened is used
    cases hiface : i.task.io.iface with
    | kPosix =>
      rw [hiface] at ho
      simp [hsame, show Server.openingPosix i.container i.task.io i.env w = none from ho]
    | kStdio => simp
    | kHdf5 | kUring | kMulti => simp [hsame]
  | some o =>
    obtain ⟨-, -, hworld⟩ := serve_of_some hneg ho
    rw [hworld]
    refine iff_of_false (fun h => not_sameTables ho h.2) ?_
    rcases i.opening_some ho with ⟨hiface, hsome⟩ | ⟨hiface, -⟩
    · simp [hiface, hsome]
    · simp [hiface]

/-! ## Runs -/

/-- **The descriptor table.**  Along every run of tasks the containers hold the same
descriptors and streams after each task as before it, if and only if no task opens anything;
and then a table that is not full never becomes full. -/
theorem tables_iff {w : World} (hneg : w.kernel.NonnegFds) (is : List Dispatch) :
    (Along serve KeepsTables w is ∧
      ((∀ c, 0 < freeSlots w c) → Along serve HasSlot w is)) ↔ Along serve OpensNothing w is := by
  -- a step keeps the tables just when it opens nothing, and the run follows
  have hiff : Along serve KeepsTables w is ↔ Along serve OpensNothing w is := by
    apply along_iff (I := fun w => w.kernel.NonnegFds)
    · exact fun w i h _ => (serve_kept w i).nonneg h
    · exact fun w i h => keepsTables_iff h i
    · exact hneg
  rw [← hiff]
  -- tables kept: the free slots stay, so one is there before each step
  refine and_iff_left_of_imp fun hkeeps hfree => ?_
  revert hkeeps
  apply Along.mono (I := fun w => ∀ c, 0 < freeSlots w c)
  · rintro w i hw ⟨-, hsame⟩ c
    have hslots : freeSlots (serve w i).2 c = freeSlots w c := by
      unfold freeSlots
      rw [(serve_kept w i).host]
      congr 1
      ext n
      have hn := Set.ext_iff.mp (hsame.fds c) n
      simp only [openFds, Set.mem_ofPred_eq, not_iff_not] at hn
      simp [hn]
    rw [hslots]
    exact hw c
  · exact fun w i hw _ => hw i.container
  · exact hfree

/-- A task that opens something takes one slot of its container. -/
theorem freeSlots_serve {w : World} (hneg : w.kernel.NonnegFds) {i : Dispatch}
    (h : (i.opening w).isSome) :
    freeSlots (serve w i).2 i.container + 1 = freeSlots w i.container := by
  obtain ⟨o, ho⟩ := Option.isSome_iff_exists.mp h
  obtain ⟨-, -, hworld⟩ := serve_of_some hneg ho
  obtain ⟨flags, pos, hk⟩ := i.after_kernel w o
  -- the lowest free descriptor is the one that is gone
  obtain ⟨n, hn, hfd, hnone⟩ := lowestFree_range (i.opening_fd ho).2
  have hafter : ∀ m : Nat, (serve w i).2.kernel.fds (pidOf i.container) m = none ↔
      m ≠ n ∧ w.kernel.fds (pidOf i.container) m = none := by
    intro m
    rw [hworld, hk, opened]
    by_cases hm : m = n
    · subst hm
      simp [written, hfd]
    · have hne : (m : Int) ≠ o.1 := by omega
      rw [setFd_fds_of_ne _ _ _ _ (by exact hne)]
      simp [hm]
  unfold freeSlots
  rw [(serve_kept w i).host]
  -- so the free ones are those of before without it
  have herase : ((Finset.range w.kernel.host.fdLimit).filter fun m : Nat =>
        (serve w i).2.kernel.fds (pidOf i.container) m = none) =
      ((Finset.range w.kernel.host.fdLimit).filter fun m : Nat =>
        w.kernel.fds (pidOf i.container) m = none).erase n := by
    ext m
    simp only [Finset.mem_filter, Finset.mem_erase, hafter]
    tauto
  rw [herase]
  exact Finset.card_erase_add_one (by simp [hn, hnone])

/-- **Every task costs a slot.**  A run of tasks that open their files in one container is no
longer than the number of slots it had. -/
theorem freeSlots_final (c : Nat) {is : List Dispatch} :
    ∀ {w : World}, w.kernel.NonnegFds →
      Along serve (fun w i => i.container = c ∧ (i.opening w).isSome) w is →
      freeSlots (final serve w is) c + is.length = freeSlots w c := by
  induction is with
  | nil => exact fun _ _ => rfl
  | cons i is ih =>
    rintro w hneg ⟨⟨hc, hopen⟩, hrest⟩
    have hlater := ih ((serve_kept w i).nonneg hneg) hrest
    have hstep := freeSlots_serve hneg hopen
    rw [hc] at hstep
    rw [final_cons, List.length_cons]
    omega

/-! ## A table of eight descriptors -/

/-- `Write` of one byte to `/f` through the `kPosix` case of container 0. -/
def writeOne (n : Nat) : Dispatch :=
  ⟨0, .write ⟨[9], n, 1, ['/', 'f'], .kPosix⟩, .calm⟩

/-- `/f` with three bytes, which everyone may read and write, and eight descriptors for each
process. -/
def start : World := (deployment threeBytes openToAll).world

/-- The first write leaves its descriptor open, and the ninth is lost. -/
theorem table_exhausted :
    freeSlots start 0 = 8 ∧
    ¬ Along serve KeepsTables start [writeOne 0] ∧
    (final serve start ((List.range 8).map writeOne)).kernel.fs.file 0 =
      some [9, 9, 9, 9, 9, 9, 9, 9] ∧
    (final serve start ((List.range 9).map writeOne)).kernel.fs.file 0 =
      some [9, 9, 9, 9, 9, 9, 9, 9] ∧
    ¬ HasSlot (final serve start ((List.range 8).map writeOne)) (writeOne 8) := by
  refine ⟨by decide +kernel, ?_, by decide +kernel, by decide +kernel, ?_⟩
  · rintro ⟨⟨-, hsame⟩, -⟩
    have h := Set.ext_iff.mp (hsame.fds 0) 0
    revert h
    unfold openFds
    decide +kernel
  · unfold HasSlot
    decide +kernel

theorem tables_iff_start :
    (Along serve KeepsTables start [writeOne 0] ∧
      ((∀ c, 0 < freeSlots start c) → Along serve HasSlot start [writeOne 0])) ↔
        Along serve OpensNothing start [writeOne 0] :=
  tables_iff ⟨fun _ _ _ => rfl⟩ _

end DTIO.Properties.DescriptorTable
