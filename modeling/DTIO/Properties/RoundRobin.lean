import DTIO.Adapter.System
import DTIO.Chimod.TaskRuns
import Mathlib.Data.Int.CardIntervalMod
import Mathlib.Data.List.Count

/-!
# Round-Robin Scheduling

Every call of `Client::Write` or `Client::Read` draws a number from the counter of container 0
and sends its task to the container that the number selects.  The counter is a `size_t`, the
client keeps it as an `int`, and the query takes it as a 32-bit hash: after `2^32` calls the
numbers begin again, wherever the round through the containers stands.

## Main definitions

- `step`: the draws and sends of any number of clients, in any order
- `Fair`: no number is used twice, and no container gets two tasks more than another

## Main results

- `run_inv`: numbers and containers after any run
- `round_robin_iff`: a run is fair if and only if it has at most `2^32` calls
- `round_robin_wraps`: one call more
-/

namespace DTIO.Properties.RoundRobin

open DTIO.Posix DTIO.Chimod DTIO.ByteFile DTIO.MachineInt DTIO.Mealy DTIO.Adapter

/-! ## Clients and their calls -/

variable {Cl : Type} [DecidableEq Cl]

/-- The system, the calls that drew a number and did not send their task yet, all numbers drawn
so far, and the containers that tasks were sent to. -/
structure Clients (Cl : Type) where
  world : World
  inFlight : List (Cl × Int)
  numbers : List Int
  sent : List Nat

/-- The two steps of an I/O call: `Schedule`, then the task. -/
inductive Event (Cl : Type) where
  | draw (cl : Cl)
  | send (cl : Cl) (task : ServerTask) (env : Env)

/-- The number that a client holds. -/
def Clients.held (d : Clients Cl) (cl : Cl) : Option (Cl × Int) :=
  d.inFlight.find? fun call => call.1 = cl

/-- One step of some client. -/
def step (d : Clients Cl) : Event Cl → Unit × Clients Cl
  | .draw cl =>
    let snum := Client.schedule d.world
    ((), ⟨snum.2, (cl, snum.1) :: d.inFlight, d.numbers ++ [snum.1], d.sent⟩)
  | .send cl task env =>
    match d.held cl with
    | none => ((), d)
    | some call =>
      let c := Client.getDirectHash d.world call.2
      ((), ⟨(serve d.world ⟨c, task, env⟩).2, d.inFlight.erase call, d.numbers, d.sent ++ [c]⟩)

/-- The event begins a call. -/
def Event.isDraw : Event Cl → Bool
  | .draw _ => true
  | .send .. => false

/-- The containers of all calls begun so far, in the order of their numbers. -/
def Clients.assigned (d : Clients Cl) : List Nat :=
  d.numbers.map (Client.getDirectHash d.world)

/-- No container below `N` occurs two times more often than another. -/
def Balanced (N : Nat) (l : List Nat) : Prop :=
  ∀ c c', c < N → c' < N → l.count c ≤ l.count c' + 1

/-- The numbers of the run are different; after every prefix the calls it began are spread
evenly over the containers, and so are the tasks it sent when no call is half done. -/
def Fair (N : Nat) (d : Clients Cl) (is : List (Event Cl)) : Prop :=
  (final step d is).numbers.Nodup ∧
  ∀ pre, pre <+: is → Balanced N (final step d pre).assigned ∧
    ((final step d pre).inFlight = [] → Balanced N (final step d pre).sent)

/-- No call was made, and the runtime selects the container `hash mod N`. -/
structure Initial (N : Nat) (d : Clients Cl) : Prop where
  pos : 0 < N
  select : d.world.select = (· % N)
  counter : (d.world.containers 0).scheduleNum = 0
  inFlight : d.inFlight = []
  numbers : d.numbers = []
  sent : d.sent = []

/-! ## The chain of conversions -/

/-- The `int` that the `k`th call keeps. -/
def number (k : Nat) : Int := toSigned32 (toUnsigned64 k)

/-- Only the low 32 bits reach the query. -/
theorem toUnsigned32_number (k : Nat) : toUnsigned32 (number k) = k % 4294967296 := by
  have hmod : number k % 4294967296 = (toUnsigned64 k : Int) % 4294967296 := by
    unfold number toSigned32
    exact Int.bmod_emod
  unfold toUnsigned32
  rw [hmod]
  unfold toUnsigned64
  omega

theorem number_inj {k l : Nat} (hk : k < 4294967296) (hl : l < 4294967296)
    (h : number k = number l) : k = l := by
  have heq := congrArg toUnsigned32 h
  rw [toUnsigned32_number, toUnsigned32_number] at heq
  omega

/-- The numbers are different as long as they fit into 32 bits. -/
theorem nodup_numbers_iff (n : Nat) :
    ((List.range n).map number).Nodup ↔ n ≤ 4294967296 := by
  rw [List.nodup_map_iff_inj_on List.nodup_range]
  constructor
  · intro hinj
    by_contra hn
    have heq := hinj 0 (List.mem_range.mpr (by omega)) 4294967296
      (List.mem_range.mpr (by omega)) (by decide +kernel)
    omega
  · intro hn k hk l hl
    rw [List.mem_range] at hk hl
    exact number_inj (by omega) (by omega)

/-! ## Counting -/

theorem countP_range_mod (N n c : Nat) (hN : 0 < N) (hc : c < N) :
    ((List.range n).map (· % N)).count c = n / N + if c < n % N then 1 else 0 := by
  have hcount : ((List.range n).map (· % N)).count c = n.count (· ≡ c [MOD N]) := by
    rw [List.count, List.countP_map]
    induction n with
    | zero => rfl
    | succ n ih =>
      rw [List.range_succ, List.countP_append, ih, Nat.count_succ]
      simp [Nat.ModEq, Nat.mod_eq_of_lt hc, List.countP_cons]
  rw [hcount, Nat.count_modEq_card _ hN, Nat.mod_eq_of_lt hc]

/-- Counting up goes round the containers. -/
theorem balanced_range_mod {N : Nat} (hN : 0 < N) (n : Nat) :
    Balanced N ((List.range n).map (· % N)) := by
  intro c c' hc hc'
  rw [countP_range_mod N n c hN hc, countP_range_mod N n c' hN hc']
  split <;> split <;> omega

/-! ## Runs -/

/-- After `n` calls began: their numbers, the counter, and where their tasks are or were sent. -/
structure Inv (N n : Nat) (d : Clients Cl) : Prop where
  select : d.world.select = (· % N)
  counter : (d.world.containers 0).scheduleNum = toUnsigned64 n
  numbers : d.numbers = (List.range n).map number
  tasks : (d.sent ++ d.inFlight.map fun call => Client.getDirectHash d.world call.2).Perm
    d.assigned

theorem getDirectHash_number {N : Nat} {w : World} (h : w.select = (· % N)) (k : Nat) :
    Client.getDirectHash w (number k) = k % 4294967296 % N := by
  unfold Client.getDirectHash
  rw [h, toUnsigned32_number]

omit [DecidableEq Cl] in
theorem Inv.assigned {N n : Nat} {d : Clients Cl} (h : Inv N n d) :
    d.assigned = (List.range n).map fun k => k % 4294967296 % N := by
  unfold Clients.assigned
  rw [h.numbers, List.map_map]
  apply List.map_congr_left
  intro k _
  exact getDirectHash_number h.select k

omit [DecidableEq Cl] in
theorem Inv.initial {N : Nat} {d : Clients Cl} (h : Initial N d) : Inv N 0 d where
  select := h.select
  counter := h.counter
  numbers := h.numbers
  tasks := by simp [h.sent, h.inFlight, Clients.assigned, h.numbers]

omit [DecidableEq Cl] in
/-- The counter is that of container 0, whatever the number of containers is. -/
theorem schedule_of_inv {N n : Nat} {d : Clients Cl} (h : Inv N n d) :
    (Client.schedule d.world).1 = number n ∧
    ((Client.schedule d.world).2.containers 0).scheduleNum = toUnsigned64 (n + 1 : Nat) := by
  have hzero : Client.getDirectHash d.world 0 = 0 := by
    unfold Client.getDirectHash
    rw [h.select]
    simp [toUnsigned32]
  unfold Client.schedule Server.schedule
  rw [hzero]
  simp only [h.counter, World.setContainer, Function.update_self]
  refine ⟨rfl, ?_⟩
  unfold toUnsigned64
  omega

/-- Routing is a matter of the runtime. -/
theorem getDirectHash_congr {w w' : World} (h : w'.select = w.select) :
    Client.getDirectHash w' = Client.getDirectHash w := by
  funext k
  unfold Client.getDirectHash
  rw [h]

theorem step_send_of_held {d : Clients Cl} {cl : Cl} {call : Cl × Int}
    (h : d.held cl = some call) (task : ServerTask) (env : Env) :
    (step d (.send cl task env)).2 =
      ⟨(serve d.world ⟨Client.getDirectHash d.world call.2, task, env⟩).2,
        d.inFlight.erase call, d.numbers, d.sent ++ [Client.getDirectHash d.world call.2]⟩ := by
  unfold step
  dsimp only
  rw [h]

theorem step_send_of_none {d : Clients Cl} {cl : Cl} (h : d.held cl = none)
    (task : ServerTask) (env : Env) : (step d (.send cl task env)).2 = d := by
  unfold step
  dsimp only
  rw [h]

/-- **One step**: a draw begins a call, a send ends one. -/
theorem inv_step {N n : Nat} {d : Clients Cl} (h : Inv N n d) (e : Event Cl) :
    Inv N (n + if e.isDraw then 1 else 0) (step d e).2 := by
  cases e with
  | draw cl =>
    obtain ⟨hnum, hcounter⟩ := schedule_of_inv h
    have hselect := (kept_schedule d.world).select
    refine ⟨hselect.trans h.select, hcounter, ?_, ?_⟩
    · simp [step, Event.isDraw, hnum, h.numbers, List.range_succ]
    · -- the new call is in flight and assigned
      have htasks := h.tasks
      simp only [Clients.assigned, step, getDirectHash_congr hselect, List.map_cons,
        List.map_append, List.map_nil] at htasks ⊢
      exact List.perm_middle.trans ((htasks.cons _).trans (List.perm_append_singleton ..).symm)
  | send cl task env =>
    cases hheld : d.held cl with
    | none =>
      rw [step_send_of_none hheld]
      exact h
    | some call =>
      have hmem : call ∈ d.inFlight := List.mem_of_find?_eq_some hheld
      rw [step_send_of_held hheld]
      have hselect := (serve_kept d.world ⟨Client.getDirectHash d.world call.2, task, env⟩).select
      refine ⟨hselect.trans h.select, (serve_scheduleNum ..).trans h.counter, h.numbers, ?_⟩
      -- its task moves from the calls in flight to the tasks sent
      have htasks := h.tasks
      have herase := (List.perm_cons_erase hmem).map fun call : Cl × Int =>
        Client.getDirectHash d.world call.2
      simp only [Clients.assigned, getDirectHash_congr hselect, List.map_cons,
        List.append_assoc, List.singleton_append] at htasks herase ⊢
      exact (herase.symm.append_left d.sent).trans htasks

/-- The invariant after a run. -/
theorem run_inv {N : Nat} (is : List (Event Cl)) :
    ∀ {n : Nat} {d : Clients Cl}, Inv N n d →
      Inv N (n + is.countP Event.isDraw) (final step d is) := by
  induction is with
  | nil => exact fun h => h
  | cons e is ih =>
    intro n d h
    have hlater := ih (inv_step h e)
    rw [final_cons, List.countP_cons]
    convert hlater using 1
    omega

omit [DecidableEq Cl] in
/-- Every prefix of a run with at most `2^32` calls is balanced. -/
theorem balanced_of_inv {N n : Nat} {d : Clients Cl} (hN : 0 < N) (h : Inv N n d)
    (hn : n ≤ 4294967296) :
    Balanced N d.assigned ∧ (d.inFlight = [] → Balanced N d.sent) := by
  have hassigned : Balanced N d.assigned := by
    have hmod : ((List.range n).map fun k => k % 4294967296 % N) =
        (List.range n).map (· % N) := by
      apply List.map_congr_left
      intro k hk
      rw [List.mem_range] at hk
      rw [Nat.mod_eq_of_lt (by omega : k < 4294967296)]
    rw [h.assigned, hmod]
    exact balanced_range_mod hN n
  refine ⟨hassigned, fun hidle => ?_⟩
  have hperm := h.tasks
  rw [hidle, List.map_nil, List.append_nil] at hperm
  intro c c' hc hc'
  rw [hperm.count_eq, hperm.count_eq]
  exact hassigned c c' hc hc'

/-- **Round robin.**  A run of any number of clients, whose draws and sends interleave in any
order, is fair if and only if it has at most `2^32` calls. -/
theorem round_robin_iff {N : Nat} {d : Clients Cl} (h : Initial N d) (is : List (Event Cl)) :
    Fair N d is ↔ is.countP Event.isDraw ≤ 4294967296 := by
  have hinv := run_inv is (Inv.initial h)
  rw [Nat.zero_add] at hinv
  have hnumbers : (final step d is).numbers.Nodup ↔ is.countP Event.isDraw ≤ 4294967296 := by
    rw [hinv.numbers]
    exact nodup_numbers_iff _
  unfold Fair
  rw [hnumbers, and_iff_left_iff_imp]
  intro hle pre hpre
  apply balanced_of_inv h.pos (run_inv pre (Inv.initial h))
  have hcount := hpre.sublist.countP_le (p := Event.isDraw)
  omega

/-! ## One call too many -/

/-- Three containers, and no call made. -/
def threeContainers : Clients Unit :=
  ⟨{ (deployment threeBytes openToAll).world with select := (· % 3) }, [], [], []⟩

theorem threeContainers_initial : Initial 3 threeContainers :=
  ⟨by decide, rfl, rfl, rfl, rfl, rfl⟩

/-- `n` calls of one client, each writing one byte to `/f`. -/
def calls : Nat → List (Event Unit)
  | 0 => []
  | n + 1 =>
    .draw () :: .send () (.write ⟨[9], 0, 1, ['/', 'f'], .kPosix⟩) .calm :: calls n

theorem countP_calls (n : Nat) : (calls n).countP Event.isDraw = n := by
  induction n with
  | zero => rfl
  | succ n ih => simp [calls, List.countP_cons, Event.isDraw, ih]

/-- With one call more than `2^32` the first number comes again, and container 0 is two tasks
ahead of container 2. -/
theorem round_robin_wraps :
    ¬ (final step threeContainers (calls 4294967297)).numbers.Nodup ∧
    ¬ Balanced 3 (final step threeContainers (calls 4294967297)).assigned ∧
    ¬ Fair 3 threeContainers (calls 4294967297) := by
  have hinv := run_inv (calls 4294967297) (Inv.initial threeContainers_initial)
  rw [countP_calls, Nat.zero_add] at hinv
  have hnumbers : ¬ (final step threeContainers (calls 4294967297)).numbers.Nodup := by
    rw [hinv.numbers, nodup_numbers_iff]
    omega
  refine ⟨hnumbers, ?_, fun hfair => hnumbers hfair.1⟩
  -- the last call begins a new round early
  have hround : (List.range 4294967296).map (fun k => k % 4294967296 % 3) =
      (List.range 4294967296).map (· % 3) := by
    apply List.map_congr_left
    intro k hk
    rw [Nat.mod_eq_of_lt (List.mem_range.mp hk)]
  intro hbalanced
  have hcounts := hbalanced 0 2 (by decide) (by decide)
  rw [hinv.assigned, show 4294967297 = 4294967296 + 1 from rfl, List.range_succ,
    List.map_append, hround, List.count_append, List.count_append,
    countP_range_mod 3 _ 0 (by decide) (by decide),
    countP_range_mod 3 _ 2 (by decide) (by decide)] at hcounts
  revert hcounts
  decide +kernel

theorem round_robin_iff_threeContainers :
    Fair 3 threeContainers (calls 5) ↔ (calls 5).countP Event.isDraw ≤ 4294967296 :=
  round_robin_iff threeContainers_initial _

end DTIO.Properties.RoundRobin
