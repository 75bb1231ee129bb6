import Mathlib.Data.List.Basic

/-!
# Programs that Broadcast

A program of one rank is a sequence of local computations and collective broadcasts from the
root.  The root and the other ranks run in lockstep: a broadcast takes place when every other
rank receives on the same communicator with the length that the root sends.

## Main definitions

- `Proc`: a program of one rank
- `Proc.Reaches`: what a rank may end with, whatever it receives
- `lockstep`: the results of all ranks, if they agree on every broadcast and none faults

## Main results

- `lockstep_done`, `lockstep_send`: one broadcast among ranks that run the same program
-/

namespace DTIO.Broadcast

variable {κ α β γ ι : Type}

/-- What a rank does next: `κ` are the communicators, `α` the elements that are sent. -/
inductive Proc (κ α β : Type) where
  | done (b : β)
  /-- an access out of bounds, a failed assertion, a null pointer -/
  | fault
  /-- the root's side of a broadcast -/
  | send (comm : κ) (data : List α) (next : Proc κ α β)
  /-- the other side, for `len` elements -/
  | recv (comm : κ) (len : Nat) (next : List α → Proc κ α β)

namespace Proc

def bind (p : Proc κ α β) (f : β → Proc κ α γ) : Proc κ α γ :=
  match p with
  | done b => f b
  | fault => fault
  | send comm data next => send comm data (next.bind f)
  | recv comm len next => recv comm len fun data => (next data).bind f

instance instMonadProc : Monad (Proc κ α) where
  pure := done
  bind := bind

@[simp] theorem pure_eq (b : β) : (pure b : Proc κ α β) = done b := rfl

@[simp] theorem done_bind (b : β) (f : β → Proc κ α γ) : (done b : Proc κ α β) >>= f = f b := rfl

@[simp] theorem fault_bind (f : β → Proc κ α γ) : (fault : Proc κ α β) >>= f = fault := rfl

@[simp] theorem send_bind (comm : κ) (data : List α) (next : Proc κ α β) (f : β → Proc κ α γ) :
    send comm data next >>= f = send comm data (next >>= f) := rfl

@[simp] theorem recv_bind (comm : κ) (len : Nat) (next : List α → Proc κ α β)
    (f : β → Proc κ α γ) :
    recv comm len next >>= f = recv comm len fun data => next data >>= f := rfl

theorem bind_assoc (p : Proc κ α β) (f : β → Proc κ α γ) (g : γ → Proc κ α ι) :
    p >>= f >>= g = p >>= fun b => f b >>= g := by
  induction p with
  | done b => rfl
  | fault => rfl
  | send comm data next ih => exact congrArg (send comm data) ih
  | recv comm len next ih => exact congrArg (recv comm len) (funext ih)

/-- A partial local computation; a fault where it is undefined. -/
def ofOption : Option β → Proc κ α β
  | some b => done b
  | none => fault

@[simp] theorem ofOption_some (b : β) : (ofOption (some b) : Proc κ α β) = done b := rfl

@[simp] theorem ofOption_none : (ofOption none : Proc κ α β) = fault := rfl

/-- `assert(b)`. -/
def assert (b : Bool) : Proc κ α Unit := if b then done () else fault

@[simp] theorem assert_true : (assert true : Proc κ α Unit) = done () := rfl

@[simp] theorem assert_false : (assert false : Proc κ α Unit) = fault := rfl

def bcastSend (comm : κ) (data : List α) : Proc κ α Unit := send comm data (done ())

def bcastRecv (comm : κ) (len : Nat) : Proc κ α (List α) := recv comm len done

/-- The result of a program that has no step left. -/
def result? : Proc κ α β → Option β
  | done b => some b
  | _ => none

/-- The rest of a program that receives `data` on `comm`. -/
def receive [DecidableEq κ] (comm : κ) (data : List α) : Proc κ α β → Option (Proc κ α β)
  | recv comm' len next => if comm' = comm ∧ len = data.length then some (next data) else none
  | _ => none

/-- A program may end with `b`, whatever it receives. -/
def Reaches : Proc κ α β → β → Prop
  | done b, b' => b = b'
  | fault, _ => False
  | send _ _ next, b' => next.Reaches b'
  | recv _ len next, b' => ∃ data, data.length = len ∧ (next data).Reaches b'

theorem reaches_bind {p : Proc κ α β} {f : β → Proc κ α γ} {c : γ} :
    (p >>= f).Reaches c ↔ ∃ b, p.Reaches b ∧ (f b).Reaches c := by
  induction p with
  | done b => exact ⟨fun h => ⟨b, rfl, h⟩, fun ⟨_, hb, h⟩ => hb ▸ h⟩
  | fault => exact ⟨False.elim, fun ⟨_, h, _⟩ => h⟩
  | send comm data next ih => exact ih
  | recv comm len next ih =>
    constructor
    · rintro ⟨data, hlen, h⟩
      obtain ⟨b, hb, hc⟩ := (ih data).mp h
      exact ⟨b, ⟨data, hlen, hb⟩, hc⟩
    · rintro ⟨b, ⟨data, hlen, hb⟩, hc⟩
      exact ⟨data, hlen, (ih data).mpr ⟨b, hb, hc⟩⟩

/-- A partial local computation. -/
theorem reaches_ofOption_bind {o : Option β} {f : β → Proc κ α γ} {c : γ} :
    (ofOption o >>= f).Reaches c ↔ ∃ b, o = some b ∧ (f b).Reaches c := by
  cases o with
  | none => exact ⟨False.elim, fun ⟨_, h, _⟩ => nomatch h⟩
  | some b => exact ⟨fun h => ⟨b, rfl, h⟩, fun ⟨_, hb, h⟩ => Option.some.inj hb ▸ h⟩

theorem ofOption_bind_eq_send {o : Option β} {f : β → Proc κ α γ} {comm : κ} {data : List α}
    {next : Proc κ α γ} (h : ofOption o >>= f = send comm data next) :
    ∃ b, o = some b ∧ f b = send comm data next := by
  cases o with
  | none => cases h
  | some b => exact ⟨b, rfl, h⟩

theorem assert_bind_eq_send {x : Bool} {f : Unit → Proc κ α γ} {comm : κ} {data : List α}
    {next : Proc κ α γ} (h : assert x >>= f = send comm data next) :
    f () = send comm data next := by
  cases x with
  | false => cases h
  | true => exact h

theorem bcastSend_bind_eq_send {f : Unit → Proc κ α γ} {comm comm' : κ} {data data' : List α}
    {next : Proc κ α γ} (h : bcastSend comm data >>= f = send comm' data' next) :
    data = data' := (send.inj h).2.1

end Proc

/-- The results of the root and of the other ranks; nothing if some rank faults, or they
disagree on a broadcast: its communicator, its length, or whether there is one. -/
def lockstep [DecidableEq κ] : Proc κ α β → List (Proc κ α β) → Option (β × List β)
  | .done b, others => (others.mapM Proc.result?).map fun bs => (b, bs)
  | .send comm data next, others =>
    (others.mapM (Proc.receive comm data)).bind fun others' => lockstep next others'
  | .fault, _ => none
  | .recv .., _ => none

theorem mapM_map_some {f : ι → β} {g : β → Option γ} {h : ι → γ} :
    ∀ {l : List ι}, (∀ x ∈ l, g (f x) = some (h x)) → (l.map f).mapM g = some (l.map h) := by
  intro l
  induction l with
  | nil => exact fun _ => rfl
  | cons x l ih =>
    intro hall
    rw [List.map_cons, List.mapM_cons, hall x (List.mem_cons_self ..),
      ih fun y hy => hall y (List.mem_cons_of_mem _ hy)]
    rfl

section Lockstep

variable [DecidableEq κ]

@[simp] theorem lockstep_fault (others : List (Proc κ α β)) :
    lockstep .fault others = none := by
  unfold lockstep
  rfl

/-- All ranks are done. -/
theorem lockstep_done (b : β) (r : ι → β) (l : List ι) :
    lockstep (.done b : Proc κ α β) (l.map fun x => .done (r x)) = some (b, l.map r) := by
  unfold lockstep
  have hdone : (l.map fun x => (.done (r x) : Proc κ α β)).mapM Proc.result? =
      some (l.map r) := mapM_map_some fun _ _ => rfl
  rw [hdone]
  rfl

/-- One broadcast: every other rank goes on with what the root sent. -/
theorem lockstep_send (comm : κ) (data : List α) (next : Proc κ α β)
    (f : ι → List α → Proc κ α β) (l : List ι) {len : Nat} (hlen : len = data.length) :
    lockstep (.send comm data next) (l.map fun x => .recv comm len (f x)) =
      lockstep next (l.map fun x => f x data) := by
  rw [lockstep, mapM_map_some (h := fun x => f x data)]
  · rfl
  · intro x _
    exact if_pos ⟨rfl, hlen⟩

end Lockstep

end DTIO.Broadcast
