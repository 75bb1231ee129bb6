import Mathlib.Data.Fintype.Defs
import DTIO.Adapter.Registered
import DTIO.Adapter.Threads

/-!
# Concurrent Writers on One Descriptor

`write` reads `current_offset` for its task, waits for the server, reads `current_offset`
again, and stores the sum.  Nothing keeps a second writer out between the first reading and
the store, so two writers can be sent to the same bytes and one of their updates can be lost.

If no write takes its offset while another is between its own offset and its update, the
writes are placed end to end from the starting offset.

## Main definitions

- `inFlight`: a write between reading its offset and storing the new one
- `Serialized`: no write takes its offset while another is in flight
- `Tiles`: ranges placed end to end

## Main results

- `placed_step`: the invariant `Placed` is preserved
- `writers_tile`: the ranges of a serialized run
- `writers_overlap`: a run of two threads that is not serialized
-/

namespace DTIO.Properties.ConcurrentWriters

open DTIO.Posix DTIO.Chimod DTIO.Client DTIO.MachineInt DTIO.Interleaving
open DTIO.Adapter DTIO.Adapter.Threads

/-! ## Ranges placed end to end -/

/-- The task was sent to byte `p`. -/
def Covers (s : Sent) (p : Int) : Prop := s.offset ≤ p ∧ p < s.offset + s.size

/-- The ranges, newest first, are placed end to end from `o` up to `e`. -/
def Tiles (o : Int) : List Sent → Int → Prop
  | [], e => e = o
  | s :: rest, e => Tiles o rest s.offset ∧ e = s.offset + s.size

section Tiles

variable {o e : Int} {sent : List Sent}

theorem Tiles.end_eq (h : Tiles o sent e) : e = o + ((sent.map Sent.size).sum : Nat) := by
  induction sent generalizing e with
  | nil => simpa [Tiles] using h
  | cons s rest ih =>
    obtain ⟨hrest, rfl⟩ := h
    rw [ih hrest, List.map_cons, List.sum_cons]
    push_cast
    omega

theorem Tiles.le (h : Tiles o sent e) : o ≤ e := by
  rw [h.end_eq]
  omega

/-- Together the ranges are exactly `[o, e)`. -/
theorem Tiles.covers_iff (h : Tiles o sent e) (p : Int) :
    (∃ s ∈ sent, Covers s p) ↔ o ≤ p ∧ p < e := by
  induction sent generalizing e with
  | nil =>
    have he : e = o := h
    simp only [List.not_mem_nil, false_and, exists_false, false_iff]
    omega
  | cons s rest ih =>
    obtain ⟨hrest, rfl⟩ := h
    have hle := hrest.le
    simp only [List.mem_cons, exists_eq_or_imp]
    rw [ih hrest]
    unfold Covers
    omega

/-- No byte is in two ranges. -/
theorem Tiles.pairwise (h : Tiles o sent e) :
    sent.Pairwise fun s s' => ∀ p, ¬ (Covers s p ∧ Covers s' p) := by
  induction sent generalizing e with
  | nil => exact List.Pairwise.nil
  | cons s rest ih =>
    obtain ⟨hrest, -⟩ := h
    refine List.Pairwise.cons ?_ (ih hrest)
    rintro s' hs' p ⟨hp, hp'⟩
    -- the older ranges end where this one begins
    have hbelow := (hrest.covers_iff p).mp ⟨s', hs', hp'⟩
    exact absurd hp.1 (not_le.mpr hbelow.2)

end Tiles

/-! ## Serialized writes -/

/-- The size of a write between reading its offset and storing the new one. -/
def inFlight : Pc → Option Nat
  | .submitted _ io _ _ | .finish _ io _ | .update _ io _ _ => some io.size
  | _ => none

variable {Tid : Type} [DecidableEq Tid]

abbrev Conf (Tid : Type) := Config Tid Pc Shared

/-- All calls are writes on `fd`. -/
def OnlyWrites (fd : Int) (_c : Conf Tid) (_t : Tid) (i : Input) : Prop :=
  ∀ call, i = .begin call → ∃ data, call = .write fd data

/-- Besides, a write takes its offset only when no other write is in flight, and when offset
and count make an `off_t`. -/
def Serialized (fd : Int) (c : Conf Tid) (t : Tid) (i : Input) : Prop :=
  OnlyWrites fd c t i ∧
  ∀ io, c.pc t = .prepare fd io →
    (∀ u, u ≠ t → inFlight (c.pc u) = none) ∧
    ∀ off, c.shared.sys.posixOffset fd = some off → off + io.size ≤ maxSigned64

section Decidable

variable {fd : Int} {c : Conf Tid} {t : Tid} {i : Input}

instance : Decidable (OnlyWrites fd c t i) :=
  match i with
  | .go _ => isTrue nofun
  | .begin (.write fd' data) =>
    decidable_of_iff (fd' = fd) ⟨fun h _ heq => ⟨data, by rw [← Input.begin.inj heq, h]⟩,
      fun h => by obtain ⟨_, hd⟩ := h _ rfl; exact (Call.write.inj hd).1⟩
  | .begin (.read ..) | .begin (.open64 ..) | .begin (.creat64 ..) | .begin (.lseek64 ..)
  | .begin (.close _) => isFalse fun h => nomatch h _ rfl

instance decidablePrepare (p : Pc) (P : Io → Prop) [DecidablePred P] :
    Decidable (∀ io, p = .prepare fd io → P io) :=
  match p with
  | .prepare fd' io =>
    decidable_of_iff (fd' = fd → P io)
      ⟨fun h _ heq => (Pc.prepare.inj heq).2 ▸ h (Pc.prepare.inj heq).1,
        fun h hfd => h io (by rw [hfd])⟩
  | .idle | .opened .. | .unregister _ | .realClose _ | .real .. | .lookup .. | .submitted ..
  | .finish .. | .update .. | .seek .. | .seekLookup .. | .seekUpdate .. | .dangling =>
    isTrue nofun

instance decidableSome (off : Option Int) (P : Int → Prop) [DecidablePred P] :
    Decidable (∀ v, off = some v → P v) :=
  match off with
  | none => isTrue nofun
  | some v => decidable_of_iff (P v) ⟨fun h _ heq => Option.some.inj heq ▸ h, fun h => h v rfl⟩

instance [Fintype Tid] : Decidable (Serialized fd c t i) :=
  inferInstanceAs (Decidable (OnlyWrites fd c t i ∧ ∀ io, c.pc t = .prepare fd io →
    (∀ u, u ≠ t → inFlight (c.pc u) = none) ∧
    ∀ off, c.shared.sys.posixOffset fd = some off → off + io.size ≤ maxSigned64))

end Decidable

/-- `fd` is registered at offset `o` and no call has begun. -/
structure Start (fd : Int) (o : Nat) (c : Conf Tid) : Prop where
  idle : ∀ t, c.pc t = .idle
  offset : c.shared.sys.posixOffset fd = some (o : Int)
  sent : c.shared.sent = []
  returned : c.shared.returned = []

/-! ## The invariant -/

/-- A thread inside a write on `fd`, or between two calls. -/
def AtWrite (fd : Int) : Pc → Prop
  | .idle => True
  | .lookup fd' io | .prepare fd' io | .submitted fd' io _ _ | .finish fd' io _
  | .update fd' io _ _ => fd' = fd ∧ ∃ data, io = .write data
  | _ => False

/-- The counts of the calls that have returned. -/
def counts (sh : Shared) : List Nat := sh.returned.map fun r => r.1.size

/-- The write in flight has the range at the stored offset, and the offset it is going to
store, if computed, is the end of that range. -/
structure InFlight (fd o off : Int) (sh : Shared) (p : Pc) (n : Nat) : Prop where
  size : inFlight p = some n
  fits : off + n ≤ maxSigned64
  sent : ∃ rest, sh.sent = ⟨fd, off, n⟩ :: rest ∧ Tiles o rest off ∧
    rest.map Sent.size = counts sh
  update : ∀ fd' io r newOffset, p = .update fd' io r newOffset → newOffset = off + n

/-- What holds between the steps of a serialized run: the ranges of the completed writes reach
from `o` to the stored offset, and at most one more write is in flight. -/
structure Placed (fd : Int) (o : Nat) (c : Conf Tid) (off : Int) : Prop where
  offset : c.shared.sys.posixOffset fd = some off
  nonneg : 0 ≤ off
  at_ : ∀ t, AtWrite fd (c.pc t)
  ranges : ((∀ t, inFlight (c.pc t) = none) ∧ Tiles o c.shared.sent off ∧
      c.shared.sent.map Sent.size = counts c.shared) ∨
    ∃ t n, InFlight fd o off c.shared (c.pc t) n ∧ ∀ u, u ≠ t → inFlight (c.pc u) = none

omit [DecidableEq Tid] in
theorem Start.placed {fd : Int} {o : Nat} {c : Conf Tid} (h : Start fd o c) :
    Placed fd o c o where
  offset := h.offset
  nonneg := Int.natCast_nonneg o
  at_ := fun t => by rw [h.idle t]; trivial
  ranges := by
    left
    refine ⟨fun t => by rw [h.idle t]; rfl, ?_, ?_⟩
    · rw [h.sent]
      rfl
    · rw [h.sent, counts, h.returned]
      rfl

section Steps

variable {fd : Int} {o : Nat} {off : Int} {c : Conf Tid} {t : Tid}

/-- A step that neither takes an offset nor stores one. -/
theorem Placed.quiet (h : Placed fd o c off) {sh' : Shared} {p' : Pc}
    (hmeta : sh'.sys.clientMeta = c.shared.sys.clientMeta) (hsent : sh'.sent = c.shared.sent)
    (hreturned : sh'.returned = c.shared.returned) (hat : AtWrite fd p')
    (hflight : inFlight p' = inFlight (c.pc t))
    (hupdate : ∀ n, InFlight fd o off c.shared (c.pc t) n →
      ∀ fd' io r newOffset, p' = .update fd' io r newOffset → newOffset = off + n) :
    Placed fd o (c.move t sh' p') off := by
  -- neither the returned calls nor any thread's stage changed
  have hcounts : counts sh' = counts c.shared := by rw [counts, hreturned]; rfl
  have hall : ∀ u, inFlight ((c.move t sh' p').pc u) = inFlight (c.pc u) := by
    intro u
    by_cases hu : u = t
    · rw [hu, Config.move_pc_self, hflight]
    · rw [Config.move_pc_of_ne _ _ _ hu]
  refine ⟨?_, h.nonneg, ?_, ?_⟩
  · show (sh'.sys.clientMeta.posixFiles fd).map _ = _
    rw [hmeta]
    exact h.offset
  · intro u
    by_cases hu : u = t
    · rw [hu, Config.move_pc_self]
      exact hat
    · rw [Config.move_pc_of_ne _ _ _ hu]
      exact h.at_ u
  -- the ranges in flight are those of before; only `t`'s update may be new
  · simp only [hall, Config.move_shared, hsent, hcounts]
    refine h.ranges.imp id ?_
    rintro ⟨v, n, hv, hothers⟩
    refine ⟨v, n, ⟨?_, hv.fits, ?_, ?_⟩, hothers⟩
    · rw [hall]
      exact hv.size
    · rw [hsent, hcounts]
      exact hv.sent
    · by_cases hvt : v = t
      · rw [hvt, Config.move_pc_self]
        rw [hvt] at hv
        exact hupdate n hv
      · rw [Config.move_pc_of_ne _ _ _ hvt]
        exact hv.update

omit [DecidableEq Tid] in
/-- The thread in flight is the only one. -/
theorem Placed.inFlight_of (h : Placed fd o c off) {n : Nat} (hn : inFlight (c.pc t) = some n) :
    InFlight fd o off c.shared (c.pc t) n ∧ ∀ u, u ≠ t → inFlight (c.pc u) = none := by
  rcases h.ranges with ⟨hnone, -⟩ | ⟨v, m, hv, hothers⟩
  · rw [hnone t] at hn
    cases hn
  · by_cases hvt : t = v
    · subst hvt
      have hsize := hv.size
      rw [hn] at hsize
      obtain rfl := Option.some.inj hsize
      exact ⟨hv, hothers⟩
    · rw [hothers t hvt] at hn
      cases hn

/-- Taking an offset: the write goes to the end of the ranges so far. -/
theorem Placed.prepare (h : Placed fd o c off) {io : Io} (hpc : c.pc t = .prepare fd io)
    (hothers : ∀ u, u ≠ t → inFlight (c.pc u) = none) (hfits : off + io.size ≤ maxSigned64)
    {sh' : Shared} {path : PathStr} (hsys : sh'.sys = c.shared.sys)
    (hsent : sh'.sent = ⟨fd, off, io.size⟩ :: c.shared.sent)
    (hreturned : sh'.returned = c.shared.returned) :
    Placed fd o (c.move t sh' (.submitted fd io path off)) off := by
  have hat := h.at_ t
  rw [hpc] at hat
  have hown : inFlight (c.pc t) = none := by rw [hpc]; rfl
  have hcounts : counts sh' = counts c.shared := by rw [counts, hreturned]; rfl
  -- nobody was in flight
  rcases h.ranges with ⟨-, htiles, hsizes⟩ | ⟨v, n, hv, -⟩
  · refine ⟨?_, h.nonneg, ?_, Or.inr ⟨t, io.size, ⟨?_, hfits, ?_, ?_⟩, ?_⟩⟩
    · show sh'.sys.posixOffset fd = some off
      rw [hsys]
      exact h.offset
    · intro u
      by_cases hu : u = t
      · rw [hu, Config.move_pc_self]
        exact hat
      · rw [Config.move_pc_of_ne _ _ _ hu]
        exact h.at_ u
    · rw [Config.move_pc_self]
      rfl
    · exact ⟨c.shared.sent, hsent, htiles, hsizes.trans hcounts.symm⟩
    · rw [Config.move_pc_self]
      exact nofun
    · intro u hu
      rw [Config.move_pc_of_ne _ _ _ hu]
      exact hothers u hu
  · have hsize := hv.size
    by_cases hvt : v = t
    · rw [hvt, hown] at hsize
      cases hsize
    · rw [hothers v hvt] at hsize
      cases hsize

/-- Storing the new offset: the write has returned. -/
theorem Placed.update (h : Placed fd o c off) {data : List Byte} {r : Result} {newOffset : Int}
    (hpc : c.pc t = .update fd (.write data) r newOffset) {sh' : Shared}
    (hmeta : sh'.sys.clientMeta = c.shared.sys.clientMeta.updatePosixOffset fd newOffset)
    (hsent : sh'.sent = c.shared.sent)
    (hreturned : sh'.returned = (.write fd data, r) :: c.shared.returned) :
    Placed fd o (c.move t sh' .idle) newOffset := by
  -- `t` is the one call in flight, and its new offset is behind its bytes
  obtain ⟨hflight, hothers⟩ := h.inFlight_of (t := t) (n := data.length) (by rw [hpc]; rfl)
  obtain rfl := hflight.update fd _ r newOffset hpc
  obtain ⟨rest, hrest, htiles, hsizes⟩ := hflight.sent
  refine ⟨?_, ?_, ?_, Or.inl ⟨?_, ?_, ?_⟩⟩
  -- the table now holds the new offset
  · show (sh'.sys.clientMeta.posixFiles fd).map _ = _
    obtain ⟨info, hinfo, -⟩ := Option.map_eq_some_iff.mp h.offset
    rw [hmeta]
    show (c.shared.sys.clientMeta.posixFiles.updateOffset fd _ fd).map _ = _
    rw [FileTable.updateOffset_of_some _ _ hinfo]
    rfl
  · have := h.nonneg
    omega
  · intro u
    by_cases hu : u = t
    · rw [hu, Config.move_pc_self]
      trivial
    · rw [Config.move_pc_of_ne _ _ _ hu]
      exact h.at_ u
  -- `t` returned and the others were not in flight
  · intro u
    by_cases hu : u = t
    · rw [hu, Config.move_pc_self]
      rfl
    · rw [Config.move_pc_of_ne _ _ _ hu]
      exact hothers u hu
  -- its range closes the gap, so the ranges tile up to the new offset
  · rw [Config.move_shared, hsent, hrest]
    exact ⟨htiles, rfl⟩
  · rw [Config.move_shared, hsent, hrest, List.map_cons, hsizes]
    simp only [counts, hreturned, List.map_cons]
    rfl

/-- **One step** of a serialized run. -/
theorem placed_step (h : Placed fd o c off) {i : Input} (hi : Serialized fd c t i) :
    ∃ off', Placed fd o (c.move t (act i (c.pc t) c.shared).1 (act i (c.pc t) c.shared).2)
      off' := by
  obtain ⟨hwrites, hserial⟩ := hi
  obtain ⟨info, hinfo, rfl⟩ := Option.map_eq_some_iff.mp h.offset
  have hat := h.at_ t
  cases i with
  | begin call =>
    obtain ⟨data, rfl⟩ := hwrites call rfl
    by_cases hpc : c.pc t = .idle
    · have hbegin := begin_registered hinfo (.write data)
      have hact : act (.begin (.write fd data)) (c.pc t) c.shared =
          (c.shared, .lookup fd (.write data)) := by
        rw [hpc]
        exact hbegin
      rw [hact]
      exact ⟨_, h.quiet rfl rfl rfl ⟨rfl, data, rfl⟩ (by rw [hpc]; rfl) (by simp)⟩
    · -- a thread inside a call begins no other
      have hact : act (.begin (.write fd data)) (c.pc t) c.shared = (c.shared, c.pc t) := by
        cases hc : c.pc t <;> first | exact absurd hc hpc | rfl
      rw [hact]
      exact ⟨_, h.quiet rfl rfl rfl hat rfl fun _ hn => hn.update⟩
  | go env =>
    cases hpc : c.pc t with
    | idle =>
      exact ⟨_, h.quiet rfl rfl rfl trivial (by rw [hpc]; rfl) (fun _ _ _ _ _ _ h => by cases h)⟩
    | lookup fd' io =>
      rw [hpc] at hat
      obtain ⟨rfl, data, rfl⟩ := hat
      have hnext : act (.go env) (.lookup fd' (.write data)) c.shared =
          (c.shared, .prepare fd' (.write data)) := by
        simp [act, next, ClientMetadataManager.getPosixFileInfo, hinfo]
      rw [hnext]
      exact ⟨_, h.quiet rfl rfl rfl ⟨rfl, data, rfl⟩ (by rw [hpc]; rfl) (by simp)⟩
    | prepare fd' io =>
      rw [hpc] at hat
      obtain ⟨rfl, data, rfl⟩ := hat
      obtain ⟨hothers, hfits⟩ := hserial _ hpc
      have hnext := next_prepare hinfo env (.write data)
      rw [show act (.go env) (.prepare fd' (.write data)) c.shared = _ from hnext]
      exact ⟨_, h.prepare hpc hothers (hfits _ h.offset) rfl rfl rfl⟩
    | submitted fd' io path offset =>
      rw [hpc] at hat
      exact ⟨_, h.quiet rfl rfl rfl hat (by rw [hpc]; rfl) (fun _ _ _ _ _ _ h => by cases h)⟩
    | finish fd' io r =>
      rw [hpc] at hat
      obtain ⟨rfl, data, rfl⟩ := hat
      have hnext := next_finish hinfo env (.write data) r
      rw [show act (.go env) (.finish fd' (.write data) r) c.shared = _ from hnext]
      refine ⟨_, h.quiet rfl rfl rfl ⟨rfl, data, rfl⟩ (by rw [hpc]; rfl) ?_⟩
      -- the sum is an `off_t`, because offset and count were taken together
      intro n hn fd'' io' r' newOffset heq
      obtain ⟨-, -, -, rfl⟩ := Pc.update.inj heq
      have hsize := hn.size
      rw [hpc] at hsize
      obtain rfl : data.length = n := Option.some.inj hsize
      obtain ⟨k, hk⟩ := Int.eq_ofNat_of_zero_le h.nonneg
      have hfits := hn.fits
      rw [hk] at hfits
      have hroom : k + data.length ≤ maxSigned64 := by omega
      have hadvance := (advance_eq hk (by omega) (Or.inr hroom)).1
      show Posix.advance info data.length = _
      rw [hadvance, hk]
      push_cast
      rfl
    | update fd' io r newOffset =>
      rw [hpc] at hat
      obtain ⟨rfl, data, rfl⟩ := hat
      exact ⟨newOffset, h.update hpc rfl rfl rfl⟩
    | _ =>
      rw [hpc] at hat
      exact hat.elim

end Steps

/-! ## Runs -/

/-- **Serialized writers.**  When all calls have returned, whatever the order of the steps:
the offset is the starting one plus all counts, and the ranges the writes were sent to are
pairwise disjoint and together exactly the bytes from the starting offset up to it. -/
theorem writers_tile {fd : Int} {o : Nat} {c₀ c : Conf Tid} (hstart : Start fd o c₀)
    (hreach : Reach (stepsOf act (Serialized fd)) c₀ c) (hidle : ∀ t, c.pc t = .idle) :
    c.shared.sent.map Sent.size = counts c.shared ∧
    c.shared.sys.posixOffset fd = some ((o + (counts c.shared).sum : Nat) : Int) ∧
    (c.shared.sent.Pairwise fun s s' => ∀ p, ¬ (Covers s p ∧ Covers s' p)) ∧
    ∀ p : Int, (∃ s ∈ c.shared.sent, Covers s p) ↔
      (o : Int) ≤ p ∧ p < ((o + (counts c.shared).sum : Nat) : Int) := by
  have hplaced : ∃ off, Placed fd o c off := by
    refine Interleaving.invariant (I := fun c => ∃ off, Placed fd o c off) ?_
      ⟨_, hstart.placed⟩ hreach
    rintro d t sh' p' ⟨off, hd⟩ ⟨i, hi, hact⟩
    obtain ⟨rfl, rfl⟩ := Prod.mk.inj hact
    exact placed_step hd hi
  obtain ⟨off, h⟩ := hplaced
  rcases h.ranges with ⟨-, htiles, hsizes⟩ | ⟨t, n, ht, -⟩
  · have hend := htiles.end_eq
    rw [hsizes] at hend
    rw [Nat.cast_add, ← hend]
    exact ⟨hsizes, h.offset, htiles.pairwise, htiles.covers_iff⟩
  · -- nobody is in flight
    have hsize := ht.size
    rw [hidle t] at hsize
    cases hsize

/-! ## Two writers -/

/-- Two threads, and `/f` opened for writing. -/
def writers : Conf Bool :=
  ⟨⟨openedFile threeBytes oWronly, [], []⟩, fun _ => .idle⟩

theorem writers_start : Start 0 0 writers :=
  ⟨fun _ => rfl, by decide +kernel, rfl, rfl⟩

/-- One thread writes a byte from beginning to end, then the other one does. -/
def turns : List (Bool × Input) :=
  (false, .begin (.write 0 [7])) :: List.replicate 5 (false, .go .calm) ++
    (true, .begin (.write 0 [8])) :: List.replicate 5 (true, .go .calm)

/-- In turns the two bytes go to offsets 0 and 1. -/
theorem writers_tile_turns :
    ∃ c, Reach (stepsOf act (Serialized 0)) writers c ∧
      c.shared.sys.posixOffset 0 = some 2 ∧ c.shared.sent = [⟨0, 1, 1⟩, ⟨0, 0, 1⟩] ∧
      ∀ p : Int, (∃ s ∈ c.shared.sent, Covers s p) ↔ 0 ≤ p ∧ p < 2 := by
  have hreach : Reach (stepsOf act (Serialized 0)) writers (play act writers turns) := by
    apply reach_play
    decide +kernel
  have hidle : ∀ t, (play act writers turns).pc t = .idle := by decide +kernel
  have hcounts : counts (play act writers turns).shared = [1, 1] := by decide +kernel
  obtain ⟨-, hoffset, -, hcovers⟩ := writers_tile writers_start hreach hidle
  rw [hcounts] at hoffset hcovers
  exact ⟨_, hreach, hoffset, by decide +kernel, hcovers⟩

/-- Both threads are sent to offset 0, and both store 1. -/
def race : List (Bool × Input) :=
  [(false, .begin (.write 0 [7])), (false, .go .calm), (false, .go .calm),
    (true, .begin (.write 0 [8])), (true, .go .calm), (true, .go .calm),
    (false, .go .calm), (true, .go .calm), (false, .go .calm), (true, .go .calm),
    (false, .go .calm), (true, .go .calm)]

/-- Two writes of one byte each have returned, the offset has moved by one, and both were
sent to byte 0. -/
theorem writers_overlap :
    ∃ c, Reach (stepsOf act (OnlyWrites 0)) writers c ∧ (∀ t, c.pc t = .idle) ∧
      counts c.shared = [1, 1] ∧ c.shared.sys.posixOffset 0 = some 1 ∧
      c.shared.sent = [⟨0, 0, 1⟩, ⟨0, 0, 1⟩] := by
  refine ⟨play act writers race, reach_play ?_, by decide +kernel, by decide +kernel,
    by decide +kernel, by decide +kernel⟩
  simp only [race, Permitted, OnlyWrites, Input.begin.injEq, reduceCtorEq, false_implies,
    implies_true, and_true, true_and]
  exact ⟨fun call h => ⟨[7], h.symm⟩, fun call h => ⟨[8], h.symm⟩⟩

end DTIO.Properties.ConcurrentWriters
