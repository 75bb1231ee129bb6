import DTIO.Foundation.ByteFile
import Mathlib.Algebra.Order.Ring.Nat

/-!
# Bounded Memory

Loads and stores on a buffer that fail outside of its bounds, and fixed-width integers in
little-endian order.

## Main results

- `load_append`, `store_append`: a buffer seen as a concatenation
- `decodeLE_encodeLE`: the round trip of an integer that fits
-/

namespace DTIO.Memory

variable {α : Type*}

/-- The `len` elements from `off` on, if they are in bounds. -/
def load (mem : List α) (off len : Nat) : Option (List α) :=
  if off + len ≤ mem.length then some (ByteFile.readAt mem off len) else none

/-- The buffer with `data` at `off`, if it fits. -/
def store (mem : List α) (off : Nat) (data : List α) : Option (List α) :=
  if off + data.length ≤ mem.length then
    some (mem.take off ++ data ++ mem.drop (off + data.length))
  else none

/-- A new buffer holds whatever was there before. -/
def malloc (old : Nat → α) (n : Nat) : List α := (List.range n).map old

@[simp] theorem length_malloc (old : Nat → α) (n : Nat) : (malloc old n).length = n := by
  simp [malloc]

/-- A part of a buffer is loaded by its position. -/
theorem load_append {pre data post : List α} {off len : Nat} (hoff : pre.length = off)
    (hlen : data.length = len) : load (pre ++ (data ++ post)) off len = some data := by
  subst hoff
  subst hlen
  simp [load, ByteFile.readAt]

/-- The first part of a buffer. -/
theorem load_first {data : List α} (post : List α) {len : Nat} (hlen : data.length = len) :
    load (data ++ post) 0 len = some data := by
  have hempty : ([] : List α).length = 0 := rfl
  exact load_append hempty hlen

/-- Positions behind a first part count from its end. -/
theorem load_append_right (pre mem : List α) {off off' : Nat} (hoff : off = pre.length + off')
    (len : Nat) : load (pre ++ mem) off len = load mem off' len := by
  subst hoff
  have hread : ByteFile.readAt (pre ++ mem) (pre.length + off') len =
      ByteFile.readAt mem off' len := by
    unfold ByteFile.readAt
    rw [← List.drop_drop, List.drop_left]
  have hbound : pre.length + off' + len ≤ (pre ++ mem).length ↔ off' + len ≤ mem.length := by
    rw [List.length_append]
    omega
  simp only [load, hread, hbound]

/-- A buffer in three parts of given lengths. -/
theorem exists_parts {mem : List α} {a b c : Nat} (h : mem.length = a + b + c) :
    ∃ pre mid post, mem = pre ++ (mid ++ post) ∧ pre.length = a ∧ mid.length = b ∧
      post.length = c := by
  refine ⟨mem.take a, (mem.drop a).take b, (mem.drop a).drop b, ?_, ?_, ?_, ?_⟩
  · rw [List.take_append_drop, List.take_append_drop]
  · rw [List.length_take]
    omega
  · rw [List.length_take, List.length_drop]
    omega
  · rw [List.length_drop, List.length_drop]
    omega

/-- The whole buffer. -/
theorem load_all {mem : List α} {len : Nat} (h : mem.length = len) :
    load mem 0 len = some mem := by
  subst h
  simp [load, ByteFile.readAt]

/-- A part of a buffer is replaced by data of the same length. -/
theorem store_append {pre old data post : List α} {off : Nat} (hoff : pre.length = off)
    (hlen : old.length = data.length) :
    store (pre ++ (old ++ post)) off data = some (pre ++ (data ++ post)) := by
  subst hoff
  have hfit : pre.length + data.length ≤ (pre ++ (old ++ post)).length := by
    simp only [List.length_append]
    omega
  unfold store
  rw [if_pos hfit, ← hlen, ← List.drop_drop, List.drop_left, List.drop_left, List.take_left,
    List.append_assoc]

/-- The first part of a buffer is replaced. -/
theorem store_first {old data : List α} (post : List α) (hlen : old.length = data.length) :
    store (old ++ post) 0 data = some (data ++ post) := by
  have hempty : ([] : List α).length = 0 := rfl
  exact store_append hempty hlen

/-- The length of a buffer stays the same. -/
theorem length_store {mem mem' data : List α} {off : Nat} (h : store mem off data = some mem') :
    mem'.length = mem.length := by
  unfold store at h
  split at h
  next hfit =>
    obtain rfl := Option.some.inj h
    simp only [List.length_append, List.length_take, List.length_drop]
    omega
  · cases h

/-- A buffer after a store, place by place. -/
theorem getElem?_store {mem mem' data : List α} {off : Nat} (h : store mem off data = some mem')
    (k : Nat) :
    mem'[k]? = if off ≤ k ∧ k < off + data.length then data[k - off]? else mem[k]? := by
  unfold store at h
  split at h
  next hfit =>
    obtain rfl := Option.some.inj h
    have htake : (mem.take off).length = off := by
      rw [List.length_take]
      omega
    rcases lt_or_ge k off with hlt | hge
    · rw [if_neg (by omega), List.append_assoc, List.getElem?_append_left (by omega),
        List.getElem?_take_of_lt hlt]
    · rw [List.append_assoc, List.getElem?_append_right (by omega), htake]
      by_cases hin : k < off + data.length
      · rw [if_pos ⟨hge, hin⟩, List.getElem?_append_left (by omega)]
      · rw [if_neg (by omega), List.getElem?_append_right (by omega), List.getElem?_drop]
        congr 1
        omega
  · cases h

/-- What was stored is loaded. -/
theorem load_store {mem mem' data : List α} {off : Nat} (h : store mem off data = some mem') :
    load mem' off data.length = some data := by
  unfold store at h
  split at h
  next hfit =>
    obtain rfl := Option.some.inj h
    have htake : (mem.take off).length = off := by
      rw [List.length_take]
      omega
    rw [List.append_assoc]
    exact load_append htake rfl
  · cases h

/-- What is behind a store is as it was. -/
theorem load_store_of_le {mem mem' data : List α} {off o : Nat}
    (h : store mem off data = some mem') (hle : off + data.length ≤ o) (len : Nat) :
    load mem' o len = load mem o len := by
  unfold store at h
  split at h
  next hfit =>
    obtain rfl := Option.some.inj h
    have hnew : (mem.take off ++ data).length = off + data.length := by
      rw [List.length_append, List.length_take]
      omega
    have hold : (mem.take (off + data.length)).length = off + data.length := by
      rw [List.length_take]
      omega
    obtain ⟨o', rfl⟩ := Nat.exists_eq_add_of_le hle
    rw [load_append_right _ _ (by rw [hnew])]
    conv_rhs => rw [← List.take_append_drop (off + data.length) mem]
    rw [load_append_right _ _ (by rw [hold])]
  · cases h

/-- The first part of a buffer, or some of it. -/
theorem load_append_left {mem : List α} (post : List α) {off len : Nat}
    (h : off + len ≤ mem.length) : load (mem ++ post) off len = load mem off len := by
  have hlong : off + len ≤ (mem ++ post).length := by
    rw [List.length_append]
    omega
  have hread : ByteFile.readAt (mem ++ post) off len = ByteFile.readAt mem off len := by
    unfold ByteFile.readAt
    rw [List.drop_append_of_le_length (by omega), List.take_append_of_le_length]
    rw [List.length_drop]
    omega
  unfold load
  rw [if_pos h, if_pos hlong, hread]

/-- A part of a part. -/
theorem load_load {mem part : List α} {off n o len : Nat} (h : load mem off n = some part)
    (hle : o + len ≤ n) : load mem (off + o) len = load part o len := by
  unfold load at h
  split at h
  next hfit =>
    obtain ⟨pre, mid, post, rfl, hpre, hmid, -⟩ :=
      exists_parts (show mem.length = off + n + (mem.length - (off + n)) by omega)
    have hpart : part = mid := by
      rw [← Option.some.inj h]
      unfold ByteFile.readAt
      rw [← hpre, List.drop_left, ← hmid, List.take_left]
    rw [load_append_right pre _ (by rw [hpre]), hpart]
    exact load_append_left post (by omega)
  · cases h

theorem length_load {mem part : List α} {off n : Nat} (h : load mem off n = some part) :
    part.length = n := by
  unfold load at h
  split at h
  · rw [← Option.some.inj h, ByteFile.length_readAt]
    omega
  · cases h

/-- A store does the same in front of more memory. -/
theorem store_append_right {mem mem' data : List α} {off : Nat}
    (h : store mem off data = some mem') (post : List α) :
    store (mem ++ post) off data = some (mem' ++ post) := by
  unfold store at h
  split at h
  next hfit =>
    obtain rfl := Option.some.inj h
    have hfit' : off + data.length ≤ (mem ++ post).length := by
      rw [List.length_append]
      omega
    unfold store
    rw [if_pos hfit', List.take_append_of_le_length (by omega),
      List.drop_append_of_le_length hfit]
    simp only [List.append_assoc]
  · cases h

/-! ## Little-endian integers -/

/-- The low `k` bytes of `n`, the lowest first. -/
def encodeLE : Nat → Nat → List UInt8
  | 0, _ => []
  | k + 1, n => UInt8.ofNat (n % 256) :: encodeLE k (n / 256)

/-- The number whose lowest byte comes first. -/
def decodeLE (bytes : List UInt8) : Nat :=
  bytes.foldr (fun b n => n * 256 + b.toNat) 0

@[simp] theorem length_encodeLE (k n : Nat) : (encodeLE k n).length = k := by
  induction k generalizing n with
  | zero => rfl
  | succ k ih => simp [encodeLE, ih]

/-- **Round trip** of a number of at most `k` bytes. -/
theorem decodeLE_encodeLE {k n : Nat} (h : n < 256 ^ k) : decodeLE (encodeLE k n) = n := by
  induction k generalizing n with
  | zero =>
    have hn : n = 0 := by omega
    simp [encodeLE, decodeLE, hn]
  | succ k ih =>
    have hdiv : n / 256 < 256 ^ k := by
      apply Nat.div_lt_of_lt_mul
      rw [pow_succ] at h
      omega
    have hlow : (UInt8.ofNat (n % 256)).toNat = n % 256 := by
      simp
    show decodeLE (encodeLE k (n / 256)) * 256 + (UInt8.ofNat (n % 256)).toNat = n
    rw [ih hdiv, hlow]
    omega

/-- Bytes are the encoding of their number. -/
theorem encodeLE_decodeLE (bytes : List UInt8) :
    encodeLE bytes.length (decodeLE bytes) = bytes := by
  induction bytes with
  | nil => rfl
  | cons b bytes ih =>
    have hdecode : decodeLE (b :: bytes) = decodeLE bytes * 256 + b.toNat := rfl
    have hlt : b.toNat < 256 := b.toNat_lt
    have hlow : (decodeLE bytes * 256 + b.toNat) % 256 = b.toNat := by omega
    have hhigh : (decodeLE bytes * 256 + b.toNat) / 256 = decodeLE bytes := by omega
    rw [hdecode, List.length_cons, encodeLE, hlow, hhigh, ih]
    simp

theorem decodeLE_lt (bytes : List UInt8) : decodeLE bytes < 256 ^ bytes.length := by
  induction bytes with
  | nil => exact Nat.one_pos
  | cons b bytes ih =>
    have hdecode : decodeLE (b :: bytes) = decodeLE bytes * 256 + b.toNat := rfl
    have hlt : b.toNat < 256 := b.toNat_lt
    rw [hdecode, List.length_cons, pow_succ]
    omega

end DTIO.Memory
