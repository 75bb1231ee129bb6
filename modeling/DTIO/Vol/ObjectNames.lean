import DTIO.Foundation.Grid
import Mathlib.Data.List.GetD

/-!
# Names of Objects

The connector stores the metadata of an HDF5 object and every chunk of a dataset in an object of
its own, named by the file, the binary oid, the rank and the start of the chunk
(`H5VL_dtio_oid_create_string_name` and `H5VL_dtio_oid_create_chunk` in
`adapter/vol/vol-old/H5VLDTIO.cc`).

## Main results

- `chunkName_inj`: chunks of one dataset have different names
- `chunkName_ne_of_oid`, `chunkName_ne_stringName`: so have chunks of two datasets of a file, and
  chunks and metadata
-/

namespace DTIO.Vol

open DTIO.Grid

/-- The name of an object. -/
abbrev Key := List Char

/-! ## Numbers -/

/-- A digit of `%X`. -/
def hexDigit (d : Nat) : Char :=
  ['0', '1', '2', '3', '4', '5', '6', '7', '8', '9', 'A', 'B', 'C', 'D', 'E', 'F'].getD d '0'

/-- The last `k` hexadecimal digits; `%016llX` of a 64-bit number for `k = 16`. -/
def hex : Nat → Nat → Key
  | 0, _ => []
  | k + 1, n => hex k (n / 16) ++ [hexDigit (n % 16)]

/-- `%02d` of a number of at most two digits. -/
def decimal2 (n : Nat) : Key := [hexDigit (n / 10), hexDigit (n % 10)]

theorem hexDigit_inj {a b : Nat} (ha : a < 16) (hb : b < 16) (h : hexDigit a = hexDigit b) :
    a = b := by
  have hall : ∀ x y : Fin 16, hexDigit x = hexDigit y → x = y := by decide
  exact congrArg Fin.val (hall ⟨a, ha⟩ ⟨b, hb⟩ h)

/-- No digit is the first letter of the name of metadata. -/
theorem hexDigit_ne (d : Nat) : hexDigit d ≠ 'o' := by
  rcases lt_or_ge d 16 with hd | hd
  · have hall : ∀ x : Fin 16, hexDigit x ≠ 'o' := by decide
    exact hall ⟨d, hd⟩
  · unfold hexDigit
    rw [List.getD_eq_default _ _ hd]
    decide

@[simp] theorem length_hex (k n : Nat) : (hex k n).length = k := by
  induction k generalizing n with
  | zero => rfl
  | succ k ih => simp [hex, ih]

/-- Numbers that fit have different digits. -/
theorem hex_inj {k n m : Nat} (hn : n < 16 ^ k) (hm : m < 16 ^ k) (h : hex k n = hex k m) :
    n = m := by
  induction k generalizing n m with
  | zero =>
    rw [pow_zero] at hn hm
    omega
  | succ k ih =>
    rw [pow_succ] at hn hm
    obtain ⟨hhigh, hlow⟩ := List.append_inj h (by simp)
    have hdiv : n / 16 = m / 16 :=
      ih (Nat.div_lt_of_lt_mul (by omega)) (Nat.div_lt_of_lt_mul (by omega)) hhigh
    have hmod : n % 16 = m % 16 :=
      hexDigit_inj (Nat.mod_lt _ (by decide)) (Nat.mod_lt _ (by decide)) (List.cons.inj hlow).1
    omega

/-! ## Names -/

/-- `H5VL_dtio_oid_create_string_name`: the object of the metadata. -/
def stringName (fileName : Key) (binOid : Nat) : Key := 'o' :: 'b' :: fileName ++ hex 16 binOid

/-- What `H5VL_dtio_oid_create_chunk` encodes; `chunkLoc` has at least `rank` entries. -/
def chunkName (fileName : Key) (binOid rank : Nat) (chunkLoc : Coord) : Key :=
  decimal2 rank ++ (fileName ++ (hex 16 binOid ++ (chunkLoc.take rank).flatMap (hex 16)))

theorem length_chunkName (fileName : Key) (binOid : Nat) {rank : Nat} {loc : Coord}
    (h : rank ≤ loc.length) :
    (chunkName fileName binOid rank loc).length = 2 + fileName.length + 16 + rank * 16 := by
  simp [chunkName, decimal2, List.length_flatMap, h]
  omega

theorem flatMap_hex_inj {s t : Coord} (hs : ∀ a ∈ s, a < 18446744073709551616)
    (ht : ∀ a ∈ t, a < 18446744073709551616) (hlen : s.length = t.length)
    (h : s.flatMap (hex 16) = t.flatMap (hex 16)) : s = t := by
  induction s generalizing t with
  | nil =>
    cases t with
    | nil => rfl
    | cons b t => cases hlen
  | cons a s ih =>
    cases t with
    | nil => cases hlen
    | cons b t =>
      obtain ⟨hhead, htail⟩ := List.append_inj h (by simp)
      have hab : a = b := hex_inj (hs a List.mem_cons_self) (ht b List.mem_cons_self) hhead
      rw [hab, ih (fun x hx => hs x (List.mem_cons_of_mem _ hx))
        (fun x hx => ht x (List.mem_cons_of_mem _ hx)) (Nat.succ.inj hlen) htail]

/-- Chunks of one dataset have different names. -/
theorem chunkName_inj {fileName : Key} {binOid rank : Nat} {s t : Coord}
    (hs : ∀ a ∈ s.take rank, a < 18446744073709551616)
    (ht : ∀ a ∈ t.take rank, a < 18446744073709551616)
    (hlen : (s.take rank).length = (t.take rank).length)
    (h : chunkName fileName binOid rank s = chunkName fileName binOid rank t) :
    s.take rank = t.take rank :=
  flatMap_hex_inj hs ht hlen
    (List.append_cancel_left (List.append_cancel_left (List.append_cancel_left h)))

/-- Chunks of two datasets of a file have different names. -/
theorem chunkName_ne_of_oid (fileName : Key) {binOid binOid' : Nat} (rank rank' : Nat)
    (s t : Coord) (ho : binOid < 18446744073709551616) (ho' : binOid' < 18446744073709551616)
    (hne : binOid ≠ binOid') :
    chunkName fileName binOid rank s ≠ chunkName fileName binOid' rank' t := by
  intro h
  obtain ⟨-, h⟩ := List.append_inj h rfl
  obtain ⟨hoid, -⟩ := List.append_inj (List.append_cancel_left h) (by simp)
  exact hne (hex_inj ho ho' hoid)

/-- Chunks and metadata have different names, whatever the files are. -/
theorem chunkName_ne_stringName (fileName fileName' : Key) (binOid binOid' rank : Nat)
    (s : Coord) : chunkName fileName binOid rank s ≠ stringName fileName' binOid' := by
  intro h
  exact hexDigit_ne _ (List.cons.inj h).1

end DTIO.Vol
