import Mathlib.Tactic.NormNum

/-!
# Fixed-Width Integers

Conversions between the unsigned and signed 64-bit and 32-bit integer types of the C data
model, on `Int` and `Nat`.  A value converted to a signed type is the representative of its
residue class in `[-2^(w-1), 2^(w-1))`, a value converted to an unsigned type the one in
`[0, 2^w)`.
-/

namespace DTIO.MachineInt

/-- The largest value of a signed 64-bit integer. -/
def maxSigned64 : Nat := 9223372036854775807

/-- Conversion to a signed 64-bit type. -/
def toSigned64 (x : Int) : Int := Int.bmod x 18446744073709551616

/-- Conversion to an unsigned 64-bit type. -/
def toUnsigned64 (x : Int) : Nat := (x % 18446744073709551616).toNat

/-- Conversion to a signed 32-bit type. -/
def toSigned32 (x : Int) : Int := Int.bmod x 4294967296

/-- Conversion to an unsigned 32-bit type. -/
def toUnsigned32 (x : Int) : Nat := (x % 4294967296).toNat

/-- Representable values are unchanged. -/
theorem toSigned64_of_le {n : Nat} (h : n ≤ maxSigned64) : toSigned64 n = n := by
  unfold maxSigned64 at h
  exact Int.bmod_eq_of_le_mul_two (by omega) (by omega)

theorem toSigned64_of_lt {n : Nat} (h : n < 9223372036854775808) : toSigned64 n = n :=
  toSigned64_of_le (Nat.le_of_lt_succ h)

theorem toUnsigned64_lt (x : Int) : toUnsigned64 x < 18446744073709551616 := by
  unfold toUnsigned64
  omega

/-- A result of an arithmetic operation that does not wrap. -/
theorem toUnsigned64_eq {x : Int} {n : Nat} (h : x = n) (hn : n < 18446744073709551616) :
    toUnsigned64 x = n := by
  unfold toUnsigned64
  omega

theorem toUnsigned64_of_lt {n : Nat} (h : n < 18446744073709551616) :
    toUnsigned64 (n : Int) = n :=
  toUnsigned64_eq rfl h

theorem toUnsigned64_of_le {n : Nat} (h : n ≤ maxSigned64) : toUnsigned64 n = n := by
  unfold maxSigned64 at h
  exact toUnsigned64_of_lt (by omega)

theorem toSigned64_lt (x : Int) : toSigned64 x ≤ maxSigned64 := by
  have h := Int.bmod_lt (x := x) (m := 18446744073709551616) (by norm_num)
  unfold toSigned64 maxSigned64
  omega

/-- A 64-bit count converted to a signed type is non-negative only when it is representable,
and then it is the same number. -/
theorem toSigned64_eq_natCast_iff {n k : Nat} (hn : n < 18446744073709551616) :
    toSigned64 n = k ↔ n = k ∧ n ≤ maxSigned64 := by
  constructor
  · intro h
    have hle := toSigned64_lt n
    have hmod : (toSigned64 n) % 18446744073709551616 = (n : Int) % 18446744073709551616 :=
      Int.bmod_emod
    rw [h] at hle hmod
    unfold maxSigned64 at hle ⊢
    omega
  · rintro ⟨rfl, hle⟩
    exact toSigned64_of_le hle

end DTIO.MachineInt
