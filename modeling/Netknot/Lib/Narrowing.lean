import Mathlib.Algebra.Group.Int.Defs
import Mathlib.Algebra.Group.Nat.Defs
import Mathlib.Data.Int.Notation
import Mathlib.Tactic.Common

/-!
# Narrowing and Widening

The conversions between integer types of a machine with two's complement: `toSigned n x` is
the signed `n`-bit integer with the low bits of `x`, and `toUnsigned n x` the unsigned one. A
conversion to a narrower type drops bits; one of a negative number to a wider unsigned type
sets all the high bits.

## Main results

* `toSigned_of_lt`, `toSigned_of_ge`: the sign bit decides.
* `toUnsigned_of_nonneg`, `toUnsigned_of_neg`: what sign extension makes of a number.
* `toSigned_eq_self`: a number in range is not changed.
-/

namespace Narrowing

/-- The conversion to a signed integer of `n` bits. -/
def toSigned (n : ℕ) (x : ℤ) : ℤ := x.bmod (2 ^ n)

/-- The conversion to an unsigned integer of `n` bits. -/
def toUnsigned (n : ℕ) (x : ℤ) : ℕ := (x % 2 ^ n).toNat

variable {n k : ℕ} {x : ℤ}

/-- **The sign bit is clear.** -/
theorem toSigned_of_lt (h : x % 2 ^ (k + 1) < 2 ^ k) : toSigned (k + 1) x = x % 2 ^ (k + 1) := by
  rw [toSigned, Int.bmod_def]
  push_cast
  rw [if_pos]
  rw [pow_succ] at h ⊢
  omega

/-- **The sign bit is set.** -/
theorem toSigned_of_ge (h : 2 ^ k ≤ x % 2 ^ (k + 1)) :
    toSigned (k + 1) x = x % 2 ^ (k + 1) - 2 ^ (k + 1) := by
  rw [toSigned, Int.bmod_def]
  push_cast
  rw [if_neg]
  rw [pow_succ] at h ⊢
  omega

/-- A number in the range of the signed type is not changed. -/
theorem toSigned_eq_self (h0 : 0 ≤ x) (h : x < 2 ^ k) : toSigned (k + 1) x = x := by
  have hmod : x % 2 ^ (k + 1) = x := by
    refine Int.emod_eq_of_lt h0 ?_
    rw [pow_succ]
    omega
  rw [toSigned_of_lt (by rwa [hmod]), hmod]

/-- A nonnegative number that fits is all in its low bits. -/
theorem toUnsigned_of_nonneg (h0 : 0 ≤ x) (h : x < 2 ^ n) : (toUnsigned n x : ℤ) = x := by
  rw [toUnsigned, Int.emod_eq_of_lt h0 h, Int.toNat_of_nonneg h0]

/-- **Sign extension**: a negative number becomes large. -/
theorem toUnsigned_of_neg (h0 : x < 0) (h : -2 ^ n ≤ x) : (toUnsigned n x : ℤ) = 2 ^ n + x := by
  have hmod : x % 2 ^ n = 2 ^ n + x := by
    rw [← Int.add_emod_left (2 ^ n) x]
    exact Int.emod_eq_of_lt (by omega) (by omega)
  rw [toUnsigned, hmod, Int.toNat_of_nonneg (by omega)]

end Narrowing
