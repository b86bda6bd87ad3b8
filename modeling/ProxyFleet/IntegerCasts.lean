import Mathlib.Tactic.NormNum
import Mathlib.Data.Int.Init

/-!
# Integers of a fixed width

The casts between columns, counters and offsets of 32 and 64 bits.
-/
namespace ProxyFleet

def u32Max : ℕ := 2 ^ 32 - 1

def saturatingSucc (n : ℕ) : ℕ := min (n + 1) u32Max

/-- An integer column read as `u32`. -/
def asU32 (column : ℤ) : ℕ := (max column 0).toNat % 2 ^ 32

/-- An integer read as `u32` by truncation. -/
def truncateU32 (n : ℤ) : ℕ := (n % 2 ^ 32).toNat

/-- A number of 64 bits read as `i64`. -/
def castI64 (n : ℕ) : ℤ := (n : ℤ).bmod (2 ^ 64)

/-- The nearest integer of the width `i64`, as a float is cast. -/
def saturateI64 (n : ℤ) : ℤ := max (-2 ^ 63) (min n (2 ^ 63 - 1))

theorem saturateI64_range (n : ℤ) : -2 ^ 63 ≤ saturateI64 n ∧ saturateI64 n < 2 ^ 63 := by
  unfold saturateI64
  omega

theorem asU32_natCast {n : ℕ} (h : n ≤ u32Max) : asU32 n = n := by
  have : n < 2 ^ 32 := by unfold u32Max at h; omega
  simp only [asU32, Nat.cast_nonneg, max_eq_left, Int.toNat_natCast]
  exact Nat.mod_eq_of_lt this

theorem asU32_le (column : ℤ) : asU32 column ≤ u32Max := by
  have := Nat.mod_lt (max column 0).toNat (show 0 < 2 ^ 32 by decide)
  unfold asU32 u32Max
  omega

/-- A counter that is written and read again keeps its value. -/
theorem asU32_saturatingSucc (column : ℤ) :
    asU32 (saturatingSucc (asU32 column) : ℕ) = saturatingSucc (asU32 column) :=
  asU32_natCast (Nat.min_le_right _ _)

theorem toNat_castI64_of_lt {n : ℕ} (h : n < 2 ^ 63) : (castI64 n).toNat = n := by
  unfold castI64
  rw [Int.bmod_eq_of_le, Int.toNat_natCast]
  · norm_num
  · norm_num
    omega

/-- With the sign bit set the cast is negative. -/
theorem toNat_castI64_of_sign {n : ℕ} (hsign : 2 ^ 63 ≤ n) (hword : n < 2 ^ 64) :
    (castI64 n).toNat = 0 := by
  unfold castI64 Int.bmod
  norm_num
  omega

end ProxyFleet
