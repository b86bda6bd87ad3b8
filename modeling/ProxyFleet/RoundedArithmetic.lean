import Mathlib.Algebra.Order.Field.Rat
import Mathlib.Algebra.Order.Group.MinMax
import Mathlib.Order.Monotone.Basic
import Mathlib.Tactic.Linarith
import Mathlib.Tactic.NormNum
import Mathlib.Tactic.Positivity
import Mathlib.Tactic.Ring

/-!
# Arithmetic that rounds

Each operation of a finite format returns its exact result, rounded. Rounding keeps the order
and the small integers, and moves a number by a bounded part of its size, or of one for a number
below one. Along a chain of operations these errors add up.
-/
namespace ProxyFleet.RoundedArithmetic

/-- Rounding to a format, for numbers of up to 64 bits. -/
structure Rounding where
  round : ℚ → ℚ
  roundoff : ℚ
  mono : Monotone round
  round_int {n : ℤ} : |n| ≤ 2 ^ 53 → round n = n
  roundoff_nonneg : 0 ≤ roundoff
  roundoff_le : roundoff ≤ 1 / 1024
  near {q : ℚ} : |q| ≤ 2 ^ 64 → |round q - q| ≤ roundoff * max 1 |q|

/-- No rounding at all. -/
def Rounding.exact : Rounding where
  round := id
  roundoff := 0
  mono := monotone_id
  round_int _ := rfl
  roundoff_nonneg := le_rfl
  roundoff_le := by norm_num
  near _ := by simp

/-- A number cut to the unit interval. -/
def unit (x : ℚ) : ℚ := max 0 (min 1 x)

theorem unit_nonneg (x : ℚ) : 0 ≤ unit x := le_max_left _ _

theorem unit_le_one (x : ℚ) : unit x ≤ 1 := max_le zero_le_one (min_le_left _ _)

theorem unit_mono : Monotone unit := fun _ _ h => max_le_max le_rfl (min_le_min le_rfl h)

theorem unit_of_le {x : ℚ} (h : x ≤ 0) : unit x = 0 := by
  rw [unit, min_eq_right (h.trans zero_le_one), max_eq_left h]

theorem unit_of_one_le {x : ℚ} (h : 1 ≤ x) : unit x = 1 := by
  rw [unit, min_eq_left h, max_eq_right zero_le_one]

/-- The cut brings no two numbers further apart. -/
theorem abs_unit_sub_le (x y : ℚ) : |unit x - unit y| ≤ |x - y| := by
  have hmax := abs_max_sub_max_le_max 0 (min 1 x) 0 (min 1 y)
  have hmin := abs_min_sub_min_le_max 1 x 1 y
  rw [sub_self, abs_zero] at hmax hmin
  exact hmax.trans (max_le (abs_nonneg _) (hmin.trans (max_le (abs_nonneg _) le_rfl)))

/-- The distance of two numbers is within `r` of the size of the second. -/
def Near (r x y : ℚ) : Prop := |x - y| ≤ r * max 1 |y|

section Sizes

variable {r r' x y c : ℚ}

theorem Near.mono (h : Near r x y) (hr : r ≤ r') : Near r' x y :=
  h.trans (mul_le_mul_of_nonneg_right hr (zero_le_one.trans (le_max_left _ _)))

theorem Near.neg (h : Near r x y) : Near r (-x) (-y) := by
  have hsub : -x - -y = -(x - y) := by ring
  unfold Near
  rw [hsub, abs_neg, abs_neg]
  exact h

/-- What is near a number is not much larger. -/
theorem Near.size_le (h : Near r x y) (hr : r ≤ 1) : max 1 |x| ≤ 2 * max 1 |y| := by
  have hone : 1 ≤ max 1 |y| := le_max_left _ _
  have hy : |y| ≤ max 1 |y| := le_max_right _ _
  have hx : |x| ≤ |x - y| + |y| := by
    have := abs_add_le (x - y) y
    rwa [sub_add_cancel] at this
  have hle : |x - y| ≤ 1 * max 1 |y| := h.trans (mul_le_mul_of_nonneg_right hr (by linarith))
  exact max_le (by linarith) (by linarith)

theorem Near.div (h : Near r x y) (hc : 1 ≤ c) (hr : 0 ≤ r) : Near r (x / c) (y / c) := by
  have hpos : 0 < c := by linarith
  have hsize : max 1 |y| / c ≤ max 1 |y / c| := by
    rw [div_le_iff₀ hpos]
    have hself : |y / c| * c = |y| := by
      rw [abs_div, abs_of_pos hpos, div_mul_cancel₀ _ hpos.ne']
    refine max_le ?_ ?_
    · calc (1 : ℚ) ≤ 1 * c := by linarith
        _ ≤ max 1 |y / c| * c := mul_le_mul_of_nonneg_right (le_max_left _ _) hpos.le
    · rw [← hself]
      exact mul_le_mul_of_nonneg_right (le_max_right _ _) hpos.le
  calc |x / c - y / c| = |x - y| / c := by rw [← sub_div, abs_div, abs_of_pos hpos]
    _ ≤ r * max 1 |y| / c := div_le_div_of_nonneg_right h hpos.le
    _ = r * (max 1 |y| / c) := mul_div_assoc _ _ _
    _ ≤ r * max 1 |y / c| := mul_le_mul_of_nonneg_left hsize hr

theorem Near.one_add (h : Near r x y) (hr : 0 ≤ r) : Near (2 * r) (1 + x) (1 + y) := by
  have hy : |y| ≤ |1 + y| + 1 := by
    have := abs_add_le (1 + y) (-1)
    rwa [abs_neg, abs_one, add_neg_cancel_comm] at this
  have hone : 1 ≤ max 1 |1 + y| := le_max_left _ _
  have hother : |1 + y| ≤ max 1 |1 + y| := le_max_right _ _
  have hsize : max 1 |y| ≤ 2 * max 1 |1 + y| := max_le (by linarith) (by linarith)
  calc |1 + x - (1 + y)| = |x - y| := by rw [add_sub_add_left_eq_sub]
    _ ≤ r * max 1 |y| := h
    _ ≤ r * (2 * max 1 |1 + y|) := mul_le_mul_of_nonneg_left hsize hr
    _ = 2 * r * max 1 |1 + y| := by ring

/-- Far outside the unit interval both numbers are cut alike. -/
theorem Near.unit (h : Near r x y) (hr : r ≤ 1 / 2) (hr0 : 0 ≤ r) :
    |unit x - unit y| ≤ 2 * r := by
  by_cases hlarge : |y| ≤ 2
  · have hsize : max 1 |y| ≤ 2 := max_le (by norm_num) hlarge
    calc |RoundedArithmetic.unit x - RoundedArithmetic.unit y| ≤ |x - y| := abs_unit_sub_le x y
      _ ≤ r * max 1 |y| := h
      _ ≤ r * 2 := mul_le_mul_of_nonneg_left hsize hr0
      _ = 2 * r := mul_comm _ _
  · have hy : 2 < |y| := not_le.mp hlarge
    have hclose : |x - y| ≤ 1 / 2 * |y| := by
      have hle := h.trans (mul_le_mul_of_nonneg_right hr (by positivity))
      rwa [max_eq_right (by linarith)] at hle
    have hsame : RoundedArithmetic.unit x = RoundedArithmetic.unit y := by
      rcases le_total 0 y with hpos | hneg
      · rw [abs_of_nonneg hpos] at hy hclose
        have hx := (abs_le.mp hclose).1
        rw [unit_of_one_le (x := x) (by linarith), unit_of_one_le (by linarith)]
      · rw [abs_of_nonpos hneg] at hy hclose
        have hx := (abs_le.mp hclose).2
        rw [unit_of_le (x := x) (by linarith), unit_of_le hneg]
    rw [hsame, sub_self, abs_zero]
    linarith

end Sizes

namespace Rounding

variable (R : Rounding) {r x y : ℚ}

theorem near_round (h : |x| ≤ 2 ^ 64) : Near R.roundoff (R.round x) x := R.near h

/-- One more rounding. -/
theorem round_near (h : Near r x y) (hr : r ≤ 1) (hx : |x| ≤ 2 ^ 64) :
    Near (2 * R.roundoff + r) (R.round x) y := by
  have hu := R.roundoff_nonneg
  calc |R.round x - y| ≤ |R.round x - x| + |x - y| := abs_sub_le _ _ _
    _ ≤ R.roundoff * max 1 |x| + r * max 1 |y| := add_le_add (R.near hx) h
    _ ≤ R.roundoff * (2 * max 1 |y|) + r * max 1 |y| :=
        add_le_add (mul_le_mul_of_nonneg_left (h.size_le hr) hu) le_rfl
    _ = (2 * R.roundoff + r) * max 1 |y| := by ring

theorem abs_round_sub_le {b : ℚ} (hb : |x| ≤ b) (one : 1 ≤ b) (small : b ≤ 2 ^ 64) :
    |R.round x - x| ≤ R.roundoff * b :=
  (R.near (hb.trans small)).trans
    (mul_le_mul_of_nonneg_left (max_le one hb) R.roundoff_nonneg)

@[simp] theorem round_zero : R.round 0 = 0 := by
  have h := R.round_int (n := 0) (by norm_num)
  simpa using h

@[simp] theorem round_one : R.round 1 = 1 := by
  have h := R.round_int (n := 1) (by norm_num)
  simpa using h

theorem round_nonneg (h : 0 ≤ x) : 0 ≤ R.round x := by
  have hround := R.mono h
  rwa [round_zero] at hround

theorem round_le_one (h : x ≤ 1) : R.round x ≤ 1 := by
  have hround := R.mono h
  rwa [round_one] at hround

theorem one_le_round (h : 1 ≤ x) : 1 ≤ R.round x := by
  have hround := R.mono h
  rwa [round_one] at hround

theorem round_le_int {n : ℤ} (hn : |n| ≤ 2 ^ 53) (h : x ≤ n) : R.round x ≤ n := by
  have hround := R.mono h
  rwa [R.round_int hn] at hround

end Rounding

end ProxyFleet.RoundedArithmetic
