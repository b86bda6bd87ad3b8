import Mathlib
import ProxyFleet.ReaderQueries
import ProxyFleet.RoundedArithmetic

/-!
# The score of a VIP candidate

The score weighs four columns, each cut to its own range, in rounded arithmetic. It keeps the
order of every column, and it lies within a fixed number of roundoffs of the exact sum.
-/
namespace ProxyFleet

open RoundedArithmetic

namespace RoundedArithmetic.Rounding

variable (R : Rounding)

/-- A number of the unit interval times a weight, which is rounded as well. -/
def weigh (x weight : ℚ) : ℚ := R.round (x * R.round weight)

def downloadUnit (kbps : ℤ) : ℚ := unit (R.round (R.round kbps / 1000))

def latencyUnit (delay : ℤ) : ℚ :=
  unit (R.round (1 + R.round (-1 * R.round (R.round delay / 3000))))

def lowUse (uses : ℕ) : ℚ := R.round (1 / R.round (1 + R.round uses))

/-- The sum of the first two parts of the score. -/
def vipTwo (health : ℚ) (kbps : ℤ) : ℚ :=
  R.round (R.weigh health (55 / 100) + R.weigh (R.downloadUnit kbps) (22 / 100))

def vipThree (health : ℚ) (kbps delay : ℤ) : ℚ :=
  R.round (R.vipTwo health kbps + R.weigh (R.latencyUnit delay) (15 / 100))

/-- The score as it is computed. -/
def vipScore (health : ℚ) (kbps delay : ℤ) (uses : ℕ) : ℚ :=
  R.round (R.vipThree health kbps delay + R.weigh (R.lowUse uses) (8 / 100))

section Order

variable {x y weight : ℚ}

theorem weigh_nonneg (hx : 0 ≤ x) (hw : 0 ≤ weight) : 0 ≤ R.weigh x weight :=
  R.round_nonneg (mul_nonneg hx (R.round_nonneg hw))

theorem weigh_le_one (hx1 : x ≤ 1) (hw : 0 ≤ weight) (hw1 : weight ≤ 1) :
    R.weigh x weight ≤ 1 :=
  R.round_le_one (mul_le_one₀ hx1 (R.round_nonneg hw) (R.round_le_one hw1))

theorem weigh_mono (h : x ≤ y) (weight : ℚ) (hw : 0 ≤ weight) :
    R.weigh x weight ≤ R.weigh y weight :=
  R.mono (mul_le_mul_of_nonneg_right h (R.round_nonneg hw))

theorem downloadUnit_mono : Monotone R.downloadUnit := by
  intro kbps kbps' h
  apply unit_mono
  apply R.mono
  exact div_le_div_of_nonneg_right (R.mono (Int.cast_le.mpr h)) (by norm_num)

theorem latencyUnit_anti : Antitone R.latencyUnit := by
  intro delay delay' h
  have hslow : R.round (R.round delay / 3000) ≤ R.round (R.round delay' / 3000) :=
    R.mono (div_le_div_of_nonneg_right (R.mono (Int.cast_le.mpr h)) (by norm_num))
  have hminus : R.round (-1 * R.round (R.round delay' / 3000)) ≤
      R.round (-1 * R.round (R.round delay / 3000)) := R.mono (by linarith)
  apply unit_mono
  apply R.mono
  linarith

theorem one_le_uses (uses : ℕ) : 1 ≤ R.round (1 + R.round uses) := by
  have huses : 0 ≤ R.round uses := R.round_nonneg (Nat.cast_nonneg uses)
  exact R.one_le_round (by linarith)

theorem lowUse_anti : Antitone R.lowUse := by
  intro uses uses' h
  have hround : R.round uses ≤ R.round uses' := R.mono (Nat.cast_le.mpr h)
  apply R.mono
  apply one_div_le_one_div_of_le
  · linarith [R.one_le_uses uses]
  · exact R.mono (by linarith)

theorem lowUse_nonneg (uses : ℕ) : 0 ≤ R.lowUse uses :=
  R.round_nonneg (one_div_nonneg.mpr (by linarith [R.one_le_uses uses]))

theorem lowUse_le_one (uses : ℕ) : R.lowUse uses ≤ 1 :=
  R.round_le_one ((div_le_one (by linarith [R.one_le_uses uses])).mpr (R.one_le_uses uses))

/-- More than 1000 kbps count as 1000, and fewer than none as none. -/
theorem downloadUnit_cut (kbps : ℤ) :
    R.downloadUnit kbps = R.downloadUnit (max 0 (min 1000 kbps)) := by
  have hfull : R.downloadUnit 1000 = 1 := by
    have hround : R.round ((1000 : ℤ) : ℚ) = 1000 := by
      rw [R.round_int (by norm_num)]
      norm_num
    rw [downloadUnit, hround, div_self (by norm_num), round_one, unit_of_one_le le_rfl]
  have hnone : R.downloadUnit 0 = 0 := by
    rw [downloadUnit, Int.cast_zero, round_zero, zero_div, round_zero, unit_of_le le_rfl]
  rcases le_total kbps 0 with hneg | hpos
  · rw [min_eq_right (by omega), max_eq_left hneg, hnone]
    exact le_antisymm (hnone ▸ R.downloadUnit_mono hneg) (unit_nonneg _)
  · rcases le_total 1000 kbps with hlarge | hsmall
    · rw [min_eq_left hlarge, max_eq_right (by norm_num), hfull]
      exact le_antisymm (unit_le_one _) (hfull ▸ R.downloadUnit_mono hlarge)
    · rw [min_eq_right hsmall, max_eq_right hpos]

/-- A delay of more than three seconds counts as three, and a negative one as none. -/
theorem latencyUnit_cut (delay : ℤ) :
    R.latencyUnit delay = R.latencyUnit (max 0 (min 3000 delay)) := by
  have hslow : R.latencyUnit 3000 = 0 := by
    have hround : R.round ((3000 : ℤ) : ℚ) = 3000 := by
      rw [R.round_int (by norm_num)]
      norm_num
    have hminus : R.round (-1) = -1 := by
      have h := R.round_int (n := -1) (by norm_num)
      simpa using h
    rw [latencyUnit, hround, div_self (by norm_num), round_one, mul_one, hminus, add_neg_cancel,
      round_zero, unit_of_le le_rfl]
  have hnone : R.latencyUnit 0 = 1 := by
    rw [latencyUnit, Int.cast_zero, round_zero, zero_div, round_zero, mul_zero, round_zero,
      add_zero, round_one, unit_of_one_le le_rfl]
  rcases le_total delay 0 with hneg | hpos
  · rw [min_eq_right (by omega), max_eq_left hneg, hnone]
    exact le_antisymm (unit_le_one _) (hnone ▸ R.latencyUnit_anti hneg)
  · rcases le_total 3000 delay with hlarge | hsmall
    · rw [min_eq_left hlarge, max_eq_right (by norm_num), hslow]
      exact le_antisymm (hslow ▸ R.latencyUnit_anti hlarge) (unit_nonneg _)
    · rw [min_eq_right hsmall, max_eq_right hpos]

/-- The score keeps the order of each column, inside its range. -/
theorem vipScore_mono {health health' : ℚ} {kbps kbps' delay delay' : ℤ} {uses uses' : ℕ}
    (hhealth : health ≤ health') (hkbps : max 0 (min 1000 kbps) ≤ max 0 (min 1000 kbps'))
    (hdelay : max 0 (min 3000 delay') ≤ max 0 (min 3000 delay)) (huses : uses' ≤ uses) :
    R.vipScore health kbps delay uses ≤ R.vipScore health' kbps' delay' uses' := by
  have hdownload : R.downloadUnit kbps ≤ R.downloadUnit kbps' := by
    rw [downloadUnit_cut, R.downloadUnit_cut kbps']
    exact R.downloadUnit_mono hkbps
  have hlatency : R.latencyUnit delay ≤ R.latencyUnit delay' := by
    rw [latencyUnit_cut, R.latencyUnit_cut delay']
    exact R.latencyUnit_anti hdelay
  have hsum := add_le_add (R.weigh_mono hhealth (55 / 100) (by norm_num))
    (R.weigh_mono hdownload (22 / 100) (by norm_num))
  have hthree := add_le_add (R.mono hsum) (R.weigh_mono hlatency (15 / 100) (by norm_num))
  have hfour := add_le_add (R.mono hthree)
    (R.weigh_mono (R.lowUse_anti huses) (8 / 100) (by norm_num))
  exact R.mono hfour

end Order

section Errors

variable {x y e : ℚ}

theorem weigh_error (hx : 0 ≤ x) (hx1 : x ≤ 1) (h : |x - y| ≤ e) (weight : ℚ) (hw : 0 ≤ weight)
    (hw1 : weight ≤ 1) : |R.weigh x weight - y * weight| ≤ e + 2 * R.roundoff := by
  have hW := R.abs_round_sub_le (b := 1) (x := weight) (by rwa [abs_of_nonneg hw]) le_rfl
    (by norm_num)
  have hW0 := R.round_nonneg hw
  have hW1 := R.round_le_one hw1
  have hproduct : |x * R.round weight| ≤ 1 := by
    rw [abs_of_nonneg (mul_nonneg hx hW0)]
    exact mul_le_one₀ hx1 hW0 hW1
  have hround := R.abs_round_sub_le hproduct le_rfl (by norm_num)
  have hsplit : R.weigh x weight - y * weight =
      (R.weigh x weight - x * R.round weight) + (x * (R.round weight - weight) +
        weight * (x - y)) := by ring
  have hleft : |x * (R.round weight - weight)| ≤ R.roundoff := by
    rw [abs_mul, abs_of_nonneg hx]
    calc x * |R.round weight - weight| ≤ 1 * |R.round weight - weight| :=
          mul_le_mul_of_nonneg_right hx1 (abs_nonneg _)
      _ ≤ R.roundoff := by linarith
  have hright : |weight * (x - y)| ≤ e := by
    rw [abs_mul, abs_of_nonneg hw]
    calc weight * |x - y| ≤ 1 * |x - y| := mul_le_mul_of_nonneg_right hw1 (abs_nonneg _)
      _ ≤ e := by linarith
  rw [hsplit]
  have houter := abs_add_le (R.weigh x weight - x * R.round weight)
    (x * (R.round weight - weight) + weight * (x - y))
  have hinner := abs_add_le (x * (R.round weight - weight)) (weight * (x - y))
  have hself : |R.weigh x weight - x * R.round weight| ≤ R.roundoff * 1 := hround
  linarith

/-- Rounding leaves room in the range. -/
theorem abs_round_le {b : ℚ} (hx : |x| ≤ b) (one : 1 ≤ b) (small : b ≤ 2 ^ 64) :
    |R.round x| ≤ 3 / 2 * b := by
  have hround := R.abs_round_sub_le hx one small
  have htriangle := abs_add_le (R.round x - x) x
  rw [sub_add_cancel] at htriangle
  have hpart : R.roundoff * b ≤ 1 / 1024 * b :=
    mul_le_mul_of_nonneg_right R.roundoff_le (by linarith)
  linarith

section Scaled

variable {n : ℤ} (h : |(n : ℚ)| ≤ 2 ^ 63) (scale : ℚ) (hscale : 1000 ≤ scale)
include h hscale

/-- A 64-bit integer, rounded and divided by a scale. -/
theorem abs_scaled_le : |R.round n / scale| ≤ 2 ^ 55 := by
  have hround := R.abs_round_le h (by norm_num) (by norm_num)
  rw [abs_div, abs_of_pos (by linarith : (0 : ℚ) < scale), div_le_iff₀ (by linarith)]
  nlinarith

theorem scaled_near : Near (3 * R.roundoff) (R.round (R.round n / scale)) (n / scale) := by
  have hu := R.roundoff_nonneg
  have hsmall := R.roundoff_le
  have hdiv : Near R.roundoff (R.round n / scale) (n / scale) :=
    (R.near_round (h.trans (by norm_num))).div (by linarith) hu
  have hbound := R.abs_scaled_le h scale hscale
  exact (R.round_near hdiv (by linarith) (hbound.trans (by norm_num))).mono (by linarith)

theorem abs_minus_scaled_le : |-1 * R.round (R.round n / scale)| ≤ 2 ^ 56 := by
  have hround := R.abs_round_le (R.abs_scaled_le h scale hscale) (by norm_num) (by norm_num)
  rw [neg_one_mul, abs_neg]
  linarith

theorem abs_one_add_scaled_le : |1 + R.round (-1 * R.round (R.round n / scale))| ≤ 2 ^ 64 := by
  have hround := R.abs_round_le (R.abs_minus_scaled_le h scale hscale) (by norm_num) (by norm_num)
  have hone := abs_add_le 1 (R.round (-1 * R.round (R.round n / scale)))
  rw [abs_one] at hone
  linarith

end Scaled

theorem downloadUnit_error {kbps : ℤ} (h : |(kbps : ℚ)| ≤ 2 ^ 63) :
    |R.downloadUnit kbps - unit (kbps / 1000)| ≤ 6 * R.roundoff := by
  have hu := R.roundoff_nonneg
  have hsmall := R.roundoff_le
  have hcut := (R.scaled_near h 1000 le_rfl).unit (by linarith) (by linarith)
  unfold downloadUnit
  linarith

theorem latencyUnit_error {delay : ℤ} (h : |(delay : ℚ)| ≤ 2 ^ 63) :
    |R.latencyUnit delay - unit (1 - delay / 3000)| ≤ 24 * R.roundoff := by
  have hu := R.roundoff_nonneg
  have hsmall := R.roundoff_le
  have hminus := R.abs_minus_scaled_le h 3000 (by norm_num)
  have hnegated : Near (5 * R.roundoff) (R.round (-1 * R.round (R.round delay / 3000)))
      (-(delay / 3000)) := by
    refine (R.round_near ?_ (r := 3 * R.roundoff) (by linarith) (hminus.trans (by norm_num))).mono
      (by linarith)
    rw [neg_one_mul]
    exact (R.scaled_near h 3000 (by norm_num)).neg
  have hbound := R.abs_one_add_scaled_le h 3000 (by norm_num)
  have hdifference := R.round_near (hnegated.one_add (by linarith)) (by linarith) hbound
  have hcut := hdifference.unit (by linarith) (by linarith)
  rw [← sub_eq_add_neg] at hcut
  unfold latencyUnit
  linarith

theorem abs_uses_le {uses : ℕ} (h : uses < 2 ^ 63) : |(uses : ℚ)| ≤ 2 ^ 63 := by
  rw [abs_of_nonneg (Nat.cast_nonneg uses)]
  exact_mod_cast h.le

theorem abs_one_add_uses_le {uses : ℕ} (h : uses < 2 ^ 63) : |1 + R.round uses| ≤ 2 ^ 64 := by
  have hround := R.abs_round_le (abs_uses_le h) (by norm_num) (by norm_num)
  have hone := abs_add_le 1 (R.round uses)
  rw [abs_one] at hone
  linarith

theorem lowUse_error {uses : ℕ} (h : uses < 2 ^ 63) :
    |R.lowUse uses - 1 / (1 + uses)| ≤ 5 * R.roundoff := by
  have hu := R.roundoff_nonneg
  have hsmall := R.roundoff_le
  have huses : (0 : ℚ) ≤ uses := Nat.cast_nonneg uses
  have hle := abs_uses_le h
  have hsum := R.abs_one_add_uses_le h
  have hnear : Near (4 * R.roundoff) (R.round (1 + R.round uses)) (1 + uses) :=
    (R.round_near ((R.near_round (hle.trans (by norm_num))).one_add hu) (by linarith) hsum).mono
      (by linarith)
  have hdenominator := R.one_le_uses uses
  set denominator := R.round (1 + R.round uses) with hdef
  have hexact : max 1 |(1 : ℚ) + uses| = 1 + uses := by
    rw [abs_of_nonneg (by linarith), max_eq_right (by linarith)]
  unfold Near at hnear
  rw [hexact] at hnear
  have hquotient : |1 / denominator - 1 / (1 + uses)| ≤ 4 * R.roundoff := by
    have hsub : 1 / denominator - 1 / (1 + uses) =
        -(denominator - (1 + uses)) / (denominator * (1 + uses)) := by
      have hne : denominator ≠ 0 := by linarith
      have hne' : (1 : ℚ) + uses ≠ 0 := by linarith
      field_simp
      ring
    have hpos : 0 < denominator * (1 + uses) := mul_pos (by linarith) (by linarith)
    rw [hsub, abs_div, abs_neg, abs_of_pos hpos, div_le_iff₀ hpos]
    calc |denominator - (1 + uses)| ≤ 4 * R.roundoff * (1 + uses) := hnear
      _ ≤ 4 * R.roundoff * (denominator * (1 + uses)) := by
          refine mul_le_mul_of_nonneg_left ?_ (by linarith)
          exact le_mul_of_one_le_left (by linarith) hdenominator
  have hlow : |1 / denominator| ≤ 1 := by
    rw [abs_of_nonneg (one_div_nonneg.mpr (by linarith)), div_le_one (by linarith)]
    exact hdenominator
  have hlast := R.abs_round_sub_le hlow le_rfl (by norm_num)
  have htriangle := abs_sub_le (R.lowUse uses) (1 / denominator) (1 / (1 + (uses : ℚ)))
  have hself : |R.lowUse uses - 1 / denominator| ≤ R.roundoff * 1 := hlast
  linarith

/-- One more part of the sum. -/
theorem round_add {s c : ℚ} (n : ℕ) (hn : n < 1000) (hs : 0 ≤ s ∧ s ≤ n) (hc : 0 ≤ c ∧ c ≤ 1) :
    (0 ≤ R.round (s + c) ∧ R.round (s + c) ≤ (n + 1 : ℕ)) ∧
      |R.round (s + c) - (s + c)| ≤ R.roundoff * (n + 1 : ℕ) := by
  have hn0 : (0 : ℚ) ≤ n := Nat.cast_nonneg n
  have hn1 : (n : ℚ) ≤ 1000 := by exact_mod_cast hn.le
  have hsum : 0 ≤ s + c := add_nonneg hs.1 hc.1
  have hle : s + c ≤ (n + 1 : ℕ) := by
    push_cast
    linarith [hs.2, hc.2]
  refine ⟨⟨R.round_nonneg hsum, ?_⟩, ?_⟩
  · have hint : |((n + 1 : ℕ) : ℤ)| ≤ 2 ^ 53 := by
      rw [abs_of_nonneg (Int.natCast_nonneg _)]
      omega
    have hround := R.round_le_int hint (x := s + c) (by exact_mod_cast hle)
    exact_mod_cast hround
  · refine R.abs_round_sub_le (by rwa [abs_of_nonneg hsum]) ?_ ?_
    · push_cast
      linarith
    · push_cast
      linarith

section Sums

variable {health : ℚ} (hhealth : 0 ≤ health ∧ health ≤ 1) (kbps delay : ℤ) (uses : ℕ)

theorem weigh_range (hx : 0 ≤ x ∧ x ≤ 1) (weight : ℚ) (hw : 0 ≤ weight ∧ weight ≤ 1) :
    0 ≤ R.weigh x weight ∧ R.weigh x weight ≤ 1 :=
  ⟨R.weigh_nonneg hx.1 hw.1, R.weigh_le_one hx.2 hw.1 hw.2⟩

theorem download_range :
    0 ≤ R.weigh (R.downloadUnit kbps) (22 / 100) ∧ R.weigh (R.downloadUnit kbps) (22 / 100) ≤ 1 :=
  R.weigh_range ⟨unit_nonneg _, unit_le_one _⟩ _ (by norm_num)

theorem latency_range :
    0 ≤ R.weigh (R.latencyUnit delay) (15 / 100) ∧ R.weigh (R.latencyUnit delay) (15 / 100) ≤ 1 :=
  R.weigh_range ⟨unit_nonneg _, unit_le_one _⟩ _ (by norm_num)

theorem lowUse_range :
    0 ≤ R.weigh (R.lowUse uses) (8 / 100) ∧ R.weigh (R.lowUse uses) (8 / 100) ≤ 1 :=
  R.weigh_range ⟨R.lowUse_nonneg uses, R.lowUse_le_one uses⟩ _ (by norm_num)

include hhealth

theorem health_range : 0 ≤ R.weigh health (55 / 100) ∧ R.weigh health (55 / 100) ≤ (1 : ℕ) := by
  rw [Nat.cast_one]
  exact R.weigh_range hhealth _ (by norm_num)

theorem vipTwo_range : 0 ≤ R.vipTwo health kbps ∧ R.vipTwo health kbps ≤ (2 : ℕ) :=
  (R.round_add 1 (by norm_num) (R.health_range hhealth) (R.download_range kbps)).1

theorem vipThree_range :
    0 ≤ R.vipThree health kbps delay ∧ R.vipThree health kbps delay ≤ (3 : ℕ) :=
  (R.round_add 2 (by norm_num) (R.vipTwo_range hhealth kbps) (R.latency_range delay)).1

end Sums

/-- The score is within 64 roundoffs of the exact sum. -/
theorem vipScore_error {health : ℚ} {kbps delay : ℤ} {uses : ℕ} (hhealth : 0 ≤ health ∧ health ≤ 1)
    (hkbps : |(kbps : ℚ)| ≤ 2 ^ 63) (hdelay : |(delay : ℚ)| ≤ 2 ^ 63) (huses : uses < 2 ^ 63) :
    |R.vipScore health kbps delay uses - (health * (55 / 100) + unit (kbps / 1000) * (22 / 100) +
      unit (1 - delay / 3000) * (15 / 100) + 1 / (1 + uses) * (8 / 100))| ≤ 64 * R.roundoff := by
  have hu := R.roundoff_nonneg
  have hA := R.weigh_error hhealth.1 hhealth.2 (by rw [sub_self, abs_zero]) (55 / 100)
    (by norm_num) (by norm_num)
  have hB := R.weigh_error (x := R.downloadUnit kbps) (unit_nonneg _) (unit_le_one _)
    (R.downloadUnit_error hkbps) (22 / 100) (by norm_num) (by norm_num)
  have hC := R.weigh_error (x := R.latencyUnit delay) (unit_nonneg _) (unit_le_one _)
    (R.latencyUnit_error hdelay) (15 / 100) (by norm_num) (by norm_num)
  have hD := R.weigh_error (R.lowUse_nonneg uses) (R.lowUse_le_one uses) (R.lowUse_error huses)
    (8 / 100) (by norm_num) (by norm_num)
  have htwo := (R.round_add 1 (by norm_num) (R.health_range hhealth) (R.download_range kbps)).2
  have hthree :=
    (R.round_add 2 (by norm_num) (R.vipTwo_range hhealth kbps) (R.latency_range delay)).2
  have hfour := (R.round_add 3 (by norm_num) (R.vipThree_range hhealth kbps delay)
    (R.lowUse_range uses)).2
  rw [← vipTwo] at htwo
  rw [← vipThree] at hthree
  rw [← vipScore] at hfour
  push_cast at htwo hthree hfour
  obtain ⟨hAl, hAr⟩ := abs_le.mp hA
  obtain ⟨hBl, hBr⟩ := abs_le.mp hB
  obtain ⟨hCl, hCr⟩ := abs_le.mp hC
  obtain ⟨hDl, hDr⟩ := abs_le.mp hD
  obtain ⟨htwol, htwor⟩ := abs_le.mp htwo
  obtain ⟨hthreel, hthreer⟩ := abs_le.mp hthree
  obtain ⟨hfourl, hfourr⟩ := abs_le.mp hfour
  rw [abs_le]
  constructor <;> linarith

end Errors

end RoundedArithmetic.Rounding

/-- Finite doubles: an operation returns its exact result, rounded, while that is in range. -/
class F64.Rounded (F : Type) [F64 F] where
  rounding : Rounding
  val : F → ℚ
  lt_iff {a b : F} : lt a b = true ↔ val a < val b
  val_ofRat {q : ℚ} : |q| ≤ 2 ^ 64 → val (ofRat q) = rounding.round q
  val_add {a b : F} : |val a + val b| ≤ 2 ^ 64 → val (add a b) = rounding.round (val a + val b)
  val_mul {a b : F} : |val a * val b| ≤ 2 ^ 64 → val (mul a b) = rounding.round (val a * val b)
  val_div {a b : F} : val b ≠ 0 → |val a / val b| ≤ 2 ^ 64 →
    val (div a b) = rounding.round (val a / val b)
  round_i64 (a : F) : -2 ^ 63 ≤ round a ∧ round a < 2 ^ 63

instance : F64.Rounded ℚ where
  rounding := .exact
  val := id
  lt_iff := by simp [F64.lt]
  val_ofRat _ := rfl
  val_add _ := rfl
  val_mul _ := rfl
  val_div _ _ := rfl
  round_i64 _ := saturateI64_range _

namespace F64.Rounded

variable {F : Type} [F64 F] [F64.Rounded F]

theorem lt_eq_false_iff {a b : F} : lt a b = false ↔ val b ≤ val a := by
  rw [← not_lt, ← lt_iff, Bool.not_eq_true]

/-- Small integers are represented. -/
theorem val_int {n : ℤ} (h : |n| ≤ 2 ^ 53) : val (ofRat n : F) = n := by
  rw [val_ofRat, (rounding F).round_int h]
  have hcast : |(n : ℚ)| ≤ 2 ^ 53 := by exact_mod_cast h
  exact hcast.trans (by norm_num)

@[simp] theorem val_zero : val (ofRat 0 : F) = 0 := by
  have h := val_int (F := F) (n := 0) (by norm_num)
  simpa using h

@[simp] theorem val_one : val (ofRat 1 : F) = 1 := by
  have h := val_int (F := F) (n := 1) (by norm_num)
  simpa using h

theorem val_clamp_unit (x : F) : val (clamp x (ofRat 0) (ofRat 1)) = unit (val x) := by
  unfold clamp
  cases hlow : lt x (ofRat 0) with
  | true =>
    rw [lt_iff, val_zero] at hlow
    rw [if_pos rfl, val_zero, unit_of_le hlow.le]
  | false =>
    rw [lt_eq_false_iff, val_zero] at hlow
    cases hhigh : lt (ofRat 1) x with
    | true =>
      rw [lt_iff, val_one] at hhigh
      simp [unit_of_one_le hhigh.le]
    | false =>
      rw [lt_eq_false_iff, val_one] at hhigh
      simp [unit, hlow, hhigh]

end F64.Rounded

section Values

open F64.Rounded

variable {F : Type} [F64 F] [F64.Rounded F]

/-- A 64-bit integer among the columns. -/
def IsI64 (n : ℤ) : Prop := -2 ^ 63 ≤ n ∧ n < 2 ^ 63

theorem IsI64.abs_cast_le {n : ℤ} (h : IsI64 n) : |(n : ℚ)| ≤ 2 ^ 63 := by
  obtain ⟨hlow, hhigh⟩ := h
  rw [abs_le]
  constructor
  · exact_mod_cast hlow
  · exact_mod_cast hhigh.le

theorem val_ofInt {n : ℤ} (h : |(n : ℚ)| ≤ 2 ^ 63) :
    val (F64.ofInt n : F) = (rounding F).round n :=
  val_ofRat (h.trans (by norm_num))

/-- A part of the score. -/
theorem val_weigh {x : F} {q : ℚ} (hval : val x = q) (hq : 0 ≤ q ∧ q ≤ 1) (weight : ℚ)
    (hw : 0 ≤ weight ∧ weight ≤ 1) :
    val (F64.mul x (F64.ofRat weight)) = (rounding F).weigh q weight := by
  have hweight : val (F64.ofRat weight : F) = (rounding F).round weight := by
    apply val_ofRat
    rw [abs_of_nonneg hw.1]
    linarith [hw.2]
  have hround := (rounding F).round_nonneg hw.1
  rw [val_mul, hval, hweight, Rounding.weigh]
  rw [hval, hweight, abs_of_nonneg (mul_nonneg hq.1 hround)]
  have hone := mul_le_one₀ hq.2 hround ((rounding F).round_le_one hw.2)
  linarith

/-- One more part of the sum. -/
theorem val_sum {a b : F} {s c : ℚ} (ha : val a = s) (hb : val b = c) (n : ℕ) (hn : n < 1000)
    (hs : 0 ≤ s ∧ s ≤ n) (hc : 0 ≤ c ∧ c ≤ 1) :
    val (F64.add a b) = (rounding F).round (s + c) := by
  have hn1 : (n : ℚ) ≤ 1000 := by exact_mod_cast hn.le
  rw [val_add, ha, hb]
  rw [ha, hb, abs_of_nonneg (add_nonneg hs.1 hc.1)]
  linarith [hs.2, hc.2]

theorem val_downloadUnit {kbps : ℤ} (h : |(kbps : ℚ)| ≤ 2 ^ 63) :
    val (F64.clamp (F64.div (F64.ofInt kbps) (F64.ofRat 1000)) (F64.ofRat 0) (F64.ofRat 1) : F) =
      (rounding F).downloadUnit kbps := by
  have hscale : val (F64.ofRat 1000 : F) = 1000 := by
    have hint := val_int (F := F) (n := 1000) (by norm_num)
    simpa using hint
  have hrange := (rounding F).abs_scaled_le h 1000 le_rfl
  rw [val_clamp_unit, val_div, val_ofInt h, hscale, Rounding.downloadUnit]
  · rw [hscale]
    norm_num
  · rw [val_ofInt h, hscale]
    exact hrange.trans (by norm_num)

theorem val_latencyUnit {delay : ℤ} (h : |(delay : ℚ)| ≤ 2 ^ 63) :
    val (F64.clamp (F64.add (F64.ofRat 1) (F64.mul (F64.ofRat (-1))
      (F64.div (F64.ofInt delay) (F64.ofRat 3000)))) (F64.ofRat 0) (F64.ofRat 1) : F) =
      (rounding F).latencyUnit delay := by
  have hscale : val (F64.ofRat 3000 : F) = 3000 := by
    have hint := val_int (F := F) (n := 3000) (by norm_num)
    simpa using hint
  have hminus : val (F64.ofRat (-1) : F) = -1 := by
    have hint := val_int (F := F) (n := -1) (by norm_num)
    simpa using hint
  have hslow : val (F64.div (F64.ofInt delay) (F64.ofRat 3000) : F) =
      (rounding F).round ((rounding F).round delay / 3000) := by
    rw [val_div, val_ofInt h, hscale]
    · rw [hscale]
      norm_num
    · rw [val_ofInt h, hscale]
      exact ((rounding F).abs_scaled_le h 3000 (by norm_num)).trans (by norm_num)
  have hnegated : val (F64.mul (F64.ofRat (-1)) (F64.div (F64.ofInt delay) (F64.ofRat 3000)) : F) =
      (rounding F).round (-1 * (rounding F).round ((rounding F).round delay / 3000)) := by
    rw [val_mul, hslow, hminus]
    rw [hslow, hminus]
    exact ((rounding F).abs_minus_scaled_le h 3000 (by norm_num)).trans (by norm_num)
  rw [val_clamp_unit, val_add, hnegated, val_one, Rounding.latencyUnit]
  rw [hnegated, val_one]
  exact (rounding F).abs_one_add_scaled_le h 3000 (by norm_num)

theorem val_lowUse {uses : ℕ} (h : uses < 2 ^ 63) :
    val (F64.div (F64.ofRat 1) (F64.add (F64.ofRat 1) (F64.ofInt uses)) : F) =
      (rounding F).lowUse uses := by
  have huses : val (F64.ofInt uses : F) = (rounding F).round uses :=
    val_ofInt (Rounding.abs_uses_le h)
  have hone := (rounding F).one_le_uses uses
  have hsum : val (F64.add (F64.ofRat 1) (F64.ofInt uses) : F) =
      (rounding F).round (1 + (rounding F).round uses) := by
    rw [val_add, val_one, huses]
    rw [val_one, huses]
    exact (rounding F).abs_one_add_uses_le h
  rw [val_div, val_one, hsum, Rounding.lowUse]
  · rw [hsum]
    linarith
  · rw [val_one, hsum, abs_of_nonneg (one_div_nonneg.mpr (by linarith))]
    have hle := (div_le_one (by linarith)).mpr hone
    linarith

/-- The score that the query returns, as a number. -/
theorem val_vipScore {row : Node F} {uses : ℕ}
    (hhealth : 0 ≤ val row.healthScore ∧ val row.healthScore ≤ 1)
    (hkbps : IsI64 (row.downloadKbps.getD 0)) (hdelay : IsI64 (row.relayDelayMs.getD 3000))
    (huses : uses < 2 ^ 63) :
    val (Store.vipScore row uses) = (rounding F).vipScore (val row.healthScore)
      (row.downloadKbps.getD 0) (row.relayDelayMs.getD 3000) uses := by
  have hA := val_weigh rfl hhealth (55 / 100) (by norm_num)
  have hB := val_weigh (val_downloadUnit (F := F) hkbps.abs_cast_le)
    ⟨unit_nonneg _, unit_le_one _⟩ (22 / 100) (by norm_num)
  have hC := val_weigh (val_latencyUnit (F := F) hdelay.abs_cast_le)
    ⟨unit_nonneg _, unit_le_one _⟩ (15 / 100) (by norm_num)
  have hD := val_weigh (val_lowUse (F := F) huses)
    ⟨(rounding F).lowUse_nonneg uses, (rounding F).lowUse_le_one uses⟩ (8 / 100) (by norm_num)
  have htwo := val_sum hA hB 1 (by norm_num) ((rounding F).health_range hhealth)
    ((rounding F).download_range _)
  have hthree := val_sum htwo hC 2 (by norm_num) ((rounding F).vipTwo_range hhealth _)
    ((rounding F).latency_range _)
  exact val_sum hthree hD 3 (by norm_num) ((rounding F).vipThree_range hhealth _ _)
    ((rounding F).lowUse_range uses)

end Values

end ProxyFleet
