import Mathlib.Analysis.SpecialFunctions.Pow.Real
import ProxyFleet.ScoreBounds

/-!
# Evidence over the real numbers

Exact arithmetic with powers at every exponent. The totals of the evidence are then sums
of decayed weights, and the score is the share of the first.
-/
namespace ProxyFleet

noncomputable instance : F64 ℝ where
  ofRat q := q
  add a b := a + b
  mul a b := a * b
  div a b := a / b
  lt a b := decide (a < b)
  le a b := decide (a ≤ b)
  powf a b := a ^ b
  round a := saturateI64 (if 0 ≤ a then ⌊a + 1 / 2⌋ else ⌈a - 1 / 2⌉)

namespace RealEvidence

theorem ofRat_eq (q : ℚ) : (F64.ofRat q : ℝ) = q := rfl

theorem lt_iff {a b : ℝ} : F64.lt a b = true ↔ a < b := decide_eq_true_iff

theorem le_iff {a b : ℝ} : F64.le a b = true ↔ a ≤ b := decide_eq_true_iff

theorem min_eq (a b : ℝ) : F64.min a b = min a b := by
  unfold F64.min
  cases h : F64.lt b a with
  | true => exact (min_eq_right (lt_iff.mp h).le).symm
  | false =>
    have hle : a ≤ b := not_lt.mp fun hlt => by simp [lt_iff.mpr hlt] at h
    exact (min_eq_left hle).symm

theorem max_eq (a b : ℝ) : F64.max a b = max a b := by
  unfold F64.max
  cases h : F64.lt a b with
  | true => exact (max_eq_right (lt_iff.mp h).le).symm
  | false =>
    have hle : b ≤ a := not_lt.mp fun hlt => by simp [lt_iff.mpr hlt] at h
    exact (max_eq_left hle).symm

/-- A weight that has not aged is whole. -/
theorem decay_of_nonpos {value : ℝ} (h : 0 ≤ value) {elapsed : Time} (he : elapsed ≤ 0)
    (halfLife : Time) : decay value elapsed halfLife = value := by
  have hle : decide (elapsed ≤ 0) = true := decide_eq_true he
  simp [decay, hle, max_eq, ofRat_eq, h]

theorem decay_of_pos {value : ℝ} (h : 0 ≤ value) {elapsed : Time} (he : 0 < elapsed)
    (halfLife : Time) :
    decay value elapsed halfLife = value * (1 / 2 : ℝ) ^
      ((numMilliseconds elapsed : ℝ) / (max (numMilliseconds halfLife) 1 : ℤ)) := by
  have hle : decide (elapsed ≤ 0) = false := decide_eq_false (not_le.mpr he)
  rcases h.eq_or_lt with rfl | hpos
  · simp [decay, le_iff, ofRat_eq, max_eq]
  · have hv : F64.le value (F64.ofRat 0) = false := by
      rw [Bool.eq_false_iff, ne_eq, le_iff, ofRat_eq]
      simpa using hpos
    simp only [decay, hle, hv, Bool.or_self, Bool.false_eq_true, if_false]
    simp only [F64.mul, F64.powf, F64.div, F64.ofInt, F64.ofRat]
    norm_num

theorem decay_nonneg {value : ℝ} (h : 0 ≤ value) (elapsed halfLife : Time) :
    0 ≤ decay value elapsed halfLife := by
  rcases le_or_gt elapsed 0 with he | he
  · rw [decay_of_nonpos h he]
    exact h
  · rw [decay_of_pos h he]
    exact mul_nonneg h (Real.rpow_nonneg (by norm_num) _)

instance : F64.Lawful ℝ where
  le_trans h h' := le_iff.mpr ((le_iff.mp h).trans (le_iff.mp h'))
  le_of_not_lt h := le_iff.mpr (not_lt.mp fun hlt => by simp [lt_iff.mpr hlt] at h)
  not_le_of_lt h := by
    rw [Bool.eq_false_iff, ne_eq, le_iff, not_le]
    exact lt_iff.mp h
  ofRat_le h := le_iff.mpr (Rat.cast_le.mpr h)
  le_add h := le_iff.mpr (le_add_of_nonneg_right (by simpa [ofRat_eq] using le_iff.mp h))
  add_le_add_left c h := le_iff.mpr (add_le_add_right (le_iff.mp h) c)
  one_add_zero := by simp [F64.add, F64.ofRat]
  one_add_one := by norm_num [F64.add, F64.ofRat]
  mul_nonneg h h' := by
    rw [le_iff, ofRat_eq, Rat.cast_zero] at h h' ⊢
    exact mul_nonneg h h'
  powf_nonneg a := by
    rw [le_iff, ofRat_eq, Rat.cast_zero]
    exact Real.rpow_nonneg (by norm_num [F64.ofRat]) a
  one_div_le {a} h := by
    have ha : (2 : ℝ) ≤ a := by simpa [ofRat_eq] using le_iff.mp h
    rw [le_iff, ofRat_eq]
    simpa [F64.div, F64.ofRat] using one_div_le_one_div_of_le (by norm_num) ha
  threshold_not_le := by
    rw [Bool.eq_false_iff, ne_eq, le_iff, ofRat_eq, ofRat_eq, not_le]
    norm_num

/-- The totals of the evidence are sums. -/
theorem foldl_accumulate (now : Time) (es : List (TestEvent ℝ)) (a b : ℝ) :
    es.foldl (TestEvent.accumulate now) (a, b) =
      (a + (es.map fun e => decay e.evidenceAlpha (now - e.occurredAt) e.halfLife).sum,
        b + (es.map fun e => decay e.evidenceBeta (now - e.occurredAt) e.halfLife).sum) := by
  induction es generalizing a b with
  | nil => simp
  | cons e es ih =>
    rw [List.foldl_cons, TestEvent.accumulate, ih]
    simp only [F64.add, List.map_cons, List.sum_cons, add_assoc]

/-- The score of positive totals is the share of the first. -/
theorem health_of_pos {a b : ℝ} (ha : 0 < a) (hb : 0 < b) : health a b = a / (a + b) := by
  have htotal : F64.le (a + b) (F64.ofRat 0) = false := by
    rw [Bool.eq_false_iff, ne_eq, le_iff, ofRat_eq]
    push_cast
    linarith
  have hlow : F64.lt (a / (a + b)) (F64.ofRat 0) = false := by
    rw [Bool.eq_false_iff, ne_eq, lt_iff, ofRat_eq, not_lt]
    push_cast
    positivity
  have hhigh : F64.lt (F64.ofRat 1) (a / (a + b)) = false := by
    rw [Bool.eq_false_iff, ne_eq, lt_iff, ofRat_eq, not_lt]
    push_cast
    rw [div_le_one (by linarith)]
    linarith
  show (if F64.le (a + b) (F64.ofRat 0) then F64.ofRat (1 / 2)
    else F64.clamp (a / (a + b)) (F64.ofRat 0) (F64.ofRat 1)) = _
  simp only [htotal, F64.clamp, hlow, hhigh, Bool.false_eq_true, if_false]

theorem min_alpha_eq (a : ℝ) : F64.min a (F64.ofRat maxEffectiveAlpha) = min a 24 := by
  rw [min_eq, ofRat_eq]
  norm_num [maxEffectiveAlpha]

theorem min_beta_eq (b : ℝ) : F64.min b (F64.ofRat maxEffectiveBeta) = min b 64 := by
  rw [min_eq, ofRat_eq]
  norm_num [maxEffectiveBeta]

end RealEvidence

end ProxyFleet
