import ProxyFleet.TestEventApplication
import Mathlib.Tactic.Linarith
import Mathlib.Tactic.Positivity

/-!
# Scores without positive evidence

The laws of rounded arithmetic that bound a score from above. They hold of exact
arithmetic and of finite doubles alike. A node whose recent events carry no
positive weight scores at most one half.
-/
namespace ProxyFleet

/-- The laws that the bound needs; rounding to nearest keeps all of them. -/
class F64.Lawful (F : Type) [F64 F] : Prop where
  le_trans {a b c : F} : le a b = true → le b c = true → le a c = true
  le_of_not_lt {a b : F} : lt a b = false → le b a = true
  not_le_of_lt {a b : F} : lt a b = true → le b a = false
  ofRat_le {p q : ℚ} : p ≤ q → le (ofRat p : F) (ofRat q) = true
  le_add {a b : F} : le (ofRat 0) b = true → le a (add a b) = true
  add_le_add_left {a b : F} (c : F) : le a b = true → le (add c a) (add c b) = true
  one_add_zero : add (ofRat 1 : F) (ofRat 0) = ofRat 1
  one_add_one : add (ofRat 1 : F) (ofRat 1) = ofRat 2
  mul_nonneg {a b : F} : le (ofRat 0) a = true → le (ofRat 0) b = true →
    le (ofRat 0) (mul a b) = true
  powf_nonneg (a : F) : le (ofRat 0) (powf (ofRat (1 / 2)) a) = true
  one_div_le {a : F} : le (ofRat 2) a = true → le (div (ofRat 1) a) (ofRat (1 / 2)) = true
  threshold_not_le : le (ofRat (70 / 100) : F) (ofRat (1 / 2)) = false

instance : F64.Lawful ℚ where
  le_trans h h' := by
    simp only [F64.le, decide_eq_true_eq] at h h' ⊢
    exact h.trans h'
  le_of_not_lt h := by simpa [F64.le, F64.lt] using h
  not_le_of_lt h := by simpa [F64.le, F64.lt] using h
  ofRat_le h := by simpa [F64.le, F64.ofRat] using h
  le_add h := by simpa [F64.le, F64.ofRat, F64.add] using h
  add_le_add_left c h := by simpa [F64.le, F64.add] using h
  one_add_zero := by simp [F64.add, F64.ofRat]
  one_add_one := by norm_num [F64.add, F64.ofRat]
  mul_nonneg h h' := by
    simp only [F64.le, F64.ofRat, F64.mul, decide_eq_true_eq] at h h' ⊢
    exact mul_nonneg h h'
  powf_nonneg a := by
    simp only [F64.le, F64.ofRat, F64.powf, decide_eq_true_eq]
    exact zpow_nonneg (by norm_num) _
  one_div_le h := by
    simp only [F64.le, F64.ofRat, F64.div, decide_eq_true_eq] at h ⊢
    exact one_div_le_one_div_of_le (by norm_num) h
  threshold_not_le := by norm_num [F64.le, F64.ofRat]

variable {F : Type} [F64 F]

/-- Only a success carries positive weight. -/
theorem delta_alpha {stage : TestStage} {failureClass : FailureClass} (fast : Bool)
    (h : failureClass ≠ .success) :
    (delta (F := F) stage failureClass fast).alpha = F64.ofRat 0 := by
  cases failureClass <;> cases stage <;> first | rfl | exact absurd rfl h

variable [F64.Lawful F]
open F64.Lawful

omit [F64.Lawful F] in
theorem F64.le_min {a b c : F} (ha : F64.le c a = true) (hb : F64.le c b = true) :
    F64.le c (F64.min a b) = true := by
  unfold F64.min
  cases F64.lt b a <;> assumption

theorem delta_beta_nonneg (stage : TestStage) (failureClass : FailureClass) (fast : Bool) :
    F64.le (F64.ofRat 0) (delta (F := F) stage failureClass fast).beta = true := by
  cases failureClass <;> cases stage <;> cases fast <;> exact ofRat_le (by norm_num)

theorem delta_alpha_nonneg (stage : TestStage) (failureClass : FailureClass) (fast : Bool) :
    F64.le (F64.ofRat 0) (delta (F := F) stage failureClass fast).alpha = true := by
  cases failureClass <;> cases stage <;> cases fast <;> exact ofRat_le (by norm_num)

theorem decay_zero (elapsed halfLife : Time) :
    decay (F64.ofRat 0 : F) elapsed halfLife = F64.ofRat 0 := by
  have h : F64.le (F64.ofRat 0 : F) (F64.ofRat 0) = true := ofRat_le (le_refl 0)
  simp [decay, h, F64.max]

theorem decay_nonneg {value : F} (h : F64.le (F64.ofRat 0) value = true)
    (elapsed halfLife : Time) : F64.le (F64.ofRat 0) (decay value elapsed halfLife) = true := by
  unfold decay
  split
  · unfold F64.max
    split
    · exact ofRat_le (le_refl 0)
    · exact h
  · exact mul_nonneg h (powf_nonneg _)

/-- Events without positive weight leave the first total and can only raise the second. -/
theorem foldl_accumulate (now : Time) {es : List (TestEvent F)}
    (alpha : ∀ e ∈ es, e.evidenceAlpha = F64.ofRat 0)
    (beta : ∀ e ∈ es, F64.le (F64.ofRat 0) e.evidenceBeta = true) {b : F}
    (hb : F64.le (F64.ofRat 1) b = true) :
    (es.foldl (TestEvent.accumulate now) (F64.ofRat 1, b)).1 = F64.ofRat 1 ∧
      F64.le (F64.ofRat 1) (es.foldl (TestEvent.accumulate now) (F64.ofRat 1, b)).2 = true := by
  induction es generalizing b with
  | nil => exact ⟨rfl, hb⟩
  | cons e es ih =>
    have ha : F64.add (F64.ofRat 1) (decay e.evidenceAlpha (now - e.occurredAt) e.halfLife) =
        F64.ofRat 1 := by
      rw [alpha e List.mem_cons_self, decay_zero, one_add_zero]
    have hle := le_trans hb
      (le_add (decay_nonneg (beta e List.mem_cons_self) (now - e.occurredAt) e.halfLife))
    simp only [List.foldl_cons, TestEvent.accumulate, ha]
    exact ih (fun e he => alpha e (List.mem_cons_of_mem _ he))
      (fun e he => beta e (List.mem_cons_of_mem _ he)) hle

theorem health_one_le_half {beta : F} (h : F64.le (F64.ofRat 1) beta = true) :
    F64.le (health (F64.ofRat 1) beta) (F64.ofRat (1 / 2)) = true := by
  have htotal : F64.le (F64.ofRat 2) (F64.add (F64.ofRat 1) beta) = true := by
    have := add_le_add_left (F64.ofRat 1) h
    rwa [one_add_one] at this
  have hdiv := one_div_le htotal
  simp only [health, F64.clamp]
  split
  · exact ofRat_le (le_refl _)
  · split
    · exact ofRat_le (by norm_num)
    · split
      · next hlt =>
        have hbad := not_le_of_lt hlt
        rw [le_trans hdiv (ofRat_le (by norm_num))] at hbad
        cases hbad
      · exact hdiv

/-- The promotion threshold is out of reach of a node without positive evidence. -/
theorem promotion_needs_positive_evidence {s : Store F} (proxyId : String)
    (alpha : ∀ e ∈ s.events, e.proxyId = proxyId → e.evidenceAlpha = F64.ofRat 0)
    (beta : ∀ e ∈ s.events, F64.le (F64.ofRat 0) e.evidenceBeta = true) (now : Time) :
    F64.le (F64.ofRat (70 / 100))
      (health (s.effectiveEvidence proxyId now).1 (s.effectiveEvidence proxyId now).2) = false := by
  have hmem : ∀ e ∈ s.evidence proxyId now, e ∈ s.events ∧ e.proxyId = proxyId := by
    intro e he
    have := List.mem_of_mem_take he
    rw [List.mem_insertionSort, List.mem_filter] at this
    simp only [Bool.and_eq_true, decide_eq_true_eq] at this
    exact ⟨this.1, this.2.1⟩
  obtain ⟨ha, hb⟩ := foldl_accumulate now
    (fun e he => alpha e (hmem e he).1 (hmem e he).2) (fun e he => beta e (hmem e he).1)
    (ofRat_le (le_refl (1 : ℚ)) : F64.le (F64.ofRat 1 : F) (F64.ofRat 1) = true)
  have hone : (s.effectiveEvidence proxyId now).1 = F64.ofRat 1 := by
    simp only [Store.effectiveEvidence, ha, F64.min, maxEffectiveAlpha]
    split
    · next hlt =>
      have hbad := not_le_of_lt hlt
      rw [ofRat_le (by norm_num)] at hbad
      cases hbad
    · rfl
  have htwo : F64.le (F64.ofRat 1) (s.effectiveEvidence proxyId now).2 = true :=
    F64.le_min hb (ofRat_le (by norm_num [maxEffectiveBeta]))
  rw [hone]
  cases h : F64.le (F64.ofRat (70 / 100) : F) (health (F64.ofRat 1)
    (s.effectiveEvidence proxyId now).2) with
  | false => rfl
  | true =>
    have hbad := le_trans h (health_one_le_half htwo)
    rw [threshold_not_le] at hbad
    cases hbad

end ProxyFleet
