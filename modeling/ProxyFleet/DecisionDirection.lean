import ProxyFleet.HealthDecision
import Mathlib.Tactic.NormNum

/-!
# The direction of a lifecycle decision

The tested states are ranked `ACTIVE` over `PROBATION` over `DORMANT`. A success
never lowers the rank. A conclusive failure raises it in one arm only: the score
alone promotes out of `PROBATION`, whatever the event was.
-/
namespace ProxyFleet

/-- The rank of a tested state. -/
def LifecycleState.rank : LifecycleState → Option ℕ
  | .active => some 2
  | .probation => some 1
  | .dormant => some 0
  | _ => none

/-- Both states are ranked, and the first one is higher. -/
def LifecycleState.Outranks (a b : LifecycleState) : Prop :=
  ∃ m n, a.rank = some m ∧ b.rank = some n ∧ n < m

namespace LifecycleState

theorem not_outranks_self (a : LifecycleState) : ¬ a.Outranks a := by
  rintro ⟨m, n, hm, hn, hlt⟩
  rw [hm, Option.some.injEq] at hn
  omega

theorem active_outranks_probation : active.Outranks probation :=
  ⟨2, 1, rfl, rfl, by omega⟩

/-- Nothing is ranked over `ACTIVE`. -/
theorem not_outranks_active (a : LifecycleState) : ¬ a.Outranks active := by
  rintro ⟨m, n, hm, hn, hlt⟩
  cases a <;> cases hm <;> cases hn <;> omega

/-- Nothing is ranked under `DORMANT`. -/
theorem not_dormant_outranks (b : LifecycleState) : ¬ dormant.Outranks b := by
  rintro ⟨m, n, hm, hn, hlt⟩
  cases hm
  omega

theorem outranks_probation {a : LifecycleState} (h : a.Outranks probation) : a = active := by
  obtain ⟨m, n, hm, hn, hlt⟩ := h
  cases a <;> cases hm <;> cases hn <;> first | rfl | omega

theorem not_invalid_outranks (b : LifecycleState) : ¬ invalid.Outranks b := by
  rintro ⟨m, n, hm, -⟩
  cases hm

end LifecycleState

namespace HealthInput

open LifecycleState

variable {F : Type} [F64 F] {i : HealthInput F}

omit [F64 F] in
theorem succeeded_of_conclusiveFailure (h : i.failureClass.conclusiveFailure = true) :
    i.succeeded = false :=
  beq_eq_false_iff_ne.mpr (FailureClass.conclusiveFailure_iff.mp h).1

/-- A failure of a ranked state is decided by the score, unless the configuration is invalid. -/
theorem decidedLifecycle_of_failure (hp : i.priorLifecycle.rank.isSome = true)
    (h : i.failureClass.conclusiveFailure = true) (hc : i.failureClass ≠ .invalidConfig) :
    i.decidedLifecycle = i.hysteresis := by
  have hreal : i.realDownload = false := by
    rw [realDownload, succeeded_of_conclusiveFailure h, Bool.false_and]
  have hi : i.priorLifecycle ≠ .invalid := fun he => by simp [he, rank] at hp
  have hr : i.priorLifecycle ≠ .retired := fun he => by simp [he, rank] at hp
  simp [decidedLifecycle, hc, hi, hr, hreal]

/-- The one arm that raises a state after a conclusive failure. -/
theorem failure_raises_iff (hp : i.priorLifecycle.rank.isSome = true)
    (h : i.failureClass.conclusiveFailure = true) :
    i.decidedLifecycle.Outranks i.priorLifecycle ↔
      i.priorLifecycle = .probation ∧ i.failureClass ≠ .invalidConfig ∧
        F64.le (F64.ofRat (70 / 100)) (health i.alpha i.beta) = true := by
  by_cases hc : i.failureClass = .invalidConfig
  · have hd : i.decidedLifecycle = .invalid := by simp [decidedLifecycle, hc]
    rw [hd]
    exact ⟨fun hup => absurd hup (not_invalid_outranks _), fun hcond => absurd hc hcond.2.1⟩
  rw [decidedLifecycle_of_failure hp h hc]
  have hs := succeeded_of_conclusiveFailure h
  cases hl : i.priorLifecycle <;> rw [hl] at hp <;> simp only [hysteresis, hl]
  case active => simp [not_outranks_active]
  case dormant => simp [hs, not_outranks_self]
  case probation =>
    cases hle : F64.le (F64.ofRat (70 / 100)) i.score with
    | true =>
      simp only [if_true, ne_eq, hc, not_false_eq_true, true_and]
      exact ⟨fun _ => hle, fun _ => active_outranks_probation⟩
    | false =>
      simp only [Bool.false_eq_true, if_false]
      constructor
      · intro hup
        have hactive := outranks_probation hup
        split at hactive <;> cases hactive
      · rintro ⟨-, -, hscore⟩
        rw [← score, hle] at hscore
        cases hscore
  all_goals cases hp

/-- A success keeps a ranked state or raises it. -/
theorem success_not_lowers (hp : i.priorLifecycle.rank.isSome = true)
    (h : i.failureClass = .success) : ¬ i.priorLifecycle.Outranks i.decidedLifecycle := by
  have hs : i.succeeded = true := by rw [succeeded, h]; rfl
  by_cases hactive : i.decidedLifecycle = .active
  · rw [hactive]
    exact not_outranks_active _
  have hd : i.decidedLifecycle = i.hysteresis := by
    have hi : i.priorLifecycle ≠ .invalid := fun he => by simp [he, rank] at hp
    have hr : i.priorLifecycle ≠ .retired := fun he => by simp [he, rank] at hp
    unfold decidedLifecycle at hactive ⊢
    cases hreal : i.realDownload with
    | true => simp [h, hi, hr, hreal] at hactive
    | false => simp [h, hi, hr]
  have hzero : i.decidedIndependentFailures = 0 ∧ i.decidedFailureStreak = 0 := by
    simp [decidedIndependentFailures, decidedFailureStreak, hs]
  rw [hd] at hactive ⊢
  cases hl : i.priorLifecycle <;> rw [hl] at hp <;> simp only [hysteresis, hl] at hactive ⊢
  case active => simp [hzero.1] at hactive
  case dormant => exact not_dormant_outranks _
  case probation =>
    cases hle : F64.le (F64.ofRat (70 / 100)) i.score with
    | true => simp [hle] at hactive
    | false =>
      simp only [hzero.2, Bool.false_eq_true, if_false]
      simpa using not_outranks_self .probation
  all_goals cases hp

/-- A success never lowers a ranked state, and a conclusive failure raises one exactly where
the score alone promotes out of `PROBATION`. -/
theorem decision_direction (i : HealthInput F)
    (hp : i.priorLifecycle = .active ∨ i.priorLifecycle = .probation ∨
      i.priorLifecycle = .dormant) (draw : ℕ) :
    (i.failureClass.conclusiveFailure = true →
      ((i.decide draw).lifecycle.Outranks i.priorLifecycle ↔
        i.priorLifecycle = .probation ∧ i.failureClass ≠ .invalidConfig ∧
          F64.le (F64.ofRat (70 / 100)) (health i.alpha i.beta) = true)) ∧
      (i.failureClass = .success →
        ¬ i.priorLifecycle.Outranks (i.decide draw).lifecycle) := by
  have hrank : i.priorLifecycle.rank.isSome = true := by
    rcases hp with hl | hl | hl <;> rw [hl] <;> rfl
  exact ⟨failure_raises_iff hrank, success_not_lowers hrank⟩

end HealthInput

/-- A suspended node of good standing whose relay times out. -/
def standingTimeout : HealthInput ℚ where
  priorLifecycle := .probation
  priorLeaseUntil := none
  activatedAt := none
  alpha := 8
  beta := 2
  failureStreak := 0
  independentFailures := 0
  newIndependentFailure := true
  hadRealDownload := true
  stage := .relay
  failureClass := .relayTimeout
  fastDownload := false
  now := 0
  activeRelayInterval := seconds 10
  activeDownloadInterval := minutes 5
  activeMinResidence := minutes 30

theorem decision_direction_standingTimeout :
    (standingTimeout.decide 0).lifecycle.Outranks standingTimeout.priorLifecycle :=
  ((standingTimeout.decision_direction (.inr (.inl rfl)) 0).1 rfl).mpr
    ⟨rfl, by decide, by decide +kernel⟩

/-- The relay timeout takes the node from `PROBATION` to `ACTIVE`. -/
theorem timeout_promotes :
    standingTimeout.failureClass.conclusiveFailure = true ∧
      standingTimeout.priorLifecycle = .probation ∧
      (standingTimeout.decide 0).lifecycle = .active ∧
      (standingTimeout.decide 0).lifecycle.Outranks standingTimeout.priorLifecycle :=
  ⟨rfl, rfl, by decide +kernel, 2, 1, by decide +kernel, rfl, by omega⟩

end ProxyFleet
