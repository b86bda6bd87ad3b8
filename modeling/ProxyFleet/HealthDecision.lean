import ProxyFleet.Evidence

/-!
# The lifecycle decision

One test event decides the lifecycle, the failure counters, the publication
lease and the next test time together. Demotion out of `ACTIVE` needs residence,
a low score and failures of two different runs; a real download promotes at once.
-/
namespace ProxyFleet

inductive LifecycleState where
  | candidate | testing | active | probation | dormant | invalid | retired | waitingForPort
  deriving DecidableEq, Repr

def LifecycleState.asStr : LifecycleState → String
  | .candidate => "CANDIDATE"
  | .testing => "TESTING"
  | .active => "ACTIVE"
  | .probation => "PROBATION"
  | .dormant => "DORMANT"
  | .invalid => "INVALID"
  | .retired => "RETIRED"
  | .waitingForPort => "WAITING_FOR_PORT"

structure HealthDecision (F : Type) where
  lifecycle : LifecycleState
  score : F
  failureStreak : ℕ
  independentFailures : ℕ
  leaseUntil : Option Time
  nextTestAt : Time

structure HealthInput (F : Type) where
  priorLifecycle : LifecycleState
  priorLeaseUntil : Option Time
  activatedAt : Option Time
  alpha : F
  beta : F
  failureStreak : ℕ
  independentFailures : ℕ
  /-- Only failures of a different run are independent evidence. -/
  newIndependentFailure : Bool
  hadRealDownload : Bool
  stage : TestStage
  failureClass : FailureClass
  fastDownload : Bool
  now : Time
  activeRelayInterval : Time
  activeDownloadInterval : Time
  activeMinResidence : Time

variable {F : Type} [F64 F]

namespace HealthInput

def succeeded (i : HealthInput F) : Bool := i.failureClass == .success

def score (i : HealthInput F) : F := health i.alpha i.beta

def realDownload (i : HealthInput F) : Bool := i.succeeded && i.stage == .download

def decidedFailureStreak (i : HealthInput F) : ℕ :=
  if i.succeeded then 0
  else if i.failureClass.inconclusive then i.failureStreak
  else saturatingSucc i.failureStreak

def decidedIndependentFailures (i : HealthInput F) : ℕ :=
  if i.succeeded then 0
  else if i.failureClass.inconclusive then i.independentFailures
  else if i.newIndependentFailure then saturatingSucc i.independentFailures
  else i.independentFailures

def activeResident (i : HealthInput F) : Bool :=
  match i.activatedAt with
  | some time => decide (i.now - time ≥ i.activeMinResidence)
  | none => false

/-- The arms that the prior lifecycle selects when no download settles the matter. -/
def hysteresis (i : HealthInput F) : LifecycleState :=
  match i.priorLifecycle with
  | .active =>
      if !i.activeResident then .active
      else if F64.lt i.score (F64.ofRat (35 / 100)) && 2 ≤ i.decidedIndependentFailures then
        .probation
      else .active
  | .probation =>
      if F64.le (F64.ofRat (70 / 100)) i.score then .active
      else if F64.lt i.score (F64.ofRat (15 / 100)) && 3 ≤ i.decidedFailureStreak then .dormant
      else .probation
  | .dormant =>
      if F64.le (F64.ofRat (70 / 100)) i.score && i.succeeded then .probation else .dormant
  | .retired => .retired
  | .invalid => .invalid
  | .waitingForPort => .waitingForPort
  | .testing => .testing
  | .candidate => .candidate

def decidedLifecycle (i : HealthInput F) : LifecycleState :=
  if i.failureClass = .invalidConfig ∨ i.priorLifecycle = .invalid then .invalid
  -- Only a later ingest brings a retired identity back, never a stray result.
  else if i.priorLifecycle = .retired then .retired
  else if i.realDownload then .active
  else i.hysteresis

def decidedLease (i : HealthInput F) : Option Time :=
  let candidate := if i.succeeded then some (leaseUntil i.stage i.fastDownload i.now) else none
  match i.priorLeaseUntil, candidate with
  | some current, some candidate => some (max current candidate)
  | current, candidate => current <|> candidate

/-- `draw` is the outcome of the jitter generator. -/
def decidedNextTestAt (i : HealthInput F) (draw : ℕ) : Time :=
  if i.succeeded then
    match i.decidedLifecycle with
    | .active =>
        if i.stage = .download then i.now + i.activeDownloadInterval
        else i.now + i.activeRelayInterval
    | .probation => i.now + minutes 15
    | .dormant => i.now + hours 6
    | _ => i.now + minutes 5
  else if i.failureClass.inconclusive then i.now + minutes 2
  else i.now + fullJitterDelay i.decidedFailureStreak i.hadRealDownload
    (i.decidedLifecycle == .dormant) i.failureClass draw

def decide (i : HealthInput F) (draw : ℕ) : HealthDecision F where
  lifecycle := i.decidedLifecycle
  score := i.score
  failureStreak := i.decidedFailureStreak
  independentFailures := i.decidedIndependentFailures
  leaseUntil := i.decidedLease
  nextTestAt := i.decidedNextTestAt draw

end HealthInput

namespace HealthInput

variable {i : HealthInput F}

omit [F64 F] in
theorem decidedFailureStreak_le (h : i.failureStreak ≤ u32Max) :
    i.decidedFailureStreak ≤ u32Max := by
  unfold decidedFailureStreak saturatingSucc
  split
  · exact Nat.zero_le _
  · split
    · exact h
    · exact Nat.min_le_right _ _

omit [F64 F] in
theorem decidedIndependentFailures_le (h : i.independentFailures ≤ u32Max) :
    i.decidedIndependentFailures ≤ u32Max := by
  unfold decidedIndependentFailures saturatingSucc
  split
  · exact Nat.zero_le _
  · split
    · exact h
    · split
      · exact Nat.min_le_right _ _
      · exact h

/-- Demotion out of `ACTIVE` passes all three guards. -/
theorem active_lowered (hp : i.priorLifecycle = .active) (hc : i.failureClass ≠ .invalidConfig)
    (h : i.decidedLifecycle ≠ .active) :
    i.activeResident = true ∧ F64.lt i.score (F64.ofRat (35 / 100)) = true ∧
      2 ≤ i.decidedIndependentFailures ∧ i.decidedLifecycle = .probation := by
  have hl : i.decidedLifecycle = if i.realDownload then .active else i.hysteresis := by
    simp [decidedLifecycle, hp, hc]
  rw [hl] at h ⊢
  cases hd : i.realDownload with
  | true => simp [hd] at h
  | false =>
    simp only [hd, Bool.false_eq_true, if_false] at h ⊢
    simp only [hysteresis, hp] at h ⊢
    cases hr : i.activeResident with
    | false => simp [hr] at h
    | true =>
      simp only [hr, Bool.not_true, Bool.false_eq_true, if_false] at h ⊢
      split at h
      · next hg =>
        simp only [Bool.and_eq_true, decide_eq_true_eq] at hg
        exact ⟨trivial, hg.1, hg.2, by simp [hg.1, hg.2]⟩
      · exact absurd rfl h

/-- A lifecycle becomes `ACTIVE` through a real download or out of `PROBATION` by its score. -/
theorem becomes_active (hp : i.priorLifecycle ≠ .active) (h : i.decidedLifecycle = .active) :
    i.realDownload = true ∨
      i.priorLifecycle = .probation ∧ F64.le (F64.ofRat (70 / 100)) i.score = true := by
  unfold decidedLifecycle at h
  split at h
  · cases h
  split at h
  · cases h
  split at h
  · next hd => exact .inl hd
  right
  unfold hysteresis at h
  cases hl : i.priorLifecycle <;> simp only [hl] at h hp
  case active => exact absurd rfl hp
  case probation =>
    split at h
    · next hs => exact ⟨rfl, hs⟩
    · split at h <;> cases h
  case dormant => split at h <;> cases h
  all_goals cases h

/-- A decision keeps the state, or moves to one of the tested states or to `INVALID`. -/
theorem decidedLifecycle_cases : i.decidedLifecycle = i.priorLifecycle ∨
    i.decidedLifecycle ∈ [LifecycleState.active, .probation, .dormant, .invalid] := by
  unfold decidedLifecycle
  split
  · simp
  split
  · next hr => exact .inl hr.symm
  split
  · simp
  unfold hysteresis
  cases hl : i.priorLifecycle <;> simp only [true_or] <;> split_ifs <;> simp

/-- `PROBATION` and `DORMANT` are reached from the three tested states only. -/
theorem becomes_lower (h : i.decidedLifecycle = .probation ∨ i.decidedLifecycle = .dormant) :
    i.priorLifecycle = .active ∨ i.priorLifecycle = .probation ∨ i.priorLifecycle = .dormant := by
  unfold decidedLifecycle at h
  split at h
  · simp at h
  split at h
  · simp at h
  split at h
  · simp at h
  unfold hysteresis at h
  cases hl : i.priorLifecycle <;> simp [hl] at h ⊢

omit [F64 F] in
theorem decidedLease_of_not_succeeded (h : i.succeeded = false) :
    i.decidedLease = i.priorLeaseUntil := by
  unfold decidedLease
  cases i.priorLeaseUntil <;> simp [h]

omit [F64 F] in
theorem decidedLease_of_succeeded (h : i.succeeded = true) :
    i.decidedLease =
      some ((i.priorLeaseUntil.map (max · (leaseUntil i.stage i.fastDownload i.now))).getD
        (leaseUntil i.stage i.fastDownload i.now)) := by
  unfold decidedLease
  cases i.priorLeaseUntil <;> simp [h]

omit [F64 F] in
/-- No decision takes a lease away. -/
theorem decidedLease_isSome (h : i.priorLeaseUntil.isSome = true) :
    i.decidedLease.isSome = true := by
  unfold decidedLease
  cases hp : i.priorLeaseUntil with
  | none => simp [hp] at h
  | some lease => cases i.succeeded <;> simp

end HealthInput

end ProxyFleet
