import ProxyFleet.EventHistory

/-!
# The ladder of dormant nodes

A dormant node should be tested again within six hours, within twelve after its first failure
there, and within a day after every further one. The rung is chosen by the streak of
failures, which brought the node there and does not start anew: the event that makes a node
dormant already stands on the last rung.
-/
namespace ProxyFleet

section Rungs

variable {failureStreak : ℕ} {hadRealSuccess dormant : Bool} {failureClass : FailureClass}

/-- A delay keeps a bound for every outcome of the jitter if its ceiling does. -/
theorem fullJitterDelay_le_iff {bound : Time} :
    (∀ draw, fullJitterDelay failureStreak hadRealSuccess dormant failureClass draw ≤ bound) ↔
      seconds (delayCeiling failureStreak hadRealSuccess dormant failureClass) ≤ bound := by
  constructor
  · intro h
    rw [← fullJitterDelay_of_le (Nat.le_refl _)]
    exact h _
  · intro h draw
    refine le_trans ?_ h
    have hdraw : draw % (delayCeiling failureStreak hadRealSuccess dormant failureClass + 1) ≤
        delayCeiling failureStreak hadRealSuccess dormant failureClass :=
      Nat.le_of_lt_succ (Nat.mod_lt _ (Nat.succ_pos _))
    simp only [fullJitterDelay, seconds]
    exact mul_le_mul_of_nonneg_right (Int.ofNat_le.mpr hdraw) (by decide)

/-- The hours of the rung that a streak of failures chooses. -/
def rungHours : ℕ → ℕ
  | 0 => 6
  | 1 => 12
  | _ => 24

theorem rungHours_of_two_le {streak : ℕ} (h : 2 ≤ streak) : rungHours streak = 24 := by
  obtain ⟨n, rfl⟩ := Nat.exists_eq_add_of_le' h
  rfl

theorem rungHours_le (streak : ℕ) : rungHours streak ≤ 24 := by
  match streak with
  | 0 | 1 => decide
  | n + 2 => exact Nat.le_refl 24

theorem delayCeiling_dormant :
    delayCeiling failureStreak hadRealSuccess true failureClass =
      rungHours failureStreak * 60 * 60 := by
  have hle : ∀ base shift : ℕ, base ≤ base * 2 ^ shift := fun base shift =>
    Nat.le_mul_of_pos_right base (Nat.two_pow_pos shift)
  simp only [delayCeiling, if_true]
  rw [min_eq_right (hle _ _)]
  match failureStreak with
  | 0 | 1 | _ + 2 => rfl

theorem dormantDelay_le_iff {bound : ℕ} :
    (∀ draw, fullJitterDelay failureStreak hadRealSuccess true failureClass draw ≤
        hours bound) ↔ rungHours failureStreak ≤ bound := by
  rw [fullJitterDelay_le_iff, delayCeiling_dormant]
  simp only [seconds, hours, minutes]
  push_cast
  show (_ : ℤ) ≤ _ ↔ _
  omega

end Rungs

section Inputs

variable {F : Type} [F64 F] {i : HealthInput F}

/-- Only a streak of three makes a node dormant. -/
theorem HealthInput.streak_of_enters (hp : i.priorLifecycle ≠ .dormant)
    (h : i.decidedLifecycle = .dormant) : 3 ≤ i.decidedFailureStreak := by
  unfold decidedLifecycle at h
  split at h
  · cases h
  · split at h
    · cases h
    · split at h
      · cases h
      · unfold hysteresis at h
        cases hl : i.priorLifecycle with
        | probation =>
          simp only [hl] at h
          split at h
          · cases h
          · split at h
            · next hlow =>
              simp only [Bool.and_eq_true, decide_eq_true_eq] at hlow
              exact hlow.2
            · cases h
        | dormant => exact absurd hl hp
        | active =>
          simp only [hl] at h
          split at h
          · cases h
          · split at h <;> cases h
        | candidate | testing | invalid | retired | waitingForPort =>
          simp only [hl] at h
          cases h

omit [F64 F] in
theorem HealthInput.decidedFailureStreak_of_failure (h : i.failureClass.conclusiveFailure = true) :
    i.decidedFailureStreak = saturatingSucc i.failureStreak := by
  obtain ⟨hsuccess, hinconclusive⟩ := FailureClass.conclusiveFailure_iff.mp h
  simp [decidedFailureStreak, succeeded, hsuccess, hinconclusive]

/-- The next test after a failure that leaves the node dormant. -/
theorem HealthInput.nextTestAt_of_failure (hd : i.decidedLifecycle = .dormant)
    (h : i.failureClass.conclusiveFailure = true) (draw : ℕ) :
    i.decidedNextTestAt draw = i.now +
      fullJitterDelay (saturatingSucc i.failureStreak) i.hadRealDownload true i.failureClass
        draw := by
  obtain ⟨hsuccess, hinconclusive⟩ := FailureClass.conclusiveFailure_iff.mp h
  rw [decidedNextTestAt, ← HealthInput.decidedFailureStreak_of_failure h]
  simp [succeeded, hsuccess, hinconclusive, hd]

theorem HealthInput.nextTestAt_le_iff (hd : i.decidedLifecycle = .dormant)
    (h : i.failureClass.conclusiveFailure = true) {bound : ℕ} :
    (∀ draw, i.decidedNextTestAt draw ≤ i.now + hours bound) ↔
      rungHours (saturatingSucc i.failureStreak) ≤ bound := by
  simp only [HealthInput.nextTestAt_of_failure hd h, add_le_add_iff_left]
  exact dormantDelay_le_iff

end Inputs

section Ladder

variable {F : Type} [F64 F]

/-- The failures since a node became dormant, of its history from the newest entry on. -/
def dormantFailures (log : List AppliedEvent) : ℕ :=
  (log.takeWhile fun e => e.prior = .dormant).countP fun e => e.failureClass.conclusiveFailure

/-- The hours within which the ladder puts the test behind an event, where it puts one. -/
def ladderHours (log : List AppliedEvent) (i : HealthInput F) : Option ℕ :=
  if i.decidedLifecycle ≠ .dormant then none
  else if i.priorLifecycle ≠ .dormant then some 6
  else if i.failureClass.conclusiveFailure = false then none
  else if dormantFailures log = 0 then some 12
  else some 24

/-- The test behind an event comes within its rung, whatever the jitter. -/
def OnLadder (observed : Store F × List AppliedEvent) : Write F → Prop
  | .applyTestEvent now event cadence _ =>
    ∀ row, observed.1.findNode event.proxyId = some row → observed.1.accepts event = true →
      let totals := observed.1.scored now event
      ∀ bound ∈ ladderHours (ownHistory row.id observed.2)
          (row.healthInput totals event cadence now), ∀ jitter,
        ∃ time ∈ (row.applyEvent totals event cadence now jitter).nextTestAt,
          time ≤ now + hours bound
  | _ => True

/-- No failure makes a node dormant, and the first failure there follows a success. -/
def RungsReset (observed : Store F × List AppliedEvent) : Write F → Prop
  | .applyTestEvent now event cadence _ =>
    ∀ row, observed.1.findNode event.proxyId = some row → observed.1.accepts event = true →
      (row.healthInput (observed.1.scored now event) event cadence now).decidedLifecycle =
        .dormant →
      event.failureClass.conclusiveFailure = true →
        row.seenLifecycle = .dormant ∧
          (dormantFailures (ownHistory row.id observed.2) = 0 → asU32 row.failureStreak = 0)
  | _ => True

/-- One event is on the ladder exactly when its rung is that of the streak. -/
theorem onLadder_event_iff {log : List AppliedEvent} {i : HealthInput F}
    (hd : i.decidedLifecycle = .dormant) :
    (∀ bound ∈ ladderHours log i, ∀ jitter, i.decidedNextTestAt jitter ≤ i.now + hours bound) ↔
      (i.failureClass.conclusiveFailure = true →
        i.priorLifecycle = .dormant ∧ (dormantFailures log = 0 → i.failureStreak = 0)) := by
  rw [ladderHours, if_neg (not_not.mpr hd)]
  by_cases hp : i.priorLifecycle = .dormant
  · rw [if_neg (not_not.mpr hp)]
    cases hc : i.failureClass.conclusiveFailure with
    | false => simp
    | true =>
      simp only [Bool.true_eq_false, if_false, hp, true_and, forall_const]
      by_cases hfirst : dormantFailures log = 0
      · simp only [hfirst, if_true, Option.mem_some_iff, forall_eq', forall_const]
        rw [HealthInput.nextTestAt_le_iff hd hc]
        constructor
        · intro h
          by_contra hpos
          have htwo : 2 ≤ saturatingSucc i.failureStreak := by
            simp only [saturatingSucc, u32Max]
            omega
          rw [rungHours_of_two_le htwo] at h
          exact absurd h (by decide)
        · intro h
          rw [h]
          decide
      · simp only [hfirst, if_false, Option.mem_some_iff, forall_eq', false_implies, iff_true]
        exact (HealthInput.nextTestAt_le_iff hd hc).mpr (rungHours_le _)
  · rw [if_pos hp]
    have hthree := HealthInput.streak_of_enters hp hd
    simp only [Option.mem_some_iff, forall_eq', hp, false_and, imp_false]
    rcases FailureClass.success_or_inconclusive_or_failure i.failureClass with hs | hi | hc
    · simp [HealthInput.decidedFailureStreak, HealthInput.succeeded, hs] at hthree
    · have hsuccess := FailureClass.ne_success_of_inconclusive hi
      refine iff_of_true (fun jitter => ?_) ?_
      · rw [HealthInput.decidedNextTestAt]
        simp only [HealthInput.succeeded, beq_eq_false_iff_ne.mpr hsuccess, hi,
          Bool.false_eq_true, if_false, if_true]
        exact (add_le_add_iff_left i.now).mpr (by decide)
      · rw [FailureClass.not_conclusiveFailure_of_inconclusive hi]
        exact Bool.false_ne_true
    · rw [HealthInput.nextTestAt_le_iff hd hc]
      refine iff_of_false (fun h => ?_) (not_not.mpr hc)
      rw [HealthInput.decidedFailureStreak_of_failure hc] at hthree
      rw [rungHours_of_two_le (Nat.le_of_succ_le hthree)] at h
      exact absurd h (by decide)

theorem onLadder_iff (observed : Store F × List AppliedEvent) (w : Write F) :
    OnLadder observed w ↔ RungsReset observed w := by
  cases w with
  | applyTestEvent now event cadence draw =>
    simp only [OnLadder, RungsReset]
    refine forall_congr' fun row => forall_congr' fun _ => forall_congr' fun _ => ?_
    set i := row.healthInput (observed.1.scored now event) event cadence now with hi
    have hnext : ∀ jitter, (row.applyEvent (observed.1.scored now event) event cadence now
        jitter).nextTestAt = some (i.decidedNextTestAt jitter) := fun _ => rfl
    simp only [hnext, Option.mem_some_iff, exists_eq_left']
    by_cases hd : i.decidedLifecycle = .dormant
    · simp only [hd, forall_const]
      exact onLadder_event_iff hd
    · refine iff_of_true ?_ fun h => absurd h hd
      intro bound hbound
      rw [ladderHours, if_pos hd] at hbound
      cases hbound
  | _ => exact Iff.rfl

/-- A run stays on the ladder exactly when each of its events does so by its streak. -/
theorem dormant_ladder_iff (ws : List (Write F)) :
    ObservedRuns.Admitted (ObservedRuns.observe Store.write noteEvent) OnLadder
        (Store.empty, []) ws ↔
      ObservedRuns.Admitted (ObservedRuns.observe Store.write noteEvent) RungsReset
        (Store.empty, []) ws := by
  have hsame : (OnLadder : Store F × List AppliedEvent → Write F → Prop) = RungsReset := by
    funext observed w
    exact propext (onLadder_iff observed w)
  rw [hsame]

end Ladder

/-- Three refused connections make a revived node dormant. -/
def refusedRun : List (Write ℚ) := [
  .ingestOne 0 sampleProxy "node" 1,
  .reviveNode 0 "node",
  .applyTestEvent 0 (sampleEvent "first" .dnsTcp .connectionRefused) defaultCadence 0,
  .applyTestEvent 0 (sampleEvent "second" .dnsTcp .connectionRefused) defaultCadence 0,
  .applyTestEvent 0 (sampleEvent "third" .dnsTcp .connectionRefused) defaultCadence 86400]

/-- The third of them puts the next test a day later. -/
theorem refused_node_waits_a_day :
    ((Store.empty.writes refusedRun).findNode "node").map
      (fun row => (row.lifecycleState, row.nextTestAt)) = some (.dormant, some (hours 24)) ∧
    ¬ ObservedRuns.Admitted (ObservedRuns.observe Store.write noteEvent) OnLadder
      (Store.empty, []) refusedRun := by
  refine ⟨by decide +kernel, ?_⟩
  rintro ⟨-, -, -, -, hladder, -⟩
  have hreset := (onLadder_iff _ _).mp hladder _ rfl (by decide +kernel) (by decide +kernel) rfl
  exact absurd hreset.1 (by decide +kernel)

end ProxyFleet
