import ProxyFleet.IncidentRecovery

/-!
# The hysteresis of a network incident

An observer counts the consecutive healthy checks that were begun since the last moment at
which either service raised the incident. The guard's own counter agrees with it as long as
every batch that raises an incident finds that counter at zero and no check under way: the
counter is local to the guard, a batch does not reset it, and a check that is under way
counts for the guard whatever is raised before its verdict.
-/
namespace ProxyFleet

open ObservedRuns

/-- The consecutive healthy checks since the incident was last raised, and whether the check
under way was begun since. -/
structure Sightings where
  healthy : ℕ := 0
  fresh : Bool := false

namespace Services

variable {F : Type} [F64 F] [F64Floor F] {config : ServiceConfig} {s : Services F}

/-- The reports end a batch that raises the incident. -/
def raises (config : ServiceConfig) (s : Services F)
    (reports : List (String × ProbeReport F)) : Bool :=
  match s.scheduler with
  | .testing _ _ =>
    (correlatedIncident reports config.networkGuard.massFailureThresholdPercent).isSome
  | _ => false

/-- What the observer sees in an event. A check that lets the guard raise the incident is
itself a failing one. -/
def sightings (config : ServiceConfig) (seen : Sightings) (s : Services F) :
    ServiceEvent F → Sightings
  | .guardTick =>
    if config.networkGuard.enabled && !s.checking then { seen with fresh := true } else seen
  | .guardVerdict clientBuilt networks =>
    if config.networkGuard.enabled && s.checking then
      if verdict config clientBuilt networks then
        if seen.fresh then { seen with healthy := seen.healthy + 1 } else seen
      else { seen with healthy := 0 }
    else seen
  | .batchTested reports => if s.raises config reports then {} else seen
  | _ => seen

/-- A step that ends an incident comes after enough healthy checks. -/
def Hysteresis (config : ServiceConfig) (observed : Services F × Sightings)
    (event : ServiceEvent F) : Prop :=
  observed.1.runtime.networkIncident = true →
    (step config observed.1 event).runtime.networkIncident = false →
      config.networkGuard.recoveryThreshold ≤
        (sightings config observed.2 observed.1 event).healthy

/-- A batch that raises the incident does so while no check is under way and the guard has no
recovery counted, or one healthy check is enough anyway. -/
def RaisedAtRest (config : ServiceConfig) (s : Services F) : ServiceEvent F → Prop
  | .batchTested reports => s.raises config reports = true →
    config.networkGuard.recoveryThreshold = 0 ∨ s.checking = false ∧
      (s.guard.recoveries = 0 ∨ config.networkGuard.recoveryThreshold ≤ 1)
  | _ => True

/-- The guard counts no recovery that the observer does not count. -/
def CountedSince (config : ServiceConfig) (s : Services F) (seen : Sightings) : Prop :=
  config.networkGuard.recoveryThreshold = 0 ∨ (s.checking = true → seen.fresh = true) ∧
    (s.guard.recoveries ≤ seen.healthy ∨ config.networkGuard.recoveryThreshold ≤ 1)

/-- The scheduler touches neither the guard nor its check. -/
theorem step_guard (config : ServiceConfig) (s : Services F) {event : ServiceEvent F}
    (htick : event ≠ .guardTick)
    (hverdict : ∀ clientBuilt networks, event ≠ .guardVerdict clientBuilt networks) :
    (step config s event).guard = s.guard ∧ (step config s event).checking = s.checking := by
  cases event with
  | guardTick => exact absurd rfl htick
  | guardVerdict clientBuilt networks => exact absurd rfl (hverdict clientBuilt networks)
  | schedulerTick pressure jobs => cases hphase : s.scheduler <;> simp [step, hphase]
  | batchTested reports => cases hphase : s.scheduler <;> simp [step, hphase]
  | batchStored => cases hphase : s.scheduler <;> simp [step, hphase]

omit [F64 F] [F64Floor F] in
/-- The observer counts a healthy check that was begun since the last raise. -/
theorem sightings_healthy {seen : Sightings} {clientBuilt : Bool} {networks : ℕ → SentinelNetwork}
    (hchecking : s.checking = true) (hverdict : verdict config clientBuilt networks = true) :
    sightings config seen s (.guardVerdict clientBuilt networks) =
      if seen.fresh then { seen with healthy := seen.healthy + 1 } else seen := by
  have henabled : config.networkGuard.enabled = true := (Bool.and_eq_true_iff.mp hverdict).1
  rw [sightings, henabled, hchecking, hverdict]
  rfl

theorem countedSince_step {seen : Sightings} {event : ServiceEvent F}
    (hrest : RaisedAtRest config s event) (h : CountedSince config s seen) :
    CountedSince config (step config s event) (sightings config seen s event) := by
  rcases h with hzero | ⟨hfresh, hcount⟩
  case inl => exact .inl hzero
  cases event with
  | guardTick =>
    right
    cases henabled : config.networkGuard.enabled with
    | false =>
      simp only [step, sightings, henabled, Bool.false_and, Bool.false_eq_true, if_false]
      exact ⟨hfresh, hcount⟩
    | true =>
      cases hchecking : s.checking with
      | false =>
        simp only [step, sightings, henabled, hchecking, Bool.not_false, Bool.and_self, if_true]
        exact ⟨fun _ => trivial, hcount⟩
      | true =>
        simp only [step, sightings, henabled, hchecking, Bool.not_true, Bool.and_false, if_true,
          Bool.false_eq_true, if_false]
        exact ⟨fun _ => hfresh hchecking, hcount⟩
  | guardVerdict clientBuilt networks =>
    cases hwaits : config.networkGuard.enabled && s.checking with
    | false =>
      rw [step_guardVerdict_idle hwaits]
      simp only [sightings, hwaits, Bool.false_eq_true, if_false]
      exact .inr ⟨hfresh, hcount⟩
    | true =>
      obtain ⟨henabled, hchecking⟩ := Bool.and_eq_true_iff.mp hwaits
      right
      refine ⟨fun hstill => ?_, ?_⟩
      · rw [step_guardVerdict henabled hchecking] at hstill
        cases hstill
      · cases hverdict : verdict config clientBuilt networks with
        | true =>
          rw [(guardVerdict_healthy hchecking hverdict).1]
          have : saturatingSucc s.guard.recoveries ≤ s.guard.recoveries + 1 := min_le_left _ _
          rw [sightings_healthy hchecking hverdict, hfresh hchecking, if_pos rfl]
          dsimp only
          omega
        | false =>
          rw [(guardVerdict_unhealthy henabled hchecking hverdict).2]
          exact .inl (Nat.zero_le _)
  | schedulerTick pressure jobs =>
    obtain ⟨hguard, hchecking⟩ := step_guard config s
      (show ServiceEvent.schedulerTick pressure jobs ≠ .guardTick by simp) (by simp)
    right
    rw [hguard, hchecking]
    exact ⟨hfresh, hcount⟩
  | batchTested reports =>
    obtain ⟨hguard, hchecking⟩ := step_guard config s
      (show ServiceEvent.batchTested reports ≠ .guardTick by simp) (by simp)
    unfold CountedSince
    rw [hguard, hchecking]
    cases hraises : s.raises config reports with
    | true =>
      obtain hzero | ⟨hidle, hrest⟩ := hrest hraises
      · exact .inl hzero
      · refine .inr ⟨fun hbusy => absurd hbusy (by simp [hidle]), hrest.imp_left fun hzero => ?_⟩
        rw [hzero]
        exact Nat.zero_le _
    | false =>
      simp only [sightings, hraises, Bool.false_eq_true, if_false]
      exact .inr ⟨hfresh, hcount⟩
  | batchStored =>
    obtain ⟨hguard, hchecking⟩ := step_guard config s
      (show ServiceEvent.batchStored ≠ .guardTick by simp) (by simp)
    right
    rw [hguard, hchecking]
    exact ⟨hfresh, hcount⟩

theorem hysteresis_of_countedSince {seen : Sightings} (event : ServiceEvent F)
    (h : CountedSince config s seen) : Hysteresis config (s, seen) event := by
  intro before after
  obtain ⟨clientBuilt, networks, rfl, hchecking, hverdict, hthreshold⟩ := step_cleared before after
  rcases h with hzero | ⟨hfresh, hcount⟩
  · rw [hzero]
    exact Nat.zero_le _
  · show _ ≤ (sightings config seen s _).healthy
    rw [sightings_healthy hchecking hverdict, hfresh hchecking, if_pos rfl]
    dsimp only
    rcases hcount with hcount | hone
    · have : saturatingSucc s.guard.recoveries ≤ s.guard.recoveries + 1 := min_le_left _ _
      have : config.networkGuard.recoveryThreshold ≤ s.guard.recoveries + 1 :=
        le_trans (le_trans (le_max_left _ _) hthreshold) this
      omega
    · omega

/-- In a run whose batches raise incidents only while no check is under way and no recovery is
counted, an incident ends only after enough consecutive healthy checks, all of them made since it
was last raised. -/
theorem incident_hysteresis {events : List (ServiceEvent F)}
    (h : Admitted (step config) (RaisedAtRest config) (initial config) events) :
    Admitted (observe (step config) (sightings config)) (Hysteresis config) (initial config, {})
      events :=
  observed_of_invariant (fun _ _ _ hrest => countedSince_step hrest)
    (fun _ _ event _ hcount => hysteresis_of_countedSince event hcount)
    (.inr ⟨fun hbusy => absurd hbusy Bool.false_ne_true, .inl le_rfl⟩) h

section Needed

variable {world : SentinelNetwork} {seen : Sightings}

/-- What the observer has counted after one more healthy check. -/
def afterCheck (seen : Sightings) (s : Services F) : ℕ :=
  if s.checking && !seen.fresh then seen.healthy else seen.healthy + 1

theorem sightings_check (hc : config.networkGuard.CanRecover world) (seen : Sightings)
    (s : Services F) :
    (run (observe (step config) (sightings config)) (s, seen) (check world)).2.healthy =
      afterCheck seen s := by
  have htick : step config s .guardTick = { s with checking := true } := if_pos hc.1
  rw [check, run_cons, run_cons, run_nil, observe_snd, observe_fst, observe_snd, htick,
    sightings_healthy rfl (verdict_of_canRecover hc), sightings, hc.1, afterCheck]
  obtain ⟨healthy, fresh⟩ := seen
  cases s.checking <;> cases fresh <;> rfl

/-- A guard that is ahead of the observer ends an incident too early. -/
theorem hysteresis_broken_of_ahead (hc : config.networkGuard.CanRecover world)
    (before : s.runtime.networkIncident = true) (hahead : afterCheck seen s ≤ s.guard.recoveries)
    (hshort : afterCheck seen s < config.networkGuard.recoveryThreshold) :
    ∃ events, ¬Admitted (observe (step config) (sightings config)) (Hysteresis config)
      (s, seen) events := by
  induction hleft : config.networkGuard.recoveryThreshold - s.guard.recoveries
    using Nat.strong_induction_on generalizing s seen with
  | _ left ih =>
    obtain ⟨-, hidle, hguard, hincident⟩ := check_healthy hc s
    have hhealthy := sightings_check hc seen s
    rw [before, Bool.true_and] at hincident
    by_cases hreached :
        max config.networkGuard.recoveryThreshold 1 ≤ saturatingSucc s.guard.recoveries
    · -- The verdict of the next check ends the incident too early.
      refine ⟨check world, fun hadmitted => ?_⟩
      have htick : step config s .guardTick = { s with checking := true } := if_pos hc.1
      have hlaw := hadmitted.2.1 (by simpa only [observe_fst, htick] using before)
        (by simpa only [check, run_cons, run_nil, observe_fst, hreached, decide_true, Bool.not_true]
          using hincident)
      have hcounted : config.networkGuard.recoveryThreshold ≤ afterCheck seen s :=
        hhealthy ▸ hlaw
      omega
    · have hthreshold := config.networkGuard.recoveryThreshold_le
      have hsucc : saturatingSucc s.guard.recoveries = s.guard.recoveries + 1 := by
        unfold saturatingSucc at hreached ⊢
        omega
      rw [hsucc] at hguard hreached
      set next := run (observe (step config) (sightings config)) (s, seen) (check world) with hnext
      have hstate : next.1 = run (step config) s (check world) := run_observe_fst _ _ _ _
      have hrecoveries : next.1.guard.recoveries = s.guard.recoveries + 1 := by rw [hstate, hguard]
      have hafter : afterCheck next.2 next.1 = afterCheck seen s + 1 := by
        rw [← hhealthy, afterCheck, hstate, hidle]
        rfl
      obtain ⟨events, hbroken⟩ := ih _ (by omega)
        (by rw [hstate, hincident, hsucc]; simp [hreached])
        (by omega : afterCheck next.2 next.1 ≤ next.1.guard.recoveries) (by omega) rfl
      refine ⟨check world ++ events, fun hadmitted => ?_⟩
      exact hbroken ((admitted_append _ _ _ _ _).mp hadmitted).2

/-- The condition is needed: after a batch that raises the incident otherwise, healthy checks can
end it too early. -/
theorem hysteresis_broken (hc : config.networkGuard.CanRecover world) (seen : Sightings)
    {reports : List (String × ProbeReport F)}
    (h : ¬RaisedAtRest config s (.batchTested reports)) :
    ∃ events, ¬Admitted (observe (step config) (sightings config)) (Hysteresis config)
      (s, seen) (.batchTested reports :: events) := by
  have hraises : s.raises config reports = true := by
    by_contra hnot
    exact h fun hyes => absurd hyes hnot
  have hpast : ¬(config.networkGuard.recoveryThreshold = 0 ∨ s.checking = false ∧
      (s.guard.recoveries = 0 ∨ config.networkGuard.recoveryThreshold ≤ 1)) :=
    fun hrest => h fun _ => hrest
  obtain ⟨hguard, hchecking⟩ := step_guard config s
    (show ServiceEvent.batchTested reports ≠ .guardTick by simp) (by simp)
  have hraised : (step config s (.batchTested reports)).runtime.networkIncident = true := by
    unfold raises at hraises
    split at hraises
    · next pressure jobs hphase =>
      obtain ⟨reason, hreason⟩ := Option.isSome_iff_exists.mp hraises
      simp only [step, hphase, assessBatch, hreason]
    · cases hraises
  have hafter : afterCheck {} (step config s (.batchTested reports)) =
      if s.checking then 0 else 1 := by
    rw [afterCheck, hchecking]
    cases s.checking <;> rfl
  have hahead : (if s.checking then 0 else 1) ≤ s.guard.recoveries ∧
      (if s.checking then 0 else 1) < config.networkGuard.recoveryThreshold := by
    have hpositive : config.networkGuard.recoveryThreshold ≠ 0 := fun hzero => hpast (.inl hzero)
    split
    · omega
    · next hidle =>
      have hcounted : ¬(s.guard.recoveries = 0 ∨ config.networkGuard.recoveryThreshold ≤ 1) :=
        fun hrest => hpast (.inr ⟨Bool.eq_false_iff.mpr hidle, hrest⟩)
      omega
  rw [← hafter, ← hguard] at hahead
  obtain ⟨events, hbroken⟩ := hysteresis_broken_of_ahead hc hraised hahead.1 hahead.2
  refine ⟨events, fun hadmitted => hbroken ?_⟩
  have hrest := hadmitted.2
  rwa [observe, sightings, if_pos hraises] at hrest

end Needed

instance (observed : Services F × Sightings) (event : ServiceEvent F) :
    Decidable (Hysteresis config observed event) :=
  inferInstanceAs (Decidable (_ → _ → _))

instance decidableRaisedAtRest (s : Services F) : ∀ event, Decidable (RaisedAtRest config s event)
  | .batchTested _ => inferInstanceAs (Decidable (_ → _ ∨ _ ∧ (_ ∨ _)))
  | .guardTick => isTrue trivial
  | .guardVerdict _ _ => isTrue trivial
  | .schedulerTick _ _ => isTrue trivial
  | .batchStored => isTrue trivial

end Services

section Hasty

/-- A guard that asks for some healthy checks, and has no target. -/
def guarded (recoveryThreshold : ℕ) (h : recoveryThreshold ≤ u32Max) : ServiceConfig :=
  { unguarded with
    networkGuard := { unguarded.networkGuard with
      enabled := true
      recoveryThreshold := recoveryThreshold
      recoveryThreshold_le := h } }

/-- The guard asks for two checks and makes them after the incident. -/
theorem incident_hysteresis_twoRecoveries :
    Admitted (observe (Services.step (guarded 2 (by decide)))
        (Services.sightings (guarded 2 (by decide))))
      (Services.Hysteresis (guarded 2 (by decide)))
      (Services.initial (guarded 2 (by decide)), {})
      (failingBatch ++ Services.check openNetwork ++ Services.check openNetwork) :=
  Services.incident_hysteresis (by decide +kernel)

/-- With the shipped threshold of one, a check that was under way when the batch raised the
incident ends it. With a threshold of two, so does a check after it if one was made before. -/
theorem incident_ends_early :
    (¬Admitted (observe (Services.step (guarded 1 (by decide)))
        (Services.sightings (guarded 1 (by decide))))
      (Services.Hysteresis (guarded 1 (by decide)))
      (Services.initial (guarded 1 (by decide)), {})
      (.guardTick :: failingBatch ++ [.guardVerdict true fun _ => openNetwork])) ∧
    ¬Admitted (observe (Services.step (guarded 2 (by decide)))
        (Services.sightings (guarded 2 (by decide))))
      (Services.Hysteresis (guarded 2 (by decide)))
      (Services.initial (guarded 2 (by decide)), {})
      (Services.check openNetwork ++ failingBatch ++ Services.check openNetwork) := by
  decide +kernel

end Hasty

end ProxyFleet
