import ProxyFleet.BackgroundServices
import ProxyFleet.BoundedLevels
import ProxyFleet.ClaimCorrectness

/-!
# Adaptive concurrency

The scheduler lowers both concurrencies when the system is loaded or a batch looks overloaded, and
raises them by one after a batch without any trouble. They never leave the configured limits, climb
to the upper ones while the batches stay calm, and fall to the lower ones under load.
-/
namespace ProxyFleet

open BoundedLevels ObservedRuns

/-- Seven tenths of a positive number are less than the number, after rounding down. -/
def Shrinks (F : Type) [F64 F] [F64Floor F] : Prop :=
  ∀ n : ℕ, F64Floor.floor (F64.mul (F64.ofInt n) (F64.ofRat (7 / 10)) : F) ≤ n - 1

theorem shrinks_rat : Shrinks ℚ := by
  intro n
  show ⌊(n : ℚ) * (7 / 10)⌋.toNat ≤ n - 1
  rcases Nat.eq_zero_or_pos n with rfl | hpos
  · simp
  · have hlt : ⌊(n : ℚ) * (7 / 10)⌋ < n := by
      rw [Int.floor_lt]
      have hn : (0 : ℚ) < n := by exact_mod_cast hpos
      push_cast
      linarith
    omega

/-- The two concurrencies. -/
inductive Lever where
  | xray | download

namespace Lever

variable {F : Type}

def level (lever : Lever) (runtime : RuntimeStatus F) : ℕ :=
  match lever with
  | .xray => runtime.xrayConcurrency
  | .download => runtime.downloadConcurrency

def low (lever : Lever) (health : ConcurrencyLimits) : ℕ :=
  match lever with
  | .xray => health.xrayConcurrencyMin
  | .download => health.downloadConcurrencyMin

def high (lever : Lever) (health : ConcurrencyLimits) : ℕ :=
  match lever with
  | .xray => health.xrayConcurrencyMax
  | .download => health.downloadConcurrencyMax

theorem ordered (lever : Lever) (health : ConcurrencyLimits) :
    lever.low health ≤ lever.high health := by
  cases lever with
  | xray => exact health.xray_ordered.2
  | download => exact health.download_ordered.2

end Lever

/-- The jobs of the batch in progress. -/
def SchedulerPhase.size {F : Type} : SchedulerPhase F → ℕ
  | .waiting => 0
  | .testing _ jobs => jobs.length
  | .storing _ reports => reports.length

variable {F : Type} [F64 F]

section Batches

variable (health : ConcurrencyLimits) (pressure : F) (reports : List (String × ProbeReport F))

/-- The events of a batch. -/
def batchEvents : List (ProbeEvent F) := reports.flatMap fun report => report.2.events

def timeoutCluster : Bool :=
  decide (3 ≤ (batchEvents reports).length) &&
    decide ((batchEvents reports).length ≤
      ((batchEvents reports).countP fun event => event.failureClass.isTimeout) * 2)

def latencySpike : Bool :=
  (batchEvents reports).any fun event =>
    F64.lt (F64.ofInt health.maxRelayDelayMs) (event.latencyMs.getD (F64.ofRat 0))

def localOverload : Bool :=
  (batchEvents reports).any fun event => event.failureClass == .localOverload

/-- The reasons for which a batch lowers the concurrency. -/
def overloaded : Bool :=
  F64.le (F64.ofRat (75 / 100)) pressure || timeoutCluster reports ||
    latencySpike health reports || localOverload reports

/-- Every node of the batch passed a download, and nothing hints at load. -/
def stableWindow : Bool :=
  (reports.map fun report => report.2.events.any fun event =>
      event.stage == .download && event.failureClass == .success).all id &&
    !(reports.map fun report => report.2.events.any fun event =>
      event.stage == .download && event.failureClass == .success).isEmpty &&
    F64.lt pressure (F64.ofRat (65 / 100)) && !latencySpike health reports && !localOverload reports

variable [F64Floor F]

theorem settleBatch_eq (runtime : RuntimeStatus F) : ∃ reason,
    settleBatch health pressure reports runtime =
      if overloaded health pressure reports then health.decrease reason runtime
      else if stableWindow health pressure reports then health.increase runtime
      else runtime := by
  have hunfold : settleBatch health pressure reports runtime =
      if F64.le (F64.ofRat (75 / 100)) pressure then
        health.decrease "decreased: system_pressure" runtime
      else if timeoutCluster reports then health.decrease "decreased: timeout_cluster" runtime
      else if latencySpike health reports then health.decrease "decreased: latency_spike" runtime
      else if localOverload reports then health.decrease "decreased: local_overload" runtime
      else if stableWindow health pressure reports then health.increase runtime
      else runtime := rfl
  rw [hunfold, overloaded]
  cases F64.le (F64.ofRat (75 / 100)) pressure with
  | true => exact ⟨_, rfl⟩
  | false =>
    cases timeoutCluster reports with
    | true => exact ⟨_, rfl⟩
    | false =>
      cases latencySpike health reports with
      | true => exact ⟨_, rfl⟩
      | false => cases localOverload reports <;> exact ⟨_, rfl⟩

end Batches

section Levels

variable [F64Floor F] {health : ConcurrencyLimits} {lever : Lever}

theorem moves_decrease (shrinks : Shrinks F) (reason : String) (runtime : RuntimeStatus F) :
    Moves (lever.low health) (lever.high health) (lever.level runtime)
      (lever.level (health.decrease reason runtime)) .down := by
  have hdecreased (current low high : ℕ) (hle : low ≤ high) :
      Moves low high current (decreased (F := F) current low high) .down := by
    have hshrinks := shrinks current
    simp only [Moves, decreased]
    omega
  cases lever with
  | xray => exact hdecreased _ _ _ health.xray_ordered.2
  | download => exact hdecreased _ _ _ health.download_ordered.2

omit [F64 F] [F64Floor F] in
theorem moves_increase (runtime : RuntimeStatus F) :
    Moves (lever.low health) (lever.high health) (lever.level runtime)
      (lever.level (health.increase runtime)) .up := by
  cases lever <;> rfl

/-- What a step of a service does to the concurrencies. -/
def concurrencyMove (health : ConcurrencyLimits) (s : Services F) (event : ServiceEvent F) : Move :=
  match event, s.scheduler with
  | .schedulerTick pressure _, .waiting =>
    if F64.le (F64.ofRat (90 / 100)) pressure then .down else .keep
  | .batchStored, .storing pressure reports =>
    if overloaded health pressure reports then .down
    else if stableWindow health pressure reports then .up
    else .keep
  | _, _ => .keep

end Levels

namespace Services

variable [F64Floor F] {config : ServiceConfig} {lever : Lever}

omit [F64 F] [F64Floor F] in
theorem level_guardCheck (config : NetworkGuardConfig) (verdict : Bool × String) (guard : GuardLoop)
    (runtime : RuntimeStatus F) :
    lever.level (guardCheck config verdict guard runtime).2 = lever.level runtime := by
  simp only [guardCheck]
  repeat' split
  all_goals cases lever <;> rfl

omit [F64 F] [F64Floor F] in
theorem level_assessBatch (config : NetworkGuardConfig) (reports : List (String × ProbeReport F))
    (runtime : RuntimeStatus F) :
    lever.level (assessBatch config reports runtime) = lever.level runtime := by
  unfold assessBatch
  split <;> cases lever <;> rfl

/-- Every step moves both concurrencies the same way. -/
theorem step_moves (shrinks : Shrinks F) (s : Services F) (event : ServiceEvent F) :
    Moves (lever.low config.health) (lever.high config.health) (lever.level s.runtime)
      (lever.level (s.step config event).runtime) (concurrencyMove config.health s event) := by
  cases event with
  | guardTick =>
    simp only [step, concurrencyMove]
    split <;> rfl
  | guardVerdict clientBuilt networks =>
    simp only [step, concurrencyMove]
    split
    · exact level_guardCheck ..
    · rfl
  | schedulerTick pressure jobs =>
    cases hphase : s.scheduler with
    | waiting =>
      simp only [step, concurrencyMove, hphase, schedulerTick]
      split
      · exact moves_decrease shrinks _ { s.runtime with systemPressure := pressure }
      · split
        · cases lever <;> rfl
        · split <;> cases lever <;> rfl
    | testing _ _ => simp only [step, concurrencyMove, hphase, Moves]
    | storing _ _ => simp only [step, concurrencyMove, hphase, Moves]
  | batchTested reports =>
    cases hphase : s.scheduler with
    | testing pressure jobs =>
      simp only [step, concurrencyMove, hphase]
      exact level_assessBatch ..
    | waiting => simp only [step, concurrencyMove, hphase, Moves]
    | storing _ _ => simp only [step, concurrencyMove, hphase, Moves]
  | batchStored =>
    cases hphase : s.scheduler with
    | storing pressure reports =>
      obtain ⟨reason, hsettled⟩ := settleBatch_eq config.health pressure reports s.runtime
      simp only [step, concurrencyMove, hphase, hsettled]
      split
      · exact moves_decrease shrinks _ _
      · split
        · exact moves_increase _
        · rfl
    | waiting => simp only [step, concurrencyMove, hphase, Moves]
    | testing _ _ => simp only [step, concurrencyMove, hphase, Moves]

/-- Both concurrencies are within their limits, and so is the batch in progress. -/
structure WithinLimits (health : ConcurrencyLimits) (s : Services F) : Prop where
  levels : ∀ lever : Lever, lever.low health ≤ lever.level s.runtime ∧
    lever.level s.runtime ≤ lever.high health
  batch : s.scheduler.size ≤ health.xrayConcurrencyMax

theorem WithinLimits.step (shrinks : Shrinks F) {s : Services F} {event : ServiceEvent F}
    (possible : s.Possible event) (h : s.WithinLimits config.health) :
    (s.step config event).WithinLimits config.health where
  levels lever := (step_moves shrinks s event).within (lever.ordered _) (h.levels lever)
  batch := by
    cases event with
    | guardTick =>
      simp only [Services.step]
      split <;> exact h.batch
    | guardVerdict clientBuilt networks =>
      simp only [Services.step]
      split <;> exact h.batch
    | schedulerTick pressure jobs =>
      cases hphase : s.scheduler with
      | waiting =>
        have hjobs : jobs.length ≤ config.health.xrayConcurrencyMax := by
          refine possible.1.trans (max_le (h.levels .xray).2 ?_)
          exact config.health.xray_ordered.1.trans_le config.health.xray_ordered.2
        simp only [Services.step, hphase, schedulerTick]
        split
        · exact Nat.zero_le _
        · split
          · exact Nat.zero_le _
          · split
            · exact Nat.zero_le _
            · exact hjobs
      | testing _ _ =>
        simp only [Services.step, hphase]
        exact hphase ▸ h.batch
      | storing _ _ =>
        simp only [Services.step, hphase]
        exact hphase ▸ h.batch
    | batchTested reports =>
      cases hphase : s.scheduler with
      | testing pressure jobs =>
        have hbatch : jobs.length ≤ config.health.xrayConcurrencyMax := by
          have hsize := h.batch
          rwa [hphase] at hsize
        simp only [Possible, hphase] at possible
        have hlength := possible.length_eq
        rw [List.length_map] at hlength
        simp only [Services.step, hphase]
        exact hlength.trans_le hbatch
      | waiting =>
        simp only [Services.step, hphase]
        exact hphase ▸ h.batch
      | storing _ _ =>
        simp only [Services.step, hphase]
        exact hphase ▸ h.batch
    | batchStored =>
      cases hphase : s.scheduler with
      | storing pressure reports =>
        simp only [Services.step, hphase]
        exact Nat.zero_le _
      | waiting =>
        simp only [Services.step, hphase]
        exact hphase ▸ h.batch
      | testing _ _ =>
        simp only [Services.step, hphase]
        exact hphase ▸ h.batch

omit [F64Floor F] in
theorem withinLimits_initial (config : ServiceConfig) :
    (initial config : Services F).WithinLimits config.health where
  levels lever := by
    cases lever with
    | xray => exact ⟨le_rfl, config.health.xray_ordered.2⟩
    | download => exact ⟨le_rfl, config.health.download_ordered.2⟩
  batch := Nat.zero_le _

omit [F64Floor F] in
/-- The jobs that a tick claims from a store are such as a tick of the scheduler takes. -/
theorem possible_claimDue (s : Services F) (pressure : F) {store : Store F}
    (keyed : store.WellKeyed) (tick : ClaimTick F) :
    s.Possible (.schedulerTick pressure
      ((store.claimDue s.runtime.xrayConcurrency tick).2.map (·.id))) := by
  have hrefines := claimPasses_refines keyed (max s.runtime.xrayConcurrency 1) tick
  have hbounded := (servedByTick_spec store (max s.runtime.xrayConcurrency 1) tick.now).1
  rw [(store.claimDue_passes s.runtime.xrayConcurrency tick).1]
  refine ⟨?_, hrefines.claiming.distinct⟩
  rw [List.length_map]
  exact hrefines.total.symm.trans_le hbounded

/-- From every state that the services reach, whatever they do next: both concurrencies and the
batches stay within the configured limits. Without a reason to lower them, both go up by one with
each stable window until they are at the upper limit. Without a stable window, each reason lowers
both by at least one until they are at the lower limit. -/
theorem concurrency_controlled (shrinks : Shrinks F) (config : ServiceConfig) (s : Services F)
    (reachable : Reachable config s) (events : List (ServiceEvent F))
    (possible : Admitted (step config) Possible s events) :
    let s' := run (step config) s events
    let count (move : Move) :=
      occurrences (step config) (concurrencyMove config.health) move s events
    s'.WithinLimits config.health ∧ ∀ lever : Lever,
      (count .down = 0 → lever.level s'.runtime =
        min (lever.level s.runtime + count .up) (lever.high config.health)) ∧
      (count .up = 0 → lever.level s'.runtime ≤
        max (lever.low config.health) (lever.level s.runtime - count .down)) := by
  obtain ⟨past, hpast, rfl⟩ := reachable
  have hlimits : (run (step config) (initial config) past).WithinLimits config.health :=
    run_invariant (fun _ _ hpossible h => h.step shrinks hpossible) (withinLimits_initial config)
      hpast
  refine ⟨run_invariant (fun _ _ hpossible h => h.step shrinks hpossible) hlimits possible,
    fun lever => ⟨fun calm => ?_, fun loaded => ?_⟩⟩
  · exact level_climbs (lever.ordered _) (step_moves shrinks) (hlimits.levels lever) calm
  · exact level_falls (lever.ordered _) (step_moves shrinks) (hlimits.levels lever) loaded

end Services

section Examples

/-- A node that passes its download. -/
def passedDownload : ProbeReport ℚ where
  proxy := none
  events := [{ stage := .download, failureClass := .success }]

/-- A calm round of the scheduler, during which the guard checks the network. -/
def calmRound : List (ServiceEvent ℚ) :=
  [.guardTick, .schedulerTick 0 ["n"],
    .guardVerdict true fun _ => ⟨fun _ => some 200, fun _ _ => true⟩,
    .batchTested [("n", passedDownload)], .batchStored]

theorem possible_calmRound :
    Admitted (Services.step {}) Services.Possible (Services.initial {} : Services ℚ) calmRound := by
  have hcool : F64.le (F64.ofRat (90 / 100)) (0 : ℚ) = false := by decide +kernel
  refine ⟨trivial, ⟨by decide, by decide⟩, trivial, ?_, trivial, trivial⟩
  simp [Services.Possible, Services.step, Services.initial, schedulerTick, guardCheck,
    sentinelHealth, hcool]

theorem concurrency_controlled_calm :
    (run (Services.step {}) (Services.initial {} : Services ℚ) calmRound).runtime.xrayConcurrency =
      5 := by
  have hcontrolled := Services.concurrency_controlled shrinks_rat {} (Services.initial {})
    ⟨[], trivial, rfl⟩ calmRound possible_calmRound
  exact ((hcontrolled.2 .xray).1 (by decide +kernel)).trans (by decide +kernel)

end Examples

end ProxyFleet
