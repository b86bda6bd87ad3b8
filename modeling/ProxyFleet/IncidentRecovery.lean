import ProxyFleet.BackgroundServices

/-!
# How a network incident ends

Both services raise the incident, and only the guard ends it: at a healthy check
whose recovery counter reaches the threshold. Hence a pause of the scheduler can end
exactly if the guard runs and enough of its targets can answer at all. A target of an
empty or malformed URL never does.
-/
namespace ProxyFleet

open ObservedRuns

namespace NetworkGuardConfig

variable (config : NetworkGuardConfig) (world : SentinelNetwork)

/-- The targets that the network answers. -/
def answering : List SentinelTarget := config.sentinelTargets.filter fun target => target.ok world

/-- The targets that answer are enough, with one over HTTP where that is required. -/
def Attainable : Prop :=
  config.sentinelTargets = [] ∨ config.minimumSuccesses ≤ (config.answering world).length ∧
    (config.requireHttpSuccess = false ∨ ∃ target ∈ config.answering world, target.isHttp = true)

/-- The guard runs and can see a healthy network. -/
def CanRecover : Prop := config.enabled = true ∧ config.Attainable world

/-- During a check each target answers as on the given network. -/
def AnswersAs (networks : ℕ → SentinelNetwork) : Prop :=
  ∀ (i : ℕ) (target : SentinelTarget), config.sentinelTargets[i]? = some target →
    target.ok (networks i) = target.ok world

end NetworkGuardConfig

section Sentinels

variable {world : SentinelNetwork} {networks : ℕ → SentinelNetwork}

theorem sentinelLoop_eq {targets : List SentinelTarget} {i successful : ℕ} {httpSuccess : Bool}
    (h : ∀ (j : ℕ) (target : SentinelTarget), targets[j]? = some target →
      target.ok (networks (i + j)) = target.ok world) :
    sentinelLoop networks targets i (successful, httpSuccess) =
      (successful + (targets.filter fun target => target.ok world).length,
        httpSuccess ||
          (targets.filter fun target => target.ok world).any SentinelTarget.isHttp) := by
  induction targets generalizing i successful httpSuccess with
  | nil => simp [sentinelLoop]
  | cons target rest ih =>
    have hfirst : target.ok (networks i) = target.ok world := h 0 target rfl
    have hrest : ∀ (j : ℕ) (other : SentinelTarget), rest[j]? = some other →
        other.ok (networks (i + 1 + j)) = other.ok world := by
      intro j other hother
      have := h (j + 1) other (by simpa using hother)
      rwa [show i + 1 + j = i + (j + 1) by omega]
    cases hok : target.ok world with
    | true =>
      rw [hok] at hfirst
      simp only [sentinelLoop, hfirst, if_true, ih hrest, List.filter_cons, hok,
        List.length_cons, List.any_cons, Bool.or_assoc, Prod.mk.injEq, and_true]
      omega
    | false =>
      rw [hok] at hfirst
      simp only [sentinelLoop, hfirst, Bool.false_eq_true, if_false, ih hrest, List.filter_cons,
        hok]

/-- A check is healthy exactly if the targets that answer are enough. -/
theorem healthy_iff {config : NetworkGuardConfig} (h : config.AnswersAs world networks) :
    (sentinelHealth config true networks).1 = true ↔ config.Attainable world := by
  unfold sentinelHealth NetworkGuardConfig.Attainable
  split
  · next hempty =>
    have hnil : config.sentinelTargets = [] := List.isEmpty_iff.mp hempty
    simp [hnil]
  · next hsome =>
    have hne : config.sentinelTargets ≠ [] := fun hnil => hsome (by simp [hnil])
    have hloop : sentinelLoop networks config.sentinelTargets 0 (0, !config.requireHttpSuccess) =
        (0 + (config.answering world).length, !config.requireHttpSuccess ||
          (config.answering world).any SentinelTarget.isHttp) :=
      sentinelLoop_eq (fun j target hj => by simpa using h j target hj)
    simp [hloop, hne]

end Sentinels

variable {F : Type}

theorem assessBatch_kept {config : NetworkGuardConfig} {reports : List (String × ProbeReport F)}
    {runtime : RuntimeStatus F} (h : runtime.networkIncident = true) :
    (assessBatch config reports runtime).networkIncident = true := by
  unfold assessBatch
  split
  · rfl
  · exact h

variable [F64 F] [F64Floor F]

@[simp] theorem schedulerTick_networkIncident (health : ConcurrencyLimits) (pressure : F)
    (jobs : List String) (runtime : RuntimeStatus F) :
    (schedulerTick health pressure jobs runtime).1.networkIncident = runtime.networkIncident := by
  simp only [schedulerTick]
  split_ifs <;> rfl

@[simp] theorem settleBatch_networkIncident (health : ConcurrencyLimits) (pressure : F)
    (reports : List (String × ProbeReport F)) (runtime : RuntimeStatus F) :
    (settleBatch health pressure reports runtime).networkIncident = runtime.networkIncident := by
  simp only [settleBatch]
  split_ifs <;> rfl

namespace Services

variable {config : ServiceConfig} {s : Services F} {clientBuilt : Bool}
  {networks : ℕ → SentinelNetwork} {world : SentinelNetwork}

/-- The verdict of a check. -/
def verdict (config : ServiceConfig) (clientBuilt : Bool) (networks : ℕ → SentinelNetwork) : Bool :=
  config.networkGuard.enabled && (sentinelHealth config.networkGuard clientBuilt networks).1

theorem step_guardVerdict (henabled : config.networkGuard.enabled = true)
    (hchecking : s.checking = true) : step config s (.guardVerdict clientBuilt networks) =
      { s with
        guard := (guardCheck config.networkGuard
          (sentinelHealth config.networkGuard clientBuilt networks) s.guard s.runtime).1
        checking := false
        runtime := (guardCheck config.networkGuard
          (sentinelHealth config.networkGuard clientBuilt networks) s.guard s.runtime).2 } := by
  rw [step, henabled, hchecking]
  rfl

/-- A verdict that no check waits for is not written down. -/
theorem step_guardVerdict_idle
    (h : (config.networkGuard.enabled && s.checking) = false) :
    step config s (.guardVerdict clientBuilt networks) = s := by
  rw [step, h]
  rfl

theorem guardVerdict_healthy (hchecking : s.checking = true)
    (h : verdict config clientBuilt networks = true) :
    (step config s (.guardVerdict clientBuilt networks)).guard =
        { failures := 0, recoveries := saturatingSucc s.guard.recoveries } ∧
      (step config s (.guardVerdict clientBuilt networks)).runtime.networkIncident =
        (s.runtime.networkIncident && !decide
          (max config.networkGuard.recoveryThreshold 1 ≤ saturatingSucc s.guard.recoveries)) := by
  obtain ⟨henabled, hhealthy⟩ := Bool.and_eq_true_iff.mp h
  rw [step_guardVerdict henabled hchecking]
  simp only [guardCheck, hhealthy, if_true, true_and]
  by_cases hi : s.runtime.networkIncident <;>
    by_cases ht : max config.networkGuard.recoveryThreshold 1 ≤
      saturatingSucc s.guard.recoveries <;> simp [hi, ht]

theorem guardVerdict_unhealthy (henabled : config.networkGuard.enabled = true)
    (hchecking : s.checking = true) (h : verdict config clientBuilt networks = false) :
    (step config s (.guardVerdict clientBuilt networks)).runtime.networkIncident =
        (s.runtime.networkIncident || decide
          (max config.networkGuard.failureThreshold 1 ≤ saturatingSucc s.guard.failures)) ∧
      (step config s (.guardVerdict clientBuilt networks)).guard.recoveries = 0 := by
  have hunhealthy : (sentinelHealth config.networkGuard clientBuilt networks).1 = false := by
    simpa [verdict, henabled] using h
  rw [step_guardVerdict henabled hchecking]
  simp [guardCheck, hunhealthy]

/-- Only the verdict of a healthy check ends an incident, and only at the recovery threshold. -/
theorem step_cleared {event : ServiceEvent F} (before : s.runtime.networkIncident = true)
    (after : (step config s event).runtime.networkIncident = false) :
    ∃ clientBuilt networks, event = .guardVerdict clientBuilt networks ∧ s.checking = true ∧
      verdict config clientBuilt networks = true ∧
      max config.networkGuard.recoveryThreshold 1 ≤ saturatingSucc s.guard.recoveries := by
  cases event with
  | guardTick =>
    simp only [step] at after
    split at after <;> simp [before] at after
  | guardVerdict clientBuilt networks =>
    cases hwaits : config.networkGuard.enabled && s.checking with
    | false =>
      rw [step_guardVerdict_idle hwaits, before] at after
      cases after
    | true =>
      obtain ⟨henabled, hchecking⟩ := Bool.and_eq_true_iff.mp hwaits
      cases hverdict : verdict config clientBuilt networks with
      | true =>
        have hcleared := (guardVerdict_healthy hchecking hverdict).2
        rw [after, before] at hcleared
        exact ⟨clientBuilt, networks, rfl, hchecking, hverdict, by simpa using hcleared.symm⟩
      | false =>
        have hkept := (guardVerdict_unhealthy henabled hchecking hverdict).1
        rw [after, before] at hkept
        simp at hkept
  | schedulerTick pressure jobs =>
    cases hphase : s.scheduler <;> simp [step, hphase, before] at after
  | batchTested reports =>
    cases hphase : s.scheduler <;> simp [step, hphase, before, assessBatch_kept] at after
  | batchStored =>
    cases hphase : s.scheduler <;> simp [step, hphase, before] at after

section Recovery

/-- The event, where it is a verdict, comes from a check of the given network. -/
def OnNetwork (config : ServiceConfig) (world : SentinelNetwork) : ServiceEvent F → Prop
  | .guardVerdict clientBuilt networks =>
    clientBuilt = true ∧ config.networkGuard.AnswersAs world networks
  | _ => True

/-- The next tick of the scheduler may claim a batch. -/
def Unpaused (s : Services F) : Prop :=
  s.runtime.networkIncident = false ∧ s.scheduler = .waiting

theorem Unpaused.claims (h : s.Unpaused) {pressure : F} {jobs : List String}
    (hpressure : F64.le (F64.ofRat (90 / 100)) pressure = false) (hjobs : jobs ≠ []) :
    (step config s (.schedulerTick pressure jobs)).scheduler = .testing pressure jobs := by
  obtain ⟨hincident, hwaiting⟩ := h
  have hempty : jobs.isEmpty = false := by simpa using hjobs
  simp [step, hwaiting, schedulerTick, hpressure, hincident, hempty]

/-- Some finite run on the network ends the pause. -/
def Recovers (config : ServiceConfig) (world : SentinelNetwork) (s : Services F) : Prop :=
  ∃ events, Admitted (step config) (fun s event => Possible s event ∧
      OnNetwork config world event) s events ∧
    (run (step config) s events).Unpaused

theorem exists_waiting (config : ServiceConfig) (world : SentinelNetwork) (s : Services F) :
    ∃ events, Admitted (step config) (fun s event => Possible s event ∧
        OnNetwork config world event) s events ∧
      (run (step config) s events).scheduler = .waiting := by
  cases hphase : s.scheduler with
  | waiting => exact ⟨[], trivial, hphase⟩
  | testing pressure jobs =>
    refine ⟨[.batchTested (jobs.map fun job => (job, ⟨none, []⟩)), .batchStored], ?_, ?_⟩
    · simp [Admitted, Possible, OnNetwork, hphase, List.map_map, Function.comp_def]
    · simp [step, hphase]
  | storing pressure reports =>
    refine ⟨[.batchStored], ?_, ?_⟩
    · simp [Admitted, Possible, OnNetwork]
    · simp [step, hphase]

/-- A check of the network, from its start to its verdict. -/
def check (world : SentinelNetwork) : List (ServiceEvent F) :=
  [.guardTick, .guardVerdict true fun _ => world]

theorem admitted_check (config : ServiceConfig) (world : SentinelNetwork) (s : Services F) :
    Admitted (step config) (fun s event => Possible s event ∧ OnNetwork config world event) s
      (check world) :=
  ⟨⟨trivial, trivial⟩, ⟨trivial, rfl, fun _ _ _ => rfl⟩, trivial⟩

theorem verdict_of_canRecover (hc : config.networkGuard.CanRecover world) :
    verdict config true (fun _ => world) = true := by
  have hanswers : config.networkGuard.AnswersAs world fun _ => world := fun _ _ _ => rfl
  have hhealthy := (healthy_iff hanswers).mpr hc.2
  rw [verdict, hc.1, hhealthy]
  rfl

/-- A healthy check counts one more recovery, or ends the incident. -/
theorem check_healthy (hc : config.networkGuard.CanRecover world) (s : Services F) :
    (run (step config) s (check world)).scheduler = s.scheduler ∧
      (run (step config) s (check world)).checking = false ∧
      (run (step config) s (check world)).guard =
        { failures := 0, recoveries := saturatingSucc s.guard.recoveries } ∧
      (run (step config) s (check world)).runtime.networkIncident =
        (s.runtime.networkIncident && !decide
          (max config.networkGuard.recoveryThreshold 1 ≤ saturatingSucc s.guard.recoveries)) := by
  have htick : step config s .guardTick = { s with checking := true } := if_pos hc.1
  obtain ⟨hguard, hincident⟩ := guardVerdict_healthy (s := { s with checking := true }) rfl
    (verdict_of_canRecover hc)
  rw [check, run_cons, run_cons, run_nil, htick]
  refine ⟨?_, ?_, hguard, hincident⟩
  · rw [step_guardVerdict hc.1 rfl]
  · rw [step_guardVerdict hc.1 rfl]

/-- Healthy checks alone: the counter grows with them, or the incident is over. -/
theorem healthyChecks (hc : config.networkGuard.CanRecover world) (n : ℕ) (s : Services F) :
    ∃ events, Admitted (step config) (fun s event => Possible s event ∧
        OnNetwork config world event) s events ∧
      (run (step config) s events).scheduler = s.scheduler ∧
      ((run (step config) s events).runtime.networkIncident = false ∨
        min n u32Max ≤ (run (step config) s events).guard.recoveries) := by
  induction n with
  | zero => exact ⟨[], trivial, rfl, .inr (by simp)⟩
  | succ n ih =>
    obtain ⟨events, hadmitted, hscheduler, hstate⟩ := ih
    obtain ⟨hkept, -, hguard, hincident⟩ := check_healthy hc (run (step config) s events)
    refine ⟨events ++ check world, (admitted_append _ _ _ _ _).mpr
      ⟨hadmitted, admitted_check config world _⟩, ?_⟩
    rw [run_append]
    refine ⟨hkept.trans hscheduler, ?_⟩
    rcases hstate with hover | hcount
    · left
      rw [hincident, hover, Bool.false_and]
    · right
      rw [hguard]
      show min (n + 1) u32Max ≤ saturatingSucc _
      unfold saturatingSucc
      omega

theorem recovers_of_canRecover (hc : config.networkGuard.CanRecover world) (s : Services F) :
    Recovers config world s := by
  obtain ⟨before, hbefore, hwaiting⟩ := exists_waiting config world s
  let threshold := max config.networkGuard.recoveryThreshold 1
  have hthreshold : threshold ≤ u32Max :=
    max_le config.networkGuard.recoveryThreshold_le (by decide)
  obtain ⟨events, hadmitted, hscheduler, hstate⟩ :=
    healthyChecks hc (threshold - 1) (run (step config) s before)
  obtain ⟨hkept, -, -, hincident⟩ :=
    check_healthy hc (run (step config) (run (step config) s before) events)
  refine ⟨before ++ (events ++ check world), ?_, ?_, ?_⟩
  · rw [admitted_append, admitted_append]
    exact ⟨hbefore, hadmitted, admitted_check config world _⟩
  · rw [run_append, run_append, hincident]
    rcases hstate with hover | hcount
    · rw [hover, Bool.false_and]
    · have hreached : threshold ≤ saturatingSucc (run (step config)
          (run (step config) s before) events).guard.recoveries := by
        unfold saturatingSucc
        omega
      rw [decide_eq_true hreached, Bool.not_true, Bool.and_false]
  · rw [run_append, run_append, hkept, hscheduler, hwaiting]

/-- Where the guard does not run or too few targets can answer, an incident stays. -/
theorem canRecover_of_recovers (hi : s.runtime.networkIncident = true)
    (h : Recovers config world s) : config.networkGuard.CanRecover world := by
  obtain ⟨events, hadmitted, hover, -⟩ := h
  by_contra hc
  have hkept : ∀ (s : Services F) event, Possible s event ∧ OnNetwork config world event →
      s.runtime.networkIncident = true →
      (step config s event).runtime.networkIncident = true := by
    rintro s event ⟨-, hnetwork⟩ before
    by_contra hafter
    obtain ⟨clientBuilt, networks, rfl, -, hverdict, -⟩ :=
      step_cleared before (Bool.eq_false_iff.mpr hafter)
    obtain ⟨henabled, hhealthy⟩ := Bool.and_eq_true_iff.mp hverdict
    obtain ⟨rfl, hanswers⟩ := hnetwork
    exact hc ⟨henabled, (healthy_iff hanswers).mp hhealthy⟩
  have hend := run_invariant hkept hi hadmitted
  rw [hover] at hend
  cases hend

/-- The pause of the scheduler can end exactly if the guard is enabled and enough of its targets
can answer, one of them over HTTP where that is required. -/
theorem recovers_iff (hi : s.runtime.networkIncident = true) :
    Recovers config world s ↔ config.networkGuard.CanRecover world :=
  ⟨canRecover_of_recovers hi, fun hc => recovers_of_canRecover hc s⟩

end Recovery

end Services

section Unguarded

/-- The default limits with the guard disabled. -/
def unguarded : ServiceConfig where
  networkGuard := { enabled := false }

/-- A proxy whose relay times out. -/
def relayTimeout (address : String) : ProbeReport ℚ where
  proxy := some
    { source := "scheduler", rawConfig := [], protocol := "vless", address := address
      port := 443, remark := "", normalizedConfig := .null, configHash := address }
  events := [{ stage := .relay, failureClass := .relayTimeout }]

/-- One batch of three proxies on different servers, all of which fail. -/
def failingBatch : List (ServiceEvent ℚ) :=
  [.schedulerTick 0 ["a", "b", "c"],
    .batchTested [("a", relayTimeout "a.test"), ("b", relayTimeout "b.test"),
      ("c", relayTimeout "c.test")]]

/-- The services after the failing batch. -/
def pausedServices : Services ℚ :=
  run (Services.step unguarded) (Services.initial unguarded) failingBatch

theorem pausedServices_incident : pausedServices.runtime.networkIncident = true := by
  decide +kernel

theorem pausedServices_reachable : Services.Reachable unguarded pausedServices := by
  have hstart : (Services.initial unguarded : Services ℚ).Unpaused := ⟨rfl, rfl⟩
  have hphase : (Services.step unguarded (Services.initial unguarded)
      (.schedulerTick 0 ["a", "b", "c"])).scheduler = .testing (0 : ℚ) ["a", "b", "c"] :=
    hstart.claims (by decide +kernel) (by decide)
  refine ⟨failingBatch, ⟨⟨by decide, by decide⟩, ?_, trivial⟩, rfl⟩
  simp [Services.Possible, hphase]

/-- A network on which every host accepts connections and every URL but the empty one answers. -/
def openNetwork : SentinelNetwork where
  get url := if url = "" then none else some 200
  connect _ _ := true

/-- A batch pauses an unguarded scheduler for good. -/
theorem paused_for_good :
    Services.Reachable unguarded pausedServices ∧
      pausedServices.runtime.networkIncident = true ∧
      ¬Services.Recovers unguarded openNetwork pausedServices := by
  refine ⟨pausedServices_reachable, pausedServices_incident, ?_⟩
  intro h
  have hc := Services.canRecover_of_recovers pausedServices_incident h
  exact absurd hc.1 (by decide)

/-- A guard with two targets, the second of type `http` without its URL. -/
def twoTargets (url : String) : ServiceConfig where
  networkGuard :=
    { sentinelTargets := [{ host := "198.51.100.1", port := 443 },
        { kind := "http".toList, url := url }] }

/-- An incident ends on the open network if the URL is there, and not if it is empty. -/
theorem recovers_iff_twoTargets :
    Services.Recovers (twoTargets "http://192.0.2.1/generate_204") openNetwork pausedServices ∧
      ¬Services.Recovers (twoTargets "") openNetwork pausedServices := by
  constructor
  · refine (Services.recovers_iff pausedServices_incident).mpr ⟨rfl, .inr ⟨by decide, .inr ?_⟩⟩
    exact ⟨{ kind := "http".toList, url := "http://192.0.2.1/generate_204" },
      List.mem_filter.mpr ⟨List.mem_cons_of_mem _ List.mem_cons_self, by decide⟩, by decide⟩
  · intro h
    obtain ⟨-, hnil | ⟨henough, -⟩⟩ := (Services.recovers_iff pausedServices_incident).mp h
    · cases hnil
    · exact absurd henough (by decide)

end Unguarded

end ProxyFleet
