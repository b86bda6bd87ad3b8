import ProxyFleet.RelayProbes

/-!
# Verdicts of a relay test

A test through Xray requests its endpoints in their order. Each request comes to an outcome,
and the first spent budget ends the requests. The verdict should agree with the outcomes that
were there by then; it does unless an endpoint had already answered when the budget was spent.
-/
namespace ProxyFleet

/-- What the request to one endpoint came to. -/
inductive EndpointOutcome where
  | interrupted | answered | timedOut | tlsFailed | failed
  deriving DecidableEq

namespace EndpointOutcome

variable (outcomes : List EndpointOutcome)

/-- The outcomes up to the first spent budget. -/
def settled : List EndpointOutcome := outcomes.takeWhile (· ≠ .interrupted)

/-- The budget was spent after an endpoint had answered. -/
def CutShort : Prop := .interrupted ∈ outcomes ∧ .answered ∈ settled outcomes

instance : Decidable (CutShort outcomes) := inferInstanceAs (Decidable (_ ∧ _))

variable {outcomes}

theorem settled_of_not_mem (h : .interrupted ∉ outcomes) : settled outcomes = outcomes := by
  refine List.takeWhile_eq_self_iff.mpr fun outcome hmem => ?_
  exact decide_eq_true fun heq => h (heq ▸ hmem)

/-- Where one outcome is that of every endpoint, there is no other. -/
theorem not_mem_of_count_eq_length {outcome other : EndpointOutcome} (hne : outcome ≠ other)
    (h : outcomes.count outcome = outcomes.length) : other ∉ outcomes :=
  fun hmem => hne (List.count_eq_length.mp h other hmem)

end EndpointOutcome

open EndpointOutcome

section Outcomes

variable {F : Type} [F64 F] (config : ProbeConfig F) (deadline : ℕ)

def responseOutcome (response : HttpResponse) : EndpointOutcome :=
  if isSuccess response.status || isRedirection response.status then
    match readHttpBodyLimited response.body config.health.httpProbeBodyLimitBytes deadline with
    | .ok _ => .answered
    | .error _ => .failed
  else .failed

def errorOutcome (error : RequestError) : EndpointOutcome :=
  match classifyRequestError error .relayTimeout with
  | .relayTimeout => .timedOut
  | .tlsTimeout => .tlsFailed
  | _ => .failed

def requestOutcome (view : RequestView) (endpoint : String) : EndpointOutcome :=
  match remainingBudget deadline view.checkedAt with
  | none => .interrupted
  | some remaining =>
    match view.send endpoint remaining with
    | .answered (.ok response) => responseOutcome config deadline response
    | .answered (.error error) => errorOutcome error
    | .elapsed => .interrupted

/-- The outcomes of the endpoints from a position on. -/
def requestOutcomes (view : RelayView) : List String → ℕ → List EndpointOutcome
  | [], _ => []
  | endpoint :: endpoints, i =>
    requestOutcome config deadline (view.request i) endpoint ::
      requestOutcomes view endpoints (i + 1)

/-- The outcomes of a test through Xray. Without a client nothing is requested. -/
def relayOutcomes (socksPort : ℕ) (view : RelayView) : List EndpointOutcome :=
  match view.client (socksProxy socksPort) with
  | .error _ => []
  | .ok _ =>
    requestOutcomes config deadline view ((httpEndpoints config).take (endpointCount config)) 0

theorem length_requestOutcomes (view : RelayView) (endpoints : List String) (i : ℕ) :
    (requestOutcomes config deadline view endpoints i).length = endpoints.length := by
  induction endpoints generalizing i with
  | nil => rfl
  | cons endpoint endpoints ih => simp only [requestOutcomes, List.length_cons, ih]

theorem length_take_httpEndpoints :
    ((httpEndpoints config).take (endpointCount config)).length = endpointCount config := by
  rw [List.length_take]
  exact min_eq_left (min_le_left _ _)

end Outcomes

/-- The classes that blame a proxy for a timeout or a failed tunnel. -/
def timeoutClasses : List FailureClass :=
  [.tcpTimeout, .tlsTimeout, .relayTimeout, .downloadTimeout]

/-- A report agrees with the outcomes: a quorum of answers is a success of both stages, and
only a proxy without an answer is blamed for a timeout. The stage of the download has its own
mirrors and is left to them. -/
structure QuorumSound {F : Type} (quorum : ℕ) (outcomes : List EndpointOutcome)
    (events : List (ProbeEvent F)) : Prop where
  relayed : quorum ≤ (settled outcomes).count .answered →
    ∀ stage ∈ [TestStage.relay, .http], ∃ e ∈ events, e.stage = stage ∧ e.failureClass = .success
  blamed : ∀ e ∈ events, e.stage ≠ .download → e.failureClass ∈ timeoutClasses →
    .answered ∉ settled outcomes

section Counts

variable {F : Type} [F64 F] {config : ProbeConfig F} {deadline : ℕ}

/-- The counters of the loop are those of the outcomes so far. -/
structure HttpTally.Counts (tally : HttpTally F) (outcomes : List EndpointOutcome) : Prop where
  successes : tally.successes.length = outcomes.count .answered
  timeouts : tally.timeouts = outcomes.count .timedOut
  tlsFailures : tally.tlsFailures = outcomes.count .tlsFailed

namespace HttpTally.Counts

variable {tally : HttpTally F} {outcomes : List EndpointOutcome}

omit [F64 F] in
theorem empty : ({} : HttpTally F).Counts [] := ⟨rfl, rfl, rfl⟩

omit [F64 F] in
theorem failure {detail : List (String × Json)} (h : tally.Counts outcomes) :
    (tally.failure detail).Counts outcomes := ⟨h.successes, h.timeouts, h.tlsFailures⟩

omit [F64 F] in
theorem failed (h : tally.Counts outcomes) : tally.Counts (outcomes ++ [.failed]) :=
  ⟨by simpa using h.successes, by simpa using h.timeouts, by simpa using h.tlsFailures⟩

theorem response (h : tally.Counts outcomes) (request : RequestView) (endpoint : String)
    (response : HttpResponse) :
    (tally.response config deadline request endpoint response).Counts
      (outcomes ++ [responseOutcome config deadline response]) := by
  rw [HttpTally.response, responseOutcome]
  split
  · cases readHttpBodyLimited response.body config.health.httpProbeBodyLimitBytes deadline with
    | ok bytes =>
      exact ⟨by simpa using h.successes, by simpa using h.timeouts, by simpa using h.tlsFailures⟩
    | error detail => exact h.failed.failure
  · exact h.failed.failure

omit [F64 F] in
theorem error (h : tally.Counts outcomes) (endpoint : String) (error : RequestError) :
    (tally.error endpoint error).Counts (outcomes ++ [errorOutcome error]) := by
  simp only [HttpTally.error, errorOutcome]
  refine failure ?_
  cases classifyRequestError error .relayTimeout with
  | relayTimeout | tlsTimeout =>
    exact ⟨by simpa using h.successes, by simpa using h.timeouts, by simpa using h.tlsFailures⟩
  | _ => exact h.failed

end HttpTally.Counts

variable {view : RelayView} {endpoints : List String} {i : ℕ} {tally : HttpTally F}
  {steps : List ProbeStep} {before : List EndpointOutcome}

/-- A spent budget is all that the loop reports. -/
theorem httpLoop_interrupted
    (h : .interrupted ∈ requestOutcomes config deadline view endpoints i) :
    ∃ outcome, httpLoop config deadline view endpoints i tally steps = .error outcome ∧
      ∃ duration, outcome.events = [budgetExceeded duration] := by
  induction endpoints generalizing i tally steps with
  | nil => exact absurd h List.not_mem_nil
  | cons endpoint endpoints ih =>
    rw [requestOutcomes, List.mem_cons, requestOutcome] at h
    simp only [httpLoop]
    cases hbudget : remainingBudget deadline (view.request i).checkedAt with
    | none => exact ⟨_, rfl, _, rfl⟩
    | some remaining =>
      simp only [hbudget] at h ⊢
      cases hsend : (view.request i).send endpoint remaining with
      | elapsed => exact ⟨_, rfl, _, rfl⟩
      | answered answer =>
        cases answer with
        | ok response =>
          simp only [hsend] at h
          refine ih (h.resolve_left fun heq => ?_)
          simp only [responseOutcome] at heq
          split at heq
          · split at heq <;> cases heq
          · cases heq
        | error error =>
          simp only [hsend] at h
          refine ih (h.resolve_left fun heq => ?_)
          simp only [errorOutcome] at heq
          split at heq <;> cases heq

/-- Otherwise the loop ends with the counters of the outcomes. -/
theorem httpLoop_completed (hcounts : tally.Counts before)
    (h : .interrupted ∉ requestOutcomes config deadline view endpoints i) :
    ∃ tally' steps', httpLoop config deadline view endpoints i tally steps = .ok (tally', steps') ∧
      tally'.Counts (before ++ requestOutcomes config deadline view endpoints i) := by
  induction endpoints generalizing i tally steps before with
  | nil => exact ⟨tally, steps, rfl, by simpa [requestOutcomes] using hcounts⟩
  | cons endpoint endpoints ih =>
    rw [requestOutcomes, List.mem_cons, not_or] at h
    rw [requestOutcomes, List.append_cons]
    obtain ⟨hnow, hlater⟩ := h
    rw [requestOutcome] at hnow ⊢
    simp only [httpLoop]
    cases hbudget : remainingBudget deadline (view.request i).checkedAt with
    | none => simp [hbudget] at hnow
    | some remaining =>
      simp only [hbudget] at hnow ⊢
      cases hsend : (view.request i).send endpoint remaining with
      | elapsed => simp [hsend] at hnow
      | answered answer =>
        cases answer with
        | ok response => exact ih (hcounts.response (view.request i) endpoint response) hlater
        | error error => exact ih (hcounts.error endpoint error) hlater

end Counts

section Verdicts

variable {F : Type} [F64 F] [F64Convert F] (config : ProbeConfig F) (deadline socksPort : ℕ)
  (runDownload : Bool) (view : RelayView)

theorem downloadEndpoint_stage (endpoint : String) (request : RequestView) :
    (downloadEndpoint config deadline endpoint request).2.stage = .download := by
  simp only [downloadEndpoint]
  repeat' split
  all_goals rfl

theorem mirrorLoop_stage {probe : ProbeEvent F} {endpoints : List String} {i : ℕ}
    {failures : List (ProbeEvent F)} {steps : List ProbeStep}
    (h : (mirrorLoop config deadline view endpoints i failures steps).2 = .error probe) :
    probe.stage = .download := by
  induction endpoints generalizing i failures steps with
  | nil => simp [mirrorLoop] at h
  | cons endpoint endpoints ih =>
    rw [mirrorLoop] at h
    dsimp only at h
    split at h
    · obtain rfl := Except.error.inj h
      exact downloadEndpoint_stage config deadline endpoint _
    · split at h
      · simp at h
      · exact ih h

theorem download_stage : (download config deadline view).2.stage = .download := by
  rw [download]
  split
  · next h => exact mirrorLoop_stage config deadline view (congrArg Prod.snd h)
  · rfl

/-- The events of a quorum, with or without a download behind them. -/
theorem quorumSound_relayed {quorum : ℕ} {outcomes : List EndpointOutcome}
    {tally : HttpTally F} {events : List (ProbeEvent F)}
    (hdownload : ∀ e ∈ events, e.stage = .download) :
    QuorumSound quorum outcomes (relayedEvents config tally ++ events) where
  relayed _ stage hstage := by
    simp only [List.mem_cons, List.not_mem_nil, or_false] at hstage
    rcases hstage with rfl | rfl
    · exact ⟨_, List.mem_append_left _ List.mem_cons_self, rfl, rfl⟩
    · exact ⟨_, List.mem_append_left _ (List.mem_cons_of_mem _ List.mem_cons_self), rfl, rfl⟩
  blamed e he hstage hclass := by
    have hsuccess : ∀ e ∈ relayedEvents config tally, e.failureClass = .success := by
      simp [relayedEvents]
    rcases List.mem_append.mp he with he | he
    · rw [hsuccess e he] at hclass
      exact absurd hclass (by decide)
    · exact absurd (hdownload e he) hstage

omit [F64Convert F] in
/-- A missed quorum blames the proxy only where every endpoint failed alike. -/
theorem quorumSound_missed {outcomes : List EndpointOutcome} {tally : HttpTally F}
    (hcounts : tally.Counts outcomes) (hlength : outcomes.length = endpointCount config)
    (hinterrupted : .interrupted ∉ outcomes)
    (hquorum : ¬ httpQuorum config ≤ tally.successes.length) :
    QuorumSound (httpQuorum config) outcomes [quorumMissed config tally] where
  relayed h := by
    rw [settled_of_not_mem hinterrupted, ← hcounts.successes] at h
    exact absurd h hquorum
  blamed e he _ hclass := by
    obtain rfl := List.mem_singleton.mp he
    rw [settled_of_not_mem hinterrupted]
    simp only [quorumMissed, event] at hclass
    split at hclass
    · next htimeouts =>
      rw [hcounts.timeouts, ← hlength] at htimeouts
      exact not_mem_of_count_eq_length (by decide) htimeouts.1
    · split at hclass
      · next htls =>
        rw [hcounts.tlsFailures, ← hlength] at htls
        exact not_mem_of_count_eq_length (by decide) htls.1
      · exact absurd hclass (by decide)

omit [F64Convert F] in
/-- A report that only names the spent budget. -/
theorem quorumSound_budgetExceeded_iff {outcomes : List EndpointOutcome} {duration : ℕ} :
    QuorumSound (F := F) (httpQuorum config) outcomes [budgetExceeded duration] ↔
      .answered ∉ settled outcomes := by
  constructor
  · intro h
    exact h.blamed _ List.mem_cons_self (by simp [budgetExceeded, event])
      (by simp [budgetExceeded, event, timeoutClasses])
  · intro h
    refine ⟨fun hquorum => ?_, fun _ _ _ _ => h⟩
    have hpos : 0 < httpQuorum config := lt_min (by omega) (by omega)
    rw [List.count_eq_zero.mpr h] at hquorum
    omega

/-- The verdict agrees with the outcomes exactly when no answer is lost to a spent budget. -/
theorem quorumSound_testThroughXray_iff :
    QuorumSound (httpQuorum config) (relayOutcomes config deadline socksPort view)
        (testThroughXray socksPort config deadline runDownload view).events ↔
      ¬ CutShort (relayOutcomes config deadline socksPort view) := by
  cases hclient : view.client (socksProxy socksPort) with
  | error error =>
    rw [testThroughXray_unbuilt hclient]
    simp only [relayOutcomes, hclient]
    refine iff_of_true ⟨fun hquorum => ?_, fun e _ _ _ => List.not_mem_nil⟩ (by decide)
    have hpos : 0 < httpQuorum config := lt_min (by omega) (by omega)
    exact absurd hquorum (Nat.not_le.mpr hpos)
  | ok value =>
    obtain rfl : value = () := rfl
    simp only [relayOutcomes, hclient]
    set outcomes := requestOutcomes config deadline view
      ((httpEndpoints config).take (endpointCount config)) 0 with houtcomes
    by_cases hinterrupted : .interrupted ∈ outcomes
    · obtain ⟨outcome, hprobe, duration, hevents⟩ :
          ∃ outcome, httpProbe config deadline view = .error outcome ∧
            ∃ duration, outcome.events = [budgetExceeded duration] :=
        httpLoop_interrupted hinterrupted
      rw [testThroughXray_exceeded hclient hprobe, hevents, quorumSound_budgetExceeded_iff]
      exact ⟨fun h hcut => h hcut.2, fun h hmem => h ⟨hinterrupted, hmem⟩⟩
    · obtain ⟨tally, steps, hprobe, hcounts⟩ :
          ∃ tally steps, httpProbe config deadline view = .ok (tally, steps) ∧
            tally.Counts ([] ++ outcomes) :=
        httpLoop_completed HttpTally.Counts.empty hinterrupted
      have hlength : outcomes.length = endpointCount config :=
        (length_requestOutcomes config deadline view _ 0).trans (length_take_httpEndpoints config)
      refine iff_of_true ?_ fun hcut => hinterrupted hcut.1
      simp only [testThroughXray, hclient, hprobe]
      split
      · split
        · refine quorumSound_relayed config fun e he => ?_
          obtain rfl := List.mem_singleton.mp he
          exact download_stage config deadline view
        · have hsound : QuorumSound (httpQuorum config) outcomes
              (relayedEvents config tally ++ []) :=
            quorumSound_relayed config fun e he => absurd he List.not_mem_nil
          rwa [List.append_nil] at hsound
      · exact quorumSound_missed config hcounts hlength hinterrupted ‹_›

end Verdicts

/-- A relay whose first endpoint answers, and whose budget is spent before the second. -/
def halfTestedRelay : RelayView where
  client := fun _ => .ok ()
  request := fun i =>
    ⟨i * 20 * 10 ^ 9, i * 20 * 10 ^ 9, fun _ _ => .answered (.ok ⟨204, []⟩), 20 * 10 ^ 9⟩
  mirror := fun _ => ⟨20 * 10 ^ 9, 20 * 10 ^ 9, fun _ _ => .elapsed, 20 * 10 ^ 9⟩
  leftAt := fun _ => 21 * 10 ^ 9
  endedAt := 21 * 10 ^ 9
  checkedAt_le_leftAt := fun _ => Nat.mul_le_mul_right _ (by decide)

/-- One answer is the quorum of the default configuration, and the proxy is blamed. -/
theorem half_tested_relay_is_blamed :
    httpQuorum ({} : ProbeConfig ℚ) = 1 ∧
    relayOutcomes ({} : ProbeConfig ℚ) (20 * 10 ^ 9) 32000 halfTestedRelay =
      [.answered, .interrupted] ∧
    ((testThroughXray 32000 ({} : ProbeConfig ℚ) (20 * 10 ^ 9) true halfTestedRelay).events.map
      (·.failureClass)) = [.relayTimeout] ∧
    ¬ QuorumSound (httpQuorum ({} : ProbeConfig ℚ))
      (relayOutcomes ({} : ProbeConfig ℚ) (20 * 10 ^ 9) 32000 halfTestedRelay)
      (testThroughXray 32000 ({} : ProbeConfig ℚ) (20 * 10 ^ 9) true halfTestedRelay).events := by
  refine ⟨by decide, by decide, rfl, fun hsound => ?_⟩
  have hrelayed := hsound.relayed (by decide) .relay (by decide)
  obtain ⟨e, he, -, hclass⟩ := hrelayed
  have hall : ∀ e ∈ (testThroughXray 32000 ({} : ProbeConfig ℚ) (20 * 10 ^ 9) true
      halfTestedRelay).events, e.failureClass = .relayTimeout := by
    refine fun e he => List.mem_singleton.mp ?_
    exact List.mem_map_of_mem (f := (·.failureClass)) he
  rw [hall e he] at hclass
  cases hclass

end ProxyFleet
