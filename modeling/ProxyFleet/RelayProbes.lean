import ProxyFleet.ProbeStages
import Mathlib.Data.List.Dedup

/-!
# Probes through Xray

The pages that are requested through the local port of a proxy, and the download after them.
Each loop over endpoints tries them in their order and stops early when the budget is spent.
-/
namespace ProxyFleet

/-- What the next read of a response body brings. -/
inductive BodyChunk where
  | chunk (length : ℕ)
  | failed (error : String)
  | finished

structure BodyRead where
  checkedAt : ℕ
  next : ℕ → Timed BodyChunk

/-- A response and the reads of its body. A body without a further read has ended. -/
structure HttpResponse where
  status : ℕ
  body : List BodyRead

/-- An error of the client, with its two texts. -/
structure RequestError where
  isTimeout : Bool
  text : String
  debug : String

/-- What one request through Xray meets. -/
structure RequestView where
  started : ℕ
  checkedAt : ℕ
  send : String → ℕ → Timed (Except RequestError HttpResponse)
  endedAt : ℕ

/-- What a probe through Xray meets: the client for its proxy URL, the requests by their
position, the downloads by theirs, and the check of the budget behind each of these. The
clock does not run backwards. -/
structure RelayView where
  client : String → Except String Unit
  request : ℕ → RequestView
  mirror : ℕ → RequestView
  leftAt : ℕ → ℕ
  endedAt : ℕ
  checkedAt_le_leftAt : ∀ i, (mirror i).checkedAt ≤ leftAt i

def isSuccess (status : ℕ) : Bool := 200 ≤ status && status < 300

def isRedirection (status : ℕ) : Bool := 300 ≤ status && status < 400

/-- The loop over the reads of a body, up to a number of bytes. -/
def readStream (limit deadline : ℕ) (grant : ℕ → ℕ) (expired late : String) :
    List BodyRead → ℕ → Except String ℕ
  | [], bytes => .ok bytes
  | read :: reads, bytes =>
    if limit ≤ bytes then .ok bytes
    else
      match remainingBudget deadline read.checkedAt with
      | none => .error expired
      | some remaining =>
        match read.next (grant remaining) with
        | .answered (.chunk length) =>
          readStream limit deadline grant expired late reads (bytes + length)
        | .answered (.failed error) => .error error
        | .answered .finished => .ok bytes
        | .elapsed => .error late

def readHttpBodyLimited (body : List BodyRead) (limit deadline : ℕ) :
    Except (List (String × Json)) ℕ :=
  match readStream limit deadline id "global probe deadline exceeded while reading body"
    "HTTP body read deadline exceeded" body 0 with
  | .ok bytes => .ok (min bytes limit)
  | .error error => .error [("error", .string error)]

/-- The diagnostics that name a failed TLS tunnel. -/
def tlsDiagnostics : List String :=
  ["tls", "certificate", "corrupt message", "wrong version number", "invalidcontenttype"]

def classifyRequestError (error : RequestError) (timeout : FailureClass) : FailureClass :=
  let message := toAsciiLowercase error.debug.toList
  if error.isTimeout then timeout
  else if tlsDiagnostics.any fun diagnostic => decide (diagnostic.toList <:+: message) then
    .tlsTimeout
  else .endpointFailure

/-- The endpoints without repetitions, in their order. -/
def distinctEndpoints (endpoints : List String) : List String := endpoints.reverse.dedup.reverse

theorem mem_distinctEndpoints {endpoint : String} {endpoints : List String} :
    endpoint ∈ distinctEndpoints endpoints ↔ endpoint ∈ endpoints := by
  rw [distinctEndpoints, List.mem_reverse, List.mem_dedup, List.mem_reverse]

example : distinctEndpoints ["primary", "fallback", "primary"] = ["primary", "fallback"] := by
  decide

section Endpoints

variable {F : Type} [F64 F] (config : ProbeConfig F)

def httpEndpoints : List String :=
  distinctEndpoints (config.health.testUrl :: config.health.fallbackUrls)

def downloadEndpoints : List String :=
  distinctEndpoints (config.downloadTest.testUrl :: config.downloadTest.fallbackUrls)

/-- The number of endpoints that are requested. -/
def endpointCount : ℕ :=
  min (httpEndpoints config).length (max config.health.httpProbeMaxEndpoints 1)

/-- The number of successes that are demanded of them. -/
def httpQuorum : ℕ :=
  min (max config.health.httpProbeSuccessQuorum 1) (max (endpointCount config) 1)

end Endpoints

structure HttpSuccess (F : Type) where
  endpoint : String
  status : ℕ
  bytes : ℕ
  latencyMs : F

/-- The counters of the loop over the HTTP endpoints. -/
structure HttpTally (F : Type) where
  successes : List (HttpSuccess F) := []
  timeouts : ℕ := 0
  tlsFailures : ℕ := 0
  failures : List Json := []

section Relay

variable {F : Type} [F64 F]

namespace HttpTally

variable (tally : HttpTally F)

def failure (detail : List (String × Json)) : HttpTally F :=
  { tally with failures := tally.failures ++ [Json.ofFields detail] }

/-- The counters after the answer to one request. -/
def response (config : ProbeConfig F) (deadline : ℕ) (view : RequestView) (endpoint : String)
    (response : HttpResponse) : HttpTally F :=
  if isSuccess response.status || isRedirection response.status then
    match readHttpBodyLimited response.body config.health.httpProbeBodyLimitBytes deadline with
    | .ok bytes =>
      { tally with
        successes := tally.successes ++ [{
          endpoint := endpoint
          status := response.status
          bytes := bytes
          latencyMs :=
            F64.mul (Duration.asSecsF64 (view.endedAt - view.started)) (F64.ofInt 1000) }] }
    | .error detail => tally.failure detail
  else
    tally.failure
      [("endpoint", .string endpoint), ("status", .number (.posInt response.status))]

/-- The counters after a request that failed. -/
def error (endpoint : String) (error : RequestError) : HttpTally F :=
  let counted : HttpTally F :=
    match classifyRequestError error .relayTimeout with
    | .relayTimeout => { tally with timeouts := tally.timeouts + 1 }
    | .tlsTimeout => { tally with tlsFailures := tally.tlsFailures + 1 }
    | _ => tally
  counted.failure [("endpoint", .string endpoint), ("error", .string error.text)]

end HttpTally

/-- The event of a relay that spent the budget. -/
def budgetExceeded (duration : ℕ) : ProbeEvent F :=
  event .relay .relayTimeout (some duration) [("error", .string "global probe deadline exceeded")]

/-- The loop over the HTTP endpoints from a position on, with its counters and steps. A
spent budget ends it with the outcome of the probe. -/
def httpLoop (config : ProbeConfig F) (deadline : ℕ) (view : RelayView) :
    List String → ℕ → HttpTally F → List ProbeStep →
      Except (ProbeOutcome F) (HttpTally F × List ProbeStep)
  | [], _, tally, steps => .ok (tally, steps)
  | endpoint :: endpoints, i, tally, steps =>
    let request := view.request i
    let exceeded (steps : List ProbeStep) (endedAt : ℕ) :
        Except (ProbeOutcome F) (HttpTally F × List ProbeStep) :=
      .error ⟨[budgetExceeded (endedAt - request.started)], steps, endedAt⟩
    match remainingBudget deadline request.checkedAt with
    | none => exceeded (steps ++ [.expired .relay request.checkedAt]) request.checkedAt
    | some remaining =>
      let steps := steps ++ [.attempt .relay request.checkedAt]
      match request.send endpoint remaining with
      | .answered (.ok response) =>
        httpLoop config deadline view endpoints (i + 1)
          (tally.response config deadline request endpoint response) steps
      | .answered (.error error) =>
        httpLoop config deadline view endpoints (i + 1) (tally.error endpoint error) steps
      | .elapsed => exceeded steps request.endedAt

/-- The requests of a probe through Xray. -/
def httpProbe (config : ProbeConfig F) (deadline : ℕ) (view : RelayView) :
    Except (ProbeOutcome F) (HttpTally F × List ProbeStep) :=
  httpLoop config deadline view ((httpEndpoints config).take (endpointCount config)) 0 {} []

variable [F64Convert F]

def floatJson (x : F) : Json := .number (.float (F64Convert.toBits x))

def HttpSuccess.json (success : HttpSuccess F) : Json :=
  Json.ofFields [("endpoint", .string success.endpoint),
    ("status", .number (.posInt success.status)), ("bytes", .number (.posInt success.bytes)),
    ("latency_ms", floatJson success.latencyMs)]

def perUrlTimeout (config : ProbeConfig F) : ℕ :=
  F64Convert.fromSecs (F64.min
    (F64.max config.downloadTest.perUrlTimeoutSeconds (F64.ofRat (1 / 10)))
    (F64.ofInt (max config.downloadTest.timeoutSeconds 1 : ℕ)))

def downloadLimit : ℕ := 1000000

/-- The event of a download that got its bytes. -/
def measuredDownload (config : ProbeConfig F) (endpoint : String) (bytes duration : ℕ) :
    ProbeEvent F :=
  let bps : F := F64.div (F64.ofInt bytes)
    (F64.max (Duration.asSecsF64 duration) (F64.ofRat (1 / 1000)))
  let kbps := F64.div bps (F64.ofInt 1024)
  { stage := .download
    failureClass :=
      if F64.lt kbps (F64.ofInt config.downloadTest.minDownloadKbps) then .downloadTooSlow
      else .success
    fastDownload := F64.le (F64.ofInt config.downloadTest.targetDownloadKbps) kbps
    downloadBps := some bps
    bytesTransferred := some bytes
    durationMs := some (Duration.asMillis duration)
    endpoint := some endpoint
    detail := Json.ofFields [("kbps", floatJson kbps)] }

/-- The download from one mirror, with its step. -/
def downloadEndpoint (config : ProbeConfig F) (deadline : ℕ) (endpoint : String)
    (view : RequestView) : ProbeStep × ProbeEvent F :=
  let duration := view.endedAt - view.started
  match remainingBudget deadline view.checkedAt with
  | none =>
    (.expired .download view.checkedAt,
      event .download .downloadTimeout (some (view.checkedAt - view.started))
        [("endpoint", .string endpoint), ("error", .string "global probe deadline exceeded")])
  | some remaining =>
    let failed (failureClass : FailureClass) (detail : List (String × Json)) : ProbeEvent F :=
      { event .download failureClass (some duration) detail with endpoint := some endpoint }
    (.attempt .download view.checkedAt,
      match view.send endpoint (min remaining (perUrlTimeout config)) with
      | .answered (.ok response) =>
        if isSuccess response.status then
          match readStream downloadLimit deadline (min · (perUrlTimeout config))
            "global probe deadline exceeded" "download stream deadline exceeded"
            response.body 0 with
          | .ok bytes => measuredDownload config endpoint bytes duration
          | .error error => failed .downloadTimeout [("error", .string error)]
        else failed .endpointFailure [("status", .number (.posInt response.status))]
      | .answered (.error error) =>
        failed (classifyRequestError error .downloadTimeout) [("error", .string error.text)]
      | .elapsed =>
        failed .downloadTimeout [("error", .string "per-endpoint deadline exceeded")])

/-- The loop over the mirrors from a position on, with its failures and steps. A mirror that
answers decides the download. -/
def mirrorLoop (config : ProbeConfig F) (deadline : ℕ) (view : RelayView) :
    List String → ℕ → List (ProbeEvent F) → List ProbeStep →
      List ProbeStep × Except (ProbeEvent F) (List (ProbeEvent F))
  | [], _, failures, steps => (steps, .ok failures)
  | endpoint :: endpoints, i, failures, steps =>
    let (step, probe) := downloadEndpoint config deadline endpoint (view.mirror i)
    let steps := steps ++ [step]
    if probe.failureClass = .success ∨ probe.failureClass = .downloadTooSlow then
      (steps, .error probe)
    else
      match remainingBudget deadline (view.leftAt i) with
      | none => (steps, .ok (failures ++ [probe]))
      | some _ => mirrorLoop config deadline view endpoints (i + 1) (failures ++ [probe]) steps

/-- One failure in the detail of the event of a download. -/
def ProbeEvent.attemptJson (failure : ProbeEvent F) : Json :=
  Json.ofFields [("endpoint", (failure.endpoint.map Json.string).getD .null),
    ("class", .string failure.failureClass.asStr), ("detail", failure.detail)]

/-- The event of a download that no mirror decided. -/
def undecidedDownload (failures : List (ProbeEvent F)) : ProbeEvent F where
  stage := .download
  failureClass :=
    if failures ≠ [] ∧ ∀ item ∈ failures, item.failureClass = .downloadTimeout then
      .downloadTimeout
    else if failures ≠ [] ∧ ∀ item ∈ failures, item.failureClass = .tlsTimeout then
      .tlsTimeout
    else .endpointFailure
  durationMs := some ((failures.filterMap (·.durationMs)).max?.getD 0)
  detail := Json.ofFields [("attempts", .array (failures.map ProbeEvent.attemptJson))]

def download (config : ProbeConfig F) (deadline : ℕ) (view : RelayView) :
    List ProbeStep × ProbeEvent F :=
  match mirrorLoop config deadline view ((downloadEndpoints config).take 3) 0 [] [] with
  | (steps, .error probe) => (steps, probe)
  | (steps, .ok failures) => (steps, undecidedDownload failures)

/-- The two events of a proxy that relays. -/
def relayedEvents (config : ProbeConfig F) (tally : HttpTally F) : List (ProbeEvent F) :=
  let first := tally.successes.head?
  let relayed (stage : TestStage) : ProbeEvent F :=
    { stage := stage
      failureClass := .success
      latencyMs := first.map (·.latencyMs)
      durationMs := first.map fun success => F64.round success.latencyMs
      endpoint := first.map (·.endpoint)
      detail := Json.ofFields [("quorum", .number (.posInt (httpQuorum config))),
        ("successful", .array (tally.successes.map HttpSuccess.json)),
        ("failed", .array tally.failures)] }
  [relayed .relay, relayed .http]

/-- The event of a proxy that missed the quorum. -/
def quorumMissed (config : ProbeConfig F) (tally : HttpTally F) : ProbeEvent F :=
  event .http
    (if tally.timeouts = endpointCount config ∧ 0 < endpointCount config then .relayTimeout
    else if tally.tlsFailures = endpointCount config ∧ 0 < endpointCount config then .tlsTimeout
    else .endpointFailure)
    none
    [("error", .string "HTTP endpoint quorum not reached"),
      ("quorum", .number (.posInt (httpQuorum config))), ("failed", .array tally.failures)]

def socksProxy (socksPort : ℕ) : String := "socks5h://127.0.0.1:" ++ toString socksPort

def testThroughXray (socksPort : ℕ) (config : ProbeConfig F) (deadline : ℕ)
    (runDownload : Bool) (view : RelayView) : ProbeOutcome F :=
  match view.client (socksProxy socksPort) with
  | .error error =>
    ⟨[event .relay .localOverload none [("error", .string error)]], [], view.endedAt⟩
  | .ok _ =>
    match httpProbe config deadline view with
    | .error outcome => outcome
    | .ok (tally, steps) =>
      if httpQuorum config ≤ tally.successes.length then
        if config.downloadTest.enabled && runDownload then
          let (downloadSteps, probe) := download config deadline view
          ⟨relayedEvents config tally ++ [probe], steps ++ downloadSteps, view.endedAt⟩
        else ⟨relayedEvents config tally, steps, view.endedAt⟩
      else ⟨[quorumMissed config tally], steps, view.endedAt⟩

end Relay

section Steps

variable {F : Type} [F64 F] {config : ProbeConfig F} {deadline : ℕ}
  {view : RelayView} {endpoints : List String} {i : ℕ} {tally : HttpTally F}
  {steps : List ProbeStep} {failures : List (ProbeEvent F)}

theorem httpEndpoints_ne_nil : httpEndpoints config ≠ [] := by
  have hmem : config.health.testUrl ∈ httpEndpoints config := by
    simp [httpEndpoints, mem_distinctEndpoints]
  exact List.ne_nil_of_mem hmem

theorem downloadEndpoints_ne_nil : downloadEndpoints config ≠ [] := by
  have hmem : config.downloadTest.testUrl ∈ downloadEndpoints config := by
    simp [downloadEndpoints, mem_distinctEndpoints]
  exact List.ne_nil_of_mem hmem

theorem endpointCount_pos : 0 < endpointCount config :=
  lt_min (List.length_pos_iff.mpr httpEndpoints_ne_nil) (by omega)

/-- Steps of one stage were added. -/
def StageSteps (stage : TestStage) (steps steps' : List ProbeStep) : Prop :=
  ∃ added, steps' = steps ++ added ∧ ∀ step ∈ added, step.stage = stage

namespace StageSteps

variable {stage : TestStage} {steps' : List ProbeStep} {step : ProbeStep}

theorem refl (stage : TestStage) (steps : List ProbeStep) : StageSteps stage steps steps :=
  ⟨[], (List.append_nil steps).symm, by simp⟩

theorem head (hstep : step.stage = stage) (h : StageSteps stage (steps ++ [step]) steps') :
    StageSteps stage steps steps' := by
  obtain ⟨added, rfl, hadded⟩ := h
  exact ⟨step :: added, by simp, List.forall_mem_cons.mpr ⟨hstep, hadded⟩⟩

theorem single (hstep : step.stage = stage) : StageSteps stage steps (steps ++ [step]) :=
  head hstep (refl stage _)

end StageSteps

/-- How the loop over the HTTP endpoints ends: with its counters, or with a spent budget. -/
def HttpLoopEnds (steps : List ProbeStep) :
    Except (ProbeOutcome F) (HttpTally F × List ProbeStep) → Prop
  | .ok (_, steps') => StageSteps .relay steps steps'
  | .error outcome =>
    StageSteps .relay steps outcome.steps ∧ ∃ duration, outcome.events = [budgetExceeded duration]

theorem HttpLoopEnds.head {step : ProbeStep} (hstep : step.stage = .relay)
    {result : Except (ProbeOutcome F) (HttpTally F × List ProbeStep)}
    (h : HttpLoopEnds (steps ++ [step]) result) : HttpLoopEnds steps result := by
  cases result with
  | ok pair => exact StageSteps.head hstep h
  | error outcome => exact ⟨StageSteps.head hstep h.1, h.2⟩

theorem httpLoop_cons_expired {endpoint : String} (h : deadline ≤ (view.request i).checkedAt) :
    httpLoop config deadline view (endpoint :: endpoints) i tally steps =
      .error ⟨[budgetExceeded ((view.request i).checkedAt - (view.request i).started)],
        steps ++ [.expired .relay (view.request i).checkedAt], (view.request i).checkedAt⟩ := by
  simp only [httpLoop, remainingBudget_eq_none.mpr h]

theorem httpLoop_cons_attempted {endpoint : String} (h : (view.request i).checkedAt < deadline)
    (ih : ∀ tally steps,
      HttpLoopEnds steps (httpLoop config deadline view endpoints (i + 1) tally steps)) :
    HttpLoopEnds (steps ++ [.attempt .relay (view.request i).checkedAt])
      (httpLoop config deadline view (endpoint :: endpoints) i tally steps) := by
  simp only [httpLoop, remainingBudget_eq_some.mpr ⟨h, rfl⟩]
  split
  · exact ih _ _
  · exact ih _ _
  · exact ⟨StageSteps.refl .relay _, _, rfl⟩

theorem httpLoop_ends :
    HttpLoopEnds steps (httpLoop config deadline view endpoints i tally steps) := by
  induction endpoints generalizing i tally steps with
  | nil => exact StageSteps.refl .relay steps
  | cons endpoint endpoints ih =>
    rcases Nat.lt_or_ge (view.request i).checkedAt deadline with h | h
    · exact HttpLoopEnds.head rfl (httpLoop_cons_attempted h fun _ _ => ih)
    · rw [httpLoop_cons_expired h]
      exact ⟨StageSteps.single rfl, _, rfl⟩

theorem take_httpEndpoints (config : ProbeConfig F) :
    ∃ endpoint endpoints,
      (httpEndpoints config).take (endpointCount config) = endpoint :: endpoints := by
  refine List.exists_cons_of_ne_nil fun h => ?_
  rcases List.take_eq_nil_iff.mp h with h | h
  · exact endpointCount_pos.ne' h
  · exact httpEndpoints_ne_nil h

theorem take_downloadEndpoints (config : ProbeConfig F) :
    ∃ endpoint endpoints, (downloadEndpoints config).take 3 = endpoint :: endpoints := by
  refine List.exists_cons_of_ne_nil fun h => ?_
  rcases List.take_eq_nil_iff.mp h with h | h
  · exact absurd h (by decide)
  · exact downloadEndpoints_ne_nil h

/-- The first check of the budget decides whether anything is requested. -/
theorem httpProbe_expired (h : deadline ≤ (view.request 0).checkedAt) :
    httpProbe config deadline view =
      .error ⟨[budgetExceeded ((view.request 0).checkedAt - (view.request 0).started)],
        [.expired .relay (view.request 0).checkedAt], (view.request 0).checkedAt⟩ := by
  obtain ⟨endpoint, endpoints, htake⟩ := take_httpEndpoints config
  rw [httpProbe, htake]
  exact httpLoop_cons_expired h

theorem httpProbe_attempted (config : ProbeConfig F) (h : (view.request 0).checkedAt < deadline) :
    HttpLoopEnds [.attempt .relay (view.request 0).checkedAt]
      (httpProbe config deadline view) := by
  obtain ⟨endpoint, endpoints, htake⟩ := take_httpEndpoints config
  rw [httpProbe, htake]
  exact httpLoop_cons_attempted h fun _ _ => httpLoop_ends

variable [F64Convert F]

/-- A mirror is tried unless the budget is spent. -/
theorem downloadEndpoint_expired (config : ProbeConfig F) (endpoint : String)
    {request : RequestView} (h : deadline ≤ request.checkedAt) :
    (downloadEndpoint config deadline endpoint request).1 = .expired .download request.checkedAt ∧
      (downloadEndpoint config deadline endpoint request).2.failureClass = .downloadTimeout := by
  constructor
  · simp only [downloadEndpoint, remainingBudget_eq_none.mpr h]
  · simp only [downloadEndpoint, remainingBudget_eq_none.mpr h]
    rfl

theorem downloadEndpoint_attempted (config : ProbeConfig F) (endpoint : String)
    {request : RequestView} (h : request.checkedAt < deadline) :
    (downloadEndpoint config deadline endpoint request).1 =
      .attempt .download request.checkedAt := by
  simp only [downloadEndpoint, remainingBudget_eq_some.mpr ⟨h, rfl⟩]

theorem downloadEndpoint_step_stage {endpoint : String} {request : RequestView} :
    (downloadEndpoint config deadline endpoint request).1.stage = .download := by
  rcases Nat.lt_or_ge request.checkedAt deadline with h | h
  · rw [downloadEndpoint_attempted _ _ h]
    rfl
  · rw [(downloadEndpoint_expired _ _ h).1]
    rfl

theorem mirrorLoop_cons_steps {endpoint : String} :
    StageSteps .download
      (steps ++ [(downloadEndpoint config deadline endpoint (view.mirror i)).1])
      (mirrorLoop config deadline view (endpoint :: endpoints) i failures steps).1 := by
  induction endpoints generalizing endpoint i failures steps with
  | nil =>
    simp only [mirrorLoop]
    repeat' split
    all_goals exact StageSteps.refl .download _
  | cons next endpoints ih =>
    rw [mirrorLoop]
    dsimp only
    split
    · exact StageSteps.refl .download _
    · split
      · exact StageSteps.refl .download _
      · exact StageSteps.head downloadEndpoint_step_stage ih

/-- The steps of a download are those of its mirrors. -/
theorem download_steps :
    (download config deadline view).1 =
      (mirrorLoop config deadline view ((downloadEndpoints config).take 3) 0 [] []).1 := by
  rw [download]
  split
  · next h => rw [h]
  · next h => rw [h]

theorem download_attempted (h : (view.mirror 0).checkedAt < deadline) :
    StageSteps .download [.attempt .download (view.mirror 0).checkedAt]
      (download config deadline view).1 := by
  obtain ⟨endpoint, endpoints, htake⟩ := take_downloadEndpoints config
  rw [download_steps, htake]
  rw [← downloadEndpoint_attempted config endpoint h]
  exact mirrorLoop_cons_steps

/-- A download whose budget is spent before the first mirror. -/
theorem download_expired (config : ProbeConfig F)
    (h : deadline ≤ (view.mirror 0).checkedAt) :
    (download config deadline view).1 = [.expired .download (view.mirror 0).checkedAt] ∧
      (download config deadline view).2.stage = .download ∧
      (download config deadline view).2.failureClass = .downloadTimeout := by
  obtain ⟨endpoint, endpoints, htake⟩ := take_downloadEndpoints config
  obtain ⟨hstep, hclass⟩ := downloadEndpoint_expired config endpoint h
  have hleft : remainingBudget deadline (view.leftAt 0) = none :=
    remainingBudget_eq_none.mpr (h.trans (view.checkedAt_le_leftAt 0))
  have hloop : mirrorLoop config deadline view (endpoint :: endpoints) 0 [] [] =
      ([.expired .download (view.mirror 0).checkedAt],
        .ok [(downloadEndpoint config deadline endpoint (view.mirror 0)).2]) := by
    rw [mirrorLoop]
    simp [hstep, hclass, hleft]
  rw [download, htake, hloop]
  exact ⟨rfl, rfl, by simp [undecidedDownload, hclass]⟩

theorem classifyRequestError_mem (error : RequestError) (timeout : FailureClass) :
    classifyRequestError error timeout ∈ [timeout, .tlsTimeout, .endpointFailure] := by
  simp only [classifyRequestError]
  repeat' split
  all_goals simp

/-- The classes of a download. -/
def downloadClasses : List FailureClass :=
  [.success, .downloadTooSlow, .downloadTimeout, .tlsTimeout, .endpointFailure]

theorem downloadEndpoint_class {endpoint : String} {request : RequestView} :
    (downloadEndpoint config deadline endpoint request).2.failureClass ∈ downloadClasses := by
  rcases Nat.lt_or_ge request.checkedAt deadline with h | h
  · simp only [downloadEndpoint, remainingBudget_eq_some.mpr ⟨h, rfl⟩]
    split
    · split
      · split
        · simp only [measuredDownload]
          split <;> simp [downloadClasses]
        · simp [event, downloadClasses]
      · simp [event, downloadClasses]
    · next error _ =>
      have hclass := classifyRequestError_mem error .downloadTimeout
      simp only [event]
      exact List.mem_cons_of_mem _ (List.mem_cons_of_mem _ hclass)
    · simp [event, downloadClasses]
  · rw [(downloadEndpoint_expired _ _ h).2]
    simp [downloadClasses]

theorem mirrorLoop_decided {probe : ProbeEvent F}
    (h : (mirrorLoop config deadline view endpoints i failures steps).2 = .error probe) :
    probe.failureClass ∈ downloadClasses := by
  induction endpoints generalizing i failures steps with
  | nil => simp [mirrorLoop] at h
  | cons endpoint endpoints ih =>
    rw [mirrorLoop] at h
    dsimp only at h
    split at h
    · obtain rfl := Except.error.inj h
      exact downloadEndpoint_class
    · split at h
      · simp at h
      · exact ih h

theorem download_class : (download config deadline view).2.failureClass ∈ downloadClasses := by
  rw [download]
  split
  · next h => exact mirrorLoop_decided (congrArg Prod.snd h)
  · simp only [undecidedDownload]
    repeat' split
    all_goals simp [downloadClasses]

/-- The classes of a probe through Xray. -/
def relayClasses : List FailureClass := .localOverload :: .relayTimeout :: downloadClasses

theorem testThroughXray_class {port : ℕ} {runDownload : Bool} :
    ∀ e ∈ (testThroughXray port config deadline runDownload view).events,
      e.failureClass ∈ relayClasses := by
  have hrelayed : ∀ tally, ∀ e ∈ relayedEvents config tally, e.failureClass ∈ relayClasses := by
    simp [relayedEvents, relayClasses, downloadClasses]
  rw [testThroughXray]
  split
  · simp [event, relayClasses]
  · split
    · next outcome hprobe =>
      obtain ⟨-, duration, hevents⟩ : HttpLoopEnds [] (.error outcome) :=
        hprobe ▸ httpLoop_ends
      simp [hevents, budgetExceeded, event, relayClasses]
    · split
      · split
        · intro e he
          rcases List.mem_append.mp he with he | he
          · exact hrelayed _ e he
          · obtain rfl := List.mem_singleton.mp he
            exact List.mem_cons_of_mem _ (List.mem_cons_of_mem _ download_class)
        · exact hrelayed _
      · simp only [quorumMissed, event, List.mem_singleton, forall_eq]
        repeat' split
        all_goals simp [relayClasses, downloadClasses]

section Cases

variable {port : ℕ} {runDownload : Bool}

theorem testThroughXray_unbuilt {error : String}
    (h : view.client (socksProxy port) = .error error) :
    testThroughXray port config deadline runDownload view =
      ⟨[event .relay .localOverload none [("error", .string error)]], [], view.endedAt⟩ := by
  simp only [testThroughXray, h]

theorem testThroughXray_exceeded {outcome : ProbeOutcome F}
    (hclient : view.client (socksProxy port) = .ok ())
    (hprobe : httpProbe config deadline view = .error outcome) :
    testThroughXray port config deadline runDownload view = outcome := by
  simp only [testThroughXray, hclient, hprobe]

/-- Without a download the steps are those of the requests. -/
theorem testThroughXray_undownloaded (hclient : view.client (socksProxy port) = .ok ())
    (hprobe : httpProbe config deadline view = .ok (tally, steps))
    (h : ¬ ((config.downloadTest.enabled && runDownload) = true ∧
      httpQuorum config ≤ tally.successes.length)) :
    (testThroughXray port config deadline runDownload view).steps = steps := by
  simp only [testThroughXray, hclient, hprobe]
  split
  · next hquorum =>
    rw [if_neg fun hdue => h ⟨hdue, hquorum⟩]
  · rfl

theorem testThroughXray_downloaded (hclient : view.client (socksProxy port) = .ok ())
    (hprobe : httpProbe config deadline view = .ok (tally, steps))
    (hdue : (config.downloadTest.enabled && runDownload) = true)
    (hquorum : httpQuorum config ≤ tally.successes.length) :
    testThroughXray port config deadline runDownload view =
      ⟨relayedEvents config tally ++ [(download config deadline view).2],
        steps ++ (download config deadline view).1, view.endedAt⟩ := by
  simp only [testThroughXray, hclient, hprobe, if_pos hdue, if_pos hquorum]

end Cases

end Steps

end ProxyFleet
