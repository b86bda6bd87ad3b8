import ProxyFleet.ObservedRuns
import ProxyFleet.StoreTables

/-!
# The network guard and the scheduler

Two background services share one runtime status. The guard checks sentinel
targets and decides from its own counters when an incident starts and ends. The
scheduler is paused by an incident, and raises one itself when the failures of a
batch are correlated. Both hold the status only to write down a result: a check waits
for its targets and a batch for its probes in between, so each can overlap the other.
-/
namespace ProxyFleet

/-- `f64::floor` followed by `as usize`. -/
class F64Floor (F : Type) where
  floor : F → ℕ

instance : F64Floor ℚ where
  floor q := ⌊q⌋.toNat

structure SentinelTarget where
  kind : List Char := "tcp".toList
  host : String := ""
  port : ℕ := 0
  url : String := ""

/-- The network as a request meets it: the HTTP status that a URL is answered with in time,
none where it is malformed or nobody answers, and the addresses that accept a connection. -/
structure SentinelNetwork where
  get : String → Option ℕ
  connect : String → ℕ → Bool

namespace SentinelTarget

def isHttp (target : SentinelTarget) : Bool :=
  target.kind.map Char.toLower == "http".toList

def ok (target : SentinelTarget) (network : SentinelNetwork) : Bool :=
  if target.isHttp then (network.get target.url).any fun status => 200 ≤ status && status < 400
  else network.connect target.host target.port

end SentinelTarget

/-- The network guard's part of the configuration. The loader puts no condition on it
beyond the widths of its numbers. -/
structure NetworkGuardConfig where
  enabled : Bool := true
  failureThreshold : ℕ := 1
  recoveryThreshold : ℕ := 1
  minimumSuccessfulTargets : ℕ := 2
  requireHttpSuccess : Bool := true
  massFailureThresholdPercent : ℕ := 40
  sentinelTargets : List SentinelTarget := []
  failureThreshold_le : failureThreshold ≤ u32Max := by decide
  recoveryThreshold_le : recoveryThreshold ≤ u32Max := by decide
  massFailureThresholdPercent_le : massFailureThresholdPercent ≤ 255 := by decide

/-- The limits of the adaptive concurrency, as `validate` demands them. -/
structure ConcurrencyLimits where
  xrayConcurrencyMin : ℕ := 4
  xrayConcurrencyMax : ℕ := 16
  downloadConcurrencyMin : ℕ := 2
  downloadConcurrencyMax : ℕ := 8
  maxRelayDelayMs : ℕ := 3000
  xray_ordered : 0 < xrayConcurrencyMin ∧ xrayConcurrencyMin ≤ xrayConcurrencyMax := by decide
  download_ordered :
    0 < downloadConcurrencyMin ∧ downloadConcurrencyMin ≤ downloadConcurrencyMax := by decide

structure ServiceConfig where
  health : ConcurrencyLimits := {}
  networkGuard : NetworkGuardConfig := {}

structure ProbeEvent (F : Type) where
  stage : TestStage
  failureClass : FailureClass
  fastDownload : Bool := false
  latencyMs : Option F := none
  downloadBps : Option F := none
  bytesTransferred : Option ℤ := none
  durationMs : Option ℤ := none
  endpoint : Option String := none
  detail : Json := .null

structure ProbeReport (F : Type) where
  proxy : Option ParsedProxy
  events : List (ProbeEvent F)

structure RuntimeStatus (F : Type) where
  xrayConcurrency : ℕ
  downloadConcurrency : ℕ
  lastConcurrencyChange : String := "initial configured minimum"
  systemPressure : F
  lastSchedulerJobs : ℕ := 0
  networkIncident : Bool := false
  networkMessage : String := "baseline pending"

namespace NetworkGuardConfig

variable (config : NetworkGuardConfig)

def minimumSuccesses : ℕ :=
  min (max config.minimumSuccessfulTargets 1) (max config.sentinelTargets.length 1)

end NetworkGuardConfig

/-- The loop over the targets, with the number of successes and `http_success` as its
accumulators. Each target meets the network of its own moment. -/
def sentinelLoop (networks : ℕ → SentinelNetwork) :
    List SentinelTarget → ℕ → ℕ × Bool → ℕ × Bool
  | [], _, counted => counted
  | target :: rest, i, (successful, httpSuccess) =>
    if target.ok (networks i) then
      sentinelLoop networks rest (i + 1) (successful + 1, httpSuccess || target.isHttp)
    else
      sentinelLoop networks rest (i + 1) (successful, httpSuccess)

def sentinelHealth (config : NetworkGuardConfig) (clientBuilt : Bool)
    (networks : ℕ → SentinelNetwork) : Bool × String :=
  if config.sentinelTargets.isEmpty then
    (true, "no sentinel targets configured")
  else if !clientBuilt then
    (false, "could not build sentinel client")
  else
    let counted := sentinelLoop networks config.sentinelTargets 0 (0, !config.requireHttpSuccess)
    (decide (config.minimumSuccesses ≤ counted.1) && counted.2,
      "sentinel successes=" ++ toString counted.1 ++ "/" ++
        toString config.sentinelTargets.length ++ " http_success=" ++ toString counted.2)

/-- The counters that live in the loop of the guard. -/
structure GuardLoop where
  failures : ℕ := 0
  recoveries : ℕ := 0

section

variable {F : Type}

/-- What the guard does with the verdict of one check. -/
def guardCheck (config : NetworkGuardConfig) (verdict : Bool × String) (guard : GuardLoop)
    (runtime : RuntimeStatus F) : GuardLoop × RuntimeStatus F :=
  if verdict.1 then
    let recoveries := saturatingSucc guard.recoveries
    ({ failures := 0, recoveries := recoveries },
      if runtime.networkIncident && decide (max config.recoveryThreshold 1 ≤ recoveries) then
        { runtime with networkIncident := false, networkMessage := "recovered: " ++ verdict.2 }
      else if !runtime.networkIncident then
        { runtime with networkMessage := verdict.2 }
      else runtime)
  else
    let failures := saturatingSucc guard.failures
    ({ failures := failures, recoveries := 0 },
      { runtime with
        networkMessage := verdict.2
        networkIncident :=
          runtime.networkIncident || decide (max config.failureThreshold 1 ≤ failures) })

/-- A report that counts as a failed proxy. -/
def ProbeReport.failed (report : ProbeReport F) : Bool :=
  let succeeded := report.events.any fun event => event.failureClass == .success
  let inconclusiveOnly := report.events.all fun event =>
    event.failureClass.inconclusive || event.failureClass == .invalidConfig
  let structurallyInvalid := report.events.any fun event => event.failureClass == .invalidConfig
  !succeeded && !inconclusiveOnly && !structurallyInvalid && !report.events.isEmpty

/-- The number of events of one class in the reports. -/
def classCount (failureClass : FailureClass) (reports : List (String × ProbeReport F)) : ℕ :=
  (reports.map fun report =>
    report.2.events.countP fun event => event.failureClass == failureClass).sum

def correlatedIncident (reports : List (String × ProbeReport F)) (thresholdPercent : ℕ) :
    Option String :=
  if reports.length < 3 then none
  else
    let failed := reports.filter fun report => report.2.failed
    if failed.length * 100 < reports.length * thresholdPercent then none
    else
      let proxies := failed.filterMap fun report => report.2.proxy
      let sources := (proxies.map (·.source)).dedup
      let protocols := (proxies.map (·.protocol)).dedup
      let servers := (failed.map fun report =>
        match report.2.proxy with
        | some proxy => proxy.address
        | none => report.1).dedup
      if ¬(2 ≤ sources.length ∨ 2 ≤ protocols.length ∨ 2 ≤ servers.length) then none
      else if failed.length ≤ classCount .dnsFailure failed * 2 then
        some "dns_failure_cluster"
      else if failed.length ≤ classCount .endpointFailure failed * 2 then
        some "endpoint_failure_cluster"
      else
        some "cross_source_failure_cluster"

/-- Where the scheduler stands: between two ticks, with a batch in the probe, or
writing down what the batch reported. -/
inductive SchedulerPhase (F : Type) where
  | waiting
  | testing (pressure : F) (jobs : List String)
  | storing (pressure : F) (reports : List (String × ProbeReport F))

structure Services (F : Type) where
  guard : GuardLoop
  /-- The guard waits for the targets of a check. -/
  checking : Bool := false
  runtime : RuntimeStatus F
  scheduler : SchedulerPhase F

/-- The write of the incident after a batch was tested. -/
def assessBatch (config : NetworkGuardConfig) (reports : List (String × ProbeReport F))
    (runtime : RuntimeStatus F) : RuntimeStatus F :=
  match correlatedIncident reports config.massFailureThresholdPercent with
  | some reason =>
    { runtime with
      networkIncident := true
      networkMessage := reason ++ " detected across " ++ toString reports.length ++
        " scheduler jobs" }
  | none => runtime

end

variable {F : Type} [F64 F] [F64Floor F]

/-- The concurrency after a decrease: seven tenths of it, kept within its limits. -/
def decreased (current low high : ℕ) : ℕ :=
  max low (min (F64Floor.floor (F64.mul (F64.ofInt current) (F64.ofRat (7 / 10)) : F)) high)

def ConcurrencyLimits.decrease (health : ConcurrencyLimits) (reason : String)
    (runtime : RuntimeStatus F) : RuntimeStatus F :=
  { runtime with
    xrayConcurrency := decreased (F := F) runtime.xrayConcurrency health.xrayConcurrencyMin
      health.xrayConcurrencyMax
    downloadConcurrency := decreased (F := F) runtime.downloadConcurrency
      health.downloadConcurrencyMin health.downloadConcurrencyMax
    lastConcurrencyChange := reason }

def ConcurrencyLimits.increase (health : ConcurrencyLimits) (runtime : RuntimeStatus F) :
    RuntimeStatus F :=
  { runtime with
    xrayConcurrency :=
      max health.xrayConcurrencyMin (min (runtime.xrayConcurrency + 1) health.xrayConcurrencyMax)
    downloadConcurrency := max health.downloadConcurrencyMin
      (min (runtime.downloadConcurrency + 1) health.downloadConcurrencyMax)
    lastConcurrencyChange := "increased: stable window" }

/-- One tick of the scheduler up to the call of the probe, with the jobs that the claim
returned. -/
def schedulerTick (health : ConcurrencyLimits) (pressure : F) (jobs : List String)
    (runtime : RuntimeStatus F) : RuntimeStatus F × SchedulerPhase F :=
  let sampled := { runtime with systemPressure := pressure }
  if F64.le (F64.ofRat (90 / 100)) pressure then
    (health.decrease "decreased: scheduler paused for system_pressure" sampled, .waiting)
  else if sampled.networkIncident then
    ({ sampled with lastConcurrencyChange := "scheduler paused: network incident" }, .waiting)
  else if jobs.isEmpty then
    (sampled, .waiting)
  else
    ({ sampled with lastSchedulerJobs := jobs.length }, .testing pressure jobs)

def FailureClass.isTimeout : FailureClass → Bool
  | .tcpTimeout | .tlsTimeout | .relayTimeout | .downloadTimeout => true
  | _ => false

/-- The adaptation of the concurrency once a batch is written down. -/
def settleBatch (health : ConcurrencyLimits) (pressure : F)
    (reports : List (String × ProbeReport F)) (runtime : RuntimeStatus F) : RuntimeStatus F :=
  let probeEvents := reports.flatMap fun report => report.2.events
  let timeoutCluster := decide (3 ≤ probeEvents.length) &&
    decide (probeEvents.length ≤
      (probeEvents.countP fun event => event.failureClass.isTimeout) * 2)
  let latencySpike := probeEvents.any fun event =>
    F64.lt (F64.ofInt health.maxRelayDelayMs) (event.latencyMs.getD (F64.ofRat 0))
  let localOverload := probeEvents.any fun event => event.failureClass == .localOverload
  let results := reports.map fun report => report.2.events.any fun event =>
    event.stage == .download && event.failureClass == .success
  let recovered := results.all id && !results.isEmpty &&
    F64.lt pressure (F64.ofRat (65 / 100)) && !latencySpike && !localOverload
  if F64.le (F64.ofRat (75 / 100)) pressure then
    health.decrease "decreased: system_pressure" runtime
  else if timeoutCluster then health.decrease "decreased: timeout_cluster" runtime
  else if latencySpike then health.decrease "decreased: latency_spike" runtime
  else if localOverload then health.decrease "decreased: local_overload" runtime
  else if recovered then health.increase runtime
  else runtime

inductive ServiceEvent (F : Type) where
  | guardTick
  | guardVerdict (clientBuilt : Bool) (networks : ℕ → SentinelNetwork)
  | schedulerTick (pressure : F) (jobs : List String)
  | batchTested (reports : List (String × ProbeReport F))
  | batchStored

namespace Services

/-- `AppState::new` followed by `spawn_background_services`. -/
def initial (config : ServiceConfig) : Services F where
  guard := {}
  runtime :=
    { xrayConcurrency := config.health.xrayConcurrencyMin
      downloadConcurrency := config.health.downloadConcurrencyMin
      systemPressure := F64.ofRat 0 }
  scheduler := .waiting

/-- One step of one service. A service that is not at this point does nothing. -/
def step (config : ServiceConfig) (s : Services F) : ServiceEvent F → Services F
  | .guardTick => if config.networkGuard.enabled then { s with checking := true } else s
  | .guardVerdict clientBuilt networks =>
    if config.networkGuard.enabled && s.checking then
      let checked := guardCheck config.networkGuard
        (sentinelHealth config.networkGuard clientBuilt networks) s.guard s.runtime
      { s with guard := checked.1, checking := false, runtime := checked.2 }
    else s
  | .schedulerTick pressure jobs =>
    match s.scheduler with
    | .waiting =>
      let ticked := ProxyFleet.schedulerTick config.health pressure jobs s.runtime
      { s with runtime := ticked.1, scheduler := ticked.2 }
    | _ => s
  | .batchTested reports =>
    match s.scheduler with
    | .testing pressure _ =>
      { s with
        runtime := assessBatch config.networkGuard reports s.runtime
        scheduler := .storing pressure reports }
    | _ => s
  | .batchStored =>
    match s.scheduler with
    | .storing pressure reports =>
      { s with
        runtime := settleBatch config.health pressure reports s.runtime
        scheduler := .waiting }
    | _ => s

/-- What the claim and the probe can hand over: no more jobs than the capacity, and one
report for each job. -/
def Possible (s : Services F) : ServiceEvent F → Prop
  | .schedulerTick _ jobs => jobs.length ≤ max s.runtime.xrayConcurrency 1 ∧ jobs.Nodup
  | .batchTested reports =>
    match s.scheduler with
    | .testing _ jobs => (reports.map Prod.fst).Perm jobs
    | _ => True
  | _ => True

/-- The states that the services reach from their start. -/
def Reachable (config : ServiceConfig) (s : Services F) : Prop :=
  ∃ events, ObservedRuns.Admitted (step config) Possible (initial config) events ∧
    ObservedRuns.run (step config) (initial config) events = s

end Services

end ProxyFleet
