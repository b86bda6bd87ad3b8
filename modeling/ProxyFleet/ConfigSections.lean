import ProxyFleet.SectionTrees
import ProxyFleet.StoreTables

/-!
# The sections of the configuration

Each section is a struct whose fields are read from the entries of a mapping, in their order.
A missing field keeps its default, except in the few structs without defaults. The reader of
scalars is a library; what the source decides is which key fills which field.
-/
namespace ProxyFleet.Config

open SectionTrees

section Structs

variable (F : Type) [F64 F]

structure ServiceConfig where
  name : String := "config-orchestrator"
  environment : String := "production"

structure PublishingConfig where
  enabled : Bool := false
  gitRemote : String := ""
  gitBranch : String := "main"
  debounceSeconds : F := F64.ofRat 2
  reconcileIntervalSeconds : UInt64 := 60
  retainedSnapshots : Option UInt32 := none
  authorName : String := "Proxy Fleet"
  authorEmail : String := "proxy-fleet@users.noreply.github.com"

structure SubscriptionSource where
  name : String
  url : String

structure SubscriptionConfig where
  refreshIntervalSeconds : UInt64 := 0
  pruneMissingAfterCycles : UInt32 := 0
  urls : List SubscriptionSource := []

structure PortRange where
  start : UInt16
  stop : UInt16

structure PortsConfig where
  main : PortRange := ⟨30000, 31999⟩
  test : PortRange := ⟨32000, 39999⟩

structure DatabaseConfig where
  kind : String := "sqlite"
  path : String := "./data/app.db"

structure HealthConfig where
  activeMinResidenceSeconds : UInt64 := 30 * 60
  activePoolRelayCheckIntervalSeconds : UInt64 := 10
  activePoolDownloadCheckIntervalSeconds : UInt64 := 300
  activeRelayFailureThreshold : UInt32 := 3
  probationRecheckIntervalSeconds : UInt64 := 120
  probationFailureThreshold : UInt32 := 3
  probationSuccessThreshold : UInt32 := 1
  candidateRecheckIntervalSeconds : UInt64 := 60
  candidateMaxFailures : UInt32 := 5
  candidateRetryBackoffSeconds : List UInt64 := [300, 1800, 7200, 21600]
  candidateBatchSize : UInt64 := 32
  candidateCycleLimit : UInt64 := 256
  candidateBatchConcurrency : UInt64 := 16
  candidateParallelBatches : UInt64 := 4
  candidateBatchTimeoutSeconds : UInt64 := 20
  xrayConcurrencyMin : UInt64 := 4
  xrayConcurrencyMax : UInt64 := 16
  maxActiveRuntimes : UInt64 := 128
  downloadConcurrencyMin : UInt64 := 2
  downloadConcurrencyMax : UInt64 := 8
  recentSuccessRetentionHours : UInt64 := 24
  deadRecheckBatchSize : UInt64 := 32
  deadRetryRecentSeconds : UInt64 := 7200
  deadRetryUnverifiedSeconds : UInt64 := 21600
  relayTimeoutMs : UInt64 := 3000
  maxRelayDelayMs : UInt64 := 3000
  httpProbeBodyLimitBytes : UInt64 := 16 * 1024
  httpProbeMaxEndpoints : UInt64 := 2
  httpProbeSuccessQuorum : UInt64 := 1
  testUrl : String := "https://www.cloudflare.com/cdn-cgi/trace"
  fallbackUrls : List String :=
    ["https://www.gstatic.com/generate_204", "https://www.google.com/generate_204"]

structure MetadataConfig where
  enabled : Bool := true
  endpoint : String := "https://ipapi.co/json/"
  timeoutSeconds : UInt64 := 5
  cacheTtlSeconds : UInt64 := 24 * 60 * 60

structure DownloadTestConfig where
  enabled : Bool := true
  timeoutSeconds : UInt64 := 5
  perUrlTimeoutSeconds : F := F64.ofRat (15 / 10)
  minDownloadKbps : UInt64 := 100
  targetDownloadKbps : UInt64 := 1000
  testUrl : String := "https://proof.ovh.net/files/1Mb.dat"
  fallbackUrls : List String := []

structure DeadPoolConfig where
  ttlHours : UInt64 := 24
  invalidTtlHours : UInt64 := 720

structure PenaltyRule where
  baseCooldownSeconds : UInt64
  maxCooldownSeconds : UInt64
  jitterRatio : F

structure ClientPenaltyConfig where
  broken : PenaltyRule F := ⟨300, 21600, F64.ofRat (2 / 10)⟩
  rateLimited : PenaltyRule F := ⟨900, 43200, F64.ofRat (2 / 10)⟩

structure SelectionWeights where
  latency : F := F64.ofRat (35 / 100)
  download : F := F64.ofRat (20 / 100)
  availability : F := F64.ofRat (20 / 100)
  fairness : F := F64.ofRat (15 / 100)
  clientHistory : F := F64.ofRat (10 / 100)

structure SelectionConfig where
  strategy : String := "weighted_power_of_choices"
  sampleSize : UInt64 := 5
  weights : SelectionWeights F := {}

structure ApiConfig where
  host : String := "0.0.0.0"
  port : UInt16 := 8080
  authEnabled : Bool := false

structure VipPortConfig where
  enabled : Bool := true
  port : UInt16 := 5050
  checkIntervalSeconds : UInt64 := 10
  minSwitchIntervalSeconds : UInt64 := 60
  switchThresholdScoreDiff : F := F64.ofRat (15 / 100)

structure SentinelTarget where
  kind : String := "tcp"
  host : String := ""
  port : UInt16 := 0
  url : String := ""

structure NetworkGuardConfig where
  enabled : Bool := true
  checkIntervalSeconds : UInt64 := 5
  failureThreshold : UInt32 := 1
  recoveryThreshold : UInt32 := 1
  minimumSuccessfulTargets : UInt64 := 2
  requireHttpSuccess : Bool := true
  massFailureThresholdPercent : UInt8 := 40
  sentinelTargets : List SentinelTarget := []

structure RetentionConfig where
  systemEventMaxRows : UInt64 := 10000

structure AppConfig where
  service : ServiceConfig := {}
  publishing : PublishingConfig F := {}
  subscriptions : SubscriptionConfig := {}
  ports : PortsConfig := {}
  database : DatabaseConfig := {}
  health : HealthConfig := {}
  metadata : MetadataConfig := {}
  downloadTest : DownloadTestConfig F := {}
  deadPool : DeadPoolConfig := {}
  clientPenalty : ClientPenaltyConfig F := {}
  selection : SelectionConfig F := {}
  api : ApiConfig := {}
  vipPort : VipPortConfig F := {}
  networkGuard : NetworkGuardConfig := {}
  retention : RetentionConfig := {}
  assignmentTtlSeconds : UInt64 := 60
  xrayBin : String := "/usr/local/bin/xray"

/-- The fields of a `SubscriptionSource` that were read. -/
structure SubscriptionSource.Parts where
  name : Option String := none
  url : Option String := none

/-- The fields of a `PortRange` that were read. -/
structure PortRange.Parts where
  start : Option UInt16 := none
  stop : Option UInt16 := none

/-- The fields of a `PenaltyRule` that were read. -/
structure PenaltyRule.Parts where
  baseCooldownSeconds : Option UInt64 := none
  maxCooldownSeconds : Option UInt64 := none
  jitterRatio : Option F := none

end Structs

/-- What the YAML library refuses, by the text of its error without the path, the line and the
column that it adds. -/
abbrev Refusal := String

/-- How the YAML library reads a document without tags, which it refuses if a mapping has a key
twice, and the scalars in it, what else it takes for an empty sequence or mapping, and how it
refuses a key that is a sequence or a mapping, and a struct that lacks a field. -/
structure YamlLibrary (σ F : Type) where
  document : Text → Except Refusal (Document σ)
  bool : Document σ → Except Refusal Bool
  u8 : Document σ → Except Refusal UInt8
  u16 : Document σ → Except Refusal UInt16
  u32 : Document σ → Except Refusal UInt32
  u64 : Document σ → Except Refusal UInt64
  f64 : Document σ → Except Refusal F
  text : Document σ → Except Refusal String
  optionalU32 : Document σ → Except Refusal (Option UInt32)
  plainSequence : Document σ → Except Refusal Unit
  plainMapping : Document σ → Except Refusal Unit
  nestedKey : Refusal
  missingField : String → Refusal

section Reads

variable {σ F : Type} [F64 F] (lib : YamlLibrary σ F)

/-- A field without a default. -/
def required {α : Type} (name : String) : Option α → Except Refusal α
  | some value => .ok value
  | none => .error (lib.missingField name)

def ServiceConfig.fields : List (StructField σ ServiceConfig String) := [
  field "name" lib.text fun c v => { c with name := v },
  field "environment" lib.text fun c v => { c with environment := v }]

def ServiceConfig.read : Document σ → Except Refusal ServiceConfig :=
  readStruct lib.nestedKey lib.plainMapping (ServiceConfig.fields lib) {}

def PublishingConfig.fields : List (StructField σ (PublishingConfig F) String) := [
  field "enabled" lib.bool fun c v => { c with enabled := v },
  field "git_remote" lib.text fun c v => { c with gitRemote := v },
  field "git_branch" lib.text fun c v => { c with gitBranch := v },
  field "debounce_seconds" lib.f64 fun c v => { c with debounceSeconds := v },
  field "reconcile_interval_seconds" lib.u64 fun c v => { c with reconcileIntervalSeconds := v },
  field "retained_snapshots" lib.optionalU32 fun c v => { c with retainedSnapshots := v },
  field "author_name" lib.text fun c v => { c with authorName := v },
  field "author_email" lib.text fun c v => { c with authorEmail := v }]

def PublishingConfig.read : Document σ → Except Refusal (PublishingConfig F) :=
  readStruct lib.nestedKey lib.plainMapping (PublishingConfig.fields lib) {}

def SubscriptionSource.fields : List (StructField σ SubscriptionSource.Parts String) := [
  field "name" lib.text fun c v => { c with name := some v },
  field "url" lib.text fun c v => { c with url := some v }]

def SubscriptionSource.read (value : Document σ) : Except Refusal SubscriptionSource := do
  let parts ← readStruct lib.nestedKey lib.plainMapping (SubscriptionSource.fields lib) {} value
  let name ← required lib "name" parts.name
  let url ← required lib "url" parts.url
  return ⟨name, url⟩

def SubscriptionConfig.fields : List (StructField σ SubscriptionConfig String) := [
  field "refresh_interval_seconds" lib.u64 fun c v => { c with refreshIntervalSeconds := v },
  field "prune_missing_after_cycles" lib.u32 fun c v => { c with pruneMissingAfterCycles := v },
  field "urls" (readSequence lib.plainSequence (SubscriptionSource.read lib))
      fun c v => { c with urls := v }]

def SubscriptionConfig.read : Document σ → Except Refusal SubscriptionConfig :=
  readStruct lib.nestedKey lib.plainMapping (SubscriptionConfig.fields lib) {}

def PortRange.fields : List (StructField σ PortRange.Parts String) := [
  field "start" lib.u16 fun c v => { c with start := some v },
  field "end" lib.u16 fun c v => { c with stop := some v }]

def PortRange.read (value : Document σ) : Except Refusal PortRange := do
  let parts ← readStruct lib.nestedKey lib.plainMapping (PortRange.fields lib) {} value
  let start ← required lib "start" parts.start
  let stop ← required lib "end" parts.stop
  return ⟨start, stop⟩

def PortsConfig.fields : List (StructField σ PortsConfig String) := [
  field "main" (PortRange.read lib) fun c v => { c with main := v },
  field "test" (PortRange.read lib) fun c v => { c with test := v }]

def PortsConfig.read : Document σ → Except Refusal PortsConfig :=
  readStruct lib.nestedKey lib.plainMapping (PortsConfig.fields lib) {}

def DatabaseConfig.fields : List (StructField σ DatabaseConfig String) := [
  field "type" lib.text fun c v => { c with kind := v },
  field "path" lib.text fun c v => { c with path := v }]

def DatabaseConfig.read : Document σ → Except Refusal DatabaseConfig :=
  readStruct lib.nestedKey lib.plainMapping (DatabaseConfig.fields lib) {}

def HealthConfig.fields : List (StructField σ HealthConfig String) := [
  field "active_min_residence_seconds" lib.u64 fun c v => { c with activeMinResidenceSeconds := v },
  field "active_pool_relay_check_interval_seconds" lib.u64
      fun c v => { c with activePoolRelayCheckIntervalSeconds := v },
  field "active_pool_download_check_interval_seconds" lib.u64
      fun c v => { c with activePoolDownloadCheckIntervalSeconds := v },
  field "active_relay_failure_threshold" lib.u32
      fun c v => { c with activeRelayFailureThreshold := v },
  field "probation_recheck_interval_seconds" lib.u64
      fun c v => { c with probationRecheckIntervalSeconds := v },
  field "probation_failure_threshold" lib.u32 fun c v => { c with probationFailureThreshold := v },
  field "probation_success_threshold" lib.u32 fun c v => { c with probationSuccessThreshold := v },
  field "candidate_recheck_interval_seconds" lib.u64
      fun c v => { c with candidateRecheckIntervalSeconds := v },
  field "candidate_max_failures" lib.u32 fun c v => { c with candidateMaxFailures := v },
  field "candidate_retry_backoff_seconds" (readSequence lib.plainSequence lib.u64)
      fun c v => { c with candidateRetryBackoffSeconds := v },
  field "candidate_batch_size" lib.u64 fun c v => { c with candidateBatchSize := v },
  field "candidate_cycle_limit" lib.u64 fun c v => { c with candidateCycleLimit := v },
  field "candidate_batch_concurrency" lib.u64 fun c v => { c with candidateBatchConcurrency := v },
  field "candidate_parallel_batches" lib.u64 fun c v => { c with candidateParallelBatches := v },
  field "candidate_batch_timeout_seconds" lib.u64
      fun c v => { c with candidateBatchTimeoutSeconds := v },
  field "xray_concurrency_min" lib.u64 fun c v => { c with xrayConcurrencyMin := v },
  field "xray_concurrency_max" lib.u64 fun c v => { c with xrayConcurrencyMax := v },
  field "max_active_runtimes" lib.u64 fun c v => { c with maxActiveRuntimes := v },
  field "download_concurrency_min" lib.u64 fun c v => { c with downloadConcurrencyMin := v },
  field "download_concurrency_max" lib.u64 fun c v => { c with downloadConcurrencyMax := v },
  field "recent_success_retention_hours" lib.u64
      fun c v => { c with recentSuccessRetentionHours := v },
  field "dead_recheck_batch_size" lib.u64 fun c v => { c with deadRecheckBatchSize := v },
  field "dead_retry_recent_seconds" lib.u64 fun c v => { c with deadRetryRecentSeconds := v },
  field "dead_retry_unverified_seconds" lib.u64
      fun c v => { c with deadRetryUnverifiedSeconds := v },
  field "relay_timeout_ms" lib.u64 fun c v => { c with relayTimeoutMs := v },
  field "max_relay_delay_ms" lib.u64 fun c v => { c with maxRelayDelayMs := v },
  field "http_probe_body_limit_bytes" lib.u64 fun c v => { c with httpProbeBodyLimitBytes := v },
  field "http_probe_max_endpoints" lib.u64 fun c v => { c with httpProbeMaxEndpoints := v },
  field "http_probe_success_quorum" lib.u64 fun c v => { c with httpProbeSuccessQuorum := v },
  field "test_url" lib.text fun c v => { c with testUrl := v },
  field "fallback_urls" (readSequence lib.plainSequence lib.text)
      fun c v => { c with fallbackUrls := v }]

def HealthConfig.read : Document σ → Except Refusal HealthConfig :=
  readStruct lib.nestedKey lib.plainMapping (HealthConfig.fields lib) {}

def MetadataConfig.fields : List (StructField σ MetadataConfig String) := [
  field "enabled" lib.bool fun c v => { c with enabled := v },
  field "endpoint" lib.text fun c v => { c with endpoint := v },
  field "timeout_seconds" lib.u64 fun c v => { c with timeoutSeconds := v },
  field "cache_ttl_seconds" lib.u64 fun c v => { c with cacheTtlSeconds := v }]

def MetadataConfig.read : Document σ → Except Refusal MetadataConfig :=
  readStruct lib.nestedKey lib.plainMapping (MetadataConfig.fields lib) {}

def DownloadTestConfig.fields : List (StructField σ (DownloadTestConfig F) String) := [
  field "enabled" lib.bool fun c v => { c with enabled := v },
  field "timeout_seconds" lib.u64 fun c v => { c with timeoutSeconds := v },
  field "per_url_timeout_seconds" lib.f64 fun c v => { c with perUrlTimeoutSeconds := v },
  field "min_download_kbps" lib.u64 fun c v => { c with minDownloadKbps := v },
  field "target_download_kbps" lib.u64 fun c v => { c with targetDownloadKbps := v },
  field "test_url" lib.text fun c v => { c with testUrl := v },
  field "fallback_urls" (readSequence lib.plainSequence lib.text)
      fun c v => { c with fallbackUrls := v }]

def DownloadTestConfig.read : Document σ → Except Refusal (DownloadTestConfig F) :=
  readStruct lib.nestedKey lib.plainMapping (DownloadTestConfig.fields lib) {}

def DeadPoolConfig.fields : List (StructField σ DeadPoolConfig String) := [
  field "ttl_hours" lib.u64 fun c v => { c with ttlHours := v },
  field "invalid_ttl_hours" lib.u64 fun c v => { c with invalidTtlHours := v }]

def DeadPoolConfig.read : Document σ → Except Refusal DeadPoolConfig :=
  readStruct lib.nestedKey lib.plainMapping (DeadPoolConfig.fields lib) {}

def PenaltyRule.fields : List (StructField σ (PenaltyRule.Parts F) String) := [
  field "base_cooldown_seconds" lib.u64 fun c v => { c with baseCooldownSeconds := some v },
  field "max_cooldown_seconds" lib.u64 fun c v => { c with maxCooldownSeconds := some v },
  field "jitter_ratio" lib.f64 fun c v => { c with jitterRatio := some v }]

def PenaltyRule.read (value : Document σ) : Except Refusal (PenaltyRule F) := do
  let parts ← readStruct lib.nestedKey lib.plainMapping (PenaltyRule.fields lib) {} value
  let baseCooldownSeconds ← required lib "base_cooldown_seconds" parts.baseCooldownSeconds
  let maxCooldownSeconds ← required lib "max_cooldown_seconds" parts.maxCooldownSeconds
  let jitterRatio ← required lib "jitter_ratio" parts.jitterRatio
  return ⟨baseCooldownSeconds, maxCooldownSeconds, jitterRatio⟩

def ClientPenaltyConfig.fields : List (StructField σ (ClientPenaltyConfig F) String) := [
  field "broken" (PenaltyRule.read lib) fun c v => { c with broken := v },
  field "rate_limited" (PenaltyRule.read lib) fun c v => { c with rateLimited := v }]

def ClientPenaltyConfig.read : Document σ → Except Refusal (ClientPenaltyConfig F) :=
  readStruct lib.nestedKey lib.plainMapping (ClientPenaltyConfig.fields lib) {}

def SelectionWeights.fields : List (StructField σ (SelectionWeights F) String) := [
  field "latency" lib.f64 fun c v => { c with latency := v },
  field "download" lib.f64 fun c v => { c with download := v },
  field "availability" lib.f64 fun c v => { c with availability := v },
  field "fairness" lib.f64 fun c v => { c with fairness := v },
  field "client_history" lib.f64 fun c v => { c with clientHistory := v }]

def SelectionWeights.read : Document σ → Except Refusal (SelectionWeights F) :=
  readStruct lib.nestedKey lib.plainMapping (SelectionWeights.fields lib) {}

def SelectionConfig.fields : List (StructField σ (SelectionConfig F) String) := [
  field "strategy" lib.text fun c v => { c with strategy := v },
  field "sample_size" lib.u64 fun c v => { c with sampleSize := v },
  field "weights" (SelectionWeights.read lib) fun c v => { c with weights := v }]

def SelectionConfig.read : Document σ → Except Refusal (SelectionConfig F) :=
  readStruct lib.nestedKey lib.plainMapping (SelectionConfig.fields lib) {}

def ApiConfig.fields : List (StructField σ ApiConfig String) := [
  field "host" lib.text fun c v => { c with host := v },
  field "port" lib.u16 fun c v => { c with port := v },
  field "auth_enabled" lib.bool fun c v => { c with authEnabled := v }]

def ApiConfig.read : Document σ → Except Refusal ApiConfig :=
  readStruct lib.nestedKey lib.plainMapping (ApiConfig.fields lib) {}

def VipPortConfig.fields : List (StructField σ (VipPortConfig F) String) := [
  field "enabled" lib.bool fun c v => { c with enabled := v },
  field "port" lib.u16 fun c v => { c with port := v },
  field "check_interval_seconds" lib.u64 fun c v => { c with checkIntervalSeconds := v },
  field "min_switch_interval_seconds" lib.u64 fun c v => { c with minSwitchIntervalSeconds := v },
  field "switch_threshold_score_diff" lib.f64 fun c v => { c with switchThresholdScoreDiff := v }]

def VipPortConfig.read : Document σ → Except Refusal (VipPortConfig F) :=
  readStruct lib.nestedKey lib.plainMapping (VipPortConfig.fields lib) {}

def SentinelTarget.fields : List (StructField σ SentinelTarget String) := [
  field "type" lib.text fun c v => { c with kind := v },
  field "host" lib.text fun c v => { c with host := v },
  field "port" lib.u16 fun c v => { c with port := v },
  field "url" lib.text fun c v => { c with url := v }]

def SentinelTarget.read : Document σ → Except Refusal SentinelTarget :=
  readStruct lib.nestedKey lib.plainMapping (SentinelTarget.fields lib) {}

def NetworkGuardConfig.fields : List (StructField σ NetworkGuardConfig String) := [
  field "enabled" lib.bool fun c v => { c with enabled := v },
  field "check_interval_seconds" lib.u64 fun c v => { c with checkIntervalSeconds := v },
  field "failure_threshold" lib.u32 fun c v => { c with failureThreshold := v },
  field "recovery_threshold" lib.u32 fun c v => { c with recoveryThreshold := v },
  field "minimum_successful_targets" lib.u64 fun c v => { c with minimumSuccessfulTargets := v },
  field "require_http_success" lib.bool fun c v => { c with requireHttpSuccess := v },
  field "mass_failure_threshold_percent" lib.u8
      fun c v => { c with massFailureThresholdPercent := v },
  field "sentinel_targets" (readSequence lib.plainSequence (SentinelTarget.read lib))
      fun c v => { c with sentinelTargets := v }]

def NetworkGuardConfig.read : Document σ → Except Refusal NetworkGuardConfig :=
  readStruct lib.nestedKey lib.plainMapping (NetworkGuardConfig.fields lib) {}

def RetentionConfig.fields : List (StructField σ RetentionConfig String) := [
  field "system_event_max_rows" lib.u64 fun c v => { c with systemEventMaxRows := v }]

def RetentionConfig.read : Document σ → Except Refusal RetentionConfig :=
  readStruct lib.nestedKey lib.plainMapping (RetentionConfig.fields lib) {}

def AppConfig.fields : List (StructField σ (AppConfig F) String) := [
  field "service" (ServiceConfig.read lib) fun c v => { c with service := v },
  field "publishing" (PublishingConfig.read lib) fun c v => { c with publishing := v },
  field "subscriptions" (SubscriptionConfig.read lib) fun c v => { c with subscriptions := v },
  field "ports" (PortsConfig.read lib) fun c v => { c with ports := v },
  field "database" (DatabaseConfig.read lib) fun c v => { c with database := v },
  field "health" (HealthConfig.read lib) fun c v => { c with health := v },
  field "metadata" (MetadataConfig.read lib) fun c v => { c with metadata := v },
  field "download_test" (DownloadTestConfig.read lib) fun c v => { c with downloadTest := v },
  field "dead_pool" (DeadPoolConfig.read lib) fun c v => { c with deadPool := v },
  field "client_penalty" (ClientPenaltyConfig.read lib) fun c v => { c with clientPenalty := v },
  field "selection" (SelectionConfig.read lib) fun c v => { c with selection := v },
  field "api" (ApiConfig.read lib) fun c v => { c with api := v },
  field "vip_port" (VipPortConfig.read lib) fun c v => { c with vipPort := v },
  field "network_guard" (NetworkGuardConfig.read lib) fun c v => { c with networkGuard := v },
  field "retention" (RetentionConfig.read lib) fun c v => { c with retention := v },
  field "assignment_ttl_seconds" lib.u64 fun c v => { c with assignmentTtlSeconds := v },
  field "xray_bin" lib.text fun c v => { c with xrayBin := v }]

def AppConfig.read : Document σ → Except Refusal (AppConfig F) :=
  readStruct lib.nestedKey lib.plainMapping (AppConfig.fields lib) {}

end Reads

end ProxyFleet.Config
