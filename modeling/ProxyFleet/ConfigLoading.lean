import ProxyFleet.AdaptiveConcurrency
import ProxyFleet.AddressSyntax
import ProxyFleet.ConfigSections
import ProxyFleet.TestEventApplication

/-!
# Loading the configuration

The loader parses the file twice: once to report the keys that it does not know and to refuse
sections that are no mappings, and once to read the sections. Then a few environment variables
replace what was read, and the result is validated as a whole.
-/
namespace ProxyFleet.Config

open SectionTrees AddressSyntax ObservedRuns

section Tables

def nestedMappingKeys : String → List String
  | "" => [
      "service", "publishing", "subscriptions", "ports", "database", "health", "metadata",
      "download_test", "dead_pool", "client_penalty", "selection", "api", "vip_port",
      "network_guard", "retention"]
  | "ports" => ["main", "test"]
  | "client_penalty" => ["broken", "rate_limited"]
  | "selection" => ["weights"]
  | _ => []

def nestedSequenceKeys : String → List (String × String)
  | "subscriptions" => [("urls", "subscriptions.urls[]")]
  | "network_guard" => [("sentinel_targets", "network_guard.sentinel_targets[]")]
  | _ => []

def knownKeys : String → List String
  | "" => [
      "service", "publishing", "subscriptions", "ports", "database", "health", "metadata",
      "download_test", "dead_pool", "client_penalty", "selection", "api", "vip_port",
      "network_guard", "retention", "assignment_ttl_seconds", "xray_bin"]
  | "service" => ["name", "environment"]
  | "publishing" => [
      "enabled", "git_remote", "git_branch", "debounce_seconds", "reconcile_interval_seconds",
      "retained_snapshots", "author_name", "author_email"]
  | "subscriptions" => ["refresh_interval_seconds", "prune_missing_after_cycles", "urls"]
  | "subscriptions.urls[]" => ["name", "url"]
  | "ports" => ["main", "test"]
  | "ports.main" | "ports.test" => ["start", "end"]
  | "database" => ["type", "path"]
  | "health" => [
      "active_min_residence_seconds", "active_pool_relay_check_interval_seconds",
      "active_pool_download_check_interval_seconds", "active_relay_failure_threshold",
      "probation_recheck_interval_seconds", "probation_failure_threshold",
      "probation_success_threshold", "candidate_recheck_interval_seconds",
      "candidate_max_failures", "candidate_retry_backoff_seconds", "candidate_batch_size",
      "candidate_cycle_limit", "candidate_batch_concurrency", "candidate_parallel_batches",
      "candidate_batch_timeout_seconds", "xray_concurrency_min", "xray_concurrency_max",
      "max_active_runtimes", "download_concurrency_min", "download_concurrency_max",
      "recent_success_retention_hours", "dead_recheck_batch_size", "dead_retry_recent_seconds",
      "dead_retry_unverified_seconds", "relay_timeout_ms", "max_relay_delay_ms",
      "http_probe_body_limit_bytes", "http_probe_max_endpoints", "http_probe_success_quorum",
      "test_url", "fallback_urls"]
  | "metadata" => ["enabled", "endpoint", "timeout_seconds", "cache_ttl_seconds"]
  | "download_test" => [
      "enabled", "timeout_seconds", "per_url_timeout_seconds", "min_download_kbps",
      "target_download_kbps", "test_url", "fallback_urls"]
  | "dead_pool" => ["ttl_hours", "invalid_ttl_hours"]
  | "client_penalty" => ["broken", "rate_limited"]
  | "client_penalty.broken" | "client_penalty.rate_limited" => [
      "base_cooldown_seconds", "max_cooldown_seconds", "jitter_ratio"]
  | "selection" => ["strategy", "sample_size", "weights"]
  | "selection.weights" => ["latency", "download", "availability", "fairness", "client_history"]
  | "api" => ["host", "port", "auth_enabled"]
  | "vip_port" => [
      "enabled", "port", "check_interval_seconds", "min_switch_interval_seconds",
      "switch_threshold_score_diff"]
  | "network_guard" => [
      "enabled", "check_interval_seconds", "failure_threshold", "recovery_threshold",
      "minimum_successful_targets", "require_http_success", "mass_failure_threshold_percent",
      "sentinel_targets"]
  | "network_guard.sentinel_targets[]" => ["type", "host", "port", "url"]
  | "retention" => ["system_event_max_rows"]
  | _ => []

/-- The sections of the file. -/
def layout : Layout where
  known := knownKeys
  mappings := nestedMappingKeys
  sequences := nestedSequenceKeys
  childPath path key := if path = "" then key else path ++ "." ++ key

end Tables

section Loading

variable {σ F : Type} [F64 F]

/-- The keys that are reported, and the section for which the inspection fails. -/
def inspectMapping (value : Document σ) (path : String) :
    List (String × Option String) × Except String Unit :=
  let walk := layout.walk value path
  (walk.unknown,
    match walk.stopped with
    | none => .ok ()
    | some path => .error ("configuration section " ++ (if path = "" then "<root>" else path) ++
        " must be a YAML mapping"))

/-- `env::var`, for the variables that are set to a text. -/
abbrev Environment := String → Option Text

/-- The first overflow or character that is no digit. -/
def parseIntError (t : Text) : String :=
  let digits := match t with
    | '+' :: rest => rest
    | _ => t
  if t = [] then "cannot parse integer from empty string"
  else if 65536 ≤ numberValue 10 (digits.takeWhile Char.isDigit) then
    "number too large to fit in target type"
  else "invalid digit found in string"

def envNumber (env : Environment) (name : String) : Except String (Option UInt16) :=
  match env name with
  | none => .ok none
  | some value =>
    match AddressSyntax.parseU16 value with
    | some number => .ok (some (UInt16.ofNat number))
    | none => .error (name ++ " must be a valid number: " ++ parseIntError value)

def envBool (env : Environment) (name : String) : Except String (Option Bool) :=
  match env name with
  | none => .ok none
  | some value =>
    if value ∈ ["1", "true", "TRUE", "yes", "YES"].map String.toList then .ok (some true)
    else if value ∈ ["0", "false", "FALSE", "no", "NO"].map String.toList then .ok (some false)
    else .error (name ++ " must be a boolean")

def AppConfig.applyEnvironment (env : Environment) (config : AppConfig F) :
    Except String (AppConfig F) := do
  let host := ((env "PROXY_FLEET_API_HOST").map String.ofList).getD config.api.host
  let port := (← envNumber env "PROXY_FLEET_API_PORT").getD config.api.port
  let path := ((env "PROXY_FLEET_DATABASE_PATH").map String.ofList).getD config.database.path
  let xrayBin := ((env "PROXY_FLEET_XRAY_BIN").map String.ofList).getD config.xrayBin
  let enabled := (← envBool env "PROXY_FLEET_PUBLISHING_ENABLED").getD config.publishing.enabled
  return { config with
    api := { config.api with host := host, port := port }
    database := { config.database with path := path }
    xrayBin := xrayBin
    publishing := { config.publishing with enabled := enabled } }

def PortRange.valid (range : PortRange) : Bool := 0 < range.start && range.start ≤ range.stop

/-- `anyhow::ensure!`. -/
def ensure (condition : Bool) (message : String) : Except String Unit :=
  if condition then .ok () else .error message

def AppConfig.validate (config : AppConfig F) : Except String Unit := do
  ensure (!config.subscriptions.urls.isEmpty) "subscriptions.urls must not be empty"
  ensure (0 < config.subscriptions.refreshIntervalSeconds)
    "subscription refresh interval must be positive"
  ensure (config.ports.main.valid && config.ports.test.valid) "invalid port range"
  ensure (config.ports.main.stop < config.ports.test.start ||
      config.ports.test.stop < config.ports.main.start)
    "main/test port ranges must not overlap"
  ensure (0 < config.api.port) "api.port must be positive"
  ensure (100 ≤ config.retention.systemEventMaxRows)
    "retention.system_event_max_rows must be at least 100"
  ensure (0 < config.health.candidateCycleLimit) "candidate cycle limit must be positive"
  ensure (0 < config.health.xrayConcurrencyMin &&
      config.health.xrayConcurrencyMin ≤ config.health.xrayConcurrencyMax &&
      0 < config.health.downloadConcurrencyMin &&
      config.health.downloadConcurrencyMin ≤ config.health.downloadConcurrencyMax)
    "adaptive concurrency ranges must be positive and ordered"
  ensure (0 < config.health.maxActiveRuntimes) "health.max_active_runtimes must be positive"
  ensure (0 < config.health.httpProbeMaxEndpoints)
    "health.http_probe_max_endpoints must be positive"
  ensure (0 < config.health.httpProbeSuccessQuorum)
    "health.http_probe_success_quorum must be positive"
  ensure (0 < config.health.httpProbeBodyLimitBytes)
    "health.http_probe_body_limit_bytes must be positive"
  ensure (15 * 60 ≤ config.health.activeMinResidenceSeconds &&
      config.health.activeMinResidenceSeconds ≤ 30 * 60)
    "health.active_min_residence_seconds must be between 900 and 1800 seconds"
  ensure (0 < config.downloadTest.timeoutSeconds) "download timeout must be positive"
  ensure (2 ≤ config.selection.sampleSize) "selection sample size must be at least 2"

/-- An error with what was going on, the outermost first. A refusal of the library stands without
the place where it was found. -/
abbrev ErrorChain := List String

/-- What `load` does with the document of a file. -/
def AppConfig.loadDocument (lib : YamlLibrary σ F) (env : Environment) (value : Document σ) :
    Except ErrorChain (AppConfig F) := do
  (inspectMapping value "").2.mapError fun error => [error]
  let config ← (AppConfig.read lib value).mapError fun error =>
    ["parsing YAML configuration", error]
  let config ← (config.applyEnvironment env).mapError fun error => [error]
  config.validate.mapError fun error => [error]
  return config

def AppConfig.load (lib : YamlLibrary σ F) (env : Environment) (path : String)
    (file : Except String Text) : Except ErrorChain (AppConfig F) := do
  let raw ← file.mapError fun error => ["reading " ++ path, error]
  let value ← (lib.document raw).mapError fun error => ["parsing YAML configuration", error]
  AppConfig.loadDocument lib env value

end Loading

section Prunes

variable {σ F α β : Type} (lib : YamlLibrary σ F)

theorem layout_sound : layout.Sound where
  mappings := by
    intro path key hkey
    simp only [layout, nestedMappingKeys] at hkey ⊢
    split at hkey
    · exact List.mem_append_left ["assignment_ttl_seconds", "xray_bin"] hkey
    · exact hkey
    · exact hkey
    · exact List.mem_append_right ["strategy", "sample_size"] hkey
    · cases hkey
  sequences := by
    intro path item hitem
    simp only [layout, nestedSequenceKeys] at hitem ⊢
    split at hitem
    · obtain rfl := List.mem_singleton.mp hitem
      exact ⟨by simp [knownKeys], rfl⟩
    · obtain rfl := List.mem_singleton.mp hitem
      exact ⟨by simp [knownKeys], rfl⟩
    · cases hitem

theorem ServiceConfig.reads : layout.Reads "service" (ServiceConfig.read lib) :=
  readStruct_reads_flat layout_sound _ _ _ rfl rfl rfl

theorem DatabaseConfig.reads : layout.Reads "database" (DatabaseConfig.read lib) :=
  readStruct_reads_flat layout_sound _ _ _ rfl rfl rfl

theorem HealthConfig.reads : layout.Reads "health" (HealthConfig.read lib) :=
  readStruct_reads_flat layout_sound _ _ _ rfl rfl rfl

theorem MetadataConfig.reads : layout.Reads "metadata" (MetadataConfig.read lib) :=
  readStruct_reads_flat layout_sound _ _ _ rfl rfl rfl

theorem DeadPoolConfig.reads : layout.Reads "dead_pool" (DeadPoolConfig.read lib) :=
  readStruct_reads_flat layout_sound _ _ _ rfl rfl rfl

theorem ApiConfig.reads : layout.Reads "api" (ApiConfig.read lib) :=
  readStruct_reads_flat layout_sound _ _ _ rfl rfl rfl

theorem SentinelTarget.reads :
    layout.Reads "network_guard.sentinel_targets[]" (SentinelTarget.read lib) :=
  readStruct_reads_flat layout_sound _ _ _ rfl rfl rfl

theorem RetentionConfig.reads : layout.Reads "retention" (RetentionConfig.read lib) :=
  readStruct_reads_flat layout_sound _ _ _ rfl rfl rfl

theorem SubscriptionSource.reads :
    layout.Reads "subscriptions.urls[]" (SubscriptionSource.read lib) :=
  .bind (readStruct_reads_flat layout_sound _ _ _ rfl rfl rfl) _

theorem PortRange.reads {path : String} (h : path ∈ ["ports.main", "ports.test"]) :
    layout.Reads path (PortRange.read lib) := by
  simp only [List.mem_cons, List.not_mem_nil, or_false] at h
  rcases h with rfl | rfl <;> exact .bind (readStruct_reads_flat layout_sound _ _ _ rfl rfl rfl) _

theorem PenaltyRule.reads {path : String}
    (h : path ∈ ["client_penalty.broken", "client_penalty.rate_limited"]) :
    layout.Reads path (PenaltyRule.read lib) := by
  simp only [List.mem_cons, List.not_mem_nil, or_false] at h
  rcases h with rfl | rfl <;> exact .bind (readStruct_reads_flat layout_sound _ _ _ rfl rfl rfl) _

theorem PortsConfig.reads :
    layout.Reads "ports" (PortsConfig.read lib) := by
  refine readStruct_reads layout_sound _ _ _ rfl ?_
  simp only [PortsConfig.fields, List.forall_mem_cons]
  refine ⟨?_, ?_, by simp⟩
  · exact fits_mapping rfl (PortRange.reads lib (by decide))
  · exact fits_mapping rfl (PortRange.reads lib (by decide))

theorem SubscriptionConfig.reads :
    layout.Reads "subscriptions" (SubscriptionConfig.read lib) := by
  refine readStruct_reads layout_sound _ _ _ rfl ?_
  simp only [SubscriptionConfig.fields, List.forall_mem_cons]
  refine ⟨?_, ?_, ?_, by simp⟩
  · exact fits_field rfl
  · exact fits_field rfl
  · exact fits_items rfl (SubscriptionSource.reads lib)

theorem NetworkGuardConfig.reads :
    layout.Reads "network_guard" (NetworkGuardConfig.read lib) := by
  refine readStruct_reads layout_sound _ _ _ rfl ?_
  simp only [NetworkGuardConfig.fields, List.forall_mem_cons]
  refine ⟨?_, ?_, ?_, ?_, ?_, ?_, ?_, ?_, by simp⟩
  · exact fits_field rfl
  · exact fits_field rfl
  · exact fits_field rfl
  · exact fits_field rfl
  · exact fits_field rfl
  · exact fits_field rfl
  · exact fits_field rfl
  · exact fits_items rfl (SentinelTarget.reads lib)

variable [F64 F]

theorem PublishingConfig.reads : layout.Reads "publishing" (PublishingConfig.read lib) :=
  readStruct_reads_flat layout_sound _ _ _ rfl rfl rfl

theorem DownloadTestConfig.reads :
    layout.Reads "download_test" (DownloadTestConfig.read lib) :=
  readStruct_reads_flat layout_sound _ _ _ rfl rfl rfl

theorem SelectionWeights.reads :
    layout.Reads "selection.weights" (SelectionWeights.read lib) :=
  readStruct_reads_flat layout_sound _ _ _ rfl rfl rfl

theorem VipPortConfig.reads : layout.Reads "vip_port" (VipPortConfig.read lib) :=
  readStruct_reads_flat layout_sound _ _ _ rfl rfl rfl

theorem ClientPenaltyConfig.reads :
    layout.Reads "client_penalty" (ClientPenaltyConfig.read lib) := by
  refine readStruct_reads layout_sound _ _ _ rfl ?_
  simp only [ClientPenaltyConfig.fields, List.forall_mem_cons]
  refine ⟨?_, ?_, by simp⟩
  · exact fits_mapping rfl (PenaltyRule.reads lib (by decide))
  · exact fits_mapping rfl (PenaltyRule.reads lib (by decide))

theorem SelectionConfig.reads :
    layout.Reads "selection" (SelectionConfig.read lib) := by
  refine readStruct_reads layout_sound _ _ _ rfl ?_
  simp only [SelectionConfig.fields, List.forall_mem_cons]
  refine ⟨?_, ?_, ?_, by simp⟩
  · exact fits_field rfl
  · exact fits_field rfl
  · exact fits_mapping rfl (SelectionWeights.reads lib)

theorem AppConfig.reads :
    layout.Reads "" (AppConfig.read lib) := by
  refine readStruct_reads layout_sound _ _ _ rfl ?_
  simp only [AppConfig.fields, List.forall_mem_cons]
  refine ⟨?_, ?_, ?_, ?_, ?_, ?_, ?_, ?_, ?_, ?_, ?_, ?_, ?_, ?_, ?_, ?_, ?_, by simp⟩
  · exact fits_mapping rfl (ServiceConfig.reads lib)
  · exact fits_mapping rfl (PublishingConfig.reads lib)
  · exact fits_mapping rfl (SubscriptionConfig.reads lib)
  · exact fits_mapping rfl (PortsConfig.reads lib)
  · exact fits_mapping rfl (DatabaseConfig.reads lib)
  · exact fits_mapping rfl (HealthConfig.reads lib)
  · exact fits_mapping rfl (MetadataConfig.reads lib)
  · exact fits_mapping rfl (DownloadTestConfig.reads lib)
  · exact fits_mapping rfl (DeadPoolConfig.reads lib)
  · exact fits_mapping rfl (ClientPenaltyConfig.reads lib)
  · exact fits_mapping rfl (SelectionConfig.reads lib)
  · exact fits_mapping rfl (ApiConfig.reads lib)
  · exact fits_mapping rfl (VipPortConfig.reads lib)
  · exact fits_mapping rfl (NetworkGuardConfig.reads lib)
  · exact fits_mapping rfl (RetentionConfig.reads lib)
  · exact fits_field rfl
  · exact fits_field rfl

end Prunes

section Loads

variable {σ F : Type} [F64 F] (lib : YamlLibrary σ F) (env : Environment) (path : String)

/-- The inspection fails for the same section if it fails, with and without scalar keys that are
not known. -/
theorem inspectMapping_prune (value : Document σ) :
    (inspectMapping (layout.prune value "") "").2 = (inspectMapping value "").2 := by
  simp only [inspectMapping, Layout.walk_prune_stopped layout_sound]

theorem inspectMapping_prune_quiet {value : Document σ} (plain : layout.PlainKeys value "") :
    (inspectMapping (layout.prune value "") "").1 = [] :=
  Layout.walk_prune_unknown layout_sound plain

theorem inspectMapping_ok (value : Document σ) :
    (inspectMapping value "").2 = .ok () ↔ layout.Shaped value "" := by
  rw [← Layout.walk_stopped_iff]
  cases hstopped : (layout.walk value "").stopped <;> simp [inspectMapping, hstopped]

variable {lib env path} in
theorem load_document {raw : Text} {value : Document σ} (h : lib.document raw = .ok value) :
    AppConfig.load lib env path (.ok raw) = AppConfig.loadDocument lib env value := by
  show ((lib.document raw).mapError fun error => ["parsing YAML configuration", error]) >>= _ = _
  rw [h]
  rfl

/-- A configuration that loads has no sequence or mapping for a key. -/
theorem plainKeys_of_load {raw : Text} {value : Document σ} (h : lib.document raw = .ok value)
    {config : AppConfig F} (loaded : AppConfig.load lib env path (.ok raw) = .ok config) :
    layout.PlainKeys value "" := by
  rw [load_document h] at loaded
  unfold AppConfig.loadDocument at loaded
  cases hinspect : (inspectMapping value "").2 with
  | error error =>
    rw [hinspect] at loaded
    cases loaded
  | ok _ =>
    cases hread : AppConfig.read lib value with
    | error error =>
      rw [hinspect, hread] at loaded
      cases loaded
    | ok read => exact (AppConfig.reads lib).plain value read hread

/-- Two files that differ only in unknown keys that are scalars are loaded alike, or refused alike
up to the place that an error names. Without a key that is a sequence or a mapping, what is
reported is exactly what has no effect, and with one a file is refused. -/
theorem unknown_keys_ignored {raw raw' : Text} {value value' : Document σ}
    (hraw : lib.document raw = .ok value) (hraw' : lib.document raw' = .ok value')
    (same : layout.prune value "" = layout.prune value' "") :
    AppConfig.load lib env path (.ok raw) = AppConfig.load lib env path (.ok raw') ∧
      (layout.PlainKeys value "" → (inspectMapping (layout.prune value "") "").1 = []) ∧
      (Layout.Distinct value → (inspectMapping value "").2 = .ok () →
        ((inspectMapping value "").1 = [] ↔
          layout.PlainKeys value "" ∧ layout.prune value "" = value)) ∧
      (¬ layout.PlainKeys value "" →
        ∀ config, AppConfig.load lib env path (.ok raw) ≠ .ok config) := by
  have hinspect : (inspectMapping value "").2 = (inspectMapping value' "").2 := by
    rw [← inspectMapping_prune value, same, inspectMapping_prune]
  have hread : AppConfig.read lib value = AppConfig.read lib value' := by
    rw [← (AppConfig.reads lib).prune value, same, (AppConfig.reads lib).prune value']
  refine ⟨?_, inspectMapping_prune_quiet, ?_, ?_⟩
  · rw [load_document hraw, load_document hraw']
    simp only [AppConfig.loadDocument, hinspect, hread]
  · intro hdistinct hok
    constructor
    · intro hnone
      have hstopped : (layout.walk value "").stopped = none :=
        (Layout.walk_stopped_iff _ _ _).mpr ((inspectMapping_ok value).mp hok)
      exact ⟨Layout.plainKeys_of_walk value "" hstopped hnone,
        Layout.prune_eq_self value "" hdistinct hstopped hnone⟩
    · rintro ⟨hplain, hsame⟩
      have hquiet := inspectMapping_prune_quiet hplain
      rwa [hsame] at hquiet
  · intro hnested config hloaded
    exact hnested (plainKeys_of_load lib env path hraw hloaded)

end Loads

section TypoExample

/-- A file with a single source. -/
def plainFile : Text :=
  ("subscriptions:\n  refresh_interval_seconds: 300\n" ++
    "  urls:\n    - name: sub_1\n      url: https://feed.example/sub.txt\n").toList

/-- The same with a misspelled section, a misspelled key and a number for a key. -/
def typoFile : Text :=
  ("7: seven\nservise:\n  name: fleet\nsubscriptions:\n  refresh_interval_seconds: 300\n" ++
    "  prune_missing: 2\n" ++
    "  urls:\n    - name: sub_1\n      url: https://feed.example/sub.txt\n").toList

def sampleSources : Document String :=
  .sequence [.mapping [
    (.text "name", .scalar "sub_1"), (.text "url", .scalar "https://feed.example/sub.txt")]]

def plainDocument : Document String :=
  .mapping [(.text "subscriptions", .mapping [
    (.text "refresh_interval_seconds", .scalar "300"), (.text "urls", sampleSources)])]

def typoDocument : Document String :=
  .mapping [
    (.scalar "7", .scalar "seven"),
    (.text "servise", .mapping [(.text "name", .scalar "fleet")]),
    (.text "subscriptions", .mapping [
      (.text "refresh_interval_seconds", .scalar "300"), (.text "prune_missing", .scalar "2"),
      (.text "urls", sampleSources)])]

/-- A library that knows the two files, and reads the scalars that are in them. -/
def sampleLibrary : YamlLibrary String ℚ where
  document raw :=
    if raw = plainFile then .ok plainDocument
    else if raw = typoFile then .ok typoDocument
    else .error "did not find expected node content"
  bool _ := .error "invalid type, expected a boolean"
  u8 _ := .error "invalid type, expected u8"
  u16 _ := .error "invalid type, expected u16"
  u32 _ := .error "invalid type, expected u32"
  u64 value := match value with
    | .scalar digits => .ok (UInt64.ofNat (numberValue 10 digits.toList))
    | _ => .error "invalid type, expected u64"
  f64 _ := .error "invalid type, expected f64"
  text value := match value with
    | .scalar text => .ok text
    | _ => .error "invalid type, expected a string"
  optionalU32 _ := .error "invalid type, expected u32"
  plainSequence _ := .error "invalid type, expected a sequence"
  plainMapping _ := .error "invalid type, expected a struct"
  nestedKey := "invalid type, expected field identifier"
  missingField name := "missing field " ++ name

theorem document_typoFile : sampleLibrary.document typoFile = .ok typoDocument := by
  have hother : typoFile ≠ plainFile := by decide +kernel
  simp only [sampleLibrary, if_neg hother, if_true]

theorem document_plainFile : sampleLibrary.document plainFile = .ok plainDocument := by
  simp only [sampleLibrary, if_true]

theorem unknown_keys_ignored_typo :
    AppConfig.load sampleLibrary (fun _ => none) "config.yml" (.ok typoFile) =
      AppConfig.load sampleLibrary (fun _ => none) "config.yml" (.ok plainFile) := by
  have hsame : layout.prune typoDocument "" = layout.prune plainDocument "" := by
    simp [typoDocument, plainDocument, Layout.prune_mapping, Layout.pruneEntries, Layout.isKept,
      Layout.isKnown, Key.asStr, Key.isNested, layout, knownKeys, Layout.pruneAt, Layout.role,
      nestedMappingKeys]
  exact (unknown_keys_ignored sampleLibrary _ _ document_typoFile document_plainFile hsame).1

end TypoExample

section Validity

variable {σ F : Type} [F64 F]

/-- What `validate` demands. -/
structure AppConfig.Valid (config : AppConfig F) : Prop where
  sources : config.subscriptions.urls ≠ []
  refreshInterval : 0 < config.subscriptions.refreshIntervalSeconds
  mainRange : 0 < config.ports.main.start ∧ config.ports.main.start ≤ config.ports.main.stop
  testRange : 0 < config.ports.test.start ∧ config.ports.test.start ≤ config.ports.test.stop
  disjoint : config.ports.main.stop < config.ports.test.start ∨
    config.ports.test.stop < config.ports.main.start
  apiPort : 0 < config.api.port
  eventRows : 100 ≤ config.retention.systemEventMaxRows
  cycleLimit : 0 < config.health.candidateCycleLimit
  xray_ordered : 0 < config.health.xrayConcurrencyMin ∧
    config.health.xrayConcurrencyMin ≤ config.health.xrayConcurrencyMax
  download_ordered : 0 < config.health.downloadConcurrencyMin ∧
    config.health.downloadConcurrencyMin ≤ config.health.downloadConcurrencyMax
  activeRuntimes : 0 < config.health.maxActiveRuntimes
  probeEndpoints : 0 < config.health.httpProbeMaxEndpoints
  probeQuorum : 0 < config.health.httpProbeSuccessQuorum
  probeBody : 0 < config.health.httpProbeBodyLimitBytes
  residence : 15 * 60 ≤ config.health.activeMinResidenceSeconds ∧
    config.health.activeMinResidenceSeconds ≤ 30 * 60
  downloadTimeout : 0 < config.downloadTest.timeoutSeconds
  sampleSize : 2 ≤ config.selection.sampleSize

omit [F64 F] in
theorem ensure_ok {condition : Bool} {message : String} :
    ensure condition message = .ok () ↔ condition = true := by
  cases condition <;> simp [ensure]

omit [F64 F] in
theorem ensure_bind {condition : Bool} {message : String} {rest : Unit → Except String Unit} :
    (ensure condition message >>= rest) = .ok () ↔ condition = true ∧ rest () = .ok () := by
  cases condition
  · simp only [ensure, Bool.false_eq_true, if_false, false_and, iff_false]
    rintro ⟨⟩
  · simp only [ensure, if_true, true_and]
    rfl

theorem AppConfig.validate_ok_iff (config : AppConfig F) :
    config.validate = .ok () ↔ config.Valid := by
  simp only [AppConfig.validate, ensure_bind, ensure_ok, PortRange.valid, Bool.and_eq_true,
    Bool.or_eq_true, decide_eq_true_eq, Bool.not_eq_true', List.isEmpty_eq_false_iff]
  constructor
  · rintro ⟨hsources, hrefresh, ⟨hmain, htest⟩, hdisjoint, hport, hrows, hcycle,
      ⟨⟨⟨hxray, hxray'⟩, hdownload⟩, hdownload'⟩, hruntimes, hendpoints, hquorum, hbody,
      hresidence, htimeout, hsample⟩
    exact ⟨hsources, hrefresh, hmain, htest, hdisjoint, hport, hrows, hcycle, ⟨hxray, hxray'⟩,
      ⟨hdownload, hdownload'⟩, hruntimes, hendpoints, hquorum, hbody, hresidence, htimeout,
      hsample⟩
  · intro h
    exact ⟨h.sources, h.refreshInterval, ⟨h.mainRange, h.testRange⟩, h.disjoint, h.apiPort,
      h.eventRows, h.cycleLimit,
      ⟨⟨⟨h.xray_ordered.1, h.xray_ordered.2⟩, h.download_ordered.1⟩, h.download_ordered.2⟩,
      h.activeRuntimes, h.probeEndpoints, h.probeQuorum, h.probeBody, h.residence,
      h.downloadTimeout, h.sampleSize⟩

end Validity

section Governed

variable {σ F : Type} [F64 F] {lib : YamlLibrary σ F} {env : Environment} {path : String}
variable {config : AppConfig F}

/-- The configuration with what the environment says in place of what was read. -/
structure AppConfig.Overridden (env : Environment) (config read : AppConfig F) : Prop where
  port : ∃ port, envNumber env "PROXY_FLEET_API_PORT" = .ok port ∧
    config.api.port = port.getD read.api.port
  enabled : ∃ enabled, envBool env "PROXY_FLEET_PUBLISHING_ENABLED" = .ok enabled ∧
    config.publishing.enabled = enabled.getD read.publishing.enabled
  host : config.api.host = ((env "PROXY_FLEET_API_HOST").map String.ofList).getD read.api.host
  databasePath : config.database.path =
    ((env "PROXY_FLEET_DATABASE_PATH").map String.ofList).getD read.database.path
  xrayBin : config.xrayBin = ((env "PROXY_FLEET_XRAY_BIN").map String.ofList).getD read.xrayBin
  others : config = { read with
    api := { read.api with host := config.api.host, port := config.api.port }
    database := { read.database with path := config.database.path }
    xrayBin := config.xrayBin
    publishing := { read.publishing with enabled := config.publishing.enabled } }

theorem AppConfig.applyEnvironment_ok_iff {read : AppConfig F} :
    read.applyEnvironment env = .ok config ↔ config.Overridden env read := by
  constructor
  · intro h
    unfold AppConfig.applyEnvironment at h
    cases hport : envNumber env "PROXY_FLEET_API_PORT" with
    | error error =>
      rw [hport] at h
      cases h
    | ok port =>
      cases henabled : envBool env "PROXY_FLEET_PUBLISHING_ENABLED" with
      | error error =>
        rw [hport, henabled] at h
        cases h
      | ok enabled =>
        rw [hport, henabled] at h
        cases h
        exact ⟨⟨port, hport, rfl⟩, ⟨enabled, henabled, rfl⟩, rfl, rfl, rfl, rfl⟩
  · intro h
    obtain ⟨port, hport, hsetPort⟩ := h.port
    obtain ⟨enabled, henabled, hsetEnabled⟩ := h.enabled
    unfold AppConfig.applyEnvironment
    rw [hport, henabled, h.others, hsetPort, hsetEnabled, h.host, h.databasePath, h.xrayBin]
    rfl

omit [F64 F] in
theorem mapError_bind_iff {α β ε ε' : Type} {f : ε → ε'} {r : Except ε α} {next : α → Except ε' β}
    {b : β} : (r.mapError f >>= next) = .ok b ↔ ∃ a, r = .ok a ∧ next a = .ok b := by
  cases r with
  | error error =>
    constructor
    · intro h
      cases h
    · rintro ⟨_, h, -⟩
      cases h
  | ok a =>
    constructor
    · intro h
      exact ⟨a, rfl, h⟩
    · rintro ⟨_, h, hnext⟩
      cases h
      exact hnext

/-- What a configuration that is loaded has gone through. -/
theorem AppConfig.load_ok_iff {file : Except String Text} :
    AppConfig.load lib env path file = .ok config ↔ ∃ raw value read,
      file = .ok raw ∧ lib.document raw = .ok value ∧ layout.Shaped value "" ∧
        AppConfig.read lib value = .ok read ∧ config.Overridden env read ∧ config.Valid := by
  constructor
  · intro h
    obtain ⟨raw, hraw, h⟩ := mapError_bind_iff.mp h
    obtain ⟨value, hvalue, h⟩ := mapError_bind_iff.mp h
    obtain ⟨⟨⟩, hinspect, h⟩ := mapError_bind_iff.mp h
    obtain ⟨read, hread, h⟩ := mapError_bind_iff.mp h
    obtain ⟨config', hconfig, h⟩ := mapError_bind_iff.mp h
    obtain ⟨⟨⟩, hvalid, h⟩ := mapError_bind_iff.mp h
    obtain rfl := Except.ok.inj h
    exact ⟨raw, value, read, hraw, hvalue, (inspectMapping_ok value).mp hinspect, hread,
      AppConfig.applyEnvironment_ok_iff.mp hconfig, (AppConfig.validate_ok_iff _).mp hvalid⟩
  · rintro ⟨raw, value, read, rfl, hvalue, hshaped, hread, hconfig, hvalid⟩
    rw [load_document hvalue]
    refine mapError_bind_iff.mpr ⟨(), (inspectMapping_ok value).mpr hshaped, ?_⟩
    refine mapError_bind_iff.mpr ⟨read, hread, ?_⟩
    refine mapError_bind_iff.mpr ⟨config, AppConfig.applyEnvironment_ok_iff.mpr hconfig, ?_⟩
    exact mapError_bind_iff.mpr ⟨(), (AppConfig.validate_ok_iff _).mpr hvalid, rfl⟩

def SentinelTarget.model (target : SentinelTarget) : ProxyFleet.SentinelTarget where
  kind := target.kind.toList
  host := target.host
  port := target.port.toNat
  url := target.url

def NetworkGuardConfig.model (guard : NetworkGuardConfig) : ProxyFleet.NetworkGuardConfig where
  enabled := guard.enabled
  failureThreshold := guard.failureThreshold.toNat
  recoveryThreshold := guard.recoveryThreshold.toNat
  minimumSuccessfulTargets := guard.minimumSuccessfulTargets.toNat
  requireHttpSuccess := guard.requireHttpSuccess
  massFailureThresholdPercent := guard.massFailureThresholdPercent.toNat
  sentinelTargets := guard.sentinelTargets.map SentinelTarget.model
  failureThreshold_le := Nat.le_of_lt_succ guard.failureThreshold.toNat_lt
  recoveryThreshold_le := Nat.le_of_lt_succ guard.recoveryThreshold.toNat_lt
  massFailureThresholdPercent_le :=
    Nat.le_of_lt_succ guard.massFailureThresholdPercent.toNat_lt

/-- The limits of the services, which a valid configuration puts in order. -/
def AppConfig.services (config : AppConfig F) (valid : config.Valid) :
    ProxyFleet.ServiceConfig where
  health :=
    { xrayConcurrencyMin := config.health.xrayConcurrencyMin.toNat
      xrayConcurrencyMax := config.health.xrayConcurrencyMax.toNat
      downloadConcurrencyMin := config.health.downloadConcurrencyMin.toNat
      downloadConcurrencyMax := config.health.downloadConcurrencyMax.toNat
      maxRelayDelayMs := config.health.maxRelayDelayMs.toNat
      xray_ordered := valid.xray_ordered
      download_ordered := valid.download_ordered }
  networkGuard := config.networkGuard.model

/-- A configuration that loads is what is read from sections that are mappings, with what the
environment says, and is valid. The services that are started with it never leave its limits, and
no port is both a main and a test port. -/
theorem loaded_config_governs [F64Floor F] (shrinks : Shrinks F) {file : Except String Text}
    (loaded : AppConfig.load lib env path file = .ok config) :
    (∃ raw value read, file = .ok raw ∧ lib.document raw = .ok value ∧ layout.Shaped value "" ∧
      AppConfig.read lib value = .ok read ∧ config.Overridden env read) ∧
    ∃ valid : config.Valid,
      (∀ s : Services F, Services.Reachable (config.services valid) s →
        s.WithinLimits (config.services valid).health) ∧
      ∀ port : UInt16, config.ports.main.start ≤ port → port ≤ config.ports.main.stop →
        ¬ (config.ports.test.start ≤ port ∧ port ≤ config.ports.test.stop) := by
  obtain ⟨raw, value, read, hraw, hvalue, hshaped, hread, hconfig, hvalid⟩ :=
    AppConfig.load_ok_iff.mp loaded
  refine ⟨⟨raw, value, read, hraw, hvalue, hshaped, hread, hconfig⟩, hvalid, ?_, ?_⟩
  · rintro s ⟨past, hpast, rfl⟩
    exact run_invariant (fun _ _ hpossible h => h.step shrinks hpossible)
      (Services.withinLimits_initial _) hpast
  · rintro port hstart hstop ⟨hstart', hstop'⟩
    rcases hvalid.disjoint with hbefore | hafter
    · exact absurd (UInt16.lt_of_le_of_lt hstop hbefore) (UInt16.not_lt.mpr hstart')
    · exact absurd (UInt16.lt_of_le_of_lt hstop' hafter) (UInt16.not_lt.mpr hstart)

end Governed

section PlainExample

/-- What is read from the file with a single source. -/
def plainConfig : AppConfig ℚ where
  subscriptions :=
    { refreshIntervalSeconds := 300, urls := [⟨"sub_1", "https://feed.example/sub.txt"⟩] }

theorem load_plainFile :
    AppConfig.load sampleLibrary (fun _ => none) "config.yml" (.ok plainFile) =
      .ok plainConfig := by
  refine AppConfig.load_ok_iff.mpr
    ⟨_, _, plainConfig, rfl, document_plainFile, ?_, rfl, ?_, ?_⟩
  · rw [← Layout.walk_stopped_iff]
    simp [plainDocument, sampleSources, Layout.walk_mapping, Layout.children, layout,
      nestedMappingKeys, nestedSequenceKeys, SectionTrees.get, Walk.andThen]
  · exact ⟨⟨none, rfl, rfl⟩, ⟨none, rfl, rfl⟩, rfl, rfl, rfl, rfl⟩
  · rw [← AppConfig.validate_ok_iff]
    rfl

theorem loaded_config_governs_plain : ∃ valid : plainConfig.Valid,
    ∀ s : Services ℚ, Services.Reachable (plainConfig.services valid) s →
      s.WithinLimits (plainConfig.services valid).health := by
  obtain ⟨-, valid, hlimits, -⟩ := loaded_config_governs shrinks_rat load_plainFile
  exact ⟨valid, hlimits⟩

end PlainExample

end ProxyFleet.Config
