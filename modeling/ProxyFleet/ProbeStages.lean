import ProxyFleet.BackgroundServices
import ProxyFleet.XrayOutbound
import Mathlib.Data.Int.Log

/-!
# The stages of a probe

A probe resolves the destination of a proxy and connects to it, and then requests pages and
downloads through Xray. The clock and the network are the environment's: each reading of the
clock, in nanoseconds, has its own name, and an answer depends on the time that was granted
for it. A probe notes its network attempts, and the checks of its budget that found nothing
left.
-/
namespace ProxyFleet

/-- What a call under a timeout ended with. -/
inductive Timed (α : Type) where
  | answered (value : α)
  | elapsed

/-- A network attempt of a stage, or a check of the budget that kept the stage from one. -/
inductive ProbeStep where
  | attempt (stage : TestStage) (now : ℕ)
  | expired (stage : TestStage) (now : ℕ)
  deriving DecidableEq

def ProbeStep.stage : ProbeStep → TestStage
  | .attempt stage _ | .expired stage _ => stage

/-- The moment of a request through Xray. -/
def ProbeStep.relayedAt : ProbeStep → Option ℕ
  | .attempt .relay now => some now
  | _ => none

/-- What a probe reports, what it did on the network, and when it ended. -/
structure ProbeOutcome (F : Type) where
  events : List (ProbeEvent F)
  steps : List ProbeStep
  endedAt : ℕ

/-- The conversions of floats that a probe needs. -/
class F64Convert (F : Type) where
  /-- `Duration::from_secs_f64`. -/
  fromSecs : F → ℕ
  /-- `f64::to_bits`. -/
  toBits : F → UInt64

/-- The nearest whole number, and the even one of two. -/
def roundEven (q : ℚ) : ℤ :=
  let rest := q - ⌊q⌋
  if rest < 1 / 2 ∨ rest = 1 / 2 ∧ 2 ∣ ⌊q⌋ then ⌊q⌋ else ⌊q⌋ + 1

/-- The bits of the nearest number with 52 bits behind its leading one. -/
def binary64 (q : ℚ) : UInt64 :=
  if q = 0 then 0
  else
    let exponent := Int.log 2 |q|
    let significand := roundEven (|q| * 2 ^ (52 - exponent))
    let sign : ℤ := if q < 0 then 2 ^ 63 else 0
    .ofNat (sign + (exponent + 1022) * 2 ^ 52 + significand).toNat

instance : F64Convert ℚ where
  fromSecs q := (roundEven (q * 10 ^ 9)).toNat
  toBits := binary64

example : binary64 (3 / 2) = 0x3FF8000000000000 := by decide +kernel

namespace FailureClass

def asStr : FailureClass → String
  | .invalidConfig => "INVALID_CONFIG"
  | .xrayStartFailed => "XRAY_START_FAILED"
  | .dnsFailure => "DNS_FAILURE"
  | .tcpTimeout => "TCP_TIMEOUT"
  | .connectionRefused => "CONNECTION_REFUSED"
  | .tlsTimeout => "TLS_TIMEOUT"
  | .relayTimeout => "RELAY_TIMEOUT"
  | .httpFailure => "HTTP_FAILURE"
  | .downloadTimeout => "DOWNLOAD_TIMEOUT"
  | .downloadTooSlow => "DOWNLOAD_TOO_SLOW"
  | .localOverload => "LOCAL_OVERLOAD"
  | .endpointFailure => "ENDPOINT_FAILURE"
  | .success => "SUCCESS"

end FailureClass

/-- The part of the health configuration that a probe reads. -/
structure ProbeHealthConfig where
  candidateBatchTimeoutSeconds : ℕ := 20
  relayTimeoutMs : ℕ := 3000
  httpProbeBodyLimitBytes : ℕ := 16 * 1024
  httpProbeMaxEndpoints : ℕ := 2
  httpProbeSuccessQuorum : ℕ := 1
  testUrl : String := "https://www.cloudflare.com/cdn-cgi/trace"
  fallbackUrls : List String :=
    ["https://www.gstatic.com/generate_204", "https://www.google.com/generate_204"]

structure PortRange where
  start : ℕ := 32000
  stop : ℕ := 39999

section

variable (F : Type) [F64 F]

structure DownloadTestConfig where
  enabled : Bool := true
  timeoutSeconds : ℕ := 5
  perUrlTimeoutSeconds : F := F64.ofRat (3 / 2)
  minDownloadKbps : ℕ := 100
  targetDownloadKbps : ℕ := 1000
  testUrl : String := "https://proof.ovh.net/files/1Mb.dat"
  fallbackUrls : List String := []

/-- The part of the configuration that a probe reads. -/
structure ProbeConfig where
  health : ProbeHealthConfig := {}
  downloadTest : DownloadTestConfig F := {}
  testPorts : PortRange := {}

end

namespace Duration

def fromSecs (seconds : ℕ) : ℕ := seconds * 10 ^ 9

def fromMillis (milliseconds : ℕ) : ℕ := milliseconds * 10 ^ 6

def asMillis (duration : ℕ) : ℕ := duration / 10 ^ 6

def asSecsF64 {F : Type} [F64 F] (duration : ℕ) : F :=
  F64.add (F64.ofInt (duration / 10 ^ 9 : ℕ))
    (F64.div (F64.ofInt (duration % 10 ^ 9 : ℕ)) (F64.ofInt (10 ^ 9)))

end Duration

/-- What is left of the budget of a probe. -/
def remainingBudget (deadline now : ℕ) : Option ℕ :=
  let remaining := deadline - now
  if remaining = 0 then none else some remaining

theorem remainingBudget_eq_none {deadline now : ℕ} :
    remainingBudget deadline now = none ↔ deadline ≤ now := by
  simp [remainingBudget, Nat.sub_eq_zero_iff_le]

theorem remainingBudget_eq_some {deadline now remaining : ℕ} :
    remainingBudget deadline now = some remaining ↔
      now < deadline ∧ remaining = deadline - now := by
  simp only [remainingBudget]
  split
  · simp only [reduceCtorEq, false_iff]
    omega
  · simp only [Option.some.injEq]
    omega

/-- The address and the port of a destination. -/
abbrev SocketAddr := String × ℕ

/-- The addresses of a resolved destination. There is at least one. -/
abbrev Addresses := { addresses : List SocketAddr // addresses ≠ [] }

def Addresses.first (addresses : Addresses) : SocketAddr := addresses.1.head addresses.2

structure ConnectError where
  refused : Bool
  text : String

/-- What a probe meets before Xray: the clock, the cached addresses with the moment of their
lookup, the resolver and the destination. -/
structure PreflightView where
  tcpStarted : ℕ
  cacheReadAt : ℕ
  cached : Option (ℕ × Addresses)
  dnsCheckedAt : ℕ
  lookupHost : ℕ → Timed (Except String (List SocketAddr))
  lookupEndedAt : ℕ
  tcpCheckedAt : ℕ
  connect : SocketAddr → ℕ → Timed (Except ConnectError Unit)
  connectEndedAt : ℕ

def dnsCacheTtl : ℕ := Duration.fromSecs (5 * 60)

/-- The cached addresses, unless they are too old. -/
def PreflightView.freshAddresses (view : PreflightView) : Option Addresses :=
  (view.cached.filter fun entry => view.cacheReadAt - entry.1 < dnsCacheTtl).map Prod.snd

section Preflight

variable {F : Type} [F64 F]

def probeDeadline (config : ProbeConfig F) (now : ℕ) : ℕ :=
  now + Duration.fromSecs (max (max config.health.candidateBatchTimeoutSeconds
    config.downloadTest.timeoutSeconds) 1)

def event (stage : TestStage) (failureClass : FailureClass) (duration : Option ℕ)
    (detail : List (String × Json)) : ProbeEvent F where
  stage := stage
  failureClass := failureClass
  latencyMs := duration.map fun item => F64.mul (Duration.asSecsF64 item) (F64.ofInt 1000)
  durationMs := duration.map fun item => (Duration.asMillis item : ℤ)
  detail := Json.ofFields detail

def dnsFailure (error scope : String) : ProbeEvent F :=
  event .dnsTcp .dnsFailure none [("error", .string error), ("scope", .string scope)]

/-- The addresses of the destination and where they are from. -/
def resolveDestination (address : String) (port : ℕ) (deadline : ℕ)
    (view : PreflightView) :
    Except (ProbeOutcome F) (List ProbeStep × Addresses × String) :=
  if AddressSyntax.isIpAddr address.toList then
    .ok ([], ⟨[(address, port)], List.cons_ne_nil _ _⟩, "literal")
  else
    match view.freshAddresses with
    | some addresses => .ok ([], addresses, "cache")
    | none =>
      match remainingBudget deadline view.dnsCheckedAt with
      | none =>
        .error ⟨[dnsFailure "global probe deadline exceeded before DNS" "local_resolver"],
          [.expired .dnsTcp view.dnsCheckedAt], view.dnsCheckedAt⟩
      | some remaining =>
        let steps := [ProbeStep.attempt .dnsTcp view.dnsCheckedAt]
        let failed (error : String) :
            Except (ProbeOutcome F) (List ProbeStep × Addresses × String) :=
          .error ⟨[dnsFailure error "destination_resolver"], steps, view.lookupEndedAt⟩
        match view.lookupHost (min remaining (Duration.fromSecs 3)) with
        | .answered (.ok []) => failed "no address returned"
        | .answered (.ok (first :: rest)) =>
          .ok (steps, ⟨first :: rest, List.cons_ne_nil _ _⟩, "lookup")
        | .answered (.error error) => failed error
        | .elapsed => failed "DNS timeout"

/-- Whether the destination takes a connection. -/
def preflight (proxy : ParsedProxy) (config : ProbeConfig F) (deadline : ℕ)
    (view : PreflightView) : Except (ProbeOutcome F) (List ProbeStep) :=
  match resolveDestination proxy.address proxy.port deadline view with
  | .error outcome => .error outcome
  | .ok (steps, addresses, dnsDetail) =>
    match remainingBudget deadline view.tcpCheckedAt with
    | none =>
      .error ⟨[event .dnsTcp .tcpTimeout (some (view.tcpCheckedAt - view.tcpStarted))
        [("error", .string "global probe deadline exceeded before TCP")]],
        steps ++ [.expired .dnsTcp view.tcpCheckedAt], view.tcpCheckedAt⟩
    | some remaining =>
      let steps := steps ++ [.attempt .dnsTcp view.tcpCheckedAt]
      let failed (failureClass : FailureClass) (error : String) :
          Except (ProbeOutcome F) (List ProbeStep) :=
        .error ⟨[event .dnsTcp failureClass (some (view.connectEndedAt - view.tcpStarted))
          [("error", .string error), ("dns", .string dnsDetail)]], steps, view.connectEndedAt⟩
      let granted := min remaining (Duration.fromMillis config.health.relayTimeoutMs)
      match view.connect addresses.first granted with
      | .answered (.ok _) => .ok steps
      | .answered (.error error) =>
        failed (if error.refused then .connectionRefused else .tcpTimeout) error.text
      | .elapsed => failed .tcpTimeout "TCP timeout"

end Preflight

end ProxyFleet
