import ProxyFleet.FloatArithmetic

/-!
# Test stages, failure classes and decayed evidence

An observation of a probe carries positive weight `alpha` or negative weight
`beta`, both of which halve once in the observation's half-life. Times and
durations are nanoseconds, the resolution of the service's clock.
-/
namespace ProxyFleet

abbrev Time := ℤ

def seconds (n : ℤ) : Time := n * 1000000000
def minutes (n : ℤ) : Time := seconds (n * 60)
def hours (n : ℤ) : Time := minutes (n * 60)
def days (n : ℤ) : Time := hours (n * 24)

/-- Truncation towards zero, as for a signed duration. -/
def numMilliseconds (d : Time) : ℤ := d.tdiv 1000000

def numSeconds (d : Time) : ℤ := d.tdiv 1000000000

inductive TestStage where
  | static | dnsTcp | relay | http | download
  deriving DecidableEq, Repr

def TestStage.asStr : TestStage → String
  | .static => "STATIC"
  | .dnsTcp => "DNS_TCP"
  | .relay => "RELAY"
  | .http => "HTTP"
  | .download => "DOWNLOAD"

inductive FailureClass where
  | invalidConfig | xrayStartFailed | dnsFailure | tcpTimeout | connectionRefused
  | tlsTimeout | relayTimeout | httpFailure | downloadTimeout | downloadTooSlow
  | localOverload | endpointFailure | success
  deriving DecidableEq, Repr

namespace FailureClass

def inconclusive : FailureClass → Bool
  | .localOverload | .endpointFailure => true
  | _ => false

/-- A class that counts against the node: neither a success nor inconclusive. -/
def conclusiveFailure (c : FailureClass) : Bool := c != .success && !c.inconclusive

@[simp] theorem inconclusive_success : inconclusive .success = false := rfl

theorem ne_success_of_inconclusive {c : FailureClass} (h : c.inconclusive = true) :
    c ≠ .success := by
  rintro rfl
  simp at h

theorem not_conclusiveFailure_of_inconclusive {c : FailureClass} (h : c.inconclusive = true) :
    c.conclusiveFailure = false := by simp [conclusiveFailure, h]

theorem conclusiveFailure_iff {c : FailureClass} :
    c.conclusiveFailure = true ↔ c ≠ .success ∧ c.inconclusive = false := by
  simp [conclusiveFailure]

/-- The three kinds of observation. -/
theorem success_or_inconclusive_or_failure (c : FailureClass) :
    c = .success ∨ c.inconclusive = true ∨ c.conclusiveFailure = true := by
  by_cases hs : c = .success
  · exact .inl hs
  · cases hi : c.inconclusive with
    | true => exact .inr (.inl rfl)
    | false => exact .inr (.inr (conclusiveFailure_iff.mpr ⟨hs, hi⟩))

end FailureClass

structure EvidenceDelta (F : Type) where
  alpha : F
  beta : F
  halfLife : Time

variable {F : Type} [F64 F]

/-- The weight and half-life of one observation. -/
def delta (stage : TestStage) (failureClass : FailureClass) (fastDownload : Bool) :
    EvidenceDelta F :=
  let weighs (alpha beta : ℚ) (halfLife : ℤ) : EvidenceDelta F :=
    ⟨F64.ofRat alpha, F64.ofRat beta, hours halfLife⟩
  match stage, failureClass, fastDownload with
  | _, .localOverload, _ | _, .endpointFailure, _ => weighs 0 0 2
  | _, .invalidConfig, _ => weighs 0 8 12
  | .download, .success, true => weighs 8 0 24
  | .download, .success, false => weighs 5 0 24
  | .http, .success, _ => weighs 3 0 6
  | .relay, .success, _ => weighs 1 0 6
  | _, .tlsTimeout, _ => weighs 0 (1 / 2) 2
  | _, .tcpTimeout, _ | _, .dnsFailure, _ | _, .relayTimeout, _ | _, .downloadTimeout, _ =>
      weighs 0 1 2
  | _, .connectionRefused, _ => weighs 0 2 12
  | .download, .downloadTooSlow, _ => weighs 0 3 12
  | _, .xrayStartFailed, _ | _, .httpFailure, _ => weighs 0 1 12
  | _, _, _ => weighs 0 0 2

/-- What is left of a weight after `elapsed`. -/
def decay (value : F) (elapsed halfLife : Time) : F :=
  if F64.le value (F64.ofRat 0) || elapsed ≤ 0 then F64.max value (F64.ofRat 0)
  else
    let ratio := F64.div (F64.ofInt (numMilliseconds elapsed))
      (F64.ofInt (max (numMilliseconds halfLife) 1))
    F64.mul value (F64.powf (F64.ofRat (1 / 2)) ratio)

/-- The score of accumulated evidence, one half when there is none. -/
def health (alpha beta : F) : F :=
  let total := F64.add alpha beta
  if F64.le total (F64.ofRat 0) then F64.ofRat (1 / 2)
  else F64.clamp (F64.div alpha total) (F64.ofRat 0) (F64.ofRat 1)

/-- The publication window that a success of the stage opens. -/
def leaseDuration (stage : TestStage) (fastDownload : Bool) : Time :=
  match stage with
  | .download => if fastDownload then hours 12 else hours 6
  | .http => hours 2
  | .relay => minutes 30
  | _ => 0

def leaseUntil (stage : TestStage) (fastDownload : Bool) (now : Time) : Time :=
  now + leaseDuration stage fastDownload

/-- The largest delay, in seconds, that a conclusive failure can be answered with. -/
def delayCeiling (failureStreak : ℕ) (hadRealSuccess dormant : Bool)
    (failureClass : FailureClass) : ℕ :=
  let recoveryCeiling :=
    match failureStreak with
    | 0 => 6 * 60 * 60
    | 1 => 12 * 60 * 60
    | _ => 24 * 60 * 60
  let (baseSeconds, capSeconds) :=
    if dormant then (recoveryCeiling, recoveryCeiling)
    else if hadRealSuccess then (5 * 60, 6 * 60 * 60)
    else (30 * 60, 24 * 60 * 60)
  let refused := if failureClass = .connectionRefused then 1 else 0
  let shift := min (min (failureStreak + refused) u32Max) 20
  min (baseSeconds * 2 ^ shift) capSeconds

/-- Full jitter: any whole number of seconds up to the ceiling, chosen by `draw`. -/
def fullJitterDelay (failureStreak : ℕ) (hadRealSuccess dormant : Bool)
    (failureClass : FailureClass) (draw : ℕ) : Time :=
  seconds (draw % (delayCeiling failureStreak hadRealSuccess dormant failureClass + 1) : ℕ)

theorem fullJitterDelay_nonneg (failureStreak : ℕ) (hadRealSuccess dormant : Bool)
    (failureClass : FailureClass) (draw : ℕ) :
    0 ≤ fullJitterDelay failureStreak hadRealSuccess dormant failureClass draw := by
  unfold fullJitterDelay seconds
  positivity

/-- Every delay up to the ceiling is drawn by some outcome of the generator. -/
theorem fullJitterDelay_of_le {failureStreak : ℕ} {hadRealSuccess dormant : Bool}
    {failureClass : FailureClass} {draw : ℕ}
    (h : draw ≤ delayCeiling failureStreak hadRealSuccess dormant failureClass) :
    fullJitterDelay failureStreak hadRealSuccess dormant failureClass draw = seconds draw := by
  rw [fullJitterDelay, Nat.mod_eq_of_lt (Nat.lt_succ_of_le h)]

end ProxyFleet
