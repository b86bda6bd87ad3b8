import ProxyFleet.StoreTables
import Mathlib.Data.List.Sort

/-!
# Applying one test event

An event is recorded, the evidence of its node is folded into a score with time
decay, and the lifecycle decision replaces the summaries of the row. The same
stage of the same run is one observation, however often it is delivered.
-/
namespace ProxyFleet

variable {F : Type}

structure TestEventInput (F : Type) where
  proxyId : String
  runId : String
  stage : TestStage
  failureClass : FailureClass
  fastDownload : Bool := false
  latencyMs : Option F := none
  downloadBps : Option F := none

structure TestEventApplied (F : Type) where
  lifecycleState : LifecycleState
  healthScore : F
  publicationLeaseUntil : Option Time
  nextTestAt : Time
  inconclusive : Bool

/-- The intervals that a validated configuration passes to every application. -/
structure Cadence where
  activeRelayInterval : ℕ
  activeDownloadInterval : ℕ
  activeMinResidence : ℕ
  residence_bounds : minutes 15 ≤ activeMinResidence ∧ activeMinResidence ≤ minutes 30

/-- A `std` duration as a signed one, unless it exceeds `i64::MAX` milliseconds. -/
def fromStd (d : ℕ) (fallback : Time) : Time :=
  if d ≤ (2 ^ 63 - 1) * 1000000 then d else fallback

theorem Cadence.fromStd_residence (c : Cadence) (fallback : Time) :
    fromStd c.activeMinResidence fallback = c.activeMinResidence := by
  have h := c.residence_bounds.2
  unfold fromStd
  rw [if_pos]
  norm_num [minutes, seconds] at h ⊢
  omega

/-- The state seen through a claim: `TESTING` stands for the state it was claimed from. -/
def Node.seenLifecycle (row : Node F) : LifecycleState :=
  if row.lifecycleState = .testing then row.testingFromState.getD row.status
  else row.lifecycleState

def maxEffectiveAlpha : ℚ := 24

def maxEffectiveBeta : ℚ := 64

def maxEvidenceEventsPerNode : ℕ := 512

/-- `ORDER BY occurred_at DESC, id DESC`. -/
def TestEvent.NewerFirst (a b : TestEvent F) : Prop :=
  b.occurredAt < a.occurredAt ∨ b.occurredAt = a.occurredAt ∧ b.id ≤ a.id

instance : DecidableRel (TestEvent.NewerFirst (F := F)) :=
  fun _ _ => inferInstanceAs (Decidable (_ ∨ _ ∧ _))

def TestEventInput.sameObservation (event : TestEventInput F) (recorded : TestEvent F) : Bool :=
  recorded.proxyId = event.proxyId && recorded.runId = event.runId && recorded.stage = event.stage

variable [F64 F]

def TestEvent.halfLife (e : TestEvent F) : Time := seconds (max e.halfLifeSeconds 1)

/-- Adds one recorded event to the running totals of both weights. -/
def TestEvent.accumulate (now : Time) (totals : F × F) (e : TestEvent F) : F × F :=
  (F64.add totals.1 (decay e.evidenceAlpha (now - e.occurredAt) e.halfLife),
    F64.add totals.2 (decay e.evidenceBeta (now - e.occurredAt) e.halfLife))

namespace Store

def alreadyApplied (s : Store F) (event : TestEventInput F) : Bool :=
  s.events.any event.sameObservation

def recordTestEvent (s : Store F) (now : Time) (event : TestEventInput F) : Store F :=
  let contribution := delta event.stage event.failureClass event.fastDownload
  { s with
    events := s.events ++ [{
      id := s.events.length + 1
      proxyId := event.proxyId
      runId := event.runId
      occurredAt := now
      stage := event.stage
      failureClass := event.failureClass
      evidenceAlpha := contribution.alpha
      evidenceBeta := contribution.beta
      halfLifeSeconds := numSeconds contribution.halfLife }] }

/-- The newest events of the last thirty days, newest first. -/
def evidence (s : Store F) (proxyId : String) (now : Time) : List (TestEvent F) :=
  ((s.events.filter fun e =>
    e.proxyId = proxyId && decide (now - days 30 ≤ e.occurredAt)).insertionSort
    TestEvent.NewerFirst).take maxEvidenceEventsPerNode

/-- Both weights of a node with their priors and their bounds. -/
def effectiveEvidence (s : Store F) (proxyId : String) (now : Time) : F × F :=
  let totals := (s.evidence proxyId now).foldl (TestEvent.accumulate now)
    (F64.ofRat 1, F64.ofRat 1)
  (F64.min totals.1 (F64.ofRat maxEffectiveAlpha), F64.min totals.2 (F64.ofRat maxEffectiveBeta))

end Store

namespace Node

def healthInput (row : Node F) (totals : F × F) (event : TestEventInput F) (cadence : Cadence)
    (now : Time) : HealthInput F where
  priorLifecycle := row.seenLifecycle
  priorLeaseUntil := row.publicationLeaseUntil
  activatedAt := row.activatedAt
  alpha := totals.1
  beta := totals.2
  failureStreak := asU32 row.failureStreak
  independentFailures := asU32 row.independentFailureCount
  newIndependentFailure := event.failureClass.conclusiveFailure &&
    decide (row.lastFailureRunId ≠ some event.runId)
  hadRealDownload := row.lastRealDownloadAt.isSome
  stage := event.stage
  failureClass := event.failureClass
  fastDownload := event.fastDownload
  now := now
  activeRelayInterval := fromStd cadence.activeRelayInterval (seconds 10)
  activeDownloadInterval := fromStd cadence.activeDownloadInterval (minutes 5)
  activeMinResidence := fromStd cadence.activeMinResidence (minutes 30)

/-- The row after the decision `d` on the event. -/
def applyDecision (row : Node F) (totals : F × F) (event : TestEventInput F) (now : Time)
    (d : HealthDecision F) : Node F :=
  let succeeded := event.failureClass = .success
  let failed := event.failureClass.conclusiveFailure
  { row with
    status := d.lifecycle
    lifecycleState := d.lifecycle
    testingFromState := none
    testLeaseUntil := none
    structurallyValid :=
      if event.failureClass = .invalidConfig then false else row.structurallyValid
    healthAlpha := totals.1
    healthBeta := totals.2
    healthScore := d.score
    publicationLeaseUntil := d.leaseUntil
    activatedAt :=
      if d.lifecycle = .active ∧ row.seenLifecycle ≠ .active then some now else row.activatedAt
    lastSuccessAt := if succeeded then some now else row.lastSuccessAt
    lastRealDownloadAt :=
      if succeeded ∧ event.stage = .download then some now else row.lastRealDownloadAt
    lastFailureClass := if failed then some event.failureClass else row.lastFailureClass
    lastFailureRunId := if failed then some event.runId else row.lastFailureRunId
    successStreak :=
      if succeeded then row.successStreak + 1
      else if event.failureClass.inconclusive then row.successStreak
      else 0
    failureStreak := d.failureStreak
    independentFailureCount := d.independentFailures
    nextTestAt := some d.nextTestAt
    lastTestAt := some now
    relayDelayMs := event.latencyMs.map F64.round <|> row.relayDelayMs
    downloadKbps :=
      (event.downloadBps.map fun bps => F64.round (F64.div bps (F64.ofRat 1024))) <|>
        row.downloadKbps }

/-- The row after an event that was not seen before. -/
def applyEvent (row : Node F) (totals : F × F) (event : TestEventInput F) (cadence : Cadence)
    (now : Time) (draw : ℕ) : Node F :=
  row.applyDecision totals event now ((row.healthInput totals event cadence now).decide draw)

end Node

/-- The whole transaction. `draw` is the outcome of the jitter generator. -/
def Store.applyTestEvent (s : Store F) (now : Time) (event : TestEventInput F)
    (cadence : Cadence) (draw : ℕ) : Except String (Store F × TestEventApplied F) :=
  match s.findNode event.proxyId with
  | none => .error "proxy not found"
  | some row =>
    if s.alreadyApplied event then
      .ok (s, {
        lifecycleState := row.seenLifecycle
        healthScore := row.healthScore
        publicationLeaseUntil := row.publicationLeaseUntil
        nextTestAt := row.nextTestAt.getD now
        inconclusive := event.failureClass.inconclusive })
    else
      let s := s.recordTestEvent now event
      let totals := s.effectiveEvidence event.proxyId now
      let decision := (row.healthInput totals event cadence now).decide draw
      .ok (s.updateNodes (fun row => row.id = event.proxyId)
          (fun row => row.applyEvent totals event cadence now draw), {
        lifecycleState := decision.lifecycle
        healthScore := decision.score
        publicationLeaseUntil := decision.leaseUntil
        nextTestAt := decision.nextTestAt
        inconclusive := event.failureClass.inconclusive })

end ProxyFleet
