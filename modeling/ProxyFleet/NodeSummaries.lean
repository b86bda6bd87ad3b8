import ProxyFleet.FloatArithmetic
import ProxyFleet.SubscriptionParser

/-!
# Summaries of listed nodes

A listing describes a row by its columns and by what the URL library reads in the stored
configuration: host, port and fragment. The summaries of two rows that are equal but for
the configuration and its hash differ in nothing else.
-/
namespace ProxyFleet

/-- The columns of a row that a listing selects. -/
structure ListedRow (F : Type) where
  id : String
  configHash : String
  rawConfig : Text
  sourceSubs : List String
  lifecycleState : String
  status : String
  mainPort : Option ℤ := none
  relayDelayMs : Option ℤ := none
  downloadKbps : Option ℤ := none
  exitIp : Option String := none
  exitHostname : Option String := none
  exitCity : Option String := none
  exitRegion : Option String := none
  exitCountry : String
  exitLoc : Option String := none
  exitOrg : Option String := none
  exitPostal : Option String := none
  exitTimezone : Option String := none
  exitInfoFetchedAt : Option Time := none
  healthSuccessEwma : Option F := none
  healthAlpha : Option F := none
  healthBeta : Option F := none
  healthScore : Option F := none
  nextTestAt : Option Time := none
  publicationLeaseUntil : Option Time := none
  publicationLeaseKind : Option String := none
  lastFailureClass : Option String := none
  lastSeenGeneration : Option ℤ := none
  upstreamMissingGenerations : Option ℤ := none
  createdAt : Option Time := none
  lastTestAt : Option Time := none

structure NodeSummary.EvidenceSummary (F : Type) where
  alpha : F
  beta : F
  score : F
  lastFailureClass : Option String

structure NodeSummary (F : Type) where
  id : String
  configHash : String
  /-- Not serialized. -/
  rawConfig : Text
  protocol : Text
  server : Text
  remotePort : Option ℕ
  remark : Text
  sourceSubs : List String
  status : String
  lifecycleState : String
  mainPort : Option ℤ
  relayDelayMs : Option ℤ
  downloadKbps : Option ℤ
  exitCountry : String
  exitIp : String
  exitHostname : String
  exitCity : String
  exitRegion : String
  exitLoc : String
  exitOrg : String
  exitPostal : String
  exitTimezone : String
  exitInfoFetchedAt : Option Time
  healthSuccessEwma : F
  healthAlpha : F
  healthBeta : F
  healthScore : F
  nextTestAt : Option Time
  publicationLeaseUntil : Option Time
  publicationLeaseKind : Option String
  lastFailureClass : Option String
  lastSeenGeneration : Option ℤ
  upstreamMissingGenerations : ℤ
  evidenceSummary : NodeSummary.EvidenceSummary F
  createdAt : Option Time
  lastTestAt : Option Time

section Rows

variable (lib : Libraries) {F : Type} [F64 F]

/-- The text before the first `://`, or all of it. -/
def protocolOf (raw : Text) : Text := ((splitScheme raw).map Prod.fst).getD raw

def rowToSummary (row : ListedRow F) : NodeSummary F :=
  let raw := row.rawConfig
  let parsed := (lib.parseUrl raw).toOption
  let healthAlpha := row.healthAlpha.getD (F64.ofRat 1)
  let healthBeta := row.healthBeta.getD (F64.ofRat 1)
  let healthScore := row.healthScore.getD (F64.ofRat (1 / 2))
  {
    id := row.id
    configHash := row.configHash
    rawConfig := raw
    protocol := protocolOf raw
    server := (parsed.bind (·.hostStr)).getD []
    remotePort := parsed.bind (·.port)
    remark := (parsed.bind (·.fragment)).getD []
    sourceSubs := row.sourceSubs
    status := row.status
    lifecycleState := row.lifecycleState
    mainPort := row.mainPort
    relayDelayMs := row.relayDelayMs
    downloadKbps := row.downloadKbps
    exitCountry := row.exitCountry
    exitIp := row.exitIp.getD ""
    exitHostname := row.exitHostname.getD ""
    exitCity := row.exitCity.getD ""
    exitRegion := row.exitRegion.getD ""
    exitLoc := row.exitLoc.getD ""
    exitOrg := row.exitOrg.getD ""
    exitPostal := row.exitPostal.getD ""
    exitTimezone := row.exitTimezone.getD ""
    exitInfoFetchedAt := row.exitInfoFetchedAt
    healthSuccessEwma := row.healthSuccessEwma.getD (F64.ofRat (1 / 2))
    healthAlpha := healthAlpha
    healthBeta := healthBeta
    healthScore := healthScore
    nextTestAt := row.nextTestAt
    publicationLeaseUntil := row.publicationLeaseUntil
    publicationLeaseKind := row.publicationLeaseKind
    lastFailureClass := row.lastFailureClass
    lastSeenGeneration := row.lastSeenGeneration
    upstreamMissingGenerations := row.upstreamMissingGenerations.getD 0
    evidenceSummary := ⟨healthAlpha, healthBeta, healthScore, row.lastFailureClass⟩
    createdAt := row.createdAt
    lastTestAt := row.lastTestAt }

/-- Rows that are equal but for the configuration and its hash. -/
def ListedRow.Alike (row₁ row₂ : ListedRow F) : Prop :=
  { row₁ with rawConfig := row₂.rawConfig, configHash := row₂.configHash } = row₂

/-- Summaries whose serialized fields are equal but for the hash. -/
def NodeSummary.Alike (summary₁ summary₂ : NodeSummary F) : Prop :=
  { summary₁ with rawConfig := summary₂.rawConfig, configHash := summary₂.configHash } = summary₂

/-- Host and port of a configuration that the library can read. -/
def reads (raw : Text) : Option (Text × Option ℕ) :=
  (lib.parseUrl raw).toOption.map fun url => (url.hostStr.getD [], url.port)

def remarkOf (raw : Text) : Text :=
  ((lib.parseUrl raw).toOption.bind (·.fragment)).getD []

variable {lib} {row₁ row₂ : ListedRow F}

omit [F64 F] in
theorem shown_eq_reads (raw : Text) :
    (((lib.parseUrl raw).toOption.bind (·.hostStr)).getD [],
      (lib.parseUrl raw).toOption.bind (·.port)) = (reads lib raw).getD ([], none) := by
  rw [reads]
  cases lib.parseUrl raw with
  | error e => rfl
  | ok url => rfl

/-- The summaries of like rows differ only by what is derived from the configuration. -/
theorem rowToSummary_alike_iff (alike : row₁.Alike row₂) :
    (rowToSummary lib row₁).Alike (rowToSummary lib row₂) ↔
      protocolOf row₁.rawConfig = protocolOf row₂.rawConfig ∧
      (reads lib row₁.rawConfig).getD ([], none) = (reads lib row₂.rawConfig).getD ([], none) ∧
      remarkOf lib row₁.rawConfig = remarkOf lib row₂.rawConfig := by
  obtain ⟨raw, hash, rfl⟩ : ∃ raw hash,
      row₂ = { row₁ with rawConfig := raw, configHash := hash } := ⟨_, _, alike.symm⟩
  rw [← shown_eq_reads, ← shown_eq_reads, Prod.mk.injEq]
  simp only [NodeSummary.Alike, rowToSummary, remarkOf, NodeSummary.mk.injEq, true_and, and_true]
  tauto

end Rows

end ProxyFleet
