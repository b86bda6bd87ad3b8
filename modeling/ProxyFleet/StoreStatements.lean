import ProxyFleet.TestEventApplication
import Mathlib.Data.List.Infix

/-!
# The statements of the fleet database

Each definition is one statement or one transaction that the service sends to
SQLite: what it does to a selected row, and which rows it selects. The clock is
an argument of every statement that reads it.
-/
namespace ProxyFleet

variable {F : Type}

structure PublicationSnapshot where
  generation : ℤ
  rawConfigs : List Text

namespace Node

def leaseFree (row : Node F) (now : Time) : Bool :=
  match row.testLeaseUntil with
  | none => true
  | some lease => decide (lease ≤ now)

/-- The row that a new identity is inserted as. -/
def ingested [F64 F] (now : Time) (proxy : ParsedProxy) (newId : String) (generation : ℤ) :
    Node F where
  id := newId
  configHash := proxy.configHash
  rawConfig := proxy.rawConfig
  sourceSubs := [proxy.source]
  healthAlpha := F64.ofRat 1
  healthBeta := F64.ofRat 1
  healthScore := F64.ofRat (1 / 2)
  createdAt := now
  nextTestAt := some now
  lastSeenGeneration := some generation

/-- Insertion into an ordered set of names. -/
def insertSource (source : String) (sources : List String) : List String :=
  if source ∈ sources then sources else sources.orderedInsert (· ≤ ·) source

/-- Only a later ingest brings `RETIRED` back. -/
def reingested (row : Node F) (now : Time) (proxy : ParsedProxy) (generation : ℤ) : Node F :=
  let retired := row.lifecycleState = .retired
  { row with
    rawConfig := proxy.rawConfig
    sourceSubs := insertSource proxy.source row.sourceSubs
    lastSeenGeneration := some generation
    upstreamMissingGenerations := 0
    lifecycleState := if retired then .candidate else row.lifecycleState
    status := if retired then .candidate else row.status
    retiredAt := if retired then none else row.retiredAt
    tombstoneUntil := if retired then none else row.tombstoneUntil
    nextTestAt := if retired then some now else row.nextTestAt }

def claimed (row : Node F) (leaseUntil : Time) : Node F :=
  { row with
    testingFromState := some
      (if row.lifecycleState = .waitingForPort then row.waitingFromState.getD .candidate
      else row.lifecycleState)
    waitingFromState := none
    lifecycleState := .testing
    status := .testing
    testLeaseUntil := some leaseUntil }

def released (row : Node F) : Node F :=
  { row with
    lifecycleState := row.testingFromState.getD row.lifecycleState
    status := row.testingFromState.getD row.status
    testingFromState := none
    testLeaseUntil := none }

def waiting (row : Node F) (now retryAfter : Time) : Node F :=
  { row with
    waitingFromState := some row.lifecycleState
    lifecycleState := .waitingForPort
    status := .waitingForPort
    testLeaseUntil := none
    testingFromState := none
    nextTestAt := some (now + max retryAfter (seconds 1)) }

/-- `source_subs LIKE '%manual%'`, which does not distinguish letter case. -/
def likeManual (row : Node F) : Bool :=
  row.sourceSubs.any fun name => decide ("manual".toList <:+: name.toList.map Char.toLower)

def missed (row : Node F) : Node F :=
  { row with upstreamMissingGenerations := row.upstreamMissingGenerations + 1 }

/-- The rows that a complete generation did not see. -/
def missedBy (row : Node F) (generation : ℤ) : Bool :=
  decide (row.lastSeenGeneration.getD (-1) ≠ generation) && !row.likeManual

def leaseExpired (row : Node F) (now : Time) : Bool :=
  match row.publicationLeaseUntil with
  | none => true
  | some lease => decide (lease ≤ now)

/-- The `WHERE` of retirement. -/
def retirable (row : Node F) (now : Time) (minimumMissingGenerations : ℕ) : Bool :=
  row.lifecycleState ≠ .invalid && row.lifecycleState ≠ .retired &&
    decide ((minimumMissingGenerations : ℤ) ≤ row.upstreamMissingGenerations) &&
    decide (row.createdAt ≤ now - hours 12) && row.leaseExpired now

def retired (row : Node F) (now : Time) : Node F :=
  { row with
    lifecycleState := .retired
    status := .retired
    retiredAt := some now
    tombstoneUntil := some (now + days 30) }

def seenAgain (row : Node F) (generation : ℤ) : Node F :=
  { row with lastSeenGeneration := some generation, upstreamMissingGenerations := 0 }

def dormantRevived (row : Node F) (now : Time) : Node F :=
  { row with lifecycleState := .probation, status := .probation, nextTestAt := some now }

def revived (row : Node F) (now : Time) : Node F :=
  { row with
    lifecycleState := .probation
    status := .probation
    nextTestAt := some now
    testLeaseUntil := none
    testingFromState := none }

def revivable (row : Node F) : Bool :=
  (row.lifecycleState = .dormant || row.lifecycleState = .probation ||
    row.lifecycleState = .candidate) && row.structurallyValid

/-- The `WHERE` of the publication snapshot. -/
def publishable (row : Node F) (now : Time) : Bool :=
  row.structurallyValid && !row.leaseExpired now && row.lifecycleState ≠ .invalid &&
    row.lifecycleState ≠ .retired

/-- `ORDER BY health_score DESC, config_hash ASC`. -/
def PublishedBefore [F64 F] (a b : Node F) : Prop :=
  F64.lt b.healthScore a.healthScore = true ∨
    F64.lt a.healthScore b.healthScore = false ∧ a.configHash ≤ b.configHash

instance [F64 F] : DecidableRel (Node.PublishedBefore (F := F)) :=
  fun _ _ => inferInstanceAs (Decidable (_ ∨ _ ∧ _))

def expiredTombstone (row : Node F) (now : Time) : Bool :=
  row.lifecycleState = .retired &&
    match row.tombstoneUntil with
    | none => false
    | some time => decide (time ≤ now)

def legacySeedable (row : Node F) : Bool :=
  row.lifecycleState = .active && row.structurallyValid &&
    decide (0 < row.downloadKbps.getD 0) && row.publicationLeaseUntil.isNone

def metadataDue (row : Node F) (now cacheTtl : Time) : Bool :=
  (match row.metadataLeaseUntil with
    | none => true
    | some lease => decide (lease ≤ now)) &&
  match row.exitInfoFetchedAt with
  | none => true
  | some fetched => decide (fetched ≤ now - cacheTtl)

end Node

namespace Store

/-- `INSERT OR IGNORE INTO upstream_generation_members`. -/
def insertMember (s : Store F) (member : GenerationMember) : Store F :=
  if member ∈ s.members then s else { s with members := s.members ++ [member] }

/-- One proxy of an ingested batch. -/
def ingestOne [F64 F] (s : Store F) (now : Time) (proxy : ParsedProxy) (newId : String)
    (generation : ℤ) : Except String (Store F) :=
  let member : GenerationMember := ⟨generation, proxy.source, proxy.configHash⟩
  match s.nodes.find? fun row => decide (row.configHash = proxy.configHash) with
  | some row =>
    .ok ((s.updateNodes (fun r => r.id = row.id)
      (fun r => r.reingested now proxy generation)).insertMember member)
  | none =>
    if s.nodes.any fun row => row.id = newId then .error "UNIQUE constraint failed: nodes.id"
    else
      .ok (Store.insertMember
        { s with nodes := s.nodes ++ [Node.ingested now proxy newId generation] } member)

def claimRow (s : Store F) (now leaseUntil : Time) (id : String) : Store F :=
  s.updateNodes (fun row => row.id = id && row.leaseFree now) (fun row => row.claimed leaseUntil)

def releaseTestLease (s : Store F) (id : String) : Store F :=
  s.updateNodes (fun row => row.id = id && row.lifecycleState = .testing) Node.released

def markWaitingForPort (s : Store F) (now : Time) (id : String) (retryAfter : Time) : Store F :=
  s.updateNodes (fun row => row.id = id && row.structurallyValid)
    (fun row => row.waiting now retryAfter)

/-- `COALESCE(MAX(generation), 0) + 1`. -/
def nextGeneration (s : Store F) : ℤ := ((s.refreshRuns.map (·.generation)).max?).getD 0 + 1

def beginRefresh (s : Store F) (now : Time) (runId : String) (sourceCount : ℕ) : Store F :=
  { s with refreshRuns := s.refreshRuns ++ [{
      id := runId
      generation := s.nextGeneration
      startedAt := now
      status := .running
      sourceCount := sourceCount }] }

/-- The first statement of `finish_refresh`. -/
def recordFinishedRun (s : Store F) (now : Time) (runId : String) (status : RefreshStatus)
    (successfulSources parsedCount : ℕ) : Store F :=
  { s with refreshRuns := RowUpdates.updateWhere (fun run => run.id = runId) (fun run =>
      { run with
        finishedAt := some now
        status := status
        successfulSourceCount := successfulSources
        parsedCount := parsedCount }) s.refreshRuns }

/-- The transaction that a complete refresh ends with. -/
def reconcile (s : Store F) (now : Time) (generation : ℤ) (minimumMissingGenerations : ℕ) :
    Store F :=
  (s.updateNodes (fun row => row.missedBy generation) Node.missed).updateNodes
    (fun row => row.retirable now minimumMissingGenerations) (fun row => row.retired now)

def finishRefresh (s : Store F) (now : Time) (runId : String) (generation : ℤ)
    (sourceCount successfulSources parsedCount minimumMissingGenerations : ℕ) :
    Store F × Bool :=
  let complete := decide (0 < sourceCount ∧ successfulSources = sourceCount)
  let status := if complete then RefreshStatus.complete else .partialRun
  let s := s.recordFinishedRun now runId status successfulSources parsedCount
  if complete then (s.reconcile now generation minimumMissingGenerations, true) else (s, false)

def sourceHttpCache (s : Store F) (name : String) : Option String × Option String :=
  ((s.sources.find? fun source => decide (source.name = name)).map fun source =>
    (source.etag, source.lastModified)).getD (none, none)

def recordSourceSuccess (s : Store F) (now : Time) (name url : String)
    (etag lastModified : Option String) : Store F :=
  if s.sources.any fun source => source.name = name then
    { s with sources := RowUpdates.updateWhere (fun source => source.name = name) (fun source =>
        { source with
          url := url
          lastSuccessAt := some now
          etag := etag <|> source.etag
          lastModified := lastModified <|> source.lastModified
          failureStreak := 0 }) s.sources }
  else
    { s with sources := s.sources ++ [⟨name, url, some now, etag, lastModified, 0⟩] }

def recordSourceFailure (s : Store F) (name url : String) : Store F :=
  if s.sources.any fun source => source.name = name then
    { s with sources := RowUpdates.updateWhere (fun source => source.name = name) (fun source =>
        { source with url := url, failureStreak := source.failureStreak + 1 }) s.sources }
  else { s with sources := s.sources ++ [⟨name, url, none, none, none, 1⟩] }

/-- The newest earlier generation that holds members of the source. -/
def previousGeneration (s : Store F) (sourceName : String) (generation : ℤ) : Option ℤ :=
  ((s.members.filter fun m => m.sourceName = sourceName && decide (m.generation < generation)).map
    (·.generation)).max?

/-- The identities that a generation holds for a source. -/
def memberHashes (s : Store F) (sourceName : String) (generation : ℤ) : List String :=
  (s.members.filter fun m => m.sourceName = sourceName && m.generation = generation).map
    (·.configHash)

/-- What a `304` answer does, and how many memberships it copied. -/
def copyCachedSourceGeneration (s : Store F) (sourceName : String) (generation : ℤ) :
    Store F × ℕ :=
  match s.previousGeneration sourceName generation with
  | none => (s, 0)
  | some previous =>
    let copied := (s.memberHashes sourceName previous).foldl
      (fun t hash => t.insertMember ⟨generation, sourceName, hash⟩) s
    (copied.updateNodes
      (fun row => decide (row.configHash ∈ copied.memberHashes sourceName generation))
      (fun row => row.seenAgain generation),
    copied.members.length - s.members.length)

def recordSystemEvent (s : Store F) (event : SystemEvent) : Store F :=
  { s with systemEvents := s.systemEvents ++ [event] }

def recordInvalidConfigRejections (s : Store F) (now : Time) (source : String)
    (rejected : List String) : Store F :=
  if rejected.isEmpty then s
  else s.recordSystemEvent {
    createdAt := now
    level := "WARN"
    component := "parser"
    event := "INVALID_CONFIG"
    message := toString rejected.length ++ " invalid configuration line(s) from " ++ source
    details := .object [
      ("source", .string source),
      ("count", .number (.posInt rejected.length)),
      ("samples", .array ((rejected.take 5).map .string))] }

def reviveDormant (s : Store F) (now : Time) : Store F :=
  s.updateNodes (fun row => row.lifecycleState = .dormant && row.structurallyValid)
    (fun row => row.dormantRevived now)

def reviveNode (s : Store F) (now : Time) (id : String) : Except String (Store F) :=
  if s.nodes.any fun row => row.id = id && row.revivable then
    .ok (s.updateNodes (fun row => row.id = id && row.revivable) (fun row => row.revived now))
  else .error "node not found or cannot be revived"

/-- A running worker keeps its lease. -/
def scheduleManualTest (s : Store F) (now : Time) (id : String) : Except String (Store F) :=
  if s.nodes.any fun row => row.id = id then
    .ok (s.updateNodes (fun row => row.id = id && row.lifecycleState ≠ .testing)
      (fun row => { row with nextTestAt := some now }))
  else .error "node not found"

/-- The rows of the public feed, best score first. -/
def publishedNodes [F64 F] (s : Store F) (now : Time) : List (Node F) :=
  (s.nodes.filter fun row => row.publishable now).insertionSort Node.PublishedBefore

def publicationSnapshot [F64 F] (s : Store F) (now : Time) : PublicationSnapshot where
  generation := (((s.refreshRuns.filter fun run => run.status = .complete).map
    (·.generation)).max?).getD 0
  rawConfigs := (s.publishedNodes now).map (·.rawConfig)

def cleanupRetired (s : Store F) (now : Time) : Store F :=
  { s with nodes := s.nodes.filter fun row => !row.expiredTombstone now }

def seedLegacyDownloadLeases (s : Store F) (now : Time) (leaseHours : ℕ) : Store F :=
  if s.legacySeeded then s
  else
    { s.updateNodes Node.legacySeedable (fun row =>
        { row with publicationLeaseUntil := some (now + hours (max leaseHours 1)) }) with
      legacySeeded := true }

def setMainPort (s : Store F) (id : String) (port : ℕ) : Store F :=
  s.updateNodes (fun row => row.id = id) (fun row => { row with mainPort := some port })

def clearMainPort (s : Store F) (id : String) : Store F :=
  s.updateNodes (fun row => row.id = id) (fun row => { row with mainPort := none })

def clearStaleRuntimePorts (s : Store F) : Store F :=
  s.updateNodes (fun row => row.mainPort.isSome) (fun row => { row with mainPort := none })

def claimMetadataRefresh (s : Store F) (now : Time) (id : String) (cacheTtl lease : Time) :
    Store F :=
  s.updateNodes (fun row => row.id = id && row.metadataDue now cacheTtl)
    (fun row => { row with metadataLeaseUntil := some (now + lease) })

def recordExitMetadata (s : Store F) (now : Time) (id : String) : Store F :=
  s.updateNodes (fun row => row.id = id)
    (fun row => { row with exitInfoFetchedAt := some now, metadataLeaseUntil := none })

def releaseMetadataLease (s : Store F) (id : String) : Store F :=
  s.updateNodes (fun row => row.id = id) (fun row => { row with metadataLeaseUntil := none })

end Store

end ProxyFleet
