import ProxyFleet.HealthDecision
import ProxyFleet.RowUpdates

/-!
# The tables of the fleet database

The columns follow the schema of the service. An empty database is a store whose
tables have no rows. A table keeps its rows in the order of their insertion.
-/
namespace ProxyFleet

abbrev Text := List Char

instance lawfulBEqText : LawfulBEq Text := inferInstance

inductive JsonNumber where
  | posInt (value : ℕ)
  | negInt (value : ℤ)
  | float (bits : UInt64)
  deriving DecidableEq

/-- A JSON document. -/
inductive Json where
  | null
  | bool (value : Bool)
  | number (value : JsonNumber)
  | string (value : String)
  | array (items : List Json)
  | object (members : List (String × Json))

structure ParsedProxy where
  source : String
  rawConfig : Text
  protocol : String
  address : String
  port : ℕ
  remark : String
  normalizedConfig : Json
  configHash : String

structure Node (F : Type) where
  id : String
  configHash : String
  rawConfig : Text
  /-- The set of source names, in its order. -/
  sourceSubs : List String
  status : LifecycleState := .candidate
  lifecycleState : LifecycleState := .candidate
  structurallyValid : Bool := true
  healthAlpha : F
  healthBeta : F
  healthScore : F
  testingFromState : Option LifecycleState := none
  waitingFromState : Option LifecycleState := none
  testLeaseUntil : Option Time := none
  publicationLeaseUntil : Option Time := none
  activatedAt : Option Time := none
  lastSuccessAt : Option Time := none
  lastRealDownloadAt : Option Time := none
  lastFailureClass : Option FailureClass := none
  lastFailureRunId : Option String := none
  successStreak : ℤ := 0
  failureStreak : ℤ := 0
  independentFailureCount : ℤ := 0
  nextTestAt : Option Time := none
  lastTestAt : Option Time := none
  relayDelayMs : Option ℤ := none
  downloadKbps : Option ℤ := none
  mainPort : Option ℕ := none
  metadataLeaseUntil : Option Time := none
  exitInfoFetchedAt : Option Time := none
  createdAt : Time
  lastSeenGeneration : Option ℤ := none
  upstreamMissingGenerations : ℤ := 0
  retiredAt : Option Time := none
  tombstoneUntil : Option Time := none

structure TestEvent (F : Type) where
  id : ℕ
  proxyId : String
  runId : String
  occurredAt : Time
  stage : TestStage
  failureClass : FailureClass
  evidenceAlpha : F
  evidenceBeta : F
  halfLifeSeconds : ℤ

inductive RefreshStatus where
  | running | complete | partialRun
  deriving DecidableEq, Repr

structure RefreshRun where
  id : String
  generation : ℤ
  startedAt : Time
  finishedAt : Option Time := none
  status : RefreshStatus
  sourceCount : ℕ
  successfulSourceCount : ℕ := 0
  parsedCount : ℕ := 0

structure UpstreamSource where
  name : String
  url : String
  lastSuccessAt : Option Time := none
  etag : Option String := none
  lastModified : Option String := none
  failureStreak : ℕ

structure GenerationMember where
  generation : ℤ
  sourceName : String
  configHash : String
  deriving DecidableEq

structure SystemEvent where
  createdAt : Time
  level : String
  component : String
  event : String
  message : String
  details : Json

/-- Fractional scheduler credits, one for each queue. -/
structure QueueDebt (F : Type) where
  candidate : F
  probation : F
  dormant : F
  active : F

structure Store (F : Type) where
  nodes : List (Node F) := []
  events : List (TestEvent F) := []
  refreshRuns : List RefreshRun := []
  sources : List UpstreamSource := []
  members : List GenerationMember := []
  systemEvents : List SystemEvent := []
  quotaDebt : Option (QueueDebt F) := none
  legacySeeded : Bool := false

variable {F : Type}

/-- A database right after its tables were created. -/
def Store.empty : Store F := {}

namespace Store

def findNode (s : Store F) (id : String) : Option (Node F) :=
  s.nodes.find? fun row => decide (row.id = id)

/-- `UPDATE nodes SET … WHERE …`. -/
def updateNodes (s : Store F) (guard : Node F → Bool) (f : Node F → Node F) : Store F :=
  { s with nodes := RowUpdates.updateWhere guard f s.nodes }

/-- The primary key and the unique column of `nodes`. -/
structure WellKeyed (s : Store F) : Prop where
  ids : (s.nodes.map (·.id)).Nodup
  hashes : (s.nodes.map (·.configHash)).Nodup

theorem wellKeyed_empty : (Store.empty : Store F).WellKeyed := ⟨List.nodup_nil, List.nodup_nil⟩

theorem findNode_eq_some {s : Store F} (hk : s.WellKeyed) {row : Node F} (h : row ∈ s.nodes) :
    s.findNode row.id = some row := RowUpdates.find?_key_eq hk.ids h

theorem mem_of_findNode {s : Store F} {id : String} {row : Node F} (h : s.findNode id = some row) :
    row ∈ s.nodes ∧ row.id = id :=
  ⟨List.mem_of_find?_eq_some h, by simpa using List.find?_some h⟩

/-- An update rewrites the row that is looked up, or leaves it. -/
theorem findNode_updateNodes (s : Store F) (guard : Node F → Bool) {f : Node F → Node F}
    (hi : ∀ row, (f row).id = row.id) (id : String) :
    (s.updateNodes guard f).findNode id =
      (s.findNode id).map fun row => if guard row then f row else row := by
  simp only [findNode, Store.updateNodes, RowUpdates.updateWhere, List.find?_map]
  congr 2
  funext row
  cases hg : guard row <;> simp [hg, hi]

theorem WellKeyed.updateNodes {s : Store F} (hk : s.WellKeyed) {guard : Node F → Bool}
    {f : Node F → Node F} (hi : ∀ row, (f row).id = row.id)
    (hh : ∀ row, (f row).configHash = row.configHash) : (s.updateNodes guard f).WellKeyed := by
  constructor
  · rw [Store.updateNodes, RowUpdates.map_updateWhere hi]
    exact hk.ids
  · rw [Store.updateNodes, RowUpdates.map_updateWhere hh]
    exact hk.hashes

end Store

end ProxyFleet
