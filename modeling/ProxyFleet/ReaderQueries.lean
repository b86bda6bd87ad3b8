import ProxyFleet.ClaimScheduling

/-!
# The queries of the consumers

Clients, the VIP port and the runtime manager read the nodes through three queries.
Each of them shows `ACTIVE` rows only, with a valid structure and an unexpired
publication lease. Assignments and feedback of clients live in tables of their own.
-/
namespace ProxyFleet

variable {F : Type}

structure ClientNodeState (F : Type) where
  clientId : String
  nodeId : String
  state : String
  failStreak : Option ℤ
  rateLimitStreak : Option ℤ
  cooldownUntil : Option Time
  successRateEwma : Option F

structure AssignmentEvent where
  clientId : String
  nodeId : String
  assignedAt : Time

structure UsageEvent where
  clientId : String
  nodeId : String
  createdAt : Time

structure ClientTables (F : Type) where
  states : List (ClientNodeState F) := []
  assignments : List AssignmentEvent := []
  usage : List UsageEvent := []

structure CandidateForSelection (F : Type) where
  id : String
  mainPort : Option ℕ
  relayDelayMs : Option ℤ
  downloadKbps : Option ℤ
  healthScore : F
  publicationLeaseUntil : Option Time
  activeAssignments : ℕ
  recentGlobalUsage : ℕ
  recentClientUsage : ℕ
  clientSuccessEwma : Option F
  clientFailStreak : ℤ
  clientRateLimitStreak : ℤ
  circuitOpen : Bool

structure VipCandidate (F : Type) where
  id : String
  rawConfig : Text
  score : F

structure RuntimeCandidate where
  id : String
  rawConfig : Text

namespace Node

/-- The `WHERE` of the runtime query. -/
def runnable (row : Node F) (now : Time) : Bool :=
  row.lifecycleState = .active && row.structurallyValid && !row.leaseExpired now

/-- The `WHERE` of the client and VIP queries. -/
def selectable (row : Node F) (now : Time) : Bool :=
  row.runnable now && row.mainPort.isSome

/-- The `ORDER BY` of the VIP query. -/
def VipBefore [F64 F] (a b : Node F) : Prop :=
  F64.lt b.healthScore a.healthScore = true ∨ F64.lt a.healthScore b.healthScore = false ∧
    (b.downloadKbps.getD 0 < a.downloadKbps.getD 0 ∨ a.downloadKbps.getD 0 = b.downloadKbps.getD 0 ∧
      (a.relayDelayMs.getD 999999 < b.relayDelayMs.getD 999999 ∨
        a.relayDelayMs.getD 999999 = b.relayDelayMs.getD 999999 ∧ a.configHash ≤ b.configHash))

instance [F64 F] : DecidableRel (VipBefore (F := F)) :=
  fun _ _ => inferInstanceAs (Decidable (_ ∨ _ ∧ (_ ∨ _ ∧ (_ ∨ _ ∧ _))))

end Node

namespace ClientTables

variable (tables : ClientTables F)

def stateOf (client nodeId : String) : Option (ClientNodeState F) :=
  tables.states.find? fun c => c.nodeId = nodeId && c.clientId = client

def assignmentsSince (nodeId : String) (since : Time) : ℕ :=
  tables.assignments.countP fun a => a.nodeId = nodeId && decide (since ≤ a.assignedAt)

def usageSince (nodeId : String) (since : Time) : ℕ :=
  tables.usage.countP fun u => u.nodeId = nodeId && decide (since ≤ u.createdAt)

def clientUsageSince (client nodeId : String) (since : Time) : ℕ :=
  tables.usage.countP fun u =>
    u.nodeId = nodeId && u.clientId = client && decide (since ≤ u.createdAt)

/-- The client has an open circuit to the node and its cooldown is not over. -/
def circuitOpen (client nodeId : String) (now : Time) : Bool :=
  (tables.stateOf client nodeId).any fun c =>
    c.state = "OPEN" && c.cooldownUntil.any fun time => decide (now < time)

end ClientTables

namespace Store

def candidatesForClient (s : Store F) (tables : ClientTables F) (now : Time) (client : String)
    (assignmentTtlSeconds : ℕ) : List (CandidateForSelection F) :=
  (s.nodes.filter fun row => row.selectable now).filterMap fun row =>
    if tables.circuitOpen client row.id now then none
    else
      let state := tables.stateOf client row.id
      some {
        id := row.id
        mainPort := row.mainPort
        relayDelayMs := row.relayDelayMs
        downloadKbps := row.downloadKbps
        healthScore := row.healthScore
        publicationLeaseUntil := row.publicationLeaseUntil
        activeAssignments := tables.assignmentsSince row.id (now - seconds assignmentTtlSeconds)
        recentGlobalUsage := tables.usageSince row.id (now - minutes 5)
        recentClientUsage := tables.clientUsageSince client row.id (now - minutes 30)
        clientSuccessEwma := state.bind (·.successRateEwma)
        clientFailStreak := (state.bind (·.failStreak)).getD 0
        clientRateLimitStreak := (state.bind (·.rateLimitStreak)).getD 0
        circuitOpen := false }

variable [F64 F]

/-- The composite score of a VIP candidate. -/
def vipScore (row : Node F) (recentUsage : ℕ) : F :=
  let one : F := F64.ofRat 1
  let unit (x : F) : F := F64.clamp x (F64.ofRat 0) one
  let latency : F := F64.ofInt (row.relayDelayMs.getD 3000)
  let download : F := F64.ofInt (row.downloadKbps.getD 0)
  let lowUse : F := F64.div one (F64.add one (F64.ofInt recentUsage))
  let slow : F := F64.div latency (F64.ofRat 3000)
  F64.add
    (F64.add
      (F64.add (F64.mul row.healthScore (F64.ofRat (55 / 100)))
        (F64.mul (unit (F64.div download (F64.ofRat 1000))) (F64.ofRat (22 / 100))))
      (F64.mul (unit (F64.add one (F64.mul (F64.ofRat (-1)) slow))) (F64.ofRat (15 / 100))))
    (F64.mul lowUse (F64.ofRat (8 / 100)))

def bestVipCandidate (s : Store F) (tables : ClientTables F) (now : Time) :
    Option (VipCandidate F) :=
  (((s.nodes.filter fun row => row.selectable now).insertionSort Node.VipBefore).head?).map
    fun row => {
      id := row.id
      rawConfig := row.rawConfig
      score := vipScore row (tables.usageSince row.id (now - minutes 5)) }

def activeRuntimeCandidates (s : Store F) (now : Time) : List RuntimeCandidate :=
  ((s.nodes.filter fun row => row.runnable now).insertionSort Node.PublishedBefore).map fun row =>
    { id := row.id, rawConfig := row.rawConfig }

end Store

section Returned

variable {s : Store F} {now : Time} {id : String}

theorem Node.runnable_of_selectable {row : Node F} (h : row.selectable now = true) :
    row.runnable now = true := by
  simp only [selectable, Bool.and_eq_true] at h
  exact h.1

/-- A client is shown selectable rows only. -/
theorem Store.candidate_row {tables : ClientTables F} {client : String} {ttl : ℕ}
    {candidate : CandidateForSelection F}
    (h : candidate ∈ s.candidatesForClient tables now client ttl) :
    ∃ row ∈ s.nodes, row.selectable now = true ∧ row.id = candidate.id := by
  obtain ⟨row, hr, hrow⟩ := List.mem_filterMap.mp h
  obtain ⟨hmem, hselectable⟩ := List.mem_filter.mp hr
  refine ⟨row, hmem, hselectable, ?_⟩
  split at hrow
  · cases hrow
  · rw [← Option.some.inj hrow]

variable [F64 F]

theorem Store.vip_row {tables : ClientTables F} {candidate : VipCandidate F}
    (h : s.bestVipCandidate tables now = some candidate) :
    ∃ row ∈ s.nodes, row.selectable now = true ∧ row.id = candidate.id := by
  obtain ⟨row, hhead, rfl⟩ := Option.map_eq_some_iff.mp h
  have hr := List.mem_of_mem_head? hhead
  rw [List.mem_insertionSort, List.mem_filter] at hr
  exact ⟨row, hr.1, hr.2, rfl⟩

theorem Store.mem_activeRuntimeCandidates :
    (∃ candidate ∈ s.activeRuntimeCandidates now, candidate.id = id) ↔
      ∃ row ∈ s.nodes, row.runnable now = true ∧ row.id = id := by
  constructor
  · rintro ⟨candidate, hc, rfl⟩
    obtain ⟨row, hr, rfl⟩ := List.mem_map.mp hc
    rw [List.mem_insertionSort, List.mem_filter] at hr
    exact ⟨row, hr.1, hr.2, rfl⟩
  · rintro ⟨row, hr, hrunnable, rfl⟩
    refine ⟨⟨row.id, row.rawConfig⟩, List.mem_map.mpr ⟨row, ?_, rfl⟩, rfl⟩
    rw [List.mem_insertionSort, List.mem_filter]
    exact ⟨hr, hrunnable⟩

end Returned

end ProxyFleet
