import ProxyFleet.ClientFeedback
import ProxyFleet.SampledMaxima

/-!
# Selection for clients

A call reads the selectable nodes whose circuit is closed for its client, draws a sample of
them and keeps the one with the greatest score. One transaction records the assignment. Query,
clock, choice and transaction belong to the environment of the call.
-/
namespace ProxyFleet

open SampledMaxima

variable {F : Type}

/-- `f64::total_cmp` as an order. -/
class F64Total (F : Type) where
  totalLe : F → F → Bool
  totalLe_trans : ∀ a b c, totalLe a b → totalLe b c → totalLe a c
  totalLe_total : ∀ a b, totalLe a b || totalLe b a

instance : F64Total ℚ where
  totalLe a b := decide (a ≤ b)
  totalLe_trans _ _ _ hab hbc :=
    decide_eq_true ((of_decide_eq_true hab).trans (of_decide_eq_true hbc))
  totalLe_total a b := by
    rw [Bool.or_eq_true, decide_eq_true_eq, decide_eq_true_eq]
    exact le_total a b

structure SelectionWeights (F : Type) where
  latency : F
  download : F
  availability : F
  fairness : F
  clientHistory : F

/-- The part of the configuration that a selection reads. -/
structure SelectionConfig (F : Type) where
  assignmentTtlSeconds : ℕ := 60
  maxRelayDelayMs : ℕ := 3000
  targetDownloadKbps : ℕ := 1000
  sampleSize : ℕ := 5
  weights : SelectionWeights F

structure BestDecision where
  nodeId : String
  port : ℕ
  assignmentId : String
  relayDelayMs : Option ℤ
  expiresInSeconds : ℕ
  deriving DecidableEq

/-- What a call meets: the clock of the query and those of the scores, the random choice, and
how the query and the transaction end. -/
structure SelectionView where
  now : Time
  clock : ℕ → Time
  sample : (amount length : ℕ) → Sample amount length
  queried : Except String Unit
  recorded : Except String Unit
  assignmentId : String
  recordedAt : Time

/-- The columns of the tables that the query of the candidates reads. -/
def FeedbackTables.reads (tables : FeedbackTables F) : ClientTables F where
  states := tables.states.map (·.toClientNodeState)
  assignments := tables.assignments.map (·.toAssignmentEvent)
  usage := tables.usage.map (·.toUsageEvent)

section Best

variable [F64 F]

namespace SelectionConfig

variable (config : SelectionConfig F)

def score (now : Time) (candidate : CandidateForSelection F) : F :=
  let one : F := F64.ofRat 1
  let unit (x : F) : F := F64.clamp x (F64.ofRat 0) one
  let minus (x y : F) : F := F64.add x (F64.mul (F64.ofRat (-1)) y)
  let latency := unit (minus one (F64.div
    (F64.ofInt (candidate.relayDelayMs.getD (castI64 config.maxRelayDelayMs)))
    (F64.ofInt (max config.maxRelayDelayMs 1))))
  let download := unit (F64.div (F64.ofInt (candidate.downloadKbps.getD 0))
    (F64.ofInt (max config.targetDownloadKbps 1)))
  let fairness := F64.div one (F64.add (F64.add (F64.add one
    (F64.ofInt candidate.activeAssignments)) (F64.ofInt candidate.recentGlobalUsage))
    (F64.ofInt candidate.recentClientUsage))
  let history := candidate.clientSuccessEwma.getD (F64.ofRat (1 / 2))
  let leaseFreshness := unit ((candidate.publicationLeaseUntil.map fun lease =>
    F64.div (F64.ofInt (max (numSeconds (lease - now)) 0))
      (F64.ofInt (numSeconds (hours 12)))).getD (F64.ofRat 0))
  let availability := F64.mul candidate.healthScore
    (F64.add (F64.ofRat (75 / 100)) (F64.mul (F64.ofRat (25 / 100)) leaseFreshness))
  let penalty := F64.min
    (F64.add (F64.mul (F64.ofInt candidate.clientFailStreak) (F64.ofRat (15 / 100)))
      (F64.mul (F64.ofInt candidate.clientRateLimitStreak) (F64.ofRat (25 / 100))))
    (F64.ofRat (1 / 2))
  minus (F64.add (F64.add (F64.add (F64.add (F64.mul config.weights.latency latency)
    (F64.mul config.weights.download download))
    (F64.mul config.weights.availability availability))
    (F64.mul config.weights.fairness fairness))
    (F64.mul config.weights.clientHistory history)) penalty

/-- `max_by` compares two scores, each by its own reading of the clock. -/
def keepsRight [F64Total F] (clock : ℕ → Time) (k : ℕ)
    (left right : CandidateForSelection F) : Bool :=
  F64Total.totalLe (config.score (clock (2 * k)) left) (config.score (clock (2 * k + 1)) right)

end SelectionConfig

/-- The candidates without those whose circuit is open. -/
def Store.selectableCandidates (s : Store F) (tables : FeedbackTables F)
    (config : SelectionConfig F) (client : String) (now : Time) :
    List (CandidateForSelection F) :=
  (s.candidatesForClient tables.reads now client config.assignmentTtlSeconds).filter
    fun candidate => !candidate.circuitOpen

/-- The candidates among which a call chooses. -/
def SelectionView.sampled (view : SelectionView) (config : SelectionConfig F)
    (selectable : List (CandidateForSelection F)) : List (CandidateForSelection F) :=
  let sampleSize := max (min config.sampleSize selectable.length) 1
  pick selectable (view.sample sampleSize selectable.length)

/-- A call reads the `tables` of its query, and writes the `later` ones of its transaction. -/
def best [F64Total F] (s : Store F) (tables later : FeedbackTables F)
    (config : SelectionConfig F) (client : String) (view : SelectionView) :
    FeedbackTables F × Except String (Option BestDecision) :=
  match view.queried with
  | .error error => (later, .error error)
  | .ok () =>
    let selectable := s.selectableCandidates tables config client view.now
    if selectable.isEmpty then (later, .ok none)
    else
      match view.sampled config selectable with
      | [] => (later, .error "non-empty sample")
      | first :: rest =>
        let chosen := maxBy (config.keepsRight view.clock) 0 first rest
        match chosen.mainPort with
        | none => (later, .error "selected node has no runtime port")
        | some mainPort =>
          let port := mainPort % 2 ^ 16
          match view.recorded with
          | .error error => (later, .error error)
          | .ok () =>
            (later.recordAssignment view.assignmentId client chosen.id port view.recordedAt,
              .ok (some {
                nodeId := chosen.id
                port := port
                assignmentId := view.assignmentId
                relayDelayMs := chosen.relayDelayMs
                expiresInSeconds := config.assignmentTtlSeconds }))

end Best

/-- The node may be handed to the client. -/
structure Node.Assignable (row : Node F) (tables : FeedbackTables F) (client : String)
    (now : Time) : Prop where
  active : row.lifecycleState = .active
  valid : row.structurallyValid = true
  leased : ∃ lease ∈ row.publicationLeaseUntil, now < lease
  served : row.mainPort.isSome = true
  closed : tables.reads.circuitOpen client row.id now = false

/-- The candidate that a row becomes. -/
def Node.candidate (row : Node F) (tables : ClientTables F) (now : Time) (client : String)
    (assignmentTtlSeconds : ℕ) : CandidateForSelection F :=
  let state := tables.stateOf client row.id
  { id := row.id
    mainPort := row.mainPort
    relayDelayMs := row.relayDelayMs
    downloadKbps := row.downloadKbps
    healthScore := row.healthScore
    publicationLeaseUntil := row.publicationLeaseUntil
    activeAssignments := tables.assignmentsSince row.id (now - seconds assignmentTtlSeconds)
    recentGlobalUsage := tables.usageSince row.id (now - minutes 5)
    recentClientUsage := tables.clientUsageSince client row.id (now - minutes 30)
    clientSuccessEwma := state.bind (·.successRateEwma)
    clientFailStreak := (state.bind (·.failStreak)).getD 0
    clientRateLimitStreak := (state.bind (·.rateLimitStreak)).getD 0
    circuitOpen := false }

section Candidates

variable {s : Store F} {tables : FeedbackTables F} {client : String} {now : Time}

theorem Node.not_leaseExpired_iff {row : Node F} :
    row.leaseExpired now = false ↔ ∃ lease ∈ row.publicationLeaseUntil, now < lease := by
  rw [leaseExpired]
  cases row.publicationLeaseUntil with
  | none => simp
  | some lease => simp

theorem Node.assignable_iff {row : Node F} :
    row.Assignable tables client now ↔
      row.selectable now = true ∧ tables.reads.circuitOpen client row.id now = false := by
  rw [selectable, runnable, Bool.and_eq_true, Bool.and_eq_true, Bool.and_eq_true,
    decide_eq_true_eq, Bool.not_eq_true', not_leaseExpired_iff]
  constructor
  · intro h
    exact ⟨⟨⟨⟨h.active, h.valid⟩, h.leased⟩, h.served⟩, h.closed⟩
  · rintro ⟨⟨⟨⟨hactive, hvalid⟩, hleased⟩, hserved⟩, hclosed⟩
    exact ⟨hactive, hvalid, hleased, hserved, hclosed⟩

/-- The filter behind the query leaves out what the query has left out already. -/
theorem Store.mem_selectableCandidates {config : SelectionConfig F}
    {candidate : CandidateForSelection F} :
    candidate ∈ s.selectableCandidates tables config client now ↔
      ∃ row ∈ s.nodes, row.Assignable tables client now ∧
        row.candidate tables.reads now client config.assignmentTtlSeconds = candidate := by
  rw [selectableCandidates, List.mem_filter, candidatesForClient, List.mem_filterMap]
  constructor
  · rintro ⟨⟨row, hrow, hcandidate⟩, -⟩
    obtain ⟨hmem, hselectable⟩ := List.mem_filter.mp hrow
    cases hopen : tables.reads.circuitOpen client row.id now with
    | true =>
      rw [if_pos hopen] at hcandidate
      cases hcandidate
    | false =>
      rw [if_neg (Bool.eq_false_iff.mp hopen)] at hcandidate
      exact ⟨row, hmem, Node.assignable_iff.mpr ⟨hselectable, hopen⟩,
        Option.some.inj hcandidate⟩
  · rintro ⟨row, hmem, hassignable, rfl⟩
    obtain ⟨hselectable, hclosed⟩ := Node.assignable_iff.mp hassignable
    refine ⟨⟨row, List.mem_filter.mpr ⟨hmem, hselectable⟩, ?_⟩, rfl⟩
    rw [if_neg (Bool.eq_false_iff.mp hclosed)]
    rfl

theorem Store.selectableCandidates_eq_nil_iff {config : SelectionConfig F} :
    s.selectableCandidates tables config client now = [] ↔
      ∀ row ∈ s.nodes, ¬ row.Assignable tables client now := by
  rw [List.eq_nil_iff_forall_not_mem]
  constructor
  · intro h row hrow hassignable
    exact h _ (mem_selectableCandidates.mpr ⟨row, hrow, hassignable, rfl⟩)
  · intro h candidate hcandidate
    obtain ⟨row, hrow, hassignable, -⟩ := mem_selectableCandidates.mp hcandidate
    exact h row hrow hassignable

end Candidates

section Sampled

variable {config : SelectionConfig F} {view : SelectionView}
  {selectable : List (CandidateForSelection F)}

theorem sampled_ne_nil (h : selectable ≠ []) : view.sampled config selectable ≠ [] :=
  pick_ne_nil (lt_max_of_lt_right Nat.one_pos) h

theorem mem_of_mem_sampled {candidate : CandidateForSelection F}
    (h : candidate ∈ view.sampled config selectable) : candidate ∈ selectable :=
  mem_of_mem_pick h

theorem mem_sampled_of_length_le (h : selectable.length ≤ config.sampleSize) :
    ∀ other ∈ selectable, other ∈ view.sampled config selectable := by
  intro other hother
  apply mem_pick_of_length_le _ hother
  rw [min_eq_right h]
  exact le_max_left _ _

end Sampled

/-- One assignment and one usage event stand for a decision. -/
structure RecordedOnce (client : String) (decision : BestDecision)
    (before after : FeedbackTables F) : Prop where
  assignment : ∃ a : AssignmentRow, after.assignments = before.assignments ++ [a] ∧
    a.id = decision.assignmentId ∧ a.clientId = client ∧ a.nodeId = decision.nodeId ∧
    a.port = decision.port
  usage : ∃ u : UsageRow, after.usage = before.usage ++ [u] ∧ u.clientId = client ∧
    u.nodeId = decision.nodeId ∧ u.eventType = "assigned"

theorem recordedOnce_recordAssignment [F64 F] {later : FeedbackTables F} {client : String}
    {decision : BestDecision} {now : Time} :
    RecordedOnce client decision later
      (later.recordAssignment decision.assignmentId client decision.nodeId decision.port now) :=
  ⟨⟨_, rfl, rfl, rfl, rfl, rfl⟩, ⟨_, rfl, rfl, rfl, rfl⟩⟩

section Selection

variable [F64 F] [F64Total F]

/-- A row is the right one for a decision: it may be assigned, and at any instant at which all
scores are taken none of the others in the sample exceeds it. A sample that may hold all the
candidates leaves none out. -/
structure RightChoice (s : Store F) (tables : FeedbackTables F) (config : SelectionConfig F)
    (client : String) (view : SelectionView) (row : Node F) (decision : BestDecision) : Prop where
  assignable : row.Assignable tables client view.now
  nodeId : decision.nodeId = row.id
  port : row.mainPort.map (· % 2 ^ 16) = some decision.port
  sampled : row.candidate tables.reads view.now client config.assignmentTtlSeconds ∈
    view.sampled config (s.selectableCandidates tables config client view.now)
  maximal : ∀ instant, (∀ k, view.clock k = instant) →
    ∀ other ∈ view.sampled config (s.selectableCandidates tables config client view.now),
      F64Total.totalLe (config.score instant other) (config.score instant
        (row.candidate tables.reads view.now client config.assignmentTtlSeconds)) = true
  complete : (s.selectableCandidates tables config client view.now).length ≤ config.sampleSize →
    ∀ other ∈ s.selectableCandidates tables config client view.now,
      other ∈ view.sampled config (s.selectableCandidates tables config client view.now)

/-- What a call owes to its client. It fails only if the query or the transaction does. -/
structure SoundSelection (s : Store F) (tables later : FeedbackTables F)
    (config : SelectionConfig F) (client : String) (view : SelectionView)
    (result : FeedbackTables F × Except String (Option BestDecision)) : Prop where
  failed : ∀ error, result.2 = .error error →
    view.queried = .error error ∨ view.recorded = .error error
  unavailable : view.queried = .ok () →
    (result.2 = .ok none ↔ ∀ row ∈ s.nodes, ¬ row.Assignable tables client view.now)
  unchanged : (∀ decision, result.2 ≠ .ok (some decision)) → result.1 = later
  chosen : ∀ decision, result.2 = .ok (some decision) →
    ∃ row ∈ s.nodes, RightChoice s tables config client view row decision
  recorded : ∀ decision, result.2 = .ok (some decision) →
    RecordedOnce client decision later result.1

theorem le_maxBy_keepsRight {config : SelectionConfig F} {view : SelectionView}
    {instant : Time} {first : CandidateForSelection F} {rest : List (CandidateForSelection F)}
    (hclock : ∀ k, view.clock k = instant) :
    ∀ other ∈ first :: rest, F64Total.totalLe (config.score instant other)
      (config.score instant (maxBy (config.keepsRight view.clock) 0 first rest)) = true := by
  apply le_maxBy (r := fun left right =>
    F64Total.totalLe (config.score instant left) (config.score instant right))
  · intro a b c
    exact F64Total.totalLe_trans _ _ _
  · intro a b
    exact F64Total.totalLe_total _ _
  · intro k
    funext left right
    rw [SelectionConfig.keepsRight, hclock, hclock]

variable (s : Store F) (tables later : FeedbackTables F) (config : SelectionConfig F)
  (client : String) (view : SelectionView)

/-- How a call ends. -/
theorem best_cases :
    (∃ error, view.queried = .error error ∧
      best s tables later config client view = (later, .error error)) ∨
    (view.queried = .ok () ∧ s.selectableCandidates tables config client view.now = [] ∧
      best s tables later config client view = (later, .ok none)) ∨
    view.queried = .ok () ∧ s.selectableCandidates tables config client view.now ≠ [] ∧
      ∃ row ∈ s.nodes, ∃ decision, RightChoice s tables config client view row decision ∧
        ((∃ error, view.recorded = .error error ∧
          best s tables later config client view = (later, .error error)) ∨
        best s tables later config client view =
          (later.recordAssignment decision.assignmentId client decision.nodeId decision.port
            view.recordedAt, .ok (some decision))) := by
  cases hqueried : view.queried with
  | error error =>
    refine .inl ⟨error, rfl, ?_⟩
    simp only [best, hqueried]
  | ok value =>
    obtain rfl : value = () := rfl
    refine .inr ?_
    by_cases hnone : s.selectableCandidates tables config client view.now = []
    · refine .inl ⟨rfl, hnone, ?_⟩
      simp only [best, hqueried, hnone, List.isEmpty_nil, if_true]
    · refine .inr ⟨rfl, hnone, ?_⟩
      have hempty : (s.selectableCandidates tables config client view.now).isEmpty = false :=
        List.isEmpty_eq_false_iff.mpr hnone
      obtain ⟨first, rest, hsampled⟩ :=
        List.exists_cons_of_ne_nil (sampled_ne_nil hnone)
      have hmem : maxBy (config.keepsRight view.clock) 0 first rest ∈
          view.sampled config (s.selectableCandidates tables config client view.now) := by
        rw [hsampled]
        exact maxBy_mem
      obtain ⟨row, hrow, hassignable, hcandidate⟩ :=
        Store.mem_selectableCandidates.mp (mem_of_mem_sampled hmem)
      obtain ⟨mainPort, hport⟩ := Option.isSome_iff_exists.mp hassignable.served
      have hmainPort : (maxBy (config.keepsRight view.clock) 0 first rest).mainPort =
          some mainPort := by
        rw [← hcandidate]
        exact hport
      refine ⟨row, hrow, ⟨row.id, mainPort % 2 ^ 16, view.assignmentId, row.relayDelayMs,
        config.assignmentTtlSeconds⟩, ⟨hassignable, rfl, ?_, ?_, ?_, ?_⟩, ?_⟩
      · rw [hport, Option.map_some]
      · rw [hcandidate]
        exact hmem
      · intro instant hclock
        rw [hcandidate, hsampled]
        exact le_maxBy_keepsRight hclock
      · exact mem_sampled_of_length_le
      · simp only [best, hqueried, hempty, hsampled, hmainPort, Bool.false_eq_true, if_false]
        cases hrecorded : view.recorded with
        | error error => exact .inl ⟨error, rfl, rfl⟩
        | ok _ =>
          refine .inr ?_
          rw [← hcandidate]
          rfl

namespace SoundSelection

variable {s tables later config client view}

theorem error {error : String}
    (hfailed : view.queried = .error error ∨ view.recorded = .error error)
    (hsome : view.queried = .ok () → ¬ ∀ row ∈ s.nodes, ¬ row.Assignable tables client view.now) :
    SoundSelection s tables later config client view (later, .error error) where
  failed error' h := by
    obtain rfl := Except.error.inj h
    exact hfailed
  unavailable h := iff_of_false (by simp) (hsome h)
  unchanged _ := rfl
  chosen decision h := by cases h
  recorded decision h := by cases h

theorem none (h : ∀ row ∈ s.nodes, ¬ row.Assignable tables client view.now) :
    SoundSelection s tables later config client view (later, .ok none) where
  failed error h := by cases h
  unavailable _ := iff_of_true rfl h
  unchanged _ := rfl
  chosen decision h := by cases h
  recorded decision h := by cases h

theorem some {row : Node F} {decision : BestDecision} (hrow : row ∈ s.nodes)
    (hchoice : RightChoice s tables config client view row decision) :
    SoundSelection s tables later config client view
      (later.recordAssignment decision.assignmentId client decision.nodeId decision.port
        view.recordedAt, .ok (some decision)) where
  failed error h := by cases h
  unavailable _ := iff_of_false (by simp) fun h => h row hrow hchoice.assignable
  unchanged h := absurd rfl (h decision)
  chosen decision' h := by
    obtain rfl := Option.some.inj (Except.ok.inj h)
    exact ⟨row, hrow, hchoice⟩
  recorded decision' h := by
    obtain rfl := Option.some.inj (Except.ok.inj h)
    exact recordedOnce_recordAssignment

end SoundSelection

/-- A selection is safe and available, whatever its environment answers. -/
theorem selection_sound :
    SoundSelection s tables later config client view
      (best s tables later config client view) := by
  obtain ⟨error, hqueried, hbest⟩ | ⟨-, hnone, hbest⟩ |
      ⟨-, hsome, row, hrow, decision, hchoice, ⟨error, hrecorded, hbest⟩ | hbest⟩ :=
    best_cases s tables later config client view
  · rw [hbest]
    apply SoundSelection.error (.inl hqueried)
    intro hok
    cases hqueried.symm.trans hok
  · rw [hbest]
    exact .none (Store.selectableCandidates_eq_nil_iff.mp hnone)
  · rw [hbest]
    apply SoundSelection.error (.inr hrecorded)
    exact fun _ h => hsome (Store.selectableCandidates_eq_nil_iff.mpr h)
  · rw [hbest]
    exact .some hrow hchoice

end Selection

end ProxyFleet
