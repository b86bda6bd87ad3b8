import ProxyFleet.StoreRuns

/-!
# The history of a node

The observer writes down every event that a run applies to a node, newest first.
A node's history starts with its row. Writes other than events leave the evidence
summaries of a row alone, and a lifecycle state enters a row in few ways.
-/
namespace ProxyFleet

variable {F : Type}

/-- An event that was applied, with the state it met and the state it decided. -/
structure AppliedEvent where
  proxyId : String
  runId : String
  stage : TestStage
  failureClass : FailureClass
  fastDownload : Bool
  time : Time
  prior : LifecycleState
  decided : LifecycleState

/-- The entries of one node. -/
def ownHistory (id : String) (log : List AppliedEvent) : List AppliedEvent :=
  log.filter fun e => e.proxyId = id

variable [F64 F]

/-- The entry that an event leaves when it is applied to `row`. -/
def Node.entry (row : Node F) (s : Store F) (now : Time) (event : TestEventInput F)
    (cadence : Cadence) (draw : ℕ) : AppliedEvent where
  proxyId := event.proxyId
  runId := event.runId
  stage := event.stage
  failureClass := event.failureClass
  fastDownload := event.fastDownload
  time := now
  prior := row.seenLifecycle
  decided := (row.applyEvent (s.scored now event) event cadence now draw).lifecycleState

/-- The notes after one write. A new row starts a new history. -/
def noteEvent (log : List AppliedEvent) (s : Store F) : Write F → List AppliedEvent
  | .applyTestEvent now event cadence draw =>
      match s.findNode event.proxyId with
      | some row =>
        if s.alreadyApplied event then log else row.entry s now event cadence draw :: log
      | none => log
  | .ingestOne _ _ newId _ =>
      if s.nodes.any fun row => row.id = newId then log
      else log.filter fun e => e.proxyId ≠ newId
  | _ => log

/-- The history of a run that starts on an empty database. -/
abbrev history (ws : List (Write F)) : List AppliedEvent :=
  ObservedRuns.notes Store.write noteEvent [] Store.empty ws

section OwnHistory

variable {s : Store F} {log : List AppliedEvent} {row : Node F}

theorem noteEvent_applied (hk : s.WellKeyed) (hr : row ∈ s.nodes) {now : Time}
    {event : TestEventInput F} {cadence : Cadence} {draw : ℕ} (own : row.id = event.proxyId)
    (fresh : s.accepts event = true) :
    noteEvent log s (.applyTestEvent now event cadence draw) =
      row.entry s now event cadence draw :: log := by
  have hf : s.findNode event.proxyId = some row := own ▸ Store.findNode_eq_some hk hr
  have ha : s.alreadyApplied event = false := by
    simpa [Store.accepts, hf] using fresh
  simp [noteEvent, hf, ha]

theorem ownHistory_applied (hk : s.WellKeyed) (hr : row ∈ s.nodes) {now : Time}
    {event : TestEventInput F} {cadence : Cadence} {draw : ℕ} (own : row.id = event.proxyId)
    (fresh : s.accepts event = true) :
    ownHistory row.id (noteEvent log s (.applyTestEvent now event cadence draw)) =
      row.entry s now event cadence draw :: ownHistory row.id log := by
  rw [noteEvent_applied hk hr own fresh, ownHistory, List.filter_cons_of_pos]
  · rfl
  · simp [Node.entry, own]

/-- Whatever is not an event on the node leaves its history. -/
theorem ownHistory_of_unapplied (hr : row ∈ s.nodes) {w : Write F}
    (h : ∀ now event cadence draw, w = .applyTestEvent now event cadence draw →
      ¬ (row.id = event.proxyId ∧ s.accepts event = true)) :
    ownHistory row.id (noteEvent log s w) = ownHistory row.id log := by
  cases w with
  | applyTestEvent now event cadence draw =>
    have hn := h now event cadence draw rfl
    cases hf : s.findNode event.proxyId with
    | none => simp [noteEvent, hf]
    | some found =>
      cases ha : s.alreadyApplied event with
      | true => simp [noteEvent, hf, ha]
      | false =>
        have hid : event.proxyId ≠ row.id := by
          intro he
          exact hn ⟨he.symm, by simp [Store.accepts, hf, ha]⟩
        simp [noteEvent, hf, ha, ownHistory, Node.entry, hid]
  | ingestOne now proxy newId generation =>
    simp only [noteEvent]
    split
    · rfl
    next hnew =>
      have hid : row.id ≠ newId := by
        intro he
        exact hnew (by simpa using ⟨row, hr, he⟩)
      rw [ownHistory, ownHistory, List.filter_filter]
      apply List.filter_congr
      intro e _
      by_cases he : e.proxyId = row.id <;> simp [he, hid]
  | _ => rfl

/-- A new row has no history. -/
theorem ownHistory_inserted {w : Write F} (h : Inserts s w row) :
    ownHistory row.id (noteEvent log s w) = [] := by
  obtain ⟨id, -⟩ := h
  next now proxy newId generation =>
  have hnew : (s.nodes.any fun row => row.id = newId) = false := by simpa using id
  simp only [noteEvent, hnew, ownHistory, Node.ingested, Bool.false_eq_true, if_false,
    List.filter_filter, List.filter_eq_nil_iff]
  intro e _
  by_cases he : e.proxyId = newId <;> simp [he]

end OwnHistory

/-- Row ids are drawn at random: a new row never takes the id of a recorded event. -/
def Write.FreshId (s : Store F) : Write F → Prop
  | .ingestOne _ _ newId _ => ∀ e ∈ s.events, e.proxyId ≠ newId
  | _ => True

instance (s : Store F) (w : Write F) : Decidable (w.FreshId s) := by
  cases w <;> unfold Write.FreshId <;> infer_instance

namespace Store

omit [F64 F] in
@[simp] theorem insertMember_events (s : Store F) (member : GenerationMember) :
    (s.insertMember member).events = s.events := by
  unfold insertMember
  split <;> rfl

omit [F64 F] in
@[simp] theorem foldl_insertMember_events {α : Type} (toMember : α → GenerationMember)
    (items : List α) (s : Store F) :
    (items.foldl (fun t item => t.insertMember (toMember item)) s).events = s.events := by
  induction items generalizing s with
  | nil => rfl
  | cons item items ih => simp [ih]

/-- Only an accepted event writes to the event log. -/
theorem events_write (s : Store F) (w : Write F) :
    (∃ now event cadence draw, w = .applyTestEvent now event cadence draw ∧
      s.accepts event = true ∧ (s.write w).events = (s.recordTestEvent now event).events) ∨
    (∀ now event cadence draw, w = .applyTestEvent now event cadence draw →
      s.accepts event = false) ∧ (s.write w).events = s.events := by
  cases w with
  | applyTestEvent now event cadence draw =>
    rw [write_applyTestEvent]
    cases hacc : s.accepts event with
    | true => exact .inl ⟨now, event, cadence, draw, rfl, hacc, rfl⟩
    | false =>
      refine .inr ⟨?_, rfl⟩
      rintro _ _ _ _ ⟨⟩
      exact hacc
  | ingestOne now proxy newId generation =>
    refine .inr ⟨by simp, ?_⟩
    simp only [write, ingestOne]
    split
    · simp [updateNodes]
    · split <;> simp
  | copyCachedSourceGeneration sourceName generation =>
    refine .inr ⟨by simp, ?_⟩
    simp only [write, copyCachedSourceGeneration]
    split
    · rfl
    · simp [updateNodes]
  | reviveNode now id =>
    refine .inr ⟨by simp, ?_⟩
    simp only [write, reviveNode]
    split <;> rfl
  | scheduleManualTest now id =>
    refine .inr ⟨by simp, ?_⟩
    simp only [write, scheduleManualTest]
    split <;> rfl
  | seedLegacyDownloadLeases now leaseHours =>
    refine .inr ⟨by simp, ?_⟩
    simp only [write, seedLegacyDownloadLeases]
    split <;> rfl
  | recordSourceSuccess now name url etag lastModified =>
    refine .inr ⟨by simp, ?_⟩
    simp only [write, recordSourceSuccess]
    split <;> rfl
  | recordSourceFailure name url =>
    refine .inr ⟨by simp, ?_⟩
    simp only [write, recordSourceFailure]
    split <;> rfl
  | _ => exact .inr ⟨by simp, rfl⟩

end Store

theorem noteEvent_accepted {s : Store F} {event : TestEventInput F} (h : s.accepts event = true)
    (log : List AppliedEvent) (now : Time) (cadence : Cadence) (draw : ℕ) :
    ∃ row : Node F, noteEvent log s (.applyTestEvent now event cadence draw) =
      row.entry s now event cadence draw :: log := by
  unfold Store.accepts at h
  cases hf : s.findNode event.proxyId with
  | none => simp [hf] at h
  | some row =>
    have ha : s.alreadyApplied event = false := by simpa [hf] using h
    exact ⟨row, by simp [noteEvent, hf, ha]⟩

theorem noteEvent_subset {s : Store F} {w : Write F}
    (h : ∀ now event cadence draw, w = .applyTestEvent now event cadence draw →
      s.accepts event = false) (log : List AppliedEvent) : noteEvent log s w ⊆ log := by
  cases w with
  | applyTestEvent now event cadence draw =>
    have hacc := h now event cadence draw rfl
    unfold Store.accepts at hacc
    simp only [noteEvent]
    split
    · next hf =>
      rw [if_pos (by simpa [hf] using hacc)]
      exact fun _ he => he
    · exact fun _ he => he
  | ingestOne now proxy newId generation =>
    simp only [noteEvent]
    split
    · exact fun _ he => he
    · exact List.filter_subset_self log
  | _ => exact fun _ he => he

/-- The columns that summarise the evidence of a node. -/
structure EvidenceSummary where
  activatedAt : Option Time
  lastSuccessAt : Option Time
  lastRealDownloadAt : Option Time
  lastFailureClass : Option FailureClass
  lastFailureRunId : Option String
  successStreak : ℤ
  failureStreak : ℤ
  independentFailureCount : ℤ
  deriving DecidableEq

def Node.summary (row : Node F) : EvidenceSummary where
  activatedAt := row.activatedAt
  lastSuccessAt := row.lastSuccessAt
  lastRealDownloadAt := row.lastRealDownloadAt
  lastFailureClass := row.lastFailureClass
  lastFailureRunId := row.lastFailureRunId
  successStreak := row.successStreak
  failureStreak := row.failureStreak
  independentFailureCount := row.independentFailureCount

/-- The state stands in one of the four columns that hold lifecycle states. -/
def Node.Stores (row : Node F) (state : LifecycleState) : Prop :=
  row.lifecycleState = state ∨ row.status = state ∨ row.testingFromState = some state ∨
    row.waitingFromState = some state

omit [F64 F] in
theorem Node.stores_seenLifecycle (row : Node F) : row.Stores row.seenLifecycle := by
  unfold seenLifecycle
  split
  · cases h : row.testingFromState with
    | none => exact .inr (.inl rfl)
    | some state => exact .inr (.inr (.inl h))
  · exact .inl rfl

namespace RowStep

variable {s : Store F} {w : Write F} {row row' : Node F}

/-- A step is an event on the row, or it leaves the row's history and summaries alone. -/
theorem event_or_frame (hr : row ∈ s.nodes) (h : RowStep s w row row') :
    (∃ now event cadence draw, w = .applyTestEvent now event cadence draw ∧
      row.id = event.proxyId ∧ s.accepts event = true ∧
      row' = row.applyEvent (s.scored now event) event cadence now draw) ∨
    (∀ log, ownHistory row.id (noteEvent log s w) = ownHistory row.id log) ∧
      row'.summary = row.summary ∧
      (row'.publicationLeaseUntil = row.publicationLeaseUntil ∨
        row.legacySeedable = true) := by
  have frame : (∀ now event cadence draw, w = .applyTestEvent now event cadence draw →
      ¬ (row.id = event.proxyId ∧ s.accepts event = true)) →
      ∀ log, ownHistory row.id (noteEvent log s w) = ownHistory row.id log :=
    fun hn log => ownHistory_of_unapplied hr hn
  cases h with
  | applied _ own fresh => exact .inl ⟨_, _, _, _, rfl, own, fresh, rfl⟩
  | kept _ hn | port _ _ hn | metadata _ _ _ hn =>
    refine .inr ⟨frame ?_, rfl, .inl rfl⟩
    rintro now event cadence draw rfl
    exact hn
  | seeded _ hs => exact .inr ⟨frame (by simp), rfl, .inr hs⟩
  | reingested | claimed | released | waiting | missed | missedRetired | retired | seenAgain
  | dormantRevived | revived | scheduled =>
    exact .inr ⟨frame (by simp), rfl, .inl rfl⟩

/-- A state that a step newly stores was decided by an event, or is one of the states that
the statements write themselves. -/
theorem stores {state : LifecycleState} (h : RowStep s w row row') (hs : row'.Stores state) :
    row.Stores state ∨
      state ∈ [LifecycleState.candidate, .testing, .waitingForPort, .retired] ∨
      (state = .probation ∧
        ((∃ now, w = .reviveDormant now ∧ row.lifecycleState = .dormant ∧
            row.structurallyValid = true) ∨
          ∃ now, w = .reviveNode now row.id ∧ row.revivable = true)) ∨
      ∃ now event cadence draw, w = .applyTestEvent now event cadence draw ∧
        row.id = event.proxyId ∧ s.accepts event = true ∧
        row' = row.applyEvent (s.scored now event) event cadence now draw ∧
        row'.lifecycleState = state := by
  cases h with
  | kept | port | metadata | missed | seenAgain | scheduled | seeded => exact .inl hs
  | @reingested now proxy newId generation _ hash =>
    by_cases hret : row.lifecycleState = .retired
    · obtain h | h | h | h := hs
      · exact .inr (.inl (by simp [← h, Node.reingested, hret]))
      · exact .inr (.inl (by simp [← h, Node.reingested, hret]))
      · exact .inl (.inr (.inr (.inl h)))
      · exact .inl (.inr (.inr (.inr h)))
    · left
      simpa [Node.Stores, Node.reingested, hret] using hs
  | claimed _ own free =>
    obtain rfl | rfl | h | h := hs
    · exact .inr (.inl (by simp [Node.claimed]))
    · exact .inr (.inl (by simp [Node.claimed]))
    · simp only [Node.claimed, Option.some.injEq] at h
      split at h
      · cases hw : row.waitingFromState with
        | none => exact .inr (.inl (by simp [← h, hw]))
        | some origin => exact .inl (.inr (.inr (.inr (by simpa [hw] using h))))
      · exact .inl (.inl h)
    · simp [Node.claimed] at h
  | @applied now event cadence draw _ own fresh =>
    obtain h | h | h | h := hs
    · exact .inr (.inr (.inr ⟨now, event, cadence, draw, rfl, own, fresh, rfl, h⟩))
    · exact .inr (.inr (.inr ⟨now, event, cadence, draw, rfl, own, fresh, rfl, h⟩))
    · simp [Node.applyEvent, Node.applyDecision] at h
    · exact .inl (.inr (.inr (.inr h)))
  | released _ own testing =>
    left
    cases ht : row.testingFromState <;> simp only [Node.Stores, Node.released, ht] at hs ⊢ <;>
      grind
  | waiting _ own valid =>
    obtain rfl | rfl | h | h := hs
    · exact .inr (.inl (by simp [Node.waiting]))
    · exact .inr (.inl (by simp [Node.waiting]))
    · simp [Node.waiting] at h
    · exact .inl (.inl (by simpa [Node.waiting] using h))
  | missedRetired | retired =>
    obtain rfl | rfl | h | h := hs
    · exact .inr (.inl (by simp [Node.retired]))
    · exact .inr (.inl (by simp [Node.retired]))
    · exact .inl (.inr (.inr (.inl h)))
    · exact .inl (.inr (.inr (.inr h)))
  | @dormantRevived now _ dormant valid =>
    obtain h | h | h | h := hs
    · exact .inr (.inr (.inl ⟨h.symm, .inl ⟨now, rfl, dormant, valid⟩⟩))
    · exact .inr (.inr (.inl ⟨h.symm, .inl ⟨now, rfl, dormant, valid⟩⟩))
    · exact .inl (.inr (.inr (.inl h)))
    · exact .inl (.inr (.inr (.inr h)))
  | @revived now id _ own revivable =>
    obtain h | h | h | h := hs
    · exact .inr (.inr (.inl ⟨h.symm, .inr ⟨now, by rw [own], revivable⟩⟩))
    · exact .inr (.inr (.inl ⟨h.symm, .inr ⟨now, by rw [own], revivable⟩⟩))
    · simp [Node.revived] at h
    · exact .inl (.inr (.inr (.inr h)))

end RowStep

end ProxyFleet
