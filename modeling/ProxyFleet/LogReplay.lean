import ProxyFleet.PublicationLease

/-!
# Replay of the event log

A row caches what the events of its node add up to. The log keeps all that their effect
depended on, the flag of a fast download in the weight of its success. A replay of the
node's rows of the log, in the order of their ids, gives the cached columns back.
-/
namespace ProxyFleet

variable {F : Type}

/-- The cached columns. -/
structure Aggregates (F : Type) where
  failureStreak : ℤ
  successStreak : ℤ
  independentFailureCount : ℤ
  lastFailureRunId : Option String
  lastFailureClass : Option FailureClass
  lastSuccessAt : Option Time
  lastRealDownloadAt : Option Time
  publicationLeaseUntil : Option Time
  healthAlpha : F
  healthBeta : F
  healthScore : F
  deriving DecidableEq

def Node.aggregates (row : Node F) : Aggregates F where
  failureStreak := row.failureStreak
  successStreak := row.successStreak
  independentFailureCount := row.independentFailureCount
  lastFailureRunId := row.lastFailureRunId
  lastFailureClass := row.lastFailureClass
  lastSuccessAt := row.lastSuccessAt
  lastRealDownloadAt := row.lastRealDownloadAt
  publicationLeaseUntil := row.publicationLeaseUntil
  healthAlpha := row.healthAlpha
  healthBeta := row.healthBeta
  healthScore := row.healthScore

/-- The rows of the log about one node, in the order of their ids. -/
def Store.eventsOf (s : Store F) (id : String) : List (TestEvent F) :=
  (s.events.filter fun e => e.proxyId = id).insertionSort fun a b => a.id ≤ b.id

variable [F64 F]

/-- The weight of a fast download's success is more than that of another success. -/
def TestEvent.fastDownload (e : TestEvent F) : Bool := F64.le (F64.ofRat 8) e.evidenceAlpha

/-- Both weights of the last thirty days, from the rows of one node. -/
def evidenceTotals (rows : List (TestEvent F)) (now : Time) : F × F :=
  let recent := ((rows.filter fun e => now - days 30 ≤ e.occurredAt).insertionSort
    TestEvent.NewerFirst).take maxEvidenceEventsPerNode
  let totals := recent.foldl (TestEvent.accumulate now) (F64.ofRat 1, F64.ofRat 1)
  (F64.min totals.1 (F64.ofRat maxEffectiveAlpha), F64.min totals.2 (F64.ofRat maxEffectiveBeta))

namespace Aggregates

/-- The columns of a new row. -/
def initial : Aggregates F where
  failureStreak := 0
  successStreak := 0
  independentFailureCount := 0
  lastFailureRunId := none
  lastFailureClass := none
  lastSuccessAt := none
  lastRealDownloadAt := none
  publicationLeaseUntil := none
  healthAlpha := F64.ofRat 1
  healthBeta := F64.ofRat 1
  healthScore := F64.ofRat (1 / 2)

/-- One row of the log, with the weights up to it. -/
def replayEvent (h : Aggregates F) (totals : F × F) (e : TestEvent F) : Aggregates F :=
  let succeeded := e.failureClass = .success
  let failed := e.failureClass.conclusiveFailure
  let window := leaseUntil e.stage e.fastDownload e.occurredAt
  { failureStreak :=
      if succeeded then 0
      else if failed then saturatingSucc (asU32 h.failureStreak)
      else asU32 h.failureStreak
    successStreak :=
      if succeeded then h.successStreak + 1 else if failed then 0 else h.successStreak
    independentFailureCount :=
      if succeeded then 0
      else if failed ∧ h.lastFailureRunId ≠ some e.runId then
        saturatingSucc (asU32 h.independentFailureCount)
      else asU32 h.independentFailureCount
    lastFailureRunId := if failed then some e.runId else h.lastFailureRunId
    lastFailureClass := if failed then some e.failureClass else h.lastFailureClass
    lastSuccessAt := if succeeded then some e.occurredAt else h.lastSuccessAt
    lastRealDownloadAt :=
      if succeeded ∧ e.stage = .download then some e.occurredAt else h.lastRealDownloadAt
    publicationLeaseUntil :=
      if succeeded then some ((h.publicationLeaseUntil.map (max · window)).getD window)
      else h.publicationLeaseUntil
    healthAlpha := totals.1
    healthBeta := totals.2
    healthScore := health totals.1 totals.2 }

end Aggregates

/-- The replay of rows that come after the rows `seen`. -/
def replayFrom (seen : List (TestEvent F)) (h : Aggregates F) :
    List (TestEvent F) → Aggregates F
  | [] => h
  | e :: rows =>
    replayFrom (seen ++ [e]) (h.replayEvent (evidenceTotals (seen ++ [e]) e.occurredAt) e) rows

/-- The columns that the rows of the log add up to. -/
def replay (rows : List (TestEvent F)) : Aggregates F := replayFrom [] Aggregates.initial rows

theorem replayFrom_concat (seen : List (TestEvent F)) (h : Aggregates F) (rows : List (TestEvent F))
    (e : TestEvent F) : replayFrom seen h (rows ++ [e]) = (replayFrom seen h rows).replayEvent
      (evidenceTotals (seen ++ rows ++ [e]) e.occurredAt) e := by
  induction rows generalizing seen h with
  | nil => simp [replayFrom]
  | cons other rows ih =>
    rw [List.cons_append, replayFrom, replayFrom, ih]
    simp

/-- The newest row is replayed last. -/
theorem replay_concat (rows : List (TestEvent F)) (e : TestEvent F) :
    replay (rows ++ [e]) =
      (replay rows).replayEvent (evidenceTotals (rows ++ [e]) e.occurredAt) e :=
  replayFrom_concat [] Aggregates.initial rows e

theorem Store.effectiveEvidence_eq (s : Store F) (id : String) (now : Time) :
    s.effectiveEvidence id now = evidenceTotals (s.events.filter fun e => e.proxyId = id) now := by
  unfold effectiveEvidence evidence evidenceTotals
  rw [List.filter_filter]
  simp only [Bool.and_comm]

/-- The row of the log that an event leaves. -/
theorem Store.logged_recordTestEvent (s : Store F) (now : Time) (event : TestEventInput F) :
    ∃ e, (s.recordTestEvent now event).events = s.events ++ [e] ∧ e.proxyId = event.proxyId ∧
      e.runId = event.runId ∧ e.stage = event.stage ∧ e.failureClass = event.failureClass ∧
      e.occurredAt = now ∧
      e.evidenceAlpha = (delta event.stage event.failureClass event.fastDownload).alpha :=
  ⟨_, rfl, rfl, rfl, rfl, rfl, rfl, rfl⟩

section Applied

variable {row : Node F} {event : TestEventInput F} {e : TestEvent F}

/-- A logged success opens the window that its event opened. -/
theorem leaseUntil_logged (apart : F64.lt (F64.ofRat 5 : F) (F64.ofRat 8) = true) [F64.Lawful F]
    (succeeded : event.failureClass = .success) (stage : e.stage = event.stage)
    (weight : e.evidenceAlpha = (delta event.stage event.failureClass event.fastDownload).alpha)
    (now : Time) : leaseUntil e.stage e.fastDownload now =
      leaseUntil event.stage event.fastDownload now := by
  rw [stage]
  by_cases hdownload : event.stage = .download
  · have hflag : e.fastDownload = event.fastDownload := by
      rw [TestEvent.fastDownload, weight, hdownload, succeeded]
      cases event.fastDownload with
      | true => exact F64.Lawful.ofRat_le le_rfl
      | false => exact F64.Lawful.not_le_of_lt apart
    rw [hflag]
  · cases hstage : event.stage with
    | download => exact absurd hstage hdownload
    | _ => rfl

/-- The effect of an event on the cached columns is that of its row of the log. -/
theorem aggregates_applyEvent (apart : F64.lt (F64.ofRat 5 : F) (F64.ofRat 8) = true)
    [F64.Lawful F] (totals : F × F) (cadence : Cadence) (draw : ℕ) (run : e.runId = event.runId)
    (stage : e.stage = event.stage) (failureClass : e.failureClass = event.failureClass)
    (weight : e.evidenceAlpha = (delta event.stage event.failureClass event.fastDownload).alpha) :
    (row.applyEvent totals event cadence e.occurredAt draw).aggregates =
      row.aggregates.replayEvent totals e := by
  rcases event.failureClass.success_or_inconclusive_or_failure with hs | hi | hf
  · have hwindow := leaseUntil_logged apart hs stage weight e.occurredAt
    rw [stage] at hwindow
    have hsucceeded : (row.healthInput totals event cadence e.occurredAt).succeeded = true := by
      simp [HealthInput.succeeded, Node.healthInput, hs]
    have hfailed : FailureClass.conclusiveFailure .success = false := rfl
    simp only [Node.applyEvent, Node.applyDecision, Node.aggregates, Aggregates.replayEvent,
      HealthInput.decide, HealthInput.decidedFailureStreak, HealthInput.decidedIndependentFailures,
      HealthInput.decidedLease_of_succeeded hsucceeded, hsucceeded, hwindow, failureClass, hs,
      hfailed, stage]
    simp [Node.healthInput, HealthInput.score]
  · have hne : event.failureClass ≠ .success := by
      intro hs
      rw [hs] at hi
      cases hi
    have hsucceeded : (row.healthInput totals event cadence e.occurredAt).succeeded = false := by
      simp [HealthInput.succeeded, Node.healthInput, hne]
    have hfailed : event.failureClass.conclusiveFailure = false := by
      simp [FailureClass.conclusiveFailure, hi]
    have hinput : (row.healthInput totals event cadence
        e.occurredAt).failureClass.inconclusive = true := hi
    simp only [Node.applyEvent, Node.applyDecision, Node.aggregates, Aggregates.replayEvent,
      HealthInput.decide, HealthInput.decidedFailureStreak, HealthInput.decidedIndependentFailures,
      HealthInput.decidedLease_of_not_succeeded hsucceeded, hsucceeded, failureClass, hne, hfailed,
      stage, hi, hinput]
    simp [Node.healthInput, HealthInput.score]
  · obtain ⟨hne, hi⟩ := FailureClass.conclusiveFailure_iff.mp hf
    have hsucceeded : (row.healthInput totals event cadence e.occurredAt).succeeded = false := by
      simp [HealthInput.succeeded, Node.healthInput, hne]
    have hinput : (row.healthInput totals event cadence
        e.occurredAt).failureClass.inconclusive = false := hi
    simp only [Node.applyEvent, Node.applyDecision, Node.aggregates, Aggregates.replayEvent,
      HealthInput.decide, HealthInput.decidedFailureStreak, HealthInput.decidedIndependentFailures,
      HealthInput.decidedLease_of_not_succeeded hsucceeded, hsucceeded, failureClass, hne, hf,
      stage, hi, hinput, run]
    simp [Node.healthInput, HealthInput.score, hf]

end Applied

section Log

variable {s : Store F}

/-- The ids of the log number its rows. -/
structure Store.LogOrdered (s : Store F) : Prop where
  sorted : s.events.Pairwise fun a b => a.id ≤ b.id
  bounded : ∀ e ∈ s.events, e.id ≤ s.events.length

theorem Store.LogOrdered.write (h : s.LogOrdered) (w : Write F) : (s.write w).LogOrdered := by
  obtain ⟨now, event, cadence, draw, rfl, -, hevents⟩ | ⟨-, hevents⟩ := s.events_write w
  · constructor
    · rw [hevents, Store.recordTestEvent, List.pairwise_append]
      refine ⟨h.sorted, List.pairwise_singleton _ _, fun e he new hnew => ?_⟩
      rw [List.mem_singleton.mp hnew]
      exact Nat.le_succ_of_le (h.bounded e he)
    · rw [hevents, Store.recordTestEvent]
      intro e he
      rw [List.length_append, List.length_singleton]
      rcases List.mem_append.mp he with he | he
      · exact Nat.le_succ_of_le (h.bounded e he)
      · rw [List.mem_singleton.mp he]
  · constructor
    · rw [hevents]
      exact h.sorted
    · rw [hevents]
      exact h.bounded

omit [F64 F] in
/-- The log is in the order of its ids already. -/
theorem Store.LogOrdered.eventsOf (h : s.LogOrdered) (id : String) :
    s.eventsOf id = s.events.filter fun e => e.proxyId = id :=
  (h.sorted.sublist List.filter_sublist).insertionSort_eq

/-- A step of a row replays as what it adds to the row's part of the log. -/
theorem RowStep.aggregates_replay [F64.Lawful F]
    (apart : F64.lt (F64.ofRat 5 : F) (F64.ofRat 8) = true) {w : Write F} {row row' : Node F}
    (hstep : RowStep s w row row') (unseeded : row.legacySeedable = false)
    (h : row.aggregates = replay (s.events.filter fun e => e.proxyId = row.id)) :
    row'.aggregates = replay ((s.write w).events.filter fun e => e.proxyId = row'.id) := by
  have hkept : (∀ now event cadence draw, w = .applyTestEvent now event cadence draw →
      row.id = event.proxyId → s.accepts event = false) →
      (s.write w).events.filter (fun e => e.proxyId = row.id) =
        s.events.filter fun e => e.proxyId = row.id := by
    intro hnone
    obtain ⟨now, event, cadence, draw, rfl, hacc, hevents⟩ | ⟨-, hevents⟩ := s.events_write w
    · have hother : event.proxyId ≠ row.id := by
        intro heq
        rw [hnone _ _ _ _ rfl heq.symm] at hacc
        cases hacc
      rw [hevents, Store.recordTestEvent, List.filter_append, List.filter_singleton]
      simp [hother]
    · rw [hevents]
  rw [hstep.id_eq]
  cases hstep with
  | @applied now event cadence draw _ own fresh =>
    obtain ⟨_, _, _, _, heq, -, hevents⟩ | ⟨hnone, -⟩ :=
      s.events_write (.applyTestEvent now event cadence draw)
    · obtain ⟨rfl, rfl, -, -⟩ := Write.applyTestEvent.inj heq
      obtain ⟨e, hlogged, hproxy, hrun, hstage, hclass, htime, hweight⟩ :=
        s.logged_recordTestEvent now event
      have hown : (s.events ++ [e]).filter (fun e => e.proxyId = row.id) =
          (s.events.filter fun e => e.proxyId = row.id) ++ [e] := by
        rw [List.filter_append, List.filter_singleton]
        simp [hproxy, own]
      have htotals : s.scored now event = evidenceTotals
          ((s.events.filter fun e => e.proxyId = row.id) ++ [e]) e.occurredAt := by
        rw [Store.scored, Store.effectiveEvidence_eq, hlogged, ← own, hown, htime]
      rw [hevents, hlogged, hown, htotals, replay_concat, ← h, ← htime]
      exact aggregates_applyEvent apart _ cadence draw hrun hstage hclass hweight
    · rw [hnone _ _ _ _ rfl] at fresh
      cases fresh
  | kept _ unselected | port _ _ unselected | metadata _ _ _ unselected =>
    rw [hkept]
    · exact h
    · rintro now event cadence draw rfl own
      exact Bool.eq_false_iff.mpr fun hacc => unselected ⟨own, hacc⟩
  | seeded _ seedable =>
    rw [unseeded] at seedable
    cases seedable
  | _ =>
    rw [hkept (by simp)]
    exact h

/-- In every store that a run of writes reaches from an empty database, the cached columns of each
row are those that a replay of its part of the log gives. -/
theorem aggregates_rebuildable [F64.Lawful F]
    (apart : F64.lt (F64.ofRat 5 : F) (F64.ofRat 8) = true) {ws : List (Write F)}
    (fresh : ObservedRuns.Admitted Store.write (fun s w => w.FreshId s) Store.empty ws) :
    ∀ row ∈ (Store.empty.writes ws).nodes,
      row.aggregates = replay ((Store.empty.writes ws).eventsOf row.id) := by
  have hordered : (Store.empty.writes ws).LogOrdered :=
    ObservedRuns.run_preserves (fun _ w h => h.write w)
      ⟨List.Pairwise.nil, fun e he => nomatch he⟩ ws
  simp only [hordered.eventsOf]
  clear hordered
  induction ws using List.reverseRecOn with
  | nil => exact fun row hr => nomatch hr
  | append_singleton ws w ih =>
    obtain ⟨hbefore, hfresh, -⟩ := (ObservedRuns.admitted_append _ _ _ _ _).mp fresh
    have hkeyed : (Store.empty.writes ws : Store F).WellKeyed := Store.wellKeyed_empty.writes ws
    have hlaw := leaseLaw_history hbefore
    rw [Store.writes_append]
    show ∀ row ∈ ((Store.empty.writes ws).write w).nodes, row.aggregates =
      replay (((Store.empty.writes ws).write w).events.filter fun e => e.proxyId = row.id)
    intro row' hr'
    obtain hnew | ⟨row, hr, hstep⟩ := row_of_write hkeyed hr'
    · cases hnew with
      | @ingested now proxy newId generation id hash =>
        have hevents := (Store.empty.writes ws : Store F).events_write
          (.ingestOne now proxy newId generation)
        obtain ⟨_, _, _, _, heq, -, -⟩ | ⟨-, hevents⟩ := hevents
        · cases heq
        · have hnone : ((Store.empty.writes ws : Store F).events.filter
              fun e => e.proxyId = newId) = [] :=
            List.filter_eq_nil_iff.mpr fun e he => by simpa using hfresh e he
          rw [hevents]
          exact (congrArg replay hnone).symm
    · refine hstep.aggregates_replay apart ?_ (ih hbefore row hr)
      rw [Bool.eq_false_iff]
      intro hseedable
      simp only [Node.legacySeedable, Bool.and_eq_true, decide_eq_true_eq,
        Option.isNone_iff_eq_none] at hseedable
      have hleased := (hlaw row hr).earned (.inl hseedable.1.1.1)
      rw [hseedable.2] at hleased
      cases hleased

end Log

/-- A claim, a release, a duplicate and a new body stand between the events of this run. -/
def interruptedRun : List (Write ℚ) := [
  .ingestOne 0 sampleProxy "node" 1, .claimRow 0 (minutes 1) "node",
  .applyTestEvent (minutes 1) (sampleEvent "first" .download .success) defaultCadence 0,
  .applyTestEvent (minutes 2) (sampleEvent "first" .download .success) defaultCadence 0,
  .releaseTestLease "node", .scheduleManualTest (minutes 2) "node",
  .applyTestEvent (minutes 3) (sampleEvent "second" .relay .tlsTimeout) defaultCadence 0,
  .ingestOne (minutes 4) sampleProxy "other" 2, .markWaitingForPort (minutes 5) "node" 1]

theorem aggregates_rebuildable_interrupted :
    (Store.empty.writes interruptedRun).nodes ≠ [] ∧
      ∀ row ∈ (Store.empty.writes interruptedRun).nodes,
        row.aggregates = replay ((Store.empty.writes interruptedRun).eventsOf row.id) :=
  ⟨by decide +kernel, aggregates_rebuildable (by decide +kernel) (by decide +kernel)⟩

end ProxyFleet
