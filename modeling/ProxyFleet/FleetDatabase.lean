import ProxyFleet.ClientFeedback
import ProxyFleet.EventHistory

/-!
# The whole database

Beside the fleet the database keeps the tables of the clients and two tables of
documents. A test event counts once: its run and stage are looked up in a log from
which nothing is ever removed, so a duplicate leaves every table alone.
-/
namespace ProxyFleet

open ObservedRuns

variable {F : Type}

/-- A table of documents by their keys. -/
abbrev Documents := List (String × Json)

/-- `INSERT … ON CONFLICT(key) DO UPDATE SET value_json = excluded.value_json`. -/
def Documents.set (table : Documents) (key : String) (value : Json) : Documents :=
  if table.any fun entry => entry.1 = key then
    RowUpdates.updateWhere (fun entry => entry.1 = key) (fun entry => (entry.1, value)) table
  else table ++ [(key, value)]

structure FleetDatabase (F : Type) where
  store : Store F := {}
  clients : FeedbackTables F := {}
  serviceState : Documents := []
  schedulerState : Documents := []

/-- The transactions of the service. -/
inductive Operation (F : Type) where
  | write (w : Write F)
  /-- The start of the service on this database; it updates the rows of `nodes` one by one. -/
  | migrate (update : Node F → Node F)
  | pruneSystemEvents (maxRows : ℕ)
  | setServiceState (key : String) (value : Json)
  | setSchedulerState (key : String) (value : Json)
  | recordAssignment (id client nodeId : String) (port : ℕ) (now : Time)
  | applyFeedback (request : FeedbackRequest) (update : FeedbackUpdate F)

/-- `DELETE FROM system_events` but for the newest rows. -/
def Store.pruneSystemEvents (s : Store F) (maxRows : ℕ) : Store F :=
  let numbered := s.systemEvents.zipIdx
  let newest := numbered.mergeSort fun a b => decide (b.1.createdAt ≤ a.1.createdAt)
  let kept := (newest.take (max maxRows 100)).map (·.2)
  { s with systemEvents := (numbered.filter fun e => decide (e.2 ∈ kept)).map (·.1) }

def FleetDatabase.step [F64 F] (db : FleetDatabase F) : Operation F → FleetDatabase F
  | .write w => { db with store := db.store.write w }
  | .migrate update => { db with store := db.store.updateNodes (fun _ => true) update }
  | .pruneSystemEvents maxRows => { db with store := db.store.pruneSystemEvents maxRows }
  | .setServiceState key value => { db with serviceState := db.serviceState.set key value }
  | .setSchedulerState key value => { db with schedulerState := db.schedulerState.set key value }
  | .recordAssignment id client nodeId port now =>
      { db with clients := db.clients.recordAssignment id client nodeId port now }
  | .applyFeedback request update =>
      { db with clients := db.clients.applyFeedback request update }

variable [F64 F]

namespace Store

variable {s : Store F} {now : Time} {event : TestEventInput F} {cadence : Cadence} {draw : ℕ}

/-- The log of events only grows. -/
theorem events_write_subset (s : Store F) (w : Write F) : s.events ⊆ (s.write w).events := by
  obtain ⟨now, event, -, -, -, -, hevents⟩ | ⟨-, hevents⟩ := s.events_write w
  · rw [hevents]
    exact List.subset_append_left ..
  · rw [hevents]
    exact fun _ he => he

omit [F64 F] in
theorem alreadyApplied_of_subset {t : Store F} (h : s.events ⊆ t.events)
    (applied : s.alreadyApplied event = true) : t.alreadyApplied event = true := by
  obtain ⟨e, he, hsame⟩ := List.any_eq_true.mp applied
  exact List.any_eq_true.mpr ⟨e, h he, hsame⟩

omit [F64 F] in
/-- Two deliveries of one stage of one run are looked up alike. -/
theorem alreadyApplied_congr {again : TestEventInput F} (proxy : again.proxyId = event.proxyId)
    (run : again.runId = event.runId) (stage : again.stage = event.stage) :
    s.alreadyApplied again = s.alreadyApplied event := by
  have hsame : again.sameObservation = event.sameObservation := by
    funext recorded
    simp only [TestEventInput.sameObservation, proxy, run, stage]
  rw [alreadyApplied, hsame, alreadyApplied]

/-- An event that was applied is in the log. -/
theorem alreadyApplied_of_ok {r : Store F × TestEventApplied F}
    (h : s.applyTestEvent now event cadence draw = .ok r) : r.1.alreadyApplied event = true := by
  unfold applyTestEvent at h
  cases hf : s.findNode event.proxyId with
  | none => simp [hf] at h
  | some row =>
    simp only [hf] at h
    cases ha : s.alreadyApplied event with
    | true =>
      rw [if_pos ha] at h
      obtain rfl := Except.ok.inj h
      exact ha
    | false =>
      rw [if_neg (by simp [ha])] at h
      obtain rfl := Except.ok.inj h
      simp [alreadyApplied, updateNodes, recordTestEvent, TestEventInput.sameObservation]

/-- An event that is in the log changes nothing, whether its node still exists or not. -/
theorem write_alreadyApplied (applied : s.alreadyApplied event = true) :
    s.write (.applyTestEvent now event cadence draw) = s := by
  have hrefused : s.accepts event = false := by simp [accepts, applied]
  rw [write_applyTestEvent, hrefused]
  rfl

end Store

namespace FleetDatabase

variable {db : FleetDatabase F} {event : TestEventInput F}

theorem alreadyApplied_step (applied : db.store.alreadyApplied event = true) (op : Operation F) :
    (db.step op).store.alreadyApplied event = true := by
  cases op with
  | write w => exact Store.alreadyApplied_of_subset (db.store.events_write_subset w) applied
  | _ => exact applied

/-- Applying an event again, under any class and with any measurements, leaves every table
unchanged after any operations. -/
theorem duplicate_event_changes_nothing (db : FleetDatabase F) (now : Time)
    (event : TestEventInput F) (cadence : Cadence) (draw : ℕ) {r : Store F × TestEventApplied F}
    (applied : db.store.applyTestEvent now event cadence draw = .ok r) (ops : List (Operation F))
    (again : TestEventInput F) (proxy : again.proxyId = event.proxyId)
    (sameRun : again.runId = event.runId) (stage : again.stage = event.stage) (later : Time)
    (cadence' : Cadence) (draw' : ℕ) :
    (run step { db with store := r.1 } ops).step
        (.write (.applyTestEvent later again cadence' draw')) =
      run step { db with store := r.1 } ops := by
  have hfirst : r.1.alreadyApplied event = true := Store.alreadyApplied_of_ok applied
  have hlogged : (run step { db with store := r.1 } ops).store.alreadyApplied event = true :=
    run_preserves (I := fun db : FleetDatabase F => db.store.alreadyApplied event = true)
      (fun _ op h => alreadyApplied_step h op) hfirst ops
  rw [← Store.alreadyApplied_congr proxy sameRun stage] at hlogged
  simp only [step, Store.write_alreadyApplied hlogged]

end FleetDatabase

section Examples

def observedNode : Store ℚ where
  nodes := [{
    id := "n", configHash := "h", rawConfig := [], sourceSubs := [],
    healthAlpha := 1, healthBeta := 1, healthScore := 1 / 2, createdAt := 0 }]

def observedCadence : Cadence where
  activeRelayInterval := 10000000000
  activeDownloadInterval := 300000000000
  activeMinResidence := 1800000000000
  residence_bounds := by decide

/-- A relay success, and a failure that is reported for the same stage of the same run. -/
def relayReport (failureClass : FailureClass) : TestEventInput ℚ where
  proxyId := "n"
  runId := "r"
  stage := .relay
  failureClass := failureClass

def observedOnce : Store ℚ :=
  observedNode.write (.applyTestEvent 0 (relayReport .success) observedCadence 0)

theorem duplicate_event_changes_nothing_relay :
    (run FleetDatabase.step { store := observedOnce }
        [.write (.claimRow 1 2 "n"), .setServiceState "k" .null]).step
        (.write (.applyTestEvent 3 (relayReport .invalidConfig) observedCadence 0)) =
      run FleetDatabase.step { store := observedOnce }
        [.write (.claimRow 1 2 "n"), .setServiceState "k" .null] :=
  FleetDatabase.duplicate_event_changes_nothing { store := observedNode } 0 (relayReport .success)
    observedCadence 0 (r := (observedOnce, _)) rfl _ (relayReport .invalidConfig) rfl rfl rfl 3
    observedCadence 0

end Examples

end ProxyFleet
