import ProxyFleet.InconclusiveEvents
import ProxyFleet.PublicationPromise
import ProxyFleet.SchedulerTicks

/-!
# Batches with a correlated incident

Failures that hit a whole batch are blamed on the network. Their events are stored as failures of
an endpoint, which count nowhere, so a node without a success and without an invalid configuration
keeps its counters and its place in the public feed through the whole batch.
-/
namespace ProxyFleet

variable {F : Type}

/-- The counters of consecutive and independent outcomes. -/
def Node.counters (row : Node F) : ℤ × ℤ × ℤ :=
  (row.failureStreak, row.successStreak, row.independentFailureCount)

/-- No event of the node is evidence. -/
def Write.Shields (id : String) : Write F → Prop
  | .applyTestEvent _ event _ _ => event.proxyId = id → event.failureClass.inconclusive = true
  | _ => True

/-- What the loop and the other tasks do between two ticks, under the lease of a node. -/
def LoopEvent.Meanwhile (id : String) (lease : Time) : LoopEvent F → Prop
  | .tick _ _ _ _ => False
  | .other write => write.Respects id lease ∧ ¬ write.Schedules id
  | _ => True

/-- A failure in a batch with an incident is stored as no evidence. -/
theorem inconclusive_storedClass {event : ProbeEvent F} (failed : event.failureClass ≠ .success)
    (valid : event.failureClass ≠ .invalidConfig) :
    (event.storedClass true).inconclusive = true := by
  simp [ProbeEvent.storedClass, failed, valid, FailureClass.inconclusive]

variable [F64 F] {row : Node F}

theorem counters_of_inconclusive {event : TestEventInput F} (totals : F × F) (cadence : Cadence)
    (now : Time) (draw : ℕ) (inconclusive : event.failureClass.inconclusive = true)
    (bounded : CountersBounded row) :
    (row.applyEvent totals event cadence now draw).counters = row.counters := by
  have hne := FailureClass.ne_success_of_inconclusive inconclusive
  have hsucc : (row.healthInput totals event cadence now).succeeded = false := by
    simpa [HealthInput.succeeded, Node.healthInput] using hne
  have hstreak : ((row.healthInput totals event cadence now).decidedFailureStreak : ℤ) =
      row.failureStreak := by
    refine Eq.trans ?_ bounded.streak
    simp only [HealthInput.decidedFailureStreak, hsucc]
    simp [Node.healthInput, inconclusive]
  have hindependent : ((row.healthInput totals event cadence now).decidedIndependentFailures : ℤ) =
      row.independentFailureCount := by
    refine Eq.trans ?_ bounded.independent
    simp only [HealthInput.decidedIndependentFailures, hsucc]
    simp [Node.healthInput, inconclusive]
  have hsuccess : (row.applyEvent totals event cadence now draw).successStreak =
      row.successStreak := by
    simp [Node.applyEvent, Node.applyDecision, hne, inconclusive]
  exact Prod.ext hstreak (Prod.ext hsuccess hindependent)

/-- A shielded row through any writes that respect its lease. -/
structure Node.Shielded (lease : Time) (counters : ℤ × ℤ × ℤ) (row : Node F) : Prop where
  standing : row.Standing lease
  bounded : CountersBounded row
  counters : row.counters = counters

/-- Only an event changes a counter. -/
theorem Node.Shielded.step {lease : Time} {counters : ℤ × ℤ × ℤ} {s : Store F} {w : Write F}
    {row' : Node F} (h : row.Shielded lease counters) (hrespects : w.Respects row.id lease)
    (hshields : w.Shields row.id) (hstep : RowStep s w row row') :
    row'.Shielded lease counters := by
  have hkept : CountersBounded row' ∧ row'.counters = counters := by
    cases hstep with
    | @applied now event cadence draw _ own =>
      have hsame := counters_of_inconclusive (s.scored now event) cadence now draw
        (hshields own.symm) h.bounded
      have hstreak := congrArg Prod.fst hsame
      have hindependent := congrArg (·.2.2) hsame
      simp only [Node.counters] at hstreak hindependent
      exact ⟨⟨hstreak ▸ h.bounded.streak, hindependent ▸ h.bounded.independent⟩,
        hsame.trans h.counters⟩
    | _ => exact ⟨⟨h.bounded.streak, h.bounded.independent⟩, h.counters⟩
  exact ⟨h.standing.step hrespects hstep, hkept.1, hkept.2⟩

/-- A shielded row is found again, shielded, after writes that respect its lease. -/
theorem shielded_writes {lease : Time} {counters : ℤ × ℤ × ℤ} {s : Store F} (keyed : s.WellKeyed)
    (hr : row ∈ s.nodes) (h : row.Shielded lease counters) {ws : List (Write F)}
    (hws : ∀ w ∈ ws, w.Respects row.id lease ∧ w.Shields row.id) :
    ∃ row' ∈ (s.writes ws).nodes, row'.id = row.id ∧ row'.Shielded lease counters := by
  have hspares : ∀ (w : Write F) (other : Node F), w.Respects row.id lease ∧ w.Shields row.id →
      (other.id = row.id ∧ other.Shielded lease counters) → w.Spares other := by
    rintro w other - ⟨-, hother⟩
    cases w with
    | cleanupRetired now =>
      simp [Write.Spares, Node.expiredTombstone, hother.standing.within.lifecycle.2]
    | _ => trivial
  obtain ⟨row', hr', hid, -, -, hshielded⟩ := row_survives hspares
    (fun s w other row' hw hother hstep => ⟨hstep.id_eq.trans hother.1,
      hother.2.step (hother.1 ▸ hw.1) (hother.1 ▸ hw.2) hstep⟩) keyed hr ⟨rfl, h⟩ hws
  exact ⟨row', hr', hid, hshielded⟩

namespace SchedulerLoop

variable {id : String} {lease : Time} {w : SchedulerLoop F}

/-- No event of the node that is still to be stored is evidence. -/
def Shields (id : String) (w : SchedulerLoop F) : Prop :=
  ∀ report ∈ w.reports, ∀ event ∈ report.events, event.proxyId = id →
    event.failureClass.inconclusive = true

omit [F64 F] in
theorem Shields.tail {report : OpenReport F} {rest : List (OpenReport F)} {store : Store F}
    (h : w.Shields id) (hreports : w.reports = report :: rest) :
    Shields id { store := store, reports := rest } :=
  fun later hlater => h later (hreports ▸ List.mem_cons_of_mem _ hlater)

omit [F64 F] in
theorem Shields.event {node : String} {event : TestEventInput F} {events : List (TestEventInput F)}
    {waits : Bool} {rest : List (OpenReport F)} {store : Store F} (h : w.Shields id)
    (hreports : w.reports = ⟨node, event :: events, waits⟩ :: rest) :
    Shields id { store := store, reports := ⟨node, events, waits⟩ :: rest } := by
  intro report hmem e he
  obtain rfl | hlater := List.mem_cons.mp hmem
  · exact h ⟨node, event :: events, waits⟩ (hreports ▸ List.mem_cons_self) e
      (List.mem_cons_of_mem _ he)
  · exact h report (hreports ▸ List.mem_cons_of_mem _ hlater) e he

/-- Between two ticks a step is at most one write, which respects the lease and is no evidence. -/
theorem Shields.step (h : w.Shields id) (thresholdPercent : ℕ) {event : LoopEvent F}
    (meanwhile : event.Meanwhile id lease) :
    (w.step thresholdPercent event).Shields id ∧ ∃ ws : List (Write F),
      (w.step thresholdPercent event).store = w.store.writes ws ∧
        ∀ write ∈ ws, write.Respects id lease ∧ write.Shields id := by
  cases event with
  | tick => exact meanwhile.elim
  | other write =>
    refine ⟨h, [write], rfl, List.forall_mem_singleton.mpr ⟨meanwhile.1, ?_⟩⟩
    cases write with
    | applyTestEvent now event => exact fun own => absurd own meanwhile.2
    | _ => trivial
  | lost =>
    obtain ⟨store, reports⟩ := w
    match reports with
    | [] => exact ⟨h, [], rfl, List.forall_mem_nil _⟩
    | ⟨node, [], waits⟩ :: rest => exact ⟨h, [], rfl, List.forall_mem_nil _⟩
    | ⟨node, event :: events, waits⟩ :: rest =>
      exact ⟨h.event rfl, [], rfl, List.forall_mem_nil _⟩
  | statement now cadence draw =>
    obtain ⟨store, reports⟩ := w
    match reports with
    | [] => exact ⟨h, [], rfl, List.forall_mem_nil _⟩
    | ⟨node, event :: events, waits⟩ :: rest =>
      have hevent : event.proxyId = id → event.failureClass.inconclusive = true :=
        h _ List.mem_cons_self event List.mem_cons_self
      refine ⟨h.event rfl, [.applyTestEvent now event cadence draw], rfl,
        List.forall_mem_singleton.mpr ⟨fun own hinvalid => ?_, hevent⟩⟩
      have hinconclusive := hevent own
      rw [hinvalid] at hinconclusive
      cases hinconclusive
    | ⟨node, [], true⟩ :: rest =>
      exact ⟨h.tail rfl, [.markWaitingForPort now node (seconds 5)], rfl,
        List.forall_mem_singleton.mpr ⟨trivial, trivial⟩⟩
    | ⟨node, [], false⟩ :: rest =>
      exact ⟨h.tail rfl, [.releaseTestLease node], rfl,
        List.forall_mem_singleton.mpr ⟨trivial, trivial⟩⟩

/-- A run between two ticks. -/
theorem Shields.run (h : w.Shields id) (thresholdPercent : ℕ) {events : List (LoopEvent F)}
    (meanwhile : ∀ event ∈ events, event.Meanwhile id lease) :
    ∃ ws : List (Write F),
      (ObservedRuns.run (SchedulerLoop.step thresholdPercent) w events).store = w.store.writes ws ∧
        ∀ write ∈ ws, write.Respects id lease ∧ write.Shields id := by
  induction events generalizing w with
  | nil => exact ⟨[], rfl, List.forall_mem_nil _⟩
  | cons event events ih =>
    obtain ⟨hnext, ws, hws, hfirst⟩ := h.step thresholdPercent (meanwhile event List.mem_cons_self)
    obtain ⟨rest, hrest, hlater⟩ := ih hnext fun e he => meanwhile e (List.mem_cons_of_mem _ he)
    refine ⟨ws ++ rest, ?_, fun write hwrite => ?_⟩
    · rw [ObservedRuns.run_cons, hrest, hws, Store.writes_append]
    · exact (List.mem_append.mp hwrite).elim (hfirst write) (hlater write)

/-- A tick claims rows, each of which stays shielded. -/
theorem shielded_claimDue {s : Store F} (keyed : s.WellKeyed) (hr : row ∈ s.nodes)
    {counters : ℤ × ℤ × ℤ} (h : row.Shielded lease counters) (capacity : ℕ) (tick : ClaimTick F) :
    ∃ row' ∈ (s.claimDue capacity tick).1.nodes, row'.id = row.id ∧
      row'.Shielded lease counters := by
  obtain ⟨claimed, hclaims, hnodes, -⟩ := claimDue_spec tick keyed capacity
  obtain ⟨ids, hids⟩ := hclaims.writes
  rw [hnodes, show claimed = _ from hids]
  refine shielded_writes keyed hr h fun w hw => ?_
  obtain ⟨node, -, rfl⟩ := List.mem_map.mp hw
  exact ⟨trivial, trivial⟩

/-- A batch with a correlated incident harms no node that it did not find invalid: whatever the
scheduler and the other tasks write until the next tick, a node without a success keeps its counters
and stays in the public feed until its lease is over. -/
theorem incident_batch_harmless {ws : List (Write F)} (hr : row ∈ (Store.empty.writes ws).nodes)
    (standing : row.Standing lease) {tested : List (String × ProbeReport F)}
    (failed : ∀ entry ∈ tested, entry.1 = row.id → ∀ event ∈ entry.2.events,
      event.failureClass ≠ .success ∧ event.failureClass ≠ .invalidConfig)
    {thresholdPercent : ℕ} (incident : (correlatedIncident tested thresholdPercent).isSome = true)
    (capacity : ℕ) (tick : ClaimTick F) (runId : String → String) {events : List (LoopEvent F)}
    (meanwhile : ∀ event ∈ events, event.Meanwhile row.id lease) :
    ∃ row' ∈ (ObservedRuns.run (SchedulerLoop.step thresholdPercent)
        { store := Store.empty.writes ws }
        (.tick capacity tick tested runId :: events)).store.nodes,
      row'.id = row.id ∧ row'.counters = row.counters ∧
        ∀ now < lease, row'.publishable now = true := by
  have keyed : (Store.empty.writes ws : Store F).WellKeyed := Store.wellKeyed_empty.writes ws
  obtain ⟨claimed, hclaimed, hid, hshielded⟩ := shielded_claimDue keyed hr
    ⟨standing, countersBounded_writes ws row hr, rfl⟩ capacity tick
  have hopened : Shields row.id (SchedulerLoop.step thresholdPercent
      { store := Store.empty.writes ws } (.tick capacity tick tested runId)) := by
    intro report hreport event hevent own
    obtain ⟨entry, hentry, rfl⟩ := List.mem_map.mp hreport
    obtain ⟨probed, hprobed, rfl⟩ := List.mem_map.mp hevent
    obtain ⟨hsuccess, hvalid⟩ := failed entry hentry own probed hprobed
    show (probed.storedClass (correlatedIncident tested _).isSome).inconclusive = true
    rw [incident]
    exact inconclusive_storedClass hsuccess hvalid
  obtain ⟨rest, hrest, hquiet⟩ := hopened.run thresholdPercent meanwhile
  obtain ⟨row', hr', hid', hshielded'⟩ := shielded_writes
    (keyed.perform (.claimDue capacity tick)) hclaimed hshielded (hid ▸ hquiet)
  refine ⟨row', ?_, hid'.trans hid, hshielded'.counters, fun now hnow =>
    hshielded'.standing.publishable hnow⟩
  rw [ObservedRuns.run_cons, hrest]
  exact hr'

/-- A published node and two others. -/
def threeNodes : List (Write ℚ) := [
  .ingestOne 0 sampleProxy "node" 1,
  .ingestOne 0 { sampleProxy with configHash := "second", address := "second.example" } "second" 1,
  .ingestOne 0 { sampleProxy with configHash := "third", address := "third.example" } "third" 1,
  .applyTestEvent 0 (sampleEvent "first" .download .success) defaultCadence 0]

/-- All three nodes time out, each behind a server of its own. -/
def timedOutBatch : List (String × ProbeReport ℚ) :=
  ["node", "second", "third"].map fun id => (id, ⟨some { sampleProxy with address := id },
    [{ stage := .relay, failureClass := .relayTimeout }]⟩)

theorem incident_batch_harmless_timedOut :
    ∃ row ∈ (ObservedRuns.run (step 80) { store := Store.empty.writes threeNodes }
        [.tick 3 (sampleTick (minutes 5)) timedOutBatch (fun _ => "run"),
          .statement (minutes 6) defaultCadence 0, .other (.reconcile (minutes 6) 9 0),
          .statement (minutes 6) defaultCadence 0]).store.nodes,
      row.id = "node" ∧ row.counters = (0, 1, 0) ∧ row.publishable (hours 5) = true := by
  have hrow : ((Store.empty.writes threeNodes).nodes.any fun row => decide (row.id = "node") &&
      row.structurallyValid && decide (row.lifecycleState = .active ∧ row.status = .active ∧
        row.publicationLeaseUntil = some (leaseUntil .download false 0) ∧
        row.counters = (0, 1, 0))) = true := by decide +kernel
  obtain ⟨row, hr, hrow⟩ := List.any_eq_true.mp hrow
  simp only [Bool.and_eq_true, decide_eq_true_eq] at hrow
  obtain ⟨⟨hid, hvalid⟩, hactive, hstatus, hlease, hcounters⟩ := hrow
  have hwithin : row.Within LifecycleState.Standing :=
    Node.within_of_settled hactive hstatus (by simp [LifecycleState.Passing])
      ⟨by decide, by decide⟩
  have hfailed : ∀ entry ∈ timedOutBatch, entry.1 = row.id → ∀ event ∈ entry.2.events,
      event.failureClass ≠ .success ∧ event.failureClass ≠ .invalidConfig := by
    intro entry hentry _ event hevent
    obtain ⟨id, -, rfl⟩ := List.mem_map.mp hentry
    obtain rfl := List.mem_singleton.mp hevent
    exact ⟨by decide, by decide⟩
  have hmeanwhile : ∀ event ∈ [LoopEvent.statement (minutes 6) defaultCadence 0,
      .other (.reconcile (minutes 6) 9 0), .statement (minutes 6) defaultCadence 0],
      LoopEvent.Meanwhile (F := ℚ) row.id (leaseUntil .download false 0) event := by
    simp only [List.forall_mem_cons]
    exact ⟨trivial, ⟨show minutes 6 < leaseUntil .download false 0 by decide, fun h => h⟩, trivial,
      List.forall_mem_nil _⟩
  have hincident : (correlatedIncident timedOutBatch 80).isSome = true := by decide +kernel
  obtain ⟨row', hr', hid', hcounters', hpublished⟩ := incident_batch_harmless hr
    ⟨⟨hvalid, hwithin⟩, _, hlease, le_rfl⟩ hfailed hincident 3 (sampleTick (minutes 5))
    (fun _ => "run") hmeanwhile
  exact ⟨row', hr', hid'.trans hid, hcounters'.trans hcounters, hpublished _ (by decide)⟩

end SchedulerLoop

end ProxyFleet
