import ProxyFleet.BackgroundServices
import ProxyFleet.ClaimCorrectness
import ProxyFleet.EventHistory
import ProxyFleet.LifecycleOrigins
import ProxyFleet.SurvivorBatches
import ProxyFleet.TestableNodes

/-!
# Ticks of the scheduler

A tick claims its jobs, tests them as one batch, and then writes down report after report: the
events of a report one by one, and behind them either the release of the claim or the wait for a
port. Other tasks write between these statements. Once a tick is through, no claim of it is left,
and every node that is due can be claimed again.
-/
namespace ProxyFleet

variable {F : Type}

/-- The class under which an event is stored. A failure in a batch with a correlated incident
says nothing about its node. -/
def ProbeEvent.storedClass (massFailure : Bool) (event : ProbeEvent F) : FailureClass :=
  if massFailure && event.failureClass != .success && event.failureClass != .invalidConfig then
    .endpointFailure
  else event.failureClass

def ProbeEvent.testEvent (massFailure : Bool) (node runId : String) (event : ProbeEvent F) :
    TestEventInput F where
  proxyId := node
  runId := runId
  stage := event.stage
  failureClass := event.storedClass massFailure
  fastDownload := event.fastDownload
  latencyMs := event.latencyMs
  downloadBps := event.downloadBps

/-- Nothing but a shortage of ports kept the node from its test. -/
def ProbeReport.waitingForPort (report : ProbeReport F) : Bool :=
  !report.events.isEmpty && report.events.all fun event =>
    event.failureClass == .localOverload &&
      (event.detail.get "reason").bind Json.asStr == some "port_capacity".toList

/-- A report that is written down: the events still to come, and what follows them. -/
structure OpenReport (F : Type) where
  node : String
  events : List (TestEventInput F)
  waits : Bool

def ProbeReport.opened (massFailure : Bool) (node runId : String) (report : ProbeReport F) :
    OpenReport F where
  node := node
  events := report.events.map (ProbeEvent.testEvent massFailure node runId)
  waits := report.waitingForPort

section Waiting

variable {report : ProbeReport F}

theorem exists_head_of_waiting (h : report.waitingForPort = true) :
    ∃ event, report.events.head? = some event := by
  rw [ProbeReport.waitingForPort, Bool.and_eq_true, Bool.not_eq_true'] at h
  exact Option.isSome_iff_exists.mp (by
    rw [List.isSome_head?, ← List.isEmpty_eq_false_iff]
    exact h.1)

/-- A shortage of ports is no evidence, in a mass failure neither. -/
theorem inconclusive_of_waiting {massFailure : Bool} {node runId : String}
    (h : (report.opened massFailure node runId).waits = true) :
    ∀ event ∈ (report.opened massFailure node runId).events,
      event.failureClass.inconclusive = true := by
  intro event hevent
  obtain ⟨probed, hprobed, rfl⟩ := List.mem_map.mp hevent
  have hall : report.waitingForPort = true := h
  rw [ProbeReport.waitingForPort, Bool.and_eq_true, List.all_eq_true] at hall
  have hclass := hall.2 probed hprobed
  rw [Bool.and_eq_true, beq_iff_eq] at hclass
  cases massFailure with
  | false =>
    simp [ProbeEvent.testEvent, ProbeEvent.storedClass, hclass.1, FailureClass.inconclusive]
  | true =>
    simp [ProbeEvent.testEvent, ProbeEvent.storedClass, hclass.1, FailureClass.inconclusive]

end Waiting

structure SchedulerLoop (F : Type) where
  store : Store F
  reports : List (OpenReport F) := []

/-- A tick up to the end of its probe, its next statement, an event that could not be stored, and
a write of another task. -/
inductive LoopEvent (F : Type) where
  | tick (capacity : ℕ) (tick : ClaimTick F) (tested : List (String × ProbeReport F))
      (runId : String → String)
  | statement (now : Time) (cadence : Cadence) (draw : ℕ)
  | lost
  | other (w : Write F)

/-- The statements that only the scheduler issues, about one node or any. -/
def Write.Schedules (id : String) : Write F → Prop
  | .claimRow _ _ _ => True
  | .applyTestEvent _ event _ _ => event.proxyId = id
  | .releaseTestLease node => node = id
  | .markWaitingForPort _ node _ => node = id
  | _ => False

/-- The write retires no row of the node. -/
def Write.SparesPlace (s : Store F) (id : String) : Write F → Prop
  | .reconcile now generation minimum => ∀ row ∈ s.nodes, row.id = id →
      ¬ (row.retirable now minimum = true ∨
        row.missedBy generation = true ∧ row.missed.retirable now minimum = true)
  | _ => True

namespace SchedulerLoop

variable [F64 F] (thresholdPercent : ℕ)

def step (w : SchedulerLoop F) : LoopEvent F → SchedulerLoop F
  | .tick capacity tick tested runId =>
    if w.reports.isEmpty then
      let massFailure := (correlatedIncident tested thresholdPercent).isSome
      { store := (w.store.claimDue capacity tick).1
        reports := tested.map fun entry => entry.2.opened massFailure entry.1 (runId entry.1) }
    else w
  | .statement now cadence draw =>
    match w.reports with
    | [] => w
    | ⟨node, event :: events, waits⟩ :: rest =>
      { store := w.store.write (.applyTestEvent now event cadence draw)
        reports := ⟨node, events, waits⟩ :: rest }
    | ⟨node, [], true⟩ :: rest =>
      { store := w.store.write (.markWaitingForPort now node (seconds 5)), reports := rest }
    | ⟨node, [], false⟩ :: rest =>
      { store := w.store.write (.releaseTestLease node), reports := rest }
  | .lost =>
    match w.reports with
    | ⟨node, _ :: events, waits⟩ :: rest => { w with reports := ⟨node, events, waits⟩ :: rest }
    | _ => w
  | .other write => { w with store := w.store.write write }

/-- A tested batch reports on each of its jobs under run ids of its own, an event of a node that
will wait for a port is stored, and other tasks neither issue statements of the scheduler nor
retire such a node meanwhile. -/
def Admits (w : SchedulerLoop F) : LoopEvent F → Prop
  | .tick capacity tick tested runId =>
    (tested.map Prod.fst).Perm ((w.store.claimDue capacity tick).2.map (·.id)) ∧
      ∀ entry ∈ tested, ∀ recorded ∈ w.store.events, recorded.runId ≠ runId entry.1
  | .statement _ _ _ => True
  | .lost => ∀ report ∈ w.reports.head?, report.waits = false
  | .other write =>
    (∀ id, ¬ write.Schedules id) ∧
      ∀ report ∈ w.reports, report.waits = true → write.SparesPlace w.store report.node

/-- A report whose node will wait for a port: it carries no evidence, and a row of the node that is
still in its test has an event to come that is not in the log. -/
structure Steady (s : Store F) (report : OpenReport F) : Prop where
  inconclusive : ∀ event ∈ report.events, event.failureClass.inconclusive = true
  rows : ∀ row ∈ s.nodes, row.id = report.node → row.structurallyValid = true →
    row.lifecycleState ∈ queueStates ∨ row.lifecycleState = .testing ∧
      ∃ event ∈ report.events.head?, s.alreadyApplied event = false

/-- The invariant of the loop: every claim without an answer has an open report. -/
structure Answering (w : SchedulerLoop F) : Prop where
  keyed : w.store.WellKeyed
  placed : ∃ jobs, (∀ row ∈ w.store.nodes, row.structurallyValid = true → Placed jobs row) ∧
    ∀ job ∈ jobs, job.1 ∈ w.reports.map (·.node)
  distinct : (w.reports.map (·.node)).Nodup
  own : ∀ report ∈ w.reports, ∀ event ∈ report.events, event.proxyId = report.node
  steady : ∀ report ∈ w.reports, report.waits = true → Steady w.store report

end SchedulerLoop

section Statements

variable [F64 F] {s : Store F} {w : Write F} {id : String} {event : TestEventInput F}

/-- Events of other nodes are no repetitions. -/
theorem alreadyApplied_other (hw : ¬ w.Schedules id) (own : event.proxyId = id) :
    (s.write w).alreadyApplied event = s.alreadyApplied event := by
  obtain ⟨now, applied, cadence, draw, rfl, -, hevents⟩ | ⟨-, hevents⟩ := s.events_write w
  · have hne : applied.proxyId ≠ event.proxyId := fun h => hw (h.trans own)
    simp [Store.alreadyApplied, hevents, Store.recordTestEvent, TestEventInput.sameObservation,
      hne]
  · rw [Store.alreadyApplied, hevents, Store.alreadyApplied]

/-- A write of another task leaves a row in its test or in the state of a queue. -/
theorem state_of_other {row row' : Node F} (hr : row ∈ s.nodes) (hid : row.id = id)
    (hw : ¬ w.Schedules id) (hspared : w.SparesPlace s id) (hstep : RowStep s w row row')
    (h : row.lifecycleState ≠ .retired) : row'.lifecycleState = row.lifecycleState ∨
      row'.lifecycleState ∈ queueStates := by
  cases hstep with
  | claimed => exact absurd trivial hw
  | applied _ own => exact absurd (own.symm.trans hid) hw
  | released _ own => exact absurd (own.symm.trans hid) hw
  | waiting _ own => exact absurd (own.symm.trans hid) hw
  | missedRetired _ unseen out => exact absurd (.inr ⟨unseen, out⟩) (hspared row hr hid)
  | retired _ seen out => exact absurd (.inl out) (hspared row hr hid)
  | reingested => exact .inl (by simp [Node.reingested, h])
  | dormantRevived | revived =>
    exact .inr (by simp [Node.dormantRevived, Node.revived, queueStates, queueOrder])
  | _ => exact .inl rfl

/-- An inconclusive event keeps the state of a queue, and takes a row out of its test. -/
theorem state_of_inconclusive {row : Node F} (totals : F × F) (cadence : Cadence) (now : Time)
    (draw : ℕ) (inconclusive : event.failureClass.inconclusive = true)
    (h : row.seenLifecycle ∈ queueStates) :
    (row.applyEvent totals event cadence now draw).lifecycleState ∈ queueStates := by
  obtain hsame | hmoved | ⟨hclass, -⟩ :=
    decidedLifecycle_cases (row.healthInput totals event cadence now)
  · show (row.healthInput totals event cadence now).decidedLifecycle ∈ queueStates
    rw [hsame]
    exact h
  · have hstates : ∀ state ∈ [LifecycleState.active, .probation, .dormant],
        state ∈ queueStates := by decide
    exact hstates _ hmoved
  · have hne : event.failureClass ≠ .invalidConfig := by
      intro hinvalid
      rw [hinvalid] at inconclusive
      cases inconclusive
    exact absurd hclass hne

/-- A write of another task changes no validity. -/
theorem valid_of_other {row row' : Node F} (hid : row.id = id) (hw : ¬ w.Schedules id)
    (hstep : RowStep s w row row') (valid : row'.structurallyValid = true) :
    row.structurallyValid = true := by
  cases hstep with
  | applied _ own => exact absurd (own.symm.trans hid) hw
  | _ => exact valid

/-- Every valid row stays in its place or takes another one. -/
theorem placed_rows {jobs : List (String × Time)} (keyed : s.WellKeyed)
    (orderly : StoreStep.Orderly s (.write w))
    (h : ∀ row ∈ s.nodes, row.structurallyValid = true → Placed jobs row) :
    ∀ row ∈ (s.write w).nodes, row.structurallyValid = true →
      Placed (noteJobs jobs s (.write w)) row := by
  intro row' hr' valid
  obtain hi | ⟨row, hr, hstep⟩ := row_of_write keyed hr'
  · cases hi
    exact .queued (by simp [Node.ingested, queueStates, queueOrder])
  · exact placed_write hr orderly (h row hr) hstep valid

/-- A tick claims the rows of its jobs and leaves the log as it is. -/
theorem claimDue_rows (keyed : s.WellKeyed) (capacity : ℕ) (tick : ClaimTick F) :
    ((s.claimDue capacity tick).1.nodes = s.nodes.map fun row =>
      if row.id ∈ (s.claimDue capacity tick).2.map (·.id) then
        row.claimed (tick.now + tick.lease) else row) ∧
    ((s.claimDue capacity tick).2.map (·.id)).Nodup ∧
    (s.claimDue capacity tick).1.events = s.events := by
  have hclaiming := (claimPasses_refines keyed (max capacity 1) tick).claiming
  obtain ⟨hjobs, debt, hstore⟩ := s.claimDue_passes capacity tick
  rw [hjobs, hstore]
  generalize s.claimPasses (max capacity 1) tick = result at hclaiming ⊢
  refine ⟨hclaiming.rows, hclaiming.distinct, ?_⟩
  rw [hclaiming.rest]

end Statements

namespace SchedulerLoop

variable [F64 F] {thresholdPercent : ℕ} {w : SchedulerLoop F}

/-- Another task, or a statement about another node, leaves a report steady. -/
theorem Steady.write {s : Store F} {write : Write F} {report : OpenReport F} (keyed : s.WellKeyed)
    (own : ∀ event ∈ report.events, event.proxyId = report.node) (h : Steady s report)
    (hw : ¬ write.Schedules report.node) (hspared : write.SparesPlace s report.node) :
    Steady (s.write write) report := by
  refine ⟨h.inconclusive, fun row' hr' hid valid => ?_⟩
  obtain hi | ⟨row, hr, hstep⟩ := row_of_write keyed hr'
  · cases hi
    exact .inl (by simp [Node.ingested, queueStates, queueOrder])
  have hrow : row.id = report.node := hstep.id_eq.symm.trans hid
  have hstate := state_of_other hr hrow hw hspared hstep
  obtain hqueued | ⟨htesting, event, hhead, hfresh⟩ :=
    h.rows row hr hrow (valid_of_other hrow hw hstep valid)
  · have hne : row.lifecycleState ≠ .retired := by
      intro hretired
      simp [hretired, queueStates, queueOrder] at hqueued
    obtain hsame | hmoved := hstate hne
    · exact .inl (hsame ▸ hqueued)
    · exact .inl hmoved
  · obtain hsame | hmoved := hstate (by simp [htesting])
    · refine .inr ⟨hsame.trans htesting, event, hhead, ?_⟩
      rw [alreadyApplied_other hw (own event (List.mem_of_mem_head? hhead)), hfresh]
    · exact .inl hmoved

/-- An event of the report takes its row out of the test. -/
theorem Steady.stored {s : Store F} {node : String} {event : TestEventInput F}
    {events : List (TestEventInput F)} {waits : Bool} {jobs : List (String × Time)}
    (keyed : s.WellKeyed)
    (placed : ∀ row ∈ s.nodes, row.structurallyValid = true → Placed jobs row)
    (own : event.proxyId = node) (h : Steady s ⟨node, event :: events, waits⟩) (now : Time)
    (cadence : Cadence) (draw : ℕ) :
    Steady (s.write (.applyTestEvent now event cadence draw)) ⟨node, events, waits⟩ := by
  have hinconclusive := h.inconclusive event List.mem_cons_self
  refine ⟨fun e he => h.inconclusive e (List.mem_cons_of_mem _ he), fun row' hr' hid valid => ?_⟩
  obtain hi | ⟨row, hr, hstep⟩ := row_of_write keyed hr'
  · cases hi
  have hrow : row.id = node := hstep.id_eq.symm.trans hid
  have unselected : row.structurallyValid = true →
      ¬ (Write.applyTestEvent now event cadence draw).Selects s row →
      row.lifecycleState ∈ queueStates := by
    intro hvalid hn
    obtain hqueued | ⟨-, head, hhead, hfresh⟩ := h.rows row hr hrow hvalid
    · exact hqueued
    · obtain rfl : event = head := Option.some.inj hhead
      have hfound : (s.findNode event.proxyId).isSome = true :=
        List.find?_isSome.mpr ⟨row, hr, decide_eq_true (hrow.trans own.symm)⟩
      exact absurd ⟨hrow.trans own.symm, by simp [Store.accepts, hfound, hfresh]⟩ hn
  cases hstep with
  | kept _ hn => exact .inl (unselected valid hn)
  | port _ _ hn => exact .inl (unselected valid hn)
  | metadata _ _ _ hn => exact .inl (unselected valid hn)
  | applied =>
    have hclass : event.failureClass ≠ .invalidConfig := by
      intro hinvalid
      rw [hinvalid] at hinconclusive
      cases hinconclusive
    have hvalid : row.structurallyValid = true := (if_neg hclass).symm.trans valid
    refine .inl (state_of_inconclusive _ cadence now draw hinconclusive ?_)
    obtain hqueued | ⟨htesting, -⟩ := h.rows row hr hrow hvalid
    · have hne : row.lifecycleState ≠ .testing := by
        intro htesting
        simp [htesting, queueStates, queueOrder] at hqueued
      rwa [Node.seenLifecycle, if_neg hne]
    · cases placed row hr hvalid with
      | testing _ origin hqueue hfrom => rwa [Node.seenLifecycle, if_pos htesting, hfrom]
      | queued hqueue => simp [htesting, queueStates, queueOrder] at hqueue
      | retired state => rw [htesting] at state; cases state
      | invalid state => rw [htesting] at state; cases state
      | waiting state => rw [htesting] at state; cases state

namespace Answering

/-- A write of another task. -/
theorem other (h : w.Answering) {write : Write F} (foreign : ∀ id, ¬ write.Schedules id)
    (hspared : ∀ report ∈ w.reports, report.waits = true →
      write.SparesPlace w.store report.node) :
    Answering { w with store := w.store.write write } := by
  obtain ⟨jobs, hplaced, hjobs⟩ := h.placed
  have horderly : StoreStep.Orderly w.store (.write write) := by
    cases write with
    | claimRow => exact foreign "" trivial
    | markWaitingForPort now id => exact absurd rfl (foreign id)
    | _ => trivial
  have hsame : noteJobs jobs w.store (.write write) = jobs := by
    cases write with
    | applyTestEvent now event => exact absurd rfl (foreign event.proxyId)
    | releaseTestLease id => exact absurd rfl (foreign id)
    | markWaitingForPort now id => exact absurd rfl (foreign id)
    | _ => rfl
  refine ⟨h.keyed.write write, ⟨jobs, ?_, hjobs⟩, h.distinct, h.own, fun report hmem hwaits => ?_⟩
  · intro row hr valid
    rw [← hsame]
    exact placed_rows h.keyed horderly hplaced row hr valid
  · exact (h.steady report hmem hwaits).write h.keyed (h.own report hmem) (foreign _)
      (hspared report hmem hwaits)

section Head

variable {report : OpenReport F} {rest : List (OpenReport F)}

omit [F64 F] in
/-- The reports behind the first one are about other nodes. -/
theorem ne_of_mem_rest (h : w.Answering) (hreports : w.reports = report :: rest)
    {later : OpenReport F} (hmem : later ∈ rest) : report.node ≠ later.node := by
  have hdistinct := h.distinct
  rw [hreports, List.map_cons, List.nodup_cons] at hdistinct
  exact fun heq => hdistinct.1 (heq ▸ List.mem_map_of_mem hmem)

theorem steady_rest (h : w.Answering) (hreports : w.reports = report :: rest) {write : Write F}
    (hw : ∀ id, write.Schedules id → report.node = id)
    (hspared : ∀ id, write.SparesPlace w.store id) :
    ∀ later ∈ rest, later.waits = true → Steady (w.store.write write) later := by
  intro later hmem hwaits
  have hlater : later ∈ w.reports := hreports ▸ List.mem_cons_of_mem _ hmem
  exact (h.steady later hlater hwaits).write h.keyed (h.own later hlater)
    (fun hschedules => h.ne_of_mem_rest hreports hmem (hw _ hschedules)) (hspared _)

/-- The statement that ends the first report answers its claim. -/
theorem ended (h : w.Answering) (hreports : w.reports = report :: rest) {write : Write F}
    (hw : ∀ id, write.Schedules id → report.node = id)
    (hspared : ∀ id, write.SparesPlace w.store id)
    (horderly : StoreStep.Orderly w.store (.write write))
    (hjobs : ∀ jobs, noteJobs jobs w.store (.write write) =
      jobs.filter fun job => job.1 ≠ report.node) :
    Answering { store := w.store.write write, reports := rest } := by
  obtain ⟨jobs, hplaced, hopen⟩ := h.placed
  have hdistinct := h.distinct
  rw [hreports, List.map_cons, List.nodup_cons] at hdistinct
  refine ⟨h.keyed.write write, ⟨_, placed_rows h.keyed horderly hplaced, ?_⟩, hdistinct.2,
    fun later hmem => h.own later (hreports ▸ List.mem_cons_of_mem _ hmem),
    h.steady_rest hreports hw hspared⟩
  rw [hjobs]
  intro job hjob
  obtain ⟨hmem, hne⟩ := List.mem_filter.mp hjob
  have hnode := hopen job hmem
  rw [hreports, List.map_cons, List.mem_cons] at hnode
  exact hnode.resolve_left (of_decide_eq_true hne)

/-- The first event of the first report is stored, unless it repeats one of the log. -/
theorem stored {node : String} {event : TestEventInput F} {events : List (TestEventInput F)}
    {waits : Bool} (h : w.Answering)
    (hreports : w.reports = ⟨node, event :: events, waits⟩ :: rest) (now : Time)
    (cadence : Cadence) (draw : ℕ) :
    Answering { store := w.store.write (.applyTestEvent now event cadence draw)
                reports := ⟨node, events, waits⟩ :: rest } := by
  obtain ⟨jobs, hplaced, hopen⟩ := h.placed
  have hfirst : ⟨node, event :: events, waits⟩ ∈ w.reports := hreports ▸ List.mem_cons_self
  have hown : event.proxyId = node := h.own _ hfirst event List.mem_cons_self
  refine ⟨h.keyed.write (.applyTestEvent now event cadence draw),
    ⟨_, placed_rows h.keyed trivial hplaced, ?_⟩, ?_, ?_, ?_⟩
  · intro job hjob
    rw [hreports] at hopen
    refine hopen job ?_
    simp only [noteJobs] at hjob
    split at hjob
    · exact List.mem_of_mem_filter hjob
    · exact hjob
  · have hdistinct := h.distinct
    rw [hreports] at hdistinct
    exact hdistinct
  · intro report hmem
    obtain rfl | hlater := List.mem_cons.mp hmem
    · exact fun e he => h.own _ hfirst e (List.mem_cons_of_mem _ he)
    · exact h.own report (hreports ▸ List.mem_cons_of_mem _ hlater)
  · intro report hmem hwaits
    obtain rfl | hlater := List.mem_cons.mp hmem
    · exact (h.steady _ hfirst hwaits).stored h.keyed hplaced hown now cadence draw
    · have hschedules : ∀ id, (Write.applyTestEvent now event cadence draw).Schedules id →
          node = id := fun id hid => hown.symm.trans hid
      exact h.steady_rest hreports hschedules (fun _ => trivial) report hlater hwaits

omit [F64 F] in
/-- An event that could not be stored is dropped, and its claim is released all the same. -/
theorem lost {node : String} {event : TestEventInput F} {events : List (TestEventInput F)}
    (h : w.Answering) (hreports : w.reports = ⟨node, event :: events, false⟩ :: rest) :
    Answering { w with reports := ⟨node, events, false⟩ :: rest } := by
  have hnodes : (⟨node, events, false⟩ :: rest).map OpenReport.node = w.reports.map (·.node) := by
    rw [hreports]
    rfl
  obtain ⟨jobs, hplaced, hopen⟩ := h.placed
  refine ⟨h.keyed, ⟨jobs, hplaced, hnodes ▸ hopen⟩, hnodes ▸ h.distinct, ?_, ?_⟩
  · intro report hmem
    obtain rfl | hlater := List.mem_cons.mp hmem
    · exact fun e he => h.own ⟨node, event :: events, false⟩ (hreports ▸ List.mem_cons_self) e
        (List.mem_cons_of_mem _ he)
    · exact h.own report (hreports ▸ List.mem_cons_of_mem _ hlater)
  · intro report hmem hwaits
    obtain rfl | hlater := List.mem_cons.mp hmem
    · cases hwaits
    · exact h.steady report (hreports ▸ List.mem_cons_of_mem _ hlater) hwaits

end Head

/-- A tick opens a report for every job that it claims. -/
theorem tick (h : w.Answering) (idle : w.reports = []) {capacity : ℕ} {tick : ClaimTick F}
    {tested : List (String × ProbeReport F)} {runId : String → String}
    (jobs : (tested.map Prod.fst).Perm ((w.store.claimDue capacity tick).2.map (·.id)))
    (fresh : ∀ entry ∈ tested, ∀ recorded ∈ w.store.events, recorded.runId ≠ runId entry.1)
    (massFailure : Bool) :
    Answering { store := (w.store.claimDue capacity tick).1
                reports := tested.map fun entry =>
                  entry.2.opened massFailure entry.1 (runId entry.1) } := by
  have hnodes : (tested.map fun entry => entry.2.opened massFailure entry.1 (runId entry.1)).map
      (·.node) = tested.map Prod.fst := by
    rw [List.map_map]
    rfl
  obtain ⟨before, hplaced, hopen⟩ := h.placed
  rw [idle] at hopen
  obtain rfl : before = [] := List.eq_nil_iff_forall_not_mem.mpr fun job hjob =>
    List.not_mem_nil (hopen job hjob)
  obtain ⟨hrows, hdistinct, hevents⟩ := claimDue_rows h.keyed capacity tick
  refine ⟨h.keyed.perform (.claimDue capacity tick),
    ⟨_, placed_claimDue h.keyed capacity tick hplaced, ?_⟩, ?_, ?_, ?_⟩
  · intro job hjob
    rw [hnodes]
    obtain ⟨claimed, hclaimed, rfl⟩ := List.mem_map.mp hjob
    exact jobs.mem_iff.mpr (List.mem_map_of_mem hclaimed)
  · rw [hnodes]
    exact jobs.nodup_iff.mpr hdistinct
  · intro report hmem event hevent
    obtain ⟨entry, -, rfl⟩ := List.mem_map.mp hmem
    obtain ⟨probed, -, rfl⟩ := List.mem_map.mp hevent
    rfl
  · intro report hmem hwaits
    obtain ⟨entry, hentry, rfl⟩ := List.mem_map.mp hmem
    refine ⟨inconclusive_of_waiting hwaits, fun row hr hid _ => .inr ?_⟩
    rw [hrows] at hr
    obtain ⟨old, -, rfl⟩ := List.mem_map.mp hr
    have hid' : old.id = entry.1 := by
      split at hid
      · exact hid
      · exact hid
    have hjob : old.id ∈ (w.store.claimDue capacity tick).2.map (·.id) := by
      rw [hid']
      exact jobs.mem_iff.mp (List.mem_map_of_mem hentry)
    rw [if_pos hjob]
    obtain ⟨probed, hhead⟩ := exists_head_of_waiting hwaits
    refine ⟨rfl, probed.testEvent massFailure entry.1 (runId entry.1), ?_, ?_⟩
    · simp [ProbeReport.opened, hhead]
    · rw [Store.alreadyApplied, hevents]
      refine List.any_eq_false.mpr fun recorded hrecorded => ?_
      simp [TestEventInput.sameObservation, ProbeEvent.testEvent,
        fresh entry hentry recorded hrecorded]

end Answering

/-- Every admitted step keeps an open report for every claim without an answer. -/
theorem Answering.step (h : w.Answering) {event : LoopEvent F} (admitted : w.Admits event) :
    (w.step thresholdPercent event).Answering := by
  cases event with
  | tick capacity tick tested runId =>
    rw [SchedulerLoop.step]
    split
    · next hempty =>
      exact h.tick (List.isEmpty_iff.mp hempty) admitted.1 admitted.2 _
    · exact h
  | statement now cadence draw =>
    obtain ⟨store, reports⟩ := w
    match reports with
    | [] => exact h
    | ⟨node, event :: events, waits⟩ :: rest => exact h.stored rfl now cadence draw
    | ⟨node, [], true⟩ :: rest =>
      have hsteady := h.steady _ List.mem_cons_self rfl
      refine h.ended rfl (fun id hid => hid) (fun _ => trivial) ?_ fun _ => rfl
      intro row hr hid valid
      obtain hqueued | ⟨-, head, hhead, -⟩ := hsteady.rows row hr hid valid
      · exact hqueued
      · cases hhead
    | ⟨node, [], false⟩ :: rest =>
      exact h.ended rfl (fun id hid => hid) (fun _ => trivial) trivial fun _ => rfl
  | lost =>
    obtain ⟨store, reports⟩ := w
    match reports with
    | [] => exact h
    | ⟨node, [], waits⟩ :: rest => exact h
    | ⟨node, event :: events, waits⟩ :: rest =>
      obtain rfl : waits = false := admitted _ rfl
      exact h.lost rfl
  | other write => exact h.other admitted.1 admitted.2

/-- A node is claimed, finds no port and waits for one. -/
def portShortage : List (LoopEvent ℚ) := [
  .other (.ingestOne 0 sampleProxy "node" 1),
  .tick 1 (sampleTick 0) [("node", ⟨some sampleProxy,
    (overloadedOutcome "not enough available test ports" 0).events⟩)] fun _ => "run",
  .statement 1 defaultCadence 0, .statement 2 defaultCadence 0]

end SchedulerLoop

end ProxyFleet
