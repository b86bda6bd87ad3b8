import ProxyFleet.ClaimScheduling

/-!
# The cadence of active nodes

A run tests an active node stage by stage, and each success sets the next test anew. The
relay interval is kept by the runs that leave the download out: the download comes last, and
its own interval is the one that stays.
-/
namespace ProxyFleet

/-- A test run in which every stage succeeds, with what each stage measured. -/
structure SuccessfulRun (F : Type) where
  proxyId : String
  runId : String
  downloaded : Bool
  time : TestStage → Time
  fastDownload : TestStage → Bool := fun _ => false
  latencyMs : TestStage → Option F := fun _ => none
  downloadBps : TestStage → Option F := fun _ => none
  draw : TestStage → ℕ := fun _ => 0

namespace SuccessfulRun

variable {F : Type} (run : SuccessfulRun F)

/-- The stages in the order in which the scheduler applies them. -/
def stages : List TestStage := .relay :: .http :: if run.downloaded then [.download] else []

def event (stage : TestStage) : TestEventInput F where
  proxyId := run.proxyId
  runId := run.runId
  stage := stage
  failureClass := .success
  fastDownload := run.fastDownload stage
  latencyMs := run.latencyMs stage
  downloadBps := run.downloadBps stage

def write (cadence : Cadence) (stage : TestStage) : Write F :=
  .applyTestEvent (run.time stage) (run.event stage) cadence (run.draw stage)

def writes (cadence : Cadence) : List (Write F) := run.stages.map (run.write cadence)

def lastStage : TestStage := if run.downloaded then .download else .http

def endedAt : Time := run.time run.lastStage

end SuccessfulRun

section Cadence

variable {F : Type}

/-- The interval that a success of a stage puts before the next test of an active node. -/
def Cadence.interval (cadence : Cadence) (stage : TestStage) : Time :=
  if stage = .download then fromStd cadence.activeDownloadInterval (minutes 5)
  else fromStd cadence.activeRelayInterval (seconds 10)

theorem Cadence.interval_relay_le (cadence : Cadence) {stage : TestStage} (h : stage ≠ .download) :
    cadence.interval stage ≤ cadence.activeRelayInterval := by
  rw [interval, if_neg h, fromStd]
  split
  · exact Int.le_refl _
  · show (10 * 1000000000 : ℤ) ≤ cadence.activeRelayInterval
    omega

/-- The node is due again within the relay interval. Where its next download is due later
than that, a claim for a relay-only job comes before it. -/
structure KeepsCadence (cadence : Cadence) (now : Time) (row : Node F) : Prop where
  due : ∃ time ∈ row.nextTestAt, time ≤ now + cadence.activeRelayInterval
  relayOnly : ∀ downloaded ∈ row.lastRealDownloadAt,
    now + cadence.activeRelayInterval < downloaded + cadence.activeDownloadInterval →
      ∃ time < downloaded + cadence.activeDownloadInterval, row.eligible .active time = true ∧
        ∀ (tick : ClaimTick F) (reason : String), tick.now = time →
          tick.activeDownloadInterval = cadence.activeDownloadInterval →
            (row.job tick .active reason).downloadDue = false

/-- A run of an active node is under way. The claim of a run selects valid rows only, and
its own stages are new to the log. -/
structure Running (s : Store F) (run : SuccessfulRun F) (pending : List TestStage)
    (row : Node F) : Prop where
  found : s.findNode run.proxyId = some row
  active : row.seenLifecycle = .active
  valid : row.structurallyValid = true
  fresh : ∀ stage ∈ pending, s.alreadyApplied (run.event stage) = false

/-- What the last success of a run leaves in the row. -/
structure Revalidated (cadence : Cadence) (run : SuccessfulRun F) (stage : TestStage)
    (row : Node F) : Prop where
  lifecycleState : row.lifecycleState = .active
  testLeaseUntil : row.testLeaseUntil = none
  nextTestAt : row.nextTestAt = some (run.time stage + cadence.interval stage)
  downloaded : stage = .download → row.lastRealDownloadAt = some (run.time stage)

variable [F64 F] {cadence : Cadence} {run : SuccessfulRun F} {s : Store F} {row : Node F}
  {stage : TestStage} {pending : List TestStage}

theorem HealthInput.active_of_success {i : HealthInput F} (hp : i.priorLifecycle = .active)
    (hs : i.failureClass = .success) : i.decidedLifecycle = .active := by
  by_contra h
  have hc : i.failureClass ≠ .invalidConfig := by simp [hs]
  obtain ⟨-, -, htwo, -⟩ := HealthInput.active_lowered hp hc h
  have hzero : i.decidedIndependentFailures = 0 := by
    simp [decidedIndependentFailures, succeeded, hs]
  omega

/-- A success keeps an active node active and sets its next test by the interval of the
stage. -/
theorem Running.revalidated (h : Running s run pending row) (totals : F × F) :
    Revalidated cadence run stage
      (row.applyEvent totals (run.event stage) cadence (run.time stage) (run.draw stage)) := by
  have hactive : (row.healthInput totals (run.event stage) cadence
      (run.time stage)).decidedLifecycle = .active :=
    HealthInput.active_of_success h.active rfl
  refine ⟨hactive, rfl, ?_, fun hdownload => ?_⟩
  · simp only [Node.applyEvent, Node.applyDecision, HealthInput.decide,
      HealthInput.decidedNextTestAt, hactive]
    show some (if stage = .download
      then run.time stage + fromStd cadence.activeDownloadInterval (minutes 5)
      else run.time stage + fromStd cadence.activeRelayInterval (seconds 10)) = _
    rw [Cadence.interval, ← add_ite]
  · simp [Node.applyEvent, Node.applyDecision, SuccessfulRun.event, hdownload]

/-- One stage of a run: it keeps the run under way, and revalidates its node. -/
theorem Running.step (cadence : Cadence) (h : Running s run (stage :: pending) row)
    (hnew : stage ∉ pending) :
    ∃ row', Running (s.write (run.write cadence stage)) run pending row' ∧
      Revalidated cadence run stage row' := by
  have haccepts : s.accepts (run.event stage) = true := by
    have hfresh := h.fresh stage List.mem_cons_self
    have hfound : s.findNode (run.event stage).proxyId = some row := h.found
    simp [Store.accepts, hfresh, hfound]
  have hrevalidated : Revalidated cadence run stage (row.applyEvent
      (s.scored (run.time stage) (run.event stage)) (run.event stage) cadence (run.time stage)
      (run.draw stage)) := h.revalidated _
  have hwrite := Store.write_applyTestEvent s (run.time stage) (run.event stage) cadence
    (run.draw stage)
  rw [if_pos haccepts] at hwrite
  refine ⟨_, ⟨?_, ?_, ?_, fun other hother => ?_⟩, hrevalidated⟩
  · rw [SuccessfulRun.write, hwrite]
    refine (Store.findNode_updateNodes _ (fun row => row.id = run.proxyId)
      (f := fun row => row.applyEvent (s.scored (run.time stage) (run.event stage))
        (run.event stage) cadence (run.time stage) (run.draw stage)) (fun _ => rfl) _).trans ?_
    have hid : row.id = run.proxyId := (Store.mem_of_findNode h.found).2
    rw [show (s.recordTestEvent (run.time stage) (run.event stage)).findNode run.proxyId =
      some row from h.found]
    exact congrArg some (if_pos (decide_eq_true hid))
  · simp only [Node.seenLifecycle, hrevalidated.lifecycleState]
    rfl
  · exact h.valid
  · have hfresh := h.fresh other (List.mem_cons_of_mem _ hother)
    have hne : stage ≠ other := fun heq => hnew (heq ▸ hother)
    rw [SuccessfulRun.write, hwrite]
    simp only [Store.alreadyApplied, List.any_eq_false] at hfresh ⊢
    intro e he
    rcases List.mem_append.mp he with he | he
    · exact hfresh e he
    · obtain rfl := List.mem_singleton.mp he
      simp [TestEventInput.sameObservation, SuccessfulRun.event, hne]

/-- A whole run ends with what its last stage leaves. -/
theorem Running.ended (cadence : Cadence) (h : Running s run run.stages row) :
    ∃ row', (s.writes (run.writes cadence)).findNode run.proxyId = some row' ∧
      row'.structurallyValid = true ∧ Revalidated cadence run run.lastStage row' := by
  rw [SuccessfulRun.stages] at h
  obtain ⟨relayed, hrelayed, -⟩ := h.step cadence (by split <;> decide)
  obtain ⟨answered, hanswered, hhttp⟩ := hrelayed.step cadence (by split <;> decide)
  rw [SuccessfulRun.writes, SuccessfulRun.stages, SuccessfulRun.lastStage]
  cases hdownloaded : run.downloaded with
  | false => exact ⟨answered, hanswered.found, hanswered.valid, hhttp⟩
  | true =>
    rw [hdownloaded] at hanswered
    obtain ⟨fetched, hfetched, hdownload⟩ :=
      hanswered.step cadence List.not_mem_nil
    exact ⟨fetched, hfetched.found, hfetched.valid, hdownload⟩

omit [F64 F] in
/-- Behind a stage whose interval is within the relay interval, the cadence is kept. -/
theorem Revalidated.keepsCadence (h : Revalidated cadence run stage row)
    (hvalid : row.structurallyValid = true)
    (hinterval : cadence.interval stage ≤ cadence.activeRelayInterval) :
    KeepsCadence cadence (run.time stage) row where
  due := ⟨_, h.nextTestAt, add_le_add_right hinterval _⟩
  relayOnly downloaded hdownloaded hlater := by
    have hbefore := (add_le_add_right hinterval (run.time stage)).trans_lt hlater
    refine ⟨run.time stage + cadence.interval stage, hbefore, ?_, ?_⟩
    · simp [Node.eligible, Node.eligibleDirectly, h.lifecycleState, hvalid, Node.due,
        h.nextTestAt, Node.leaseFree, h.testLeaseUntil]
    · intro tick reason hnow hinterval
      rw [Option.mem_def] at hdownloaded
      simp only [Node.job, hdownloaded, hnow, hinterval, Option.all_some, ne_eq, not_true,
        decide_false, Bool.false_or, decide_eq_false_iff_not, not_le]
      exact hbefore

/-- Of a shorter relay interval and a longer download interval, only a download interval that
no signed duration holds comes out within the relay interval: five minutes stand in for it. -/
theorem Cadence.interval_download_le_iff
    (hshorter : cadence.activeRelayInterval < cadence.activeDownloadInterval) :
    cadence.interval .download ≤ cadence.activeRelayInterval ↔
      (2 ^ 63 - 1) * 1000000 < cadence.activeDownloadInterval ∧
        minutes 5 ≤ cadence.activeRelayInterval := by
  rw [interval, if_pos rfl, fromStd]
  split
  · next hholds =>
    have hlonger : (cadence.activeRelayInterval : ℤ) < cadence.activeDownloadInterval := by
      exact_mod_cast hshorter
    exact iff_of_false (not_le.mpr hlonger) fun h => absurd h.1 (Nat.not_lt.mpr hholds)
  · next hbeyond => exact (and_iff_right (Nat.lt_of_not_le hbeyond)).symm

/-- The cadence is kept exactly by the runs without a download, unless five minutes stand in
for the download interval and the relay interval is as long. -/
theorem keepsCadence_iff (h : Running s run run.stages row)
    (hshorter : cadence.activeRelayInterval < cadence.activeDownloadInterval) :
    (∃ row', (s.writes (run.writes cadence)).findNode run.proxyId = some row' ∧
        KeepsCadence cadence run.endedAt row') ↔
      run.downloaded = false ∨
        (2 ^ 63 - 1) * 1000000 < cadence.activeDownloadInterval ∧
          minutes 5 ≤ cadence.activeRelayInterval := by
  rw [← Cadence.interval_download_le_iff hshorter]
  obtain ⟨row', hfound, hvalid, hlast⟩ := h.ended cadence
  constructor
  · rintro ⟨kept, hkept, hcadence⟩
    obtain rfl := Option.some.inj (hfound.symm.trans hkept)
    cases hdownloaded : run.downloaded with
    | false => exact .inl rfl
    | true =>
      obtain ⟨time, htime, hdue⟩ := hcadence.due
      rw [hlast.nextTestAt, Option.mem_some_iff] at htime
      have hstage : run.lastStage = .download := if_pos hdownloaded
      rw [SuccessfulRun.endedAt, ← htime, hstage] at hdue
      exact .inr ((add_le_add_iff_left _).mp hdue)
  · intro hrun
    refine ⟨row', hfound, hlast.keepsCadence hvalid ?_⟩
    by_cases hstage : run.lastStage = .download
    · rw [hstage]
      refine hrun.resolve_left fun hdownloaded => ?_
      simp [SuccessfulRun.lastStage, hdownloaded] at hstage
    · exact cadence.interval_relay_le hstage

end Cadence

/-- A node that became active by a download. -/
def activatedStore : Store ℚ := Store.empty.writes [
  .ingestOne 0 sampleProxy "node" 1,
  .applyTestEvent (seconds 1) (sampleEvent "first" .download .success) defaultCadence 0]

/-- The run that claims it when its download is due again. -/
def dueRun : SuccessfulRun ℚ where
  proxyId := "node"
  runId := "second"
  downloaded := true
  time := fun _ => seconds 400

theorem dueRun_running : ∃ row, Running activatedStore dueRun dueRun.stages row := by
  obtain ⟨row, hfound, hactive, hvalid⟩ : ∃ row, activatedStore.findNode "node" = some row ∧
      row.seenLifecycle = .active ∧ row.structurallyValid = true :=
    ⟨_, rfl, by decide +kernel, by decide +kernel⟩
  exact ⟨row, hfound, hactive, hvalid, by decide +kernel⟩

theorem keepsCadence_iff_dueRun :
    (∃ row', (activatedStore.writes (dueRun.writes defaultCadence)).findNode "node" = some row' ∧
        KeepsCadence defaultCadence (seconds 400) row') ↔
      dueRun.downloaded = false ∨
        (2 ^ 63 - 1) * 1000000 < defaultCadence.activeDownloadInterval ∧
          minutes 5 ≤ defaultCadence.activeRelayInterval := by
  obtain ⟨row, hrow⟩ := dueRun_running
  exact keepsCadence_iff hrow (by decide)

/-- After a run with a download the next test waits for the download interval. -/
theorem due_run_waits :
    (((activatedStore.writes (dueRun.writes defaultCadence)).findNode "node").bind
      (·.nextTestAt)) = some (seconds 700) ∧
    ¬ ∃ row', (activatedStore.writes (dueRun.writes defaultCadence)).findNode "node" = some row' ∧
      KeepsCadence defaultCadence (seconds 400) row' := by
  have hnext : (((activatedStore.writes (dueRun.writes defaultCadence)).findNode "node").bind
      (·.nextTestAt)) = some (seconds 700) := by decide +kernel
  refine ⟨hnext, ?_⟩
  rintro ⟨row', hfound, hcadence⟩
  obtain ⟨time, htime, hdue⟩ := hcadence.due
  rw [hfound, Option.bind_some, Option.mem_def.mp htime] at hnext
  obtain rfl := Option.some.inj hnext
  exact absurd hdue (by decide)

end ProxyFleet
