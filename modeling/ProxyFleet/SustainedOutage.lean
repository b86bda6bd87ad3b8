import Mathlib
import ProxyFleet.EventHistory
import ProxyFleet.EvidenceWindows

/-!
# Sustained outages

A node that cannot be reached fails one run after the other. Each run is claimed when
the node is due and reports one failure, and the failure sets the time of the next run.
-/
namespace ProxyFleet

variable {F : Type}

/-- A failure to reach the node. -/
def FailureClass.unreachable : FailureClass → Bool
  | .tcpTimeout | .relayTimeout | .tlsTimeout | .dnsFailure | .connectionRefused => true
  | _ => false

/-- A run that fails. `draw` is the outcome of the jitter generator. -/
structure FailedRun where
  runId : String
  stage : TestStage
  failureClass : FailureClass
  leaseUntil : Time
  draw : ℕ

def FailedRun.event (run : FailedRun) (id : String) : TestEventInput F where
  proxyId := id
  runId := run.runId
  stage := run.stage
  failureClass := run.failureClass

structure OutageState (F : Type) where
  store : Store F
  /-- The time of the next run. -/
  clock : Time

namespace Node

/-- The row as the worker that claimed it finds it. -/
def taken (row : Node F) (now leaseUntil : Time) : Node F :=
  if row.leaseFree now then row.claimed leaseUntil else row

/-- The states that a sustained failure moves through. -/
def Tested (row : Node F) : Prop :=
  row.lifecycleState = .active ∨ row.lifecycleState = .probation ∨ row.lifecycleState = .dormant

theorem taken_seenLifecycle {row : Node F} (tested : row.Tested) (now leaseUntil : Time) :
    (row.taken now leaseUntil).seenLifecycle = row.lifecycleState := by
  unfold taken
  split
  · rcases tested with h | h | h <;> simp [seenLifecycle, claimed, h]
  · rcases tested with h | h | h <;> simp [seenLifecycle, h]

/-- A claim does not touch what the decision reads beside the lifecycle. -/
theorem taken_columns (row : Node F) (now leaseUntil : Time) :
    (row.taken now leaseUntil).failureStreak = row.failureStreak ∧
      (row.taken now leaseUntil).independentFailureCount = row.independentFailureCount ∧
      (row.taken now leaseUntil).lastFailureRunId = row.lastFailureRunId ∧
      (row.taken now leaseUntil).activatedAt = row.activatedAt ∧
      (row.taken now leaseUntil).lastRealDownloadAt = row.lastRealDownloadAt := by
  unfold taken
  split <;> exact ⟨rfl, rfl, rfl, rfl, rfl⟩

end Node

variable [F64 F]

/-- One run, from its claim to its report. -/
def OutageState.perform (cadence : Cadence) (id : String) (o : OutageState F)
    (run : FailedRun) : OutageState F :=
  let claimed := o.store.write (.claimRow o.clock run.leaseUntil id)
  let store := claimed.write (.applyTestEvent o.clock (run.event id) cadence run.draw)
  { store := store
    clock := ((store.findNode id).bind fun row => row.nextTestAt).getD o.clock }

/-- The totals of the evidence once the event is recorded. -/
def OutageState.totals (o : OutageState F) (id : String) (run : FailedRun) : F × F :=
  (o.store.recordTestEvent o.clock (run.event id)).effectiveEvidence id o.clock

/-- What the failed run decides. -/
def OutageState.input (o : OutageState F) (cadence : Cadence) (id : String) (row : Node F)
    (run : FailedRun) : HealthInput F :=
  (row.taken o.clock run.leaseUntil).healthInput (o.totals id run) (run.event id) cadence o.clock

theorem unreachable_conclusive {c : FailureClass} (h : c.unreachable = true) :
    c.conclusiveFailure = true ∧ c ≠ .success ∧ c ≠ .invalidConfig ∧ c.inconclusive = false := by
  cases c <;> first | decide | cases h

section Perform

variable {cadence : Cadence} {id : String} {o : OutageState F} {run : FailedRun} {row : Node F}

theorem Store.findNode_claimRow (s : Store F) (now leaseUntil : Time) {row : Node F}
    (found : s.findNode id = some row) :
    (s.write (.claimRow now leaseUntil id)).findNode id = some (row.taken now leaseUntil) := by
  have hid : row.id = id := (Store.mem_of_findNode found).2
  have hkey : ∀ row : Node F, (row.claimed leaseUntil).id = row.id := fun _ => rfl
  rw [Store.write, Store.claimRow, Store.findNode_updateNodes s _ hkey, found]
  simp [Node.taken, hid]

variable (cadence) in
/-- A run applies its failure to the claimed row and records it. -/
theorem perform_applied (found : o.store.findNode id = some row)
    (fresh : ∀ e ∈ o.store.events, e.runId ≠ run.runId) :
    (o.perform cadence id run).store.findNode id =
        some ((row.taken o.clock run.leaseUntil).applyEvent (o.totals id run) (run.event id)
          cadence o.clock run.draw) ∧
      (o.perform cadence id run).store.events =
        (o.store.recordTestEvent o.clock (run.event id)).events := by
  set claimed := o.store.write (.claimRow o.clock run.leaseUntil id) with hclaimed
  have hevents : claimed.events = o.store.events := rfl
  have hfound := Store.findNode_claimRow o.store o.clock run.leaseUntil found
  have hnew : claimed.alreadyApplied (run.event id) = false := by
    rw [Store.alreadyApplied, hevents, List.any_eq_false]
    intro e he
    simp [TestEventInput.sameObservation, FailedRun.event, fresh e he]
  have haccepts : claimed.accepts (run.event id) = true := by
    rw [Store.accepts, hnew]
    show (claimed.findNode id).isSome && !false = true
    rw [hfound]
    rfl
  have hstore : (o.perform cadence id run).store =
      (claimed.recordTestEvent o.clock (run.event id)).updateNodes
        (fun row => row.id = id)
        (fun row => row.applyEvent (o.totals id run) (run.event id) cadence o.clock run.draw) := by
    unfold OutageState.perform
    dsimp only
    rw [Store.write_applyTestEvent]
    exact if_pos haccepts
  have hid : (row.taken o.clock run.leaseUntil).id = id := (Store.mem_of_findNode hfound).2
  have hkey : ∀ row : Node F, (row.applyEvent (o.totals id run) (run.event id) cadence o.clock
      run.draw).id = row.id := fun _ => rfl
  have hlookup : (claimed.recordTestEvent o.clock (run.event id)).findNode id =
      some (row.taken o.clock run.leaseUntil) := hfound
  rw [hstore]
  refine ⟨?_, rfl⟩
  rw [Store.findNode_updateNodes _ _ hkey, hlookup]
  simp [hid]

theorem input_priorLifecycle (tested : row.Tested) :
    (o.input cadence id row run).priorLifecycle = row.lifecycleState :=
  Node.taken_seenLifecycle tested o.clock run.leaseUntil

/-- The lifecycle after a failure in one of the tested states. -/
theorem input_decidedLifecycle (tested : row.Tested)
    (unreachable : run.failureClass.unreachable = true) :
    (o.input cadence id row run).decidedLifecycle = (o.input cadence id row run).hysteresis := by
  obtain ⟨-, hsuccess, hvalid, -⟩ := unreachable_conclusive unreachable
  have hclass : (o.input cadence id row run).failureClass = run.failureClass := rfl
  have hreal : (o.input cadence id row run).realDownload = false := by
    simp [HealthInput.realDownload, HealthInput.succeeded, hclass, hsuccess]
  unfold HealthInput.decidedLifecycle
  rw [input_priorLifecycle tested, hclass, hreal]
  rcases tested with h | h | h <;> simp [h, hvalid]

theorem input_failureStreak (unreachable : run.failureClass.unreachable = true) :
    (o.input cadence id row run).decidedFailureStreak =
      saturatingSucc (asU32 row.failureStreak) := by
  obtain ⟨-, hsuccess, -, hinconclusive⟩ := unreachable_conclusive unreachable
  rw [← (row.taken_columns o.clock run.leaseUntil).1]
  simp [HealthInput.decidedFailureStreak, HealthInput.succeeded, OutageState.input,
    Node.healthInput, FailedRun.event, hsuccess, hinconclusive]

theorem input_independentFailures (unreachable : run.failureClass.unreachable = true) :
    (o.input cadence id row run).decidedIndependentFailures =
      if row.lastFailureRunId = some run.runId then asU32 row.independentFailureCount
      else saturatingSucc (asU32 row.independentFailureCount) := by
  obtain ⟨hconclusive, hsuccess, -, hinconclusive⟩ := unreachable_conclusive unreachable
  obtain ⟨-, hindependent, hrun, -⟩ := row.taken_columns o.clock run.leaseUntil
  rw [← hindependent, ← hrun]
  by_cases hsame : (row.taken o.clock run.leaseUntil).lastFailureRunId = some run.runId
  · simp [HealthInput.decidedIndependentFailures, HealthInput.succeeded, OutageState.input,
      Node.healthInput, FailedRun.event, hsuccess, hinconclusive, hsame]
  · simp [HealthInput.decidedIndependentFailures, HealthInput.succeeded, OutageState.input,
      Node.healthInput, FailedRun.event, hsuccess, hinconclusive, hconclusive, hsame]

variable (cadence) in
/-- The columns of the row after a failed run. -/
theorem perform_row (found : o.store.findNode id = some row) (tested : row.Tested)
    (unreachable : run.failureClass.unreachable = true)
    (fresh : ∀ e ∈ o.store.events, e.runId ≠ run.runId) :
    ∃ row', (o.perform cadence id run).store.findNode id = some row' ∧
      row'.lifecycleState = (o.input cadence id row run).hysteresis ∧
      asU32 row'.failureStreak = saturatingSucc (asU32 row.failureStreak) ∧
      asU32 row'.independentFailureCount =
        (if row.lastFailureRunId = some run.runId then asU32 row.independentFailureCount
          else saturatingSucc (asU32 row.independentFailureCount)) ∧
      row'.lastFailureRunId = some run.runId ∧
      row'.activatedAt = (if row'.lifecycleState = .active ∧ row.lifecycleState ≠ .active
        then some o.clock else row.activatedAt) ∧
      row'.lastRealDownloadAt = row.lastRealDownloadAt ∧
      (o.perform cadence id run).clock = o.clock + fullJitterDelay
        (saturatingSucc (asU32 row.failureStreak)) row.lastRealDownloadAt.isSome
          (row'.lifecycleState == .dormant) run.failureClass run.draw := by
  obtain ⟨hfound, -⟩ := perform_applied cadence found fresh
  have hlifecycle : (o.input cadence id row run).decidedLifecycle =
    (o.input cadence id row run).hysteresis := input_decidedLifecycle tested unreachable
  obtain ⟨hconclusive, hsuccess, -, hinconclusive⟩ := unreachable_conclusive unreachable
  obtain ⟨-, -, -, hactivated, hdownload⟩ := row.taken_columns o.clock run.leaseUntil
  refine ⟨_, hfound, hlifecycle, ?_, ?_, ?_, ?_, ?_, ?_⟩
  · show asU32 ((o.input cadence id row run).decidedFailureStreak : ℕ) = _
    rw [input_failureStreak unreachable, asU32_saturatingSucc]
  · show asU32 ((o.input cadence id row run).decidedIndependentFailures : ℕ) = _
    rw [input_independentFailures unreachable]
    split
    · exact asU32_natCast (asU32_le _)
    · exact asU32_saturatingSucc _
  · show (if (run.failureClass.conclusiveFailure : Bool) then some run.runId else _) = _
    rw [if_pos hconclusive]
  · rw [← hactivated, ← Node.taken_seenLifecycle tested o.clock run.leaseUntil]
    rfl
  · rw [← hdownload]
    exact if_neg fun h => hsuccess h.1
  · have hclock : (o.perform cadence id run).clock =
        (o.input cadence id row run).decidedNextTestAt run.draw := by
      show (((o.perform cadence id run).store.findNode id).bind fun row => row.nextTestAt).getD
        o.clock = _
      rw [hfound]
      rfl
    have hfailed : (o.input cadence id row run).decidedNextTestAt run.draw =
        o.clock + fullJitterDelay (o.input cadence id row run).decidedFailureStreak
          (row.taken o.clock run.leaseUntil).lastRealDownloadAt.isSome
          ((o.input cadence id row run).decidedLifecycle == .dormant) run.failureClass
          run.draw := by
      simp [HealthInput.decidedNextTestAt, HealthInput.succeeded, OutageState.input,
        Node.healthInput, FailedRun.event, hsuccess, hinconclusive]
    rw [hclock, hfailed, input_failureStreak unreachable, hdownload]
    rfl

end Perform

/-- A row that is `ACTIVE` or in `PROBATION` when its runs begin to fail. The runs are new to
the store and differ from each other. -/
structure SustainedOutage (F : Type) where
  cadence : Cadence
  store : Store F
  id : String
  row : Node F
  /-- The time of the first run. -/
  start : Time
  runs : ℕ → FailedRun
  found : store.findNode id = some row
  prior : row.lifecycleState = .active ∨ row.lifecycleState = .probation
  past : ∀ e ∈ store.events, e.proxyId = id → e.occurredAt ≤ start
  failed : ∀ k, (runs k).failureClass.unreachable = true
  fresh : ∀ k, ∀ e ∈ store.events, e.runId ≠ (runs k).runId
  unseen : ∀ k, row.lastFailureRunId ≠ some (runs k).runId
  distinct : Function.Injective fun k => (runs k).runId

namespace SustainedOutage

variable (o : SustainedOutage F)

omit [F64 F] in
/-- The time of a run, by the backoff of a row that is not yet `DORMANT`. -/
def dueTime : ℕ → Time
  | 0 => o.start
  | k + 1 => dueTime k + fullJitterDelay (min (asU32 o.row.failureStreak + k + 1) u32Max)
      o.row.lastRealDownloadAt.isSome false (o.runs k).failureClass (o.runs k).draw

omit [F64 F] in
theorem dueTime_mono : Monotone o.dueTime :=
  monotone_nat_of_le_succ fun _ => le_add_of_nonneg_right (fullJitterDelay_nonneg _ _ _ _ _)

/-- The fleet after the first runs. -/
def after : ℕ → OutageState F
  | 0 => { store := o.store, clock := o.start }
  | k + 1 => (after k).perform o.cadence o.id (o.runs k)

def lifecycleAfter (n : ℕ) : Option LifecycleState :=
  ((o.after n).store.findNode o.id).map fun row => row.lifecycleState

/-- The entry of the event log for a run of the outage. -/
def outageEvent (k : ℕ) : TestEvent F :=
  ((o.runs k).event o.id).recorded (o.store.events.length + k) (o.dueTime k)

theorem mem_events_after (k : ℕ) : ∀ e ∈ (o.after k).store.events,
    e ∈ o.store.events ∨ ∃ i < k, e.runId = (o.runs i).runId := by
  induction k with
  | zero => exact fun e he => .inl he
  | succ k ih =>
    intro e he
    have hold : e ∈ (o.after k).store.events →
        e ∈ o.store.events ∨ ∃ i < k + 1, e.runId = (o.runs i).runId := by
      intro he
      rcases ih e he with he | ⟨i, hi, hrun⟩
      · exact .inl he
      · exact .inr ⟨i, Nat.lt_succ_of_lt hi, hrun⟩
    change e ∈ (((o.after k).store.write _).write (.applyTestEvent _ _ _ _)).events at he
    obtain ⟨now, event, cadence, draw, hw, -, hevents⟩ | ⟨-, hevents⟩ :=
      Store.events_write ((o.after k).store.write (.claimRow (o.after k).clock
        (o.runs k).leaseUntil o.id)) (.applyTestEvent (o.after k).clock ((o.runs k).event o.id)
          o.cadence (o.runs k).draw)
    · obtain ⟨-, rfl, -⟩ := Write.applyTestEvent.inj hw
      rw [hevents, events_recordTestEvent] at he
      rcases List.mem_append.mp he with he | he
      · exact hold he
      · rw [List.mem_singleton.mp he]
        exact .inr ⟨k, Nat.lt_succ_self k, rfl⟩
    · rw [hevents] at he
      exact hold he

theorem fresh_after (k : ℕ) : ∀ e ∈ (o.after k).store.events, e.runId ≠ (o.runs k).runId := by
  intro e he hrun
  rcases o.mem_events_after k e he with he | ⟨i, hi, hearlier⟩
  · exact o.fresh k e he hrun
  · exact absurd (o.distinct (hearlier.symm.trans hrun)) (ne_of_lt hi)

/-- The row, the clock and the log after the first runs, while the row is not yet `DORMANT`. -/
structure OutageRow (k : ℕ) (row : Node F) : Prop where
  found : (o.after k).store.findNode o.id = some row
  prior : row.lifecycleState = .active ∨ row.lifecycleState = .probation
  clock : (o.after k).clock = o.dueTime k
  events : (o.after k).store.events = o.store.events ++ (List.range k).map o.outageEvent
  streak : asU32 row.failureStreak = min (asU32 o.row.failureStreak + k) u32Max
  independent :
    asU32 row.independentFailureCount = min (asU32 o.row.independentFailureCount + k) u32Max
  unseen : row.lastFailureRunId ≠ some (o.runs k).runId
  download : row.lastRealDownloadAt = o.row.lastRealDownloadAt

theorem outageRow_zero : o.OutageRow 0 o.row where
  found := o.found
  prior := o.prior
  clock := rfl
  events := by simp [after]
  streak := (min_eq_left (asU32_le _)).symm
  independent := (min_eq_left (asU32_le _)).symm
  unseen := o.unseen 0
  download := rfl

variable {o} {k : ℕ} {row : Node F}

theorem OutageRow.tested (h : o.OutageRow k row) : row.Tested := by
  rcases h.prior with hactive | hprobation
  · exact .inl hactive
  · exact .inr (.inl hprobation)

/-- A failure keeps a row among the tested states. -/
theorem hysteresis_tested {i : HealthInput F} (h : i.priorLifecycle = .active ∨
    i.priorLifecycle = .probation ∨ i.priorLifecycle = .dormant) : i.hysteresis = .active ∨
      i.hysteresis = .probation ∨ i.hysteresis = .dormant := by
  unfold HealthInput.hysteresis
  rcases h with h | h | h <;> simp only [h] <;> split_ifs <;> simp

/-- What a failed run leaves of a row that was not yet `DORMANT`. -/
theorem OutageRow.next (h : o.OutageRow k row) :
    ∃ row', (o.after (k + 1)).store.findNode o.id = some row' ∧
      row'.lifecycleState = ((o.after k).input o.cadence o.id row (o.runs k)).hysteresis ∧
      row'.activatedAt = (if row'.lifecycleState = .active ∧ row.lifecycleState ≠ .active
        then some (o.dueTime k) else row.activatedAt) ∧
      (row'.lifecycleState ≠ .dormant → o.OutageRow (k + 1) row') := by
  obtain ⟨row', hfound, hlifecycle, hstreak, hindependent, hrun, hactivated, hdownload, hclock⟩ :=
    perform_row o.cadence h.found h.tested (o.failed k) (o.fresh_after k)
  obtain ⟨-, hevents⟩ := perform_applied o.cadence h.found (o.fresh_after k)
  have htested : row'.Tested := by
    unfold Node.Tested
    rw [hlifecycle]
    apply hysteresis_tested
    rw [input_priorLifecycle h.tested]
    exact h.tested
  rw [h.clock] at hactivated hclock
  refine ⟨row', hfound, hlifecycle, hactivated, fun hawake => ⟨hfound, ?_, ?_, ?_, ?_, ?_, ?_, ?_⟩⟩
  · rcases htested with hactive | hprobation | hdormant
    · exact .inl hactive
    · exact .inr hprobation
    · exact absurd hdormant hawake
  · have hsame : saturatingSucc (asU32 row.failureStreak) =
        min (asU32 o.row.failureStreak + k + 1) u32Max := by
      rw [h.streak]
      unfold saturatingSucc
      omega
    have hflag : (row'.lifecycleState == .dormant) = false := by simpa using hawake
    rw [hsame, h.download, hflag] at hclock
    exact hclock
  · rw [show (o.after (k + 1)).store.events = _ from hevents,
      events_recordTestEvent, h.events, List.range_succ, List.map_append, ← List.append_assoc]
    congr 2
    simp [outageEvent, h.clock]
  · rw [hstreak, h.streak]
    unfold saturatingSucc
    omega
  · rw [hindependent, if_neg h.unseen, h.independent]
    unfold saturatingSucc
    omega
  · rw [hrun, ne_eq, Option.some.injEq]
    exact fun hsame => absurd (o.distinct hsame) (by omega)
  · exact hdownload.trans h.download

/-- No failure takes a row out of `DORMANT`. -/
theorem dormant_next (h : o.lifecycleAfter k = some .dormant) :
    o.lifecycleAfter (k + 1) = some .dormant := by
  obtain ⟨row, hfound, hdormant⟩ := Option.map_eq_some_iff.mp h
  have tested : row.Tested := .inr (.inr hdormant)
  obtain ⟨row', hfound', hlifecycle, -⟩ :=
    perform_row o.cadence hfound tested (o.failed k) (o.fresh_after k)
  have hfailed : ((o.after k).input o.cadence o.id row (o.runs k)).succeeded = false := by
    obtain ⟨-, hsuccess, -, -⟩ := unreachable_conclusive (o.failed k)
    exact decide_eq_false hsuccess
  have hstays : ((o.after k).input o.cadence o.id row (o.runs k)).hysteresis = .dormant := by
    unfold HealthInput.hysteresis
    rw [input_priorLifecycle tested, hdormant]
    simp [hfailed]
  exact Option.map_eq_some_iff.mpr ⟨row', hfound', hlifecycle.trans hstays⟩

theorem dormant_of_le {n : ℕ} (h : o.lifecycleAfter k = some .dormant) (hn : k ≤ n) :
    o.lifecycleAfter n = some .dormant := by
  induction n, hn using Nat.le_induction with
  | base => exact h
  | succ n _ ih => exact dormant_next ih

end SustainedOutage

end ProxyFleet
