import ProxyFleet.ClaimScheduling

/-!
# Which nodes can be tested again

A tick claims a node by moving it to `TESTING`, and no queue selects `TESTING`. The
node comes back through the worker's event, release or port wait, so a worker that
never answers keeps it. The observer keeps the jobs that nobody answered yet.
-/
namespace ProxyFleet

variable {F : Type} [F64 F]

/-- One operation of the service: any write, or a whole tick of the scheduler. -/
inductive StoreStep (F : Type) where
  | write (w : Write F)
  | claimDue (capacity : ℕ) (tick : ClaimTick F)

def Store.perform (s : Store F) : StoreStep F → Store F
  | .write w => s.write w
  | .claimDue capacity tick => (s.claimDue capacity tick).1

/-- The claimed jobs without an answer, each with the end of its lease. -/
def noteJobs (jobs : List (String × Time)) (s : Store F) : StoreStep F → List (String × Time)
  | .claimDue capacity tick =>
      jobs ++ (s.claimDue capacity tick).2.map fun job => (job.id, tick.now + tick.lease)
  | .write (.applyTestEvent _ event _ _) =>
      if s.accepts event then jobs.filter fun job => job.1 ≠ event.proxyId else jobs
  | .write (.releaseTestLease id) => jobs.filter fun job => job.1 ≠ id
  | .write (.markWaitingForPort _ id _) => jobs.filter fun job => job.1 ≠ id
  | _ => jobs

/-- The jobs without an answer after a run from an empty database. -/
abbrev unansweredJobs (steps : List (StoreStep F)) : List (String × Time) :=
  ObservedRuns.notes Store.perform noteJobs [] Store.empty steps

/-- A claim is part of a tick, and a port wait finds its node in the state of a queue. -/
def StoreStep.Orderly (s : Store F) : StoreStep F → Prop
  | .write (.claimRow _ _ _) => False
  | .write (.markWaitingForPort _ id _) =>
      ∀ row ∈ s.nodes, row.id = id → row.structurallyValid = true →
        row.lifecycleState ∈ queueStates
  | _ => True

/-- Where a valid row can stand. -/
inductive Placed (jobs : List (String × Time)) (row : Node F) : Prop
  | queued (queue : row.lifecycleState ∈ queueStates)
  | retired (state : row.lifecycleState = .retired)
  | invalid (state : row.lifecycleState = .invalid)
  | testing (state : row.lifecycleState = .testing) (origin : LifecycleState)
      (queue : origin ∈ queueStates) (from_eq : row.testingFromState = some origin)
      (lease : Time) (lease_eq : row.testLeaseUntil = some lease) (job : (row.id, lease) ∈ jobs)
  | waiting (state : row.lifecycleState = .waitingForPort) (origin : LifecycleState)
      (queue : origin ∈ queueStates) (from_eq : row.waitingFromState = some origin)

section Steps

variable {s : Store F} {jobs : List (String × Time)} {row row' : Node F} {w : Write F}

/-- Jobs of other rows stay, and so does the job of a row that the write passes over. -/
theorem mem_noteJobs {lease : Time} (h : (row.id, lease) ∈ jobs)
    (hw : ∀ id, (∃ now event cadence draw, w = .applyTestEvent now event cadence draw ∧
        event.proxyId = id ∧ s.accepts event = true) ∨ w = .releaseTestLease id ∨
        (∃ now retryAfter, w = .markWaitingForPort now id retryAfter) → row.id ≠ id) :
    (row.id, lease) ∈ noteJobs jobs s (.write w) := by
  cases w with
  | applyTestEvent now event cadence draw =>
    simp only [noteJobs]
    split
    · next hacc =>
      refine List.mem_filter.mpr ⟨h, ?_⟩
      simpa using hw _ (.inl ⟨now, event, cadence, draw, rfl, rfl, hacc⟩)
    · exact h
  | releaseTestLease id =>
    exact List.mem_filter.mpr ⟨h, by simpa using hw id (.inr (.inl rfl))⟩
  | markWaitingForPort now id retryAfter =>
    exact List.mem_filter.mpr ⟨h, by simpa using hw id (.inr (.inr ⟨now, retryAfter, rfl⟩))⟩
  | _ => exact h

/-- A row that a write passes over keeps its place. -/
theorem Placed.of_unselected (valid : row.structurallyValid = true) (h : Placed jobs row)
    (hn : ¬ w.Selects s row) : Placed (noteJobs jobs s (.write w)) row := by
  cases h with
  | queued queue => exact .queued queue
  | retired state => exact .retired state
  | invalid state => exact .invalid state
  | waiting state origin queue from_eq => exact .waiting state origin queue from_eq
  | testing state origin queue from_eq lease lease_eq job =>
    refine .testing state origin queue from_eq lease lease_eq (mem_noteJobs job ?_)
    rintro id (⟨now, event, cadence, draw, rfl, hid, hacc⟩ | rfl | ⟨now, retryAfter, rfl⟩) he
    · exact hn ⟨he.trans hid.symm, hacc⟩
    · exact hn ⟨he, state⟩
    · exact hn ⟨he, valid⟩

omit [F64 F] in
/-- A step that keeps the states, the lease and the validity of a row keeps its place. -/
theorem Placed.of_same (h : Placed jobs row) (hid : row'.id = row.id)
    (hstate : row'.lifecycleState = row.lifecycleState)
    (htesting : row'.testingFromState = row.testingFromState)
    (hwaiting : row'.waitingFromState = row.waitingFromState)
    (hlease : row'.testLeaseUntil = row.testLeaseUntil) : Placed jobs row' := by
  cases h with
  | queued queue => exact .queued (hstate ▸ queue)
  | retired state => exact .retired (hstate.trans state)
  | invalid state => exact .invalid (hstate.trans state)
  | waiting state origin queue from_eq =>
    exact .waiting (hstate.trans state) origin queue (hwaiting.trans from_eq)
  | testing state origin queue from_eq lease lease_eq job =>
    exact .testing (hstate.trans state) origin queue (htesting.trans from_eq) lease
      (hlease.trans lease_eq) (hid ▸ job)

/-- An event leaves the row in a queue's state, waiting, retired or invalid. -/
theorem Placed.applied (h : Placed jobs row) (totals : F × F) (event : TestEventInput F)
    (cadence : Cadence) (now : Time) (draw : ℕ) (jobs' : List (String × Time)) :
    Placed jobs' (row.applyEvent totals event cadence now draw) := by
  have hdec : (row.applyEvent totals event cadence now draw).lifecycleState = row.seenLifecycle ∨
      (row.applyEvent totals event cadence now draw).lifecycleState ∈
        [LifecycleState.active, .probation, .dormant, .invalid] :=
    HealthInput.decidedLifecycle_cases (i := row.healthInput totals event cadence now)
  obtain hsame | hmoved := hdec
  · cases h with
    | queued queue =>
      refine .queued ?_
      have hne : row.lifecycleState ≠ .testing := by
        intro he
        simp [he, queueStates, queueOrder] at queue
      rwa [hsame, Node.seenLifecycle, if_neg hne]
    | retired state => exact .retired (by rw [hsame, Node.seenLifecycle, state]; rfl)
    | invalid state => exact .invalid (by rw [hsame, Node.seenLifecycle, state]; rfl)
    | testing state origin queue from_eq =>
      refine .queued ?_
      rwa [hsame, Node.seenLifecycle, if_pos state, from_eq]
    | waiting state origin queue from_eq =>
      exact .waiting (by rw [hsame, Node.seenLifecycle, state]; rfl) origin queue from_eq
  · simp only [List.mem_cons, List.not_mem_nil, or_false] at hmoved
    obtain he | he | he | he := hmoved
    · exact .queued (by simp [he, queueStates, queueOrder])
    · exact .queued (by simp [he, queueStates, queueOrder])
    · exact .queued (by simp [he, queueStates, queueOrder])
    · exact .invalid he

/-- Every orderly write leaves every valid row in its place or in another one. -/
theorem placed_write (hr : row ∈ s.nodes) (orderly : StoreStep.Orderly s (.write w))
    (h : row.structurallyValid = true → Placed jobs row) (hs : RowStep s w row row')
    (valid : row'.structurallyValid = true) : Placed (noteJobs jobs s (.write w)) row' := by
  cases hs with
  | kept _ hn => exact (h valid).of_unselected valid hn
  | port _ _ hn | metadata _ _ _ hn =>
    have was : row.structurallyValid = true := valid
    exact ((h was).of_unselected was hn).of_same rfl rfl rfl rfl rfl
  | missed | seenAgain | scheduled | seeded => exact (h valid).of_same rfl rfl rfl rfl rfl
  | missedRetired | retired => exact .retired rfl
  | dormantRevived | revived => exact .queued (by simp [Node.dormantRevived, Node.revived,
      queueStates, queueOrder])
  | claimed => exact orderly.elim
  | @waiting now id retryAfter _ own was =>
    exact .waiting rfl row.lifecycleState (orderly row hr own was) rfl
  | released _ own testing =>
    cases h valid with
    | testing state origin queue from_eq =>
      exact .queued (by simpa [Node.released, from_eq] using queue)
    | queued queue => simp [testing, queueStates, queueOrder] at queue
    | retired state | invalid state => rw [testing] at state; cases state
    | waiting state => rw [testing] at state; cases state
  | @applied now event cadence draw _ own fresh =>
    refine (h ?_).applied _ event cadence now draw _
    by_contra hinvalid
    simp only [Node.applyEvent, Node.applyDecision] at valid
    split at valid
    · cases valid
    · exact hinvalid valid
  | @reingested now proxy newId generation _ hash =>
    have hplace := h valid
    by_cases hret : row.lifecycleState = .retired
    · exact .queued (by simp [Node.reingested, hret, queueStates, queueOrder])
    · exact hplace.of_same rfl (by simp [Node.reingested, hret]) rfl rfl rfl

/-- A tick claims rows of the queues and notes the jobs. -/
theorem placed_claimDue (hk : s.WellKeyed) (capacity : ℕ) (tick : ClaimTick F)
    (h : ∀ row ∈ s.nodes, row.structurallyValid = true → Placed jobs row) :
    ∀ row' ∈ (s.claimDue capacity tick).1.nodes, row'.structurallyValid = true →
      Placed (noteJobs jobs s (.claimDue capacity tick)) row' := by
  intro row' hr' valid
  obtain ⟨claimed, hclaims, hnodes, -⟩ := claimDue_spec tick hk capacity
  rw [hnodes] at hr'
  obtain hr | ⟨row, -, state, hstate, he, rfl, job, hjob, hid⟩ := hclaims.rows row' hr'
  · cases h row' hr valid with
    | queued queue => exact .queued queue
    | retired state => exact .retired state
    | invalid state => exact .invalid state
    | waiting state origin queue from_eq => exact .waiting state origin queue from_eq
    | testing state origin queue from_eq lease lease_eq job =>
      exact .testing state origin queue from_eq lease lease_eq (List.mem_append_left _ job)
  · refine .testing rfl state hstate ?_ _ rfl (List.mem_append_right _ ?_)
    · simp only [Node.eligible, Node.eligibleDirectly, Node.eligibleWaiting, Bool.or_eq_true,
        Bool.and_eq_true, decide_eq_true_eq] at he
      obtain ⟨⟨⟨hq, -⟩, -⟩, -⟩ | ⟨⟨⟨⟨hwait, horigin⟩, -⟩, -⟩, -⟩ := he
      · have hne : row.lifecycleState ≠ .waitingForPort := by
          rintro heq
          simp [← hq, heq, queueStates, queueOrder] at hstate
        subst hq
        simp only [Node.claimed, if_neg hne]
      · simp [Node.claimed, hwait, horigin]
    · exact List.mem_map.mpr ⟨job, hjob, by rw [hid]; rfl⟩

end Steps

theorem Store.WellKeyed.perform {s : Store F} (hk : s.WellKeyed) (step : StoreStep F) :
    (s.perform step).WellKeyed := by
  cases step with
  | write w => exact hk.write w
  | claimDue capacity tick =>
    obtain ⟨ws, hws⟩ := claimDue_writes tick hk capacity
    rw [Store.perform, hws]
    exact hk.writes ws

/-- After every orderly run each valid row stands in one of the places. -/
theorem placed_run {steps : List (StoreStep F)}
    (orderly : ObservedRuns.Admitted Store.perform StoreStep.Orderly Store.empty steps) :
    ∀ row ∈ (ObservedRuns.run Store.perform Store.empty steps).nodes,
      row.structurallyValid = true → Placed (unansweredJobs steps) row := by
  refine (ObservedRuns.notes_invariant (A := StoreStep.Orderly)
    (I := fun s jobs => s.WellKeyed ∧
      ∀ row ∈ s.nodes, row.structurallyValid = true → Placed jobs row)
    ?_ ⟨Store.wellKeyed_empty, by simp [Store.empty]⟩ orderly).2
  rintro s jobs step horderly ⟨hk, h⟩
  refine ⟨hk.perform step, fun row' hr' valid => ?_⟩
  cases step with
  | claimDue capacity tick => exact placed_claimDue hk capacity tick h row' hr' valid
  | write w =>
    obtain hi | ⟨row, hr, hs⟩ := row_of_write hk hr'
    · cases hi
      exact .queued (by simp [Node.ingested, queueStates, queueOrder])
    · exact placed_write hr horderly (h row hr) hs valid

/-- No node is locked out of testing while every job past its lease is answered: in an
orderly run a due node without a running lease is eligible for a queue. -/
theorem due_nodes_eligible {steps : List (StoreStep F)} {now : Time}
    (orderly : ObservedRuns.Admitted Store.perform StoreStep.Orderly Store.empty steps)
    (answered : ∀ job ∈ unansweredJobs steps, now < job.2) :
    ∀ row ∈ (ObservedRuns.run Store.perform Store.empty steps).nodes,
      row.structurallyValid = true → row.lifecycleState ≠ .invalid →
      row.lifecycleState ≠ .retired → row.due now = true → row.leaseFree now = true →
      ∃ state ∈ queueStates, row.eligible state now = true := by
  intro row hr valid hni hnr due free
  cases placed_run orderly row hr valid with
  | retired state => exact absurd state hnr
  | invalid state => exact absurd state hni
  | queued queue =>
    exact ⟨_, queue, by simp [Node.eligible, Node.eligibleDirectly, valid, due, free]⟩
  | waiting state origin queue from_eq =>
    exact ⟨origin, queue, by
      simp [Node.eligible, Node.eligibleWaiting, state, from_eq, valid, due, free]⟩
  | testing state origin queue from_eq lease lease_eq job =>
    have hlt : now < lease := answered _ job
    simp only [Node.leaseFree, lease_eq, decide_eq_true_eq] at free
    exact absurd free (not_le.mpr hlt)

/-- The worker that claimed the node crashes: an hour later the node is due, its lease is
over, and no queue selects it. -/
theorem crashed_worker_locks_node :
    ¬ ∀ (steps : List (StoreStep ℚ)) (now : Time),
      ∀ row ∈ (ObservedRuns.run Store.perform Store.empty steps).nodes,
        row.structurallyValid = true → row.lifecycleState ≠ .invalid →
        row.lifecycleState ≠ .retired → row.due now = true → row.leaseFree now = true →
        ∃ state ∈ queueStates, row.eligible state now = true := by
  intro h
  have hall := h [.write (.ingestOne 0 sampleProxy "node" 1), .claimDue 1 (sampleTick 0)] (hours 1)
  have hlocked : ((ObservedRuns.run Store.perform Store.empty
      [.write (.ingestOne 0 sampleProxy "node" 1), .claimDue 1 (sampleTick 0)]).nodes.any fun row =>
        row.structurallyValid && decide (row.lifecycleState = .testing) && row.due (hours 1) &&
          row.leaseFree (hours 1) && !queueStates.any fun state => row.eligible state (hours 1)) =
      true := by decide +kernel
  obtain ⟨row, hr, hrow⟩ := List.any_eq_true.mp hlocked
  simp only [Bool.and_eq_true, decide_eq_true_eq, Bool.not_eq_true', List.any_eq_false] at hrow
  obtain ⟨⟨⟨⟨valid, testing⟩, due⟩, free⟩, none⟩ := hrow
  obtain ⟨state, hstate, he⟩ := hall row hr valid (by simp [testing]) (by simp [testing]) due free
  exact none state hstate he

/-- The same node is eligible again once the worker released it. -/
theorem due_nodes_eligible_released :
    ∃ row ∈ (ObservedRuns.run Store.perform Store.empty [.write (.ingestOne 0 sampleProxy "node" 1),
        .claimDue 1 (sampleTick 0), .write (.releaseTestLease "node")]).nodes,
      ∃ state ∈ queueStates, row.eligible state (hours 1) = true := by
  have hdue : ((ObservedRuns.run Store.perform Store.empty
      [.write (.ingestOne 0 sampleProxy "node" 1), .claimDue 1 (sampleTick 0),
        .write (.releaseTestLease "node")]).nodes.any fun row =>
      row.structurallyValid && decide (row.lifecycleState = .candidate) && row.due (hours 1) &&
        row.leaseFree (hours 1)) = true := by decide +kernel
  have hnone : unansweredJobs [.write (.ingestOne 0 sampleProxy "node" 1),
      .claimDue 1 (sampleTick 0), .write (.releaseTestLease "node")] = [] := by decide +kernel
  obtain ⟨row, hr, hrow⟩ := List.any_eq_true.mp hdue
  simp only [Bool.and_eq_true, decide_eq_true_eq] at hrow
  obtain ⟨⟨⟨valid, candidate⟩, due⟩, free⟩ := hrow
  have horderly : ObservedRuns.Admitted Store.perform StoreStep.Orderly (Store.empty : Store ℚ)
      [.write (.ingestOne 0 sampleProxy "node" 1), .claimDue 1 (sampleTick 0),
        .write (.releaseTestLease "node")] := ⟨trivial, trivial, trivial, trivial⟩
  exact ⟨row, hr, due_nodes_eligible horderly (by simp [hnone]) row hr valid (by simp [candidate])
    (by simp [candidate]) due free⟩

end ProxyFleet
