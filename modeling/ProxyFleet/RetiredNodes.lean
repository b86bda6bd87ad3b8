import ProxyFleet.ClaimExclusivity

/-!
# Retired nodes and work in flight

A test outlasts a refresh, so its claim, its events and its release may all arrive
after the node was retired. Every statement but two looks at the lifecycle first. The
update of a claim checks the lease alone, and a port wait checks nothing but validity.
-/
namespace ProxyFleet

variable {F : Type}

/-- The service with the claims whose rows were selected and not yet updated. -/
structure FlightWorld (F : Type) where
  store : Store F
  pending : List PendingClaim := []

/-- A database step: a selection, the update of the next selected row, or another write. -/
inductive FlightAction (F : Type) where
  | select (worker : ℕ) (tick : ClaimTick F) (state : LifecycleState) (limit : ℕ)
  | claimNext (worker : ℕ)
  | write (w : Write F)

namespace FlightAction

/-- The step neither ingests the node again nor finds its configuration invalid. Claims are
made by workers only. -/
def Leaves (id hash : String) : FlightAction F → Prop
  | .write (.ingestOne _ proxy newId _) => proxy.configHash ≠ hash ∧ newId ≠ id
  | .write (.applyTestEvent _ event _ _) =>
      event.proxyId = id → event.failureClass ≠ .invalidConfig
  | .write (.claimRow _ _ _) => False
  | _ => True

end FlightAction

namespace FlightWorld

/-- The service on an empty database. -/
def start : FlightWorld F := { store := Store.empty }

variable [F64 F]

def step (w : FlightWorld F) : FlightAction F → FlightWorld F
  | .select worker tick state limit =>
      { w with pending := w.pending ++ (w.store.selectClaims tick state limit).map fun row =>
          ⟨worker, tick.now, tick.now + tick.lease, row.id⟩ }
  | .claimNext worker =>
      match w.pending.find? fun claim => claim.worker = worker with
      | none => w
      | some claim =>
        { store := w.store.claimRow claim.now claim.leaseUntil claim.node
          pending := w.pending.eraseP fun claim => claim.worker = worker }
  | .write write => { w with store := w.store.write write }

omit [F64 F] in
/-- The update of a claim or a port wait reaches a row of the node. -/
def Overwrites (id : String) (w : FlightWorld F) : FlightAction F → Prop
  | .claimNext worker => ∃ claim,
      (w.pending.find? fun claim => claim.worker = worker) = some claim ∧ claim.node = id ∧
        ∃ row ∈ w.store.nodes, row.id = id ∧ row.leaseFree claim.now = true
  | .write (.markWaitingForPort _ node _) =>
      node = id ∧ ∃ row ∈ w.store.nodes, row.id = id ∧ row.structurallyValid = true
  | _ => False

omit [F64 F] in
/-- The node is `RETIRED`, or its row was deleted. -/
def Retired (id : String) (w : FlightWorld F) : Prop :=
  ∀ row ∈ w.store.nodes, row.id = id → row.lifecycleState = .retired

omit [F64 F] in
structure Identified (id hash : String) (w : FlightWorld F) : Prop where
  keyed : w.store.WellKeyed
  hash : ∀ row ∈ w.store.nodes, row.id = id → row.configHash = hash

/-- Every step but a selection is a write, or does nothing. -/
theorem step_store (w : FlightWorld F) (a : FlightAction F) :
    (w.step a).store = w.store ∨
      (∃ write, a = .write write ∧ (w.step a).store = w.store.write write) ∨
      ∃ worker claim, a = .claimNext worker ∧
        (w.pending.find? fun claim => claim.worker = worker) = some claim ∧
        (w.step a).store = w.store.write (.claimRow claim.now claim.leaseUntil claim.node) := by
  cases a with
  | select worker tick state limit => exact .inl rfl
  | write write => exact .inr (.inl ⟨write, rfl, rfl⟩)
  | claimNext worker =>
    cases hfind : w.pending.find? fun claim => claim.worker = worker with
    | none => exact .inl (by simp [step, hfind])
    | some claim =>
      exact .inr (.inr ⟨worker, claim, rfl, hfind, by simp [step, hfind, Store.write]⟩)

end FlightWorld

/-- How a row can leave `RETIRED`. -/
theorem RowStep.retired_or [F64 F] {s : Store F} {w : Write F} {row row' : Node F}
    (h : RowStep s w row row') (retired : row.lifecycleState = .retired) :
    row'.lifecycleState = .retired ∨
      (∃ now leaseUntil, w = .claimRow now leaseUntil row.id ∧ row.leaseFree now = true) ∨
      (∃ now retryAfter, w = .markWaitingForPort now row.id retryAfter ∧
        row.structurallyValid = true) ∨
      (∃ now proxy newId generation, w = .ingestOne now proxy newId generation ∧
        row.configHash = proxy.configHash) ∨
      ∃ now event cadence draw, w = .applyTestEvent now event cadence draw ∧
        row.id = event.proxyId ∧ event.failureClass = .invalidConfig := by
  cases h with
  | kept | port | metadata | missed | seenAgain | scheduled | seeded => exact .inl retired
  | missedRetired | retired => exact .inl rfl
  | @reingested now proxy newId generation _ hash =>
    exact .inr (.inr (.inr (.inl ⟨now, proxy, newId, generation, rfl, hash⟩)))
  | @claimed now leaseUntil id _ own free =>
    exact .inr (.inl ⟨now, leaseUntil, by rw [own], free⟩)
  | @waiting now id retryAfter _ own valid =>
    exact .inr (.inr (.inl ⟨now, retryAfter, by rw [own], valid⟩))
  | @applied now event cadence draw _ own fresh =>
    by_cases hclass : event.failureClass = .invalidConfig
    · exact .inr (.inr (.inr (.inr ⟨now, event, cadence, draw, rfl, own, hclass⟩)))
    · have hprior : (row.healthInput (s.scored now event) event cadence now).priorLifecycle =
          .retired := by
        show row.seenLifecycle = .retired
        simp [Node.seenLifecycle, retired]
      have hdecided : (row.healthInput (s.scored now event) event cadence now).decidedLifecycle =
          .retired := by
        unfold HealthInput.decidedLifecycle
        rw [if_neg, if_pos hprior]
        rintro (hc | hi)
        · exact hclass hc
        · rw [hprior] at hi
          cases hi
      exact .inl hdecided
  | released _ own testing => simp [retired] at testing
  | dormantRevived _ dormant valid => simp [retired] at dormant
  | revived _ own revivable => simp [Node.revivable, retired] at revivable

namespace FlightWorld

variable [F64 F] {id hash : String} {w : FlightWorld F} {a : FlightAction F}

/-- What the node's row was before a step. -/
theorem row_of_step (hw : w.Identified id hash) (leaves : a.Leaves id hash) {row' : Node F}
    (hr' : row' ∈ (w.step a).store.nodes) (hid : row'.id = id) :
    ∃ row ∈ w.store.nodes, row.id = id ∧ (row' = row ∨
      ∃ write, (w.step a).store = w.store.write write ∧ RowStep w.store write row row' ∧
        (a = .write write ∨ ∃ worker claim, a = .claimNext worker ∧
          (w.pending.find? fun claim => claim.worker = worker) = some claim ∧
          write = .claimRow claim.now claim.leaseUntil claim.node)) := by
  obtain hsame | ⟨write, rfl, hstore⟩ | ⟨worker, claim, rfl, hfind, hstore⟩ := w.step_store a
  · rw [hsame] at hr'
    exact ⟨row', hr', hid, .inl rfl⟩
  · rw [hstore] at hr'
    obtain ⟨hnew, -⟩ | ⟨row, hr, hstep⟩ := row_of_write hw.keyed hr'
    · exact absurd hid leaves.2
    · exact ⟨row, hr, hstep.id_eq.symm.trans hid, .inr ⟨write, hstore, hstep, .inl rfl⟩⟩
  · rw [hstore] at hr'
    obtain hnew | ⟨row, hr, hstep⟩ := row_of_write hw.keyed hr'
    · cases hnew
    · exact ⟨row, hr, hstep.id_eq.symm.trans hid,
        .inr ⟨_, hstore, hstep, .inr ⟨worker, claim, rfl, hfind, rfl⟩⟩⟩

theorem Identified.step (hw : w.Identified id hash) (leaves : a.Leaves id hash) :
    (w.step a).Identified id hash := by
  constructor
  · obtain hsame | ⟨write, -, hstore⟩ | ⟨worker, claim, -, -, hstore⟩ := w.step_store a
    · rw [hsame]
      exact hw.keyed
    · rw [hstore]
      exact hw.keyed.write _
    · rw [hstore]
      exact hw.keyed.write _
  · intro row' hr' hid
    obtain ⟨row, hr, hrid, rfl | ⟨write, -, hstep, -⟩⟩ := row_of_step hw leaves hr' hid
    · exact hw.hash row' hr hid
    · exact hstep.configHash_eq.trans (hw.hash row hr hrid)

theorem retired_step_iff (hw : w.Identified id hash) (leaves : a.Leaves id hash)
    (retired : w.Retired id) : (w.step a).Retired id ↔ ¬ w.Overwrites id a := by
  constructor
  · intro hstays hover
    cases a with
    | select => exact hover
    | claimNext worker =>
      obtain ⟨claim, hfind, rfl, row, hr, hid, hfree⟩ := hover
      have hmem : row.claimed claim.leaseUntil ∈ (w.step (.claimNext worker)).store.nodes := by
        simp only [step, hfind]
        exact Store.mem_updateNodes.mpr ⟨row, hr, .inl ⟨by simp [hid, hfree], rfl⟩⟩
      exact absurd (hstays _ hmem hid) (by simp [Node.claimed])
    | write write =>
      cases write with
      | markWaitingForPort now node retryAfter =>
        obtain ⟨rfl, row, hr, hid, hvalid⟩ := hover
        have hmem : row.waiting now retryAfter ∈
            (w.step (.write (.markWaitingForPort now node retryAfter))).store.nodes :=
          Store.mem_updateNodes.mpr ⟨row, hr, .inl ⟨by simp [hid, hvalid], rfl⟩⟩
        exact absurd (hstays _ hmem hid) (by simp [Node.waiting])
      | _ => exact hover
  · intro hover row' hr' hid
    obtain ⟨row, hr, hrid, rfl | ⟨write, -, hstep, horigin⟩⟩ := row_of_step hw leaves hr' hid
    · exact retired row' hr hid
    · obtain hkept | ⟨now, leaseUntil, rfl, hfree⟩ | ⟨now, retryAfter, rfl, hvalid⟩ |
        ⟨now, proxy, newId, generation, rfl, hsame⟩ |
        ⟨now, event, cadence, draw, rfl, hown, hclass⟩ :=
        hstep.retired_or (retired row hr hrid)
      · exact hkept
      · obtain rfl | ⟨worker, claim, rfl, hfind, hwrite⟩ := horigin
        · exact leaves.elim
        · obtain ⟨rfl, rfl, hnode⟩ := Write.claimRow.inj hwrite
          exact absurd ⟨claim, hfind, hnode.symm.trans hrid, row, hr, hrid, hfree⟩ hover
      · obtain rfl | ⟨worker, claim, -, -, hwrite⟩ := horigin
        · exact absurd ⟨hrid, row, hr, hrid, hvalid⟩ hover
        · cases hwrite
      · obtain rfl | ⟨worker, claim, -, -, hwrite⟩ := horigin
        · exact absurd (hsame.symm.trans (hw.hash row hr hrid)) leaves.1
        · cases hwrite
      · obtain rfl | ⟨worker, claim, -, -, hwrite⟩ := horigin
        · exact absurd hclass (leaves (hown.symm.trans hrid))
        · cases hwrite

/-- A retired node stays `RETIRED` through a run exactly if no claim update and no port wait
reaches it. -/
theorem retired_stays_iff (keyed : w.store.WellKeyed) {row : Node F} (hr : row ∈ w.store.nodes)
    (retired : row.lifecycleState = .retired) {actions : List (FlightAction F)}
    (leaves : ∀ a ∈ actions, a.Leaves row.id row.configHash) :
    ObservedRuns.Throughout step (Retired row.id) w actions ↔
      ObservedRuns.Admitted step (fun w a => ¬ w.Overwrites row.id a) w actions := by
  have hrow : ∀ other ∈ w.store.nodes, other.id = row.id → other = row :=
    fun other ho hid => RowUpdates.eq_of_key_eq keyed.ids ho hr hid
  have hidentified : w.Identified row.id row.configHash :=
    ⟨keyed, fun other ho hid => by rw [hrow other ho hid]⟩
  have hretired : w.Retired row.id := fun other ho hid => by rw [hrow other ho hid, retired]
  apply ObservedRuns.throughout_iff (S := fun _ a => a.Leaves row.id row.configHash)
    (J := Identified row.id row.configHash)
  · intro w a ha hw
    exact hw.step ha
  · intro w a ha hw hI
    exact retired_step_iff hw ha hI
  · exact hidentified
  · exact hretired
  · exact ObservedRuns.admitted_of_forall (fun a ha _ => leaves a ha) w

/-- A complete refresh whose only source no longer contains the node. -/
def emptyRefresh (now : Time) (runId : String) (generation : ℤ) : List (FlightAction ℚ) := [
  .write (.beginRefresh now runId 1),
  .write (.recordFinishedRun now runId .complete 1 0),
  .write (.reconcile now generation 3)]

/-- The node is selected for a test just before the refresh that retires it. -/
def retiredAfterSelection : List (FlightAction ℚ) :=
  [.write (.beginRefresh 0 "first" 1), .write (.ingestOne 0 sampleProxy "node" 1),
    .write (.recordFinishedRun 0 "first" .complete 1 1), .write (.reconcile 0 1 3)] ++
  emptyRefresh (hours 13) "second" 2 ++ emptyRefresh (hours 14) "third" 3 ++
  [.select 0 (sampleTick (hours 15)) .candidate 1] ++ emptyRefresh (hours 15) "fourth" 4

/-- The update of that claim then takes it out of `RETIRED`. -/
theorem retired_not_sticky :
    ¬ ∀ (before later : List (FlightAction ℚ)) (row : Node ℚ),
      row ∈ (ObservedRuns.run step start before).store.nodes → row.lifecycleState = .retired →
        (∀ a ∈ later, a.Leaves row.id row.configHash) →
          ObservedRuns.Throughout step (Retired row.id)
            (ObservedRuns.run step start before) later := by
  intro h
  have hbefore : ((ObservedRuns.run step start retiredAfterSelection).store.findNode "node").map
      (·.lifecycleState) = some .retired := by decide +kernel
  have hafter : ((ObservedRuns.run step start (retiredAfterSelection ++
      [.claimNext 0])).store.findNode "node").map (·.lifecycleState) = some .testing := by
    decide +kernel
  obtain ⟨row, hfound, hretired⟩ := Option.map_eq_some_iff.mp hbefore
  obtain ⟨row', hfound', htesting⟩ := Option.map_eq_some_iff.mp hafter
  obtain ⟨hr, hid⟩ := Store.mem_of_findNode hfound
  obtain ⟨hr', hid'⟩ := Store.mem_of_findNode hfound'
  have hlast := (h retiredAfterSelection [.claimNext 0] row hr hretired
    (by simp [FlightAction.Leaves])).last
  rw [← ObservedRuns.run_append] at hlast
  have hstays := hlast row' hr' (hid'.trans hid.symm)
  rw [htesting] at hstays
  cases hstays

/-- A late event, a release and a manual test leave the node `RETIRED`. -/
theorem retired_stays_iff_lateEvent :
    ∃ row ∈ (ObservedRuns.run step start retiredAfterSelection).store.nodes,
      ObservedRuns.Throughout step (Retired row.id)
        (ObservedRuns.run step start retiredAfterSelection)
        [.write
            (.applyTestEvent (hours 15) (sampleEvent "late" .download .success) defaultCadence 0),
          .write (.releaseTestLease "node"), .write (.scheduleManualTest (hours 15) "node")] := by
  have hbefore : ((ObservedRuns.run step start retiredAfterSelection).store.findNode "node").map
      (·.lifecycleState) = some .retired := by decide +kernel
  obtain ⟨row, hfound, hretired⟩ := Option.map_eq_some_iff.mp hbefore
  have hr := (Store.mem_of_findNode hfound).1
  refine ⟨row, hr, (retired_stays_iff ⟨by decide +kernel, by decide +kernel⟩ hr hretired ?_).mpr ?_⟩
  · simp [FlightAction.Leaves, sampleEvent]
  · exact ⟨id, id, id, trivial⟩

end FlightWorld

end ProxyFleet
