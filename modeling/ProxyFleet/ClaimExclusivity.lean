import ProxyFleet.ClaimScheduling

/-!
# Claims of concurrent workers

Any number of workers interleave their database steps: the selection of a queue,
the update that claims one selected row, and the writes of a report. A hold starts
with a claim and ends with the worker's release or port wait. The lease column
guards a hold until an event of the report clears it.
-/
namespace ProxyFleet

variable {F : Type}

/-- A claim that its worker has not given back. -/
structure Hold where
  worker : ℕ
  node : String
  leaseUntil : Time
  /-- A later write has cleared the lease column that the claim set. -/
  cleared : Bool := false

/-- A selected row whose own update is still to come. -/
structure PendingClaim where
  worker : ℕ
  now : Time
  leaseUntil : Time
  node : String

structure ClaimWorld (F : Type) where
  store : Store F
  clock : Time
  pending : List PendingClaim := []
  holds : List Hold := []

/-- The database steps of workers. A worker is one call of the scheduler with its report. -/
inductive WorkerAction (F : Type) where
  | select (worker : ℕ) (tick : ClaimTick F) (state : LifecycleState) (limit : ℕ)
  | claimNext (worker : ℕ)
  | applyTestEvent (worker : ℕ) (event : TestEventInput F) (cadence : Cadence) (draw : ℕ)
  | releaseTestLease (worker : ℕ) (node : String)
  | markWaitingForPort (worker : ℕ) (node : String) (retryAfter : Time)

namespace Hold

def isOf (h : Hold) (worker : ℕ) (node : String) : Bool := h.worker = worker && h.node = node

/-- The lease time of the claim has not passed. -/
def live (h : Hold) (node : String) (now : Time) : Bool :=
  h.node = node && decide (now < h.leaseUntil)

/-- The note that a write has cleared the lease of a node. -/
def wiped (node : String) (hit : Bool) (h : Hold) : Hold :=
  { h with cleared := h.cleared || hit && decide (h.node = node) }

end Hold

namespace ClaimWorld

variable [F64 F]

/-- The effect of one database step at the time of the clock. -/
def act (w : ClaimWorld F) : WorkerAction F → ClaimWorld F
  | .select worker tick state limit =>
      { w with pending := w.pending ++ (w.store.selectClaims tick state limit).map fun row =>
          ⟨worker, tick.now, tick.now + tick.lease, row.id⟩ }
  | .claimNext worker =>
      match w.pending.find? fun claim => claim.worker = worker with
      | none => w
      | some claim =>
        { w with
          store := w.store.claimRow claim.now claim.leaseUntil claim.node
          pending := w.pending.eraseP fun claim => claim.worker = worker
          holds := if w.store.claimMatches claim.now claim.node then
              w.holds ++ [⟨worker, claim.node, claim.leaseUntil, false⟩]
            else w.holds }
  | .applyTestEvent _ event cadence draw =>
      { w with
        store := w.store.write (.applyTestEvent w.clock event cadence draw)
        holds := w.holds.map (Hold.wiped event.proxyId (w.store.accepts event)) }
  | .releaseTestLease worker node =>
      let testing := w.store.nodes.any fun row => row.id = node && row.lifecycleState = .testing
      { w with
        store := w.store.releaseTestLease node
        holds := (w.holds.filter fun h => !h.isOf worker node).map (Hold.wiped node testing) }
  | .markWaitingForPort worker node retryAfter =>
      let valid := w.store.nodes.any fun row => row.id = node && row.structurallyValid
      { w with
        store := w.store.markWaitingForPort w.clock node retryAfter
        holds := (w.holds.filter fun h => !h.isOf worker node).map (Hold.wiped node valid) }

/-- One timed step. -/
def step (w : ClaimWorld F) (timed : Time × WorkerAction F) : ClaimWorld F :=
  { w with clock := timed.1 }.act timed.2

omit [F64 F] in
/-- The clock does not go back, a selection uses a time that was read before, and workers
report only on nodes that they claimed. -/
def Legal (w : ClaimWorld F) (timed : Time × WorkerAction F) : Prop :=
  w.clock ≤ timed.1 ∧
    match timed.2 with
    | .select _ tick _ _ => tick.now ≤ timed.1
    | .claimNext _ => True
    | .applyTestEvent worker event _ _ => (w.holds.any (·.isOf worker event.proxyId)) = true
    | .releaseTestLease worker node => (w.holds.any (·.isOf worker node)) = true
    | .markWaitingForPort worker node _ => (w.holds.any (·.isOf worker node)) = true

omit [F64 F] in
instance (w : ClaimWorld F) (timed : Time × WorkerAction F) : Decidable (w.Legal timed) := by
  obtain ⟨now, action⟩ := timed
  cases action <;> unfold Legal <;> infer_instance

omit [F64 F] in
/-- No claim update reaches a node whose live holder has lost its lease column: to an event
of its own report, or to an event, release or port wait of another worker. -/
def Undisturbed (w : ClaimWorld F) (timed : Time × WorkerAction F) : Prop :=
  match timed.2 with
  | .claimNext worker => ∀ claim,
      (w.pending.find? fun claim => claim.worker = worker) = some claim →
      ∀ h ∈ w.holds, h.live claim.node timed.1 = true → h.cleared = false
  | _ => True

omit [F64 F] in
/-- No node is in two live batches. -/
def Exclusive (w : ClaimWorld F) : Prop :=
  ∀ node, (w.holds.filter fun h => h.live node w.clock).length ≤ 1

omit [F64 F] in
/-- The lease column of a node guards every live hold until a write clears it. -/
structure Guarded (w : ClaimWorld F) : Prop where
  keyed : w.store.WellKeyed
  past : ∀ claim ∈ w.pending, claim.now ≤ w.clock
  exclusive : w.Exclusive
  leases : ∀ h ∈ w.holds, w.clock < h.leaseUntil → h.cleared = false →
    ∀ row ∈ w.store.nodes, row.id = h.node → row.testLeaseUntil = some h.leaseUntil

section Invariant

variable {w : ClaimWorld F}

omit [F64 F] in
theorem Guarded.advance (h : w.Guarded) {now : Time} (hle : w.clock ≤ now) :
    { w with clock := now : ClaimWorld F }.Guarded := by
  refine ⟨h.keyed, fun claim hc => (h.past claim hc).trans hle, fun node => ?_, ?_⟩
  · refine le_trans (List.Sublist.length_le ?_) (h.exclusive node)
    refine List.monotone_filter_right _ fun hold hl => ?_
    simp only [Hold.live, Bool.and_eq_true, decide_eq_true_eq] at hl ⊢
    exact ⟨hl.1, lt_of_le_of_lt hle hl.2⟩
  · exact fun hold hh hlt => h.leases hold hh (lt_of_le_of_lt hle hlt)

omit [F64 F] in
/-- A live hold with its lease column keeps every claim away from its node. -/
theorem Guarded.no_claim (h : w.Guarded) {claim : PendingClaim} (hc : claim ∈ w.pending)
    (quiet : ∀ hold ∈ w.holds, hold.live claim.node w.clock = true → hold.cleared = false)
    (matched : w.store.claimMatches claim.now claim.node = true) :
    ∀ hold ∈ w.holds, hold.live claim.node w.clock = false := by
  intro hold hh
  obtain ⟨row, hr, hrow⟩ := List.any_eq_true.mp matched
  simp only [Bool.and_eq_true, decide_eq_true_eq] at hrow
  by_contra hlive
  have hlive : hold.live claim.node w.clock = true := by simpa using hlive
  have hnot := quiet hold hh hlive
  simp only [Hold.live, Bool.and_eq_true, decide_eq_true_eq] at hlive
  have hlease := h.leases hold hh hlive.2 hnot row hr (hrow.1.trans hlive.1.symm)
  have hle : hold.leaseUntil ≤ claim.now := by simpa [Node.leaseFree, hlease] using hrow.2
  exact absurd (hle.trans (h.past claim hc)) (not_le.mpr hlive.2)

omit [F64 F] in
/-- A row after a claim update was claimed by it, or is an earlier row. -/
theorem mem_claimRow {s : Store F} {now leaseUntil : Time} {node : String} {row' : Node F}
    (h : row' ∈ (s.claimRow now leaseUntil node).nodes) :
    (∃ row ∈ s.nodes, row.id = node ∧ row.leaseFree now = true ∧ row' = row.claimed leaseUntil) ∨
      row' ∈ s.nodes ∧ ¬ (row'.id = node ∧ row'.leaseFree now = true) := by
  obtain ⟨row, hr, ⟨hg, rfl⟩ | ⟨hg, rfl⟩⟩ := Store.mem_updateNodes.mp h
  · simp only [Bool.and_eq_true, decide_eq_true_eq] at hg
    exact .inl ⟨row, hr, hg.1, hg.2, rfl⟩
  · refine .inr ⟨hr, ?_⟩
    simpa using hg

theorem Guarded.claimNext (h : w.Guarded) (worker : ℕ)
    (quiet : w.Undisturbed (w.clock, .claimNext worker)) : (w.act (.claimNext worker)).Guarded := by
  simp only [act]
  cases hf : w.pending.find? (fun claim => claim.worker = worker) with
  | none => exact h
  | some claim =>
    have hc : claim ∈ w.pending := List.mem_of_find?_eq_some hf
    have hpast : ∀ c ∈ w.pending.eraseP (fun claim => claim.worker = worker), c.now ≤ w.clock :=
      fun c hm => h.past c (List.mem_of_mem_eraseP hm)
    have hkeyed : (w.store.claimRow claim.now claim.leaseUntil claim.node).WellKeyed :=
      h.keyed.updateNodes (fun _ => rfl) (fun _ => rfl)
    by_cases hm : w.store.claimMatches claim.now claim.node = true
    · have hnone := h.no_claim hc (quiet claim hf) hm
      simp only [if_pos hm]
      refine ⟨hkeyed, hpast, fun node => ?_, fun hold hh hlt hrep row' hr' hid => ?_⟩
      · rw [List.filter_append, List.length_append]
        by_cases hn : node = claim.node
        · have hnil : (w.holds.filter fun h => h.live node w.clock) = [] := by
            rw [List.filter_eq_nil_iff]
            intro hold hh
            rw [hn, hnone hold hh]
            exact Bool.false_ne_true
          rw [hnil]
          exact (Nat.zero_add _).le.trans (List.length_filter_le _ _)
        · have hnil : ([⟨worker, claim.node, claim.leaseUntil, false⟩] : List Hold).filter
              (fun h => h.live node w.clock) = [] := by
            simp [Hold.live, Ne.symm hn]
          rw [hnil]
          exact h.exclusive node
      · rw [List.mem_append, List.mem_singleton] at hh
        obtain ⟨row, hr, hown, hfree, rfl⟩ | ⟨hr, hnot⟩ := mem_claimRow hr'
        · obtain hh | rfl := hh
          · have hlive := hnone hold hh
            have hid : row.id = hold.node := hid
            simp only [Hold.live, hid.symm.trans hown, decide_true, Bool.true_and,
              decide_eq_false_iff_not] at hlive
            exact absurd hlt hlive
          · rfl
        · obtain hh | rfl := hh
          · exact h.leases hold hh hlt hrep row' hr hid
          · obtain ⟨row, hrow, hmatch⟩ := List.any_eq_true.mp hm
            simp only [Bool.and_eq_true, decide_eq_true_eq] at hmatch
            obtain rfl := RowUpdates.eq_of_key_eq h.keyed.ids hr hrow (hid.trans hmatch.1.symm)
            exact absurd hmatch hnot
    · simp only [if_neg hm]
      refine ⟨hkeyed, hpast, h.exclusive, fun hold hh hlt hrep row' hr' hid => ?_⟩
      obtain ⟨row, hr, hown, hfree, rfl⟩ | ⟨hr, -⟩ := mem_claimRow hr'
      · exact absurd (List.any_eq_true.mpr ⟨row, hr, by simp [hown, hfree]⟩) hm
      · exact h.leases hold hh hlt hrep row' hr hid

omit [F64 F] in
/-- A report step rewrites at most the row of one node, and then notes that its lease is
cleared. Holds may be given back. -/
theorem Guarded.report (h : w.Guarded) {node : String} {hit : Bool} {store : Store F}
    {holds : List Hold} (hkeyed : store.WellKeyed)
    (rows : ∀ row' ∈ store.nodes, row'.id = node ∧ hit = true ∨ row' ∈ w.store.nodes)
    (sub : holds.Sublist w.holds) :
    { w with store := store, holds := holds.map (Hold.wiped node hit) : ClaimWorld F }.Guarded := by
  refine ⟨hkeyed, h.past, fun n => ?_, fun hold hh hlt hclear row' hr' hid => ?_⟩
  · rw [List.filter_map, List.length_map]
    exact (sub.filter _).length_le.trans (h.exclusive n)
  · obtain ⟨old, hold_mem, rfl⟩ := List.mem_map.mp hh
    simp only [Hold.wiped, Bool.or_eq_false_iff] at hclear
    obtain ⟨hn, hhit⟩ | hr := rows row' hr'
    · have hid : row'.id = old.node := hid
      simp [hhit, ← hid, hn] at hclear
    · exact h.leases old (sub.subset hold_mem) hlt hclear.1 row' hr hid

omit [F64 F] in
/-- The rows after a guarded update of one node. -/
theorem rows_updateNodes {s : Store F} {node : String} {p : Node F → Bool} {f : Node F → Node F}
    (hf : ∀ row, (f row).id = row.id) {row' : Node F}
    (h : row' ∈ (s.updateNodes (fun row => row.id = node && p row) f).nodes) :
    row'.id = node ∧ (s.nodes.any fun row => row.id = node && p row) = true ∨ row' ∈ s.nodes := by
  obtain ⟨row, hr, ⟨hg, rfl⟩ | ⟨-, rfl⟩⟩ := Store.mem_updateNodes.mp h
  · simp only [Bool.and_eq_true, decide_eq_true_eq] at hg
    exact .inl ⟨(hf row).trans hg.1, List.any_eq_true.mpr ⟨row, hr, by simp [hg]⟩⟩
  · exact .inr hr

theorem Guarded.act (h : w.Guarded) (action : WorkerAction F)
    (selected : ∀ worker tick state limit, action = .select worker tick state limit →
      tick.now ≤ w.clock)
    (quiet : w.Undisturbed (w.clock, action)) : (w.act action).Guarded := by
  cases action with
  | select worker tick state limit =>
    refine ⟨h.keyed, fun claim hc => ?_, h.exclusive, h.leases⟩
    obtain hc | hc := List.mem_append.mp hc
    · exact h.past claim hc
    · obtain ⟨row, -, rfl⟩ := List.mem_map.mp hc
      exact selected worker tick state limit rfl
  | claimNext worker => exact h.claimNext worker quiet
  | applyTestEvent worker event cadence draw =>
    refine h.report (h.keyed.write _) (fun row' hr' => ?_) (List.Sublist.refl _)
    rw [Store.write_applyTestEvent] at hr'
    split at hr'
    · next hacc =>
      obtain ⟨row, hr, ⟨hg, rfl⟩ | ⟨-, rfl⟩⟩ := Store.mem_updateNodes.mp hr'
      · exact .inl ⟨of_decide_eq_true hg, hacc⟩
      · exact .inr hr
    · exact .inr hr'
  | releaseTestLease worker node =>
    exact h.report (h.keyed.write (.releaseTestLease node))
      (fun _ hr' => rows_updateNodes (f := Node.released) (fun _ => rfl) hr') List.filter_sublist
  | markWaitingForPort worker node retryAfter =>
    exact h.report (h.keyed.write (.markWaitingForPort w.clock node retryAfter))
      (fun _ hr' => rows_updateNodes (f := fun row => row.waiting w.clock retryAfter)
        (fun _ => rfl) hr') List.filter_sublist

theorem Guarded.step (h : w.Guarded) {timed : Time × WorkerAction F} (legal : w.Legal timed)
    (quiet : w.Undisturbed timed) : (w.step timed).Guarded := by
  obtain ⟨now, action⟩ := timed
  refine (h.advance legal.1).act action ?_ quiet
  rintro worker tick state limit rfl
  exact legal.2

end Invariant

/-- The world in which a run starts: nobody claims or holds anything. -/
def start (store : Store F) (clock : Time) : ClaimWorld F := { store := store, clock := clock }

omit [F64 F] in
theorem Guarded.start {store : Store F} (hk : store.WellKeyed) (clock : Time) :
    (start store clock).Guarded :=
  ⟨hk, by simp [ClaimWorld.start], fun _ => by simp [ClaimWorld.start], by simp [ClaimWorld.start]⟩

/-- In every run whose claim updates meet no live holder without its lease column, no node
is ever in two live batches. -/
theorem claims_exclusive (ws : List (Write F)) (clock : Time)
    (timed : List (Time × WorkerAction F))
    (admitted : ObservedRuns.Admitted step (fun w a => w.Legal a ∧ w.Undisturbed a)
      (start (Store.empty.writes ws) clock) timed) :
    (ObservedRuns.run step (start (Store.empty.writes ws) clock) timed).Exclusive :=
  (ObservedRuns.run_invariant (I := Guarded) (fun _ _ ha h => h.step ha.1 ha.2)
    (Guarded.start (Store.wellKeyed_empty.writes ws) clock) admitted).exclusive

omit [F64 F] in
/-- The next claim of a worker is the first one that it has left. -/
theorem find?_pending (other rest : List PendingClaim) (claim : PendingClaim)
    (h : ∀ c ∈ other, c.worker ≠ claim.worker) :
    (other ++ claim :: rest).find? (fun c => c.worker = claim.worker) = some claim ∧
      (other ++ claim :: rest).eraseP (fun c => c.worker = claim.worker) = other ++ rest := by
  have hnone : other.find? (fun c => decide (c.worker = claim.worker)) = none := by
    simpa using h
  refine ⟨by simp [List.find?_append, hnone], ?_⟩
  rw [List.eraseP_append_right _ (by simpa using h), List.eraseP_cons_of_pos (by simp)]

/-- Claiming the selected rows one by one is the loop of the scheduler, and the worker
holds the jobs that the loop returns. -/
theorem run_claimNext (worker : ℕ) (tick : ClaimTick F) (state : LifecycleState) (reason : String)
    (other : List PendingClaim) (hother : ∀ c ∈ other, c.worker ≠ worker) (rows : List (Node F))
    (w : ClaimWorld F) (hp : w.pending = other ++ rows.map fun row =>
      ⟨worker, tick.now, tick.now + tick.lease, row.id⟩) (jobs : List TestJob) :
    ∃ claimed : List TestJob,
      (rows.foldl (Store.claimSelected tick state reason) (w.store, jobs)).2 = jobs ++ claimed ∧
      ObservedRuns.run step w (List.replicate rows.length (w.clock, .claimNext worker)) =
        { w with
          store := (rows.foldl (Store.claimSelected tick state reason) (w.store, jobs)).1
          pending := other
          holds := w.holds ++ claimed.map fun job =>
            ⟨worker, job.id, tick.now + tick.lease, false⟩ } := by
  induction rows generalizing w jobs with
  | nil =>
    refine ⟨[], by simp, ?_⟩
    rw [List.map_nil, List.append_nil] at hp ⊢
    rw [← hp]
    rfl
  | cons row rows ih =>
    rw [List.map_cons] at hp
    obtain ⟨hfind, herase⟩ := find?_pending other
      (rows.map fun row => ⟨worker, tick.now, tick.now + tick.lease, row.id⟩)
      ⟨worker, tick.now, tick.now + tick.lease, row.id⟩ hother
    rw [← hp] at hfind herase
    have hstep : w.step (w.clock, .claimNext worker) = { w with
        store := w.store.claimRow tick.now (tick.now + tick.lease) row.id
        pending := other ++ rows.map fun row =>
          ⟨worker, tick.now, tick.now + tick.lease, row.id⟩
        holds := if w.store.claimMatches tick.now row.id then
            w.holds ++ [⟨worker, row.id, tick.now + tick.lease, false⟩]
          else w.holds } := by
      simp only [step, act, hfind, herase]
    obtain ⟨claimed, hjobs, hrun⟩ := ih (w.step (w.clock, .claimNext worker)) (by rw [hstep])
      (Store.claimSelected tick state reason (w.store, jobs) row).2
    rw [List.length_cons, List.replicate_succ, ObservedRuns.run_cons, List.foldl_cons]
    rw [hstep] at hjobs hrun ⊢
    by_cases hm : w.store.claimMatches tick.now row.id = true
    · refine ⟨row.job tick state reason :: claimed, ?_, ?_⟩
      · simpa [Store.claimSelected, hm] using hjobs
      · simpa [Store.claimSelected, hm, Node.job] using hrun
    · refine ⟨claimed, ?_, ?_⟩
      · simpa [Store.claimSelected, hm] using hjobs
      · simpa [Store.claimSelected, hm] using hrun

/-- The claims of one queue are a run of one worker's steps. -/
theorem run_appendClaims (worker : ℕ) (tick : ClaimTick F) (totalLimit queueLimit : ℕ)
    (state : LifecycleState) (reason : String) (w : ClaimWorld F)
    (hother : ∀ c ∈ w.pending, c.worker ≠ worker) (jobs : List TestJob) :
    ∃ (actions : List (WorkerAction F)) (claimed : List TestJob),
      (Store.appendClaims tick totalLimit (w.store, jobs) state queueLimit reason).2 =
        jobs ++ claimed ∧
      ObservedRuns.run step w (actions.map fun action => (w.clock, action)) =
        { w with
          store :=
            (Store.appendClaims tick totalLimit (w.store, jobs) state queueLimit reason).1
          holds := w.holds ++ claimed.map fun job =>
            ⟨worker, job.id, tick.now + tick.lease, false⟩ } := by
  unfold Store.appendClaims
  split
  · exact ⟨[], [], by simp, by simp⟩
  · dsimp only
    generalize hlimit : min queueLimit (totalLimit - jobs.length) = limit
    obtain ⟨claimed, hjobs, hrun⟩ := run_claimNext worker tick state reason w.pending hother
      (w.store.selectClaims tick state limit) (w.act (.select worker tick state limit)) rfl jobs
    refine ⟨.select worker tick state limit ::
      List.replicate (w.store.selectClaims tick state limit).length (.claimNext worker),
      claimed, hjobs, ?_⟩
    rw [List.map_cons, List.map_replicate, ObservedRuns.run_cons]
    exact hrun

/-- The first event of the first worker's report lets the second worker claim the node. -/
def doubleClaim : List (Time × WorkerAction ℚ) := [
  (0, .select 0 (sampleTick 0) .candidate 1),
  (0, .claimNext 0),
  (10 ^ 6, .applyTestEvent 0 (sampleEvent "run" .dnsTcp .tcpTimeout) defaultCadence 0),
  (10 ^ 6, .select 1 (sampleTick (10 ^ 6)) .candidate 1),
  (10 ^ 6, .claimNext 1)]

theorem not_always_exclusive :
    ¬ ∀ (ws : List (Write ℚ)) (clock : Time) (timed : List (Time × WorkerAction ℚ)),
      ObservedRuns.Admitted step Legal (start (Store.empty.writes ws) clock) timed →
        (ObservedRuns.run step (start (Store.empty.writes ws) clock) timed).Exclusive := by
  intro h
  have hboth := h [.ingestOne 0 sampleProxy "node" 1] 0 doubleClaim (by decide +kernel) "node"
  exact absurd hboth (by decide +kernel)

omit [F64 F] in
theorem undisturbed_of_no_holds {w : ClaimWorld F} (h : w.holds.isEmpty = true)
    (timed : Time × WorkerAction F) : w.Undisturbed timed := by
  obtain ⟨now, action⟩ := timed
  cases action with
  | claimNext worker =>
    intro claim _ hold hh
    rw [List.isEmpty_iff.mp h] at hh
    cases hh
  | _ => trivial

/-- A report that is finished before the next claim. -/
theorem claims_exclusive_released :
    (ObservedRuns.run step (start (Store.empty.writes [.ingestOne 0 sampleProxy "node" 1]) 0)
      [(0, .select 0 (sampleTick 0) .candidate 1), (0, .claimNext 0),
        (10 ^ 6, .applyTestEvent 0 (sampleEvent "run" .dnsTcp .tcpTimeout) defaultCadence 0),
        (10 ^ 6, .releaseTestLease 0 "node"),
        (hours 1, .select 1 (sampleTick (hours 1)) .candidate 1),
        (hours 1, .claimNext 1)]).Exclusive := by
  exact claims_exclusive _ _ _ ⟨⟨by decide +kernel, trivial⟩,
    ⟨by decide +kernel, undisturbed_of_no_holds (by decide +kernel) _⟩,
    ⟨by decide +kernel, trivial⟩, ⟨by decide +kernel, trivial⟩, ⟨by decide +kernel, trivial⟩,
    ⟨by decide +kernel, undisturbed_of_no_holds (by decide +kernel) _⟩, trivial⟩

end ClaimWorld

end ProxyFleet
