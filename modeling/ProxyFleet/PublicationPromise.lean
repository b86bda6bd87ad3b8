import ProxyFleet.LifecycleOrigins

/-!
# The promise of a publication lease

A row that stands outside of quarantine and retirement is published until its lease runs out.
Claims, failed tests, waiting for ports, missed generations and new ingests do not take it back:
only an invalid configuration does, and a reconciliation once the lease is over.
-/
namespace ProxyFleet

/-- The states in which a row with a lease is published. -/
def LifecycleState.Standing (state : LifecycleState) : Prop :=
  state ≠ .invalid ∧ state ≠ .retired

theorem openStates_standing : OpenStates LifecycleState.Standing := fun _ hinvalid hretired =>
  ⟨hinvalid, hretired⟩

variable {F : Type}

/-- A row of a valid configuration, in no way out of the feed. -/
structure Node.Settled (row : Node F) : Prop where
  valid : row.structurallyValid = true
  within : row.Within LifecycleState.Standing

/-- A settled row with a lease of at least the given length. -/
structure Node.Standing (lease : Time) (row : Node F) : Prop extends row.Settled where
  leased : ∃ until', row.publicationLeaseUntil = some until' ∧ lease ≤ until'

/-- The write keeps the promise to a node: it applies no invalid configuration to it and does
not reconcile after the lease. -/
def Write.Respects (id : String) (lease : Time) : Write F → Prop
  | .applyTestEvent _ event _ _ => event.proxyId = id → event.failureClass ≠ .invalidConfig
  | .reconcile now _ _ => now < lease
  | _ => True

theorem Write.Respects.keepsValid {id : String} {lease : Time} {w : Write F}
    (h : w.Respects id lease) : w.KeepsValid id := by
  cases w with
  | applyTestEvent => exact h
  | _ => trivial

variable {lease : Time} {row : Node F}

/-- A decision keeps a lease or extends it. -/
theorem lease_decidedLease {i : HealthInput F} {until' : Time}
    (h : i.priorLeaseUntil = some until') :
    ∃ later, i.decidedLease = some later ∧ until' ≤ later := by
  rw [HealthInput.decidedLease, h]
  split
  · next current candidate hcurrent hcandidate =>
    obtain rfl := Option.some.inj hcurrent
    exact ⟨_, rfl, le_max_left _ _⟩
  · exact ⟨until', rfl, le_refl _⟩

section Standing

variable (h : row.Standing lease) {now : Time} (hnow : now < lease)

include h hnow

theorem Node.Standing.leaseExpired : row.leaseExpired now = false := by
  obtain ⟨until', huntil, hle⟩ := h.leased
  rw [Node.leaseExpired, huntil]
  exact decide_eq_false (not_le.mpr (lt_of_lt_of_le hnow hle))

theorem Node.Standing.publishable : row.publishable now = true := by
  simp [Node.publishable, h.valid, h.leaseExpired hnow, h.within.lifecycle.1,
    h.within.lifecycle.2]

/-- Retirement waits for the lease, also of a row that was just missed. -/
theorem Node.Standing.not_retirable {generation : ℤ} {minimum : ℕ} :
    ¬ (row.retirable now minimum = true ∨
      row.missedBy generation = true ∧ row.missed.retirable now minimum = true) := by
  have hrow : row.leaseExpired now = false := h.leaseExpired hnow
  have hmissed : row.missed.leaseExpired now = false := hrow
  simp [Node.retirable, hrow, hmissed]

end Standing

variable [F64 F]

/-- A valid configuration stays one without an event that says otherwise. -/
theorem structurallyValid_of_step {s : Store F} {w : Write F} {row' : Node F}
    (h : row.structurallyValid = true) (hw : w.KeepsValid row.id) (hstep : RowStep s w row row') :
    row'.structurallyValid = true := by
  cases hstep with
  | applied _ own => exact (if_neg (hw own.symm)).trans h
  | _ => exact h

/-- Only an event or the seed of legacy leases changes a lease, and both leave a longer one. -/
theorem leased_of_step {s : Store F} {w : Write F} {row' : Node F}
    (h : ∃ until', row.publicationLeaseUntil = some until' ∧ lease ≤ until')
    (hstep : RowStep s w row row') :
    ∃ until', row'.publicationLeaseUntil = some until' ∧ lease ≤ until' := by
  obtain ⟨until', huntil, hle⟩ := h
  cases hstep with
  | @applied now event cadence draw =>
    obtain ⟨later, hlater, hgrown⟩ :=
      lease_decidedLease (i := row.healthInput (s.scored now event) event cadence now) huntil
    exact ⟨later, hlater, hle.trans hgrown⟩
  | seeded _ seedable => simp [Node.legacySeedable, huntil] at seedable
  | _ => exact ⟨until', huntil, hle⟩

/-- A step of a respectful write keeps a row standing. -/
theorem Node.Standing.step (h : row.Standing lease) {s : Store F} {w : Write F} {row' : Node F}
    (hw : w.Respects row.id lease) (hstep : RowStep s w row row') : row'.Standing lease := by
  refine ⟨⟨structurallyValid_of_step h.valid hw.keepsValid hstep, ?_⟩,
    leased_of_step h.leased hstep⟩
  obtain hwithin | ⟨now, generation, minimum, rfl, hout⟩ :=
    h.within.step openStates_standing (.inr hw.keepsValid) hstep
  · exact hwithin
  · exact absurd hout (h.not_retirable hw)

/-- Whatever the service writes, a standing row stays in the public feed until its lease is
over. -/
theorem published_of_standing {s : Store F} (keyed : s.WellKeyed) (hr : row ∈ s.nodes)
    (h : row.Standing lease) {ws : List (Write F)} (hws : ∀ w ∈ ws, w.Respects row.id lease)
    {now : Time} (hnow : now < lease) :
    ∃ row' ∈ (s.writes ws).publishedNodes now,
      row'.id = row.id ∧ row'.configHash = row.configHash := by
  have hspares : ∀ (w : Write F) (other : Node F), w.Respects row.id lease →
      (other.id = row.id ∧ other.Standing lease) → w.Spares other := by
    rintro w other - ⟨-, hother⟩
    cases w with
    | cleanupRetired now => simp [Write.Spares, Node.expiredTombstone, hother.within.lifecycle.2]
    | _ => trivial
  obtain ⟨row', hr', hid, hhash, -, hstanding⟩ := row_survives hspares
    (fun s w other row' hw hother hstep =>
      ⟨hstep.id_eq.trans hother.1, hother.2.step (hother.1 ▸ hw) hstep⟩) keyed hr ⟨rfl, h⟩ hws
  refine ⟨row', ?_, hid, hhash⟩
  rw [Store.publishedNodes, List.mem_insertionSort, List.mem_filter]
  exact ⟨hr', hstanding.publishable hnow⟩

/-- A success leaves a lease of at least the window of its stage. -/
theorem standing_of_success (h : row.Settled) {event : TestEventInput F}
    (success : event.failureClass = .success) (totals : F × F) (cadence : Cadence) (now : Time)
    (draw : ℕ) : (row.applyEvent totals event cadence now draw).Standing
      (leaseUntil event.stage event.fastDownload now) := by
  have hclass : event.failureClass ≠ .invalidConfig := by
    rw [success]
    decide
  have hsucceeded : (row.healthInput totals event cadence now).succeeded = true := by
    simp [HealthInput.succeeded, Node.healthInput, success]
  have hlease : (row.applyEvent totals event cadence now draw).publicationLeaseUntil =
      (row.healthInput totals event cadence now).decidedLease := rfl
  refine ⟨⟨(if_neg hclass).trans h.valid,
    h.within.applied openStates_standing (fun hinvalid => absurd hinvalid hclass) totals cadence
      now draw⟩, ?_⟩
  rw [hlease, HealthInput.decidedLease, if_pos hsucceeded]
  split
  · next current candidate hcurrent hcandidate =>
    obtain rfl := Option.some.inj hcandidate
    exact ⟨_, rfl, le_max_right _ _⟩
  · next hnone =>
    cases hprior : (row.healthInput totals event cadence now).priorLeaseUntil with
    | none => exact ⟨_, rfl, le_refl _⟩
    | some current => exact absurd rfl (hnone current _ hprior)

/-- The promise of a success: for the whole window of its stage the node is in the public feed,
whatever the service writes meanwhile. -/
theorem publication_promise {s : Store F} (keyed : s.WellKeyed) (hr : row ∈ s.nodes)
    (settled : row.Settled) {event : TestEventInput F} (own : row.id = event.proxyId)
    (success : event.failureClass = .success) (fresh : s.accepts event = true) (tested : Time)
    (cadence : Cadence) (draw : ℕ) {ws : List (Write F)}
    (hws : ∀ w ∈ ws, w.Respects row.id (leaseUntil event.stage event.fastDownload tested))
    {now : Time} (hnow : now < leaseUntil event.stage event.fastDownload tested) :
    ∃ row' ∈ ((s.write (.applyTestEvent tested event cadence draw)).writes ws).publishedNodes now,
      row'.id = row.id ∧ row'.configHash = row.configHash := by
  have hmem : row.applyEvent (s.scored tested event) event cadence tested draw ∈
      (s.write (.applyTestEvent tested event cadence draw)).nodes := by
    rw [Store.write_applyTestEvent, if_pos fresh]
    exact Store.mem_updateNodes.mpr ⟨row, hr, .inl ⟨decide_eq_true own, rfl⟩⟩
  exact published_of_standing (keyed.write _) hmem
    (standing_of_success settled success _ cadence tested draw) hws hnow

/-- A claim, a failure, a port wait, a reconciliation and a cleanup before the end of the window
of a download. -/
def busyHours : List (Write ℚ) := [
  .claimRow (hours 1) (hours 2) "node",
  .applyTestEvent (hours 1) (sampleEvent "second" .relay .tlsTimeout) defaultCadence 0,
  .markWaitingForPort (hours 2) "node" 1, .reconcile (hours 5) 9 0, .cleanupRetired (hours 5)]

theorem publication_promise_busyHours :
    ∃ row ∈ (((Store.empty.writes [.ingestOne 0 sampleProxy "node" 1]).write
        (.applyTestEvent 0 (sampleEvent "first" .download .success) defaultCadence 0)).writes
        busyHours).publishedNodes (hours 5), row.id = "node" := by
  have hr : Node.ingested 0 sampleProxy "node" 1 ∈
      (Store.empty.writes [.ingestOne 0 sampleProxy "node" 1] : Store ℚ).nodes :=
    List.mem_singleton_self _
  have hsettled : (Node.ingested 0 sampleProxy "node" 1 : Node ℚ).Settled :=
    ⟨rfl, Node.within_ingested openStates_standing 0 sampleProxy "node" 1⟩
  have hbusy : ∀ w ∈ busyHours, w.Respects "node" (leaseUntil .download false 0) := by
    simp only [busyHours, List.forall_mem_cons]
    exact ⟨trivial, fun _ => by decide, trivial,
      show hours 5 < leaseUntil .download false 0 by decide, trivial, List.forall_mem_nil _⟩
  obtain ⟨row, hrow, hid, -⟩ := publication_promise (Store.wellKeyed_empty.writes _) hr hsettled
    (by rfl : _ = (sampleEvent "first" .download .success).proxyId) rfl (by decide +kernel) 0
    defaultCadence 0 hbusy (by decide : hours 5 < leaseUntil .download false 0)
  exact ⟨row, hrow, hid⟩

end ProxyFleet
