import ProxyFleet.EventHistory
import ProxyFleet.ReaderQueries

/-!
# Quarantine of invalid configurations

An `INVALID_CONFIG` event clears the validity of its row, and no statement sets it
again. Whatever else happens to the row, every query that selects nodes for tests,
for the feed or for consumers passes it over until it is deleted.
-/
namespace ProxyFleet

variable {F : Type} [F64 F]

/-- Validity is never given back. -/
theorem RowStep.structurallyValid_eq_false {s : Store F} {w : Write F} {row row' : Node F}
    (h : RowStep s w row row') (invalid : row.structurallyValid = false) :
    row'.structurallyValid = false := by
  cases h with
  | applied =>
    unfold Node.applyEvent Node.applyDecision
    dsimp only
    split
    · rfl
    · exact invalid
  | _ => exact invalid

/-- The rows of the node are invalid, and its event is on record. -/
structure Store.Quarantined (s : Store F) (id : String) : Prop where
  keyed : s.WellKeyed
  rows : ∀ row ∈ s.nodes, row.id = id → row.structurallyValid = false
  recorded : ∃ e ∈ s.events, e.proxyId = id

/-- No query returns the node. -/
structure Store.Hides (s : Store F) (id : String) : Prop where
  claims : ∀ tick state limit, ∀ row ∈ s.selectClaims tick state limit, row.id ≠ id
  feed : ∀ now, ∀ row ∈ s.publishedNodes now, row.id ≠ id
  clients : ∀ tables now client ttl, ∀ c ∈ s.candidatesForClient tables now client ttl, c.id ≠ id
  vip : ∀ tables now c, s.bestVipCandidate tables now = some c → c.id ≠ id
  runtime : ∀ now, ∀ c ∈ s.activeRuntimeCandidates now, c.id ≠ id

namespace Store

variable {s : Store F} {id : String}

theorem mem_events_write {e : TestEvent F} (h : e ∈ s.events) (w : Write F) :
    e ∈ (s.write w).events := by
  obtain ⟨now, event, cadence, draw, -, -, hevents⟩ | ⟨-, hevents⟩ := s.events_write w
  · rw [hevents]
    exact List.mem_append_left _ h
  · rw [hevents]
    exact h

theorem Quarantined.write (h : s.Quarantined id) {w : Write F} (fresh : w.FreshId s) :
    (s.write w).Quarantined id := by
  obtain ⟨e, he, hid⟩ := h.recorded
  refine ⟨h.keyed.write w, fun row' hr' hrid => ?_, e, mem_events_write he w, hid⟩
  obtain hnew | ⟨row, hr, hstep⟩ := row_of_write h.keyed hr'
  · cases hnew
    exact absurd (hid.trans hrid.symm) (fresh e he)
  · exact hstep.structurallyValid_eq_false (h.rows row hr (hstep.id_eq.symm.trans hrid))

/-- An `INVALID_CONFIG` event that is applied quarantines its node. -/
theorem quarantined_of_invalid (keyed : s.WellKeyed) {now : Time} {event : TestEventInput F}
    (invalid : event.failureClass = .invalidConfig) (applied : s.accepts event = true)
    (cadence : Cadence) (draw : ℕ) :
    (s.write (.applyTestEvent now event cadence draw)).Quarantined event.proxyId := by
  refine ⟨keyed.write _, fun row' hr' hid => ?_, ?_⟩
  · rw [write_applyTestEvent, if_pos applied] at hr'
    obtain ⟨row, hr, ⟨-, rfl⟩ | ⟨hother, rfl⟩⟩ := mem_updateNodes.mp hr'
    · simp [Node.applyEvent, Node.applyDecision, invalid]
    · simp [hid] at hother
  · rw [write_applyTestEvent, if_pos applied]
    exact ⟨_, List.mem_append_right _ (List.mem_singleton_self _), rfl⟩

/-- Every query asks for validity. -/
theorem Quarantined.hides (h : s.Quarantined id) : s.Hides id := by
  have hrunnable : ∀ now, ∀ row ∈ s.nodes, row.runnable now = true → row.id ≠ id := by
    intro now row hr hrun hid
    simp [Node.runnable, h.rows row hr hid] at hrun
  constructor
  · intro tick state limit row hrow hid
    obtain ⟨hr, he⟩ := mem_selectClaims hrow
    simp [Node.eligible, Node.eligibleDirectly, Node.eligibleWaiting, h.rows row hr hid] at he
  · intro now row hrow hid
    rw [publishedNodes, List.mem_insertionSort, List.mem_filter] at hrow
    simp [Node.publishable, h.rows row hrow.1 hid] at hrow
  · intro tables now client ttl c hc hid
    obtain ⟨row, hr, hselectable, hrow⟩ := candidate_row hc
    exact hrunnable now row hr (Node.runnable_of_selectable hselectable) (hrow.trans hid)
  · intro tables now c hc hid
    obtain ⟨row, hr, hselectable, hrow⟩ := vip_row hc
    exact hrunnable now row hr (Node.runnable_of_selectable hselectable) (hrow.trans hid)
  · intro now c hc hid
    obtain ⟨row, hr, hrun, hrow⟩ := mem_activeRuntimeCandidates.mp ⟨c, hc, hid⟩
    exact hrunnable now row hr hrun hrow

end Store

/-- Once an `INVALID_CONFIG` event was applied, the node stays invalid and out of every query. -/
theorem invalid_stays_quarantined {s : Store F} (keyed : s.WellKeyed) {now : Time}
    {event : TestEventInput F} (invalid : event.failureClass = .invalidConfig)
    (applied : s.accepts event = true) (cadence : Cadence) (draw : ℕ) {later : List (Write F)}
    (fresh : ObservedRuns.Admitted Store.write (fun s w => w.FreshId s)
      (s.write (.applyTestEvent now event cadence draw)) later) :
    (∀ row ∈ ((s.write (.applyTestEvent now event cadence draw)).writes later).nodes,
      row.id = event.proxyId → row.structurallyValid = false) ∧
    ((s.write (.applyTestEvent now event cadence draw)).writes later).Hides event.proxyId := by
  have h := ObservedRuns.run_invariant (I := fun s => Store.Quarantined s event.proxyId)
    (fun _ _ hfresh hq => hq.write hfresh)
    (Store.quarantined_of_invalid keyed invalid applied cadence draw) fresh
  exact ⟨h.rows, h.hides⟩

/-- A claim from before, a late success, a port wait, a revival and a new body change nothing. -/
theorem invalid_stays_quarantined_lateSuccess :
    ((Store.empty.writes [.ingestOne 0 sampleProxy "node" 1,
        .applyTestEvent 1 (sampleEvent "first" .static .invalidConfig) defaultCadence 0,
        .claimRow 1 (minutes 1) "node",
        .applyTestEvent 2 (sampleEvent "second" .download .success) defaultCadence 0,
        .markWaitingForPort 3 "node" 1, .reviveNode 4 "node",
        .ingestOne 5 sampleProxy "other" 2]) : Store ℚ).Hides "node" := by
  have keyed : (Store.empty.writes [.ingestOne 0 sampleProxy "node" 1] : Store ℚ).WellKeyed :=
    Store.wellKeyed_empty.writes _
  exact (@invalid_stays_quarantined ℚ _ _ keyed 1 (sampleEvent "first" .static .invalidConfig) rfl
    (by decide +kernel) defaultCadence 0 _ (by decide +kernel)).2

end ProxyFleet
