import ProxyFleet.LifecycleOrigins
import ProxyFleet.MissingGenerations

/-!
# Nodes imported by hand

A node that an import by hand named is counted in no complete generation, so no reconciliation
retires it and no cleanup removes it, whatever else happens to it.
-/
namespace ProxyFleet

/-- The complete generations that a node must be missing from before it is retired. -/
def completeGenerationsBeforeRetire (pruneMissingAfterCycles : ℕ) : ℕ :=
  max pruneMissingAfterCycles 3

variable {F : Type}

/-- A reconciliation asks for as many generations as the configuration says. -/
def Write.Configured : Write F → Prop
  | .reconcile _ _ minimum => ∃ cycles, minimum = completeGenerationsBeforeRetire cycles
  | _ => True

abbrev NotRetired (state : LifecycleState) : Prop := state ≠ .retired

theorem openStates_notRetired : OpenStates NotRetired := fun _ _ hretired => hretired

/-- A manual node that is not retired, with no missing generation. -/
structure Node.Kept (row : Node F) : Prop where
  manual : row.likeManual = true
  seen : row.upstreamMissingGenerations = 0
  within : row.Within NotRetired

/-- A node that is not retired behind a test or a port wait. -/
def Node.Reclaimable (row : Node F) : Prop :=
  row.lifecycleState = .retired ∨ row.Within NotRetired

variable {row : Node F}

theorem sourceSubs_insertSource {name source : String} {sources : List String}
    (h : name ∈ sources) : name ∈ Node.insertSource source sources := by
  unfold Node.insertSource
  split
  · exact h
  · exact (List.mem_orderedInsert _).mpr (.inr h)

theorem likeManual_reingested (h : row.likeManual = true) (now : Time) (proxy : ParsedProxy)
    (generation : ℤ) : (row.reingested now proxy generation).likeManual = true := by
  obtain ⟨name, hname, hmanual⟩ := List.any_eq_true.mp h
  exact List.any_eq_true.mpr ⟨name, sourceSubs_insertSource hname, hmanual⟩

theorem Node.Kept.not_missedBy (h : row.Kept) (generation : ℤ) :
    row.missedBy generation = false := by
  simp [Node.missedBy, h.manual]

theorem Node.Kept.not_retirable (h : row.Kept) (now : Time) (cycles : ℕ) :
    row.retirable now (completeGenerationsBeforeRetire cycles) = false := by
  have hmissing : ¬ ((completeGenerationsBeforeRetire cycles : ℕ) : ℤ) ≤
      row.upstreamMissingGenerations := by
    rw [h.seen, completeGenerationsBeforeRetire]
    omega
  simp [Node.retirable, hmissing]

/-- An ingest by hand keeps the node from then on. -/
theorem kept_reingested (hrow : row.Reclaimable) {proxy : ParsedProxy}
    (manual : proxy.source = "manual") (now : Time) (generation : ℤ) :
    (row.reingested now proxy generation).Kept where
  manual := likeManual_of_mem (manual ▸ mem_insertSource proxy.source row.sourceSubs)
  seen := rfl
  within := by
    rcases hrow with hretired | hwithin
    · have hpassing : ¬ LifecycleState.candidate.Passing := by simp [LifecycleState.Passing]
      exact Node.within_of_settled (if_pos hretired) (if_pos hretired) hpassing (by decide)
    · exact hwithin.reingested openStates_notRetired now proxy generation

variable [F64 F]

theorem kept_ingested {proxy : ParsedProxy} (manual : proxy.source = "manual") (now : Time)
    (newId : String) (generation : ℤ) :
    (Node.ingested now proxy newId generation : Node F).Kept where
  manual := likeManual_of_mem (List.mem_singleton.mpr manual.symm)
  seen := rfl
  within := Node.within_ingested openStates_notRetired now proxy newId generation

/-- No write under the configured minimum takes a kept node back. -/
theorem Node.Kept.step {s : Store F} {w : Write F} {row' : Node F} (h : row.Kept)
    (hw : w.Configured) (hstep : RowStep s w row row') : row'.Kept := by
  obtain hwithin | ⟨now, generation, minimum, rfl, hout⟩ :=
    h.within.step openStates_notRetired (.inl (by decide)) hstep
  · cases hstep with
    | reingested => exact ⟨likeManual_reingested h.manual _ _ _, rfl, hwithin⟩
    | seenAgain => exact ⟨h.manual, rfl, hwithin⟩
    | missed _ unseen => exact absurd unseen (by simp [h.not_missedBy])
    | missedRetired _ unseen => exact absurd unseen (by simp [h.not_missedBy])
    | _ => exact ⟨h.manual, h.seen, hwithin⟩
  · obtain ⟨cycles, rfl⟩ := hw
    rcases hout with hout | ⟨hmissed, -⟩
    · exact absurd hout (by simp [h.not_retirable])
    · exact absurd hmissed (by simp [h.not_missedBy])

/-- The row of an ingest by hand is kept. -/
theorem exists_kept {s t : Store F} {now : Time} {proxy : ParsedProxy} {newId : String}
    {generation : ℤ} (manual : proxy.source = "manual")
    (reclaimable : ∀ row ∈ s.nodes, row.configHash = proxy.configHash → row.Reclaimable)
    (ok : s.ingestOne now proxy newId generation = .ok t) :
    ∃ row ∈ t.nodes, row.configHash = proxy.configHash ∧ row.Kept := by
  unfold Store.ingestOne at ok
  split at ok
  · next row hfind =>
    obtain rfl := Except.ok.inj ok
    have hr : row ∈ s.nodes := List.mem_of_find?_eq_some hfind
    have hhash : row.configHash = proxy.configHash := by simpa using List.find?_some hfind
    refine ⟨row.reingested now proxy generation, ?_, hhash,
      kept_reingested (reclaimable row hr hhash) manual now generation⟩
    rw [Store.insertMember_nodes]
    exact Store.mem_updateNodes.mpr ⟨row, hr, .inl ⟨decide_eq_true rfl, rfl⟩⟩
  · split at ok
    · cases ok
    · obtain rfl := Except.ok.inj ok
      refine ⟨Node.ingested now proxy newId generation, ?_, rfl,
        kept_ingested manual now newId generation⟩
      rw [Store.insertMember_nodes]
      exact List.mem_append_right _ (List.mem_singleton_self _)

/-- Once an import by hand went through, its node is a manual node of the store after every run
of writes: never retired, never removed, and with no missing generation. -/
theorem manual_node_kept {s t : Store F} (keyed : s.WellKeyed) {now : Time} {proxy : ParsedProxy}
    {newId : String} {generation : ℤ} (manual : proxy.source = "manual")
    (reclaimable : ∀ row ∈ s.nodes, row.configHash = proxy.configHash → row.Reclaimable)
    (ok : s.ingestOne now proxy newId generation = .ok t) {ws : List (Write F)}
    (configured : ∀ w ∈ ws, w.Configured) :
    ∃ row ∈ (t.writes ws).nodes, row.configHash = proxy.configHash ∧ row.likeManual = true ∧
      row.upstreamMissingGenerations = 0 ∧ row.lifecycleState ≠ .retired := by
  obtain ⟨row, hr, hhash, hkept⟩ := exists_kept manual reclaimable ok
  have hspares : ∀ (w : Write F) (row : Node F), w.Configured → row.Kept → w.Spares row := by
    intro w row _ hrow
    cases w with
    | cleanupRetired now =>
      have hstate : row.lifecycleState ≠ .retired := hrow.within.lifecycle
      simp [Write.Spares, Node.expiredTombstone, hstate]
    | _ => trivial
  obtain ⟨row', hr', -, hhash', hkept'⟩ := row_survives hspares
    (fun s w row row' hw hrow hstep => hrow.step hw hstep) (keyed.ingestOne ok) hr hkept configured
  exact ⟨row', hr', hhash'.trans hhash, hkept'.manual, hkept'.seen, hkept'.within.lifecycle⟩

/-- The sample proxy, imported by hand. -/
def manualProxy : ParsedProxy := { sampleProxy with source := "manual" }

/-- The sample node, retired in a reconciliation. -/
def retiredSample : Store ℚ :=
  Store.empty.writes [.ingestOne 0 sampleProxy "node" 1, .reconcile (hours 20) 2 0]

/-- Three complete generations without the node, and the end of its tombstone. -/
def laterGenerations : List (Write ℚ) :=
  [.reconcile (days 9) 3 3, .reconcile (days 10) 4 3, .reconcile (days 11) 5 3,
    .cleanupRetired (days 99)]

/-- A retired node that is imported by hand outlives its tombstone and later reconciliations. -/
theorem manual_node_kept_tombstone :
    ∃ row ∈ ((retiredSample.write (.ingestOne (hours 21) manualProxy "other" 0)).writes
        laterGenerations).nodes,
      row.configHash = manualProxy.configHash ∧ row.lifecycleState ≠ .retired := by
  have hretired : (retiredSample.nodes.all fun row =>
      decide (row.lifecycleState = .retired)) = true := by decide +kernel
  have hreclaimable : ∀ row ∈ retiredSample.nodes, row.configHash = manualProxy.configHash →
      row.Reclaimable := fun row hr _ =>
    .inl (of_decide_eq_true (List.all_eq_true.mp hretired row hr))
  have hok : retiredSample.ingestOne (hours 21) manualProxy "other" 0 =
      .ok (retiredSample.write (.ingestOne (hours 21) manualProxy "other" 0)) := rfl
  have hconfigured : ∀ w ∈ laterGenerations, w.Configured := by
    simp only [laterGenerations, List.forall_mem_cons]
    exact ⟨⟨0, rfl⟩, ⟨0, rfl⟩, ⟨0, rfl⟩, trivial, List.forall_mem_nil _⟩
  obtain ⟨row, hr, hhash, -, -, hstate⟩ := manual_node_kept (Store.wellKeyed_empty.writes _) rfl
    hreclaimable hok hconfigured
  exact ⟨row, hr, hhash, hstate⟩

end ProxyFleet
