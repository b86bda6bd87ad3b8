import ProxyFleet.RetiredNodes
import ProxyFleet.RetirementSoundness

/-!
# Revival of retired nodes

An ingest takes `RETIRED` rows back to `CANDIDATE`. It runs when all sources have
answered, whether or not each of them succeeded, and before the refresh is known to be
complete. A watch remembers which nodes were `RETIRED` when the refresh began and
whether it went through to the reconciliation.
-/
namespace ProxyFleet

variable {F : Type}

namespace Store

/-- The nodes are `RETIRED`, as far as they have rows. -/
def RetiredIn (s : Store F) (ids : List String) : Prop :=
  ∀ row ∈ s.nodes, row.id ∈ ids → row.lifecycleState = .retired

/-- The nodes are `RETIRED` but for those whose identities are in the batch. -/
def RetiredBut (s : Store F) (batch : List ParsedProxy) (ids : List String) : Prop :=
  ∀ row ∈ s.nodes, row.id ∈ ids →
    row.lifecycleState = .retired ∨ ∃ proxy ∈ batch, row.configHash = proxy.configHash

/-- No row with the identity is `RETIRED`. -/
def NoneRetired (s : Store F) (hash : String) : Prop :=
  ∀ row ∈ s.nodes, row.configHash = hash → row.lifecycleState ≠ .retired

/-- No row with the identity is one of the nodes. -/
def NoneAmong (s : Store F) (ids : List String) (hash : String) : Prop :=
  ∀ row ∈ s.nodes, row.configHash = hash → row.id ∉ ids

instance (s : Store F) (ids : List String) : Decidable (s.RetiredIn ids) :=
  inferInstanceAs (Decidable (∀ row ∈ s.nodes, row.id ∈ ids → row.lifecycleState = .retired))

instance (s : Store F) : DecidablePred s.NoneRetired := fun hash =>
  inferInstanceAs (Decidable (∀ row ∈ s.nodes, row.configHash = hash → _))

instance (s : Store F) (ids : List String) : DecidablePred (s.NoneAmong ids) := fun hash =>
  inferInstanceAs (Decidable (∀ row ∈ s.nodes, row.configHash = hash → _))

end Store

/-- The write takes a `RETIRED` row to another state. -/
def Write.TakesRetired (s : Store F) : Write F → Prop
  | .ingestOne _ proxy _ _ => ¬ s.NoneRetired proxy.configHash
  | .claimRow now _ id => ∃ row ∈ s.nodes, row.id = id ∧ row.lifecycleState = .retired ∧
      row.leaseFree now = true
  | .markWaitingForPort _ id _ => ∃ row ∈ s.nodes, row.id = id ∧ row.lifecycleState = .retired ∧
      row.structurallyValid = true
  | .applyTestEvent _ event _ _ => event.failureClass = .invalidConfig ∧
      ∃ row ∈ s.nodes, row.id = event.proxyId ∧ row.lifecycleState = .retired
  | _ => False

instance (s : Store F) : DecidablePred (Write.TakesRetired s)
  | .ingestOne _ proxy _ _ => inferInstanceAs (Decidable (¬ s.NoneRetired proxy.configHash))
  | .claimRow now _ id => inferInstanceAs (Decidable (∃ row ∈ s.nodes, row.id = id ∧
      row.lifecycleState = .retired ∧ row.leaseFree now = true))
  | .markWaitingForPort _ id _ => inferInstanceAs (Decidable (∃ row ∈ s.nodes, row.id = id ∧
      row.lifecycleState = .retired ∧ row.structurallyValid = true))
  | .applyTestEvent _ event _ _ => inferInstanceAs (Decidable (event.failureClass = .invalidConfig ∧
      ∃ row ∈ s.nodes, row.id = event.proxyId ∧ row.lifecycleState = .retired))
  | .releaseTestLease _ | .beginRefresh .. | .recordFinishedRun .. | .reconcile .. |
    .copyCachedSourceGeneration .. | .recordSourceSuccess .. | .recordSourceFailure .. |
    .recordSystemEvent _ | .reviveDormant _ | .reviveNode .. | .scheduleManualTest .. |
    .cleanupRetired _ | .seedLegacyDownloadLeases .. | .setMainPort .. | .clearMainPort _ |
    .clearStaleRuntimePorts | .claimMetadataRefresh .. | .recordExitMetadata .. |
    .releaseMetadataLease _ | .setQuotaDebt _ => instDecidableFalse

/-- What a refresh found when it began, and whether it was reconciled. -/
structure RefreshWatch where
  generation : ℤ := 0
  retired : List String := []
  reconciled : Bool := false

namespace RefreshWatch

def note (watch : RefreshWatch) (w : RefreshWorld F) : RefreshStep F → RefreshWatch
  | .begin _ _ _ =>
    match w.progress with
    | none =>
      { generation := w.store.nextGeneration
        retired := (w.store.nodes.filter fun row => row.lifecycleState = .retired).map (·.id) }
    | some _ => watch
  | .reconcile _ _ =>
    match w.progress with
    | none => watch
    | some p =>
      match p.phase with
      | .runRecorded => { watch with reconciled := true }
      | _ => watch
  | _ => watch

/-- A step of the watched world. -/
abbrev step [F64 F] (lib : Libraries) :
    RefreshWorld F × RefreshWatch → RefreshStep F → RefreshWorld F × RefreshWatch :=
  ObservedRuns.observe (RefreshWorld.step lib) note

/-- Unless its generation was recorded as complete and reconciled, a refresh that is over has
left every node `RETIRED` that was. -/
def Law (now : RefreshWorld F × RefreshWatch) : Prop :=
  now.1.progress = none → now.1.store.RetiredIn now.2.retired ∨
    now.2.reconciled = true ∧ ∃ run ∈ now.1.store.refreshRuns,
      run.generation = now.2.generation ∧ run.status = .complete

/-- New rows take new ids, and what happens outside of the refresh neither ingests nor takes a
node out of `RETIRED`. -/
def Surrounded (now : RefreshWorld F × RefreshWatch) : RefreshStep F → Prop
  | .ingest _ newId => ∀ p ∈ now.1.progress, ∀ k < p.parsed.length, newId k ∉ now.2.retired
  | .other write => write.bystander = true ∧ ¬ write.TakesRetired now.1.store
  | _ => True

/-- A refresh that lacks a source ingests no identity that is `RETIRED`, and a refresh that breaks
off after its ingest had no identity of a node that was `RETIRED` when it began. -/
def Withheld (now : RefreshWorld F × RefreshWatch) : RefreshStep F → Prop
  | .ingest _ _ => ∀ p ∈ now.1.progress, p.complete = true ∨
      ∀ proxy ∈ p.parsed, now.1.store.NoneRetired proxy.configHash
  | .stop => ∀ p ∈ now.1.progress, p.gathering = false →
      ∀ proxy ∈ p.parsed, now.1.store.NoneAmong now.2.retired proxy.configHash
  | _ => True

instance (now : RefreshWorld F × RefreshWatch) : DecidablePred (Surrounded now) := fun a => by
  cases a <;> unfold Surrounded <;> infer_instance

instance (now : RefreshWorld F × RefreshWatch) : DecidablePred (Withheld now) := fun a => by
  cases a <;> unfold Withheld <;> infer_instance

end RefreshWatch

section Rows

variable [F64 F] {s t : Store F} {ids : List String}

omit [F64 F] in
theorem Store.RetiredIn.of_nodes (h : s.RetiredIn ids) (nodes : t.nodes = s.nodes) :
    t.RetiredIn ids := fun row hr => h row (nodes ▸ hr)

/-- A step that does not take the row out of `RETIRED` leaves it there. -/
theorem RowStep.retired_of_not_takes {w : Write F} {row row' : Node F} (h : RowStep s w row row')
    (hr : row ∈ s.nodes) (spared : ¬ w.TakesRetired s) (retired : row.lifecycleState = .retired) :
    row'.lifecycleState = .retired := by
  obtain hkept | ⟨now, leaseUntil, rfl, hfree⟩ | ⟨now, retryAfter, rfl, hvalid⟩ |
    ⟨now, proxy, newId, generation, rfl, hsame⟩ | ⟨now, event, cadence, draw, rfl, hown, hclass⟩ :=
    h.retired_or retired
  · exact hkept
  · exact absurd ⟨row, hr, rfl, retired, hfree⟩ spared
  · exact absurd ⟨row, hr, rfl, retired, hvalid⟩ spared
  · exact absurd (fun hnone => hnone row hr hsame retired) spared
  · exact absurd ⟨hclass, row, hr, hown, retired⟩ spared

theorem Store.RetiredIn.write (h : s.RetiredIn ids) (hk : s.WellKeyed) {w : Write F}
    (fresh : ∀ now proxy newId generation, w = .ingestOne now proxy newId generation → newId ∉ ids)
    (spared : ¬ w.TakesRetired s) : (s.write w).RetiredIn ids := by
  intro row' hr' hid
  obtain hnew | ⟨row, hr, hstep⟩ := row_of_write hk hr'
  · cases hnew
    exact absurd hid (fresh _ _ _ _ rfl)
  · exact hstep.retired_of_not_takes hr spared (h row hr (hstep.id_eq ▸ hid))

theorem Store.RetiredBut.write {batch : List ParsedProxy} (h : s.RetiredBut batch ids)
    (hk : s.WellKeyed) {w : Write F}
    (fresh : ∀ now proxy newId generation, w = .ingestOne now proxy newId generation → newId ∉ ids)
    (spared : ¬ w.TakesRetired s ∨ ∃ now newId generation, ∃ proxy ∈ batch,
      w = .ingestOne now proxy newId generation) : (s.write w).RetiredBut batch ids := by
  intro row' hr' hid
  obtain hnew | ⟨row, hr, hstep⟩ := row_of_write hk hr'
  · cases hnew
    exact absurd hid (fresh _ _ _ _ rfl)
  · rw [hstep.configHash_eq]
    refine (h row hr (hstep.id_eq ▸ hid)).elim (fun hretired => ?_) .inr
    rcases spared with hspared | ⟨now, newId, generation, proxy, hproxy, rfl⟩
    · exact .inl (hstep.retired_of_not_takes hr hspared hretired)
    · by_cases hsame : row.configHash = proxy.configHash
      · exact .inr ⟨proxy, hproxy, hsame⟩
      · left
        obtain hkept | ⟨_, _, hw, _⟩ | ⟨_, _, hw, _⟩ | ⟨_, other, _, _, hw, hother⟩ |
          ⟨_, _, _, _, hw, _⟩ := hstep.retired_or hretired
        · exact hkept
        · cases hw
        · cases hw
        · cases hw
          exact absurd hother hsame
        · cases hw

/-- A batch leaves the `RETIRED` rows alone but for its own identities. -/
theorem Store.RetiredIn.ingestMany_but (h : s.RetiredIn ids) (hk : s.WellKeyed) {now : Time}
    {generation : ℤ} {batch : List ParsedProxy} {newId : ℕ → String} {inserted : ℕ}
    (ok : s.ingestMany now generation batch newId = .ok (t, inserted))
    (fresh : ∀ k < batch.length, newId k ∉ ids) : t.RetiredBut batch ids := by
  suffices hall : t.WellKeyed ∧ t.RetiredBut batch ids from hall.2
  apply Store.ingestMany_rule (I := fun _ u => u.WellKeyed ∧ u.RetiredBut batch ids) ok
  · exact ⟨hk, fun row hr hid => .inl (h row hr hid)⟩
  · rintro _ proxy hproxy k hindex u v ⟨hku, hretired⟩ hone
    rw [← Store.write_ingestOne hone]
    refine ⟨hku.write _, hretired.write hku ?_ (.inr ⟨_, _, _, proxy, hproxy, rfl⟩)⟩
    rintro _ _ _ _ ⟨⟩
    exact fresh k hindex

/-- An ingest retires nothing. -/
theorem Store.NoneRetired.ingestOne (hk : s.WellKeyed) {hash : String} (h : s.NoneRetired hash)
    (now : Time) (proxy : ParsedProxy) (newId : String) (generation : ℤ) :
    (s.write (.ingestOne now proxy newId generation)).NoneRetired hash := by
  intro row' hr' hhash hretired
  obtain hnew | ⟨row, hr, hstep⟩ := row_of_write hk hr'
  · cases hnew
    cases hretired
  · refine h row hr (hstep.configHash_eq.symm.trans hhash) ?_
    cases hstep with
    | kept | port | metadata => exact hretired
    | reingested =>
      by_cases hr : row.lifecycleState = .retired
      · exact hr
      · simp [Node.reingested, hr] at hretired

/-- A batch without `RETIRED` identities leaves the `RETIRED` rows alone. -/
theorem Store.RetiredIn.ingestMany (h : s.RetiredIn ids) (hk : s.WellKeyed) {now : Time}
    {generation : ℤ} {batch : List ParsedProxy} {newId : ℕ → String} {inserted : ℕ}
    (ok : s.ingestMany now generation batch newId = .ok (t, inserted))
    (fresh : ∀ k < batch.length, newId k ∉ ids)
    (spared : ∀ proxy ∈ batch, s.NoneRetired proxy.configHash) : t.RetiredIn ids := by
  suffices hall : t.WellKeyed ∧ t.RetiredIn ids ∧
      ∀ proxy ∈ batch, t.NoneRetired proxy.configHash from hall.2.1
  apply Store.ingestMany_rule (I := fun _ u => u.WellKeyed ∧ u.RetiredIn ids ∧
    ∀ proxy ∈ batch, u.NoneRetired proxy.configHash) ok
  · exact ⟨hk, h, spared⟩
  · rintro _ proxy hproxy k hindex u v ⟨hku, hretired, hnone⟩ hone
    have hspared : ¬ (Write.ingestOne now proxy (newId k) generation).TakesRetired u :=
      not_not_intro (hnone proxy hproxy)
    rw [← Store.write_ingestOne hone]
    refine ⟨hku.write _, hretired.write hku ?_ hspared, fun other hother => ?_⟩
    · rintro _ _ _ _ ⟨⟩
      exact fresh k hindex
    · exact (hnone other hother).ingestOne hku _ _ _ _

end Rows

namespace RefreshWatch

variable [F64 F] (lib : Libraries)

/-- The watched refresh while it is in progress. -/
structure During (s : Store F) (watch : RefreshWatch) (p : RefreshProgress) : Prop where
  own : watch.generation = p.generation
  recorded : ∃ run ∈ s.refreshRuns, run.id = p.runId ∧ run.generation = p.generation ∧
    (p.phase = .runRecorded → run.status = .complete)
  retired : s.RetiredIn watch.retired ∨
    p.gathering = false ∧ p.complete = true ∧ s.RetiredBut p.parsed watch.retired

structure Watching (now : RefreshWorld F × RefreshWatch) : Prop where
  keyed : now.1.store.WellKeyed
  law : Law now
  during : ∀ p, now.1.progress = some p → During now.1.store now.2 p

variable {lib} {w : RefreshWorld F} {watch : RefreshWatch} {p : RefreshProgress} {t : Store F}

omit [F64 F] in
/-- Before its batch is ingested a refresh has revived nothing. -/
theorem Watching.retired_of_gathering (h : Watching (w, watch)) (progress : w.progress = some p)
    (gathering : p.gathering = true) : w.store.RetiredIn watch.retired := by
  refine (h.during p progress).retired.resolve_right ?_
  rintro ⟨hdone, -⟩
  rw [gathering] at hdone
  cases hdone

omit [F64 F] in
/-- A statement that gathers the answers. -/
theorem Watching.gather (h : Watching (w, watch)) (progress : w.progress = some p)
    (q : RefreshProgress) (retired : t.RetiredIn watch.retired) (keyed : t.WellKeyed)
    (runs : t.refreshRuns = w.store.refreshRuns) (own : q.runId = p.runId)
    (generation : q.generation = p.generation) (unrecorded : q.phase ≠ .runRecorded)
    (history : List RefreshEvent) :
    Watching ({ store := t, progress := some q, history := history }, watch) := by
  have hp := h.during p progress
  refine ⟨keyed, (fun hidle => by cases hidle), fun q' hq => ?_⟩
  obtain rfl := Option.some.inj hq
  obtain ⟨run, hrun, hid, hgen, -⟩ := hp.recorded
  exact ⟨hp.own.trans generation.symm, ⟨run, runs.symm ▸ hrun, hid.trans own.symm,
    hgen.trans generation.symm, fun hphase => absurd hphase unrecorded⟩, .inl retired⟩

omit [F64 F] in
/-- A refresh that ends early has left its nodes `RETIRED`. -/
theorem Watching.close (keyed : t.WellKeyed) (retired : t.RetiredIn watch.retired)
    (history : List RefreshEvent) :
    Watching ({ store := t, progress := none, history := history }, watch) :=
  ⟨keyed, fun _ => .inl retired, fun _ hq => by cases hq⟩

/-- A refresh begins with the nodes that are `RETIRED`. -/
theorem Watching.begin (h : Watching (w, watch)) (idle : w.progress = none) (now : Time)
    (runId : String) (sources : List SubscriptionSource) :
    Watching (w.step lib (.begin now runId sources), watch.note w (.begin now runId sources)) := by
  simp only [RefreshWorld.step, note, idle]
  have hretired : (w.store.beginRefresh now runId sources.length).RetiredIn
      ((w.store.nodes.filter fun row => row.lifecycleState = .retired).map (·.id)) := by
    intro row hr hid
    obtain ⟨other, hother, heq⟩ := List.mem_map.mp hid
    obtain ⟨ho, hstate⟩ := List.mem_filter.mp hother
    rw [← RowUpdates.eq_of_key_eq h.keyed.ids ho hr heq]
    simpa using hstate
  refine ⟨h.keyed.write (.beginRefresh now runId sources.length),
    (fun hidle => by cases hidle), fun q hq => ?_⟩
  obtain rfl := Option.some.inj hq
  exact ⟨rfl, ⟨_, List.mem_append_right _ (List.mem_singleton_self _), rfl, rfl,
    fun hphase => by cases hphase⟩, .inl hretired⟩

/-- An ingest revives no node, or its refresh is complete. -/
theorem Watching.ingest (h : Watching (w, watch)) (progress : w.progress = some p)
    (phase : p.phase = .fetching) {now : Time} {newId : ℕ → String} {inserted : ℕ}
    (ok : w.store.ingestMany now p.generation p.parsed newId = .ok (t, inserted))
    (fresh : ∀ k < p.parsed.length, newId k ∉ watch.retired)
    (withheld : p.complete = true ∨ ∀ proxy ∈ p.parsed, w.store.NoneRetired proxy.configHash)
    {history : List RefreshEvent} :
    Watching ({ store := t, progress := some { p with phase := .ingested }, history := history },
      watch) := by
  have hp := h.during p progress
  have hretired := h.retired_of_gathering progress (by simp [RefreshProgress.gathering, phase])
  refine ⟨h.keyed.ingestMany ok, (fun hidle => by cases hidle), fun q hq => ?_⟩
  obtain rfl := Option.some.inj hq
  obtain ⟨run, hrun, hid, hgen, -⟩ := hp.recorded
  refine ⟨hp.own, ⟨run, ?_, hid, hgen, fun hphase => by cases hphase⟩, ?_⟩
  · rw [(Store.members_ingestMany ok).2.2]
    exact hrun
  · rcases withheld with hcomplete | hnone
    · exact .inr ⟨rfl, hcomplete, hretired.ingestMany_but h.keyed ok fresh⟩
    · exact .inl (hretired.ingestMany h.keyed ok fresh hnone)

/-- A refresh breaks off. -/
theorem Watching.stop (h : Watching (w, watch))
    (withheld : ∀ p ∈ w.progress, p.gathering = false →
      ∀ proxy ∈ p.parsed, w.store.NoneAmong watch.retired proxy.configHash) :
    Watching (w.step lib .stop, watch) := by
  cases hprogress : w.progress with
  | none =>
    refine ⟨h.keyed, fun _ => h.law hprogress, fun _ hq => by cases hq⟩
  | some p =>
    have hretired : w.store.RetiredIn watch.retired := by
      obtain hretired | ⟨hingested, -, hbut⟩ := (h.during p hprogress).retired
      · exact hretired
      · intro row hr hid
        obtain hretired | ⟨proxy, hproxy, hsame⟩ := hbut row hr hid
        · exact hretired
        · exact absurd hid (withheld p hprogress hingested proxy hproxy row hr hsame)
    exact Watching.close h.keyed hretired _

/-- The record of the run ends a refresh that is not complete. -/
theorem Watching.finishRun (h : Watching (w, watch)) (progress : w.progress = some p)
    (now : Time) (history : List RefreshEvent) :
    Watching ({
      store := w.store.recordFinishedRun now p.runId
        (if p.complete then .complete else .partialRun) p.successfulSources p.accepted
      progress := if p.complete then some { p with phase := .runRecorded } else none
      history := history }, watch) := by
  have hp := h.during p progress
  cases hc : p.complete with
  | false =>
    have hretired : w.store.RetiredIn watch.retired := by
      refine hp.retired.resolve_right ?_
      rintro ⟨-, hcomplete, -⟩
      rw [hc] at hcomplete
      cases hcomplete
    have hkeyed := h.keyed.write (.recordFinishedRun now p.runId .partialRun p.successfulSources
      p.accepted)
    exact Watching.close hkeyed (hretired.of_nodes rfl) history
  | true =>
    refine ⟨h.keyed.of_nodes_eq rfl, (fun hidle => by cases hidle), fun q hq => ?_⟩
    obtain rfl := Option.some.inj hq
    obtain ⟨run, hrun, hid, hgen, -⟩ := hp.recorded
    refine ⟨hp.own, ⟨_, RowUpdates.mem_updateWhere.mpr
      ⟨run, hrun, .inl ⟨by simpa using hid, rfl⟩⟩, hid, hgen, fun _ => rfl⟩, ?_⟩
    exact hp.retired.imp (·.of_nodes rfl) fun hbut => ⟨rfl, hc, hbut.2.2⟩

/-- The reconciliation ends a refresh that is recorded as complete. -/
theorem Watching.reconcile (h : Watching (w, watch)) (progress : w.progress = some p)
    (phase : p.phase = .runRecorded) (now : Time) (minimum : ℕ) :
    Watching (w.step lib (.reconcile now minimum), watch.note w (.reconcile now minimum)) := by
  simp only [RefreshWorld.step, note, progress, phase]
  have hp := h.during p progress
  obtain ⟨run, hrun, -, hgen, hstatus⟩ := hp.recorded
  exact ⟨h.keyed.write (.reconcile now p.generation minimum),
    fun _ => .inr ⟨rfl, run, hrun, hgen.trans hp.own.symm, hstatus phase⟩,
    fun _ hq => by cases hq⟩

/-- A write outside of the refresh. -/
theorem Watching.other (h : Watching (w, watch)) {write : Write F}
    (bystander : write.bystander = true) (spared : ¬ write.TakesRetired w.store) :
    Watching ({ w with store := w.store.write write }, watch) := by
  have hfresh : ∀ now proxy newId generation,
      write = .ingestOne now proxy newId generation → newId ∉ watch.retired := by
    rintro _ _ _ _ rfl
    cases bystander
  have hretired : w.store.RetiredIn watch.retired →
      (w.store.write write).RetiredIn watch.retired :=
    fun hretired => hretired.write h.keyed hfresh spared
  have hruns : (w.store.write write).refreshRuns = w.store.refreshRuns := by
    refine (Store.upstream_write w.store ?_).2.2
    cases write with
    | reconcile => cases bystander
    | _ => exact bystander
  refine ⟨h.keyed.write write, fun hidle => ?_, fun p hp => ?_⟩
  · refine (h.law hidle).imp hretired ?_
    rintro ⟨hreconciled, run, hrun, hgen, hstatus⟩
    exact ⟨hreconciled, run, hruns.symm ▸ hrun, hgen, hstatus⟩
  · obtain ⟨hown, ⟨run, hrun, hid, hgen, hstatus⟩, hkept⟩ := h.during p hp
    exact ⟨hown, ⟨run, hruns.symm ▸ hrun, hid, hgen, hstatus⟩, hkept.imp hretired
      fun ⟨hingested, hcomplete, hbut⟩ =>
        ⟨hingested, hcomplete, hbut.write h.keyed hfresh (.inl spared)⟩⟩

theorem Watching.step (h : Watching (w, watch)) {a : RefreshStep F}
    (surrounded : Surrounded (w, watch) a) (withheld : Withheld (w, watch) a) :
    Watching (w.step lib a, watch.note w a) := by
  cases a with
  | begin now runId sources =>
    cases hidle : w.progress with
    | none => exact h.begin hidle now runId sources
    | some p =>
      simp only [RefreshWorld.step, note, hidle]
      exact h
  | reconcile now minimum =>
    cases hprogress : w.progress with
    | none =>
      simp only [RefreshWorld.step, note, hprogress]
      exact h
    | some p =>
      cases hphase : p.phase with
      | runRecorded => exact h.reconcile hprogress hphase now minimum
      | _ =>
        simp only [RefreshWorld.step, note, hprogress, hphase]
        exact h
  | answer now source result =>
    show Watching (w.step lib (.answer now source result), watch)
    have hstep := RefreshWorld.stepped lib w (.answer now source result)
    generalize w.step lib (.answer now source result) = w' at hstep ⊢
    cases hstep with
    | unchanged => exact h
    | @bodyRecorded _ _ body etag lastModified p progress phase =>
      have hretired := h.retired_of_gathering progress (by simp [RefreshProgress.gathering, phase])
      have hnodes := Store.recordSourceSuccess_nodes w.store now source.name source.url etag
        lastModified
      exact h.gather progress (p.recordBody source body) (hretired.of_nodes hnodes)
        (h.keyed.of_nodes_eq hnodes) (Store.recordSourceSuccess_upstream _ _ _ _ _ _).2 rfl rfl
        (fun hphase => by cases hphase) _
    | membersCopied p progress phase =>
      have hretired := h.retired_of_gathering progress (by simp [RefreshProgress.gathering, phase])
      have hcopied := hretired.write h.keyed
        (w := .copyCachedSourceGeneration source.name p.generation)
        (fun _ _ _ _ hw => by cases hw) not_false
      exact h.gather progress (p.recordCopy source _) hcopied (h.keyed.write _)
        (Store.copyCachedSourceGeneration_runs _ _ _) rfl rfl (fun hphase => by cases hphase) _
    | failed p progress phase =>
      have hretired := h.retired_of_gathering progress (by simp [RefreshProgress.gathering, phase])
      have hnodes := Store.recordSourceFailure_nodes w.store source.name source.url
      exact h.gather progress (p.recordError source _) (hretired.of_nodes hnodes)
        (h.keyed.of_nodes_eq hnodes) (Store.recordSourceFailure_upstream _ _ _).2 rfl rfl
        (by simp [RefreshProgress.recordError, phase]) _
  | resume now =>
    show Watching (w.step lib (.resume now), watch)
    have hstep := RefreshWorld.stepped lib w (.resume now)
    generalize w.step lib (.resume now) = w' at hstep ⊢
    cases hstep with
    | unchanged => exact h
    | parsed p source body progress phase =>
      have hretired := h.retired_of_gathering progress (by simp [RefreshProgress.gathering, phase])
      obtain ⟨events, hevents⟩ := w.store.exists_recordInvalidConfigRejections now source.name
        (parseSubscription lib body source.name).rejected
      rw [hevents]
      exact h.gather (t := { w.store with systemEvents := events }) progress (p.extend _)
        (hretired.of_nodes rfl) (h.keyed.of_nodes_eq rfl) rfl rfl rfl
        (fun hphase => by cases hphase) _
    | confirmed p source copied progress phase =>
      have hretired := h.retired_of_gathering progress (by simp [RefreshProgress.gathering, phase])
      have hnodes := Store.recordSourceSuccess_nodes w.store now source.name source.url none none
      exact h.gather progress (p.addCopied copied) (hretired.of_nodes hnodes)
        (h.keyed.of_nodes_eq hnodes) (Store.recordSourceSuccess_upstream _ _ _ _ _ _).2 rfl rfl
        (fun hphase => by cases hphase) _
  | ingest now newId =>
    show Watching (w.step lib (.ingest now newId), watch)
    have hstep := RefreshWorld.stepped lib w (.ingest now newId)
    generalize w.step lib (.ingest now newId) = w' at hstep ⊢
    cases hstep with
    | unchanged => exact h
    | ingested p store inserted progress phase _ ok =>
      exact h.ingest progress phase ok (surrounded p progress) (withheld p progress)
    | ingestFailed p error progress phase =>
      exact Watching.close h.keyed
        (h.retired_of_gathering progress (by simp [RefreshProgress.gathering, phase])) _
  | finishRun now =>
    show Watching (w.step lib (.finishRun now), watch)
    have hstep := RefreshWorld.stepped lib w (.finishRun now)
    generalize w.step lib (.finishRun now) = w' at hstep ⊢
    cases hstep with
    | unchanged => exact h
    | runRecorded p progress phase => exact h.finishRun progress now _
  | stop => exact h.stop withheld
  | other write => exact h.other surrounded.1 surrounded.2

/-- Whatever answers fail, a node that was `RETIRED` when a refresh began is `RETIRED` when it is
over, unless the refresh was recorded as complete and reconciled. -/
theorem retired_revived_only_complete {s : Store F} (keyed : s.WellKeyed)
    {steps : List (RefreshStep F)}
    (surrounded : ObservedRuns.Admitted (step lib) Surrounded ({ store := s }, {}) steps)
    (withheld : ObservedRuns.Admitted (step lib) Withheld ({ store := s }, {}) steps) :
    ObservedRuns.Throughout (step lib) Law ({ store := s }, {}) steps := by
  have hstart : Watching (({ store := s } : RefreshWorld F), ({} : RefreshWatch)) :=
    ⟨keyed, fun _ => .inl (fun _ _ hid => nomatch hid), fun _ hp => nomatch hp⟩
  have hadmitted : ObservedRuns.Admitted (step lib)
      (fun now a => Surrounded now a ∧ Withheld now a) ({ store := s }, {}) steps :=
    ObservedRuns.admitted_and.mpr ⟨surrounded, withheld⟩
  exact ObservedRuns.throughout_of_invariant (J := Watching)
    (fun _ _ ha h => h.step ha.1 ha.2) (fun _ h => h.law) hstart hadmitted

/-- A second source. -/
def mirrorSource : SubscriptionSource where
  name := "mirror"
  url := "https://mirror.example/list"

/-- A refresh of both sources. A row takes its id from the refresh that inserts it. -/
def pairRefresh (now : Time) (runId : String) (first second : Except String FetchResult) :
    List (RefreshStep ℚ) :=
  RefreshWorld.refreshSteps now runId [RefreshWorld.sampleSource, mirrorSource]
    [(RefreshWorld.sampleSource, first), (mirrorSource, second)] (fun _ => runId) 3

def emptyBody : FetchResult := .body [] none none

/-- The sample node is ingested, and three complete refreshes that lack it retire it. -/
def retiringRefreshes : List (RefreshStep ℚ) :=
  pairRefresh 0 "first" (.ok RefreshWorld.sampleBody) (.ok emptyBody) ++
    pairRefresh (hours 13) "second" (.ok emptyBody) (.ok emptyBody) ++
      pairRefresh (hours 14) "third" (.ok emptyBody) (.ok emptyBody) ++
        pairRefresh (hours 15) "fourth" (.ok emptyBody) (.ok emptyBody)

/-- A refresh without its second source then revives the node. -/
def incompleteRevival : List (RefreshStep ℚ) :=
  retiringRefreshes ++
    pairRefresh (hours 16) "fifth" (.ok RefreshWorld.sampleBody) (.error "timed out")

theorem retired_revived_by_incomplete :
    ¬ ∀ steps : List (RefreshStep ℚ),
      ObservedRuns.Admitted (step sampleLibraries) Surrounded ({}, {}) steps →
        ObservedRuns.Throughout (step sampleLibraries) Law ({}, {}) steps := by
  intro h
  have surrounded : ObservedRuns.Admitted (step sampleLibraries) Surrounded ({}, {})
      incompleteRevival := by decide +kernel
  have hidle : (ObservedRuns.run (step sampleLibraries) ({}, {})
      incompleteRevival).1.progress.isNone = true := by decide +kernel
  have hrevived : ¬ (ObservedRuns.run (step sampleLibraries) ({}, {})
      incompleteRevival).1.store.RetiredIn (ObservedRuns.run (step sampleLibraries) ({}, {})
        incompleteRevival).2.retired := by decide +kernel
  have hstopped : (ObservedRuns.run (step sampleLibraries) ({}, {})
      incompleteRevival).2.reconciled = false := by decide +kernel
  obtain hretired | ⟨hreconciled, -⟩ :=
    (h _ surrounded).last (Option.isNone_iff_eq_none.mp hidle)
  · exact hrevived hretired
  · rw [hstopped] at hreconciled
    cases hreconciled

/-- A refresh of which one source failed, whose other source brings nothing back, and a complete
one that revives the node. -/
def carefulRefreshes : List (RefreshStep ℚ) :=
  retiringRefreshes ++ pairRefresh (hours 16) "fifth" (.ok emptyBody) (.error "timed out") ++
    pairRefresh (hours 17) "sixth" (.ok RefreshWorld.sampleBody) (.ok emptyBody)

theorem retired_revived_only_complete_careful :
    ObservedRuns.Throughout (step sampleLibraries) Law
      (({}, {}) : RefreshWorld ℚ × RefreshWatch) carefulRefreshes :=
  @retired_revived_only_complete ℚ _ sampleLibraries {} Store.wellKeyed_empty carefulRefreshes
    (by decide +kernel) (by decide +kernel)

end RefreshWatch

end ProxyFleet
